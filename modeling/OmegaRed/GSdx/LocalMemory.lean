import Mathlib.Data.BitVec
import Mathlib.Logic.Function.Basic
import OmegaRed.GSdx.Address

/-! The GS memory, the accesses to its pixels, and the table of the formats. -/

namespace OmegaRed.GSdx

open OmegaRed.Lib

def m_vmsize : Nat := 4194304

/-- The 16 MiB that are allocated. With `fifo_alloc` they are the same 4 MiB four times. -/
structure VM where
  m_use_fifo_alloc : Bool
  m_vm32 : Nat → BitVec 32

/-- Bits `shift` to `shift + n` of a word replaced. -/
def setBits {n : Nat} (w : BitVec 32) (shift : Nat) (c : BitVec n) : BitVec 32 :=
  (w &&& ~~~((BitVec.allOnes n).setWidth 32 <<< shift)) ||| (c.setWidth 32 <<< shift)

namespace VM

variable (m : VM)

/-- Where a word is stored. -/
def cell (addr : Nat) : Nat := if m.m_use_fifo_alloc then addr % (m_vmsize / 4) else addr

/-- `m_vm32[addr]` -/
def vm32 (addr : Nat) : BitVec 32 := m.m_vm32 (m.cell addr)

/-- `m_vm16[addr]` -/
def vm16 (addr : Nat) : BitVec 16 := (m.vm32 (addr / 2)).extractLsb' (16 * (addr % 2)) 16

/-- `m_vm8[addr]` -/
def vm8 (addr : Nat) : BitVec 8 := (m.vm32 (addr / 4)).extractLsb' (8 * (addr % 4)) 8

def set32 (addr : Nat) (c : BitVec 32) : VM :=
  { m with m_vm32 := Function.update m.m_vm32 (m.cell addr) c }

def set16 (addr : Nat) (c : BitVec 16) : VM :=
  m.set32 (addr / 2) (setBits (m.vm32 (addr / 2)) (16 * (addr % 2)) c)

def set8 (addr : Nat) (c : BitVec 8) : VM :=
  m.set32 (addr / 4) (setBits (m.vm32 (addr / 4)) (8 * (addr % 4)) c)

def readPixel32 (addr : Nat) : BitVec 32 := m.vm32 addr
def readPixel24 (addr : Nat) : BitVec 32 := m.vm32 addr &&& 0x00ffffff#32
def readPixel16 (addr : Nat) : BitVec 32 := (m.vm16 addr).setWidth 32
def readPixel8 (addr : Nat) : BitVec 32 := (m.vm8 addr).setWidth 32

def readPixel4 (addr : Nat) : BitVec 32 :=
  ((m.vm8 (addr >>> 1)).setWidth 32 >>> ((addr % 2) <<< 2)) &&& 0x0f#32

def readPixel8H (addr : Nat) : BitVec 32 := m.vm32 addr >>> 24
def readPixel4HL (addr : Nat) : BitVec 32 := (m.vm32 addr >>> 24) &&& 0x0f#32
def readPixel4HH (addr : Nat) : BitVec 32 := (m.vm32 addr >>> 28) &&& 0x0f#32

def writePixel32 (addr : Nat) (c : BitVec 32) : VM := m.set32 addr c

def writePixel24 (addr : Nat) (c : BitVec 32) : VM :=
  m.set32 addr ((m.vm32 addr &&& 0xff000000#32) ||| (c &&& 0x00ffffff#32))

def writePixel16 (addr : Nat) (c : BitVec 32) : VM := m.set16 addr (c.setWidth 16)
def writePixel8 (addr : Nat) (c : BitVec 32) : VM := m.set8 addr (c.setWidth 8)

def writePixel4 (addr : Nat) (c : BitVec 32) : VM :=
  let shift := (addr % 2) <<< 2
  let addr := addr >>> 1
  m.set8 addr (((m.vm8 addr).setWidth 32 &&& (0xf0#32 >>> shift) |||
    (c &&& 0x0f#32) <<< shift).setWidth 8)

def writePixel8H (addr : Nat) (c : BitVec 32) : VM :=
  m.set32 addr ((m.vm32 addr &&& 0x00ffffff#32) ||| (c <<< 24))

def writePixel4HL (addr : Nat) (c : BitVec 32) : VM :=
  m.set32 addr ((m.vm32 addr &&& 0xf0ffffff#32) ||| ((c &&& 0x0f#32) <<< 24))

def writePixel4HH (addr : Nat) (c : BitVec 32) : VM :=
  m.set32 addr ((m.vm32 addr &&& 0x0fffffff#32) ||| ((c &&& 0x0f#32) <<< 28))

end VM

inductive GS_PSM
  | PSMCT32
  | PSMCT24
  | PSMCT16
  | PSMCT16S
  | PSGPU24
  | PSMT8
  | PSMT4
  | PSMT8H
  | PSMT4HL
  | PSMT4HH
  | PSMZ32
  | PSMZ24
  | PSMZ16
  | PSMZ16S
  deriving DecidableEq

/-- The entries that have no name are those of `PSMCT32`. -/
def GS_PSM.ofCode (psm : Fin 64) : GS_PSM :=
  match psm.val with
  | 1 => .PSMCT24
  | 2 => .PSMCT16
  | 10 => .PSMCT16S
  | 18 => .PSGPU24
  | 19 => .PSMT8
  | 20 => .PSMT4
  | 27 => .PSMT8H
  | 36 => .PSMT4HL
  | 44 => .PSMT4HH
  | 48 => .PSMZ32
  | 49 => .PSMZ24
  | 50 => .PSMZ16
  | 58 => .PSMZ16S
  | _ => .PSMCT32

abbrev PixelAddress := Nat → Nat → Nat → Nat → Nat
abbrev ReadPixelAddr := VM → Nat → BitVec 32
abbrev WritePixelAddr := VM → Nat → BitVec 32 → VM
abbrev ReadPixel := VM → Nat → Nat → Nat → Nat → BitVec 32
abbrev WritePixel := VM → Nat → Nat → BitVec 32 → Nat → Nat → VM

/-- `ReadPixel(x, y, bp, bw)` -/
def readAt (rpa : ReadPixelAddr) (pa : PixelAddress) : ReadPixel :=
  fun m x y bp bw => rpa m (pa x y bp bw)

/-- `WritePixel(x, y, c, bp, bw)` -/
def writeAt (wpa : WritePixelAddr) (pa : PixelAddress) : WritePixel :=
  fun m x y c bp bw => wpa m (pa x y bp bw) c

/-- `psm_t` -/
structure PsmT where
  pa : PixelAddress := pixelAddress32
  bn : PixelAddress := blockNumber32
  rp : ReadPixel := readAt VM.readPixel32 pixelAddress32
  rpa : ReadPixelAddr := VM.readPixel32
  wp : WritePixel := writeAt VM.writePixel32 pixelAddress32
  wpa : WritePixelAddr := VM.writePixel32
  bpp : Nat := 32
  trbpp : Nat := 32
  rowOffset : Vector (Vector Int 4096) 8 := .replicate 8 rowOffset32
  blockOffset : Vector Int 256 := blockOffset32

/-- `rowOffset[((i + 2) >> 2) & 1]` -/
def byParity (rowOffset : Vector (Vector Int 4096) 2) : Vector (Vector Int 4096) 8 :=
  .ofFn fun i => rowOffset.get ⟨rowParity i, Nat.mod_lt _ (by decide)⟩

/-- `m_psm` -/
def GS_PSM.entry : GS_PSM → PsmT
  | PSMCT32 => {}
  | PSMCT24 =>
    { rp := readAt VM.readPixel24 pixelAddress32, rpa := VM.readPixel24
      wp := writeAt VM.writePixel24 pixelAddress32, wpa := VM.writePixel24, trbpp := 24 }
  | PSMCT16 =>
    { pa := pixelAddress16, bn := blockNumber16
      rp := readAt VM.readPixel16 pixelAddress16, rpa := VM.readPixel16
      wp := writeAt VM.writePixel16 pixelAddress16, wpa := VM.writePixel16
      bpp := 16, trbpp := 16, rowOffset := .replicate 8 rowOffset16, blockOffset := blockOffset16 }
  | PSMCT16S =>
    { pa := pixelAddress16S, bn := blockNumber16S
      rp := readAt VM.readPixel16 pixelAddress16S, rpa := VM.readPixel16
      wp := writeAt VM.writePixel16 pixelAddress16S, wpa := VM.writePixel16
      bpp := 16, trbpp := 16, rowOffset := .replicate 8 rowOffset16S
      blockOffset := blockOffset16S }
  -- only the addresses: its pixels are read and written as those of `PSMCT32`
  | PSGPU24 =>
    { pa := pixelAddress16, bn := blockNumber16, bpp := 16, trbpp := 16
      rowOffset := .replicate 8 rowOffset16, blockOffset := blockOffset16 }
  | PSMT8 =>
    { pa := pixelAddress8, bn := blockNumber8
      rp := readAt VM.readPixel8 pixelAddress8, rpa := VM.readPixel8
      wp := writeAt VM.writePixel8 pixelAddress8, wpa := VM.writePixel8
      bpp := 8, trbpp := 8, rowOffset := byParity rowOffset8, blockOffset := blockOffset8 }
  | PSMT4 =>
    { pa := pixelAddress4, bn := blockNumber4
      rp := readAt VM.readPixel4 pixelAddress4, rpa := VM.readPixel4
      wp := writeAt VM.writePixel4 pixelAddress4, wpa := VM.writePixel4
      bpp := 4, trbpp := 4, rowOffset := byParity rowOffset4, blockOffset := blockOffset4 }
  | PSMT8H =>
    { rp := readAt VM.readPixel8H pixelAddress32, rpa := VM.readPixel8H
      wp := writeAt VM.writePixel8H pixelAddress32, wpa := VM.writePixel8H, trbpp := 8 }
  | PSMT4HL =>
    { rp := readAt VM.readPixel4HL pixelAddress32, rpa := VM.readPixel4HL
      wp := writeAt VM.writePixel4HL pixelAddress32, wpa := VM.writePixel4HL, trbpp := 4 }
  | PSMT4HH =>
    { rp := readAt VM.readPixel4HH pixelAddress32, rpa := VM.readPixel4HH
      wp := writeAt VM.writePixel4HH pixelAddress32, wpa := VM.writePixel4HH, trbpp := 4 }
  | PSMZ32 =>
    { pa := pixelAddress32Z, bn := blockNumber32Z
      rp := readAt VM.readPixel32 pixelAddress32Z, rpa := VM.readPixel32
      wp := writeAt VM.writePixel32 pixelAddress32Z, wpa := VM.writePixel32
      rowOffset := .replicate 8 rowOffset32Z, blockOffset := blockOffset32Z }
  | PSMZ24 =>
    { pa := pixelAddress32Z, bn := blockNumber32Z
      rp := readAt VM.readPixel24 pixelAddress32Z, rpa := VM.readPixel24
      wp := writeAt VM.writePixel24 pixelAddress32Z, wpa := VM.writePixel24, trbpp := 24
      rowOffset := .replicate 8 rowOffset32Z, blockOffset := blockOffset32Z }
  | PSMZ16 =>
    { pa := pixelAddress16Z, bn := blockNumber16Z
      rp := readAt VM.readPixel16 pixelAddress16Z, rpa := VM.readPixel16
      wp := writeAt VM.writePixel16 pixelAddress16Z, wpa := VM.writePixel16
      bpp := 16, trbpp := 16, rowOffset := .replicate 8 rowOffset16Z
      blockOffset := blockOffset16Z }
  | PSMZ16S =>
    { pa := pixelAddress16SZ, bn := blockNumber16SZ
      rp := readAt VM.readPixel16 pixelAddress16SZ, rpa := VM.readPixel16
      wp := writeAt VM.writePixel16 pixelAddress16SZ, wpa := VM.writePixel16
      bpp := 16, trbpp := 16, rowOffset := .replicate 8 rowOffset16SZ
      blockOffset := blockOffset16SZ }

def m_psm (psm : Fin 64) : PsmT := (GS_PSM.ofCode psm).entry

/-- `GSOffset`, the block tables and the pixel tables of a buffer. -/
structure GSOffset where
  blockRow : Vector Int 256
  blockCol : Vector Int 256
  pixelRow : Vector Nat 4096
  pixelCol : Vector (Vector Int 4096) 8

/-- `GetOffset(bp, bw, psm)` -/
def getOffset (bp bw : Nat) (psm : Fin 64) : GSOffset where
  blockRow := .ofFn fun i => toShort ((m_psm psm).bn 0 (i.val <<< 3) bp bw)
  blockCol := (m_psm psm).blockOffset
  pixelRow := .ofFn fun i => (m_psm psm).pa 0 (i.val % 2048) bp bw
  pixelCol := (m_psm psm).rowOffset

/-- The layout whose address functions the entry of a format has. -/
def GS_PSM.swizzle : GS_PSM → Swizzle
  | PSMCT32 | PSMCT24 | PSMT8H | PSMT4HL | PSMT4HH => swizzle32
  | PSMCT16 | PSGPU24 => swizzle16
  | PSMCT16S => swizzle16S
  | PSMT8 => swizzle8
  | PSMT4 => swizzle4
  | PSMZ32 | PSMZ24 => swizzle32Z
  | PSMZ16 => swizzle16Z
  | PSMZ16S => swizzle16SZ

namespace GS_PSM

variable (p : GS_PSM)

theorem pa_eq : p.entry.pa = p.swizzle.pixelAddress := by cases p <;> rfl

theorem bn_eq : p.entry.bn = p.swizzle.blockNumber := by cases p <;> rfl

theorem blockOffset_eq : p.entry.blockOffset = p.swizzle.blockOffset := by cases p <;> rfl

theorem byParity_get (rowOffset : Vector (Vector Int 4096) 2) (i : Fin 8) :
    (byParity rowOffset).get i = rowOffset.get ⟨rowParity i, Nat.mod_lt _ (by decide)⟩ :=
  get_ofFn _ i

theorem replicate_get (v : Vector Int 4096) (i : Fin 8) : (Vector.replicate 8 v).get i = v :=
  Vector.getElem_replicate i.isLt

theorem two_rows (s : Swizzle) (i : Fin 2) :
    (#v[s.rowOffset 0, s.rowOffset 2] : Vector _ 2).get i = s.rowOffset (2 * i) := by
  match i with
  | 0 => rfl
  | 1 => rfl

theorem rowOffset_eq (y : Nat) :
    p.entry.rowOffset.get ⟨y % 8, Nat.mod_lt y (by decide)⟩ =
      p.swizzle.rowOffset (p.swizzle.like y) := by
  have hparity : rowParity (y % 8) = rowParity y := by rw [rowParity, Nat.mod_mod, rowParity]
  cases p
  case PSMT8 =>
    rw [entry, byParity_get, rowOffset8, two_rows]
    exact congrArg (fun i => swizzle8.rowOffset (2 * i)) hparity
  case PSMT4 =>
    rw [entry, byParity_get, rowOffset4, two_rows]
    exact congrArg (fun i => swizzle4.rowOffset (2 * i)) hparity
  all_goals exact replicate_get _ _

theorem memoryCells_eq : p.swizzle.memoryCells = 8 * m_vmsize / p.entry.bpp := by
  cases p <;> rfl

theorem cells_eq : p.swizzle.cells = 8 * 256 / p.entry.bpp := by
  cases p <;> rfl

/-- The pixels of a row that have pages of their own: pages of 8 and 4 bit formats are 128 wide,
and the last 64 pixels of an odd width have none. -/
def width (bw : Nat) : Nat :=
  if p = PSMT8 ∨ p = PSMT4 then 128 * (bw / 2) else 64 * bw

theorem width_eq (bw : Nat) : p.width bw = p.swizzle.width bw := by
  cases p <;> rfl

end GS_PSM

end OmegaRed.GSdx

/-! The address maps of every format: they agree, and are one-to-one where the pages of a buffer
are. -/

namespace OmegaRed.GSdx

open OmegaRed.Lib

namespace GSOffset

/-- `pixel.row[y] + pixel.col[y & 7][x]` -/
def pixel (o : GSOffset) (x y : Fin 4096) : Int :=
  o.pixelRow.get y + (o.pixelCol.get ⟨y % 8, Nat.mod_lt _ (by decide)⟩).get x

/-- `block.row[y >> 3] + block.col[x >> 3]` -/
def block (o : GSOffset) (x y : Fin 2048) : Int :=
  o.blockRow.get ⟨y / 8, Nat.div_lt_of_lt_mul y.isLt⟩ +
    o.blockCol.get ⟨x / 8, Nat.div_lt_of_lt_mul x.isLt⟩

end GSOffset

/-- A coordinate as an index of the pixel tables. -/
abbrev tableIndex (x : Fin 2048) : Fin 4096 := x.castLE (by decide)

namespace GS_PSM

variable (p : GS_PSM)

/-- `PixelAddressOrg` of the layout of a format. -/
def pixelAddressOrg : PixelAddress := p.swizzle.pixelAddressOrg

/-- The cells of the 4 MiB. -/
def cells4M : Nat := 8 * m_vmsize / p.entry.bpp

/-- The cells of a block. -/
def blockCells : Nat := 8 * 256 / p.entry.bpp

end GS_PSM

/-- The three address maps at a pixel, and the arrays they are used in. -/
structure AddressesAgree (psm : Fin 64) (bp : Fin 16384) (bw : Fin 64) (x y : Fin 2048) : Prop where
  org : (m_psm psm).pa x y bp bw % (GS_PSM.ofCode psm).cells4M =
    (GS_PSM.ofCode psm).pixelAddressOrg x y bp bw % (GS_PSM.ofCode psm).cells4M
  row : (getOffset bp bw psm).pixel (tableIndex x) (tableIndex y) % (GS_PSM.ofCode psm).cells4M =
    ((GS_PSM.ofCode psm).pixelAddressOrg x y bp bw : Int) % (GS_PSM.ofCode psm).cells4M
  inBlock : (m_psm psm).pa x y bp bw / (GS_PSM.ofCode psm).blockCells % MAX_BLOCKS =
    (m_psm psm).bn x y bp bw % MAX_BLOCKS
  block : (getOffset bp bw psm).block x y % MAX_BLOCKS = (m_psm psm).bn x y bp bw % MAX_BLOCKS
  pa_lt : (m_psm psm).pa x y bp bw < 4 * (GS_PSM.ofCode psm).cells4M
  row_nonneg : 0 ≤ (getOffset bp bw psm).pixel (tableIndex x) (tableIndex y)
  row_lt : (getOffset bp bw psm).pixel (tableIndex x) (tableIndex y) <
    4 * (GS_PSM.ofCode psm).cells4M

/-- Pixels below a width that lie before the end of the 4 MiB from the base have cells of their
own. -/
def CellsApart (psm : Fin 64) (bp : Fin 16384) (bw : Fin 64) (width : Nat) : Prop :=
  ∀ x y x' y' : Fin 2048, x < width → x' < width →
    (GS_PSM.ofCode psm).pixelAddressOrg x y bp bw <
      bp * (GS_PSM.ofCode psm).blockCells + (GS_PSM.ofCode psm).cells4M →
    (GS_PSM.ofCode psm).pixelAddressOrg x' y' bp bw <
      bp * (GS_PSM.ofCode psm).blockCells + (GS_PSM.ofCode psm).cells4M →
    (m_psm psm).pa x y bp bw % (GS_PSM.ofCode psm).cells4M =
      (m_psm psm).pa x' y' bp bw % (GS_PSM.ofCode psm).cells4M →
    (x, y) = (x', y')

section

variable {psm : Fin 64} {bp : Fin 16384} {bw : Fin 64} {x y : Fin 2048}

theorem cells4M_eq (p : GS_PSM) : p.cells4M = p.swizzle.memoryCells := p.memoryCells_eq.symm

theorem blockCells_eq (p : GS_PSM) : p.blockCells = p.swizzle.cells := p.cells_eq.symm

theorem pixel_eq : (getOffset bp bw psm).pixel (tableIndex x) (tableIndex y) =
    (GS_PSM.ofCode psm).swizzle.rowAddress x y bp bw (tableIndex x).isLt := by
  have hrow := (GS_PSM.ofCode psm).rowOffset_eq y
  have hy : (tableIndex y).val % 2048 = y := Nat.mod_eq_of_lt y.isLt
  rw [GSOffset.pixel, getOffset, get_ofFn, hy, Swizzle.rowAddress, m_psm, GS_PSM.pa_eq, ← hrow]
  rfl

theorem pixel_nonneg : 0 ≤ (getOffset bp bw psm).pixel (tableIndex x) (tableIndex y) := by
  rw [pixel_eq]
  exact Swizzle.rowAddress_nonneg x.isLt _

theorem pixel_lt : (getOffset bp bw psm).pixel (tableIndex x) (tableIndex y) <
    2 * (GS_PSM.ofCode psm).cells4M := by
  rw [pixel_eq, cells4M_eq]
  exact Swizzle.rowAddress_lt x.isLt _

theorem block_eq : (getOffset bp bw psm).block x y =
    toShort ((GS_PSM.ofCode psm).swizzle.blockNumber 0 ((y.val / 8) <<< 3) bp bw) +
      (GS_PSM.ofCode psm).swizzle.blockOffset.get ⟨x / 8, Nat.div_lt_of_lt_mul x.isLt⟩ := by
  have hoffset := (GS_PSM.ofCode psm).blockOffset_eq
  rw [GSOffset.block, getOffset, get_ofFn, m_psm, GS_PSM.bn_eq, ← hoffset]

theorem addressesAgree : AddressesAgree psm bp bw x y where
  org := by
    rw [m_psm, GS_PSM.pa_eq, cells4M_eq]
    exact Swizzle.pixelAddress_mod
  row := by
    rw [pixel_eq, cells4M_eq, GS_PSM.pixelAddressOrg, ← Swizzle.rowAddress_add x.isLt,
      Int.add_mul_emod_self_right]
  inBlock := by
    rw [m_psm, GS_PSM.pa_eq, GS_PSM.bn_eq, blockCells_eq]
    exact Swizzle.pixelAddress_div
  block := by
    rw [block_eq, m_psm, GS_PSM.bn_eq]
    exact Swizzle.blockAddress _
  pa_lt := by
    rw [m_psm, GS_PSM.pa_eq, cells4M_eq]
    exact Nat.lt_of_lt_of_le Swizzle.pixelAddress_lt (Nat.mul_le_mul_right _ (by decide))
  row_nonneg := pixel_nonneg
  row_lt := Int.lt_of_lt_of_le pixel_lt (by omega)

theorem cellsApart_width : CellsApart psm bp bw ((GS_PSM.ofCode psm).width bw) := by
  intro x y x' y' hx hx' hin hin' heq
  rw [GS_PSM.width_eq] at hx hx'
  rw [blockCells_eq, cells4M_eq] at hin hin'
  rw [m_psm, GS_PSM.pa_eq, cells4M_eq] at heq
  obtain ⟨hxx, hyy⟩ := Swizzle.cell_inj hx hx' hin hin' heq
  exact Prod.ext (Fin.ext hxx) (Fin.ext hyy)

end

/-- The address maps of a format agree everywhere, and are one-to-one as far as the pages of a
row reach. -/
theorem addresses_agree_and_apart (psm : Fin 64) (bp : Fin 16384) (bw : Fin 64) :
    (∀ x y, AddressesAgree psm bp bw x y) ∧
      CellsApart psm bp bw ((GS_PSM.ofCode psm).width bw) :=
  ⟨fun _ _ => addressesAgree, cellsApart_width⟩

/-- A buffer of 8 bit pixels that is half a page wide has no pages of its own below its first. -/
theorem not_cellsApart : ¬ CellsApart 19 0 1 (64 * (1 : Fin 64)) := by
  intro h
  have heq := h 0 0 0 64 (by decide) (by decide) (by decide) (by decide) (by decide)
  exact absurd heq (by decide)

end OmegaRed.GSdx
