import Mathlib.Tactic.Ring
import OmegaRed.GSdx.LocalMemory
import OmegaRed.Lib.Traces

/-! `Move`, the transfer from GS memory to GS memory. -/

namespace OmegaRed.GSdx

open OmegaRed.Lib

structure GIFRegBITBLTBUF where
  SBP : Fin 16384
  SBW : Fin 64
  SPSM : Fin 64
  DBP : Fin 16384
  DBW : Fin 64
  DPSM : Fin 64

structure GIFRegTRXPOS where
  SSAX : Fin 2048
  SSAY : Fin 2048
  DSAX : Fin 2048
  DSAY : Fin 2048
  DIRX : Bool
  DIRY : Bool

structure GIFRegTRXREG where
  RRW : Fin 4096
  RRH : Fin 4096

/-- What `Move` reads of `m_env`. -/
structure Transfer where
  BITBLTBUF : GIFRegBITBLTBUF
  TRXPOS : GIFRegTRXPOS
  TRXREG : GIFRegTRXREG

/-- `xinc`, `yinc` -/
def step (dir : Bool) : Int := if dir then -1 else 1

/-- Where a side of `size` pixels begins. -/
def first (dir : Bool) (start size : Nat) : Int := if dir then start + size - 1 else start

namespace Transfer

variable (t : Transfer)

def w : Nat := t.TRXREG.RRW
def h : Nat := t.TRXREG.RRH

/-- `sx`, `sy`, `dx`, `dy` after a number of steps. -/
def sx (i : Nat) : Int := first t.TRXPOS.DIRX t.TRXPOS.SSAX t.w + step t.TRXPOS.DIRX * i
def sy (j : Nat) : Int := first t.TRXPOS.DIRY t.TRXPOS.SSAY t.h + step t.TRXPOS.DIRY * j
def dx (i : Nat) : Int := first t.TRXPOS.DIRX t.TRXPOS.DSAX t.w + step t.TRXPOS.DIRX * i
def dy (j : Nat) : Int := first t.TRXPOS.DIRY t.TRXPOS.DSAY t.h + step t.TRXPOS.DIRY * j

/-- A pixel of the loop that `Move` keeps as a comment. -/
def referencePixel (j : Nat) (m : VM) (i : Nat) : VM :=
  (m_psm t.BITBLTBUF.DPSM).wp m (t.dx i).toNat (t.dy j).toNat
    ((m_psm t.BITBLTBUF.SPSM).rp m (t.sx i).toNat (t.sy j).toNat t.BITBLTBUF.SBP t.BITBLTBUF.SBW)
    t.BITBLTBUF.DBP t.BITBLTBUF.DBW

def referenceRow (m : VM) (j : Nat) : VM := (List.range t.w).foldl (t.referencePixel j) m

def reference (m : VM) : VM := (List.range t.h).foldl t.referenceRow m

end Transfer

/-- `v[i]`, where an `i` that is not in the array has no value. -/
def lookup {α : Type} {n : Nat} (v : Vector α n) (i : Int) : Option α :=
  if h : 0 ≤ i ∧ i < n then some (v.get ⟨i.toNat, by omega⟩) else none

/-- An address of the 16 MiB, in units of which there are `limit`. -/
def inRange (limit : Nat) (addr : Int) : Option Nat :=
  if 0 ≤ addr ∧ addr < limit then some addr.toNat else none

/-- The body of an inner loop: which row offset table its rows use, its accesses, and how many
units of these there are. -/
structure Copy where
  col : Int → Int
  slimit : Nat
  dlimit : Nat
  run : VM → Nat → Nat → VM

/-- `d[dcol[x]] = s[scol[x]]` -/
def copy32 : Copy where
  col := fun _ => 0
  slimit := 4 * m_vmsize / 4
  dlimit := 4 * m_vmsize / 4
  run := fun m s d => m.set32 d (m.vm32 s)

/-- `d[dcol[x]] = (d[dcol[x]] & 0xff000000) | (s[scol[x]] & 0x00ffffff)` -/
def copy24 : Copy where
  col := fun _ => 0
  slimit := 4 * m_vmsize / 4
  dlimit := 4 * m_vmsize / 4
  run := fun m s d => m.set32 d ((m.vm32 d &&& 0xff000000#32) ||| (m.vm32 s &&& 0x00ffffff#32))

def copy16 : Copy where
  col := fun _ => 0
  slimit := 4 * m_vmsize / 2
  dlimit := 4 * m_vmsize / 2
  run := fun m s d => m.set16 d (m.vm16 s)

def copy8 : Copy where
  col := fun y => y % 8
  slimit := 4 * m_vmsize
  dlimit := 4 * m_vmsize
  run := fun m s d => m.set8 d (m.vm8 s)

def copy4 : Copy where
  col := fun y => y % 8
  slimit := 4 * m_vmsize * 2
  dlimit := 4 * m_vmsize * 2
  run := fun m s d => m.writePixel4 d (m.readPixel4 s)

/-- How many pixels `rpa` and `wpa` of a format can address. -/
def GS_PSM.limit : GS_PSM → Nat
  | PSMCT16 | PSMCT16S | PSMZ16 | PSMZ16S => 4 * m_vmsize / 2
  | PSMT8 => 4 * m_vmsize
  | PSMT4 => 4 * m_vmsize * 2
  | _ => 4 * m_vmsize / 4

/-- `(m_mem.*dpsm.wpa)(dbase + dcol[x], (m_mem.*spsm.rpa)(sbase + scol[x]))` -/
def copyAny (s d : GS_PSM) : Copy where
  col := fun y => y % 8
  slimit := s.limit
  dlimit := d.limit
  run := fun m saddr daddr => d.entry.wpa m daddr (s.entry.rpa m saddr)

/-- Which of the loops runs. -/
def copyOf (s d : GS_PSM) : Copy :=
  if s.entry.trbpp = d.entry.trbpp ∧ 16 ≤ s.entry.trbpp then
    if s.entry.trbpp = 32 then copy32
    else if s.entry.trbpp = 24 then copy24
    else copy16
  else if s = .PSMT8 ∧ d = .PSMT8 then copy8
  else if s = .PSMT4 ∧ d = .PSMT4 then copy4
  else copyAny s d

namespace Transfer

variable (t : Transfer)

def copy : Copy := copyOf (.ofCode t.BITBLTBUF.SPSM) (.ofCode t.BITBLTBUF.DPSM)

def spo : GSOffset := getOffset t.BITBLTBUF.SBP t.BITBLTBUF.SBW t.BITBLTBUF.SPSM
def dpo : GSOffset := getOffset t.BITBLTBUF.DBP t.BITBLTBUF.DBW t.BITBLTBUF.DPSM

/-- A pixel of a row, given the addresses of the row. -/
def movePixel (j : Nat) (sbase dbase : Nat) (m : VM) (i : Nat) : Option VM := do
  let scol ← lookup (← lookup t.spo.pixelCol (t.copy.col (t.sy j))) (t.sx i)
  let dcol ← lookup (← lookup t.dpo.pixelCol (t.copy.col (t.dy j))) (t.dx i)
  let s ← inRange t.copy.slimit (sbase + scol)
  let d ← inRange t.copy.dlimit (dbase + dcol)
  some (t.copy.run m s d)

def moveRow (m : VM) (j : Nat) : Option VM := do
  let sbase ← lookup t.spo.pixelRow (t.sy j)
  let dbase ← lookup t.dpo.pixelRow (t.dy j)
  (List.range t.w).foldlM (t.movePixel j sbase dbase) m

def move (m : VM) : Option VM := (List.range t.h).foldlM t.moveRow m

end Transfer

theorem lookup_natCast {α : Type} {n : Nat} (v : Vector α n) {i : Nat} (h : i < n) :
    lookup v (i : Int) = some (v.get ⟨i, h⟩) := by
  rw [lookup, dif_pos ⟨Int.natCast_nonneg i, Int.ofNat_lt.mpr h⟩]
  rfl

theorem lookup_tableIndex {α : Type} (v : Vector α 4096) (x : Fin 2048) :
    lookup v (x : Nat) = some (v.get (tableIndex x)) :=
  lookup_natCast v (tableIndex x).isLt

theorem inRange_of_lt {limit : Nat} {addr : Int} (h0 : 0 ≤ addr) (h : addr < limit) :
    inRange limit addr = some addr.toNat := by
  rw [inRange, if_pos ⟨h0, h⟩]

theorem exists_coordinate {dir : Bool} {start size i : Nat} (hi : i < size)
    (hsize : start + size ≤ 2048) :
    ∃ x : Fin 2048, first dir start size + step dir * i = x ∧ start ≤ x ∧ x < start + size := by
  cases dir with
  | false =>
    refine ⟨⟨start + i, by omega⟩, ?_, Nat.le_add_right _ _, Nat.add_lt_add_left hi _⟩
    simp only [first, step, Bool.false_eq_true, if_false]
    push_cast
    ring
  | true =>
    refine ⟨⟨start + size - 1 - i, by omega⟩, ?_, ?_, ?_⟩
    · simp only [first, step, if_true]
      omega
    · change start ≤ start + size - 1 - i
      omega
    · change start + size - 1 - i < start + size
      omega

namespace GS_PSM

variable {p s d : GS_PSM}

theorem rowOffset_const (h : 16 ≤ p.entry.trbpp) (i j : Fin 8) :
    p.entry.rowOffset.get i = p.entry.rowOffset.get j := by
  cases p
  case PSMT8 => exact absurd h (by decide)
  case PSMT4 => exact absurd h (by decide)
  case PSMT8H => exact absurd h (by decide)
  case PSMT4HL => exact absurd h (by decide)
  case PSMT4HH => exact absurd h (by decide)
  all_goals exact (replicate_get _ i).trans (replicate_get _ j).symm

theorem limit_ge : 2 * p.cells4M ≤ p.limit := by cases p <;> decide

theorem cells4M_of_trbpp (h : 24 ≤ p.entry.trbpp) : 2 * p.cells4M ≤ 4 * m_vmsize / 4 := by
  cases p <;> revert h <;> decide

theorem cells4M_le : 2 * p.cells4M ≤ 4 * m_vmsize * 2 := by cases p <;> decide

theorem cells4M_of_16 (h : 16 ≤ p.entry.trbpp) : 2 * p.cells4M ≤ 4 * m_vmsize / 2 := by
  cases p <;> revert h <;> decide

theorem trbpp_16 (h : 16 ≤ p.entry.trbpp) (h32 : p.entry.trbpp ≠ 32) (h24 : p.entry.trbpp ≠ 24) :
    p.entry.trbpp = 16 := by
  cases p <;> revert h h32 h24 <;> decide

theorem access_of_32 (h : p.entry.trbpp = 32) :
    p.entry.rpa = VM.readPixel32 ∧ p.entry.wpa = VM.writePixel32 := by
  cases p
  all_goals first | exact ⟨rfl, rfl⟩ | exact absurd h (by decide)

theorem access_of_24 (h : p.entry.trbpp = 24) :
    p.entry.rpa = VM.readPixel24 ∧ p.entry.wpa = VM.writePixel24 := by
  cases p
  all_goals first | exact ⟨rfl, rfl⟩ | exact absurd h (by decide)

theorem access_of_16 (hp : p ≠ PSGPU24) (h : p.entry.trbpp = 16) :
    p.entry.rpa = VM.readPixel16 ∧ p.entry.wpa = VM.writePixel16 := by
  cases p
  case PSGPU24 => exact absurd rfl hp
  all_goals first | exact ⟨rfl, rfl⟩ | exact absurd h (by decide)

theorem copyOf_limits (s d : GS_PSM) :
    2 * s.cells4M ≤ (copyOf s d).slimit ∧ 2 * d.cells4M ≤ (copyOf s d).dlimit := by
  rw [copyOf]
  split_ifs with h h32 h24 h8 h4
  · have hs : 24 ≤ s.entry.trbpp := by omega
    exact ⟨cells4M_of_trbpp hs, cells4M_of_trbpp (h.1 ▸ hs)⟩
  · have hs : 24 ≤ s.entry.trbpp := by omega
    exact ⟨cells4M_of_trbpp hs, cells4M_of_trbpp (h.1 ▸ hs)⟩
  · exact ⟨cells4M_of_16 h.2, cells4M_of_16 (h.1 ▸ h.2)⟩
  · rw [h8.1, h8.2]
    decide
  · exact ⟨cells4M_le, cells4M_le⟩
  · exact ⟨limit_ge, limit_ge⟩

/-- The loops for wide pixels use the first row offset table, which there is the table of every
row. -/
theorem copyOf_col (s d : GS_PSM) (y : Int) :
    ((copyOf s d).col y = 0 ∧ 16 ≤ s.entry.trbpp ∧ 16 ≤ d.entry.trbpp) ∨
      (copyOf s d).col y = y % 8 := by
  rw [copyOf]
  split_ifs with h h32 h24 h8 h4
  · exact .inl ⟨rfl, h.2, h.1 ▸ h.2⟩
  · exact .inl ⟨rfl, h.2, h.1 ▸ h.2⟩
  · exact .inl ⟨rfl, h.2, h.1 ▸ h.2⟩
  · exact .inr rfl
  · exact .inr rfl
  · exact .inr rfl

theorem lookup_col {y : Nat} {c : Int} (h : (c = 0 ∧ 16 ≤ p.entry.trbpp) ∨ c = (y : Int) % 8) :
    lookup p.entry.rowOffset c =
      some (p.entry.rowOffset.get ⟨y % 8, Nat.mod_lt _ (by decide)⟩) := by
  rcases h with ⟨rfl, hp⟩ | rfl
  · rw [← Int.natCast_zero, lookup_natCast _ (by decide), rowOffset_const hp]
  · exact lookup_natCast _ _

/-- Whichever loop runs, it reads with `rpa` of the source and writes with `wpa` of the
destination. -/
theorem copyOf_run (hs : s ≠ PSGPU24) (hd : d ≠ PSGPU24) (m : VM) (saddr daddr : Nat) :
    (copyOf s d).run m saddr daddr = d.entry.wpa m daddr (s.entry.rpa m saddr) := by
  rw [copyOf]
  split_ifs with h h32 h24 h8 h4
  · rw [(access_of_32 h32).1, (access_of_32 (h.1 ▸ h32)).2]
    rfl
  · rw [(access_of_24 h24).1, (access_of_24 (h.1 ▸ h24)).2, VM.writePixel24, VM.readPixel24,
      BitVec.and_assoc, BitVec.and_self]
    rfl
  · have h16 := trbpp_16 h.2 h32 h24
    rw [(access_of_16 hs h16).1, (access_of_16 hd (h.1 ▸ h16)).2, VM.writePixel16, VM.readPixel16,
      BitVec.setWidth_setWidth_of_le _ (by decide), BitVec.setWidth_eq]
    rfl
  · rw [h8.1, h8.2]
    change m.set8 daddr (m.vm8 saddr) = m.set8 daddr (((m.vm8 saddr).setWidth 32).setWidth 8)
    rw [BitVec.setWidth_setWidth_of_le _ (by decide), BitVec.setWidth_eq]
  · rw [h4.1, h4.2]
    rfl
  · rfl

theorem rp_eq (hp : p ≠ PSGPU24) : p.entry.rp = readAt p.entry.rpa p.entry.pa := by
  cases p
  case PSGPU24 => exact absurd rfl hp
  all_goals rfl

theorem wp_eq (hp : p ≠ PSGPU24) : p.entry.wp = writeAt p.entry.wpa p.entry.pa := by
  cases p
  case PSGPU24 => exact absurd rfl hp
  all_goals rfl

theorem wpa_fifo (p : GS_PSM) (m : VM) (addr : Nat) (c : BitVec 32) :
    (p.entry.wpa m addr c).m_use_fifo_alloc = m.m_use_fifo_alloc := by
  cases p <;> rfl

end GS_PSM

/-- Two addresses, in units of which a word has `u`, that are stored in one place. -/
def VM.SameCell (m : VM) (u a a' : Nat) : Prop := m.cell (a / u) = m.cell (a' / u) ∧ a % u = a' % u

namespace VM

variable {m : VM} {a a' : Nat}

theorem vm32_congr (h : m.cell a = m.cell a') : m.vm32 a = m.vm32 a' := by
  rw [vm32, h, vm32]

theorem set32_congr (h : m.cell a = m.cell a') (c : BitVec 32) : m.set32 a c = m.set32 a' c := by
  rw [set32, h, set32]

theorem SameCell.word (h : m.SameCell 1 a a') : m.cell a = m.cell a' := by
  have hcell := h.1
  rwa [Nat.div_one, Nat.div_one] at hcell

theorem vm16_congr (h : m.SameCell 2 a a') : m.vm16 a = m.vm16 a' := by
  rw [vm16, vm32_congr h.1, h.2, vm16]

theorem set16_congr (h : m.SameCell 2 a a') (c : BitVec 16) : m.set16 a c = m.set16 a' c := by
  rw [set16, vm32_congr h.1, h.2, set32_congr h.1, set16]

theorem vm8_congr (h : m.SameCell 4 a a') : m.vm8 a = m.vm8 a' := by
  rw [vm8, vm32_congr h.1, h.2, vm8]

theorem set8_congr (h : m.SameCell 4 a a') (c : BitVec 8) : m.set8 a c = m.set8 a' c := by
  rw [set8, vm32_congr h.1, h.2, set32_congr h.1, set8]

theorem SameCell.byte (h : m.SameCell 8 a a') : m.SameCell 4 (a >>> 1) (a' >>> 1) := by
  obtain ⟨hcell, hmod⟩ := h
  constructor
  · rw [Nat.shiftRight_eq_div_pow, Nat.shiftRight_eq_div_pow, Nat.div_div_eq_div_mul,
      Nat.div_div_eq_div_mul]
    exact hcell
  · rw [Nat.shiftRight_eq_div_pow, Nat.shiftRight_eq_div_pow]
    omega

theorem SameCell.half (h : m.SameCell 8 a a') : a % 2 = a' % 2 := by
  have hmod := h.2
  omega

end VM

namespace GS_PSM

variable {p : GS_PSM} {m : VM} {a a' : Nat}

theorem rpa_congr (hp : p ≠ PSGPU24) (h : m.SameCell (32 / p.entry.bpp) a a') :
    p.entry.rpa m a = p.entry.rpa m a' := by
  cases p
  case PSGPU24 => exact absurd rfl hp
  case PSMCT16 | PSMCT16S | PSMZ16 | PSMZ16S =>
    exact congrArg (BitVec.setWidth 32) (VM.vm16_congr h)
  case PSMT8 => exact congrArg (BitVec.setWidth 32) (VM.vm8_congr h)
  case PSMT4 =>
    change m.readPixel4 a = m.readPixel4 a'
    rw [VM.readPixel4, VM.vm8_congr h.byte, h.half, VM.readPixel4]
  case PSMCT32 | PSMZ32 => exact VM.vm32_congr h.word
  case PSMCT24 | PSMZ24 => exact congrArg (· &&& 0x00ffffff#32) (VM.vm32_congr h.word)
  case PSMT8H => exact congrArg (fun w : BitVec 32 => w >>> 24) (VM.vm32_congr h.word)
  case PSMT4HL => exact congrArg (fun w : BitVec 32 => (w >>> 24) &&& 0x0f#32) (VM.vm32_congr h.word)
  case PSMT4HH => exact congrArg (fun w : BitVec 32 => (w >>> 28) &&& 0x0f#32) (VM.vm32_congr h.word)

theorem wpa_congr (hp : p ≠ PSGPU24) (h : m.SameCell (32 / p.entry.bpp) a a') (c : BitVec 32) :
    p.entry.wpa m a c = p.entry.wpa m a' c := by
  cases p
  case PSGPU24 => exact absurd rfl hp
  case PSMCT16 | PSMCT16S | PSMZ16 | PSMZ16S => exact VM.set16_congr h _
  case PSMT8 => exact VM.set8_congr h _
  case PSMT4 =>
    change m.writePixel4 a c = m.writePixel4 a' c
    simp only [VM.writePixel4, VM.vm8_congr h.byte, h.half, VM.set8_congr h.byte]
  case PSMCT32 | PSMZ32 => exact VM.set32_congr h.word c
  case PSMCT24 | PSMZ24 =>
    change m.writePixel24 a c = m.writePixel24 a' c
    rw [VM.writePixel24, VM.vm32_congr h.word, VM.set32_congr h.word, VM.writePixel24]
  case PSMT8H =>
    change m.writePixel8H a c = m.writePixel8H a' c
    rw [VM.writePixel8H, VM.vm32_congr h.word, VM.set32_congr h.word, VM.writePixel8H]
  case PSMT4HL =>
    change m.writePixel4HL a c = m.writePixel4HL a' c
    rw [VM.writePixel4HL, VM.vm32_congr h.word, VM.set32_congr h.word, VM.writePixel4HL]
  case PSMT4HH =>
    change m.writePixel4HH a c = m.writePixel4HH a' c
    rw [VM.writePixel4HH, VM.vm32_congr h.word, VM.set32_congr h.word, VM.writePixel4HH]

theorem cells4M_units (p : GS_PSM) : p.cells4M = 32 / p.entry.bpp * (m_vmsize / 4) := by
  cases p <;> rfl

end GS_PSM

/-- In memory that is mapped again after its end, addresses that differ by 4 MiB are one. -/
theorem sameCell_of_mod {m : VM} {u a a' : Nat} (hm : m.m_use_fifo_alloc = true)
    (h : a % (u * (m_vmsize / 4)) = a' % (u * (m_vmsize / 4))) : m.SameCell u a a' := by
  constructor
  · rw [VM.cell, if_pos hm, VM.cell, if_pos hm, ← Nat.mod_mul_right_div_self, h,
      Nat.mod_mul_right_div_self]
  · rw [← Nat.mod_mul_right_mod a u, h, Nat.mod_mul_right_mod]

/-- The row of pages of a pixel does not pass the end of the memory before the pixel. -/
def RowInside (psm : Fin 64) (bp : Fin 16384) (bw : Fin 64) (x y : Nat) : Prop :=
  (bp / 32 + (GS_PSM.ofCode psm).swizzle.pageNumber 0 y bw) % MAX_PAGES +
    x >>> (GS_PSM.ofCode psm).swizzle.pgx < MAX_PAGES

section

variable {psm : Fin 64} {bp : Fin 16384} {bw : Fin 64} {x y : Fin 2048}

theorem pixel_of_rowInside (h : RowInside psm bp bw x y) :
    (getOffset bp bw psm).pixel (tableIndex x) (tableIndex y) = (m_psm psm).pa x y bp bw := by
  have hpage : (bp / 32 + (GS_PSM.ofCode psm).swizzle.pageNumber x y bw) % 512 =
      (bp / 32 + (GS_PSM.ofCode psm).swizzle.pageNumber 0 y bw) % 512 +
        x.val >>> (GS_PSM.ofCode psm).swizzle.pgx := by
    rw [RowInside, MAX_PAGES, Swizzle.pageNumber, Nat.zero_shiftRight, Nat.add_zero] at h
    rw [Swizzle.pageNumber, Swizzle.pageNumber, Nat.zero_shiftRight, Nat.add_zero, ← Nat.add_assoc,
      ← Nat.mod_eq_of_lt h, Nat.mod_add_mod]
  rw [pixel_eq, Swizzle.rowAddress_eq x.isLt, m_psm, GS_PSM.pa_eq, Swizzle.pixelAddress_eq, hpage]
  push_cast
  ring

theorem sameCell_pixel {m : VM} (h : m.m_use_fifo_alloc = true ∨ RowInside psm bp bw x y) :
    m.SameCell (32 / (m_psm psm).bpp)
      ((getOffset bp bw psm).pixel (tableIndex x) (tableIndex y)).toNat
      ((m_psm psm).pa x y bp bw) := by
  have hagree : AddressesAgree psm bp bw x y := addressesAgree
  rcases h with hm | hin
  · apply sameCell_of_mod hm
    rw [m_psm, ← GS_PSM.cells4M_units, ← m_psm, hagree.org]
    have hnat := hagree.row
    rw [← Int.toNat_of_nonneg hagree.row_nonneg] at hnat
    exact_mod_cast hnat
  · rw [pixel_of_rowInside hin, Int.toNat_natCast]
    exact ⟨rfl, rfl⟩

end

namespace Transfer

variable {t : Transfer} {m : VM} {i j : Nat}

/-- The source and the destination have their sides below 2048. -/
structure Fits (t : Transfer) : Prop where
  sx : t.TRXPOS.SSAX + t.w ≤ 2048
  sy : t.TRXPOS.SSAY + t.h ≤ 2048
  dx : t.TRXPOS.DSAX + t.w ≤ 2048
  dy : t.TRXPOS.DSAY + t.h ≤ 2048

/-- No row of the source and none of the destination passes the end of the memory. -/
structure Inside (t : Transfer) : Prop where
  source : ∀ x y, t.TRXPOS.SSAX ≤ x → x < t.TRXPOS.SSAX + t.w → t.TRXPOS.SSAY ≤ y →
    y < t.TRXPOS.SSAY + t.h → RowInside t.BITBLTBUF.SPSM t.BITBLTBUF.SBP t.BITBLTBUF.SBW x y
  destination : ∀ x y, t.TRXPOS.DSAX ≤ x → x < t.TRXPOS.DSAX + t.w → t.TRXPOS.DSAY ≤ y →
    y < t.TRXPOS.DSAY + t.h → RowInside t.BITBLTBUF.DPSM t.BITBLTBUF.DBP t.BITBLTBUF.DBW x y

theorem lookup_spo (t : Transfer) (y : Fin 2048) :
    lookup t.spo.pixelCol (t.copy.col y) =
      some (t.spo.pixelCol.get ⟨tableIndex y % 8, Nat.mod_lt _ (by decide)⟩) :=
  GS_PSM.lookup_col ((GS_PSM.copyOf_col _ _ y).imp_left fun h => ⟨h.1, h.2.1⟩)

theorem lookup_dpo (t : Transfer) (y : Fin 2048) :
    lookup t.dpo.pixelCol (t.copy.col y) =
      some (t.dpo.pixelCol.get ⟨tableIndex y % 8, Nat.mod_lt _ (by decide)⟩) :=
  GS_PSM.lookup_col ((GS_PSM.copyOf_col _ _ y).imp_left fun h => ⟨h.1, h.2.2⟩)

theorem inRange_spo (t : Transfer) (x y : Fin 2048) :
    inRange t.copy.slimit (t.spo.pixel (tableIndex x) (tableIndex y)) =
      some (t.spo.pixel (tableIndex x) (tableIndex y)).toNat := by
  have hlimit := (GS_PSM.copyOf_limits (.ofCode t.BITBLTBUF.SPSM) (.ofCode t.BITBLTBUF.DPSM)).1
  exact inRange_of_lt pixel_nonneg (Int.lt_of_lt_of_le pixel_lt (Int.ofNat_le.mpr hlimit))

theorem inRange_dpo (t : Transfer) (x y : Fin 2048) :
    inRange t.copy.dlimit (t.dpo.pixel (tableIndex x) (tableIndex y)) =
      some (t.dpo.pixel (tableIndex x) (tableIndex y)).toNat := by
  have hlimit := (GS_PSM.copyOf_limits (.ofCode t.BITBLTBUF.SPSM) (.ofCode t.BITBLTBUF.DPSM)).2
  exact inRange_of_lt pixel_nonneg (Int.lt_of_lt_of_le pixel_lt (Int.ofNat_le.mpr hlimit))

theorem movePixel_eq {sx sy dx dy : Fin 2048} (hsx : t.sx i = sx) (hsy : t.sy j = sy)
    (hdx : t.dx i = dx) (hdy : t.dy j = dy) :
    t.movePixel j (t.spo.pixelRow.get (tableIndex sy)) (t.dpo.pixelRow.get (tableIndex dy)) m i =
      some (t.copy.run m (t.spo.pixel (tableIndex sx) (tableIndex sy)).toNat
        (t.dpo.pixel (tableIndex dx) (tableIndex dy)).toNat) := by
  have hs := t.inRange_spo sx sy
  have hd := t.inRange_dpo dx dy
  rw [GSOffset.pixel] at hs hd
  rw [movePixel, hsx, hsy, hdx, hdy, lookup_spo, Option.bind_eq_bind, Option.bind_some,
    lookup_tableIndex, Option.bind_eq_bind, Option.bind_some, lookup_dpo, Option.bind_eq_bind,
    Option.bind_some, lookup_tableIndex, Option.bind_some, hs, Option.bind_some, hd,
    Option.bind_some, GSOffset.pixel, GSOffset.pixel]

theorem moveRow_eq {sy dy : Fin 2048} (hsy : t.sy j = sy) (hdy : t.dy j = dy) :
    t.moveRow m j = (List.range t.w).foldlM (t.movePixel j (t.spo.pixelRow.get (tableIndex sy))
      (t.dpo.pixelRow.get (tableIndex dy))) m := by
  rw [moveRow, hsy, hdy, lookup_tableIndex, lookup_tableIndex]
  rfl

theorem movePixel_isSome (hfits : t.Fits) {sy dy : Fin 2048} (hsy : t.sy j = sy)
    (hdy : t.dy j = dy) (hi : i < t.w) (m : VM) :
    (t.movePixel j (t.spo.pixelRow.get (tableIndex sy)) (t.dpo.pixelRow.get (tableIndex dy))
      m i).isSome := by
  obtain ⟨sx, hsx, -, -⟩ := exists_coordinate hi hfits.sx
  obtain ⟨dx, hdx, -, -⟩ := exists_coordinate hi hfits.dx
  rw [movePixel_eq hsx hsy hdx hdy]
  rfl

theorem moveRow_isSome (hfits : t.Fits) (hj : j < t.h) (m : VM) : (t.moveRow m j).isSome := by
  obtain ⟨sy, hsy, -, -⟩ := exists_coordinate hj hfits.sy
  obtain ⟨dy, hdy, -, -⟩ := exists_coordinate hj hfits.dy
  rw [moveRow_eq hsy hdy]
  exact foldlM_isSome
    (fun m i hi => movePixel_isSome hfits hsy hdy (List.mem_range.mp hi) m) m

/-- The indices into the tables and the memory are in range, whatever the formats. -/
theorem move_isSome (hfits : t.Fits) (m : VM) : (t.move m).isSome :=
  foldlM_isSome (fun m _ hj => moveRow_isSome hfits (List.mem_range.mp hj) m) m

theorem referencePixel_eq (hs : GS_PSM.ofCode t.BITBLTBUF.SPSM ≠ .PSGPU24)
    (hd : GS_PSM.ofCode t.BITBLTBUF.DPSM ≠ .PSGPU24) {sx sy dx dy : Fin 2048} (hsx : t.sx i = sx)
    (hsy : t.sy j = sy) (hdx : t.dx i = dx) (hdy : t.dy j = dy) :
    t.referencePixel j m i = (m_psm t.BITBLTBUF.DPSM).wpa m
      ((m_psm t.BITBLTBUF.DPSM).pa dx dy t.BITBLTBUF.DBP t.BITBLTBUF.DBW)
      ((m_psm t.BITBLTBUF.SPSM).rpa m
        ((m_psm t.BITBLTBUF.SPSM).pa sx sy t.BITBLTBUF.SBP t.BITBLTBUF.SBW)) := by
  rw [referencePixel, hsx, hsy, hdx, hdy, m_psm, m_psm, GS_PSM.rp_eq hs, GS_PSM.wp_eq hd]
  rfl

theorem movePixel_eq_reference (hfits : t.Fits) (hs : GS_PSM.ofCode t.BITBLTBUF.SPSM ≠ .PSGPU24)
    (hd : GS_PSM.ofCode t.BITBLTBUF.DPSM ≠ .PSGPU24)
    (hm : m.m_use_fifo_alloc = true ∨ t.Inside) {sy dy : Fin 2048} (hsy : t.sy j = sy)
    (hdy : t.dy j = dy) (hj : j < t.h) (hi : i < t.w) :
    t.movePixel j (t.spo.pixelRow.get (tableIndex sy)) (t.dpo.pixelRow.get (tableIndex dy)) m i =
      some (t.referencePixel j m i) := by
  obtain ⟨sx, hsx, hsx0, hsx1⟩ := exists_coordinate hi hfits.sx
  obtain ⟨dx, hdx, hdx0, hdx1⟩ := exists_coordinate hi hfits.dx
  obtain ⟨sy', hsy', hsy0, hsy1⟩ := exists_coordinate hj hfits.sy
  obtain ⟨dy', hdy', hdy0, hdy1⟩ := exists_coordinate hj hfits.dy
  obtain rfl : sy = sy' := Fin.ext (Int.ofNat_inj.mp (hsy.symm.trans hsy'))
  obtain rfl : dy = dy' := Fin.ext (Int.ofNat_inj.mp (hdy.symm.trans hdy'))
  have hscell := sameCell_pixel (hm.imp_right fun h => h.source sx sy hsx0 hsx1 hsy0 hsy1)
  have hdcell := sameCell_pixel (hm.imp_right fun h => h.destination dx dy hdx0 hdx1 hdy0 hdy1)
  rw [movePixel_eq hsx hsy hdx hdy, referencePixel_eq hs hd hsx hsy hdx hdy, copy,
    GS_PSM.copyOf_run hs hd]
  exact congrArg some ((GS_PSM.wpa_congr hd hdcell _).trans
    (congrArg _ (GS_PSM.rpa_congr hs hscell)))

theorem referencePixel_fifo (hd : GS_PSM.ofCode t.BITBLTBUF.DPSM ≠ .PSGPU24) (m : VM) :
    (t.referencePixel j m i).m_use_fifo_alloc = m.m_use_fifo_alloc := by
  rw [referencePixel, m_psm, GS_PSM.wp_eq hd]
  exact GS_PSM.wpa_fifo _ _ _ _

theorem referenceRow_fifo (hd : GS_PSM.ofCode t.BITBLTBUF.DPSM ≠ .PSGPU24) (m : VM) :
    (t.referenceRow m j).m_use_fifo_alloc = m.m_use_fifo_alloc := by
  rw [referenceRow]
  induction List.range t.w generalizing m with
  | nil => rfl
  | cons i is ih => rw [List.foldl_cons, ih, referencePixel_fifo hd]

theorem moveRow_eq_reference (hfits : t.Fits) (hs : GS_PSM.ofCode t.BITBLTBUF.SPSM ≠ .PSGPU24)
    (hd : GS_PSM.ofCode t.BITBLTBUF.DPSM ≠ .PSGPU24)
    (hm : m.m_use_fifo_alloc = true ∨ t.Inside) (hj : j < t.h) :
    t.moveRow m j = some (t.referenceRow m j) := by
  obtain ⟨sy, hsy, -, -⟩ := exists_coordinate hj hfits.sy
  obtain ⟨dy, hdy, -, -⟩ := exists_coordinate hj hfits.dy
  rw [moveRow_eq hsy hdy]
  refine foldlM_eq_foldl (fun m : VM => m.m_use_fifo_alloc = true ∨ t.Inside)
    (fun m i hi hm => ?_) (fun m i hm => ?_) hm
  · exact movePixel_eq_reference hfits hs hd hm hsy hdy hj (List.mem_range.mp hi)
  · rw [referencePixel_fifo hd]
    exact hm

end Transfer

open Transfer in
/-- `Move` stays in its tables and in the memory, and does what the loop over the pixels does:
always in memory that is mapped again after its end, and else where no row passes the end. -/
theorem move_eq_reference (t : Transfer) (hfits : t.Fits) :
    (∀ m, (t.move m).isSome) ∧
      (GS_PSM.ofCode t.BITBLTBUF.SPSM ≠ .PSGPU24 → GS_PSM.ofCode t.BITBLTBUF.DPSM ≠ .PSGPU24 →
        ∀ m : VM, m.m_use_fifo_alloc = true ∨ t.Inside → t.move m = some (t.reference m)) := by
  refine ⟨move_isSome hfits, fun hs hd m hm => ?_⟩
  refine foldlM_eq_foldl (fun m : VM => m.m_use_fifo_alloc = true ∨ t.Inside)
    (fun m j hj hm => ?_) (fun m j hm => ?_) hm
  · exact moveRow_eq_reference hfits hs hd hm (List.mem_range.mp hj)
  · rw [referenceRow_fifo hd]
    exact hm

local instance neZero_widths : NeZero 64 := ⟨by decide⟩

/-- A pixel in the page behind the last page, to the second pixel of the memory. -/
def pastTheEnd : Transfer where
  BITBLTBUF := ⟨16352, 32, 0, 0, 1, 0⟩
  TRXPOS := ⟨64, 0, 1, 0, false, false⟩
  TRXREG := ⟨1, 1⟩

theorem move_eq_reference_pastTheEnd :
    pastTheEnd.move ⟨true, fun _ => 5⟩ = some (pastTheEnd.reference ⟨true, fun _ => 5⟩) :=
  (move_eq_reference pastTheEnd ⟨by decide, by decide, by decide, by decide⟩).2 (by decide)
    (by decide) _ (.inl rfl)

/-- Without the second mapping the pixel is read from behind the memory. -/
theorem not_move_eq_reference :
    pastTheEnd.move ⟨false, fun a => if a = 0 then 5 else 0⟩ ≠
      some (pastTheEnd.reference ⟨false, fun a => if a = 0 then 5 else 0⟩) := by
  have hs : pastTheEnd.spo.pixel (tableIndex 64) (tableIndex 0) = 1048576 := by
    rw [Transfer.spo, pixel_eq, Swizzle.rowAddress_eq (by decide)]
    rfl
  have hd : pastTheEnd.dpo.pixel (tableIndex 1) (tableIndex 0) = 1 := by
    rw [Transfer.dpo, pixel_eq, Swizzle.rowAddress_eq (by decide)]
    rfl
  have hpixel (m : VM) : pastTheEnd.movePixel 0 (pastTheEnd.spo.pixelRow.get (tableIndex 0))
      (pastTheEnd.dpo.pixelRow.get (tableIndex 0)) m 0 = some (m.set32 1 (m.vm32 1048576)) := by
    rw [@Transfer.movePixel_eq _ m 0 0 64 0 1 0 (by decide) (by decide)
      (by decide) (by decide), hs, hd]
    rfl
  have hrow (m : VM) : pastTheEnd.moveRow m 0 = some (m.set32 1 (m.vm32 1048576)) := by
    have hw : List.range pastTheEnd.w = [0] := by decide
    rw [@Transfer.moveRow_eq _ m 0 0 0 (by decide) (by decide), hw, List.foldlM_cons,
      hpixel]
    rfl
  have hmove (m : VM) : pastTheEnd.move m = some (m.set32 1 (m.vm32 1048576)) := by
    have hh : List.range pastTheEnd.h = [0] := by decide
    rw [Transfer.move, hh, List.foldlM_cons, hrow]
    rfl
  rw [hmove]
  intro h
  have h1 := congrArg (Option.map fun m : VM => m.vm32 1) h
  exact absurd h1 (by decide)

end OmegaRed.GSdx
