import OmegaRed.R3000A.LoadStore
import OmegaRed.R5900.OpcodeImpl
import Mathlib.Data.Fin.VecNotation

/-! The R5900 interpreter's unaligned loads and stores. -/

namespace OmegaRed.R5900.LoadStore

open Lib.Halves Lib.Unaligned

/-- The registers and a plain memory. -/
structure Machine where
  regs : CpuRegs
  mem : Mem 32

def memRead32 (s : Machine) (addr : BitVec 32) : BitVec 32 := read s.mem addr 4
def memRead64 (s : Machine) (addr : BitVec 32) : BitVec 64 := read s.mem addr 8

def memWrite32 (s : Machine) (addr value : BitVec 32) : Machine :=
  { s with mem := write (n := 4) s.mem addr value }

def memWrite64 (s : Machine) (addr : BitVec 32) (value : BitVec 64) : Machine :=
  { s with mem := write (n := 8) s.mem addr value }

def LWL_MASK : Fin 4 → BitVec 32 := ![0xffffff, 0x0000ffff, 0x000000ff, 0x00000000]
def LWR_MASK : Fin 4 → BitVec 32 := ![0x000000, 0xff000000, 0xffff0000, 0xffffff00]
def LWL_SHIFT : Fin 4 → Nat := ![24, 16, 8, 0]
def LWR_SHIFT : Fin 4 → Nat := ![0, 8, 16, 24]

def LDL_MASK : Fin 8 → BitVec 64 :=
  ![0x00ffffffffffffff, 0x0000ffffffffffff, 0x000000ffffffffff, 0x00000000ffffffff,
    0x0000000000ffffff, 0x000000000000ffff, 0x00000000000000ff, 0x0000000000000000]
def LDR_MASK : Fin 8 → BitVec 64 :=
  ![0x0000000000000000, 0xff00000000000000, 0xffff000000000000, 0xffffff0000000000,
    0xffffffff00000000, 0xffffffffff000000, 0xffffffffffff0000, 0xffffffffffffff00]
def LDR_SHIFT : Fin 8 → Nat := ![0, 8, 16, 24, 32, 40, 48, 56]
def LDL_SHIFT : Fin 8 → Nat := ![56, 48, 40, 32, 24, 16, 8, 0]

def SWL_MASK : Fin 4 → BitVec 32 := ![0xffffff00, 0xffff0000, 0xff000000, 0x00000000]
def SWR_MASK : Fin 4 → BitVec 32 := ![0x00000000, 0x000000ff, 0x0000ffff, 0x00ffffff]
def SWR_SHIFT : Fin 4 → Nat := ![0, 8, 16, 24]
def SWL_SHIFT : Fin 4 → Nat := ![24, 16, 8, 0]

def SDL_MASK : Fin 8 → BitVec 64 :=
  ![0xffffffffffffff00, 0xffffffffffff0000, 0xffffffffff000000, 0xffffffff00000000,
    0xffffff0000000000, 0xffff000000000000, 0xff00000000000000, 0x0000000000000000]
def SDR_MASK : Fin 8 → BitVec 64 :=
  ![0x0000000000000000, 0x00000000000000ff, 0x000000000000ffff, 0x0000000000ffffff,
    0x00000000ffffffff, 0x000000ffffffffff, 0x0000ffffffffffff, 0x00ffffffffffffff]
def SDL_SHIFT : Fin 8 → Nat := ![56, 48, 40, 32, 24, 16, 8, 0]
def SDR_SHIFT : Fin 8 → Nat := ![0, 8, 16, 24, 32, 40, 48, 56]

section Interpreter

variable (c : Code) (s : Machine)

def addr : BitVec 32 := s.regs.UL c.Rs + c.Imm.signExtend 32

local instance neZero_shifts : NeZero 8 := ⟨by decide⟩

def shift3 : Fin 4 := .ofNat 4 (addr c s &&& 3).toNat
def shift7 : Fin 8 := .ofNat 8 (addr c s &&& 7).toNat

def LWL : Machine :=
  let mem := memRead32 s (addr c s &&& ~~~3#32)
  let value := (s.regs.UL c.Rt &&& LWL_MASK (shift3 c s)) ||| (mem <<< LWL_SHIFT (shift3 c s))
  -- the masks are unsigned, and so is what is assigned to the 64-bit register
  { s with regs := s.regs.put c.Rt (value.setWidth 64) }

def LWR : Machine :=
  let mem := memRead32 s (addr c s &&& ~~~3#32)
  let mem := (s.regs.UL c.Rt &&& LWR_MASK (shift3 c s)) ||| (mem >>> LWR_SHIFT (shift3 c s))
  if shift3 c s = 0 then { s with regs := s.regs.put c.Rt (mem.signExtend 64) }
  else { s with regs := s.regs.put c.Rt (join (hi (s.regs.UD c.Rt)) mem) }

def LDL : Machine :=
  let mem := memRead64 s (addr c s &&& ~~~7#32)
  let value := (s.regs.UD c.Rt &&& LDL_MASK (shift7 c s)) ||| (mem <<< LDL_SHIFT (shift7 c s))
  { s with regs := s.regs.put c.Rt value }

def LDR : Machine :=
  let mem := memRead64 s (addr c s &&& ~~~7#32)
  let value := (s.regs.UD c.Rt &&& LDR_MASK (shift7 c s)) ||| (mem >>> LDR_SHIFT (shift7 c s))
  { s with regs := s.regs.put c.Rt value }

def SWL : Machine :=
  let mem := memRead32 s (addr c s &&& ~~~3#32)
  memWrite32 s (addr c s &&& ~~~3#32)
    ((s.regs.UL c.Rt >>> SWL_SHIFT (shift3 c s)) ||| (mem &&& SWL_MASK (shift3 c s)))

def SWR : Machine :=
  let mem := memRead32 s (addr c s &&& ~~~3#32)
  memWrite32 s (addr c s &&& ~~~3#32)
    ((s.regs.UL c.Rt <<< SWR_SHIFT (shift3 c s)) ||| (mem &&& SWR_MASK (shift3 c s)))

def SDL : Machine :=
  let mem := memRead64 s (addr c s &&& ~~~7#32)
  memWrite64 s (addr c s &&& ~~~7#32)
    ((s.regs.UD c.Rt >>> SDL_SHIFT (shift7 c s)) ||| (mem &&& SDL_MASK (shift7 c s)))

def SDR : Machine :=
  let mem := memRead64 s (addr c s &&& ~~~7#32)
  memWrite64 s (addr c s &&& ~~~7#32)
    ((s.regs.UD c.Rt <<< SDR_SHIFT (shift7 c s)) ||| (mem &&& SDR_MASK (shift7 c s)))

end Interpreter

/-- The operands of a left instruction at the last of `n` bytes and a right one at the first: one
data register, which is no base. -/
structure Operands (s : Machine) (a : BitVec 32) (n : Nat) (left right : Code) : Prop where
  data : right.Rt = left.Rt
  base_left : left.Rs ≠ left.Rt
  base_right : right.Rs ≠ left.Rt
  addr_left : addr left s = a + BitVec.ofNat 32 (n - 1)
  addr_right : addr right s = a

variable {c : Code} {s : Machine} {a : BitVec 32} {left right : Code}

theorem word_masks : ∀ k : Fin 4,
    LWL_MASK k = lowMask 4 (4 - 1 - k) ∧ LWL_SHIFT k = 8 * (4 - 1 - k) ∧
    LWR_MASK k = ~~~lowMask 4 (4 - k) ∧ LWR_SHIFT k = 8 * k ∧
    SWL_MASK k = ~~~lowMask 4 (k + 1) ∧ SWL_SHIFT k = 8 * (4 - 1 - k) ∧
    SWR_MASK k = lowMask 4 k ∧ SWR_SHIFT k = 8 * k := by decide

theorem dword_masks : ∀ k : Fin 8,
    LDL_MASK k = lowMask 8 (8 - 1 - k) ∧ LDL_SHIFT k = 8 * (8 - 1 - k) ∧
    LDR_MASK k = ~~~lowMask 8 (8 - k) ∧ LDR_SHIFT k = 8 * k ∧
    SDL_MASK k = ~~~lowMask 8 (k + 1) ∧ SDL_SHIFT k = 8 * (8 - 1 - k) ∧
    SDR_MASK k = lowMask 8 k ∧ SDR_SHIFT k = 8 * k := by decide

theorem shift3_val (c : Code) (s : Machine) : (shift3 c s).val = (addr c s &&& 3#32).toNat := by
  have hmod : (addr c s &&& 3#32).toNat = (addr c s).toNat % 2 ^ 2 :=
    toNat_and_mask (w := 32) (p := 2) (by decide) _
  have hlt := Nat.mod_lt (addr c s).toNat (Nat.two_pow_pos 2)
  exact Nat.mod_eq_of_lt (hmod ▸ hlt)

theorem shift7_val (c : Code) (s : Machine) : (shift7 c s).val = (addr c s &&& 7#32).toNat := by
  have hmod : (addr c s &&& 7#32).toNat = (addr c s).toNat % 2 ^ 3 :=
    toNat_and_mask (w := 32) (p := 3) (by decide) _
  have hlt := Nat.mod_lt (addr c s).toNat (Nat.two_pow_pos 3)
  exact Nat.mod_eq_of_lt (hmod ▸ hlt)

/-- What `LWL` and `LWR` merge. -/
def merged (load : Mem 32 → BitVec 32 → Nat → BitVec 32 → BitVec 32) (c : Code) (s : Machine) :
    BitVec 32 :=
  load s.mem (addr c s &&& ~~~3#32) (addr c s &&& 3#32).toNat (s.regs.UL c.Rt)

theorem LWL_eq (c : Code) (s : Machine) : LWL c s =
    { s with regs := s.regs.put c.Rt ((merged (loadLeft (n := 4)) c s).setWidth 64) } := by
  obtain ⟨hmask, hshift, -⟩ := word_masks (shift3 c s)
  rw [LWL, hmask, hshift, shift3_val]
  rfl

theorem LWR_eq (c : Code) (s : Machine) : LWR c s =
    { s with
      regs := s.regs.put c.Rt
        (if (addr c s &&& 3#32).toNat = 0 then (merged (loadRight (n := 4)) c s).signExtend 64
        else join (hi (s.regs.UD c.Rt)) (merged (loadRight (n := 4)) c s)) } := by
  obtain ⟨-, -, hmask, hshift, -⟩ := word_masks (shift3 c s)
  have hzero : shift3 c s = 0 ↔ (addr c s &&& 3#32).toNat = 0 := by
    rw [← shift3_val]
    exact Fin.ext_iff
  rw [LWR, hmask, hshift, shift3_val]
  by_cases hk : shift3 c s = 0
  · rw [if_pos hk, if_pos (hzero.1 hk)]
    rfl
  · rw [if_neg hk, if_neg fun h => hk (hzero.2 h)]
    rfl

theorem LDL_eq (c : Code) (s : Machine) : LDL c s =
    { s with
      regs := s.regs.put c.Rt (loadLeft (n := 8) s.mem (addr c s &&& ~~~7#32)
        (addr c s &&& 7#32).toNat (s.regs.UD c.Rt)) } := by
  obtain ⟨hmask, hshift, -⟩ := dword_masks (shift7 c s)
  rw [LDL, hmask, hshift, shift7_val]
  rfl

theorem LDR_eq (c : Code) (s : Machine) : LDR c s =
    { s with
      regs := s.regs.put c.Rt (loadRight (n := 8) s.mem (addr c s &&& ~~~7#32)
        (addr c s &&& 7#32).toNat (s.regs.UD c.Rt)) } := by
  obtain ⟨-, -, hmask, hshift, -⟩ := dword_masks (shift7 c s)
  rw [LDR, hmask, hshift, shift7_val]
  rfl

theorem SWL_eq (c : Code) (s : Machine) : SWL c s =
    { s with
      mem := storeLeft (n := 4) s.mem (addr c s &&& ~~~3#32) (addr c s &&& 3#32).toNat
        (s.regs.UL c.Rt) } := by
  obtain ⟨-, -, -, -, hmask, hshift, -⟩ := word_masks (shift3 c s)
  rw [SWL, hmask, hshift, shift3_val]
  rfl

theorem SWR_eq (c : Code) (s : Machine) : SWR c s =
    { s with
      mem := storeRight (n := 4) s.mem (addr c s &&& ~~~3#32) (addr c s &&& 3#32).toNat
        (s.regs.UL c.Rt) } := by
  obtain ⟨-, -, -, -, -, -, hmask, hshift⟩ := word_masks (shift3 c s)
  rw [SWR, hmask, hshift, shift3_val]
  rfl

theorem SDL_eq (c : Code) (s : Machine) : SDL c s =
    { s with
      mem := storeLeft (n := 8) s.mem (addr c s &&& ~~~7#32) (addr c s &&& 7#32).toNat
        (s.regs.UD c.Rt) } := by
  obtain ⟨-, -, -, -, hmask, hshift, -⟩ := dword_masks (shift7 c s)
  rw [SDL, hmask, hshift, shift7_val]
  rfl

theorem SDR_eq (c : Code) (s : Machine) : SDR c s =
    { s with
      mem := storeRight (n := 8) s.mem (addr c s &&& ~~~7#32) (addr c s &&& 7#32).toNat
        (s.regs.UD c.Rt) } := by
  obtain ⟨-, -, -, -, -, -, hmask, hshift⟩ := dword_masks (shift7 c s)
  rw [SDR, hmask, hshift, shift7_val]
  rfl

theorem UD_put_of_ne {s : CpuRegs} {x y : Fin 32} (v : BitVec 64) (hne : x ≠ y) :
    (s.put y v).UD x = s.UD x := by
  rw [CpuRegs.put]
  split
  · rfl
  · simp only [CpuRegs.UD, Function.update_of_ne hne]

theorem UD_put_self {s : CpuRegs} {x : Fin 32} (v : BitVec 64) (hx : x ≠ 0) :
    (s.put x v).UD x = v := by
  rw [CpuRegs.put, if_neg hx]
  simp only [CpuRegs.UD, Function.update_self]

theorem put_put (s : CpuRegs) (x : Fin 32) (v v' : BitVec 64) :
    (s.put x v).put x v' = s.put x v' := by
  simp only [CpuRegs.put]
  split
  · rfl
  · simp only [Function.update_self, Function.update_idem]

theorem put_inj {s : CpuRegs} {x : Fin 32} {v v' : BitVec 64} (hx : x ≠ 0) :
    s.put x v = s.put x v' ↔ v = v' := by
  refine ⟨fun heq => ?_, fun heq => heq ▸ rfl⟩
  rw [← UD_put_self (s := s) v hx, heq, UD_put_self v' hx]

theorem put_zero (s : CpuRegs) (v : BitVec 64) : s.put 0 v = s := if_pos rfl

theorem addr_put (v : BitVec 64) {x : Fin 32} (hne : c.Rs ≠ x) :
    addr c { s with regs := s.regs.put x v } = addr c s := by
  rw [addr, addr]
  exact congrArg (lo · + _) (UD_put_of_ne v hne)

theorem Operands.pair4 (ho : Operands s a 4 left right) : Pair 4 a (addr left s &&& ~~~3#32)
    (addr right s &&& ~~~3#32) (addr left s &&& 3#32).toNat (addr right s &&& 3#32).toNat := by
  rw [ho.addr_right]
  exact Pair.of_aligned (w := 32) (p := 2) (by decide) a rfl ho.addr_left

theorem Operands.pair8 (ho : Operands s a 8 left right) : Pair 8 a (addr left s &&& ~~~7#32)
    (addr right s &&& ~~~7#32) (addr left s &&& 7#32).toNat (addr right s &&& 7#32).toNat := by
  rw [ho.addr_right]
  exact Pair.of_aligned (w := 32) (p := 3) (by decide) a rfl ho.addr_left

/-- The state after the register is loaded. -/
def loaded (s : Machine) (x : Fin 32) (v : BitVec 64) : Machine :=
  { s with regs := s.regs.put x v }

theorem loaded_inj {x : Fin 32} {v v' : BitVec 64} :
    loaded s x v = loaded s x v' ↔ x = 0 ∨ v = v' := by
  by_cases hx : x = 0
  · simp [loaded, hx, put_zero]
  · simp only [loaded, Machine.mk.injEq, put_inj hx, and_true, hx, false_or]

theorem LDL_LDR (ho : Operands s a 8 left right) :
    LDR right (LDL left s) = loaded s left.Rt (read s.mem a 8) ∧
    LDL left (LDR right s) = loaded s left.Rt (read s.mem a 8) := by
  have hp := ho.pair8
  have hdata := ho.data
  by_cases hz : left.Rt = 0
  · constructor
    · rw [LDR_eq, LDL_eq, loaded, hdata, hz, put_zero, put_zero, put_zero]
    · rw [LDL_eq, LDR_eq, loaded, hdata, hz, put_zero, put_zero, put_zero]
  · constructor
    · rw [LDR_eq, LDL_eq, addr_put _ ho.base_right, hdata, UD_put_self _ hz, put_put]
      exact congrArg (loaded s left.Rt) (hp.loadRight_loadLeft (s.regs.UD left.Rt))
    · rw [LDL_eq, LDR_eq, hdata, addr_put _ ho.base_left, UD_put_self _ hz, put_put]
      exact congrArg (loaded s left.Rt) (hp.loadLeft_loadRight (s.regs.UD left.Rt))

theorem SDL_SDR (ho : Operands s a 8 left right) :
    SDR right (SDL left s) = { s with mem := write (n := 8) s.mem a (s.regs.UD left.Rt) } ∧
    SDL left (SDR right s) = { s with mem := write (n := 8) s.mem a (s.regs.UD left.Rt) } := by
  have hp := ho.pair8
  constructor
  · rw [SDR_eq, SDL_eq, ho.data]
    exact congrArg (Machine.mk s.regs) (hp.storeRight_storeLeft (by decide) (s.regs.UD left.Rt))
  · rw [SDL_eq, SDR_eq, ho.data]
    exact congrArg (Machine.mk s.regs) (hp.storeLeft_storeRight (by decide) (s.regs.UD left.Rt))

theorem SWL_SWR (ho : Operands s a 4 left right) :
    SWR right (SWL left s) = { s with mem := write (n := 4) s.mem a (s.regs.UL left.Rt) } ∧
    SWL left (SWR right s) = { s with mem := write (n := 4) s.mem a (s.regs.UL left.Rt) } := by
  have hp := ho.pair4
  constructor
  · rw [SWR_eq, SWL_eq, ho.data]
    exact congrArg (Machine.mk s.regs) (hp.storeRight_storeLeft (by decide) (s.regs.UL left.Rt))
  · rw [SWL_eq, SWR_eq, ho.data]
    exact congrArg (Machine.mk s.regs) (hp.storeLeft_storeRight (by decide) (s.regs.UL left.Rt))

theorem lo_setWidth (v : BitVec 32) : lo (v.setWidth 64) = v := by
  apply BitVec.eq_of_toNat_eq
  rw [toNat_lo, BitVec.toNat_setWidth]
  omega

theorem setWidth_eq_join (v : BitVec 32) : v.setWidth 64 = join 0 v := by
  apply BitVec.eq_of_toNat_eq
  rw [toNat_join, BitVec.toNat_setWidth]
  change v.toNat % 2 ^ 64 = 0 * 2 ^ 32 + v.toNat
  omega

/-- `LWR` after `LWL` extends the sign of an aligned word, and keeps the zeros of `LWL` otherwise. -/
theorem LWR_LWL (ho : Operands s a 4 left right) :
    LWR right (LWL left s) = loaded s left.Rt
      (if (a &&& 3#32).toNat = 0 then (memRead32 s a).signExtend 64
      else (memRead32 s a).setWidth 64) := by
  have hp := ho.pair4
  have hdata := ho.data
  by_cases hz : left.Rt = 0
  · rw [LWR_eq, LWL_eq, loaded, hdata, hz, put_zero, put_zero, put_zero]
  · have hL := LWL_eq left s
    have hUD : (LWL left s).regs.UD right.Rt =
        (merged (loadLeft (n := 4)) left s).setWidth 64 := by
      rw [hL, hdata]
      exact UD_put_self _ hz
    have hUL : (LWL left s).regs.UL right.Rt = merged (loadLeft (n := 4)) left s :=
      (congrArg lo hUD).trans (lo_setWidth _)
    have haddr : addr right (LWL left s) = addr right s := by
      rw [hL]
      exact addr_put _ ho.base_right
    have hmem : (LWL left s).mem = s.mem := by rw [hL]
    have hmerged : merged (loadRight (n := 4)) right (LWL left s) = memRead32 s a := by
      rw [merged, hUL, haddr, hmem]
      exact hp.loadRight_loadLeft (s.regs.UL left.Rt)
    rw [LWR_eq, hmerged, haddr, ho.addr_right, hUD, hdata, hL, put_put, setWidth_eq_join,
      setWidth_eq_join, hi_join]
    rfl

theorem LWL_LWR (ho : Operands s a 4 left right) :
    LWL left (LWR right s) = loaded s left.Rt ((memRead32 s a).setWidth 64) := by
  have hp := ho.pair4
  have hdata := ho.data
  by_cases hz : left.Rt = 0
  · rw [LWL_eq, LWR_eq, loaded, hdata, hz, put_zero, put_zero, put_zero]
  · have hR := LWR_eq right s
    have hUL : (LWR right s).regs.UL left.Rt = merged (loadRight (n := 4)) right s := by
      rw [hR, hdata]
      refine (congrArg lo (UD_put_self _ hz)).trans ?_
      split
      · exact lo_signExtend _
      · exact lo_join _ _
    have haddr : addr left (LWR right s) = addr left s := by
      rw [hR, hdata]
      exact addr_put _ ho.base_left
    have hmem : (LWR right s).mem = s.mem := by rw [hR]
    have hmerged : merged (loadLeft (n := 4)) left (LWR right s) = memRead32 s a := by
      rw [merged, hUL, haddr, hmem, merged, hdata]
      exact hp.loadLeft_loadRight (s.regs.UL left.Rt)
    rw [LWL_eq, hmerged, hR, hdata, put_put]
    rfl

theorem setWidth_eq_signExtend (v : BitVec 32) :
    v.setWidth 64 = v.signExtend 64 ↔ v.msb = false := by
  rw [setWidth_eq_join, signExtend_eq, join_inj, signWord]
  cases v.msb with
  | true => exact iff_of_false (fun h => absurd h.1 (by decide)) (by decide)
  | false => exact iff_of_true ⟨rfl, rfl⟩ rfl

/-- Both orders of two instructions lead to a state. -/
def Both {σ : Type} (f g : σ → σ) (s t : σ) : Prop := g (f s) = t ∧ f (g s) = t

/-- The pairs are exact in both orders, but for the sign of words that are loaded by the EE. -/
theorem pairs_iff (a : BitVec 32) :
    (∀ s left right, Operands s a 4 left right →
      (LWR right (LWL left s) = loaded s left.Rt ((memRead32 s a).signExtend 64) ↔
        left.Rt = 0 ∨ (memRead32 s a).msb = false ∨ (a &&& 3#32).toNat = 0) ∧
      (LWL left (LWR right s) = loaded s left.Rt ((memRead32 s a).signExtend 64) ↔
        left.Rt = 0 ∨ (memRead32 s a).msb = false) ∧
      Both (SWL left) (SWR right) s
        { s with mem := write (n := 4) s.mem a (s.regs.UL left.Rt) }) ∧
    (∀ s left right, Operands s a 8 left right →
      Both (LDL left) (LDR right) s (loaded s left.Rt (memRead64 s a)) ∧
      Both (SDL left) (SDR right) s
        { s with mem := write (n := 8) s.mem a (s.regs.UD left.Rt) }) ∧
    ∀ s left right, R3000A.LoadStore.Operands s a left right →
      Both (R3000A.LoadStore.psxLWL left) (R3000A.LoadStore.psxLWR right) s
        { s with regs := s.regs.put left.Rt (R3000A.LoadStore.iopMemRead32 s a) } ∧
      Both (R3000A.LoadStore.psxSWL left) (R3000A.LoadStore.psxSWR right) s
        { s with mem := write (n := 4) s.mem a (s.regs.r left.Rt) } := by
  refine ⟨fun s left right ho => ⟨?_, ?_, SWL_SWR ho⟩,
    fun s left right ho => ⟨LDL_LDR ho, SDL_SDR ho⟩,
    fun s left right ho => ⟨R3000A.LoadStore.loads ho, R3000A.LoadStore.stores ho⟩⟩
  · rw [LWR_LWL ho, loaded_inj]
    by_cases ha : (a &&& 3#32).toNat = 0
    · simp only [ha, if_true, or_true]
    · simp only [ha, if_false, or_false, setWidth_eq_signExtend]
  · rw [LWL_LWR ho, loaded_inj, setWidth_eq_signExtend]

/-- A memory of ones: `LWR r1, 0(r0)`, then `LWL r1, 3(r0)`. -/
theorem not_pairs : ¬ ∀ s a left right, Operands s a 4 left right →
    LWL left (LWR right s) = loaded s left.Rt ((memRead32 s a).signExtend 64) := by
  intro hall
  let s : Machine := ⟨⟨fun _ _ => 0, fun _ => 0, fun _ => 0⟩, fun _ => 0xff⟩
  have ho : Operands s 0 4 ⟨0x88010003⟩ ⟨0x98010000⟩ := by
    constructor <;> decide
  have heq := hall s 0 _ _ ho
  rw [LWL_LWR ho, loaded_inj, setWidth_eq_signExtend] at heq
  exact absurd heq (by decide)

end OmegaRed.R5900.LoadStore
