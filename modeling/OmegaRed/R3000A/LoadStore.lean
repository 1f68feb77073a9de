import OmegaRed.R3000A.OpcodeTables
import OmegaRed.Lib.Unaligned

/-! The R3000A interpreter's unaligned loads and stores. -/

namespace OmegaRed.R3000A.LoadStore

open Lib.Unaligned

/-- The registers and a plain memory. -/
structure Machine where
  regs : PsxRegs
  mem : Mem 32

def iopMemRead32 (s : Machine) (addr : BitVec 32) : BitVec 32 := read s.mem addr 4

def iopMemWrite32 (s : Machine) (addr value : BitVec 32) : Machine :=
  { s with mem := write (n := 4) s.mem addr value }

section Interpreter

variable (c : Code) (s : Machine)

/-- `_oB_` -/
def oB : BitVec 32 := s.regs.r c.Rs + c.Imm

def shift : Nat := ((oB c s &&& 3) <<< 3).toNat

def psxLWL : Machine :=
  let mem := iopMemRead32 s (oB c s &&& 0xfffffffc#32)
  let value := (s.regs.r c.Rt &&& (0x00ffffff#32 >>> shift c s)) ||| (mem <<< (24 - shift c s))
  { s with regs := s.regs.put c.Rt value }

def psxLWR : Machine :=
  let mem := iopMemRead32 s (oB c s &&& 0xfffffffc#32)
  let value := (s.regs.r c.Rt &&& (0xffffff00#32 <<< (24 - shift c s))) ||| (mem >>> shift c s)
  { s with regs := s.regs.put c.Rt value }

def psxSWL : Machine :=
  let mem := iopMemRead32 s (oB c s &&& 0xfffffffc#32)
  iopMemWrite32 s (oB c s &&& 0xfffffffc#32)
    ((s.regs.r c.Rt >>> (24 - shift c s)) ||| (mem &&& (0xffffff00#32 <<< shift c s)))

def psxSWR : Machine :=
  let mem := iopMemRead32 s (oB c s &&& 0xfffffffc#32)
  iopMemWrite32 s (oB c s &&& 0xfffffffc#32)
    ((s.regs.r c.Rt <<< shift c s) ||| (mem &&& (0x00ffffff#32 >>> (24 - shift c s))))

end Interpreter

/-- The operands of a left instruction at the last byte of a word and a right one at its first:
one data register, which is no base. -/
structure Operands (s : Machine) (a : BitVec 32) (left right : Code) : Prop where
  data : right.Rt = left.Rt
  base_left : left.Rs ≠ left.Rt
  base_right : right.Rs ≠ left.Rt
  addr_left : oB left s = a + 3
  addr_right : oB right s = a

variable {c : Code} {s : Machine} {a : BitVec 32} {left right : Code}

theorem shift_eq (c : Code) (s : Machine) :
    shift c s = 8 * (oB c s &&& 3).toNat ∧ (oB c s &&& 3).toNat < 4 := by
  have hmod : (oB c s &&& 3).toNat = (oB c s).toNat % 2 ^ 2 :=
    toNat_and_mask (w := 32) (p := 2) (by decide) _
  refine ⟨?_, by omega⟩
  rw [shift, BitVec.toNat_shiftLeft, Nat.shiftLeft_eq, Nat.mod_eq_of_lt (by omega)]
  omega

theorem masks : ∀ k < 4,
    0x00ffffff#32 >>> (8 * k) = lowMask 4 (3 - k) ∧
    0xffffff00#32 <<< (24 - 8 * k) = ~~~lowMask 4 (4 - k) ∧
    0xffffff00#32 <<< (8 * k) = ~~~lowMask 4 (k + 1) ∧
    0x00ffffff#32 >>> (24 - 8 * k) = lowMask 4 k := by decide

theorem psxLWL_eq (c : Code) (s : Machine) : psxLWL c s =
    { s with regs := s.regs.put c.Rt (loadLeft (n := 4) s.mem (oB c s &&& ~~~3#32)
      (oB c s &&& 3#32).toNat (s.regs.r c.Rt)) } := by
  obtain ⟨hshift, hlt⟩ := shift_eq c s
  rw [psxLWL, hshift, (masks _ hlt).1, show 24 = 8 * 3 from rfl, ← Nat.mul_sub]
  rfl

theorem psxLWR_eq (c : Code) (s : Machine) : psxLWR c s =
    { s with regs := s.regs.put c.Rt (loadRight (n := 4) s.mem (oB c s &&& ~~~3#32)
      (oB c s &&& 3#32).toNat (s.regs.r c.Rt)) } := by
  obtain ⟨hshift, hlt⟩ := shift_eq c s
  rw [psxLWR, hshift, (masks _ hlt).2.1]
  rfl

theorem psxSWL_eq (c : Code) (s : Machine) : psxSWL c s =
    { s with
      mem := storeLeft (n := 4) s.mem (oB c s &&& ~~~3#32) (oB c s &&& 3#32).toNat
        (s.regs.r c.Rt) } := by
  obtain ⟨hshift, hlt⟩ := shift_eq c s
  rw [psxSWL, hshift, (masks _ hlt).2.2.1, show 24 = 8 * 3 from rfl, ← Nat.mul_sub]
  rfl

theorem psxSWR_eq (c : Code) (s : Machine) : psxSWR c s =
    { s with
      mem := storeRight (n := 4) s.mem (oB c s &&& ~~~3#32) (oB c s &&& 3#32).toNat
        (s.regs.r c.Rt) } := by
  obtain ⟨hshift, hlt⟩ := shift_eq c s
  rw [psxSWR, hshift, (masks _ hlt).2.2.2]
  rfl

theorem Operands.pair (ho : Operands s a left right) : Pair 4 a (oB left s &&& ~~~3#32)
    (oB right s &&& ~~~3#32) (oB left s &&& 3#32).toNat (oB right s &&& 3#32).toNat := by
  rw [ho.addr_right]
  exact Pair.of_aligned (w := 32) (p := 2) (by decide) a rfl ho.addr_left

theorem put_of_ne {s : PsxRegs} {x y : Fin 32} (v : BitVec 32) (hne : x ≠ y) :
    (s.put y v).r x = s.r x := by
  rw [PsxRegs.put]
  split
  · rfl
  · exact Function.update_of_ne hne _ _

theorem put_put (s : PsxRegs) (x : Fin 32) (v v' : BitVec 32) : (s.put x v).put x v' = s.put x v' := by
  simp only [PsxRegs.put]
  split
  · rfl
  · simp only [Function.update_idem]

theorem put_self {s : PsxRegs} {x : Fin 32} (v : BitVec 32) (hx : x ≠ 0) : (s.put x v).r x = v := by
  rw [PsxRegs.put, if_neg hx]
  exact Function.update_self x v s.r

theorem put_zero (s : PsxRegs) (v : BitVec 32) : s.put 0 v = s := if_pos rfl

theorem oB_put (v : BitVec 32) {x : Fin 32} (hne : c.Rs ≠ x) :
    oB c { s with regs := s.regs.put x v } = oB c s := by
  rw [oB, oB, put_of_ne v hne]

theorem loads (ho : Operands s a left right) :
    psxLWR right (psxLWL left s) = { s with regs := s.regs.put left.Rt (read s.mem a 4) } ∧
    psxLWL left (psxLWR right s) = { s with regs := s.regs.put left.Rt (read s.mem a 4) } := by
  have hp := ho.pair
  have hdata := ho.data
  by_cases hz : left.Rt = 0
  · constructor
    · rw [psxLWR_eq, psxLWL_eq, hdata, hz, put_zero, put_zero, put_zero]
    · rw [psxLWL_eq, psxLWR_eq, hdata, hz, put_zero, put_zero, put_zero]
  · constructor
    · rw [psxLWR_eq, psxLWL_eq, oB_put _ ho.base_right, hdata, put_self _ hz, put_put]
      exact congrArg (fun v => Machine.mk (s.regs.put left.Rt v) s.mem)
        (hp.loadRight_loadLeft (s.regs.r left.Rt))
    · rw [psxLWL_eq, psxLWR_eq, hdata, oB_put _ ho.base_left, put_self _ hz, put_put]
      exact congrArg (fun v => Machine.mk (s.regs.put left.Rt v) s.mem)
        (hp.loadLeft_loadRight (s.regs.r left.Rt))

theorem stores (ho : Operands s a left right) :
    psxSWR right (psxSWL left s) = { s with mem := write (n := 4) s.mem a (s.regs.r left.Rt) } ∧
    psxSWL left (psxSWR right s) = { s with mem := write (n := 4) s.mem a (s.regs.r left.Rt) } := by
  have hp := ho.pair
  constructor
  · rw [psxSWR_eq, psxSWL_eq, ho.data]
    exact congrArg (Machine.mk s.regs) (hp.storeRight_storeLeft (by decide) (s.regs.r left.Rt))
  · rw [psxSWL_eq, psxSWR_eq, ho.data]
    exact congrArg (Machine.mk s.regs) (hp.storeLeft_storeRight (by decide) (s.regs.r left.Rt))

end OmegaRed.R3000A.LoadStore
