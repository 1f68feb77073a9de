import OmegaRed.R5900.Recompiler

/-! The overflow traps of the R5900 interpreter. -/

namespace OmegaRed.R5900

open Lib.Halves

/-- The instructions that trap on overflow. -/
inductive Trapping
  | ADD
  | ADDI
  | SUB
  | DADD
  | DADDI
  | DSUB
  deriving DecidableEq

namespace Trapping

def interpret : Trapping → Code → CpuRegs → Result
  | ADD => R5900.ADD
  | ADDI => R5900.ADDI
  | SUB => R5900.SUB
  | DADD => R5900.DADD
  | DADDI => R5900.DADDI
  | DSUB => R5900.DSUB

def width : Trapping → Nat
  | ADD | ADDI | SUB => 32
  | DADD | DADDI | DSUB => 64

def dest : Trapping → Code → Fin 32
  | ADDI, c | DADDI, c => c.Rt
  | ADD, c | SUB, c | DADD, c | DSUB, c => c.Rd

/-- The registers with the operands. -/
def sources : Trapping → Code → List (Fin 32)
  | ADDI, c | DADDI, c => [c.Rs]
  | ADD, c | SUB, c | DADD, c | DSUB, c => [c.Rs, c.Rt]

/-- The sum or difference of the operands. -/
def exact (t : Trapping) (c : Code) (s : CpuRegs) : Int :=
  match t with
  | ADD | DADD => (s.UD c.Rs).toInt + (s.UD c.Rt).toInt
  | ADDI | DADDI => (s.UD c.Rs).toInt + c.Imm.toInt
  | SUB | DSUB => (s.UD c.Rs).toInt - (s.UD c.Rt).toInt

/-- The operands of a 32-bit instruction are sign-extended words. -/
def Narrow (t : Trapping) (c : Code) (s : CpuRegs) : Prop :=
  t.width = 32 → ∀ r ∈ t.sources c, s.UD r = (s.UL r).signExtend 64

end Trapping

def Fits (w : Nat) (z : Int) : Prop := -2 ^ (w - 1) ≤ z ∧ z < 2 ^ (w - 1)

/-- The registers after an instruction; `cpuException` leaves them as they are. -/
def Result.regs (s : CpuRegs) : Result → CpuRegs
  | .error _ => s
  | .ok s' => s'

structure Exact (t : Trapping) (c : Code) (s : CpuRegs) : Prop where
  trap : t.interpret c s = .error 0x30 ↔ ¬ Fits t.width (t.exact c s)
  kept : ¬ Fits t.width (t.exact c s) → (t.interpret c s).regs s = s
  written : Fits t.width (t.exact c s) →
    t.interpret c s = .ok (s.put (t.dest c) (BitVec.ofInt 64 (t.exact c s)))

/-- A subtraction of the least integer, which is its own negation. -/
def SubtractsLeast (t : Trapping) (c : Code) (s : CpuRegs) : Prop :=
  (t = .SUB ∧ s.UL c.Rt = .intMin 32) ∨ (t = .DSUB ∧ s.UD c.Rt = .intMin 64)

theorem saddOverflow_eq_false_iff {w : Nat} {x y : BitVec w} :
    x.saddOverflow y = false ↔ Fits w (x.toInt + y.toInt) := by
  simp only [BitVec.saddOverflow, Fits, Bool.or_eq_false_iff, decide_eq_false_iff_not]
  omega

theorem saddOverflow_intMin {w : Nat} (hw : 0 < w) (x : BitVec w) :
    x.saddOverflow (.intMin w) = true ↔ Fits w (x.toInt - (BitVec.intMin w).toInt) := by
  have hle := BitVec.le_two_mul_toInt (x := x)
  have hlt := BitVec.two_mul_toInt_lt (x := x)
  have hpow : (2 : Int) ^ w = 2 * 2 ^ (w - 1) := by
    rw [← Int.pow_succ', Nat.sub_add_cancel hw]
  rw [← Bool.not_eq_false, saddOverflow_eq_false_iff, BitVec.toInt_intMin_of_pos hw]
  simp only [Fits]
  omega

section

variable {t : Trapping} {c : Code} {s : CpuRegs}

theorem exact_of_map {e : Except (BitVec 32) (BitVec 64)}
    (hi : t.interpret c s = e.map (s.put (t.dest c)))
    (hfits : Fits t.width (t.exact c s) → e = .ok (BitVec.ofInt 64 (t.exact c s)))
    (hnot : ¬ Fits t.width (t.exact c s) → e = .error 0x30) : Exact t c s where
  trap := by
    constructor
    · intro herr hf
      rw [hi, hfits hf] at herr
      cases herr
    · intro hf
      rw [hi, hnot hf]
      rfl
  kept hf := by
    rw [hi, hnot hf]
    rfl
  written hf := by
    rw [hi, hfits hf]
    rfl

theorem exact_of_add32 {x y : BitVec 32}
    (hi : t.interpret c s = (add32Overflow x y).map (s.put (t.dest c))) (hw : t.width = 32)
    (hz : t.exact c s = x.toInt + y.toInt) : Exact t c s := by
  apply exact_of_map hi
  all_goals
    intro hf
    rw [hw, hz] at hf
    rw [add32Overflow_eq]
  · have hno := saddOverflow_eq_false_iff.2 hf
    rw [if_neg (by simp [hno]), hz]
    refine congrArg _ (BitVec.eq_of_toInt_eq ?_)
    rw [BitVec.toInt_signExtend_of_le (by decide),
      BitVec.toInt_add_of_not_saddOverflow (by simp [hno]), BitVec.toInt_ofInt_eq_self (by decide)]
    all_goals simp only [Fits] at hf; omega
  · rw [← saddOverflow_eq_false_iff, Bool.not_eq_false] at hf
    rw [if_pos hf]

theorem exact_of_add64 {x y : BitVec 64}
    (hi : t.interpret c s = (add64Overflow x y).map (s.put (t.dest c))) (hw : t.width = 64)
    (hz : t.exact c s = x.toInt + y.toInt) : Exact t c s := by
  apply exact_of_map hi
  all_goals
    intro hf
    rw [hw, hz] at hf
    rw [add64Overflow_eq]
  · have hno := saddOverflow_eq_false_iff.2 hf
    rw [if_neg (by simp [hno]), hz, BitVec.ofInt_add, BitVec.ofInt_toInt, BitVec.ofInt_toInt]
  · rw [← saddOverflow_eq_false_iff, Bool.not_eq_false] at hf
    rw [if_pos hf]

theorem not_exact_of_iff (h : t.interpret c s = .error 0x30 ↔ Fits t.width (t.exact c s)) :
    ¬ Exact t c s := by
  intro he
  have htrap := he.trap
  rw [h] at htrap
  exact iff_not_self htrap

theorem toInt_UD (hn : t.Narrow c s) (hw : t.width = 32) {r : Fin 32} (hr : r ∈ t.sources c) :
    (s.UD r).toInt = (s.UL r).toInt := by
  rw [hn hw r hr, BitVec.toInt_signExtend_of_le (by decide)]

theorem map_eq_error {α β : Type} {f : α → β} {e : Except (BitVec 32) α} :
    e.map f = .error 0x30 ↔ e = .error 0x30 := by
  cases e with
  | error code => simp [Except.map]
  | ok v => simp [Except.map]

theorem ite_eq_error {b : Bool} {v : BitVec 64} :
    (if b then .error 0x30 else .ok v : Except (BitVec 32) (BitVec 64)) = .error 0x30 ↔ b = true := by
  cases b with
  | true => exact iff_of_true rfl rfl
  | false => exact iff_of_false (fun h => by cases h) (by decide)

theorem SUB_exact_iff (hn : Trapping.Narrow .SUB c s) :
    Exact .SUB c s ↔ s.UL c.Rt ≠ .intMin 32 := by
  have hrs := toInt_UD hn rfl (r := c.Rs) (by simp [Trapping.sources])
  have hrt := toInt_UD hn rfl (r := c.Rt) (by simp [Trapping.sources])
  have hi : Trapping.interpret .SUB c s =
      (add32Overflow (s.UL c.Rs) (lo (-s.UD c.Rt))).map (s.put (Trapping.dest .SUB c)) := rfl
  have hneg : lo (-s.UD c.Rt) = -s.UL c.Rt := lo_neg _
  constructor
  · intro he hmin
    refine not_exact_of_iff ?_ he
    rw [hi, map_eq_error, hneg, hmin, BitVec.neg_intMin, add32Overflow_eq]
    have hiff := saddOverflow_intMin (by decide) (s.UL c.Rs)
    rw [Trapping.exact, hrs, hrt, hmin]
    exact ite_eq_error.trans hiff
  · intro hne
    refine exact_of_add32 hi rfl ?_
    rw [hneg, BitVec.toInt_neg_of_ne_intMin hne, Trapping.exact, hrs, hrt]
    exact Int.sub_eq_add_neg

theorem DSUB_exact_iff : Exact .DSUB c s ↔ s.UD c.Rt ≠ .intMin 64 := by
  have hi : Trapping.interpret .DSUB c s =
      (add64Overflow (s.UD c.Rs) (-s.UD c.Rt)).map (s.put (Trapping.dest .DSUB c)) := rfl
  constructor
  · intro he hmin
    refine not_exact_of_iff ?_ he
    rw [hi, map_eq_error, hmin, BitVec.neg_intMin, add64Overflow_eq]
    have hiff := saddOverflow_intMin (by decide) (s.UD c.Rs)
    rw [Trapping.exact, hmin]
    exact ite_eq_error.trans hiff
  · intro hne
    refine exact_of_add64 hi rfl ?_
    rw [BitVec.toInt_neg_of_ne_intMin hne, Trapping.exact]
    exact Int.sub_eq_add_neg

/-- The traps and the results are exact but where the least integer is subtracted. -/
theorem exact_iff (t : Trapping) (c : Code) (s : CpuRegs) (hn : t.Narrow c s) :
    Exact t c s ↔ ¬ SubtractsLeast t c s := by
  have hsum (t' : Trapping) (hex : Exact t' c s) (h1 : t' ≠ .SUB) (h2 : t' ≠ .DSUB) :
      Exact t' c s ↔ ¬ SubtractsLeast t' c s := by
    refine iff_of_true hex ?_
    rintro (⟨ht, -⟩ | ⟨ht, -⟩)
    · exact h1 ht
    · exact h2 ht
  cases t with
  | ADD =>
    refine hsum .ADD (exact_of_add32 rfl rfl ?_) (by decide) (by decide)
    rw [Trapping.exact, toInt_UD hn rfl (by simp [Trapping.sources]),
      toInt_UD hn rfl (by simp [Trapping.sources])]
  | ADDI =>
    refine hsum .ADDI (exact_of_add32 rfl rfl ?_) (by decide) (by decide)
    rw [Trapping.exact, toInt_UD hn rfl (by simp [Trapping.sources]),
      BitVec.toInt_signExtend_of_le (by decide)]
  | SUB =>
    rw [SUB_exact_iff hn]
    simp [SubtractsLeast]
  | DADD => exact hsum .DADD (exact_of_add64 rfl rfl rfl) (by decide) (by decide)
  | DADDI =>
    refine hsum .DADDI (exact_of_add64 rfl rfl ?_) (by decide) (by decide)
    rw [Trapping.exact, BitVec.toInt_signExtend_of_le (by decide)]
  | DSUB =>
    rw [DSUB_exact_iff]
    simp [SubtractsLeast]

end

/-- Registers with one word each. -/
def CpuRegs.ofWords (f : Fin 32 → BitVec 64) : CpuRegs where
  GPR r := fun i => if i = 0 then f r else 0
  LO _ := 0
  HI _ := 0

/-- `ADD` of zeros. -/
theorem exact_iff_zero : Exact .ADD ⟨0⟩ (.ofWords fun _ => 0) ↔
    ¬ SubtractsLeast .ADD ⟨0⟩ (.ofWords fun _ => 0) :=
  exact_iff .ADD ⟨0⟩ (.ofWords fun _ => 0) fun _ _ _ => rfl

/-- The least word, subtracted from zero by `SUB r1, r2, r3`. -/
theorem not_exact_SUB : ¬ ∀ t c s, Trapping.Narrow t c s → Exact t c s := by
  intro hall
  let c : Code := ⟨0x00430822⟩
  let s := CpuRegs.ofWords fun r => if r = 3 then 0xffffffff80000000 else 0
  have hn : Trapping.Narrow .SUB c s := by
    intro _ r hr
    have hmem : r = 2 ∨ r = 3 := by simpa [Trapping.sources, c, Code.Rs, Code.Rt] using hr
    rcases hmem with rfl | rfl <;> decide
  exact (SUB_exact_iff hn).1 (hall .SUB c s hn) (by decide)

end OmegaRed.R5900
