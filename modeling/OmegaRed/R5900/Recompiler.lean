import OmegaRed.R5900.AritImm
import OmegaRed.R5900.Arit
import OmegaRed.R5900.Div
import OmegaRed.R5900.Logic
import OmegaRed.R5900.ShiftV
import Mathlib.Tactic.Ring

/-! The recompiled instructions against the interpreted ones. -/

namespace OmegaRed.R5900

open Lib.Halves Lib.X86

/-- The generator of an instruction. -/
def Op.recompile : Op → Gen
  | ADDI => recADDI
  | ADDIU => recADDIU
  | DADDI => recDADDI
  | DADDIU => recDADDIU
  | ANDI => recANDI
  | ORI => recORI
  | XORI => recXORI
  | SLTI => recSLTI
  | SLTIU => recSLTIU
  | ADD => recADD
  | ADDU => recADDU
  | DADD => recDADD
  | DADDU => recDADDU
  | SUB => recSUB
  | SUBU => recSUBU
  | DSUB => recDSUB
  | DSUBU => recDSUBU
  | AND => recAND
  | OR => recOR
  | XOR => recXOR
  | NOR => recNOR
  | SLT => recSLT
  | SLTU => recSLTU
  | DIV => recDIV
  | DIV1 => recDIV1
  | DIVU => recDIVU
  | DIVU1 => recDIVU1
  | MULT => recMULT
  | MULT1 => recMULT1
  | MULTU => recMULTU
  | MULTU1 => recMULTU1
  | MADD => recMADD
  | MADD1 => recMADD1
  | MADDU => recMADDU
  | MADDU1 => recMADDU1
  | SRA => recSRA
  | SRL => recSRL
  | SLL => recSLL
  | DSLL => recDSLL
  | DSLL32 => recDSLL32
  | DSRA => recDSRA
  | DSRA32 => recDSRA32
  | DSRL => recDSRL
  | DSRL32 => recDSRL32
  | SLLV => recSLLV
  | SRAV => recSRAV
  | SRLV => recSRLV
  | DSLLV => recDSLLV
  | DSRAV => recDSRAV
  | DSRLV => recDSRLV

/-- The trapping additions and subtractions do not overflow. -/
def Op.NoOverflow (o : Op) (c : Code) (regs : CpuRegs) : Prop :=
  match o with
  | ADDI => (regs.UL c.Rs).saddOverflow (c.Imm.signExtend 32) = false
  | DADDI => (regs.UD c.Rs).saddOverflow (c.Imm.signExtend 64) = false
  | ADD => (regs.UL c.Rs).saddOverflow (regs.UL c.Rt) = false
  | DADD => (regs.UD c.Rs).saddOverflow (regs.UD c.Rt) = false
  | SUB => (regs.UL c.Rs).ssubOverflow (regs.UL c.Rt) = false
  | DSUB => (regs.UD c.Rs).ssubOverflow (regs.UD c.Rt) = false
  | _ => True

/-- The operands that `DIV` folds as it divides. -/
def DivFolds (a b : BitVec 32) : Prop :=
  if b = 0#32 then a.toInt < 0
  else a.toInt.natAbs < b.toInt.natAbs ∨ (0 ≤ a.toInt ∧ 0 < b.toInt) ∨
    (a.toInt ≤ 0 ∧ b.toInt < 0 ∧ ¬(a = 0x80000000#32 ∧ b = 0xffffffff#32)) ∨
    (a.toInt < 0 ∧ 1 < b.toInt ∧ b.toInt ∣ a.toInt + 1)

instance (a b : BitVec 32) : Decidable (DivFolds a b) :=
  inferInstanceAs (Decidable (ite _ _ _))

/-- The operands whose unsigned product is their signed one. -/
def Mult1Folds (a b : BitVec 32) : Prop :=
  (0 ≤ a.toInt ∧ 0 ≤ b.toInt) ∨ a = 0#32 ∨ b = 0#32 ∨ (a = 0x80000000#32 ∧ b = 0x80000000#32)

section Overflow

theorem toInt_sum (x y : BitVec 32) :
    (x.signExtend 64 + y.signExtend 64).toInt = x.toInt + y.toInt := by
  have hx := BitVec.le_toInt x
  have hx' := BitVec.toInt_lt (x := x)
  have hy := BitVec.le_toInt y
  have hy' := BitVec.toInt_lt (x := y)
  rw [BitVec.toInt_add, BitVec.toInt_signExtend_of_le (by decide),
    BitVec.toInt_signExtend_of_le (by decide), Int.bmod_eq_of_le (by omega) (by omega)]

theorem add32Overflow_eq (x y : BitVec 32) : add32Overflow x y =
    if x.saddOverflow y then .error 0x30 else .ok ((x + y).signExtend 64) := by
  have hs := toInt_sum x y
  have hc : (lo (x.signExtend 64 + y.signExtend 64) >>> 31 ≠
      hi (x.signExtend 64 + y.signExtend 64) &&& 1) ↔ x.saddOverflow y = true := by
    have hx := BitVec.le_toInt x
    have hx' := BitVec.toInt_lt (x := x)
    have hy := BitVec.le_toInt y
    have hy' := BitVec.toInt_lt (x := y)
    have hv := (x.signExtend 64 + y.signExtend 64).isLt
    rw [BitVec.toInt_eq_toNat_cond] at hs
    simp only [BitVec.saddOverflow, ne_eq, ← BitVec.toNat_inj, BitVec.toNat_ushiftRight,
      BitVec.toNat_and, Nat.shiftRight_eq_div_pow, toNat_lo, toNat_hi, Bool.or_eq_true,
      decide_eq_true_eq]
    rw [show BitVec.toNat (1 : BitVec 32) = 1 from rfl, Nat.and_one_is_mod]
    split at hs <;> omega
  rw [add32Overflow]
  by_cases ho : x.saddOverflow y = true
  · rw [if_pos (hc.mpr ho), if_pos ho]
  · rw [if_neg (fun hn => ho (hc.mp hn)), if_neg ho]
    refine congrArg _ (BitVec.eq_of_toInt_eq ?_)
    rw [hs, BitVec.toInt_signExtend_of_le (by decide), BitVec.toInt_add_of_not_saddOverflow ho]

theorem add64Overflow_eq (x y : BitVec 64) :
    add64Overflow x y = if x.saddOverflow y then .error 0x30 else .ok (x + y) := by
  rw [add64Overflow, BitVec.saddOverflow_eq]
  have hm : (~~~(x ^^^ y) &&& (x ^^^ (x + y))).slt 0 =
      (x.msb == y.msb && !((x + y).msb == x.msb)) := by
    rw [show (0 : BitVec 64) = 0#64 from rfl, BitVec.slt_zero_eq_msb, BitVec.msb_and,
      BitVec.msb_not, BitVec.msb_xor, BitVec.msb_xor]
    cases x.msb <;> cases y.msb <;> cases (x + y).msb <;> rfl
  rw [hm]

/-- Adding the negation overflows, where the subtraction does not, for the least integer only. -/
theorem saddOverflow_neg {w : Nat} (hw : 0 < w) {a b : BitVec w} (h : a.ssubOverflow b = false) :
    a.saddOverflow (-b) = decide (b = .intMin w) := by
  simp only [BitVec.ssubOverflow, Bool.or_eq_false_iff, decide_eq_false_iff_not] at h
  rw [Bool.eq_iff_iff]
  simp only [BitVec.saddOverflow, Bool.or_eq_true, decide_eq_true_eq]
  by_cases hb : b = .intMin w
  · rw [hb, BitVec.toInt_intMin_of_pos hw] at h
    rw [hb, BitVec.neg_intMin, BitVec.toInt_intMin_of_pos hw]
    exact iff_of_true (Or.inr (by omega)) rfl
  · rw [BitVec.toInt_neg_of_ne_intMin hb]
    exact iff_of_false (by omega) hb

end Overflow

section Fold

theorem signWord_or_eq_iff (q m : BitVec 32) :
    signWord q ||| m = m ↔ 0 ≤ q.toInt ∨ m = 0xffffffff#32 := by
  rw [signWord, BitVec.msb_eq_toInt]
  by_cases hq : q.toInt < 0
  · rw [if_pos (by simpa using hq), show (-1 : BitVec 32) = BitVec.allOnes 32 from rfl,
      BitVec.allOnes_or, eq_comm, show (0xffffffff#32) = BitVec.allOnes 32 from rfl]
    exact ⟨Or.inr, fun h => h.resolve_left (by omega)⟩
  · rw [if_neg (by simpa using hq)]
    exact iff_of_true BitVec.zero_or (Or.inl (by omega))

theorem neg_emod_eq_one_iff (a : Int) {b : Int} (hb : 0 < b) :
    -a % b = 1 ↔ 1 < b ∧ b ∣ a + 1 := by
  constructor
  · intro h
    have hl := Int.emod_lt_of_pos (-a) hb
    have hd := Int.mul_ediv_add_emod (-a) b
    refine ⟨by omega, -(-a / b), ?_⟩
    rw [Int.mul_neg]
    omega
  · rintro ⟨h1, k, hk⟩
    have ha : -a = 1 + b * -k := by
      rw [Int.mul_neg]
      omega
    rw [ha, Int.add_mul_emod_self_left, Int.emod_eq_of_lt (by decide) h1]

theorem tdiv_nonneg_or_iff {a b : Int} (hb : b ≠ 0) :
    (0 ≤ a.tdiv b ∨ a.tmod b = -1) ↔ a.natAbs < b.natAbs ∨ (0 ≤ a ∧ 0 < b) ∨ (a ≤ 0 ∧ b < 0) ∨
      (a < 0 ∧ 1 < b ∧ b ∣ a + 1) := by
  rcases Int.lt_or_lt_of_ne hb with hb | hb <;> rcases Int.lt_or_le a 0 with ha | ha
  · have hq := Int.tdiv_nonneg_of_nonpos_of_nonpos (Int.le_of_lt ha) (Int.le_of_lt hb)
    exact iff_of_true (Or.inl hq) (by omega)
  · -- the quotient is minus `a / -b`, the remainder is not negative
    have hq : a.tdiv b = -(a / -b) := by
      rw [← Int.tdiv_eq_ediv_of_nonneg ha, Int.tdiv_neg, Int.neg_neg]
    have hm : 0 ≤ a.tmod b := Int.tmod_nonneg b ha
    have hd : 1 ≤ a / -b ↔ -b ≤ a := by
      rw [Int.le_ediv_iff_mul_le (by omega), Int.one_mul]
    have hn : 0 ≤ a / -b := Int.ediv_nonneg ha (by omega)
    omega
  · have hq : a.tdiv b = -(-a / b) := by
      rw [← Int.tdiv_eq_ediv_of_nonneg (by omega), Int.neg_tdiv, Int.neg_neg]
    have hm : a.tmod b = -(-a % b) := by
      rw [← Int.tmod_eq_emod_of_nonneg (by omega), Int.neg_tmod, Int.neg_neg]
    have hd : 1 ≤ -a / b ↔ b ≤ -a := by rw [Int.le_ediv_iff_mul_le hb, Int.one_mul]
    have hn : 0 ≤ -a / b := Int.ediv_nonneg (by omega) (by omega)
    have hr := neg_emod_eq_one_iff a hb
    rw [hq, hm]
    omega
  · have hq := Int.tdiv_nonneg ha (Int.le_of_lt hb)
    exact iff_of_true (Or.inl hq) (by omega)

theorem toInt_sdiv {a b : BitVec 32} (hb : b ≠ 0#32)
    (ho : ¬(a = 0x80000000#32 ∧ b = 0xffffffff#32)) :
    (a.sdiv b).toInt = a.toInt.tdiv b.toInt := by
  obtain ⟨hl, hu⟩ := tdiv_fits a b hb ho
  rw [BitVec.toInt_sdiv, Int.bmod_eq_of_le (by omega) (by omega)]

theorem signedFold_eq_iff (a b : BitVec 32) :
    signedFold a b = signedQuotient a b ↔ DivFolds a b := by
  rw [signedFold, Prod.ext_iff]
  simp only [true_and, signWord_or_eq_iff, signedQuotient, DivFolds]
  by_cases ho : a = 0x80000000#32 ∧ b = 0xffffffff#32
  · obtain ⟨rfl, rfl⟩ := ho
    decide
  rw [if_neg ho]
  by_cases hb : b = 0#32
  · rw [if_pos hb, if_pos hb]
    dsimp only
    by_cases ha : a.toInt < 0
    · rw [if_pos (by simpa [BitVec.slt] using ha)]
      exact iff_of_true (Or.inl (by decide)) ha
    · rw [if_neg (by simpa [BitVec.slt] using ha)]
      refine iff_of_false (fun h => h.elim (by decide) fun e => ha ?_) ha
      rw [e]
      decide
  · rw [if_neg hb, if_neg hb]
    have hbi : b.toInt ≠ 0 := fun e => hb (BitVec.eq_of_toInt_eq e)
    have hm : a.srem b = 0xffffffff#32 ↔ a.toInt.tmod b.toInt = -1 := by
      rw [← BitVec.toInt_inj, BitVec.toInt_srem]
      rfl
    rw [toInt_sdiv hb ho, hm, tdiv_nonneg_or_iff hbi]
    simp only [ho, not_false_iff, and_true]

theorem toInt_setWidth (a : BitVec 32) : (a.setWidth 64).toInt = a.toNat := by
  have ha := a.isLt
  have hn : (a.setWidth 64).toNat = a.toNat := BitVec.toNat_setWidth_of_le (by decide)
  rw [BitVec.toInt_eq_toNat_of_lt (by omega), hn]

theorem unsignedProduct_eq_signedProduct (a b : BitVec 32) :
    unsignedProduct a b = signedProduct a b ↔
      ((a.toNat * b.toNat : Int) - a.toInt * b.toInt) % 2 ^ 64 = 0 := by
  have hu : (unsignedProduct a b).toInt = (a.toNat * b.toNat : Int).bmod (2 ^ 64) := by
    rw [unsignedProduct, BitVec.toInt_mul, toInt_setWidth, toInt_setWidth]
  have hs : (signedProduct a b).toInt = (a.toInt * b.toInt).bmod (2 ^ 64) := by
    rw [signedProduct, BitVec.toInt_mul, BitVec.toInt_signExtend_of_le (by decide),
      BitVec.toInt_signExtend_of_le (by decide)]
  rw [← BitVec.toInt_inj, hu, hs]
  simp only [Int.bmod]
  split <;> split <;> omega

theorem unsignedProduct_eq_iff (a b : BitVec 32) :
    unsignedProduct a b = signedProduct a b ↔ Mult1Folds a b := by
  have ha := a.isLt
  have hb := b.isLt
  rw [unsignedProduct_eq_signedProduct, Mult1Folds]
  simp only [← BitVec.toNat_inj, BitVec.toInt_eq_toNat_cond, BitVec.toNat_ofNat]
  -- negative operands add multiples of the other one to the upper half
  split <;> split
  · exact iff_of_true (by simp) (Or.inl (by omega))
  · have hp : (a.toNat * b.toNat : Int) - a.toNat * ((b.toNat : Int) - (2 ^ 32 : Nat)) =
        2 ^ 32 * a.toNat := by
      push_cast
      ring
    rw [hp]
    omega
  · have hp : (a.toNat * b.toNat : Int) - ((a.toNat : Int) - (2 ^ 32 : Nat)) * b.toNat =
        2 ^ 32 * b.toNat := by
      push_cast
      ring
    rw [hp]
    omega
  · have hp : (a.toNat * b.toNat : Int) -
        ((a.toNat : Int) - (2 ^ 32 : Nat)) * ((b.toNat : Int) - (2 ^ 32 : Nat)) =
        2 ^ 32 * a.toNat + 2 ^ 32 * b.toNat - 2 ^ 64 := by
      push_cast
      ring
    rw [hp]
    omega

end Fold

/-- The interpreter negates the subtrahend before it tests for overflow. -/
def Op.Negates (o : Op) (c : Code) (regs : CpuRegs) : Prop :=
  match o with
  | SUB => regs.UL c.Rt ≠ .intMin 32
  | DSUB => regs.UD c.Rt ≠ .intMin 64
  | _ => True

/-- The operands that are folded as the interpreter computes. -/
def Op.Folds (o : Op) (c : Code) (regs : CpuRegs) : Prop :=
  match o with
  | DIV | DIV1 => DivFolds (regs.UL c.Rs) (regs.UL c.Rt)
  | MULT1 => Mult1Folds (regs.UL c.Rs) (regs.UL c.Rt)
  | _ => True

/-- The source operands are known constants. -/
def Op.Known (o : Op) (c : Code) (r : Rec) : Prop :=
  match o with
  | ADDI | ADDIU | DADDI | DADDIU | ANDI | ORI | XORI | SLTI | SLTIU => r.hasConst c.Rs = true
  | SRA | SRL | SLL | DSLL | DSLL32 | DSRA | DSRA32 | DSRL | DSRL32 => r.hasConst c.Rt = true
  | _ => r.hasConst c.Rs = true ∧ r.hasConst c.Rt = true

/-- The recompiled instruction agrees with the interpreted one. -/
def Op.Agrees (o : Op) (c : Code) (r : Rec) (regs : CpuRegs) : Prop :=
  o.Negates c regs ∧ (r.hasConst c.Rs = true ∧ r.hasConst c.Rt = true → o.Folds c regs)

theorem represents_unique {r : Rec} {s₀ : Machine} {regs regs' : CpuRegs}
    (h : Represents r s₀ regs) (h' : Represents r s₀ regs') : regs = regs' := by
  obtain ⟨s, hs, -, rfl⟩ := h
  obtain ⟨s', hs', -, rfl⟩ := h'
  rw [Option.some.inj (hs.symm.trans hs')]

section Interpret

variable {c : Code} {regs : CpuRegs}

theorem div_eq (i : Fin 2) : div c regs i =
    .ok (regs.putQuotient i (signedQuotient (regs.UL c.Rs) (regs.UL c.Rt))) := by
  have h1 : (1#32).signExtend 64 = (1 : BitVec 64) := by decide
  have hm : (0xffffffff#32).signExtend 64 = (-1 : BitVec 64) := by decide
  rw [div, signedQuotient]
  by_cases ho : regs.UL c.Rs = 0x80000000#32 ∧ regs.UL c.Rt = 0xffffffff#32
  · rw [if_pos ho, if_pos ho]
    rfl
  rw [if_neg ho, if_neg ho]
  by_cases hb : regs.UL c.Rt = 0#32
  · rw [if_neg (fun hn => hn hb), if_pos hb, CpuRegs.putQuotient]
    by_cases ha : (regs.UL c.Rs).slt 0#32 = true
    · rw [if_pos ha, if_pos ha, h1]
    · rw [if_neg ha, if_neg ha, hm]
  · rw [if_pos hb, if_neg hb]
    rfl

theorem divu_eq (i : Fin 2) : divu c regs i =
    .ok (regs.putQuotient i (unsignedQuotient (regs.UL c.Rs) (regs.UL c.Rt))) := by
  have hm : (0xffffffff#32).signExtend 64 = (-1 : BitVec 64) := by decide
  rw [divu, unsignedQuotient]
  by_cases hb : regs.UL c.Rt = 0#32
  · rw [if_neg (fun hn => hn hb), if_pos hb, CpuRegs.putQuotient, hm]
  · rw [if_pos hb, if_neg hb]
    rfl

theorem signExtend_inj {v w : BitVec 32} : v.signExtend 64 = w.signExtend 64 ↔ v = w :=
  ⟨fun h => by simpa using congrArg lo h, fun h => h ▸ rfl⟩

theorem putQuotient_inj (i : Fin 2) {q q' : BitVec 32 × BitVec 32} :
    regs.putQuotient i q = regs.putQuotient i q' ↔ q = q' := by
  refine ⟨fun h => ?_, fun h => h ▸ rfl⟩
  have hl := congrFun (congrArg CpuRegs.LO h) i
  have hh := congrFun (congrArg CpuRegs.HI h) i
  simp only [CpuRegs.putQuotient, CpuRegs.putHILO, Function.update_self, signExtend_inj] at hl hh
  exact Prod.ext hl hh

theorem LO_put (s : CpuRegs) (x : Fin 32) (v : BitVec 64) : (s.put x v).LO = s.LO := by
  rw [CpuRegs.put]
  split <;> rfl

theorem HI_put (s : CpuRegs) (x : Fin 32) (v : BitVec 64) : (s.put x v).HI = s.HI := by
  rw [CpuRegs.put]
  split <;> rfl

theorem putProduct_inj (i : Fin 2) {v w : BitVec 64} :
    regs.putProduct c i v = regs.putProduct c i w ↔ v = w := by
  refine ⟨fun h => ?_, fun h => h ▸ rfl⟩
  have hl := congrFun (congrArg CpuRegs.LO h) i
  have hh := congrFun (congrArg CpuRegs.HI h) i
  simp only [CpuRegs.putProduct, LO_put, HI_put, CpuRegs.putHILO, Function.update_self,
    signExtend_inj] at hl hh
  rw [← join_hi_lo v, ← join_hi_lo w, hl, hh]

theorem ADD_ok (h : (regs.UL c.Rs).saddOverflow (regs.UL c.Rt) = false) :
    ADD c regs = .ok (regs.put c.Rd ((regs.UL c.Rs + regs.UL c.Rt).signExtend 64)) := by
  rw [ADD, add32Overflow_eq, if_neg (by simp [h])]
  rfl

theorem DADD_ok (h : (regs.UD c.Rs).saddOverflow (regs.UD c.Rt) = false) :
    DADD c regs = .ok (regs.put c.Rd (regs.UD c.Rs + regs.UD c.Rt)) := by
  rw [DADD, add64Overflow_eq, if_neg (by simp [h])]
  rfl

theorem ADDI_ok (h : (regs.UL c.Rs).saddOverflow (c.Imm.signExtend 32) = false) :
    ADDI c regs = .ok (regs.put c.Rt ((regs.UL c.Rs + c.Imm.signExtend 32).signExtend 64)) := by
  rw [ADDI, add32Overflow_eq, if_neg (by simp [h])]
  rfl

theorem DADDI_ok (h : (regs.UD c.Rs).saddOverflow (c.Imm.signExtend 64) = false) :
    DADDI c regs = .ok (regs.put c.Rt (regs.UD c.Rs + c.Imm.signExtend 64)) := by
  rw [DADDI, add64Overflow_eq, if_neg (by simp [h])]
  rfl

theorem SUB_ok_iff (h : (regs.UL c.Rs).ssubOverflow (regs.UL c.Rt) = false) :
    SUB c regs = .ok (regs.put c.Rd ((regs.UL c.Rs - regs.UL c.Rt).signExtend 64)) ↔
      regs.UL c.Rt ≠ .intMin 32 := by
  rw [SUB, lo_neg, show lo (regs.UD c.Rt) = regs.UL c.Rt from rfl, add32Overflow_eq,
    saddOverflow_neg (by decide) h, ← BitVec.sub_eq_add_neg]
  by_cases hb : regs.UL c.Rt = .intMin 32
  · rw [if_pos (by simpa using hb)]
    exact iff_of_false (fun hn => nomatch hn) (fun hn => hn hb)
  · rw [if_neg (by simpa using hb)]
    exact iff_of_true rfl hb

theorem DSUB_ok_iff (h : (regs.UD c.Rs).ssubOverflow (regs.UD c.Rt) = false) :
    DSUB c regs = .ok (regs.put c.Rd (regs.UD c.Rs - regs.UD c.Rt)) ↔
      regs.UD c.Rt ≠ .intMin 64 := by
  rw [DSUB, add64Overflow_eq, saddOverflow_neg (by decide) h, ← BitVec.sub_eq_add_neg]
  by_cases hb : regs.UD c.Rt = .intMin 64
  · rw [if_pos (by simpa using hb)]
    exact iff_of_false (fun hn => nomatch hn) (fun hn => hn hb)
  · rw [if_neg (by simpa using hb)]
    exact iff_of_true rfl hb

end Interpret

/-- The recompiled code leaves the registers that the interpreter does. -/
def Op.Correct (o : Op) (c : Code) (r : Rec) (s₀ : Machine) (regs : CpuRegs) : Prop :=
  ∃ regs', o.interpret c regs = .ok regs' ∧ Represents (o.recompile c r) s₀ regs'

section Recompile

variable {o : Op} {c : Code} {r : Rec} {s₀ : Machine} {regs : CpuRegs}

theorem correct_iff {regs₁ : CpuRegs} (h : Represents (o.recompile c r) s₀ regs₁) :
    o.Correct c r s₀ regs ↔ o.interpret c regs = .ok regs₁ := by
  constructor
  · rintro ⟨regs', hi, hr⟩
    rw [hi, represents_unique hr h]
  · exact fun hi => ⟨regs₁, hi, h⟩

theorem correct_of {regs₁ : CpuRegs} (h : Represents (o.recompile c r) s₀ regs₁)
    (hi : o.interpret c regs = .ok regs₁) (ha : o.Agrees c r regs) :
    o.Correct c r s₀ regs ↔ o.Agrees c r regs :=
  iff_of_true ⟨regs₁, hi, h⟩ ha

theorem quotient_eq_iff (a b : BitVec 32) : r.quotient c a b = signedQuotient a b ↔
    (r.hasConst c.Rs = true ∧ r.hasConst c.Rt = true → DivFolds a b) := by
  rw [Rec.quotient]
  by_cases hc : r.hasConst c.Rs = true ∧ r.hasConst c.Rt = true
  · rw [if_pos hc, signedFold_eq_iff]
    exact ⟨fun h _ => h, fun h => h hc⟩
  · rw [if_neg hc]
    exact iff_of_true rfl (fun hn => absurd hn hc)

theorem division_agrees {i : Fin 2} (hi : o.interpret c regs = div c regs i)
    (hf : o.Agrees c r regs ↔ (r.hasConst c.Rs = true ∧ r.hasConst c.Rt = true →
      DivFolds (regs.UL c.Rs) (regs.UL c.Rt)))
    (h : Represents (o.recompile c r) s₀
      (regs.putQuotient i (r.quotient c (regs.UL c.Rs) (regs.UL c.Rt)))) :
    o.Correct c r s₀ regs ↔ o.Agrees c r regs := by
  rw [correct_iff h, hi, div_eq, hf, ← quotient_eq_iff, Except.ok.injEq, putQuotient_inj, eq_comm]

theorem product_agrees {i : Fin 2} {v w : BitVec 64}
    (hi : o.interpret c regs = .ok (regs.putProduct c i v))
    (h : Represents (o.recompile c r) s₀ (regs.putProduct c i w))
    (hf : w = v ↔ o.Agrees c r regs) : o.Correct c r s₀ regs ↔ o.Agrees c r regs := by
  rw [correct_iff h, hi, ← hf, Except.ok.injEq, putProduct_inj, eq_comm]

theorem recompile_agrees (h : Represents r s₀ regs) (hn : o.NoOverflow c regs) :
    o.Correct c r s₀ regs ↔ o.Agrees c r regs := by
  have ht : True ∧ (r.hasConst c.Rs = true ∧ r.hasConst c.Rt = true → True) :=
    ⟨trivial, fun _ => trivial⟩
  cases o
  case ADD => exact correct_of (recADD_represents h) (ADD_ok hn) ht
  case ADDI => exact correct_of (recADDI_represents h) (ADDI_ok hn) ht
  case DADD => exact correct_of (recDADD_represents h) (DADD_ok hn) ht
  case DADDI => exact correct_of (recDADDI_represents h) (DADDI_ok hn) ht
  case SUB =>
    refine (correct_iff (o := .SUB) (recSUB_represents h)).trans ((SUB_ok_iff hn).trans ?_)
    exact ⟨fun hb => ⟨hb, fun _ => trivial⟩, And.left⟩
  case DSUB =>
    refine (correct_iff (o := .DSUB) (recDSUB_represents h)).trans ((DSUB_ok_iff hn).trans ?_)
    exact ⟨fun hb => ⟨hb, fun _ => trivial⟩, And.left⟩
  case DIV =>
    exact division_agrees (o := .DIV) rfl ⟨And.right, fun hf => ⟨trivial, hf⟩⟩
      (recDIV_represents h)
  case DIV1 =>
    exact division_agrees (o := .DIV1) rfl ⟨And.right, fun hf => ⟨trivial, hf⟩⟩
      (recDIV1_represents h)
  case DIVU => exact correct_of (o := .DIVU) (recDIVU_represents h) (divu_eq 0) ht
  case DIVU1 => exact correct_of (o := .DIVU1) (recDIVU1_represents h) (divu_eq 1) ht
  case MULT1 =>
    refine product_agrees (o := .MULT1) rfl (recMULT1_represents h) ?_
    by_cases hc : r.hasConst c.Rs = true ∧ r.hasConst c.Rt = true
    · rw [if_pos hc]
      exact (unsignedProduct_eq_iff _ _).trans ⟨fun hf => ⟨trivial, fun _ => hf⟩, fun hf => hf.2 hc⟩
    · rw [if_neg hc]
      exact iff_of_true rfl ⟨trivial, fun hn => absurd hn hc⟩
  case MADD => exact correct_of (o := .MADD) (recMADDs_represents imul_multiplies 0 h) rfl ht
  case MADD1 => exact correct_of (o := .MADD1) (recMADDs_represents imul_multiplies 1 h) rfl ht
  case MADDU => exact correct_of (o := .MADDU) (recMADDs_represents mul_multiplies 0 h) rfl ht
  case MADDU1 => exact correct_of (o := .MADDU1) (recMADDs_represents mul_multiplies 1 h) rfl ht
  case ADDIU => exact correct_of (o := .ADDIU) (recADDI_represents h) rfl ht
  case DADDIU => exact correct_of (o := .DADDIU) (recDADDI_represents h) rfl ht
  case ADDU => exact correct_of (o := .ADDU) (recADD_represents h) rfl ht
  case DADDU => exact correct_of (o := .DADDU) (recDADD_represents h) rfl ht
  case SUBU => exact correct_of (o := .SUBU) (recSUB_represents h) rfl ht
  case DSUBU => exact correct_of (o := .DSUBU) (recDSUB_represents h) rfl ht
  case ANDI => exact correct_of (o := .ANDI) (recANDI_represents h) rfl ht
  case ORI => exact correct_of (o := .ORI) (recORI_represents h) rfl ht
  case XORI => exact correct_of (o := .XORI) (recXORI_represents h) rfl ht
  case SLTI => exact correct_of (o := .SLTI) (recSLTI_represents h) rfl ht
  case SLTIU => exact correct_of (o := .SLTIU) (recSLTIU_represents h) rfl ht
  case AND => exact correct_of (o := .AND) (recAND_represents h) rfl ht
  case OR => exact correct_of (o := .OR) (recOR_represents h) rfl ht
  case XOR => exact correct_of (o := .XOR) (recXOR_represents h) rfl ht
  case NOR => exact correct_of (o := .NOR) (recNOR_represents h) rfl ht
  case SLT => exact correct_of (o := .SLT) (recSLT_represents h) rfl ht
  case SLTU => exact correct_of (o := .SLTU) (recSLTU_represents h) rfl ht
  case MULT => exact correct_of (o := .MULT) (recMULT_represents h) rfl ht
  case MULTU => exact correct_of (o := .MULTU) (recMULTU_represents h) rfl ht
  case MULTU1 => exact correct_of (o := .MULTU1) (recMULTU1_represents h) rfl ht
  case SRA => exact correct_of (o := .SRA) (recSRA_represents h) rfl ht
  case SRL => exact correct_of (o := .SRL) (recSRL_represents h) rfl ht
  case SLL => exact correct_of (o := .SLL) (recSLL_represents h) rfl ht
  case DSLL => exact correct_of (o := .DSLL) (recDSLL_represents h) rfl ht
  case DSLL32 => exact correct_of (o := .DSLL32) (recDSLL32_represents h) rfl ht
  case DSRA => exact correct_of (o := .DSRA) (recDSRA_represents h) rfl ht
  case DSRA32 => exact correct_of (o := .DSRA32) (recDSRA32_represents h) rfl ht
  case DSRL => exact correct_of (o := .DSRL) (recDSRL_represents h) rfl ht
  case DSRL32 => exact correct_of (o := .DSRL32) (recDSRL32_represents h) rfl ht
  case SLLV => exact correct_of (o := .SLLV) (recSLLV_represents h) rfl ht
  case SRAV => exact correct_of (o := .SRAV) (recSRAV_represents h) rfl ht
  case SRLV => exact correct_of (o := .SRLV) (recSRLV_represents h) rfl ht
  case DSLLV => exact correct_of (o := .DSLLV) (recDSLLV_represents h) rfl ht
  case DSRAV => exact correct_of (o := .DSRAV) (recDSRAV_represents h) rfl ht
  case DSRLV => exact correct_of (o := .DSRLV) (recDSRLV_represents h) rfl ht

end Recompile

section Block

/-- A block of instructions, recompiled and interpreted one after another. -/
def recompileBlock (p : List (Op × Code)) (r : Rec) : Rec :=
  p.foldl (fun r i => i.1.recompile i.2 r) r

def interpretBlock (p : List (Op × Code)) (regs : CpuRegs) : Result :=
  p.foldlM (fun regs i => i.1.interpret i.2 regs) regs

/-- Every instruction of the block agrees with the interpreter. -/
def BlockAgrees : List (Op × Code) → Rec → CpuRegs → Prop
  | [], _, _ => True
  | (o, c) :: p, r, regs => o.NoOverflow c regs ∧ o.Agrees c r regs ∧
    ∀ regs', o.interpret c regs = .ok regs' → BlockAgrees p (o.recompile c r) regs'

theorem recompileBlock_represents (p : List (Op × Code)) {r : Rec} {s₀ : Machine}
    {regs : CpuRegs} (h : Represents r s₀ regs) (ha : BlockAgrees p r regs) :
    ∃ regs', interpretBlock p regs = .ok regs' ∧ Represents (recompileBlock p r) s₀ regs' := by
  induction p generalizing r regs with
  | nil => exact ⟨regs, rfl, h⟩
  | cons i p ih =>
    obtain ⟨hn, hag, hrest⟩ := ha
    obtain ⟨regs₁, hi, hr⟩ := (recompile_agrees h hn).mpr hag
    obtain ⟨regs', hp, hr'⟩ := ih hr (hrest regs₁ hi)
    refine ⟨regs', ?_, hr'⟩
    rw [interpretBlock, List.foldlM_cons, hi]
    exact hp

end Block

section Sample

/-- `r1` and `r2` hold the words `a` and `b`, known at recompile time or not. -/
def sampleRec (known : Bool) (a b : BitVec 32) : Rec where
  constRegs x := if x = 1 then a.signExtend 64 else if x = 2 then b.signExtend 64 else 0
  hasConst x := known && decide (x ≠ 0)
  flushedConst _ := false
  code := []

def sampleMachine (a b : BitVec 32) : Machine where
  eax := 0
  ecx := 0
  edx := 0
  flags := none
  mem l := if l = .gpr 1 0 then a else if l = .gpr 2 0 then b else 0
  xmm _ _ := 0

theorem sample_sound (known : Bool) (a b : BitVec 32) :
    (sampleRec known a b).Sound (sampleMachine a b).mem where
  zero_home := join_zero
  zero_const := rfl
  flushed _ _ hf := nomatch hf

theorem sample_represents (known : Bool) (a b : BitVec 32) : Represents (sampleRec known a b)
    (sampleMachine a b) ((sampleRec known a b).regs (sampleMachine a b).mem) :=
  ⟨_, rfl, sample_sound known a b, rfl⟩

/-- `div r1, r2` -/
def divCode : Code := ⟨0x0022001a⟩

/-- `sub r3, r1, r2` -/
def subCode : Code := ⟨0x00221822⟩

end Sample

section

variable {o : Op} {c : Code} {r : Rec} {s₀ : Machine} {regs : CpuRegs}

/-- Of known operands, the folding routine computes what the interpreter does. -/
theorem folding_correct_iff (h : Represents r s₀ regs) (hk : o.Known c r)
    (hn : o.NoOverflow c regs) :
    o.Correct c r s₀ regs ↔ o.Negates c regs ∧ o.Folds c regs := by
  rw [recompile_agrees h hn, Op.Agrees]
  refine and_congr_right fun _ => ⟨fun hf => ?_, fun hf _ => hf⟩
  cases o
  case DIV | DIV1 | MULT1 => exact hf hk
  all_goals trivial

theorem folding_correct_iff_div : Op.Correct .DIV divCode (sampleRec true 7 2) (sampleMachine 7 2)
    ((sampleRec true 7 2).regs (sampleMachine 7 2).mem) ↔ True ∧ DivFolds 7 2 :=
  folding_correct_iff (o := .DIV) (sample_represents true 7 2) ⟨rfl, rfl⟩ trivial

/-- `-8 / 3` of constants leaves the remainder `-1`. -/
theorem folding_not_correct :
    ¬ ∀ (o : Op) (c : Code) (r : Rec) (s₀ : Machine) (regs : CpuRegs), Represents r s₀ regs →
      o.Known c r → o.NoOverflow c regs → o.Correct c r s₀ regs := by
  intro h
  have hr := sample_represents true (-8) 3
  have hc := h .DIV divCode _ _ _ hr ⟨rfl, rfl⟩ trivial
  have hf := ((recompile_agrees (o := .DIV) (c := divCode) hr trivial).mp hc).2 ⟨rfl, rfl⟩
  exact absurd (show DivFolds (-8) 3 from hf) (by decide)

/-- The code of one instruction, run on the registers at their home. -/
theorem recompiledCode_correct_iff {s : Machine} (hcode : r.code = []) (hs : r.Sound s.mem)
    (hn : o.NoOverflow c (r.regs s.mem)) :
    (∃ s', exec (o.recompile c r).code s = some s' ∧ (o.recompile c r).Sound s'.mem ∧
      o.interpret c (r.regs s.mem) = .ok ((o.recompile c r).regs s'.mem)) ↔
    o.Negates c (r.regs s.mem) ∧ (r.hasConst c.Rs = true ∧ r.hasConst c.Rt = true →
      o.Folds c (r.regs s.mem)) := by
  have hr : Represents r s (r.regs s.mem) := ⟨s, by rw [hcode, exec_nil], hs, rfl⟩
  refine Iff.trans ?_ (recompile_agrees (c := c) hr hn)
  constructor
  · rintro ⟨s', hx, hs', hi⟩
    exact ⟨_, hi, s', hx, hs', rfl⟩
  · rintro ⟨regs', hi, s', hx, hs', rfl⟩
    exact ⟨s', hx, hs', hi⟩

theorem recompiledCode_correct_iff_sub :
    (∃ s', exec (recSUB subCode (sampleRec false 7 2)).code (sampleMachine 7 2) = some s' ∧
      (recSUB subCode (sampleRec false 7 2)).Sound s'.mem ∧
      SUB subCode ((sampleRec false 7 2).regs (sampleMachine 7 2).mem) =
        .ok ((recSUB subCode (sampleRec false 7 2)).regs s'.mem)) ↔
    lo (join 0 2) ≠ .intMin 32 ∧ (false = true ∧ false = true → True) :=
  recompiledCode_correct_iff (o := .SUB) (r := sampleRec false 7 2) rfl (sample_sound false 7 2)
    (show BitVec.ssubOverflow 7#32 2#32 = false by decide)

/-- Subtracting the least integer from `-1` traps in the interpreter. -/
theorem recompiledCode_not_correct :
    ¬ ∀ (o : Op) (c : Code) (r : Rec) (s : Machine), r.code = [] → r.Sound s.mem →
      o.NoOverflow c (r.regs s.mem) →
      ∃ s', exec (o.recompile c r).code s = some s' ∧ (o.recompile c r).Sound s'.mem ∧
        o.interpret c (r.regs s.mem) = .ok ((o.recompile c r).regs s'.mem) := by
  intro h
  have hr := sample_represents false 0xffffffff 0x80000000
  have hn : Op.NoOverflow .SUB subCode ((sampleRec false 0xffffffff 0x80000000).regs
    (sampleMachine 0xffffffff 0x80000000).mem) := by
    change BitVec.ssubOverflow 0xffffffff#32 0x80000000#32 = false
    decide
  obtain ⟨s', hx, hs, hi⟩ := h .SUB subCode _ _ rfl (sample_sound false _ _) hn
  exact ((recompile_agrees hr hn).mp ⟨_, hi, s', hx, hs, rfl⟩).1 rfl

end

end OmegaRed.R5900
