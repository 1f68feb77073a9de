import Mathlib.Data.BitVec
import Mathlib.Tactic.Common

/-! 64-bit arithmetic in terms of 32-bit halves. -/

namespace OmegaRed.Lib.Halves

def lo (v : BitVec 64) : BitVec 32 := v.setWidth 32
def hi (v : BitVec 64) : BitVec 32 := (v >>> 32).setWidth 32

/-- The word with high half `h` and low half `l`. -/
def join (h l : BitVec 32) : BitVec 64 := h ++ l

/-- The word that extends the sign of `v`. -/
def signWord (v : BitVec 32) : BitVec 32 := if v.msb then -1 else 0

def carryIn (c : Bool) : BitVec 32 := if c then 1 else 0

def signedProduct (a b : BitVec 32) : BitVec 64 := a.signExtend 64 * b.signExtend 64
def unsignedProduct (a b : BitVec 32) : BitVec 64 := a.setWidth 64 * b.setWidth 64

theorem toNat_carryIn (c : Bool) : (carryIn c).toNat = c.toNat := by cases c <;> rfl

@[simp] theorem lo_zero : lo 0#64 = 0#32 := rfl

theorem toNat_lo (v : BitVec 64) : (lo v).toNat = v.toNat % 2 ^ 32 := BitVec.toNat_setWidth 32 v

theorem toNat_hi (v : BitVec 64) : (hi v).toNat = v.toNat / 2 ^ 32 := by
  have hv := v.isLt
  rw [hi, BitVec.toNat_setWidth, BitVec.toNat_ushiftRight, Nat.shiftRight_eq_div_pow]
  omega

theorem getLsbD_lo (v : BitVec 64) (i : Nat) :
    (lo v).getLsbD i = (decide (i < 32) && v.getLsbD i) :=
  BitVec.getLsbD_setWidth 32 v i

theorem getLsbD_signWord (v : BitVec 32) (i : Nat) :
    (signWord v).getLsbD i = (decide (i < 32) && v.msb) := by
  rw [signWord]
  split
  · next hm => rw [hm, Bool.and_true, show (-1 : BitVec 32) = BitVec.allOnes 32 from rfl,
      BitVec.getLsbD_allOnes]
  · next hm => rw [Bool.not_eq_true] at hm; simp [hm]

variable (h l h' l' : BitVec 32)

theorem toNat_join : (join h l).toNat = h.toNat * 2 ^ 32 + l.toNat := by
  rw [join, BitVec.toNat_append, Nat.shiftLeft_eq, Nat.mul_comm,
    Nat.two_pow_add_eq_or_of_lt l.isLt]

theorem toInt_join : (join h l).toInt = h.toInt * 2 ^ 32 + l.toNat := by
  have hl := l.isLt
  have hh := h.isLt
  rw [BitVec.toInt_eq_toNat_cond, BitVec.toInt_eq_toNat_cond, toNat_join]
  split <;> split <;> omega

theorem getLsbD_join (i : Nat) :
    (join h l).getLsbD i = if i < 32 then l.getLsbD i else h.getLsbD (i - 32) :=
  BitVec.getLsbD_append

theorem msb_join : (join h l).msb = h.msb := by
  rw [BitVec.msb_eq_getLsbD_last, BitVec.msb_eq_getLsbD_last, getLsbD_join]
  rfl

@[simp] theorem lo_join : lo (join h l) = l := by
  apply BitVec.eq_of_toNat_eq
  rw [toNat_lo, toNat_join]
  have hl := l.isLt
  omega

@[simp] theorem hi_join : hi (join h l) = h := by
  apply BitVec.eq_of_toNat_eq
  rw [toNat_hi, toNat_join]
  have hl := l.isLt
  have hh := h.isLt
  omega

@[simp] theorem join_hi_lo (v : BitVec 64) : join (hi v) (lo v) = v := by
  apply BitVec.eq_of_toNat_eq
  rw [toNat_join, toNat_hi, toNat_lo]
  omega

theorem join_inj {h l h' l' : BitVec 32} : join h l = join h' l' ↔ h = h' ∧ l = l' := by
  constructor
  · intro e
    exact ⟨by simpa using congrArg hi e, by simpa using congrArg lo e⟩
  · rintro ⟨rfl, rfl⟩
    rfl

theorem join_zero : join 0 0 = 0 := by decide

/-- Addition carries from the low into the high half. -/
theorem join_add : join h l + join h' l' =
    join (h + h' + carryIn (decide (2 ^ 32 ≤ l.toNat + l'.toNat))) (l + l') := by
  apply BitVec.eq_of_toNat_eq
  have hl := l.isLt
  have hl' := l'.isLt
  by_cases hc : 2 ^ 32 ≤ l.toNat + l'.toNat
  · simp only [BitVec.toNat_add, toNat_join, toNat_carryIn, hc, decide_true, Bool.toNat_true]
    omega
  · simp only [BitVec.toNat_add, toNat_join, toNat_carryIn, hc, decide_false, Bool.toNat_false]
    omega

/-- Subtraction borrows for the low from the high half. -/
theorem join_sub : join h l - join h' l' =
    join (h - h' - carryIn (decide (l.toNat < l'.toNat))) (l - l') := by
  apply BitVec.eq_of_toNat_eq
  have hl := l.isLt
  have hl' := l'.isLt
  have hh := h.isLt
  have hh' := h'.isLt
  by_cases hc : l.toNat < l'.toNat
  · simp only [BitVec.toNat_sub, toNat_join, toNat_carryIn, hc, decide_true, Bool.toNat_true]
    omega
  · simp only [BitVec.toNat_sub, toNat_join, toNat_carryIn, hc, decide_false, Bool.toNat_false]
    omega

theorem neg_join : -join h l = join (-(h + carryIn (decide (0 < l.toNat)))) (-l) := by
  apply BitVec.eq_of_toNat_eq
  have hl := l.isLt
  have hh := h.isLt
  by_cases hc : 0 < l.toNat
  · simp only [BitVec.toNat_neg, BitVec.toNat_add, toNat_join, toNat_carryIn, hc, decide_true,
      Bool.toNat_true]
    omega
  · simp only [BitVec.toNat_neg, BitVec.toNat_add, toNat_join, toNat_carryIn, hc, decide_false,
      Bool.toNat_false]
    omega

theorem join_and : join h l &&& join h' l' = join (h &&& h') (l &&& l') := by
  apply BitVec.eq_of_getLsbD_eq
  intro i hi
  simp only [BitVec.getLsbD_and, getLsbD_join]
  split <;> rfl

theorem join_or : join h l ||| join h' l' = join (h ||| h') (l ||| l') := by
  apply BitVec.eq_of_getLsbD_eq
  intro i hi
  simp only [BitVec.getLsbD_or, getLsbD_join]
  split <;> rfl

theorem join_xor : join h l ^^^ join h' l' = join (h ^^^ h') (l ^^^ l') := by
  apply BitVec.eq_of_getLsbD_eq
  intro i hi
  simp only [BitVec.getLsbD_xor, getLsbD_join]
  split <;> rfl

theorem lo_or (v w : BitVec 64) : lo (v ||| w) = lo v ||| lo w := BitVec.setWidth_or

theorem hi_or (v w : BitVec 64) : hi (v ||| w) = hi v ||| hi w := by
  rw [← join_hi_lo v, ← join_hi_lo w, join_or, hi_join, hi_join, hi_join]

theorem not_join : ~~~join h l = join (~~~h) (~~~l) := by
  apply BitVec.eq_of_getLsbD_eq
  intro i hi
  simp only [BitVec.getLsbD_not, getLsbD_join]
  grind

theorem ult_join : (join h l).ult (join h' l') = (h.ult h' || (h == h' && l.ult l')) := by
  have hl := l.isLt
  have hl' := l'.isLt
  rw [Bool.eq_iff_iff]
  simp only [BitVec.ult, toNat_join, decide_eq_true_eq, Bool.or_eq_true, Bool.and_eq_true,
    beq_iff_eq, BitVec.toNat_inj.symm]
  omega

theorem slt_join : (join h l).slt (join h' l') = (h.slt h' || (h == h' && l.ult l')) := by
  have hl := l.isLt
  have hl' := l'.isLt
  rw [Bool.eq_iff_iff]
  simp only [BitVec.slt, BitVec.ult, toInt_join, decide_eq_true_eq, Bool.or_eq_true,
    Bool.and_eq_true, beq_iff_eq, BitVec.toInt_inj.symm]
  omega

theorem signExtend_eq (v : BitVec 32) : v.signExtend 64 = join (signWord v) v := by
  apply BitVec.eq_of_toInt_eq
  rw [BitVec.toInt_signExtend_of_le (by decide), toInt_join, signWord, BitVec.toInt_eq_toNat_cond,
    BitVec.msb_eq_decide]
  have hv := v.isLt
  by_cases hc : 2 ^ 31 ≤ v.toNat
  · rw [if_neg (by omega), if_pos (by simpa using hc),
      show ((-1 : BitVec 32)).toInt = -1 from by decide]
    omega
  · rw [if_pos (by omega), if_neg (by simpa using hc),
      show ((0 : BitVec 32)).toInt = 0 from by decide]
    omega

@[simp] theorem lo_signExtend (v : BitVec 32) : lo (v.signExtend 64) = v := by
  rw [signExtend_eq, lo_join]

@[simp] theorem hi_signExtend (v : BitVec 32) : hi (v.signExtend 64) = signWord v := by
  rw [signExtend_eq, hi_join]

theorem lo_neg (v : BitVec 64) : lo (-v) = -lo v := by
  rw [← join_hi_lo v, neg_join, lo_join, lo_join]

theorem join_shl {n : Nat} : join h l <<< (n + 32) = join (l <<< n) 0 := by
  apply BitVec.eq_of_getLsbD_eq
  intro i hi
  simp only [BitVec.getLsbD_shiftLeft, getLsbD_join]
  grind

theorem join_shr {n : Nat} : join h l >>> (n + 32) = join 0 (h >>> n) := by
  apply BitVec.eq_of_getLsbD_eq
  intro i hi
  simp only [BitVec.getLsbD_ushiftRight, getLsbD_join]
  grind

/-- Past the low half an arithmetic shift moves the high half down and leaves its sign. -/
theorem join_sshiftRight (n : Nat) :
    (join h l).sshiftRight (n + 32) = join (signWord h) (h.sshiftRight n) := by
  apply BitVec.eq_of_getLsbD_eq
  intro i hi
  rw [BitVec.getLsbD_sshiftRight, getLsbD_join, getLsbD_join, getLsbD_signWord,
    BitVec.getLsbD_sshiftRight, msb_join]
  grind

/-- Below 32 the high half is shifted arithmetically, the low one takes its bits. -/
theorem join_sshiftRight_lt {n : Nat} (hn : n < 32) :
    (join h l).sshiftRight n = join (h.sshiftRight n) (lo (join h l >>> n)) := by
  apply BitVec.eq_of_getLsbD_eq
  intro i hi
  simp only [BitVec.getLsbD_sshiftRight, getLsbD_join, getLsbD_lo, BitVec.getLsbD_ushiftRight,
    msb_join]
  grind

/-- An arithmetic shift is the logical one under a mask of sign bits. -/
theorem sshiftRight_eq_or {n : Nat} (hn : n < 64) :
    (join h l).sshiftRight n =
      join h l >>> n ||| join (signWord h) (signWord h) <<< (64 - n) := by
  apply BitVec.eq_of_getLsbD_eq
  intro i hi
  simp only [BitVec.getLsbD_sshiftRight, getLsbD_join, BitVec.getLsbD_or,
    BitVec.getLsbD_shiftLeft, BitVec.getLsbD_ushiftRight, getLsbD_signWord, msb_join]
  grind

theorem sshiftRight_signWord (v : BitVec 32) : v.sshiftRight 31 = signWord v := by
  apply BitVec.eq_of_getLsbD_eq
  intro i hi
  rw [getLsbD_signWord, BitVec.getLsbD_sshiftRight, BitVec.msb_eq_getLsbD_last]
  grind

theorem ofInt_tdiv (a b : BitVec 32) : BitVec.ofInt 32 (a.toInt.tdiv b.toInt) = a.sdiv b := by
  apply BitVec.eq_of_toInt_eq
  rw [BitVec.toInt_ofInt, BitVec.toInt_sdiv]

theorem ofInt_tmod (a b : BitVec 32) : BitVec.ofInt 32 (a.toInt.tmod b.toInt) = a.srem b := by
  apply BitVec.eq_of_toInt_eq
  rw [← BitVec.toInt_srem, BitVec.ofInt_toInt]

/-- The only quotient of words that is not a word is `-2 ^ 31 / -1`. -/
theorem tdiv_fits (a b : BitVec 32) (hb : b ≠ 0#32)
    (h : ¬ (a = 0x80000000#32 ∧ b = 0xffffffff#32)) :
    -2 ^ 31 ≤ a.toInt.tdiv b.toInt ∧ a.toInt.tdiv b.toInt < 2 ^ 31 := by
  have ha : -2 ^ 31 ≤ a.toInt ∧ a.toInt < 2 ^ 31 := ⟨BitVec.le_toInt a, BitVec.toInt_lt⟩
  have hb0 : b.toInt ≠ 0 := fun e => hb (BitVec.eq_of_toInt_eq (by simpa using e))
  have hq : (a.toInt.tdiv b.toInt).natAbs = a.toInt.natAbs / b.toInt.natAbs :=
    Int.natAbs_tdiv a.toInt b.toInt
  by_cases h1 : b.toInt = -1
  · have hb1 : b = 0xffffffff#32 := BitVec.eq_of_toInt_eq (by rw [h1]; decide)
    have ha1 : a.toInt ≠ -2 ^ 31 := fun e =>
      h ⟨BitVec.eq_of_toInt_eq (by rw [e]; decide), hb1⟩
    rw [h1, Int.tdiv_neg, Int.tdiv_one]
    omega
  by_cases h2 : b.toInt = 1
  · rw [h2, Int.tdiv_one]
    exact ha
  · have hd : a.toInt.natAbs / b.toInt.natAbs ≤ a.toInt.natAbs / 2 :=
      Nat.div_le_div_left (by omega) (by decide)
    omega

theorem add_self (v : BitVec 64) : v + v = v <<< 1 := by
  apply BitVec.eq_of_toNat_eq
  rw [BitVec.toNat_add, BitVec.toNat_shiftLeft, Nat.shiftLeft_eq]
  omega

theorem lo_shiftLeft_one : lo (join h l <<< 1) = l <<< 1 := by
  apply BitVec.eq_of_getLsbD_eq
  intro i hi
  simp only [getLsbD_lo, BitVec.getLsbD_shiftLeft, getLsbD_join]
  grind

end OmegaRed.Lib.Halves
