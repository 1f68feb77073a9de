import OmegaRed.Spu2.Muted

/-! Envelopes and volume slides stay in range, and an envelope that is released ends. -/

namespace OmegaRed.Spu2

theorem wrap32_lt (x : Int) : wrap32 x < 2 ^ 31 := by
  unfold wrap32 Int.bmod
  dsimp only
  split <;> omega

theorem xor_seven {n : Nat} (h : n < 128) : n ^^^ 0x7f = 127 - n := by
  revert n
  decide

theorem xor_five {n : Nat} (h : n < 32) : n ^^^ 0x1f = 31 - n := by
  revert n
  decide

theorem psxRates_nonneg (i : Nat) : 0 ≤ psxRates i := by
  unfold psxRates
  refine le_min ?_ (by decide)
  split <;> exact Int.natCast_nonneg _

theorem psxRates_le (i : Nat) : psxRates i ≤ 0x3fffffff := min_le_right _ _

theorem psxRates_eq_zero {i : Nat} (h : i < 24) : psxRates i = 0 := by
  revert i
  decide +kernel

theorem psxRates_pos {i : Nat} (hlo : 24 ≤ i) (hhi : i < 160) : 1 ≤ psxRates i := by
  have key : ∀ i < 160, 24 ≤ i → 1 ≤ psxRates i := by decide +kernel
  exact key i hhi hlo

theorem psxRates_le_four {i : Nat} (h : i ≤ 32) : psxRates i ≤ 4 := by
  have key : ∀ i < 33, psxRates i ≤ 4 := by decide +kernel
  exact key i (by omega)

theorem invExpOffset_le (Value : Int) : invExpOffset Value ≤ 12 := by
  have key : ∀ k < 8, invExpOffsets.getD k 0 ≤ 12 := by decide
  exact key _ (by omega)

theorem invExpOffset_of_lt {Value : Int} (hlo : 0 ≤ Value) (hhi : Value < 2 ^ 28) :
    invExpOffset Value = 0 := by
  have : (Value / 2 ^ 28 % 8).toNat = 0 := by omega
  rw [invExpOffset, this]
  rfl

namespace ADSR

/-- The envelope of a voice that was not used yet. -/
def init : ADSR := ⟨0, 0, 0, 0, false⟩

def writeRegs (a : ADSR) (regs : BitVec 16 × BitVec 16) : ADSR :=
  { a with regADSR1 := regs.1, regADSR2 := regs.2 }

/-- What happens to the envelope of a voice: writes to its registers, `Start`, key off, `Stop`,
and the calls of the mixer. -/
inductive Event
  | regADSR1 (value : BitVec 16)
  | regADSR2 (value : BitVec 16)
  | envx (value : BitVec 16)
  | start
  | keyOff
  | stop
  | calculate

def step (a : ADSR) : Event → ADSR
  | .regADSR1 value => { a with regADSR1 := value }
  | .regADSR2 value => { a with regADSR2 := value }
  | .envx value => { a with Value := wrap32 (value.toNat * 0x10001) }
  | .start => { a with Releasing := false, Value := 1, Phase := 1 }
  | .keyOff => { a with Releasing := true }
  | .stop => { a with Value := 0, Phase := 0 }
  | .calculate => if a.Phase = 0 then { a with Value := 0 } else a.calculate.1

def run (a : ADSR) (events : List Event) : ADSR := events.foldl step a

/-! ## The index of the table -/

/-- The index at which the first phase reads `PsxRates`. -/
def attackIndex (a : ADSR) : Int :=
  if a.AttackMode ∧ a.Value ≥ 0x60000000 then ((a.AttackRate ^^^ 0x7f : Nat) : Int) - 0x18 + 32
  else ((a.AttackRate ^^^ 0x7f : Nat) : Int) - 0x10 + 32

def decayIndex (a : ADSR) : Int :=
  ((a.DecayRate ^^^ 0x1f : Nat) : Int) * 4 - 0x18 + invExpOffset a.Value + 32

def sustainIndex (a : ADSR) : Int :=
  let rate : Int := (a.SustainRate ^^^ 0x7f : Nat)
  if a.sustainDecreases then
    if a.sustainExponential then rate - 0x1b + invExpOffset a.Value + 32 else rate - 0xf + 32
  else if a.sustainExponential ∧ a.Value ≥ 0x60000000 then rate - 0x18 + 32
  else rate - 0x10 + 32

def releaseIndex (a : ADSR) : Int :=
  ((a.ReleaseRate ^^^ 0x1f : Nat) : Int) * 4 - 0x18 + invExpOffset a.Value + 32

/-- The index at which a call of `Calculate` reads `PsxRates`, if it does. -/
def rateIndex (a : ADSR) : Option Int :=
  match if a.Releasing ∧ a.Phase < 5 then 5 else a.Phase with
  | 1 => if a.Value = ADSR_MAX_VOL then none else some a.attackIndex
  | 2 => some a.decayIndex
  | 3 => if a.SustainRate = 0x7f then none else some a.sustainIndex
  | 5 => if a.ReleaseMode then some a.releaseIndex else none
  | _ => none

variable (a : ADSR)

theorem AttackRate_lt : a.AttackRate < 128 := BitVec.isLt _
theorem DecayRate_lt : a.DecayRate < 16 := BitVec.isLt _
theorem SustainLevel_lt : a.SustainLevel < 16 := BitVec.isLt _
theorem SustainRate_lt : a.SustainRate < 128 := BitVec.isLt _
theorem ReleaseRate_lt : a.ReleaseRate < 32 := BitVec.isLt _

theorem attackIndex_mem : 0 ≤ a.attackIndex ∧ a.attackIndex < 160 := by
  have := a.AttackRate_lt
  rw [attackIndex, xor_seven this]
  split <;> omega

theorem decayIndex_mem : 0 ≤ a.decayIndex ∧ a.decayIndex < 160 := by
  have := a.DecayRate_lt
  have := invExpOffset_le a.Value
  rw [decayIndex, xor_five (by omega)]
  omega

theorem sustainIndex_mem : 0 ≤ a.sustainIndex ∧ a.sustainIndex < 160 := by
  have := a.SustainRate_lt
  have := invExpOffset_le a.Value
  rw [sustainIndex, xor_seven a.SustainRate_lt]
  split_ifs <;> omega

theorem releaseIndex_mem : 0 ≤ a.releaseIndex ∧ a.releaseIndex < 160 := by
  have hrate := a.ReleaseRate_lt
  have := invExpOffset_le a.Value
  rw [releaseIndex, xor_five hrate]
  omega

theorem rateIndex_mem : ∀ i ∈ a.rateIndex, 0 ≤ i ∧ i < 160 := by
  intro i hi
  unfold rateIndex at hi
  split at hi
  · split at hi
    · cases hi
    · cases hi
      exact a.attackIndex_mem
  · cases hi
    exact a.decayIndex_mem
  · split at hi
    · cases hi
    · cases hi
      exact a.sustainIndex_mem
  · split at hi
    · cases hi
      exact a.releaseIndex_mem
    · cases hi
  · cases hi

/-! ## The phases read the table at their index -/

/-- The value of the first phase before the ceiling. -/
def attackValue : Int := wrap32 (a.Value + psxRates a.attackIndex.toNat)

theorem attack_eq : a.attack =
    if a.Value = ADSR_MAX_VOL then { a with Phase := 2 }
    else if a.attackValue < 0 then { a with Phase := 2, Value := ADSR_MAX_VOL }
    else { a with Value := a.attackValue } := by
  have := a.AttackRate_lt
  have hvalue : a.attackValue =
      if a.AttackMode ∧ a.Value ≥ 0x60000000 then
        wrap32 (a.Value + psxRates ((a.AttackRate ^^^ 0x7f) + 32 - 0x18))
      else wrap32 (a.Value + psxRates ((a.AttackRate ^^^ 0x7f) + 32 - 0x10)) := by
    unfold attackValue attackIndex
    split <;> congr 3 <;> omega
  rw [hvalue]
  rfl

def decayValue : Int := wrap32 (a.Value - psxRates a.decayIndex.toNat)

theorem decay_eq : a.decay =
    if a.decayValue ≤ 0x8000000 * (a.SustainLevel + 1) - 1 then
      { a with Value := max 0 a.decayValue, Phase := 3 }
    else { a with Value := a.decayValue } := by
  have := a.DecayRate_lt
  have hindex : a.decayIndex.toNat =
      (a.DecayRate ^^^ 0x1f) * 4 + invExpOffset a.Value + 32 - 0x18 := by
    have hxor := xor_five (n := a.DecayRate) (by omega)
    unfold decayIndex
    omega
  rw [decayValue, hindex]
  rfl

def sustainValue : Int :=
  if a.sustainDecreases then wrap32 (a.Value - psxRates a.sustainIndex.toNat)
  else wrap32 (a.Value + psxRates a.sustainIndex.toNat)

theorem sustain_eq (h : a.SustainRate ≠ 0x7f) : a.sustain = some (
    if a.sustainDecreases then
      if a.sustainValue ≤ 0 then { a with Value := 0, Phase := 4 }
      else { a with Value := a.sustainValue }
    else if a.sustainValue < 0 then { a with Value := ADSR_MAX_VOL, Phase := 4 }
    else { a with Value := a.sustainValue }) := by
  have hrate := a.SustainRate_lt
  have hxor := xor_seven hrate
  rw [sustain, if_neg h]
  by_cases hdec : a.sustainDecreases
  · have hvalue : a.sustainValue =
        if a.sustainExponential then wrap32 (a.Value -
          psxRates ((a.SustainRate ^^^ 0x7f) + invExpOffset a.Value + 32 - 0x1b))
        else wrap32 (a.Value - psxRates ((a.SustainRate ^^^ 0x7f) + 32 - 0xf)) := by
      rw [sustainValue, sustainIndex, if_pos hdec, if_pos hdec]
      split <;> congr 3 <;> omega
    rw [if_pos hdec, if_pos hdec, hvalue]
    dsimp only
    split <;> split <;> rfl
  · have hvalue : a.sustainValue =
        if a.sustainExponential ∧ a.Value ≥ 0x60000000 then
          wrap32 (a.Value + psxRates ((a.SustainRate ^^^ 0x7f) + 32 - 0x18))
        else wrap32 (a.Value + psxRates ((a.SustainRate ^^^ 0x7f) + 32 - 0x10)) := by
      rw [sustainValue, sustainIndex, if_neg hdec, if_neg hdec]
      split <;> congr 3 <;> omega
    rw [if_neg hdec, if_neg hdec, hvalue]
    dsimp only
    split <;> split <;> rfl

/-- What the release takes off the value. -/
def releaseDrop : Int :=
  if a.ReleaseMode then psxRates a.releaseIndex.toNat
  else if a.ReleaseRate ≠ 0x1f then 1 <<< (0x1f - a.ReleaseRate)
  else 0

def releaseValue : Int := wrap32 (a.Value - a.releaseDrop)

/-- What holds of every envelope: written values are not at the very bottom. -/
structure Inv : Prop where
  phase : a.Phase ≤ 6
  lo : -0x7fff8000 ≤ a.Value
  hi : a.Value < 2 ^ 31

variable {a}

theorem release_eq (h : a.Inv) : a.release =
    if a.releaseValue ≤ 0 then { a with Value := 0, Phase := 6 }
    else { a with Value := a.releaseValue } := by
  have hrate := a.ReleaseRate_lt
  have hxor := xor_five hrate
  obtain ⟨-, hlo, hhi⟩ := h
  have hvalue : a.releaseValue =
      if a.ReleaseMode then wrap32 (a.Value -
        psxRates ((a.ReleaseRate ^^^ 0x1f) * 4 + invExpOffset a.Value + 32 - 0x18))
      else if a.ReleaseRate ≠ 0x1f then wrap32 (a.Value - 1 <<< (0x1f - a.ReleaseRate))
      else a.Value := by
    rw [releaseValue, releaseDrop]
    split_ifs
    · rw [releaseIndex]
      congr 3
      omega
    · rfl
    · rw [Int.sub_zero, Walk.wrap32_of_lt (by omega) hhi]
  rw [hvalue]
  rfl

theorem calculate_of_releasing (hrel : a.Releasing) (hphase : a.Phase ≤ 5) :
    a.calculate.1 = { a with Phase := 5 }.release := by
  have ha : (if a.Releasing ∧ a.Phase < 5 then { a with Phase := 5 } else a) =
      { a with Phase := 5 } := by
    split
    · rfl
    · have : a.Phase = 5 := by
        have : ¬a.Phase < 5 := fun h => by simp_all
        omega
      cases a
      simp_all
  rw [calculate, ha]
  rfl

theorem calculate_of_held (h : ¬(a.Releasing ∧ a.Phase < 5)) :
    a.calculate.1 =
      match a.Phase with
      | 1 => a.attack
      | 2 => a.decay
      | 3 => a.sustain.getD a
      | 4 => a.sustainEnd
      | 5 => a.release
      | 6 => { a with Value := 0 }
      | _ => a := by
  rw [calculate, if_neg h]
  obtain ⟨_, _, _, p, _⟩ := a
  match p with
  | 0 | 1 | 2 | 3 | 4 | 5 | 6 => simp only
  | _ + 7 => rfl

/-! ## The range of the value -/

variable (a) in
/-- The range that `V_ADSR` gives. -/
def InRange : Prop := 0 ≤ a.Value ∧ a.Value ≤ 0x7fffffff

theorem attack_inRange : a.attack.InRange := by
  have := wrap32_lt (a.Value + psxRates a.attackIndex.toNat)
  rw [attack_eq]
  split_ifs with hmax hneg
  · constructor <;> simp only [hmax, ADSR_MAX_VOL] <;> decide
  · constructor <;> simp only [ADSR_MAX_VOL] <;> decide
  · unfold attackValue at hneg ⊢
    exact ⟨Int.not_lt.1 hneg, by dsimp only; omega⟩

theorem decay_inRange : a.decay.InRange := by
  have hhi : a.decayValue < 2 ^ 31 := wrap32_lt _
  have hlevel := a.SustainLevel_lt
  rw [decay_eq]
  split_ifs
  · exact ⟨Int.le_max_left .., by dsimp only; omega⟩
  · constructor <;> dsimp only <;> omega

theorem sustain_inRange (h : a.SustainRate ≠ 0x7f) : (a.sustain.getD a).InRange := by
  have hhi : a.sustainValue < 2 ^ 31 := by
    unfold sustainValue
    split <;> exact wrap32_lt _
  rw [sustain_eq a h, Option.getD_some]
  split_ifs
  · constructor <;> dsimp only <;> decide
  · constructor <;> dsimp only <;> omega
  · constructor <;> simp only [ADSR_MAX_VOL] <;> decide
  · constructor <;> dsimp only <;> omega

theorem sustainEnd_inRange : a.sustainEnd.InRange := by
  unfold sustainEnd
  split
  · constructor <;> dsimp only <;> decide
  · constructor <;> simp only [ADSR_MAX_VOL] <;> decide

theorem release_inRange (h : a.Inv) : a.release.InRange := by
  have hhi : a.releaseValue < 2 ^ 31 := wrap32_lt _
  rw [release_eq h]
  split_ifs
  · constructor <;> dsimp only <;> decide
  · constructor <;> dsimp only <;> omega

variable (a) in
/-- The envelope is held at a value that was written. -/
def HeldBelow : Prop :=
  a.Releasing = false ∧ a.Phase = 3 ∧ a.SustainRate = 0x7f ∧ a.Value < 0

theorem Inv.toPhase (h : a.Inv) : ({ a with Phase := 5 } : ADSR).Inv :=
  ⟨Nat.le_succ 5, h.lo, h.hi⟩

theorem calculate_inRange_iff (h : a.Inv) (hon : a.Phase ≠ 0) :
    a.calculate.1.InRange ↔ ¬a.HeldBelow := by
  by_cases hrel : a.Releasing ∧ a.Phase < 5
  · have hheld : ¬a.HeldBelow := fun hb => by
      rw [hb.1] at hrel
      exact Bool.false_ne_true hrel.1
    rw [calculate_of_releasing hrel.1 (by omega)]
    exact iff_of_true (release_inRange h.toPhase) hheld
  · rw [calculate_of_held hrel]
    have hphase := h.phase
    by_cases h3 : a.Phase = 3
    · have hreleasing : a.Releasing = false := by
        have : ¬a.Releasing = true := fun h => hrel ⟨h, by omega⟩
        simpa using this
      simp only [h3]
      by_cases hrate : a.SustainRate = 0x7f
      · rw [sustain, if_pos hrate, Option.getD_none]
        have := h.hi
        constructor
        · intro hin hb
          exact absurd hin.1 (Int.not_le.2 hb.2.2.2)
        · intro hb
          refine ⟨?_, by omega⟩
          by_contra hneg
          exact hb ⟨hreleasing, h3, hrate, Int.not_le.1 hneg⟩
      · exact iff_of_true (sustain_inRange hrate) fun hb => hrate hb.2.2.1
    · refine iff_of_true ?_ fun hb => h3 hb.2.1
      split
      · exact attack_inRange
      · exact decay_inRange
      · contradiction
      · exact sustainEnd_inRange
      · exact release_inRange h
      · exact ⟨le_refl (0 : Int), Int.natCast_nonneg 0x7fffffff⟩
      · rename_i h1 h2 h3' h4 h5 h6
        have : a.Phase = 0 ∨ a.Phase = 1 ∨ a.Phase = 2 ∨ a.Phase = 3 ∨ a.Phase = 4 ∨
          a.Phase = 5 ∨ a.Phase = 6 := by omega
        tauto

/-! ## The order of the phases -/

theorem attack_phase (h : a.Phase = 1) : a.attack.Phase = 1 ∨ a.attack.Phase = 2 := by
  rw [attack_eq]
  split_ifs
  · exact .inr rfl
  · exact .inr rfl
  · exact .inl h

theorem decay_phase (h : a.Phase = 2) : a.decay.Phase = 2 ∨ a.decay.Phase = 3 := by
  rw [decay_eq]
  split_ifs
  · exact .inr rfl
  · exact .inl h

theorem sustain_phase (h : a.Phase = 3) :
    (a.sustain.getD a).Phase = 3 ∨ (a.sustain.getD a).Phase = 4 := by
  by_cases hrate : a.SustainRate = 0x7f
  · rw [sustain, if_pos hrate]
    exact .inl h
  · rw [sustain_eq a hrate, Option.getD_some]
    split_ifs
    · exact .inr rfl
    · exact .inl h
    · exact .inr rfl
    · exact .inl h

theorem sustainEnd_phase (h : a.Phase = 4) :
    a.sustainEnd.Phase = 4 ∨ a.sustainEnd.Phase = 6 := by
  rw [sustainEnd]
  split
  · exact .inr rfl
  · exact .inl h

theorem release_phase (h : a.Inv) (hphase : a.Phase = 5) :
    a.release.Phase = 5 ∨ a.release.Phase = 6 := by
  rw [release_eq h]
  split_ifs
  · exact .inr rfl
  · exact .inl hphase

theorem calculate_phase (h : a.Inv) :
    a.Phase ≤ a.calculate.1.Phase ∧ a.calculate.1.Phase ≤ 6 := by
  have hphase := h.phase
  by_cases hrel : a.Releasing ∧ a.Phase < 5
  · have := release_phase h.toPhase rfl
    rw [calculate_of_releasing hrel.1 (by omega)]
    omega
  · rw [calculate_of_held hrel]
    split
    · rename_i h1
      have := attack_phase h1
      omega
    · rename_i h2
      have := decay_phase h2
      omega
    · rename_i h3
      have := sustain_phase h3
      omega
    · rename_i h4
      have := sustainEnd_phase h4
      omega
    · rename_i h5
      have := release_phase h h5
      omega
    · rename_i h6
      dsimp only
      omega
    · omega

variable (a) in
/-- How far an envelope is on its way; one that is off is past the end. -/
def order : Nat := if a.Phase = 0 then 7 else a.Phase

/-! ## The release -/

theorem calculate_release (h : a.Inv) (hrel : a.Releasing) (hphase : a.Phase ≤ 5) :
    a.calculate.1 =
      if a.releaseValue ≤ 0 then { a with Value := 0, Phase := 6 }
      else { a with Value := a.releaseValue, Phase := 5 } := by
  rw [calculate_of_releasing hrel hphase, release_eq h.toPhase]
  rfl

variable (a) in
/-- A release that takes something off the value whatever it is. -/
def FastRelease : Prop := a.ReleaseRate ≠ 0x1f ∧ (a.ReleaseMode → a.ReleaseRate ≤ 0x1b)

theorem FastRelease.drop_pos (h : a.FastRelease) : 1 ≤ a.releaseDrop := by
  have hrate := a.ReleaseRate_lt
  have hxor := xor_five hrate
  rw [releaseDrop]
  split_ifs with hmode
  · have := h.2 hmode
    have hmem := a.releaseIndex_mem
    refine psxRates_pos ?_ (by omega)
    rw [releaseIndex]
    omega
  · rw [Nat.one_shiftLeft]
    exact_mod_cast Nat.one_le_two_pow
  · exact absurd h.1 ‹_›

theorem releaseDrop_le : a.releaseDrop ≤ 2 ^ 31 := by
  rw [releaseDrop]
  split_ifs
  · exact (psxRates_le _).trans (by decide)
  · rw [Nat.one_shiftLeft]
    have : 2 ^ (0x1f - a.ReleaseRate) ≤ 2 ^ 31 :=
      Nat.pow_le_pow_right (by decide) (Nat.sub_le ..)
    exact_mod_cast this
  · decide

/-- What the exponential release with one of the three slowest rates takes off the value. -/
theorem releaseDrop_slow (hmode : a.ReleaseMode) (hrate : 0x1c ≤ a.ReleaseRate) :
    0 ≤ a.releaseDrop ∧ a.releaseDrop ≤ 4 ∧
      (0 ≤ a.Value → a.Value < 2 ^ 28 → a.releaseDrop = 0) := by
  have hlt := a.ReleaseRate_lt
  have hxor := xor_five hlt
  have hoff := invExpOffset_le a.Value
  rw [releaseDrop, if_pos hmode]
  refine ⟨psxRates_nonneg _, psxRates_le_four ?_, fun hlo hhi => psxRates_eq_zero ?_⟩
  · rw [releaseIndex]
    omega
  · rw [releaseIndex, invExpOffset_of_lt hlo hhi]
    omega

variable (a) in
/-- The state after calls with the registers that are given for each of them. -/
def calls (a : ADSR) (regs : Nat → BitVec 16 × BitVec 16) : Nat → ADSR
  | 0 => a
  | n + 1 => ((a.writeRegs (regs 0)).calculate.1).calls (fun k => regs (k + 1)) n

theorem calls_ends_of_pos (k : Nat) (regs : Nat → BitVec 16 × BitVec 16) (h : a.Inv)
    (hrel : a.Releasing) (hphase : a.Phase ≤ 5) (hpos : 0 < a.Value) (hk : a.Value ≤ k)
    (hfast : ∀ n, (a.writeRegs (regs n)).FastRelease) : ∃ n, (a.calls regs n).Phase = 6 := by
  induction k generalizing a regs with
  | zero => omega
  | succ k ih =>
    have hinv : (a.writeRegs (regs 0)).Inv := ⟨h.phase, h.lo, h.hi⟩
    have hnext := calculate_release hinv hrel hphase
    have hdrop := (hfast 0).drop_pos
    have hle := releaseDrop_le (a := a.writeRegs (regs 0))
    have hhi := h.hi
    have hvalue : (a.writeRegs (regs 0)).releaseValue =
        a.Value - (a.writeRegs (regs 0)).releaseDrop := by
      rw [releaseValue, show (a.writeRegs (regs 0)).Value = a.Value from rfl]
      exact Walk.wrap32_of_lt (by omega) (by omega)
    rw [hvalue] at hnext
    by_cases hend : a.Value - (a.writeRegs (regs 0)).releaseDrop ≤ 0
    · rw [if_pos hend] at hnext
      exact ⟨1, by rw [calls, hnext]; rfl⟩
    · rw [if_neg hend] at hnext
      have hdown := ih (a := (a.writeRegs (regs 0)).calculate.1) fun k => regs (k + 1)
      rw [hnext] at hdown
      obtain ⟨n, hn⟩ := hdown ⟨Nat.le_succ 5, by dsimp only; omega, by dsimp only; omega⟩ hrel
        (le_refl _) (Int.not_le.1 hend) (by dsimp only; omega) fun n => hfast (n + 1)
      exact ⟨n + 1, by rw [calls, hnext]; exact hn⟩

theorem Inv.writeRegs (h : a.Inv) (regs : BitVec 16 × BitVec 16) : (a.writeRegs regs).Inv :=
  ⟨h.phase, h.lo, h.hi⟩

/-- A released envelope ends, whatever is written to its registers meanwhile, when no call finds
a slow release there. -/
theorem calls_ends {regs : Nat → BitVec 16 × BitVec 16} (h : a.Inv) (hrel : a.Releasing)
    (hfast : ∀ n, (a.writeRegs (regs n)).FastRelease) : ∃ n, (a.calls regs n).Phase = 6 := by
  have hphase := h.phase
  by_cases hend : a.Phase = 6
  · exact ⟨0, hend⟩
  have hnext := calculate_release (h.writeRegs (regs 0)) hrel (show a.Phase ≤ 5 by omega)
  by_cases hneg : (a.writeRegs (regs 0)).releaseValue ≤ 0
  · rw [if_pos hneg] at hnext
    exact ⟨1, by rw [calls, hnext]; rfl⟩
  · rw [if_neg hneg] at hnext
    have hhi : (a.writeRegs (regs 0)).releaseValue < 2 ^ 31 := wrap32_lt _
    have hdown := calls_ends_of_pos (a := (a.writeRegs (regs 0)).calculate.1)
      ((a.writeRegs (regs 0)).releaseValue).toNat fun k => regs (k + 1)
    rw [hnext] at hdown
    obtain ⟨n, hn⟩ := hdown ⟨Nat.le_succ 5, by dsimp only; omega, hhi⟩ hrel
      (le_refl _) (Int.not_le.1 hneg) (by dsimp only; omega) fun n => hfast (n + 1)
    exact ⟨n + 1, by rw [calls, hnext]; exact hn⟩

variable (a) in
/-- An exponential release that stops taking anything off the value before it is zero. -/
def SlowRelease : Prop :=
  a.Releasing ∧ a.Phase ≤ 5 ∧ a.ReleaseMode ∧ 0x1c ≤ a.ReleaseRate ∧ 0 < a.Value

theorem SlowRelease.calculate (hslow : a.SlowRelease) (h : a.Inv) :
    a.calculate.1.SlowRelease ∧ a.calculate.1.Inv ∧
      (a.calculate.1.regADSR1, a.calculate.1.regADSR2) = (a.regADSR1, a.regADSR2) := by
  obtain ⟨hrel, hphase, hmode, hrate, hpos⟩ := hslow
  have hhi := h.hi
  obtain ⟨hlo, hdrop, hzero⟩ := releaseDrop_slow hmode hrate
  have hvalue : a.releaseValue = a.Value - a.releaseDrop :=
    Walk.wrap32_of_lt (by omega) (by omega)
  have hleft : 0 < a.Value - a.releaseDrop := by
    by_cases hsmall : a.Value < 2 ^ 28
    · have := hzero hpos.le hsmall
      omega
    · omega
  rw [calculate_release h hrel hphase, hvalue, if_neg (by omega)]
  exact ⟨⟨hrel, le_refl _, hmode, hrate, hleft⟩, ⟨Nat.le_succ 5, by dsimp only; omega,
    by dsimp only; omega⟩, rfl⟩

theorem SlowRelease.calls (hslow : a.SlowRelease) (h : a.Inv) (n : Nat) :
    (a.calls (fun _ => (a.regADSR1, a.regADSR2)) n).SlowRelease := by
  induction n generalizing a with
  | zero => exact hslow
  | succ n ih =>
    obtain ⟨hnext, hinv, hregs⟩ := hslow.calculate h
    have hrest := ih hnext hinv
    rw [hregs] at hrest
    exact hrest

variable (a) in
/-- Calls of `Calculate` end the envelope when its registers stay as they are. -/
def Ends : Prop := ∃ n, (a.calls (fun _ => (a.regADSR1, a.regADSR2)) n).Phase = 6

theorem ends_iff (h : a.Inv) (hrel : a.Releasing) (hrate : a.ReleaseRate ≠ 0x1f) :
    a.Ends ↔ ¬a.SlowRelease := by
  have hphase := h.phase
  constructor
  · rintro ⟨n, hn⟩ hslow
    have := (hslow.calls h n).2.1
    omega
  · intro hslow
    by_cases hfast : a.FastRelease
    · exact calls_ends h hrel fun _ => hfast
    · obtain ⟨hmode, hge⟩ : a.ReleaseMode ∧ 0x1c ≤ a.ReleaseRate := by
        unfold FastRelease at hfast
        by_contra hno
        refine hfast ⟨hrate, fun hmode => ?_⟩
        by_contra hgt
        exact hno ⟨hmode, by omega⟩
      by_cases hend : a.Phase = 6
      · exact ⟨0, hend⟩
      have hle : a.Value ≤ 0 := by
        by_contra hpos
        exact hslow ⟨hrel, by omega, hmode, hge, by omega⟩
      obtain ⟨hlo, hdrop, -⟩ := releaseDrop_slow hmode hge
      have hvalue : a.releaseValue = a.Value - a.releaseDrop := by
        have := h.lo
        exact Walk.wrap32_of_lt (by omega) (by omega)
      have hnext := calculate_release h hrel (by omega)
      rw [hvalue, if_pos (by omega)] at hnext
      refine ⟨1, ?_⟩
      change a.calculate.1.Phase = 6
      rw [hnext]

/-! ## Runs -/

theorem HeldBelow.calculate (h : a.HeldBelow) : a.calculate.1 = a := by
  obtain ⟨hrel, hphase, hrate, -⟩ := h
  rw [calculate_of_held (by rw [hrel]; exact fun h => Bool.false_ne_true h.1)]
  simp only [hphase]
  rw [sustain, if_pos hrate, Option.getD_none]

theorem Inv.of_inRange (h : a.InRange) (hphase : a.Phase ≤ 6) : a.Inv :=
  ⟨hphase, h.1.trans' (by decide), Int.lt_of_le_sub_one h.2⟩

theorem Inv.calculate (h : a.Inv) (hon : a.Phase ≠ 0) : a.calculate.1.Inv := by
  by_cases hheld : a.HeldBelow
  · rw [hheld.calculate]
    exact h
  · exact .of_inRange ((calculate_inRange_iff h hon).2 hheld) (calculate_phase h).2

theorem wrap32_envx (value : BitVec 16) : -0x7fff8000 ≤ wrap32 (value.toNat * 0x10001) := by
  have hlt := value.isLt
  have hmod : (value.toNat * 0x10001 : Int) % (2 ^ 32 : Nat) = value.toNat * 0x10001 :=
    Int.emod_eq_of_lt (by omega) (by omega)
  unfold wrap32 Int.bmod
  dsimp only
  rw [hmod]
  split <;> omega

theorem Inv.step (h : a.Inv) (e : Event) : (a.step e).Inv := by
  cases e with
  | envx value =>
    rw [ADSR.step]
    constructor <;> dsimp only
    · exact h.phase
    · exact wrap32_envx value
    · exact wrap32_lt _
  | start =>
    exact .of_inRange ⟨Int.one_nonneg, Int.ofNat_le.2 (Nat.le_add_left 1 _)⟩ (Nat.le_add_left 1 5)
  | stop => exact .of_inRange ⟨le_refl _, Int.natCast_nonneg 0x7fffffff⟩ (Nat.zero_le 6)
  | calculate =>
    rw [ADSR.step]
    split
    · exact .of_inRange ⟨le_refl _, Int.natCast_nonneg 0x7fffffff⟩ h.phase
    · exact h.calculate ‹_›
  | _ => exact ⟨h.phase, h.lo, h.hi⟩

theorem Inv.run (h : a.Inv) (events : List Event) : (a.run events).Inv := by
  induction events generalizing a with
  | nil => exact h
  | cons e events ih => exact ih (h.step e)

theorem init_inv : init.Inv := ⟨by decide, by decide, by decide⟩

theorem order_le_step (h : a.Inv) {e : Event} (he : e ≠ .start) : a.order ≤ (a.step e).order := by
  have hphase := h.phase
  cases e with
  | start => exact absurd rfl he
  | stop =>
    change (if a.Phase = 0 then 7 else a.Phase) ≤ 7
    split <;> omega
  | calculate =>
    rw [step]
    split
    · exact le_refl _
    · obtain ⟨hle, hsix⟩ := calculate_phase h
      unfold order
      split_ifs <;> omega
  | envx value =>
    unfold order
    rw [step]
  | _ => exact le_refl _

theorem order_le_run (h : a.Inv) {events : List Event} (he : .start ∉ events) :
    a.order ≤ (a.run events).order := by
  induction events generalizing a with
  | nil => exact le_refl _
  | cons e events ih =>
    rw [List.mem_cons, not_or] at he
    exact (order_le_step h (Ne.symm he.1)).trans (ih (h.step e) he.2)

variable (a) in
/-- What is asked of a call of `Calculate` and, after a key off, of the calls that follow. -/
structure Keeps : Prop where
  range : a.calculate.1.InRange
  index : ∀ i ∈ a.rateIndex, 0 ≤ i ∧ i < 160
  forward : a.Phase ≤ a.calculate.1.Phase ∧ a.calculate.1.Phase ≤ 6
  ends : a.Releasing → a.ReleaseRate ≠ 0x1f → a.Ends

theorem keeps_iff (h : a.Inv) (hon : a.Phase ≠ 0) :
    a.Keeps ↔ ¬a.HeldBelow ∧ ¬(a.SlowRelease ∧ a.ReleaseRate ≠ 0x1f) := by
  rw [← calculate_inRange_iff h hon]
  constructor
  · intro hkeeps
    exact ⟨hkeeps.range, fun hslow =>
      (ends_iff h hslow.1.1 hslow.2).1 (hkeeps.ends hslow.1.1 hslow.2) hslow.1⟩
  · rintro ⟨hrange, hslow⟩
    exact ⟨hrange, a.rateIndex_mem, calculate_phase h, fun hrel hrate =>
      (ends_iff h hrel hrate).2 fun hs => hslow ⟨hs, hrate⟩⟩

end ADSR

end OmegaRed.Spu2
