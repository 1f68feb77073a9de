import Mathlib.Logic.Function.Iterate
import Mathlib.Tactic.Common
import Mathlib.Data.BitVec

/-! Counters with a target and a wrap: one tick after another, and many ticks at once. -/

namespace OmegaRed.Lib.Timers

inductive Pass
  | target
  | overflow
  deriving DecidableEq, Repr

/-- A counter with the passes that it has reported.  It tests its target while that is armed; an
overflow arms it. -/
structure Timer where
  value : Nat
  target : Nat
  armed : Bool
  onTarget : Bool
  onOverflow : Bool
  /-- goes back to zero at a target that it reports -/
  zeroReturn : Bool
  log : List Pass
  deriving DecidableEq, Repr

namespace Timer

variable (wrap : Nat) (t : Timer)

def plus (n : Nat) : Timer := { t with value := t.value + n }

def report (on : Bool) (p : Pass) : List Pass := if on then t.log ++ [p] else t.log

/-- The test of the target. -/
def reach : Timer :=
  if t.armed ∧ t.target ≤ t.value then
    if t.onTarget ∧ t.zeroReturn then
      { t with value := t.value - t.target, log := t.report t.onTarget .target }
    else { t with armed := false, log := t.report t.onTarget .target }
  else t

/-- The test of the overflow. -/
def turnOver : Timer :=
  if wrap ≤ t.value then
    { t with value := t.value - wrap, armed := true, log := t.report t.onOverflow .overflow }
  else t

def tick : Timer := ((t.plus 1).turnOver wrap).reach

def ticks (n : Nat) : Timer := (tick wrap)^[n] t

/-- The value is before the target, where that is armed. -/
def Below : Prop := t.armed → t.value < t.target

/-- Both tests have nothing to do. -/
def Settled : Prop := t.value < wrap ∧ t.Below

/-- At most, the counter stands at its target. -/
def Ready : Prop := t.value < wrap ∧ (t.armed → t.value ≤ t.target)

/-- The tests that the counter does next leave it before its target. -/
def Clears : Prop :=
  if t.armed ∧ t.target ≤ t.value ∧ t.onTarget ∧ t.zeroReturn then
    t.value - t.target < t.target
  else wrap ≤ t.value → t.value - wrap < t.target

instance : Decidable t.Below := inferInstanceAs (Decidable (_ → _))

instance : Decidable (t.Settled wrap) := inferInstanceAs (Decidable (_ ∧ _))

instance : Decidable (t.Ready wrap) := inferInstanceAs (Decidable (_ ∧ _))

instance : Decidable (t.Clears wrap) := inferInstanceAs (Decidable (ite _ _ _))

variable {wrap t}

@[simp] theorem plus_value (n : Nat) : (t.plus n).value = t.value + n := rfl

@[simp] theorem plus_target (n : Nat) : (t.plus n).target = t.target := rfl

@[simp] theorem plus_armed (n : Nat) : (t.plus n).armed = t.armed := rfl

@[simp] theorem plus_zero : t.plus 0 = t := rfl

theorem plus_plus (n k : Nat) : (t.plus n).plus k = t.plus (n + k) := by
  simp only [plus, Nat.add_assoc]

theorem reach_of_below (h : t.Below) : t.reach = t :=
  if_neg fun hp => absurd (h hp.1) (Nat.not_lt.mpr hp.2)

theorem turnOver_of_lt (h : t.value < wrap) : t.turnOver wrap = t := if_neg (Nat.not_le.mpr h)

theorem Settled.ready (h : t.Settled wrap) : t.Ready wrap :=
  ⟨h.1, fun ha => Nat.le_of_lt (h.2 ha)⟩

theorem Settled.reach (h : t.Settled wrap) : t.reach = t := reach_of_below h.2

theorem Settled.turnOver (h : t.Settled wrap) : t.turnOver wrap = t := turnOver_of_lt h.1

theorem Settled.of_plus {n k : Nat} (h : (t.plus n).Settled wrap) (hk : k ≤ n) :
    (t.plus k).Settled wrap := by
  refine ⟨Nat.lt_of_le_of_lt ?_ h.1, fun ha => Nat.lt_of_le_of_lt ?_ (h.2 ha)⟩
  · exact Nat.add_le_add_left hk _
  · exact Nat.add_le_add_left hk _

theorem Settled.of_plus_self {n : Nat} (h : (t.plus n).Settled wrap) : t.Settled wrap :=
  h.of_plus (Nat.zero_le n)

theorem tick_of_settled (h : (t.plus 1).Settled wrap) : t.tick wrap = t.plus 1 := by
  rw [tick, h.turnOver, h.reach]

@[simp] theorem ticks_zero : t.ticks wrap 0 = t := rfl

theorem ticks_succ (n : Nat) : t.ticks wrap (n + 1) = (t.tick wrap).ticks wrap n := rfl

theorem ticks_add (n k : Nat) : t.ticks wrap (n + k) = (t.ticks wrap n).ticks wrap k := by
  rw [ticks, Nat.add_comm, Function.iterate_add_apply]
  rfl

theorem ticks_succ' (n : Nat) : t.ticks wrap (n + 1) = (t.ticks wrap n).tick wrap := ticks_add n 1

/-- Without a pass on the way, the ticks only count. -/
theorem ticks_of_settled {n : Nat} (h : (t.plus n).Settled wrap) : t.ticks wrap n = t.plus n := by
  induction n with
  | zero => rfl
  | succ n ih =>
    rw [ticks_succ', ih (h.of_plus (Nat.le_succ n)), tick_of_settled, plus_plus]
    rwa [plus_plus]

/-- With the target off, the ticks come to one overflow at most. -/
theorem ticks_of_not_armed {n : Nat} (ha : t.armed = false) (hv : t.value < wrap)
    (ht : t.target < wrap) (hc : wrap ≤ t.value + n → t.value + n - wrap < t.target) :
    t.ticks wrap n = (t.plus n).turnOver wrap := by
  have hnot : ¬t.armed = true := by simp [ha]
  rcases Nat.lt_or_ge (t.value + n) wrap with hlt | hge
  · have hset : (t.plus n).Settled wrap := ⟨hlt, fun h => absurd h hnot⟩
    rw [ticks_of_settled hset, hset.turnOver]
  -- the ticks up to the last value, the one that wraps, and the rest
  · obtain ⟨k, hk⟩ : ∃ k, t.value + k + 1 = wrap := ⟨wrap - 1 - t.value, by omega⟩
    obtain ⟨r, rfl⟩ : ∃ r, n = k + 1 + r := ⟨n - (k + 1), by omega⟩
    have hr : r < t.target := by
      have := hc hge
      omega
    have hquiet : t.ticks wrap k = t.plus k :=
      ticks_of_settled ⟨by rw [plus_value]; omega, fun h => absurd h hnot⟩
    have hwrap : (t.plus k).plus 1 = t.plus (k + 1) := plus_plus k 1
    have hover (m : Nat) (hm : k + 1 ≤ m) : (t.plus m).turnOver wrap =
        { t with
          value := t.value + m - wrap
          armed := true
          log := t.report t.onOverflow .overflow } := if_pos (by rw [plus_value]; omega)
    have hzero : t.value + (k + 1) - wrap = 0 := by omega
    rw [ticks_add, ticks_succ', hquiet, tick, hwrap, hover _ (Nat.le_refl _), hzero, reach_of_below]
    · rw [ticks_of_settled, hover _ (Nat.le_add_right _ _), plus]
      · have hrest : t.value + (k + 1 + r) - wrap = 0 + r := by omega
        rw [hrest]
      · exact ⟨show 0 + r < wrap by omega, fun _ => show 0 + r < t.target by omega⟩
    · exact fun _ => Nat.lt_of_le_of_lt (Nat.zero_le r) hr

/-- A counter that stands at its target. -/
theorem ticks_of_eq_target {n : Nat} (ha : t.armed = true) (hv : t.value = t.target)
    (ht : t.target < wrap) (hc : (t.plus n).Clears wrap) :
    t.reach.ticks wrap n = (t.plus n).reach.turnOver wrap := by
  have hle : (t.plus n).target ≤ (t.plus n).value := by
    rw [plus_target, plus_value, hv]
    exact Nat.le_add_right _ _
  have hat : t.armed = true ∧ t.target ≤ t.value := ⟨ha, Nat.le_of_eq hv.symm⟩
  by_cases hz : t.onTarget = true ∧ t.zeroReturn = true
  · have hn' : n < t.target := by
      rw [Clears, if_pos ⟨ha, hle, hz⟩, plus_value, plus_target, hv] at hc
      omega
    have hstart : t.reach = { t with value := 0, log := t.report t.onTarget .target } := by
      rw [reach, if_pos hat, if_pos hz, hv, Nat.sub_self]
    have hend : (t.plus n).reach = { t with value := n, log := t.report t.onTarget .target } := by
      have hsub : t.value + n - t.target = n := by omega
      refine (if_pos (show _ ∧ _ from ⟨ha, hle⟩)).trans ((if_pos hz).trans ?_)
      simp only [plus, hsub]
      rfl
    have hset : (t.reach.plus n).Settled wrap := by
      rw [hstart]
      exact ⟨show 0 + n < wrap by omega, fun _ => show 0 + n < t.target by omega⟩
    rw [ticks_of_settled hset, hend, turnOver_of_lt (show n < wrap by omega), hstart, plus]
    simp only [Nat.zero_add]
  · have hstart : t.reach = { t with armed := false, log := t.report t.onTarget .target } := by
      rw [reach, if_pos hat, if_neg hz]
    have hend : (t.plus n).reach = t.reach.plus n := by
      rw [hstart, reach, if_pos ⟨ha, hle⟩]
      exact if_neg hz
    rw [hend]
    apply ticks_of_not_armed
    · rw [hstart]
    · rw [hstart]
      exact hv ▸ ht
    · rw [hstart]
      exact ht
    · rw [Clears, if_neg fun h => hz h.2.2] at hc
      rw [hstart]
      exact hc

/-- The ticks one after another come to what the two tests make of all of them at once. -/
theorem ticks_eq_over_reach {n : Nat} (h : t.Ready wrap) (ht : t.target < wrap)
    (hc : (t.plus n).Clears wrap) : t.reach.ticks wrap n = (t.plus n).reach.turnOver wrap := by
  cases ha : t.armed with
  | false =>
    have hnot : ¬t.armed = true := by simp [ha]
    rw [reach_of_below fun h => absurd h hnot,
      reach_of_below (t := t.plus n) fun h => absurd h hnot]
    refine ticks_of_not_armed ha h.1 ht ?_
    rwa [Clears, if_neg fun h => hnot h.1] at hc
  | true =>
    obtain ⟨k, hk⟩ := Nat.le.dest (h.2 ha)
    rcases Nat.lt_or_ge n k with hlt | hge
    · have hset : (t.plus n).Settled wrap :=
        ⟨by rw [plus_value]; omega, fun _ => by rw [plus_value, plus_target]; omega⟩
      rw [hset.of_plus_self.reach, ticks_of_settled hset, hset.reach,
        hset.turnOver]
    · obtain ⟨r, rfl⟩ := Nat.le.dest hge
      have hat : t.reach.ticks wrap k = (t.plus k).reach := by
        cases k with
        | zero => rfl
        | succ k =>
          have hset : (t.plus k).Settled wrap :=
            ⟨by rw [plus_value]; omega, fun _ => by rw [plus_value, plus_target]; omega⟩
          rw [hset.of_plus_self.reach, ticks_succ',
            ticks_of_settled hset, tick, plus_plus, turnOver_of_lt (by rw [plus_value]; omega)]
      rw [ticks_add, hat, ← plus_plus]
      rw [← plus_plus] at hc
      exact ticks_of_eq_target ha hk ht hc

theorem Clears.value_lt (hc : t.Clears wrap) (ht : t.target < wrap) : t.value < 2 * wrap := by
  rw [Clears] at hc
  split at hc
  · omega
  · by_contra hge
    have := hc (by omega)
    omega

/-- After tests that clear it, the counter is settled. -/
theorem settled_over_reach (ht : t.target < wrap) (hc : t.Clears wrap) :
    (t.reach.turnOver wrap).Settled wrap := by
  by_cases hat : t.armed = true ∧ t.target ≤ t.value
  · by_cases hz : t.onTarget = true ∧ t.zeroReturn = true
    · rw [Clears, if_pos ⟨hat.1, hat.2, hz⟩] at hc
      rw [reach, if_pos hat, if_pos hz, turnOver_of_lt (show t.value - t.target < wrap by omega)]
      exact ⟨show t.value - t.target < wrap by omega, fun _ => hc⟩
    · rw [Clears, if_neg fun h => hz h.2.2] at hc
      rw [reach, if_pos hat, if_neg hz, turnOver]
      split
      · rename_i hge
        exact ⟨show t.value - wrap < wrap by omega, fun _ => hc hge⟩
      · rename_i hlt
        exact ⟨Nat.not_le.mp hlt, fun h => absurd h Bool.false_ne_true⟩
  · rw [Clears, if_neg fun h => hat ⟨h.1, h.2.1⟩] at hc
    rw [reach, if_neg hat, turnOver]
    split
    · rename_i hge
      exact ⟨show t.value - wrap < wrap by omega, fun _ => hc hge⟩
    · rename_i hlt
      exact ⟨Nat.not_le.mp hlt, fun ha => Nat.not_le.mp fun hle => hat ⟨ha, hle⟩⟩

section Free

/-! A counter that does not go back to zero at its target counts modulo `wrap`. -/

theorem reach_value (h : t.zeroReturn = false) : t.reach.value = t.value := by
  rw [reach]
  split
  · rw [if_neg (by simp [h])]
  · rfl

@[simp] theorem reach_zeroReturn : t.reach.zeroReturn = t.zeroReturn := by
  rw [reach]
  split
  · split <;> rfl
  · rfl

@[simp] theorem turnOver_zeroReturn : (t.turnOver wrap).zeroReturn = t.zeroReturn := by
  rw [turnOver]
  split <;> rfl

theorem turnOver_value_mod : (t.turnOver wrap).value % wrap = t.value % wrap := by
  rw [turnOver]
  split
  · rename_i hge
    exact (Nat.mod_eq_sub_mod hge).symm
  · rfl

theorem tick_value_mod (h : t.zeroReturn = false) :
    (t.tick wrap).value % wrap = (t.value + 1) % wrap := by
  have hzero : ((t.plus 1).turnOver wrap).zeroReturn = false := turnOver_zeroReturn.trans h
  rw [tick, reach_value hzero, turnOver_value_mod, plus_value]

theorem ticks_value_mod (wrap n : Nat) (h : t.zeroReturn = false) :
    (t.ticks wrap n).value % wrap = (t.value + n) % wrap ∧
      (t.ticks wrap n).zeroReturn = false := by
  induction n with
  | zero => exact ⟨rfl, h⟩
  | succ n ih =>
    rw [ticks_succ']
    refine ⟨?_, ?_⟩
    · rw [tick_value_mod ih.2, Nat.add_mod, ih.1, ← Nat.add_mod, Nat.add_assoc]
    · rw [tick, reach_zeroReturn, turnOver_zeroReturn]
      exact ih.2

end Free

end Timer

end OmegaRed.Lib.Timers

/-! Points of time on a 32-bit clock that wraps around, compared by signed differences. -/

namespace OmegaRed.Lib.Deadlines

abbrev Time := BitVec 32

/-- `a` is not later than `b`, in wrap-around order. -/
def NotLater (a b : Time) : Prop := (a - b).toInt ≤ 0

instance (a b : Time) : Decidable (NotLater a b) := inferInstanceAs (Decidable (_ ≤ _))

/-- Less than half a turn of the clock after `o`. -/
def Near (o t : Time) : Prop := (t - o).toNat < 2 ^ 31

instance (o t : Time) : Decidable (Near o t) := inferInstanceAs (Decidable (_ < _))

section

variable {o a b c : Time}

/-- Between near points, the signed difference is the true one. -/
theorem toInt_sub (ha : Near o a) (hb : Near o b) :
    (a - b).toInt = ((a - o).toNat : Int) - (b - o).toNat := by
  unfold Near at ha hb
  have ho := o.isLt
  have ha' := a.isLt
  have hb' := b.isLt
  simp only [BitVec.toNat_sub, BitVec.toInt_eq_toNat_cond] at ha hb ⊢
  split <;> omega

theorem notLater_iff (ha : Near o a) (hb : Near o b) :
    NotLater a b ↔ (a - o).toNat ≤ (b - o).toNat := by
  rw [NotLater, toInt_sub ha hb]
  omega

theorem NotLater.refl (a : Time) : NotLater a a := by simp [NotLater]

theorem NotLater.trans (ha : Near o a) (hb : Near o b) (hc : Near o c) (hab : NotLater a b)
    (hbc : NotLater b c) : NotLater a c := by
  rw [notLater_iff ha hb] at hab
  rw [notLater_iff hb hc] at hbc
  rw [notLater_iff ha hc]
  exact hab.trans hbc

/-- A point `d` after another one, by a signed delta. -/
theorem toInt_delta {d : BitVec 32} (ha : Near o a) (hd : Near o (a + d)) :
    d.toInt = ((a + d - o).toNat : Int) - (a - o).toNat := by
  rw [← toInt_sub hd ha, BitVec.add_comm, BitVec.add_sub_cancel]

/-- A shorter delta from the same point. -/
theorem near_of_le {d e : BitVec 32} (ha : Near o a) (hd : Near o (a + d)) (h0 : 0 ≤ d.toInt)
    (h : e.toNat ≤ d.toNat) : Near o (a + e) := by
  have hdi := toInt_delta ha hd
  unfold Near at ha hd ⊢
  have ho := o.isLt
  have hal := a.isLt
  have hdl := d.isLt
  simp only [BitVec.toNat_sub, BitVec.toNat_add, BitVec.toInt_eq_toNat_cond] at ha hd hdi h0 ⊢
  split at h0
  · omega
  · omega

/-- The elapsed time has reached the delta exactly when the deadline is not in the future. -/
theorem elapsed_iff {d : BitVec 32} (ha : Near o a) (hd : Near o (a + d)) (hc : Near o c) :
    d.toInt ≤ (c - a).toInt ↔ NotLater (a + d) c := by
  rw [notLater_iff hd hc, toInt_sub hc ha, toInt_delta ha hd]
  omega

end

/-- The earlier of a deadline and `start + delta`. -/
def lower (next start : Time) (delta : BitVec 32) : Time :=
  if (next - start).toInt > delta.toInt then start + delta else next

section Lower

variable {o next start t : Time} {delta : BitVec 32} (hn : Near o next) (hs : Near o start)
  (hd : Near o (start + delta))

variable (next start delta) in
theorem lower_eq : lower next start delta = start + delta ∨ lower next start delta = next := by
  rw [lower]
  split
  · exact Or.inl rfl
  · exact Or.inr rfl

include hn hd in
theorem near_lower : Near o (lower next start delta) := by
  rcases lower_eq next start delta with h | h
  · rwa [h]
  · rwa [h]

include hn hs hd

theorem lower_notLater_delta : NotLater (lower next start delta) (start + delta) := by
  rw [lower]
  split
  · exact NotLater.refl _
  · next h =>
    rw [notLater_iff hn hd]
    rw [toInt_sub hn hs, toInt_delta hs hd] at h
    omega

theorem lower_notLater_next : NotLater (lower next start delta) next := by
  rw [lower]
  split
  · next h =>
    rw [notLater_iff hd hn]
    rw [toInt_sub hn hs, toInt_delta hs hd] at h
    omega
  · exact NotLater.refl _

theorem lower_notLater (ht : Near o t) (h : NotLater next t) :
    NotLater (lower next start delta) t :=
  (lower_notLater_next hn hs hd).trans (near_lower hn hd) hn ht h

end Lower

/-- Time that passes only brings deadlines closer. -/
theorem NotLater.advance {o d c : Time} {k : BitVec 32} (hd : Near o d) (hc : Near o c)
    (hk : Near o (c + k)) (hlt : 0 ≤ k.toInt) (h : NotLater d c) : NotLater d (c + k) := by
  rw [notLater_iff hd hc] at h
  rw [notLater_iff hd hk]
  rw [toInt_delta hc hk] at hlt
  omega

end OmegaRed.Lib.Deadlines
