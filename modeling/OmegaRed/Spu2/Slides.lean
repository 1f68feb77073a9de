import OmegaRed.Spu2.Envelope

/-! Volume slides, and what envelopes and slides keep in every run. -/

namespace OmegaRed.Spu2

namespace VolumeSlide

def init : VolumeSlide := ⟨0, 0, 0, 0⟩

/-- What happens to a volume: `V_VolumeSlideLR(0, 0)`, a write to its register, a write to the
main volume of the PS1, and the calls of the mixer. -/
inductive Event
  | reset
  | regWrite (value : BitVec 16)
  | regSet (value : BitVec 16)
  | update

def step (v : VolumeSlide) : Event → VolumeSlide
  | .reset => init
  | .regWrite value => v.regWrite value
  | .regSet value => { v with Mode := 0, Value := getVol32 value }
  | .update => v.update

def run (v : VolumeSlide) (events : List Event) : VolumeSlide := events.foldl step v

variable (v : VolumeSlide)

/-- The index at which a call of `Update` reads `PsxRates`, if it does. -/
def rateIndex : Option Int :=
  if v.Mode.getLsbD 3 = false ∨ v.Increment = 0x7f then none
  else
    let value : Int := v.Value.natAbs
    let rate : Int := (v.Increment ^^^ 0x7f : Nat)
    let exponential := v.Mode.getLsbD 2
    some (
      if v.Mode.getLsbD 1 then
        if exponential then rate - 0x1b + invExpOffset value + 32 else rate - 0xf + 32
      else if exponential ∧ value ≥ 0x60000000 then rate - 0x18 + 32
      else rate - 0x10 + 32)

structure Inv : Prop where
  lo : -2 ^ 31 ≤ v.Value
  hi : v.Value < 2 ^ 31
  increment : v.Increment < 128

variable {v}

theorem rateIndex_mem (h : v.Inv) : ∀ i ∈ v.rateIndex, 0 ≤ i ∧ i < 160 := by
  intro i hi
  have hinc := h.increment
  have := invExpOffset_le v.Value.natAbs
  unfold rateIndex at hi
  split at hi
  · cases hi
  · rw [xor_seven hinc] at hi
    dsimp only at hi
    obtain rfl := Option.mem_some.1 hi
    split_ifs <;> omega

variable (v) in
/-- The magnitude before the bounds. -/
def slideValue (i : Nat) : Int :=
  if v.Mode.getLsbD 1 then wrap32 (v.Value.natAbs - psxRates i)
  else wrap32 (v.Value.natAbs + psxRates i)

theorem update_eq (h : v.Inv) : v.update =
    match v.rateIndex with
    | none => v
    | some i =>
      update.settle v (v.slideValue i.toNat) (if v.Mode.getLsbD 1 then 0 else 0x7fffffff) := by
  have hinc := h.increment
  have hxor := xor_seven hinc
  unfold update rateIndex slideValue
  by_cases hoff : v.Mode.getLsbD 3 = false ∨ v.Increment = 0x7f
  · rw [if_pos hoff, if_pos hoff]
  rw [if_neg hoff, if_neg hoff]
  dsimp only
  split_ifs <;> congr 4 <;> omega

/-- The value is in the range and has not changed its sign. -/
structure Bounded (v v' : VolumeSlide) : Prop where
  range : v'.Value.natAbs ≤ 0x7fffffff
  pos : 0 ≤ v.Value → 0 ≤ v'.Value
  neg : v.Value < 0 → v'.Value ≤ 0

theorem settle_bounded {value bound : Int} (hvalue : value < 2 ^ 31) (hlo : 0 ≤ bound)
    (hhi : bound < 2 ^ 31) : Bounded v (update.settle v value bound) := by
  unfold update.settle
  dsimp only
  constructor <;> dsimp only <;> split_ifs <;> omega

theorem slideValue_lt (i : Nat) : v.slideValue i < 2 ^ 31 := by
  unfold slideValue
  split <;> exact wrap32_lt _

theorem slides_bounded {i : Nat} : Bounded v
    (update.settle v (v.slideValue i) (if v.Mode.getLsbD 1 then 0 else 0x7fffffff)) := by
  refine settle_bounded (slideValue_lt i) ?_ ?_ <;> split <;> decide

variable (v) in
/-- What is asked of a call of `Update`. -/
structure Keeps : Prop where
  bounded : Bounded v v.update
  index : ∀ i ∈ v.rateIndex, 0 ≤ i ∧ i < 160

variable (v) in
/-- The register holds the least volume and does not slide. -/
def AtBottom : Prop :=
  v.Value = -2 ^ 31 ∧ (v.Mode.getLsbD 3 = false ∨ v.Increment = 0x7f)

theorem rateIndex_eq_none :
    v.rateIndex = none ↔ v.Mode.getLsbD 3 = false ∨ v.Increment = 0x7f := by
  unfold rateIndex
  split
  · exact iff_of_true rfl ‹_›
  · exact iff_of_false (Option.some_ne_none _) ‹_›

theorem keeps_iff (h : v.Inv) : v.Keeps ↔ ¬v.AtBottom := by
  have hupdate := update_eq h
  cases hindex : v.rateIndex with
  | none =>
    have hoff := rateIndex_eq_none.1 hindex
    rw [hindex] at hupdate
    have hlo := h.lo
    have hhi := h.hi
    constructor
    · intro hkeeps hbottom
      have hrange := hkeeps.bounded.range
      rw [hupdate, hbottom.1] at hrange
      exact absurd hrange (by decide)
    · intro hbottom
      have hne : v.Value ≠ -2 ^ 31 := fun hv => hbottom ⟨hv, hoff⟩
      refine ⟨?_, rateIndex_mem h⟩
      rw [show v.update = v from hupdate]
      exact ⟨by omega, id, le_of_lt⟩
  | some i =>
    rw [hindex] at hupdate
    refine iff_of_true ⟨?_, rateIndex_mem h⟩ fun hbottom => ?_
    · rw [hupdate]
      exact slides_bounded
    · rw [rateIndex_eq_none.2 hbottom.2] at hindex
      cases hindex

theorem Bounded.inv {v' : VolumeSlide} (h : Bounded v v') (hinc : v'.Increment < 128) :
    v'.Inv := by
  have := h.range
  exact ⟨by omega, by omega, hinc⟩

theorem update_Increment (h : v.Inv) : v.update.Increment = v.Increment := by
  rw [update_eq h]
  split <;> rfl

theorem init_inv : init.Inv := ⟨by decide, by decide, by decide⟩

theorem Inv.update (h : v.Inv) : v.update.Inv := by
  have hinc := h.increment
  rw [← update_Increment h] at hinc
  by_cases hbottom : v.AtBottom
  · have hupdate := update_eq h
    rw [rateIndex_eq_none.2 hbottom.2] at hupdate
    rw [hupdate]
    exact h
  · exact ((keeps_iff h).2 hbottom).bounded.inv hinc

theorem Inv.step (h : v.Inv) (e : Event) : (v.step e).Inv := by
  cases e with
  | reset => exact init_inv
  | regWrite value =>
    rw [VolumeSlide.step, regWrite]
    split
    · exact ⟨h.lo, h.hi, BitVec.isLt _⟩
    · exact ⟨BitVec.le_toInt _, BitVec.toInt_lt, Nat.two_pow_pos 7⟩
  | regSet value => exact ⟨BitVec.le_toInt _, BitVec.toInt_lt, h.increment⟩
  | update => exact h.update

theorem Inv.run (h : v.Inv) (events : List Event) : (v.run events).Inv := by
  induction events generalizing v with
  | nil => exact h
  | cons e events ih => exact ih (h.step e)

end VolumeSlide

/-- In every run a call of `Calculate` keeps the value in range unless it is held at a negative
value that was written, and a release ends unless it is one of the three slow ones; a call of
`Update` keeps the volume in range unless it is the least one and stands still. -/
theorem envelopes_keep_iff (events : List ADSR.Event) (slides : List VolumeSlide.Event) :
    let a := ADSR.init.run events
    let v := VolumeSlide.init.run slides
    (a.Phase ≠ 0 → (a.Keeps ↔ ¬a.HeldBelow ∧ ¬(a.SlowRelease ∧ a.ReleaseRate ≠ 0x1f))) ∧
    (∀ later, .start ∉ later → a.order ≤ (a.run later).order) ∧
    (a.Releasing → ∀ regs, (∀ n, (a.writeRegs (regs n)).FastRelease) →
      ∃ n, (a.calls regs n).Phase = 6) ∧
    (v.Keeps ↔ ¬v.AtBottom) := by
  have ha := ADSR.init_inv.run events
  exact ⟨ADSR.keeps_iff ha, fun _ hlater => ADSR.order_le_run ha hlater,
    fun hrel _ hfast => ADSR.calls_ends ha hrel hfast,
    VolumeSlide.keeps_iff (VolumeSlide.init_inv.run slides)⟩

/-- A voice with an infinite sustain whose value is written in its third phase. -/
def heldEvents : List ADSR.Event :=
  [.regADSR1 0x000f, .regADSR2 0x1fc0, .start, .calculate, .calculate, .calculate, .calculate,
    .envx 0x8000]

theorem envelopes_keep_iff_held :
    (ADSR.init.run heldEvents).Keeps ↔ ¬(ADSR.init.run heldEvents).HeldBelow ∧
      ¬((ADSR.init.run heldEvents).SlowRelease ∧ (ADSR.init.run heldEvents).ReleaseRate ≠ 0x1f) :=
  (envelopes_keep_iff heldEvents []).1 (by decide +kernel)

theorem not_envelopes_keep :
    ¬∀ events, (ADSR.init.run events).Phase ≠ 0 → (ADSR.init.run events).Keeps := by
  intro hkeeps
  have hrange := (hkeeps heldEvents (by decide +kernel)).range.1
  revert hrange
  decide +kernel

end OmegaRed.Spu2
