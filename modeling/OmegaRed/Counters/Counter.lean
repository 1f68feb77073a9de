import OmegaRed.Events.Machine
import OmegaRed.Lib.Timers
import Mathlib.Algebra.Order.Group.Nat
import Mathlib.Data.Nat.Bitwise

/-! The counters of the EE, and each of them as a timer. -/

namespace OmegaRed.Counters

open Lib.Deadlines Lib.Timers

/-- `EECNT_MODE` -/
structure Mode where
  clockSource : BitVec 2
  enableGate : Bool
  gateSource : Bool
  gateMode : BitVec 2
  zeroReturn : Bool
  isCounting : Bool
  targetInterrupt : Bool
  overflowInterrupt : Bool
  targetReached : Bool
  overflowReached : Bool

/-- `vSyncInfo`, as far as the counters read it. -/
structure VSyncInfo where
  render : BitVec 32
  blank : BitVec 32
  hSyncError : BitVec 32
  hRender : BitVec 32
  hBlank : BitVec 32

/-- A counter, with the tests that have called `hwIntcIrq(interrupt)`. -/
structure Counter where
  count : BitVec 32
  mode : Mode
  target : BitVec 32
  hold : BitVec 32
  rate : BitVec 32
  interrupt : BitVec 32
  sCycleT : Time
  irqs : List Pass

namespace Mode

variable (m : Mode)

/-- The mode after a write; a flag is cleared by writing 1 to it. -/
def write (value : BitVec 32) : Mode where
  clockSource := value.extractLsb' 0 2
  enableGate := value.getLsbD 2
  gateSource := value.getLsbD 3
  gateMode := value.extractLsb' 4 2
  zeroReturn := value.getLsbD 6
  isCounting := value.getLsbD 7
  targetInterrupt := value.getLsbD 8
  overflowInterrupt := value.getLsbD 9
  targetReached := m.targetReached && !value.getLsbD 10
  overflowReached := m.overflowReached && !value.getLsbD 11

/-- The gate is on; an hblank gate is not, where hblank is the clock as well. -/
def gated : Bool := m.enableGate && !(!m.gateSource && m.clockSource == 3)

/-- An internal clock and no gate. -/
def plain : Bool := !m.gated && m.clockSource != 3

def rate (info : VSyncInfo) : BitVec 32 :=
  if m.clockSource = 0 then 2
  else if m.clockSource = 1 then 32
  else if m.clockSource = 2 then 512
  else info.hBlank + info.hRender

end Mode

namespace Counter

variable (c : Counter) (cycle : Time)

/-- `EECNT_FUTURE_TARGET` -/
def futureTarget : BitVec 32 := 0x10000000

/-- Counts on an internal clock. -/
def counts : Bool := c.mode.isCounting && c.mode.clockSource != 3

/-- What the scheduler reads of the counter. -/
def sched : Events.Counter where
  isCounting := c.mode.isCounting
  clockSource := c.mode.clockSource
  count := c.count
  target := c.target
  rate := c.rate
  sCycleT := c.sCycleT

/-- The interrupt at the target. -/
def targetIrq : Counter :=
  { c with mode := { c.mode with targetReached := true }, irqs := c.irqs ++ [Pass.target] }

/-- The interrupt at the overflow. -/
def overflowIrq : Counter :=
  { c with mode := { c.mode with overflowReached := true }, irqs := c.irqs ++ [Pass.overflow] }

/-- `_cpuTestTarget` -/
def testTarget : Counter :=
  if c.count < c.target then c
  else if c.mode.targetInterrupt then
    if c.mode.zeroReturn then { c.targetIrq with count := c.count - c.target }
    else { c.targetIrq with target := c.target ||| futureTarget }
  else { c with target := c.target ||| futureTarget }

/-- `_cpuTestOverflow` -/
def testOverflow : Counter :=
  if c.count ≤ 0xffff then c
  else
    { if c.mode.overflowInterrupt then c.overflowIrq else c with
      count := c.count - 0x10000
      target := c.target &&& 0xffff }

/-- The clock ticks of `change` cycles go to the count; the rest stays behind `sCycleT`. -/
def addTicks (change : BitVec 32) : Counter :=
  { c with
    count := c.count + change / c.rate
    sCycleT := cycle - (change - change / c.rate * c.rate) }

/-- The counting of `rcntUpdate`. -/
def counted : Counter :=
  let change := cycle - c.sCycleT
  c.addTicks cycle (if change.toInt < 0 then 0 else change)

/-- The loop of `rcntUpdate`, for one counter. -/
def update : Counter :=
  if c.mode.isCounting = false then c
  else if c.mode.clockSource ≠ 3 then (c.counted cycle).testTarget.testOverflow
  else { c with sCycleT := cycle }

/-- `rcntRcount`, `rcntCycle` -/
def rcntRcount : BitVec 32 :=
  if c.counts then c.count + (cycle - c.sCycleT) / c.rate else c.count

/-- The adjustment of the count by `rcntWmode` and `rcntWtarget`. -/
def recount : Counter :=
  let change := cycle - c.sCycleT
  if 0 < change then c.addTicks cycle change else c

/-- `_rcntSetGate`, with `rcntReset` -/
def setGate : Counter :=
  if c.mode.gated then
    { c with mode := { c.mode with isCounting := false }, count := 0, sCycleT := cycle }
  else c

/-- The count and the start cycle before a write of the mode. -/
def settle : Counter :=
  if c.mode.isCounting then if c.mode.clockSource ≠ 3 then c.recount cycle else c
  else { c with sCycleT := cycle }

/-- `rcntWmode`, up to `gates` and `_rcntSet` -/
def writeMode (info : VSyncInfo) (value : BitVec 32) : Counter :=
  let mode := c.mode.write value
  { c.settle cycle with mode := mode, rate := mode.rate info }.setGate cycle

/-- The count and the target after a write of the count. -/
def setCount (value : BitVec 32) : Counter :=
  let c := { c with count := value &&& 0xffff, target := c.target &&& 0xffff }
  if c.target < c.count then { c with target := c.target ||| futureTarget } else c

/-- The start cycle after a write of the count. -/
def rephase : Counter :=
  if c.mode.isCounting then
    if c.mode.clockSource ≠ 3 then
      let change := cycle - c.sCycleT
      if 0 < change.toInt then
        { c with sCycleT := cycle - (change - change / c.rate * c.rate) }
      else c
    else c
  else { c with sCycleT := cycle }

/-- `rcntWcount`, up to `_rcntSet` -/
def writeCount (value : BitVec 32) : Counter := (c.setCount value).rephase cycle

/-- The guard of `rcntWtarget` against an instant target. -/
def guardTarget : Counter :=
  if c.target ≤ c.rcntRcount cycle then { c with target := c.target ||| futureTarget } else c

/-- `rcntWtarget`, up to `_rcntSet` -/
def writeTarget (value : BitVec 32) : Counter :=
  let c := { c with target := value &&& 0xffff }
  (if c.counts then c.recount cycle else c).guardTarget cycle

/-- `rcntWhold` -/
def writeHold (value : BitVec 32) : Counter := { c with hold := value }

/-- The tick of a counter that counts hblanks. -/
def hblankTick (isVblank : Bool) : Counter :=
  if !isVblank && c.mode.isCounting && c.mode.clockSource == 3 then
    { c with count := c.count + 1 }.testTarget.testOverflow
  else c

/-- The loop of `rcntStartGate`, for one counter. -/
def startGate (gate isVblank : Bool) (sCycle : Time) : Counter :=
  let c := c.hblankTick isVblank
  if !gate || c.mode.gateSource != isVblank then c
  else if c.mode.gateMode = 0 then
    { c with
      count := c.rcntRcount cycle
      mode := { c.mode with isCounting := false }
      sCycleT := sCycle }
  else if c.mode.gateMode = 2 then c
  else
    { c with
      mode := { c.mode with isCounting := true }
      count := 0
      target := c.target &&& 0xffff
      sCycleT := sCycle }

/-- The loop of `rcntEndGate`, for one counter. -/
def endGate (gate isVblank : Bool) (sCycle : Time) : Counter :=
  if !gate || c.mode.gateSource != isVblank then c
  else if c.mode.gateMode = 0 then
    { c with mode := { c.mode with isCounting := true }, sCycleT := cycle }
  else if c.mode.gateMode = 1 then c
  else
    { c with
      mode := { c.mode with isCounting := true }
      count := 0
      target := c.target &&& 0xffff
      sCycleT := sCycle }

/-- The counter as a timer of 16 bits. -/
def view : Timer where
  value := c.count.toNat
  target := c.target.toNat % 0x10000
  armed := c.target &&& futureTarget == 0
  onTarget := c.mode.targetInterrupt
  onOverflow := c.mode.overflowInterrupt
  zeroReturn := c.mode.zeroReturn
  log := c.irqs

/-- The timer with the count that a read returns. -/
def readTimer : Timer := { c.view with value := (c.rcntRcount cycle).toNat }

/-- The cycles that a write of the mode finds behind the last tick. -/
def phase : BitVec 32 :=
  if c.mode.isCounting then
    if c.mode.clockSource ≠ 3 then (cycle - c.sCycleT) % c.rate else cycle - c.sCycleT
  else 0

/-- A target of 16 bits that is armed or not. -/
def targetWord (x : Nat) (armed : Bool) : BitVec 32 :=
  .ofNat 32 (x + if armed then 0 else 0x10000000)

/-- The target register has no bits but its own and that of the future target. -/
def Fits : Prop := c.target = targetWord c.view.target c.view.armed

section TargetWord

variable {x : Nat} (hx : x < 0x10000) (a : Bool)

include hx

theorem toNat_targetWord : (targetWord x a).toNat = x + if a then 0 else 0x10000000 := by
  rw [targetWord, BitVec.toNat_ofNat]
  cases a with
  | false => exact Nat.mod_eq_of_lt (show x + 0x10000000 < 2 ^ 32 by omega)
  | true => exact Nat.mod_eq_of_lt (show x + 0 < 2 ^ 32 by omega)

@[simp] theorem toNat_targetWord_mod : (targetWord x a).toNat % 0x10000 = x := by
  rw [toNat_targetWord hx]
  split <;> omega

theorem or_future : x ||| 0x10000000 = x + 0x10000000 := by
  rw [Nat.or_comm, Nat.add_comm]
  exact (Nat.two_pow_add_eq_or_of_lt (i := 28) (by omega) 1).symm

theorem targetWord_or : targetWord x a ||| futureTarget = targetWord x false := by
  apply BitVec.eq_of_toNat_eq
  rw [BitVec.toNat_or, toNat_targetWord hx, toNat_targetWord hx]
  cases a with
  | false =>
    change (x + 0x10000000) ||| 0x10000000 = x + 0x10000000
    rw [← or_future hx, Nat.or_assoc, Nat.or_self]
  | true => exact or_future hx

theorem targetWord_and : targetWord x a &&& 0xffff = targetWord x true := by
  apply BitVec.eq_of_toNat_eq
  rw [BitVec.toNat_and, toNat_targetWord hx true]
  change (targetWord x a).toNat &&& 2 ^ 16 - 1 = x
  rw [Nat.and_two_pow_sub_one_eq_mod]
  exact toNat_targetWord_mod hx a

theorem targetWord_armed : (targetWord x a &&& futureTarget == 0) = a := by
  have hbit : (targetWord x a &&& futureTarget).toNat = if a then 0 else 0x10000000 := by
    rw [BitVec.toNat_and, toNat_targetWord hx]
    change _ &&& 2 ^ 28 = _
    rw [Nat.and_two_pow, Nat.testBit_eq_decide_div_mod_eq]
    cases a with
    | false =>
      have hdiv : x / 0x10000000 = 0 := by omega
      simp [hdiv]
    | true =>
      have hdiv : x / 0x10000000 = 0 := by omega
      simp [hdiv]
  cases a with
  | false =>
    refine beq_eq_false_iff_ne.mpr fun h => ?_
    rw [h] at hbit
    exact absurd hbit (by decide)
  | true => exact beq_iff_eq.mpr (BitVec.eq_of_toNat_eq hbit)

end TargetWord

variable {c}

theorem view_target_lt : c.view.target < 0x10000 := Nat.mod_lt _ (by decide)

theorem view_of_target {x : Nat} {a : Bool} (hx : x < 0x10000) (h : c.target = targetWord x a) :
    c.Fits ∧ c.view =
      { value := c.count.toNat
        target := x
        armed := a
        onTarget := c.mode.targetInterrupt
        onOverflow := c.mode.overflowInterrupt
        zeroReturn := c.mode.zeroReturn
        log := c.irqs } := by
  have ht : c.view.target = x := (congrArg (·.toNat % 0x10000) h).trans (toNat_targetWord_mod hx a)
  have ha : c.view.armed = a := (congrArg (· &&& futureTarget == 0) h).trans (targetWord_armed hx a)
  subst ht ha
  exact ⟨h, rfl⟩

theorem Fits.or_future (h : c.Fits) :
    c.target ||| futureTarget = targetWord c.view.target false :=
  (congrArg (· ||| futureTarget) h).trans (targetWord_or view_target_lt _)

theorem Fits.and_target (h : c.Fits) : c.target &&& 0xffff = targetWord c.view.target true :=
  (congrArg (· &&& 0xffff) h).trans (targetWord_and view_target_lt _)

theorem Fits.toNat_target (h : c.Fits) :
    c.target.toNat = c.view.target + if c.view.armed then 0 else 0x10000000 :=
  (congrArg BitVec.toNat h).trans (toNat_targetWord view_target_lt _)

/-- The comparison of the count with the target, as long as the count has no such bits. -/
theorem Fits.count_lt_iff (h : c.Fits) (hv : c.count.toNat < 0x10000000) :
    c.count < c.target ↔ ¬(c.view.armed = true ∧ c.view.target ≤ c.view.value) := by
  have hval : c.view.value = c.count.toNat := rfl
  rw [BitVec.lt_def, h.toNat_target, hval]
  cases ha : c.view.armed with
  | false => exact iff_of_true (by simp; omega) (by simp)
  | true => simp

section Tests

theorem view_testTarget (h : c.Fits) (hv : c.count.toNat < 0x10000000) :
    c.testTarget.Fits ∧ c.testTarget.view = c.view.reach := by
  have hiff := h.count_lt_iff hv
  by_cases hlt : c.count < c.target
  · rw [testTarget, if_pos hlt, Timer.reach, if_neg (hiff.mp hlt)]
    exact ⟨h, rfl⟩
  have hat : c.view.armed = true ∧ c.view.target ≤ c.view.value := not_not.mp (mt hiff.mpr hlt)
  have hoff {d : Counter} (hd : d.target = c.target ||| futureTarget) :=
    view_of_target view_target_lt (hd.trans h.or_future)
  rw [testTarget, if_neg hlt, Timer.reach, if_pos hat]
  by_cases hon : c.mode.targetInterrupt = true
  · have hreport : c.view.report c.view.onTarget .target = c.irqs ++ [Pass.target] := if_pos hon
    rw [if_pos hon, hreport]
    by_cases hzero : c.mode.zeroReturn = true
    · have hsub : (c.count - c.target).toNat = c.view.value - c.view.target := by
        have ht := h.toNat_target
        rw [if_pos hat.1, Nat.add_zero] at ht
        have hle := hat.2
        rw [← ht] at hle ⊢
        exact BitVec.toNat_sub_of_le hle
      have hz : c.view.onTarget = true ∧ c.view.zeroReturn = true := ⟨hon, hzero⟩
      rw [if_pos hzero, if_pos hz, ← hsub]
      exact ⟨h, rfl⟩
    · have hz : ¬(c.view.onTarget = true ∧ c.view.zeroReturn = true) := fun hz => hzero hz.2
      rw [if_neg hzero, if_neg hz]
      exact hoff rfl
  · have hreport : c.view.report c.view.onTarget .target = c.irqs := if_neg hon
    rw [if_neg hon, if_neg fun hz => hon hz.1, hreport]
    exact hoff rfl

theorem view_testOverflow (h : c.Fits) :
    c.testOverflow.Fits ∧ c.testOverflow.view = c.view.turnOver 0x10000 := by
  have hval : c.view.value = c.count.toNat := rfl
  rw [testOverflow, Timer.turnOver, hval]
  by_cases hle : c.count ≤ 0xffff
  · rw [if_pos hle, if_neg]
    · exact ⟨h, rfl⟩
    · rw [BitVec.le_def] at hle
      exact Nat.not_le.mpr (Nat.lt_succ_of_le hle)
  have hge : 0x10000 ≤ c.count.toNat := by
    rw [BitVec.le_def] at hle
    exact Nat.lt_of_not_le hle
  have hsub : (c.count - 0x10000).toNat = c.count.toNat - 0x10000 := BitVec.toNat_sub_of_le hge
  have harm {d : Counter} (hd : d.target = c.target &&& 0xffff) :=
    view_of_target view_target_lt (hd.trans h.and_target)
  rw [if_neg hle, if_pos hge, ← hsub]
  by_cases hon : c.mode.overflowInterrupt = true
  · have hreport : c.view.report c.view.onOverflow .overflow = c.irqs ++ [Pass.overflow] :=
      if_pos hon
    rw [if_pos hon, hreport]
    exact harm rfl
  · have hreport : c.view.report c.view.onOverflow .overflow = c.irqs := if_neg hon
    rw [if_neg hon, hreport]
    exact harm rfl

end Tests

section Updated

variable {cycle : Time}

theorem Fits.testTarget (h : c.Fits) : c.testTarget.Fits := by
  rw [Counter.testTarget]
  split
  · exact h
  split
  · split
    · exact h
    · exact (view_of_target view_target_lt h.or_future).1
  · exact (view_of_target view_target_lt h.or_future).1

theorem Fits.update (cycle : BitVec 32) (h : c.Fits) : (c.update cycle).Fits := by
  rw [Counter.update]
  split
  · exact h
  split
  · exact (view_testOverflow (c := (c.counted cycle).testTarget)
      (Fits.testTarget (c := c.counted cycle) h)).1
  · exact h

theorem counts_iff : c.counts = true ↔ c.mode.isCounting = true ∧ c.mode.clockSource ≠ 3 := by
  rw [counts, Bool.and_eq_true, bne_iff_ne]

theorem update_of_counts (hc : c.counts = true) :
    c.update cycle = (c.counted cycle).testTarget.testOverflow := by
  obtain ⟨hcount, hsource⟩ := counts_iff.mp hc
  rw [Counter.update, if_neg (by simp [hcount]), if_pos hsource]

theorem view_update (h : c.Fits) (hc : c.counts = true)
    (hclear : (c.counted cycle).view.Clears 0x10000) :
    (c.update cycle).view = (c.counted cycle).view.reach.turnOver 0x10000 ∧
      (c.update cycle).view.Settled 0x10000 := by
  have hv : (c.counted cycle).count.toNat < 0x10000000 :=
    Nat.lt_of_lt_of_le (hclear.value_lt view_target_lt) (by decide)
  obtain ⟨hf, hview⟩ := view_testTarget (c := c.counted cycle) h hv
  have heq : (c.update cycle).view = (c.counted cycle).view.reach.turnOver 0x10000 := by
    rw [update_of_counts hc, (view_testOverflow hf).2, hview]
  exact ⟨heq, heq ▸ Timer.settled_over_reach view_target_lt hclear⟩

theorem overshot_of_ready (h : c.Fits) (hr : c.view.Ready 0x10000) : c.sched.overshot = false := by
  have hle : ¬(0x10000 : BitVec 32) < c.count := by
    rw [BitVec.lt_def]
    exact Nat.not_lt.mpr (Nat.le_of_lt hr.1)
  have hlt : ¬c.target < c.count := by
    have hval : c.count.toNat = c.view.value := rfl
    have hv := hr.1
    rw [BitVec.lt_def, h.toNat_target, hval]
    split
    · rename_i ha
      exact Nat.not_lt.mpr (hr.2 ha)
    · omega
  have hpassed : c.sched.passed = false := by
    rw [Events.Counter.passed, Bool.or_eq_false_iff]
    exact ⟨decide_eq_false hle, decide_eq_false hlt⟩
  rw [Events.Counter.overshot, hpassed, Bool.and_false]

end Updated

section Kept

/-! What the tests and updates of a counter leave as it is. -/

variable {cycle : Time}

def kept (c : Counter) : BitVec 32 × Mode :=
  (c.rate, { c.mode with targetReached := false, overflowReached := false })

theorem counts_of_kept {d : Counter} (h : d.kept = c.kept) : d.counts = c.counts :=
  congrArg (fun k : BitVec 32 × Mode => k.2.isCounting && k.2.clockSource != 3) h

theorem kept_testTarget : c.testTarget.kept = c.kept ∧ c.testTarget.sCycleT = c.sCycleT := by
  rw [testTarget]
  split
  · exact ⟨rfl, rfl⟩
  split
  · split
    · exact ⟨rfl, rfl⟩
    · exact ⟨rfl, rfl⟩
  · exact ⟨rfl, rfl⟩

theorem kept_testOverflow : c.testOverflow.kept = c.kept ∧ c.testOverflow.sCycleT = c.sCycleT := by
  rw [testOverflow]
  split
  · exact ⟨rfl, rfl⟩
  · split
    · exact ⟨rfl, rfl⟩
    · exact ⟨rfl, rfl⟩

theorem kept_tests : c.testTarget.testOverflow.kept = c.kept ∧
    c.testTarget.testOverflow.sCycleT = c.sCycleT :=
  ⟨kept_testOverflow.1.trans kept_testTarget.1, kept_testOverflow.2.trans kept_testTarget.2⟩

theorem kept_update : (c.update cycle).kept = c.kept := by
  rw [update]
  split
  · rfl
  split
  · exact kept_tests.1
  · rfl

end Kept

section Elapsed

/-! The 32-bit clock against the cycles since power-on. -/

variable {now start : Nat} (hs : start ≤ now)

include hs

theorem elapsed_toNat (hlt : now - start < 2 ^ 32) :
    (BitVec.ofNat 32 now - BitVec.ofNat 32 start).toNat = now - start := by
  obtain ⟨k, rfl⟩ := Nat.le.dest hs
  rw [Nat.add_sub_cancel_left] at hlt ⊢
  rw [BitVec.ofNat_add, BitVec.add_comm, BitVec.add_sub_cancel, BitVec.toNat_ofNat,
    Nat.mod_eq_of_lt hlt]

theorem addTicks_eq (hlt : now - start < 2 ^ 32) (hc : c.sCycleT = .ofNat 32 start)
    (hv : c.count.toNat + (now - start) / c.rate.toNat < 2 ^ 32) :
    (c.addTicks (.ofNat 32 now) (.ofNat 32 now - c.sCycleT)).view =
        c.view.plus ((now - start) / c.rate.toNat) ∧
      (c.addTicks (.ofNat 32 now) (.ofNat 32 now - c.sCycleT)).sCycleT =
        .ofNat 32 (start + (now - start) / c.rate.toNat * c.rate.toNat) := by
  have hdiv : ((.ofNat 32 now - c.sCycleT) / c.rate).toNat = (now - start) / c.rate.toNat := by
    rw [BitVec.toNat_udiv, hc, elapsed_toNat hs hlt]
  refine ⟨?_, ?_⟩
  · have hcount : (c.count + (.ofNat 32 now - c.sCycleT) / c.rate).toNat =
        c.count.toNat + (now - start) / c.rate.toNat := by
      rw [BitVec.toNat_add, hdiv, Nat.mod_eq_of_lt hv]
    exact congrArg (fun v => { c.view with value := v }) hcount
  · have hq : BitVec.ofNat 32 ((now - start) / c.rate.toNat) = (.ofNat 32 now - c.sCycleT) / c.rate := by
      rw [← hdiv, BitVec.ofNat_toNat, BitVec.setWidth_eq]
    rw [BitVec.ofNat_add, BitVec.ofNat_mul, hq, BitVec.ofNat_toNat, BitVec.setWidth_eq, addTicks, ← hc]
    ring

theorem counted_eq (hlt : now - start < 2 ^ 31) (hc : c.sCycleT = .ofNat 32 start) :
    c.counted (.ofNat 32 now) = c.addTicks (.ofNat 32 now) (.ofNat 32 now - c.sCycleT) := by
  have hnat : (BitVec.ofNat 32 now - c.sCycleT).toNat = now - start :=
    hc ▸ elapsed_toNat hs (by omega)
  have hpos : ¬(BitVec.ofNat 32 now - c.sCycleT).toInt < 0 := by
    rw [BitVec.toInt_eq_toNat_cond, hnat, if_pos (by omega)]
    omega
  rw [counted, if_neg hpos]

theorem rcntRcount_toNat (hlt : now - start < 2 ^ 32) (hcounts : c.counts = true)
    (hc : c.sCycleT = .ofNat 32 start)
    (hv : c.count.toNat + (now - start) / c.rate.toNat < 2 ^ 32) :
    (c.rcntRcount (.ofNat 32 now)).toNat = c.count.toNat + (now - start) / c.rate.toNat := by
  rw [rcntRcount, if_pos hcounts, BitVec.toNat_add, BitVec.toNat_udiv, hc, elapsed_toNat hs hlt,
    Nat.mod_eq_of_lt hv]

end Elapsed

section Wired

/-! What only a write of the mode changes, and what is true of every counter. -/

variable {cycle sCycle : Time} {gate isVblank : Bool} {value : BitVec 32} {info : VSyncInfo}

def setup (c : Counter) : BitVec 32 × BitVec 2 × Bool := (c.rate, c.mode.clockSource, c.mode.gated)

theorem setup_of_kept {d : Counter} (h : d.kept = c.kept) : d.setup = c.setup :=
  congrArg (fun k : BitVec 32 × Mode => (k.1, k.2.clockSource, k.2.gated)) h

/-- The clock and the gate stay, and the target register stays in order. -/
structure Same (c d : Counter) : Prop where
  setup : d.setup = c.setup
  fits : c.Fits → d.Fits

theorem Same.refl (c : Counter) : Same c c := ⟨rfl, id⟩

theorem Same.trans {d e : Counter} (h : Same c d) (h' : Same d e) : Same c e :=
  ⟨h'.setup.trans h.setup, h'.fits ∘ h.fits⟩

theorem Same.plain {d : Counter} (h : Same c d) : d.mode.plain = c.mode.plain :=
  congrArg (fun k : BitVec 32 × BitVec 2 × Bool => !k.2.2 && k.2.1 != 3) h.setup

/-- The target register and the rate are in order, and the gate is in `gates` if it is on. -/
structure Wired (info : VSyncInfo) (c : Counter) (gate : Bool) : Prop where
  fits : c.Fits
  rate : c.mode.clockSource ≠ 3 → c.rate = c.mode.rate info
  gate : gate = c.mode.gated

theorem Wired.of_same {d : Counter} (h : c.Wired info gate) (hs : Same c d) :
    d.Wired info gate := by
  have hsource : d.mode.clockSource = c.mode.clockSource := congrArg (·.2.1) hs.setup
  have hrate : d.rate = c.rate := congrArg (·.1) hs.setup
  have hgated : d.mode.gated = c.mode.gated := congrArg (·.2.2) hs.setup
  refine ⟨hs.fits h.fits, fun hne => ?_, h.gate.trans hgated.symm⟩
  rw [hrate, Mode.rate, hsource]
  exact h.rate (hsource ▸ hne)

theorem fits_of_and_target {d : Counter} (h : c.Fits) (hd : d.target = c.target &&& 0xffff) :
    d.Fits :=
  (view_of_target view_target_lt (hd.trans h.and_target)).1

theorem same_tests : Same c c.testTarget.testOverflow :=
  ⟨setup_of_kept kept_tests.1, fun h => (view_testOverflow h.testTarget).1⟩

variable (cycle) in
theorem same_update : Same c (c.update cycle) :=
  ⟨setup_of_kept kept_update, fun h => h.update _⟩

variable (isVblank) in
theorem same_hblankTick : Same c (c.hblankTick isVblank) := by
  rw [hblankTick]
  split
  · exact (⟨rfl, id⟩ : Same c { c with count := c.count + 1 }).trans same_tests
  · exact .refl c

theorem same_startGate : Same c (c.startGate cycle gate isVblank sCycle) := by
  refine (same_hblankTick isVblank).trans ?_
  rw [startGate]
  split
  · exact .refl _
  split
  · exact ⟨rfl, id⟩
  split
  · exact .refl _
  · exact ⟨rfl, fun h => fits_of_and_target h rfl⟩

theorem same_endGate : Same c (c.endGate cycle gate isVblank sCycle) := by
  rw [endGate]
  split
  · exact .refl c
  split
  · exact ⟨rfl, id⟩
  split
  · exact .refl c
  · exact ⟨rfl, fun h => fits_of_and_target h rfl⟩

theorem startGate_of_plain (hg : gate = false) (hsource : c.mode.clockSource ≠ 3) :
    c.startGate cycle gate isVblank sCycle = c := by
  have htick : c.hblankTick isVblank = c := by
    rw [hblankTick, beq_eq_false_iff_ne.mpr hsource, Bool.and_false]
    rfl
  simp [startGate, htick, hg]

theorem endGate_of_plain (hg : gate = false) : c.endGate cycle gate isVblank sCycle = c := by
  rw [endGate]
  simp [hg]

theorem plain_iff {m : Mode} : m.plain = true ↔ m.gated = false ∧ m.clockSource ≠ 3 := by
  rw [Mode.plain, Bool.and_eq_true, Bool.not_eq_true', bne_iff_ne]

theorem view_setCount (h : c.Fits) :
    (c.setCount value).Fits ∧ (c.setCount value).view =
      { c.view with
        value := value.toNat % 0x10000
        armed := decide (value.toNat % 0x10000 ≤ c.view.target) } := by
  have hcount : (value &&& 0xffff).toNat = value.toNat % 0x10000 := by
    rw [BitVec.toNat_and]
    exact Nat.and_two_pow_sub_one_eq_mod _ 16
  have htarget : (c.target &&& 0xffff).toNat = c.view.target := by
    rw [h.and_target, toNat_targetWord view_target_lt]
    rfl
  have hlt : c.target &&& 0xffff < value &&& 0xffff ↔ c.view.target < value.toNat % 0x10000 := by
    rw [BitVec.lt_def, hcount, htarget]
  rw [setCount]
  simp only
  by_cases hpast : c.view.target < value.toNat % 0x10000
  · rw [if_pos (hlt.mpr hpast), decide_eq_false (Nat.not_le.mpr hpast), ← hcount]
    apply view_of_target view_target_lt
    rw [h.and_target]
    exact targetWord_or view_target_lt true
  · rw [if_neg (mt hlt.mp hpast), decide_eq_true (Nat.not_lt.mp hpast), ← hcount]
    exact view_of_target view_target_lt h.and_target

theorem view_guardTarget (cycle : BitVec 32) (h : c.Fits) (ha : c.view.armed = true) :
    (c.guardTarget cycle).Fits ∧ (c.guardTarget cycle).view =
      { c.view with armed := decide ((c.rcntRcount cycle).toNat < c.view.target) } := by
  have htarget : c.target.toNat = c.view.target := by
    rw [h.toNat_target, if_pos ha, Nat.add_zero]
  have hle : c.target ≤ c.rcntRcount cycle ↔ c.view.target ≤ (c.rcntRcount cycle).toNat := by
    rw [BitVec.le_def, htarget]
  rw [guardTarget]
  by_cases hpast : c.view.target ≤ (c.rcntRcount cycle).toNat
  · rw [if_pos (hle.mpr hpast), decide_eq_false (Nat.not_lt.mpr hpast)]
    exact view_of_target view_target_lt h.or_future
  · rw [if_neg (mt hle.mp hpast), decide_eq_true (Nat.not_le.mp hpast), ← ha]
    exact ⟨h, rfl⟩

end Wired

theorem recount_eq {cycle : Time} :
    c.recount cycle = c.addTicks cycle (cycle - c.sCycleT) := by
  rw [recount]
  split
  · rfl
  · rename_i hpos
    have hzero : cycle - c.sCycleT = 0#32 := by
      rw [BitVec.lt_def] at hpos
      exact BitVec.eq_of_toNat_eq (Nat.eq_zero_of_not_pos hpos)
    have hcycle : cycle = c.sCycleT := sub_eq_zero.mp hzero
    rw [hzero, addTicks, BitVec.zero_udiv, hcycle]
    simp

section Written

variable {cycle : Time} {value : BitVec 32} {info : VSyncInfo}

variable (value) in
theorem kept_setCount : (c.setCount value).kept = c.kept ∧
    (c.setCount value).sCycleT = c.sCycleT := by
  rw [setCount]
  simp only
  split
  · exact ⟨rfl, rfl⟩
  · exact ⟨rfl, rfl⟩

theorem kept_rephase : (c.rephase cycle).kept = c.kept := by
  rw [rephase]
  split
  · split
    · simp only
      split <;> rfl
    · rfl
  · rfl

theorem kept_writeCount : (c.writeCount cycle value).kept = c.kept :=
  kept_rephase.trans (kept_setCount _).1

theorem addTicks_sCycleT {d : Counter} (hr : d.rate = c.rate) (hs : d.sCycleT = c.sCycleT) :
    (d.addTicks cycle (cycle - d.sCycleT)).sCycleT =
      (c.addTicks cycle (cycle - c.sCycleT)).sCycleT := by
  rw [addTicks, addTicks, hr, hs]

theorem view_rephase : (c.rephase cycle).view = c.view := by
  rw [rephase]
  split
  · split
    · simp only
      split <;> rfl
    · rfl
  · rfl

theorem rephase_sCycleT (hc : c.counts = true) (hpos : 0 ≤ (cycle - c.sCycleT).toInt) :
    (c.rephase cycle).sCycleT = (c.addTicks cycle (cycle - c.sCycleT)).sCycleT := by
  obtain ⟨hcount, hsource⟩ := counts_iff.mp hc
  rw [rephase, if_pos hcount, if_pos hsource]
  simp only
  split
  · rfl
  · rename_i hle
    have hzero : cycle - c.sCycleT = 0#32 := BitVec.eq_of_toInt_eq (by
      rw [BitVec.toInt_zero]
      omega)
    rw [hzero, addTicks, BitVec.zero_udiv, sub_eq_zero.mp hzero]
    simp

variable (cycle) in
theorem kept_guardTarget : (c.guardTarget cycle).kept = c.kept ∧
    (c.guardTarget cycle).sCycleT = c.sCycleT := by
  rw [guardTarget]
  split
  · exact ⟨rfl, rfl⟩
  · exact ⟨rfl, rfl⟩

theorem writeTarget_eq : c.writeTarget cycle value =
    { if c.counts then c.recount cycle else c with target := value &&& 0xffff }.guardTarget
      cycle := by
  have hcounts : { c with target := value &&& 0xffff }.counts = c.counts := rfl
  rw [writeTarget]
  simp only [hcounts]
  split
  · rw [recount_eq, recount_eq]
    rfl
  · rfl

variable (value) in
theorem view_setTarget : { c with target := value &&& 0xffff }.Fits ∧
    { c with target := value &&& 0xffff }.view =
      { c.view with target := value.toNat % 0x10000, armed := true } := by
  have hmod : value.toNat % 0x10000 < 0x10000 := Nat.mod_lt _ (by decide)
  have hword : value &&& 0xffff = targetWord (value.toNat % 0x10000) true := by
    apply BitVec.eq_of_toNat_eq
    rw [BitVec.toNat_and, toNat_targetWord hmod]
    exact Nat.and_two_pow_sub_one_eq_mod _ 16
  exact view_of_target (c := { c with target := value &&& 0xffff }) hmod hword

theorem view_settle : (c.settle cycle).view = c.readTimer cycle := by
  rw [settle, readTimer, rcntRcount, counts]
  cases c.mode.isCounting with
  | false => rfl
  | true =>
    by_cases hsource : c.mode.clockSource = 3
    · rw [if_pos rfl, if_neg (by simp [hsource]), if_neg (by simp [hsource])]
      rfl
    · rw [if_pos rfl, if_pos hsource, bne_iff_ne.mpr hsource, if_pos (Bool.true_and _), recount_eq]
      rfl

theorem settle_sCycleT : cycle - (c.settle cycle).sCycleT = c.phase cycle := by
  have hmod (x r : BitVec 32) : x - x / r * r = x % r := by
    have hdiv := Nat.div_add_mod x.toNat r.toNat
    have hmul : (x / r * r).toNat = r.toNat * (x.toNat / r.toNat) := by
      have hx := x.isLt
      rw [BitVec.toNat_mul, BitVec.toNat_udiv, Nat.mul_comm, Nat.mod_eq_of_lt]
      omega
    apply BitVec.eq_of_toNat_eq
    rw [BitVec.toNat_sub_of_le (by rw [BitVec.le_def, hmul]; omega), hmul, BitVec.toNat_umod]
    omega
  rw [settle, phase]
  split
  · split
    · rw [recount_eq, addTicks, sub_sub_cancel, hmod]
    · rfl
  · exact sub_self cycle

theorem same_writeCount : Same c (c.writeCount cycle value) := by
  refine ⟨setup_of_kept kept_writeCount, fun h => ?_⟩
  have htarget : (c.writeCount cycle value).target = (c.setCount value).target := by
    rw [writeCount, rephase]
    split
    · split
      · simp only
        split <;> rfl
      · rfl
    · rfl
  have hview : (c.writeCount cycle value).view = (c.setCount value).view := view_rephase
  rw [Fits, htarget, hview]
  exact (view_setCount h).1

theorem kept_writeTarget : (c.writeTarget cycle value).kept = c.kept := by
  rw [writeTarget_eq]
  refine (kept_guardTarget _).1.trans ?_
  split
  · rw [recount_eq]
    rfl
  · rfl

theorem same_writeTarget : Same c (c.writeTarget cycle value) := by
  refine ⟨setup_of_kept kept_writeTarget, fun _ => ?_⟩
  obtain ⟨hf, hview⟩ := view_setTarget value
    (c := if c.counts then c.recount cycle else c)
  rw [writeTarget_eq]
  exact (view_guardTarget _ hf (congrArg Timer.armed hview)).1

theorem ready_writeCount (h : c.Fits) : (c.writeCount cycle value).view.Ready 0x10000 := by
  rw [writeCount, view_rephase, (view_setCount h).2]
  exact ⟨Nat.mod_lt _ (by decide), of_decide_eq_true⟩

theorem rcntRcount_recount (cycle : BitVec 32) (hc : c.counts = true) :
    (c.recount cycle).rcntRcount cycle = (c.recount cycle).count ∧
      (c.recount cycle).count = c.rcntRcount cycle := by
  obtain ⟨hcount, hsource⟩ := counts_iff.mp hc
  have hsettle : c.settle cycle = c.recount cycle := by
    rw [settle, if_pos hcount, if_pos hsource]
  have hphase : cycle - (c.recount cycle).sCycleT = (cycle - c.sCycleT) % c.rate := by
    rw [← hsettle, settle_sCycleT, phase, if_pos hcount, if_pos hsource]
  have hcounts : (c.recount cycle).counts = true := by
    rw [recount_eq]
    exact hc
  have hrate : (c.recount cycle).rate = c.rate := by
    rw [recount_eq]
    rfl
  have hzero : (cycle - c.sCycleT) % c.rate / c.rate = 0#32 := by
    apply BitVec.eq_of_toNat_eq
    rw [BitVec.toNat_udiv, BitVec.toNat_umod, Nat.mod_div_self]
    rfl
  refine ⟨?_, ?_⟩
  · rw [rcntRcount, if_pos hcounts, hphase, hrate, hzero]
    exact BitVec.add_zero _
  · rw [recount_eq, rcntRcount, if_pos hc]
    rfl

theorem ready_writeTarget (hc : c.counts = true)
    (hlt : (c.rcntRcount cycle).toNat < 0x10000) :
    (c.writeTarget cycle value).view.Ready 0x10000 := by
  obtain ⟨hread, hcount⟩ := rcntRcount_recount cycle hc
  obtain ⟨hf, hset⟩ := view_setTarget value (c := c.recount cycle)
  have hguard := (view_guardTarget cycle hf (congrArg Timer.armed hset)).2
  have hval : ({ c.recount cycle with target := value &&& 0xffff }.rcntRcount cycle) =
      (c.recount cycle).count := hread
  rw [writeTarget_eq, if_pos hc, hguard, hset, hval]
  exact ⟨show (c.recount cycle).count.toNat < 0x10000 from hcount ▸ hlt,
    fun ha => Nat.le_of_lt (of_decide_eq_true ha)⟩

theorem writeMode_of_not_gated (hm : (c.mode.write value).gated = false) :
    c.writeMode cycle info value =
      { c.settle cycle with
        mode := c.mode.write value
        rate := (c.mode.write value).rate info } :=
  if_neg (by rw [hm]; decide)

variable (c cycle info value) in
theorem writeMode_mode : (c.writeMode cycle info value).mode.gated = (c.mode.write value).gated ∧
    (c.writeMode cycle info value).mode.clockSource = (c.mode.write value).clockSource ∧
    (c.writeMode cycle info value).rate = (c.mode.write value).rate info := by
  rw [writeMode, setGate]
  split
  · exact ⟨rfl, rfl, rfl⟩
  · exact ⟨rfl, rfl, rfl⟩

theorem writeMode_plain :
    (c.writeMode cycle info value).mode.plain = (c.mode.write value).plain := by
  obtain ⟨hgated, hsource, -⟩ := writeMode_mode c cycle value info
  rw [Mode.plain, Mode.plain, hgated, hsource]

theorem writeMode_target : (c.writeMode cycle info value).target = c.target := by
  have hsettle : (c.settle cycle).target = c.target := by
    rw [settle]
    split
    · split
      · rw [recount_eq]
        rfl
      · rfl
    · rfl
  rw [writeMode, setGate]
  split
  · exact hsettle
  · exact hsettle

theorem wired_writeMode (h : c.Fits) :
    (c.writeMode cycle info value).Wired info (c.writeMode cycle info value).mode.gated := by
  obtain ⟨-, hsource, hrate⟩ := writeMode_mode c cycle value info
  refine ⟨?_, fun _ => ?_, rfl⟩
  · rw [Fits, view, writeMode_target]
    exact h
  · rw [hrate, Mode.rate, Mode.rate, hsource]

/-- Without an internal clock or behind a gate, a written mode does not count yet. -/
theorem counts_writeMode (h : (c.mode.write value).plain = false) :
    (c.writeMode cycle info value).counts = false := by
  cases hg : (c.mode.write value).gated with
  | true =>
    have heq : (c.writeMode cycle info value).mode.isCounting = false := by
      rw [writeMode, setGate]
      simp only [hg, if_true]
    rw [counts, heq, Bool.false_and]
  | false =>
    rw [Mode.plain, hg] at h
    rw [counts, (writeMode_mode ..).2.1, show ((c.mode.write value).clockSource != 3) = false from h,
      Bool.and_false]

theorem rate_bounds (info : VSyncInfo) {m : Mode} (h : m.clockSource ≠ 3) :
    0 < (m.rate info).toNat ∧ (m.rate info).toNat ≤ 512 := by
  have hcases : ∀ x : BitVec 2, x ≠ 0 → x ≠ 1 → x ≠ 2 → x = 3 := by decide
  rw [Mode.rate]
  split
  · decide
  split
  · decide
  split
  · decide
  · rename_i h0 h1 h2
    exact absurd (hcases _ h0 h1 h2) h

end Written

end Counter

end OmegaRed.Counters
