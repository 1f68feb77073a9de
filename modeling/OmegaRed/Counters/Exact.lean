import OmegaRed.Counters.Watch
import OmegaRed.Lib.Traces

/-! Runs of the counters of the EE beside their ideal timers. -/

namespace OmegaRed.Counters

open Lib.Deadlines Lib.Timers Lib.Traces
open Events (Cpu)

/-- The counters with the ideal timers, on a clock that does not wrap around and that starts a turn
late. -/
structure World where
  state : State
  now : Nat
  lastUpdate : Nat
  watch : Fin 4 → Watch
  /-- an update is what has been done last -/
  updated : Bool

namespace World

variable (info : VSyncInfo) (w : World)

/-- The counters after `rcntInit`. -/
def init (cpu : Cpu) (hCycleT vCycleT : BitVec 32) : World where
  state := State.rcntInit cpu hCycleT vCycleT
  now := 2 ^ 32 + cpu.cycle.toNat
  lastUpdate := 2 ^ 32 + cpu.cycle.toNat
  watch i := Watch.ofCounter (2 ^ 32 + cpu.cycle.toNat)
    ((State.rcntInit cpu hCycleT vCycleT).counters i)
  updated := false

/-- The ideal timer after a write of the mode. -/
def watchMode (index : Fin 4) (value : BitVec 32) : Watch :=
  let c := w.state.counters index
  let m := c.mode.write value
  if c.mode.plain then (w.watch index).writeMode w.now m (m.rate info).toNat
  else Watch.ofCounter w.now (c.writeMode w.state.cpu.cycle info value)

def next (op : Op) : World :=
  let w' := { w with state := w.state.step info op, updated := false }
  match op with
  | .advance cycles => { w' with now := w.now + cycles }
  | .rcntUpdate =>
    { w' with
      lastUpdate := w.now
      watch := fun i => (w.watch i).settle w.now
      updated := true }
  | .rcntUpdateHScanline => w'
  | .rcntWmode index value =>
    { w' with watch := Function.update w.watch index (w.watchMode info index value) }
  | .rcntWcount index value =>
    { w' with
      watch := Function.update w.watch index
        ((w.watch index).writeCount w.now (value.toNat % 0x10000)) }
  | .rcntWtarget index value =>
    { w' with
      watch := Function.update w.watch index
        ((w.watch index).writeTarget w.now (value.toNat % 0x10000)) }
  | .rcntWhold _ _ => w'

def step (op : Op) : Option World := some (w.next info op)

end World

/-- No pass of the counter is waiting for the next update. -/
def NothingDue (c : Counter) (cycle : Time) : Prop :=
  c.counts = true → (c.readTimer cycle).Settled 0x10000

/-- An update comes within the longest period of a counter, and its tests leave every counter before
its target.  A write finds no pass that waits for an update, and a write of the mode no cycles that
make a tick of the new clock. -/
def Admits (info : VSyncInfo) (s : State) : Op → Prop
  | .advance cycles => (s.cpu.cycle - s.cpu.nextsCounter).toNat + cycles ≤ 0x10000 * 512
  | .rcntUpdate => ∀ i, ((s.rcntUpdateVSync info).counters i).counts = true →
      (((s.rcntUpdateVSync info).counters i).counted s.cpu.cycle).view.Clears 0x10000
  | .rcntUpdateHScanline => True
  | .rcntWmode index value =>
      let c := s.counters index
      let m := c.mode.write value
      (c.mode.plain = true → NothingDue c s.cpu.cycle) ∧
        (m.plain = true → (c.readTimer s.cpu.cycle).Ready 0x10000 ∧
          (m.isCounting = true → (c.phase s.cpu.cycle).toNat < (m.rate info).toNat))
  | .rcntWcount index _ =>
      (s.counters index).mode.plain = true → NothingDue (s.counters index) s.cpu.cycle
  | .rcntWtarget index _ => NothingDue (s.counters index) s.cpu.cycle
  | .rcntWhold _ _ => True

instance (c : Counter) (cycle : Time) : Decidable (NothingDue c cycle) :=
  inferInstanceAs (Decidable (_ → _))

instance (info : VSyncInfo) (s : State) : ∀ op, Decidable (Admits info s op)
  | .advance _ => inferInstanceAs (Decidable (_ ≤ _))
  | .rcntUpdate => inferInstanceAs (Decidable (∀ _, _))
  | .rcntUpdateHScanline => isTrue trivial
  | .rcntWmode _ _ => inferInstanceAs (Decidable (_ ∧ _))
  | .rcntWcount _ _ => inferInstanceAs (Decidable (_ → _))
  | .rcntWtarget _ _ => inferInstanceAs (Decidable (NothingDue _ _))
  | .rcntWhold _ _ => isTrue trivial

/-- A read gives the written count and the ticks since; an update has raised the passes of the ideal
timer; the next update is not after the first pass that is due. -/
structure Exact (w : World) (i : Fin 4) : Prop where
  read : (w.watch i).free = true → (w.state.rcntRead i).toNat =
    (((w.watch i).settle w.now).written + ((w.watch i).settle w.now).ticked) % 0x10000
  raised : w.updated = true →
    (w.state.counters i).irqs = ((w.watch i).settle w.now).timer.log
  nextsCounter : w.state.cpu.nextsCounter = .ofNat 32 w.lastUpdate
  scheduled : ∀ d, (w.watch i).Due d → (w.lastUpdate : Int) + w.state.cpu.nextCounter.toInt ≤ d

/-- The counter follows its ideal timer. -/
structure Tracked (w : World) (i : Fin 4) : Prop where
  agrees : Agrees (w.state.counters i) (w.watch i) w.now
  sched : Scheduled w.state.cpu (w.state.counters i).sched
  since : (w.watch i).counting = true → w.lastUpdate < (w.watch i).start + 512
  settled : w.updated = true → (w.watch i).counting = true →
    (w.watch i).timer.Settled 0x10000 ∧ (w.watch i).ticks w.now = 0

structure Inv (info : VSyncInfo) (w : World) : Prop where
  cycle : w.state.cpu.cycle = .ofNat 32 w.now
  nextsCounter : w.state.cpu.nextsCounter = .ofNat 32 w.lastUpdate
  turn : 2 ^ 32 ≤ w.now
  le : w.lastUpdate ≤ w.now
  late : w.now - w.lastUpdate ≤ 0x10000 * 512
  wired : ∀ i, (w.state.counters i).Wired info (w.state.gates i)
  tracked : ∀ i, (w.state.counters i).mode.plain = true → Tracked w i

theorem Inv.exact {info : VSyncInfo} {w : World} (h : Inv info w) {i : Fin 4}
    (hplain : (w.state.counters i).mode.plain = true) : Exact w i := by
  obtain ⟨hagrees, hsched, hsince, hsettled⟩ := h.tracked i hplain
  have hlate := h.late
  refine ⟨fun hfree => ?_, fun hup => ?_, h.nextsCounter, fun d hdue => ?_⟩
  · rw [← hagrees.read hfree, State.rcntRead, BitVec.toNat_setWidth, h.cycle]
  · have hlog : (w.state.counters i).irqs = (w.watch i).timer.log :=
      congrArg Timer.log hagrees.view
    rw [Watch.settle]
    split
    · rename_i hw
      obtain ⟨hset, hzero⟩ := hsettled hup hw
      rw [hlog, hzero, hset.reach]
      rfl
    · exact hlog
  · exact hagrees.due_ge (h.wired i).fits hsched h.nextsCounter h.le (by omega) hdue

section Steps

variable {info : VSyncInfo} {w : World} (h : Inv info w)

include h

theorem Inv.advance {cycles : Nat} (hadmits : Admits info w.state (.advance cycles)) :
    Inv info (w.next info (.advance cycles)) := by
  have hlate := h.late
  have hle := h.le
  have helapsed : (w.state.cpu.cycle - w.state.cpu.nextsCounter).toNat = w.now - w.lastUpdate := by
    rw [h.cycle, h.nextsCounter, Counter.elapsed_toNat hle (by omega)]
  have hbound : w.now - w.lastUpdate + cycles ≤ 0x10000 * 512 := helapsed ▸ hadmits
  refine ⟨?_, h.nextsCounter, Nat.le_trans h.turn (Nat.le_add_right _ _),
    Nat.le_trans hle (Nat.le_add_right _ _), ?_, h.wired, fun i hplain => ?_⟩
  · exact (congrArg (· + BitVec.ofNat 32 cycles) h.cycle).trans (BitVec.ofNat_add _ _).symm
  · change w.now + cycles - w.lastUpdate ≤ 0x10000 * 512
    omega
  · obtain ⟨hagrees, hsched, hsince, -⟩ := h.tracked i hplain
    refine ⟨{ hagrees with start_le := ?_, recent := fun hw => ?_ }, hsched.advance _, hsince,
      fun hup => absurd hup Bool.false_ne_true⟩
    · exact Nat.le_trans hagrees.start_le (Nat.le_add_right _ _)
    · change w.now + cycles - (w.watch i).start < 0x4000000
      have := hsince hw
      omega

theorem Inv.hScanline : Inv info (w.next info .rcntUpdateHScanline) := by
  have hsame := sameGates_hScanline info w.state
  refine ⟨?_, ?_, h.turn, h.le, h.late, fun i => ?_, fun i hplain => ?_⟩
  · exact (congrArg Cpu.cycle hsame.cpu).trans h.cycle
  · exact (congrArg Cpu.nextsCounter hsame.cpu).trans h.nextsCounter
  · exact hsame.gates ▸ (h.wired i).of_same (hsame.same i)
  · have hold : (w.state.counters i).mode.plain = true := (hsame.same i).plain ▸ hplain
    obtain ⟨hgated, hsource⟩ := Counter.plain_iff.mp hold
    have heq := hsame.free i ((h.wired i).gate.trans hgated) hsource
    obtain ⟨hagrees, hsched, hsince, -⟩ := h.tracked i hold
    refine ⟨?_, ?_, hsince, fun hup => absurd hup Bool.false_ne_true⟩
    · exact heq ▸ hagrees
    · exact (congrArg₂ (fun cpu (c : Counter) => Scheduled cpu c.sched) hsame.cpu heq).mpr hsched

omit h in
/-- An update leaves every counter settled at its last tick, and the schedule not before it. -/
theorem Tracked.update {s : State} {i : Fin 4}
    (hagrees : Agrees (s.counters i) ((w.watch i).settle w.now) w.now)
    (hset : (w.watch i).counting = true → ((w.watch i).settle w.now).timer.Settled 0x10000)
    (hlate : (w.watch i).counting = true → w.now - ((w.watch i).settle w.now).start < 512)
    (hticks : ((w.watch i).settle w.now).ticks w.now = 0)
    (hsched : (w.watch i).counting = true → Scheduled s.cpu (s.counters i).sched) :
    Tracked ⟨s, w.now, w.now, fun i => (w.watch i).settle w.now, true⟩ i := by
  have hcount : ((w.watch i).settle w.now).counting = (w.watch i).counting := Watch.settle_counting
  refine ⟨hagrees, fun hs => ?_, fun hw => ?_, fun _ hw => ⟨hset (hcount ▸ hw), hticks⟩⟩
  · refine hsched ?_ hs
    rw [hagrees.stopped, hcount, Bool.not_eq_false'] at hs
    exact hs
  · have := hlate (hcount ▸ hw)
    change w.now < ((w.watch i).settle w.now).start + 512
    omega

theorem Inv.update (hadmits : Admits info w.state .rcntUpdate) :
    Inv info (w.next info .rcntUpdate) := by
  have hsame := sameGates_vSync info w.state
  have hwired (i : Fin 4) : ((w.state.rcntUpdateVSync info).counters i).Wired info
      (w.state.gates i) := (h.wired i).of_same (hsame.same i)
  have hcounters := rcntUpdate_counters info w.state
  have hover (i : Fin 4) : ((w.state.rcntUpdate info).counters i).sched.overshot = false := by
    rw [hcounters i]
    exact overshot_update (hwired i).fits (hadmits i)
  refine ⟨(rcntUpdate_cycle info w.state).trans h.cycle,
    (rcntUpdate_nextsCounter info w.state).trans h.cycle, h.turn, Nat.le_refl _,
    (Nat.sub_self w.now).symm ▸ Nat.zero_le _, fun i => ?_, fun i hplain => ?_⟩
  · have hw := (hwired i).of_same (Counter.same_update w.state.cpu.cycle)
    rw [← hcounters i, ← rcntUpdate_gates info w.state] at hw
    exact hw
  have hold : (w.state.counters i).mode.plain = true := by
    rw [← (hsame.same i).plain, ← (Counter.same_update w.state.cpu.cycle).plain,
      ← hcounters i]
    exact hplain
  obtain ⟨hgated, hsource⟩ := Counter.plain_iff.mp hold
  have heq := hsame.free i ((h.wired i).gate.trans hgated) hsource
  obtain ⟨hagrees, -, -, -⟩ := h.tracked i hold
  have hclear := hadmits i
  rw [heq, h.cycle] at hclear
  obtain ⟨hupdate, hset⟩ := hagrees.update (h.wired i).fits hclear
  have hcounter : (w.state.rcntUpdate info).counters i =
      (w.state.counters i).update (.ofNat 32 w.now) := by rw [hcounters i, heq, h.cycle]
  have hfits := (h.wired i).fits.update (.ofNat 32 w.now)
  rw [← hcounter] at hupdate hfits
  obtain ⟨-, hlate⟩ := Watch.start_settle hagrees.start_le hagrees.rate_pos
  have hrate := hagrees.rate_le
  refine Tracked.update hupdate hset (fun hw => Nat.lt_of_lt_of_le (hlate hw) hrate)
    (Watch.ticks_settle hagrees.start_le hagrees.rate_pos) fun hw => ?_
  obtain ⟨hpos, hpos'⟩ := hupdate.due_pos hfits (Watch.settle_counting.trans hw) (hset hw)
    (Watch.settle_rate.symm ▸ hlate hw)
  rw [← h.cycle] at hpos hpos'
  exact scheduled_rcntUpdate info w.state hover i hpos hpos'

theorem Inv.write {w' : World} (index : Fin 4) {c : Counter} {v : Watch}
    (hcpu : w'.state.cpu = w.state.cpu.rcntSet c.sched)
    (hcounters : w'.state.counters = Function.update w.state.counters index c)
    (hgates : ∀ i, i ≠ index → w'.state.gates i = w.state.gates i)
    (hwatch : w'.watch = Function.update w.watch index v) (hnow : w'.now = w.now)
    (hlast : w'.lastUpdate = w.lastUpdate) (hup : w'.updated = false)
    (hwired : c.Wired info (w'.state.gates index)) (hover : c.sched.overshot = false)
    (hagrees : c.mode.plain = true →
      Agrees c v w.now ∧ (v.counting = true → w.lastUpdate < v.start + 512)) : Inv info w' := by
  have hcycle : (w.state.cpu.rcntSet c.sched).cycle = w.state.cpu.cycle :=
    (congrArg Cpu.cycle (Cpu.rcntSet_kept (s := w.state.cpu) c.sched) :)
  refine ⟨?_, ?_, ?_, ?_, ?_, fun i => ?_, fun i hplain => ?_⟩
  · rw [hcpu, hcycle, hnow]
    exact h.cycle
  · rw [hcpu, Cpu.rcntSet_nextsCounter, hlast]
    exact h.nextsCounter
  · exact hnow ▸ h.turn
  · exact hnow ▸ hlast ▸ h.le
  · exact hnow ▸ hlast ▸ h.late
  · rw [hcounters]
    by_cases hi : i = index
    · subst hi
      rwa [Function.update_self]
    · rw [Function.update_of_ne hi, hgates i hi]
      exact h.wired i
  · have hnone (hup' : w'.updated = true) : False := Bool.false_ne_true (hup.symm.trans hup')
    by_cases hi : i = index
    · subst hi
      have hc : w'.state.counters i = c := by rw [hcounters, Function.update_self]
      have hv : w'.watch i = v := by rw [hwatch, Function.update_self]
      obtain ⟨ha, hs⟩ := hagrees (hc ▸ hplain)
      refine ⟨?_, ?_, ?_, fun hup' => (hnone hup').elim⟩
      · rw [hc, hv, hnow]
        exact ha
      · rw [hc, hcpu]
        exact (rcntSet_le _ hover).2
      · rw [hv, hlast]
        exact hs
    · have hc : w'.state.counters i = w.state.counters i := by
        rw [hcounters, Function.update_of_ne hi]
      have hv : w'.watch i = w.watch i := by rw [hwatch, Function.update_of_ne hi]
      obtain ⟨ha, hsched, hs, -⟩ := h.tracked i (hc ▸ hplain)
      refine ⟨?_, ?_, ?_, fun hup' => (hnone hup').elim⟩
      · rw [hc, hv, hnow]
        exact ha
      · rw [hc, hcpu]
        exact hsched.rcntSet hover
      · rw [hv, hlast]
        exact hs

theorem Tracked.nothingDue {i : Fin 4} (ht : Tracked w i)
    (hn : NothingDue (w.state.counters i) w.state.cpu.cycle) :
    (w.watch i).counting = true →
      ((w.watch i).timer.plus ((w.watch i).ticks w.now)).Settled 0x10000 := by
  intro hw
  have hset := hn (ht.agrees.counts.trans hw)
  rwa [h.cycle, ht.agrees.readTimer] at hset

theorem Tracked.since_settle {i : Fin 4} (ht : Tracked w i) (hw : (w.watch i).counting = true) :
    w.lastUpdate < ((w.watch i).settle w.now).start + 512 := by
  have hlate := (Watch.start_settle ht.agrees.start_le ht.agrees.rate_pos).2 hw
  have hrate := ht.agrees.rate_le
  have hle := h.le
  omega

theorem Inv.writeCount {index : Fin 4} {value : BitVec 32}
    (hadmits : Admits info w.state (.rcntWcount index value)) :
    Inv info (w.next info (.rcntWcount index value)) := by
  have hwired := h.wired index
  refine h.write index
    (c := (w.state.counters index).writeCount w.state.cpu.cycle value) ?_ rfl (fun _ _ => rfl) rfl
    rfl rfl rfl (hwired.of_same Counter.same_writeCount)
    (Counter.overshot_of_ready (Counter.same_writeCount.fits hwired.fits)
      (Counter.ready_writeCount hwired.fits)) fun hplain => ?_
  · exact congrArg (fun c : Counter => w.state.cpu.rcntSet c.sched) (Function.update_self ..)
  · have hold : (w.state.counters index).mode.plain = true :=
      Counter.same_writeCount.plain.symm.trans hplain
    have ht := h.tracked index hold
    have hs := ht.nothingDue h (hadmits hold)
    refine ⟨h.cycle ▸ ht.agrees.writeCount hs hwired.fits value, fun hw => ?_⟩
    have hw' : (w.watch index).counting = true := Watch.settle_counting.symm.trans hw
    have hstart : ((w.watch index).writeCount w.now (value.toNat % 0x10000)).start =
        ((w.watch index).settle w.now).start := if_pos (Watch.settle_counting.trans hw')
    rw [hstart]
    exact ht.since_settle h hw'

theorem Inv.writeTarget {index : Fin 4} {value : BitVec 32}
    (hadmits : Admits info w.state (.rcntWtarget index value)) :
    Inv info (w.next info (.rcntWtarget index value)) := by
  have hwired := h.wired index
  have hover : ((w.state.counters index).writeTarget w.state.cpu.cycle value).sched.overshot =
      false := by
    cases hc : (w.state.counters index).counts with
    | false =>
      apply overshot_of_not_counts
      rw [Counter.counts_of_kept Counter.kept_writeTarget, hc]
    | true =>
      exact Counter.overshot_of_ready (Counter.same_writeTarget.fits hwired.fits)
        (Counter.ready_writeTarget hc (hadmits hc).1)
  refine h.write index
    (c := (w.state.counters index).writeTarget w.state.cpu.cycle value) ?_ rfl (fun _ _ => rfl) rfl
    rfl rfl rfl (hwired.of_same Counter.same_writeTarget) hover fun hplain => ?_
  · exact congrArg (fun c : Counter => w.state.cpu.rcntSet c.sched) (Function.update_self ..)
  · have ht := h.tracked index (Counter.same_writeTarget.plain.symm.trans hplain)
    refine ⟨h.cycle ▸ ht.agrees.writeTarget (ht.nothingDue h hadmits) value, fun hw => ?_⟩
    exact ht.since_settle h (Watch.settle_counting.symm.trans hw)

theorem Inv.writeMode {index : Fin 4} {value : BitVec 32}
    (hadmits : Admits info w.state (.rcntWmode index value)) :
    Inv info (w.next info (.rcntWmode index value)) := by
  have hwired := h.wired index
  obtain ⟨hdue, hnew⟩ := hadmits
  have hw : Counter.Wired info
      ((w.state.counters index).writeMode w.state.cpu.cycle info value)
      (Function.update w.state.gates index
        ((w.state.counters index).writeMode w.state.cpu.cycle info value).mode.gated index) := by
    rw [Function.update_self]
    exact Counter.wired_writeMode hwired.fits
  have hover : ((w.state.counters index).writeMode w.state.cpu.cycle info
      value).sched.overshot = false := by
    cases hp : ((w.state.counters index).mode.write value).plain with
    | false => exact overshot_of_not_counts (Counter.counts_writeMode hp)
    | true =>
      refine Counter.overshot_of_ready hw.fits ?_
      have hready := (hnew hp).1
      rw [← Counter.view_settle] at hready
      rw [Counter.writeMode_of_not_gated (Counter.plain_iff.mp hp).1]
      exact hready
  refine h.write index
    (c := (w.state.counters index).writeMode w.state.cpu.cycle info value)
    (v := w.watchMode info index value) ?_ rfl
    (fun i hi => Function.update_of_ne hi ..) rfl rfl rfl rfl hw hover fun hplain => ?_
  · exact congrArg (fun c : Counter => w.state.cpu.rcntSet c.sched) (Function.update_self ..)
  rw [Counter.writeMode_plain] at hplain
  obtain ⟨hready, hphase⟩ := hnew hplain
  obtain ⟨-, hrate⟩ := Counter.rate_bounds info (Counter.plain_iff.mp hplain).2
  have hle := h.le
  rw [World.watchMode]
  split
  · rename_i hold
    have ht := h.tracked index hold
    refine ⟨h.cycle ▸ ht.agrees.writeMode (ht.nothingDue h (hdue hold)) info value hplain,
      fun _ => ?_⟩
    rw [Watch.writeMode]
    simp only [Watch.settle_counting]
    split
    · rename_i hw'
      exact ht.since_settle h hw'
    · omega
  · rw [h.cycle] at hready hphase ⊢
    have hlt (hcount : ((w.state.counters index).mode.write value).isCounting = true) :=
      Nat.lt_of_lt_of_le (hphase hcount) hrate
    have ha := agrees_ofCounter info value h.turn hplain hready hlt
    refine ⟨ha, fun hcount => ?_⟩
    rw [Counter.writeMode_of_not_gated (Counter.plain_iff.mp hplain).1] at hcount ⊢
    have hphase' := hlt hcount
    rw [Watch.ofCounter]
    simp only [Counter.settle_sCycleT]
    omega

theorem Inv.writeHold {index : Fin 4} {value : BitVec 32} :
    Inv info (w.next info (.rcntWhold index value)) := by
  have hhold (i : Fin 4) : ∃ v, (w.next info (.rcntWhold index value)).state.counters i =
      (w.state.counters i).writeHold v := by
    by_cases hi : i = index
    · subst hi
      exact ⟨value, Function.update_self ..⟩
    · exact ⟨(w.state.counters i).hold, Function.update_of_ne hi ..⟩
  refine ⟨h.cycle, h.nextsCounter, h.turn, h.le, h.late, fun i => ?_, fun i hplain => ?_⟩
  · obtain ⟨v, hv⟩ := hhold i
    have hw := h.wired i
    rw [hv]
    exact ⟨hw.fits, hw.rate, hw.gate⟩
  · obtain ⟨v, hv⟩ := hhold i
    rw [hv] at hplain
    obtain ⟨ha, hsched, hsince, -⟩ := h.tracked i hplain
    refine ⟨?_, ?_, hsince, fun hup => absurd hup Bool.false_ne_true⟩
    · rw [hv]
      exact ⟨ha.view, ha.ready, ha.counting, ha.source, ha.rate, ha.rate_pos, ha.rate_le,
        ha.start_le, ha.start, ha.recent, ha.free⟩
    · rw [hv]
      exact hsched

end Steps

theorem Inv.next {info : VSyncInfo} {w : World} (h : Inv info w) {op : Op}
    (hadmits : Admits info w.state op) : Inv info (w.next info op) := by
  cases op with
  | advance cycles => exact h.advance hadmits
  | rcntUpdate => exact h.update hadmits
  | rcntUpdateHScanline => exact h.hScanline
  | rcntWmode index value => exact h.writeMode hadmits
  | rcntWcount index value => exact h.writeCount hadmits
  | rcntWtarget index value => exact h.writeTarget hadmits
  | rcntWhold index value => exact h.writeHold

theorem inv_init (info : VSyncInfo) (cpu : Cpu) (hCycleT vCycleT : BitVec 32) :
    Inv info (World.init cpu hCycleT vCycleT) := by
  have hcycle : cpu.cycle = .ofNat 32 (2 ^ 32 + cpu.cycle.toNat) := by
    apply BitVec.eq_of_toNat_eq
    rw [BitVec.toNat_ofNat, Nat.add_mod_left, Nat.mod_eq_of_lt cpu.cycle.isLt]
  have hcpu : ((World.init cpu hCycleT vCycleT).state).cpu.cycle = cpu.cycle :=
    (congrArg Cpu.cycle (Cpu.cpuRcntSet_kept (s := cpu) _ _) :)
  have hstopped (i : Fin 4) : ((World.init cpu hCycleT vCycleT).watch i).counting = false := rfl
  refine ⟨hcpu.trans hcycle, (cpuRcntSet_nextsCounter _ _).trans hcycle, Nat.le_add_right _ _,
    Nat.le_refl _, (Nat.sub_self (2 ^ 32 + cpu.cycle.toNat)).symm ▸ Nat.zero_le _, fun i => ?_,
    fun i _ => ?_⟩
  · exact ⟨(Counter.view_of_target (x := 0xffff) (a := true) (by decide) rfl).1, fun _ => rfl, rfl⟩
  · have hnot (hw : ((World.init cpu hCycleT vCycleT).watch i).counting = true) : False :=
      Bool.false_ne_true ((hstopped i).symm.trans hw)
    refine ⟨⟨rfl, ⟨(by decide : 0 < 0x10000), fun _ => Nat.zero_le _⟩, rfl,
      (by decide : (0 : BitVec 2) ≠ 3), rfl, (by decide : 0 < 2), (by decide : 2 ≤ 512),
      Nat.sub_le _ _, fun hw => (hnot hw).elim, fun hw => (hnot hw).elim, fun _ => ⟨rfl, rfl⟩⟩,
      fun hs => ?_, fun hw => (hnot hw).elim, fun _ hw => (hnot hw).elim⟩
    rw [stopped_sched] at hs
    have hfalse : true = false := hs
    exact absurd hfalse (by decide)

/-- In a run whose steps all meet the condition, every counter on an internal clock and without a
gate is exact. -/
theorem timers_exact (info : VSyncInfo) (cpu : Cpu) (hCycleT vCycleT : BitVec 32) (ops : List Op)
    (w : World) (hmeets : Meets (World.step info) (fun w => Admits info w.state)
      (World.init cpu hCycleT vCycleT) ops)
    (hrun : run (World.step info) (World.init cpu hCycleT vCycleT) ops = some w) (i : Fin 4)
    (hplain : (w.state.counters i).mode.plain = true) : Exact w i := by
  have hstep (s : World) (op : Op) (t : World) (h : Inv info s) (hop : Admits info s.state op)
      (ht : s.step info op = some t) : Inv info t := Option.some.inj ht ▸ h.next hop
  exact (invariant hstep hmeets hrun (inv_init info cpu hCycleT vCycleT)).exact hplain

/-- The processor at power-on. -/
def powerOn : Cpu := ⟨0, fun _ => false, fun _ => 0, fun _ => 0, 0, 0, 0, [], fun _ => 0⟩

def videoMode : VSyncInfo := ⟨2000000, 500000, 0, 5000, 5000⟩

local instance neZero_counters : NeZero 4 := ⟨by decide⟩

/-- Counter 0 counts to its target and over its end, with both interrupts. -/
def overTheEnd : List Op :=
  [.rcntWcount 0 0xfffe, .rcntWtarget 0 0xffff, .rcntWmode 0 0x380, .advance 2, .rcntUpdate,
    .advance 3, .rcntUpdate]

theorem timers_exact_overTheEnd : ∃ w,
    run (World.step videoMode) (World.init powerOn 5000 2000000) overTheEnd = some w ∧ Exact w 0 :=
  ⟨_, rfl, timers_exact videoMode powerOn 5000 2000000 overTheEnd _ (by decide +kernel) rfl 0
    (by decide +kernel)⟩

/-- A write of the count loses the overflow that no update has seen. -/
theorem not_timers_exact : ∃ w, run (World.step videoMode) (World.init powerOn 5000 2000000)
    [.rcntWmode 0 0x280, .rcntWcount 0 0xffff, .advance 2, .rcntWcount 0 0, .rcntUpdate] = some w ∧
      (w.state.counters 0).mode.plain = true ∧ ¬Exact w 0 :=
  ⟨_, rfl, by decide +kernel, fun h => absurd (h.raised rfl) (by decide +kernel)⟩

end OmegaRed.Counters
