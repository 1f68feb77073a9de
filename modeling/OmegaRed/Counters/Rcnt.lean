import OmegaRed.Counters.Counter

/-! The four counters of the EE with their scheduling. -/

namespace OmegaRed.Counters

open Lib.Deadlines Lib.Timers
open Events (Cpu)

structure SyncCounter extends Events.SyncCounter where
  mode : BitVec 32

/-- The counters, `gates` by its bits, and the processor with `nextsCounter` and `nextCounter`. -/
structure State where
  cpu : Cpu
  counters : Fin 4 → Counter
  gates : Fin 4 → Bool
  hsyncCounter : SyncCounter
  vsyncCounter : SyncCounter

/-- What runs on the counters; a read leaves them as they are. -/
inductive Op
  /-- the processor goes on for some cycles -/
  | advance (cycles : Nat)
  | rcntUpdate
  | rcntUpdateHScanline
  | rcntWmode (index : Fin 4) (value : BitVec 32)
  | rcntWcount (index : Fin 4) (value : BitVec 32)
  | rcntWtarget (index : Fin 4) (value : BitVec 32)
  | rcntWhold (index : Fin 4) (value : BitVec 32)

namespace State

variable (info : VSyncInfo) (s : State)

def each (f : Fin 4 → Counter → Counter) : State :=
  { s with counters := fun i => f i (s.counters i) }

def set (index : Fin 4) (c : Counter) : State :=
  { s with counters := Function.update s.counters index c }

def rcntStartGate (isVblank : Bool) (sCycle : Time) : State :=
  s.each fun i c => c.startGate s.cpu.cycle (s.gates i) isVblank sCycle

def rcntEndGate (isVblank : Bool) (sCycle : Time) : State :=
  s.each fun i c => c.endGate s.cpu.cycle (s.gates i) isVblank sCycle

/-- `_rcntSet` -/
def rcntSet (index : Fin 4) : State :=
  { s with cpu := s.cpu.rcntSet (s.counters index).sched }

def cpuRcntSet : State :=
  { s with
    cpu := s.cpu.cpuRcntSet s.vsyncCounter.toSyncCounter fun i => (s.counters i).sched }

/-- `rcntUpdate_vSync`, with the gates of `VSyncStart` and `VSyncEnd` -/
def rcntUpdateVSync : State :=
  if (s.cpu.cycle - s.vsyncCounter.sCycle).toInt < s.vsyncCounter.cycleT.toInt then s
  else if s.vsyncCounter.mode = 3 then
    { if ∃ i, s.gates i = true then s.rcntEndGate true s.vsyncCounter.sCycle else s with
      vsyncCounter := ⟨⟨s.vsyncCounter.sCycle + info.blank, info.render⟩, 0⟩ }
  else
    { if ∃ i, s.gates i = true then s.rcntStartGate true s.vsyncCounter.sCycle else s with
      vsyncCounter := ⟨⟨s.vsyncCounter.sCycle + info.render, info.blank⟩, 3⟩
      hsyncCounter :=
        { s.hsyncCounter with sCycle := s.hsyncCounter.sCycle + info.hSyncError } }

/-- `rcntUpdate_hScanline` -/
def rcntUpdateHScanline : State :=
  if s.cpu.testCycle s.hsyncCounter.sCycle s.hsyncCounter.cycleT = false then s
  else if s.hsyncCounter.mode &&& 1 ≠ 0 then
    { s.rcntStartGate false s.hsyncCounter.sCycle with
      hsyncCounter := ⟨⟨s.hsyncCounter.sCycle + info.hBlank, info.hRender⟩, 0⟩ }
  else
    { if ∃ i, s.gates i = true then s.rcntEndGate false s.hsyncCounter.sCycle else s with
      hsyncCounter := ⟨⟨s.hsyncCounter.sCycle + info.hRender, info.hBlank⟩, 1⟩ }

def rcntUpdate : State :=
  let s := s.rcntUpdateVSync info
  (s.each fun _ c => c.update s.cpu.cycle).cpuRcntSet

def rcntWmode (index : Fin 4) (value : BitVec 32) : State :=
  let c := (s.counters index).writeMode s.cpu.cycle info value
  { s.set index c with gates := Function.update s.gates index c.mode.gated }.rcntSet index

def rcntWcount (index : Fin 4) (value : BitVec 32) : State :=
  (s.set index ((s.counters index).writeCount s.cpu.cycle value)).rcntSet index

def rcntWtarget (index : Fin 4) (value : BitVec 32) : State :=
  (s.set index ((s.counters index).writeTarget s.cpu.cycle value)).rcntSet index

def rcntWhold (index : Fin 4) (value : BitVec 32) : State :=
  s.set index ((s.counters index).writeHold value)

/-- What `rcntRead32` returns of a count. -/
def rcntRead (index : Fin 4) : BitVec 16 :=
  ((s.counters index).rcntRcount s.cpu.cycle).setWidth 16

/-- `rcntInit`, with what the video mode has set of the sync counters. -/
def rcntInit (cpu : Cpu) (hCycleT vCycleT : BitVec 32) : State :=
  { cpu := cpu
    counters := fun i =>
      { count := 0
        mode := ⟨0, false, false, 0, false, false, false, false, false, false⟩
        target := 0xffff
        hold := 0
        rate := 2
        interrupt := 9 + .ofNat 32 i
        sCycleT := cpu.cycle
        irqs := [] }
    gates := fun _ => false
    hsyncCounter := ⟨⟨cpu.cycle, hCycleT⟩, 0⟩
    vsyncCounter := ⟨⟨cpu.cycle, vCycleT⟩, 0⟩ : State }.cpuRcntSet

def step (s : State) : Op → State
  | .advance cycles => { s with cpu := s.cpu.advance (.ofNat 32 cycles) }
  | .rcntUpdate => s.rcntUpdate info
  | .rcntUpdateHScanline => s.rcntUpdateHScanline info
  | .rcntWmode index value => s.rcntWmode info index value
  | .rcntWcount index value => s.rcntWcount index value
  | .rcntWtarget index value => s.rcntWtarget index value
  | .rcntWhold index value => s.rcntWhold index value

end State

section Gates

/-- What the edges of the blanks leave as it is. -/
structure SameGates (s t : State) : Prop where
  cpu : t.cpu = s.cpu
  gates : t.gates = s.gates
  same : ∀ i, (s.counters i).Same (t.counters i)
  free : ∀ i, s.gates i = false → (s.counters i).mode.clockSource ≠ 3 →
    t.counters i = s.counters i

variable (info : VSyncInfo) (s : State) (isVblank : Bool) (sCycle : Time)

theorem SameGates.refl : SameGates s s := ⟨rfl, rfl, fun _ => .refl _, fun _ _ _ => rfl⟩

theorem sameGates_startGate : SameGates s (s.rcntStartGate isVblank sCycle) :=
  ⟨rfl, rfl, fun _ => Counter.same_startGate,
    fun _ hg hsource => Counter.startGate_of_plain hg hsource⟩

theorem sameGates_endGate : SameGates s (s.rcntEndGate isVblank sCycle) :=
  ⟨rfl, rfl, fun _ => Counter.same_endGate, fun _ hg _ => Counter.endGate_of_plain hg⟩

variable {s}

theorem SameGates.sync {t : State} (h : SameGates s t) (hsync vsync : SyncCounter) :
    SameGates s { t with hsyncCounter := hsync, vsyncCounter := vsync } :=
  ⟨h.cpu, h.gates, h.same, h.free⟩

theorem SameGates.ite {t : State} {p : Prop} [Decidable p] (h : SameGates s t) :
    SameGates s (if p then t else s) := by
  split
  · exact h
  · exact .refl s

variable (s)

theorem sameGates_vSync : SameGates s (s.rcntUpdateVSync info) := by
  rw [State.rcntUpdateVSync]
  split
  · exact .refl s
  split
  · exact (sameGates_endGate s true _).ite.sync _ _
  · exact (sameGates_startGate s true _).ite.sync _ _

theorem sameGates_hScanline : SameGates s (s.rcntUpdateHScanline info) := by
  rw [State.rcntUpdateHScanline]
  split
  · exact .refl s
  split
  · exact (sameGates_startGate s false _).sync _ _
  · exact (sameGates_endGate s false _).ite.sync _ _

end Gates

/-! The schedule: `nextCounter` is not beyond what a counter is due for. -/

section Scheduled

variable {cpu : Cpu} {c d : Events.Counter}

/-- The next update is not after the overflow of the counter, nor after its armed target. -/
def Scheduled (cpu : Cpu) (c : Events.Counter) : Prop :=
  c.stopped = false →
    cpu.nextCounter.toInt ≤ (cpu.delay c.toOverflow c.sCycleT).toInt ∧
      (c.future = false → cpu.nextCounter.toInt ≤ (cpu.delay c.toTarget c.sCycleT).toInt)

theorem delay_eq (x : BitVec 32) (t : Time) : cpu.delay x t = t + x - cpu.nextsCounter := by
  rw [← Cpu.delay_due (s := cpu), add_sub_cancel_left]

theorem setDelay_nextCounter (x : BitVec 32) :
    (cpu.setDelay x).nextCounter.toInt = min cpu.nextCounter.toInt x.toInt := by
  rw [Cpu.setDelay]
  split
  · rename_i hlt
    exact (Int.min_eq_right (Int.le_of_lt hlt)).symm
  · rename_i hge
    exact (Int.min_eq_left (Int.not_lt.mp hge)).symm

theorem setDelay_delay (x y : BitVec 32) (t : Time) :
    (cpu.setDelay x).delay y t = cpu.delay y t := by
  have hcycle : (cpu.setDelay x).cycle = cpu.cycle :=
    (congrArg Cpu.cycle (Cpu.setDelay_kept (s := cpu) x) :)
  rw [Cpu.delay, Cpu.delay, hcycle, Cpu.setDelay_nextsCounter]

theorem rcntSet_delay (y : BitVec 32) (t : Time) : (cpu.rcntSet c).delay y t = cpu.delay y t := by
  have hcycle : (cpu.rcntSet c).cycle = cpu.cycle :=
    (congrArg Cpu.cycle (Cpu.rcntSet_kept (s := cpu) c) :)
  rw [Cpu.delay, Cpu.delay, hcycle, Cpu.rcntSet_nextsCounter]

theorem rcntSet_le (cpu : Cpu) (h : c.overshot = false) :
    (cpu.rcntSet c).nextCounter.toInt ≤ cpu.nextCounter.toInt ∧ Scheduled (cpu.rcntSet c) c := by
  cases hs : c.stopped with
  | true =>
    rw [Cpu.rcntSet, if_pos hs]
    exact ⟨Int.le_refl _, fun h => absurd (hs.symm.trans h) (by decide)⟩
  | false =>
    have hp : ¬c.passed = true := by
      intro hp
      rw [Events.Counter.overshot, hs, hp] at h
      exact absurd h (by decide)
    rw [Scheduled, rcntSet_delay, rcntSet_delay, Cpu.rcntSet, if_neg (by simp [hs]), if_neg hp]
    simp only [setDelay_delay]
    split
    · rename_i hf
      rw [setDelay_nextCounter]
      exact ⟨Int.min_le_left _ _, fun _ =>
        ⟨Int.min_le_right _ _, fun h => absurd (hf.symm.trans h) (by decide)⟩⟩
    · rw [setDelay_nextCounter, setDelay_nextCounter]
      exact ⟨by omega, fun _ => ⟨by omega, fun _ => by omega⟩⟩

theorem Scheduled.rcntSet (h : Scheduled cpu c) (hd : d.overshot = false) :
    Scheduled (cpu.rcntSet d) c := by
  intro hs
  have hle := (rcntSet_le cpu hd).1
  rw [rcntSet_delay, rcntSet_delay]
  exact ⟨hle.trans (h hs).1, fun hf => hle.trans ((h hs).2 hf)⟩

theorem scheduled_foldl (cpu : Cpu) (cs : List Events.Counter) (hall : ∀ c ∈ cs, c.overshot = false) :
    ∀ c ∈ cs, Scheduled (cs.foldl Cpu.rcntSet cpu) c := by
  have hkeep (ds : List Events.Counter) (hds : ∀ d ∈ ds, d.overshot = false) {cpu : Cpu}
      {c : Events.Counter} (h : Scheduled cpu c) : Scheduled (ds.foldl Cpu.rcntSet cpu) c := by
    induction ds generalizing cpu with
    | nil => exact h
    | cons d ds ih =>
      obtain ⟨hd, hds⟩ := List.forall_mem_cons.mp hds
      exact ih hds (h.rcntSet hd)
  induction cs generalizing cpu with
  | nil => exact fun c hc => absurd hc (List.not_mem_nil)
  | cons d ds ih =>
    obtain ⟨hd, hds⟩ := List.forall_mem_cons.mp hall
    intro c hc
    rcases List.mem_cons.mp hc with rfl | hc
    · exact hkeep ds hds (rcntSet_le _ hd).2
    · exact ih _ hds c hc

theorem foldl_nextsCounter (cs : List Events.Counter) :
    (cs.foldl Cpu.rcntSet cpu).nextsCounter = cpu.nextsCounter := by
  induction cs generalizing cpu with
  | nil => rfl
  | cons c cs ih => rw [List.foldl_cons, ih, Cpu.rcntSet_nextsCounter]

theorem cpuRcntSet_nextsCounter (vsync : Events.SyncCounter) (cs : Fin 4 → Events.Counter) :
    (cpu.cpuRcntSet vsync cs).nextsCounter = cpu.cycle := by
  rw [Cpu.cpuRcntSet]
  split
  · exact foldl_nextsCounter _
  · exact foldl_nextsCounter _

theorem scheduled_cpuRcntSet (vsync : Events.SyncCounter) (cs : Fin 4 → Events.Counter)
    (hall : ∀ i, (cs i).overshot = false) (i : Fin 4)
    (hover : 0 ≤ ((cs i).sCycleT + (cs i).toOverflow - cpu.cycle).toInt)
    (htarget : (cs i).future = false →
      0 ≤ ((cs i).sCycleT + (cs i).toTarget - cpu.cycle).toInt) :
    Scheduled (cpu.cpuRcntSet vsync cs) (cs i) := by
  have hfold := scheduled_foldl
    (cpu.setCounter cpu.cycle (vsync.cycleT - (cpu.cycle - vsync.sCycle)))
    (List.ofFn cs) (List.forall_mem_ofFn_iff.mpr hall) (cs i) (List.mem_ofFn.mpr ⟨i, rfl⟩)
  intro hs
  have hle := hfold hs
  rw [delay_eq, delay_eq, foldl_nextsCounter] at hle
  rw [delay_eq, delay_eq, cpuRcntSet_nextsCounter, Cpu.cpuRcntSet]
  split
  · exact ⟨hover, htarget⟩
  · exact hle

theorem Scheduled.advance (h : Scheduled cpu c) (k : BitVec 32) : Scheduled (cpu.advance k) c := by
  intro hs
  have hle := h hs
  rw [delay_eq, delay_eq] at hle
  rw [delay_eq, delay_eq]
  exact hle

theorem stopped_sched (c : Counter) : c.sched.stopped = !c.counts := by
  rw [Counter.counts, Bool.not_and]
  exact congrArg (!c.mode.isCounting || ·) (Bool.not_not _).symm

theorem overshot_of_not_counts {c : Counter} (h : c.counts = false) :
    c.sched.overshot = false := by
  rw [Events.Counter.overshot, stopped_sched, h]
  rfl

theorem overshot_update {c : Counter} {cycle : Time} (hf : c.Fits)
    (hclear : c.counts = true → (c.counted cycle).view.Clears 0x10000) :
    (c.update cycle).sched.overshot = false := by
  cases hc : c.counts with
  | false =>
    apply overshot_of_not_counts
    rw [Counter.counts_of_kept Counter.kept_update, hc]
  | true => exact Counter.overshot_of_ready (hf.update _) (Counter.view_update hf hc (hclear hc)).2.ready

variable (info : VSyncInfo) (s : State)

theorem rcntUpdate_counters (i : Fin 4) : (s.rcntUpdate info).counters i =
    ((s.rcntUpdateVSync info).counters i).update s.cpu.cycle := by
  rw [← (sameGates_vSync info s).cpu]
  rfl

theorem rcntUpdate_gates : (s.rcntUpdate info).gates = s.gates := (sameGates_vSync info s).gates

theorem rcntUpdate_cycle : (s.rcntUpdate info).cpu.cycle = s.cpu.cycle := by
  rw [← (sameGates_vSync info s).cpu]
  exact (congrArg Cpu.cycle (Cpu.cpuRcntSet_kept (s := (s.rcntUpdateVSync info).cpu) _ _) :)

theorem rcntUpdate_nextsCounter : (s.rcntUpdate info).cpu.nextsCounter = s.cpu.cycle := by
  rw [← (sameGates_vSync info s).cpu]
  exact cpuRcntSet_nextsCounter _ _

theorem scheduled_rcntUpdate
    (hall : ∀ i, ((s.rcntUpdate info).counters i).sched.overshot = false) (i : Fin 4)
    (hover : 0 ≤ (((s.rcntUpdate info).counters i).sCycleT +
      ((s.rcntUpdate info).counters i).sched.toOverflow - s.cpu.cycle).toInt)
    (htarget : ((s.rcntUpdate info).counters i).sched.future = false →
      0 ≤ (((s.rcntUpdate info).counters i).sCycleT +
        ((s.rcntUpdate info).counters i).sched.toTarget - s.cpu.cycle).toInt) :
    Scheduled (s.rcntUpdate info).cpu ((s.rcntUpdate info).counters i).sched := by
  rw [← (sameGates_vSync info s).cpu] at hover htarget
  exact scheduled_cpuRcntSet (s.rcntUpdateVSync info).vsyncCounter.toSyncCounter
    (fun i => ((s.rcntUpdate info).counters i).sched) hall i hover htarget

end Scheduled

end OmegaRed.Counters
