import OmegaRed.Events.Machine

/-! Runs of the schedules: nothing is late, nothing is lost, nothing is done twice. -/

namespace OmegaRed.Events

open Lib.Deadlines

namespace Cpu

variable {s : Cpu} {p : Proc}

theorem Inv.good (h : s.Inv p) {ts : List Time} (hs : s.Spans ts) :
    ∃ o, s.Good p o ∧ ∀ t ∈ ts, Near o t := by
  obtain ⟨o, hl, ht⟩ := hs
  exact ⟨o, ⟨hl, h⟩, ht⟩

theorem Inv.eeEventTest (h : s.Inv p) : s.eeEventTest.Inv p := by
  rw [Cpu.eeEventTest]
  split
  · refine ⟨h.listed, fun n hn => Or.inr (Or.inr (Or.inl ⟨by simp, h.listed n hn⟩)), ?_⟩
    exact Or.inr (by simp)
  · exact h

theorem ToTest.of_tasks {n : Event} {ts : List Task} (h : s.ToTest p n)
    (hts : ∀ k ∈ s.tasks, k ≠ .counters → k ≠ .rcntSet → k ≠ .finish → k ∈ ts) :
    ToTest { s with tasks := ts } p n := by
  rcases h with h | ⟨h, hn⟩ | ⟨h, hn⟩
  · exact Or.inl (hts _ h (by simp) (by simp) (by simp))
  · exact Or.inr (Or.inl ⟨hts _ h (by simp) (by simp) (by simp), hn⟩)
  · exact Or.inr (Or.inr ⟨hts _ h (by simp) (by simp) (by simp), hn⟩)

theorem Inv.of_tasks (h : s.Inv p) {ts : List Task}
    (hts : ∀ k ∈ s.tasks, k ≠ .counters → k ≠ .rcntSet → k ≠ .finish → k ∈ ts)
    (hc : NotLater s.nextEvent s.counterDue ∨ .finish ∈ ts) : Inv { s with tasks := ts } p :=
  ⟨h.listed, fun n hn => (h.pending n hn).imp_right fun ht => ht.of_tasks hts, hc⟩

theorem Inv.counters (h : s.Inv p) : s.counters.Inv p := by
  rw [Cpu.counters]
  split
  · next ts ht =>
    refine h.of_tasks (fun k hk hne _ _ => ?_) (h.counter.imp_right fun hf => ?_)
    · rw [ht] at hk
      have hk := (List.mem_cons.mp hk).resolve_left hne
      split
      · exact List.mem_cons_of_mem _ hk
      · exact hk
    · rw [ht] at hf
      have hf := (List.mem_cons.mp hf).resolve_left (by simp)
      split
      · exact List.mem_cons_of_mem _ hf
      · exact hf
  · exact h

theorem Inv.rcntUpdate (h : s.Inv p) {vsync : SyncCounter} {c : Fin 4 → Counter}
    (hg : (s.cpuRcntSet vsync c).Inv p) : (s.rcntUpdate vsync c).Inv p := by
  rw [Cpu.rcntUpdate]
  split
  · next ts ht =>
    have htasks : (s.cpuRcntSet vsync c).tasks = s.tasks :=
      (congrArg Cpu.tasks (cpuRcntSet_kept vsync c) :)
    refine hg.of_tasks (fun k hk _ hne _ => ?_) (hg.counter.imp_right fun hf => ?_)
    · rw [htasks, ht] at hk
      exact (List.mem_cons.mp hk).resolve_left hne
    · rw [htasks, ht] at hf
      exact (List.mem_cons.mp hf).resolve_left (by simp)
  · exact h

theorem Good.nextEventTest {o : Time} (h : s.Good p o) {iopDelta eesCycle : BitVec 32}
    {hsync : SyncCounter} (h48 : Near o (s.cycle + 48))
    (hiop : Near o (s.cycle + (iopDelta - eesCycle))) (hs : Near o hsync.sCycle)
    (hd : Near o hsync.due) :
    Near o (s.nextEventTest iopDelta eesCycle hsync) ∧
      NotLater (s.nextEventTest iopDelta eesCycle hsync) s.counterDue ∧
      ∀ t, Near o t → NotLater s.nextEvent t →
        NotLater (s.nextEventTest iopDelta eesCycle hsync) t := by
  have hc := h.near _ .cycle
  have hx := h.near _ .nextEvent
  have hns := h.near _ .nextsCounter
  have hcd := h.near _ .counterDue
  have hlow {x start t : Time} {delta : BitVec 32} (hx : Near o x) (hst : Near o start)
      (hde : Near o (start + delta)) (ht : Near o t) (hl : NotLater x t) :
      NotLater (lower x start delta) t := lower_notLater hx hst hde ht hl
  unfold Cpu.nextEventTest
  extract_lets t₁ t₂ t₃
  have h1 : Near o t₁ ∧ ∀ t, Near o t → NotLater s.nextEvent t → NotLater t₁ t := by
    unfold t₁
    split
    · exact ⟨near_lower hx h48, fun t ht hl => hlow hx hc h48 ht hl⟩
    · exact ⟨hx, fun t _ hl => hl⟩
  have h2 : Near o t₂ := near_lower h1.1 hiop
  have h3 : Near o t₃ := near_lower h2 hd
  refine ⟨near_lower h3 hcd, lower_notLater_delta h3 hns hcd, fun t ht hl => ?_⟩
  have hl1 := h1.2 t ht hl
  have hl2 : NotLater t₂ t := hlow h1.1 hc hiop ht hl1
  have hl3 : NotLater t₃ t := hlow h2 hs hd ht hl2
  exact hlow h3 hns hcd ht hl3

/-- The last task of the test goes when the next event is early enough for the counters too. -/
theorem Good.finish {o x : Time} {ts : List Task} (h : s.Good p o) (ht : s.tasks = .finish :: ts)
    (hx : Near o x) (hl : ∀ t, Near o t → NotLater s.nextEvent t → NotLater x t)
    (hc : NotLater x s.counterDue) : Inv { s with nextEvent := x, tasks := ts } p := by
  have hg : Good { s with nextEvent := x } p o :=
    h.of_kept rfl hx (h.near _ .nextsCounter) (h.near _ .counterDue) (Or.inl hl) (Or.inl hc)
  refine hg.inv.of_tasks (fun k hk _ _ hne => ?_) (Or.inl hc)
  replace hk : k ∈ s.tasks := hk
  rw [ht] at hk
  exact (List.mem_cons.mp hk).resolve_left hne

theorem Inv.finish (h : s.Inv p) {iopDelta eesCycle : BitVec 32} {hsync : SyncCounter}
    (hs : s.Spans [s.cycle + 48, s.cycle + (iopDelta - eesCycle), hsync.sCycle, hsync.due]) :
    (s.finish iopDelta eesCycle hsync).Inv p := by
  rw [Cpu.finish]
  split
  · next ts ht =>
    obtain ⟨o, hg, ho⟩ := h.good hs
    simp only [List.forall_mem_cons, List.not_mem_nil, false_implies, implies_true,
      and_true] at ho
    obtain ⟨h48, hiop, hsc, hdue⟩ := ho
    obtain ⟨hn, hcd, hl⟩ := hg.nextEventTest h48 hiop hsc hdue
    exact hg.finish ht hn hl hcd
  · exact h

theorem Inv.iopEventTest (h : s.Inv p) {spu2 usb : Option Async} {c : Fin 6 → PsxCounter}
    (hu : s.testCycle s.nextsCounter s.nextCounter → 32 ≤ (s.updateDelay spu2 usb).toInt ∧
      (∀ i, (c i).overshot i = false) ∧
      s.Spans [s.cycle + 32, s.cycle + s.updateDelay spu2 usb]) :
    (s.iopEventTest spu2 usb c).Inv p := by
  rw [Cpu.iopEventTest]
  split
  next ht =>
    have htest (x : Time) (n : Event) (hn : s.interrupt n = true) :
        NotLater x (s.due n) ∨ ToTest { s with tasks := [.first] } p n :=
      Or.inr (Or.inr (Or.inl ⟨by simp, h.listed n hn⟩))
    split
    · next hdue =>
      obtain ⟨h32, hp, hs⟩ := hu hdue
      obtain ⟨o, hg, ho⟩ := h.good hs
      have hg' : Good { s with tasks := [.first] } p o :=
        ⟨fun t ht => hg.near t (by cases ht <;> constructor <;> assumption),
          h.listed, htest _, h.counter.imp_right fun hf => by simp [ht] at hf⟩
      have hd : Near o (s.cycle + s.updateDelay spu2 usb) := ho _ (by simp)
      exact (hg'.psxRcntUpdate (ho _ (by simp)) hd h32 hp (by simp)).inv
    · exact ⟨h.listed, htest _, Or.inl (NotLater.refl _)⟩
  · exact h

end Cpu

namespace Machine

variable (conf : Config) (m : Machine)

/-- When a step keeps the schedules: the points of time it compares span less than half a turn,
and where the code assigns a counter event without lowering the next event, it need not. -/
def Meets : Act → Prop
  | .cpuInt n e => n ∈ eeProc.listed ∧ m.ee.Spans [m.ee.cycle + conf.ecycle e]
  | .psxInt n e => n ∈ (iopProc conf.ps1).listed ∧ m.iop.Spans [m.iop.cycle + e] ∧
      (m.iopCycleEE.toInt < 0 →
        m.ee.Spans [m.ee.cycle + (m.on .iop fun s => s.int n e).iopDelta])
  | .clearInt _ _ => True
  | .setNextEvent side start delta => (m.cpu side).Spans [start, start + delta]
  | .advance side k => 0 ≤ k.toInt ∧ (m.cpu side).Spans [(m.cpu side).cycle + k]
  | .slice _ _ _ => True
  | .rcntSet c => m.ee.Spans (c.times m.ee.nextsCounter) ∧
      (c.overshot → NotLater m.ee.nextEvent (m.ee.nextsCounter + 4) ∨ .finish ∈ m.ee.tasks)
  | .updateVSyncRate v c | .rcntUpdate v c =>
      m.ee.Spans (v.due :: (List.ofFn c).flatMap fun c => c.times m.ee.cycle) ∧
      (.finish ∈ m.ee.tasks ∨ (NotLater m.ee.nextEvent v.due ∧ ∀ i, (c i).overshot = false))
  | .psxRcntSet i c => m.iop.Spans (c.times i m.iop.nextsCounter m.iop.nextCounter) ∧
      (c.overshot i → NotLater m.iop.nextEvent (m.iop.nextsCounter + 4))
  | .psxDma size => 0 ≤ (m.iop.nextEvent - m.iop.cycle).toInt ∧ 0 ≤ (size * 3).toInt ∧
      m.iop.Spans [m.iop.cycle + size * 3]
  | .eeEventTest => True
  | .counters => True
  | .finish h => m.ee.Spans
      [m.ee.cycle + 48, m.ee.cycle + (m.iopDelta - m.eesCycle), h.sCycle, h.due]
  | .iopEventTest spu2 usb c => m.iop.testCycle m.iop.nextsCounter m.iop.nextCounter →
      32 ≤ (m.iop.updateDelay spu2 usb).toInt ∧ (∀ i, (c i).overshot i = false) ∧
      m.iop.Spans [m.iop.cycle + 32, m.iop.cycle + m.iop.updateDelay spu2 usb]
  | .task side => (m.cpu side).Spans []

def Inv : Prop := ∀ side, (m.cpu side).Inv (conf.proc side)

variable {conf m}

@[simp] theorem cpu_on (side : Side) (f : Cpu → Cpu) : (m.on side f).cpu side = f (m.cpu side) := by
  cases side <;> rfl

theorem cpu_on_of_ne {side side' : Side} (h : side ≠ side') (f : Cpu → Cpu) :
    (m.on side f).cpu side' = m.cpu side' := by
  cases side <;> cases side' <;> first | rfl | exact absurd rfl h

theorem Inv.on (h : m.Inv conf) {side : Side} {f : Cpu → Cpu}
    (hf : (f (m.cpu side)).Inv (conf.proc side)) : (m.on side f).Inv conf := by
  intro side'
  by_cases hs : side = side'
  · rw [← hs, cpu_on]
    exact hf
  · rw [cpu_on_of_ne hs]
    exact h side'

theorem Inv.rcntSets (h : m.Inv conf) {v : SyncCounter} {c : Fin 4 → Counter}
    (hm : m.Meets conf (.updateVSyncRate v c)) : (m.ee.cpuRcntSet v c).Inv eeProc := by
  obtain ⟨o, hg, ho⟩ := (h .ee).good hm.1
  refine (hg.cpuRcntSet (ho _ (by simp)) (fun i t ht => ho _ ?_) hm.2).inv
  exact List.mem_cons_of_mem _ (List.mem_flatMap.mpr ⟨c i, List.mem_ofFn.mpr ⟨i, rfl⟩, ht⟩)

theorem Inv.step {a : Act} (h : m.Inv conf) (hm : m.Meets conf a) : (m.step conf a).Inv conf := by
  cases a with
  | cpuInt n e =>
    have hon : (m.on .ee fun s => s.int n (conf.ecycle e)).Inv conf := h.on ((h .ee).int hm.1 hm.2)
    rw [Machine.step, cpuInt]
    split
    · exact fun side => by cases side; exacts [hon .ee, hon .iop]
    · exact hon
  | psxInt n e =>
    have hon : (m.on .iop fun s => s.int n e).Inv conf := h.on ((h .iop).int hm.1 hm.2.1)
    rw [Machine.step, psxInt]
    split
    · next hneg =>
      obtain ⟨o, hg, ho⟩ := (h .ee).good (hm.2.2 hneg)
      exact hon.on (hg.setNext (hg.near _ .cycle) (ho _ (List.mem_singleton.mpr rfl))).inv
    · exact hon
  | clearInt side n => exact h.on ((h side).clearInt n)
  | setNextEvent side start delta => exact h.on ((h side).setNext hm)
  | advance side k => exact h.on ((h side).advance k)
  | slice c b e => exact fun side => by cases side; exacts [h .ee, h .iop]
  | rcntSet c =>
    obtain ⟨o, hg, ho⟩ := (h .ee).good hm.1
    exact h.on (hg.rcntSet ho hm.2).inv
  | updateVSyncRate v c => exact h.on (h.rcntSets hm)
  | psxRcntSet i c =>
    obtain ⟨o, hg, ho⟩ := (h .iop).good hm.1
    exact h.on (hg.psxRcntSet ho fun hp => Or.inl (hm.2 hp)).inv
  | psxDma size =>
    obtain ⟨o, hg, ho⟩ := (h .iop).good hm.2.2
    exact h.on (hg.psxDma hm.1 hm.2.1 (ho _ (List.mem_singleton.mpr rfl))).inv
  | eeEventTest => exact h.on (h .ee).eeEventTest
  | counters => exact h.on (h .ee).counters
  | rcntUpdate v c => exact h.on ((h .ee).rcntUpdate (h.rcntSets hm))
  | finish hsync => exact h.on ((h .ee).finish hm)
  | iopEventTest spu2 usb c => exact h.on ((h .iop).iopEventTest hm)
  | task side => exact h.on ((h side).task hm)

end Machine

namespace Cpu

theorem spans_of {s : Cpu} {ts : List Time}
    (h : Near 0 s.cycle ∧ Near 0 s.nextEvent ∧ Near 0 s.nextsCounter ∧ Near 0 s.counterDue)
    (hn : ∀ n, s.interrupt n = true → Near 0 (s.sCycle n) ∧ Near 0 (s.due n))
    (ht : ∀ t ∈ ts, Near 0 t) : s.Spans ts := by
  refine ⟨0, fun t hl => ?_, ht⟩
  cases hl with
  | cycle => exact h.1
  | nextEvent => exact h.2.1
  | nextsCounter => exact h.2.2.1
  | counterDue => exact h.2.2.2
  | sCycle hi => exact (hn _ hi).1
  | due hi => exact (hn _ hi).2

/-- What the schedule says of one event, with the callbacks it has had. -/
def entry (s : Cpu) (n : Event) : Bool × Time × BitVec 32 × Nat :=
  (s.interrupt n, s.sCycle n, s.eCycle n, s.calls n)

variable {s : Cpu} {n k : Event}

theorem entry_int {e : BitVec 32} (h : n ≠ k) : (s.int k e).entry n = s.entry n := by
  simp [entry, int, setNext, h]

theorem entry_clearInt (h : n ≠ k) : (s.clearInt k).entry n = s.entry n := by
  simp [entry, clearInt, h]

theorem entry_test (h : n ≠ k) : (s.test k).entry n = s.entry n := by
  rcases test_cases (s := s) k with ⟨-, he⟩ | ⟨-, -, he⟩ | ⟨-, -, he⟩
  · rw [he]
  · simp [he, entry, clearInt, h]
  · rw [he]
    rfl

theorem first_mem_eeEventTest (h : s.tasks = []) : .first ∈ s.eeEventTest.tasks := by
  rw [Cpu.eeEventTest, if_pos h]
  simp

theorem first_mem_iopEventTest {spu2 usb : Option Async} {c : Fin 6 → PsxCounter}
    (h : s.tasks = []) : .first ∈ (s.iopEventTest spu2 usb c).tasks := by
  rw [Cpu.iopEventTest, if_pos h]
  split
  · have hk := psxRcntUpdate_kept (s := { s with tasks := [.first] }) spu2 usb c
    have ht : (psxRcntUpdate { s with tasks := [.first] } spu2 usb c).tasks = [.first] :=
      (congrArg Cpu.tasks hk :)
    rw [ht]
    simp
  · simp

theorem test_cycle (k : Event) : (s.test k).cycle = s.cycle := by
  rw [test]
  split
  · rfl
  · split <;> rfl

theorem entry_test_self (hs : s.Spans []) :
    (s.interrupt n = true ∧ s.Due n →
      (s.test n).interrupt n = false ∧ (s.test n).calls n = s.calls n + 1) ∧
    (¬(s.interrupt n = true ∧ s.Due n) → (s.test n).entry n = s.entry n) := by
  obtain ⟨o, hl, -⟩ := hs
  rcases test_cases (s := s) n with ⟨hn, he⟩ | ⟨hn, hc, he⟩ | ⟨hn, hc, he⟩
  · rw [he]
    exact ⟨fun h => by simp [hn] at h, fun _ => rfl⟩
  · rw [testCycle_iff hl hn] at hc
    rw [he]
    exact ⟨fun _ => by simp [clearInt], fun h => absurd ⟨hn, hc⟩ h⟩
  · rw [he]
    refine ⟨fun h => ?_, fun _ => rfl⟩
    rw [(testCycle_iff hl hn).mpr h.2] at hc
    exact absurd hc (by simp)

end Cpu

/-- What the steps leave alone that neither test events nor let time pass. -/
structure Cpu.Quiet (p : Proc) (n : Event) (s s' : Cpu) : Prop where
  entry : s'.entry n = s.entry n
  cycle : s'.cycle = s.cycle
  toTest : s.ToTest p n → s'.ToTest p n

namespace Cpu.Quiet

variable {p : Proc} {s s' : Cpu} {n : Event}

theorem refl : Quiet p n s s := ⟨rfl, rfl, fun h => h⟩

theorem of_kept (h : s'.kept = s.kept) : Quiet p n s s' := by
  have htasks : s'.tasks = s.tasks := (congrArg Cpu.tasks h :)
  have hint : s'.interrupt = s.interrupt := (congrArg Cpu.interrupt h :)
  have hsc : s'.sCycle = s.sCycle := (congrArg Cpu.sCycle h :)
  have hec : s'.eCycle = s.eCycle := (congrArg Cpu.eCycle h :)
  have hcalls : s'.calls = s.calls := (congrArg Cpu.calls h :)
  have hcycle : s'.cycle = s.cycle := (congrArg Cpu.cycle h :)
  refine ⟨?_, hcycle, fun ht => ?_⟩
  · rw [Cpu.entry, Cpu.entry, hint, hsc, hec, hcalls]
  · rwa [Cpu.ToTest, htasks]

theorem of_tasks {ts : List Task}
    (hts : ∀ k ∈ s.tasks, k ≠ .counters → k ≠ .rcntSet → k ≠ .finish → k ∈ ts) :
    Quiet p n s { s with tasks := ts } :=
  ⟨rfl, rfl, fun h => h.of_tasks hts⟩

theorem of_next {x : Time} {ts : List Task} (h : Quiet p n s { s with tasks := ts }) :
    Quiet p n s { s with nextEvent := x, tasks := ts } :=
  ⟨h.entry, h.cycle, h.toTest⟩

theorem trans {s'' : Cpu} (h : Quiet p n s s') (h' : Quiet p n s' s'') : Quiet p n s s'' :=
  ⟨h'.entry.trans h.entry, h'.cycle.trans h.cycle, fun ht => h'.toTest (h.toTest ht)⟩

theorem eeEventTest : Quiet p n s s.eeEventTest := by
  rw [Cpu.eeEventTest]
  split
  · next ht => exact of_next (of_tasks fun k hk => by simp [ht] at hk)
  · exact refl

theorem counters : Quiet p n s s.counters := by
  rw [Cpu.counters]
  split
  · next ts ht =>
    refine of_tasks fun k hk hne _ _ => ?_
    rw [ht] at hk
    have hk := (List.mem_cons.mp hk).resolve_left hne
    split
    · exact List.mem_cons_of_mem _ hk
    · exact hk
  · exact refl

theorem rcntUpdate {vsync : SyncCounter} {c : Fin 4 → Counter} :
    Quiet p n s (s.rcntUpdate vsync c) := by
  rw [Cpu.rcntUpdate]
  split
  · next ts ht =>
    have htasks : (s.cpuRcntSet vsync c).tasks = s.tasks :=
      (congrArg Cpu.tasks (cpuRcntSet_kept vsync c) :)
    refine (of_kept (cpuRcntSet_kept vsync c)).trans (of_tasks fun k hk _ hne _ => ?_)
    rw [htasks, ht] at hk
    exact (List.mem_cons.mp hk).resolve_left hne
  · exact refl

theorem finish {iopDelta eesCycle : BitVec 32} {hsync : SyncCounter} :
    Quiet p n s (s.finish iopDelta eesCycle hsync) := by
  rw [Cpu.finish]
  split
  · next ts ht =>
    refine of_next (of_tasks fun k hk _ _ hne => ?_)
    rw [ht] at hk
    exact (List.mem_cons.mp hk).resolve_left hne
  · exact refl

theorem iopEventTest {spu2 usb : Option Async} {c : Fin 6 → PsxCounter} :
    Quiet p n s (s.iopEventTest spu2 usb c) := by
  rw [Cpu.iopEventTest]
  split
  · next ht =>
    have hq : Quiet p n s { s with tasks := [.first] } :=
      of_tasks fun k hk => by simp [ht] at hk
    split
    · exact hq.trans (of_kept (psxRcntUpdate_kept spu2 usb c))
    · exact of_next hq
  · exact refl

end Cpu.Quiet

namespace Machine

variable (conf : Config) (m : Machine)

/-- The step schedules the event anew, or clears it. -/
def Touches (side : Side) (n : Event) : Act → Prop
  | .cpuInt k _ => side = .ee ∧ n = k
  | .psxInt k _ => side = .iop ∧ n = k
  | .clearInt side' k => side = side' ∧ n = k
  | _ => False

/-- The step is the test of a due event. -/
def TestsDue (side : Side) (n : Event) (a : Act) : Prop :=
  a = .task side ∧ (m.cpu side).tasks.head? = some (.test n) ∧ (m.cpu side).Due n

variable {conf m} {p : Proc} {side : Side} {n : Event}

theorem quiet_on {side' : Side} {f : Cpu → Cpu}
    (h : side' = side → (m.cpu side).Quiet p n (f (m.cpu side))) :
    (m.cpu side).Quiet p n ((m.on side' f).cpu side) := by
  by_cases hs : side' = side
  · rw [hs, cpu_on]
    exact h hs
  · rw [cpu_on_of_ne hs]
    exact .refl

theorem quiet_int {s : Cpu} {k : Event} {e : BitVec 32} (h : n ≠ k) : s.Quiet p n (s.int k e) :=
  ⟨Cpu.entry_int h, rfl, fun ht => ht⟩

/-- A step that is not a test and lets no time pass, and does not touch the event. -/
theorem step_quiet {a : Act} (ht : ¬Touches side n a) (htask : a ≠ .task side)
    (hadv : ∀ k, a ≠ .advance side k) : (m.cpu side).Quiet p n ((m.step conf a).cpu side) := by
  cases a with
  | cpuInt k e =>
    have hq : (m.cpu side).Quiet p n ((m.on .ee fun s => s.int k (conf.ecycle e)).cpu side) :=
      quiet_on fun hs => quiet_int fun hk => ht ⟨hs.symm, hk⟩
    rw [Machine.step, cpuInt]
    split
    · cases side
      · exact hq
      · exact hq
    · exact hq
  | psxInt k e =>
    have hq : (m.cpu side).Quiet p n ((m.on .iop fun s => s.int k e).cpu side) :=
      quiet_on fun hs => quiet_int fun hk => ht ⟨hs.symm, hk⟩
    rw [Machine.step, psxInt]
    split
    · exact hq.trans (quiet_on fun _ => .of_kept rfl)
    · exact hq
  | clearInt side' k =>
    exact quiet_on fun hs => ⟨Cpu.entry_clearInt fun hk => ht ⟨hs.symm, hk⟩, rfl, fun h => h⟩
  | setNextEvent side' start delta => exact quiet_on fun _ => .of_kept rfl
  | advance side' k => exact quiet_on fun hs => absurd rfl (hs ▸ hadv k)
  | slice c b e =>
    cases side
    · exact .refl
    · exact .refl
  | rcntSet c => exact quiet_on fun _ => .of_kept (Cpu.rcntSet_kept c)
  | updateVSyncRate v c => exact quiet_on fun _ => .of_kept (Cpu.cpuRcntSet_kept v c)
  | psxRcntSet i c => exact quiet_on fun _ => .of_kept (Cpu.psxRcntSet_kept i c)
  | psxDma size => exact quiet_on fun _ => .of_kept (Cpu.psxDma_kept size)
  | eeEventTest => exact quiet_on fun _ => .eeEventTest
  | counters => exact quiet_on fun _ => .counters
  | rcntUpdate v c => exact quiet_on fun _ => .rcntUpdate
  | finish h => exact quiet_on fun _ => .finish
  | iopEventTest spu2 usb c => exact quiet_on fun _ => .iopEventTest
  | task side' => exact quiet_on fun hs => absurd rfl (hs ▸ htask)

theorem task_quiet {s : Cpu} (h : s.tasks.head? ≠ some (.test n)) (hn : s.interrupt n = true)
    (hl : n ∈ p.listed) : s.Quiet p n (s.task p) := by
  cases ht : s.tasks with
  | nil =>
    rw [Cpu.task, ht]
    exact .refl
  | cons k ts =>
    cases k with
    | counters =>
      rw [Cpu.task, ht]
      exact .refl
    | rcntSet =>
      rw [Cpu.task, ht]
      exact .refl
    | finish =>
      rw [Cpu.task, ht]
      exact .refl
    | first =>
      refine ⟨?_, ?_, fun hq => hq.first ht hn hl⟩
      · rw [Cpu.task, ht]
        rfl
      · rw [Cpu.task, ht]
    | rest =>
      refine ⟨?_, ?_, fun hq => hq.rest ht hn⟩
      · rw [Cpu.task, ht]
        rfl
      · rw [Cpu.task, ht]
    | test k =>
      have hk : n ≠ k := by
        rintro rfl
        exact h (by rw [ht]; rfl)
      rw [Cpu.task, ht]
      exact ⟨Cpu.entry_test hk, Cpu.test_cycle k, fun hq => hq.other ht hk⟩

theorem entry_task {s : Cpu} (h : s.tasks.head? ≠ some (.test n)) :
    (s.task p).entry n = s.entry n := by
  rw [Cpu.task]
  split
  · next k ts ht =>
    refine Cpu.entry_test (s := s) (k := k) fun hk => h ?_
    rw [ht, hk]
    rfl
  · rfl
  · rfl
  · rfl

theorem task_self {s : Cpu} (h : s.tasks.head? = some (.test n)) :
    ∃ ts, s.task p = { s.test n with tasks := ts } := by
  obtain ⟨ts, ht⟩ := List.head?_eq_some_iff.mp h
  exact ⟨ts, by rw [Cpu.task, ht]⟩

/-- A step that does not touch the event keeps its entry, unless it tests the event when due. -/
theorem step_entry {a : Act} (hm : m.Meets conf a) (ht : ¬Touches side n a) :
    ((m.cpu side).interrupt n = true ∧ m.TestsDue side n a →
      ((m.step conf a).cpu side).interrupt n = false ∧
        ((m.step conf a).cpu side).calls n = (m.cpu side).calls n + 1) ∧
    (¬((m.cpu side).interrupt n = true ∧ m.TestsDue side n a) →
      ((m.step conf a).cpu side).entry n = (m.cpu side).entry n) := by
  by_cases ha : a = .task side
  · subst ha
    have hstep : (m.step conf (.task side)).cpu side = (m.cpu side).task (conf.proc side) :=
      cpu_on side _
    rw [hstep]
    by_cases hh : (m.cpu side).tasks.head? = some (.test n)
    · obtain ⟨ts, he⟩ := task_self (p := conf.proc side) hh
      rw [he]
      obtain ⟨hrun, hkeep⟩ := Cpu.entry_test_self (n := n) hm
      exact ⟨fun h => hrun ⟨h.1, h.2.2.2⟩, fun h => hkeep fun hd => h ⟨hd.1, rfl, hh, hd.2⟩⟩
    · exact ⟨fun h => absurd h.2.2.1 hh, fun _ => entry_task hh⟩
  · refine ⟨fun h => absurd h.2.1 ha, fun _ => ?_⟩
    by_cases hadv : ∃ k, a = .advance side k
    · obtain ⟨k, rfl⟩ := hadv
      rw [Machine.step, cpu_on]
      rfl
    · exact (step_quiet (p := conf.proc side) ht ha fun k hk => hadv ⟨k, hk⟩).entry

/-- A due event that the running test has still to look at. -/
def Waits (conf : Config) (m : Machine) (side : Side) (n : Event) : Prop :=
  (m.cpu side).interrupt n = true ∧ (m.cpu side).Due n ∧ (m.cpu side).ToTest (conf.proc side) n

theorem Waits.of_entry {m' : Machine} (he : (m'.cpu side).entry n = (m.cpu side).entry n)
    (hc : (m'.cpu side).cycle = (m.cpu side).cycle) (hn : (m.cpu side).interrupt n = true)
    (hd : (m.cpu side).Due n) (ht : (m'.cpu side).ToTest (conf.proc side) n) :
    m'.Waits conf side n := by
  simp only [Cpu.entry, Prod.mk.injEq] at he
  obtain ⟨hint, hsc, hec, -⟩ := he
  refine ⟨hint.trans hn, ?_, ht⟩
  rw [Cpu.Due, Cpu.due, hsc, hec, hc]
  exact hd

theorem Waits.of_quiet {m' : Machine} (h : m.Waits conf side n)
    (hq : (m.cpu side).Quiet (conf.proc side) n (m'.cpu side)) : m'.Waits conf side n :=
  .of_entry hq.entry hq.cycle h.1 h.2.1 (hq.toTest h.2.2)

theorem step_waits {a : Act} (hi : m.Inv conf) (hm : m.Meets conf a) (ht : ¬Touches side n a)
    (h : m.Waits conf side n) : m.TestsDue side n a ∨ (m.step conf a).Waits conf side n := by
  by_cases ha : a = .task side
  · subst ha
    by_cases hh : (m.cpu side).tasks.head? = some (.test n)
    · exact Or.inl ⟨rfl, hh, h.2.1⟩
    · refine Or.inr (h.of_quiet ?_)
      rw [Machine.step, cpu_on]
      exact task_quiet hh h.1 ((hi side).listed n h.1)
  · right
    by_cases hadv : ∃ k, a = .advance side k
    · obtain ⟨k, rfl⟩ := hadv
      obtain ⟨hk, o, hl, ho⟩ := hm
      rw [Waits, Machine.step, cpu_on]
      refine ⟨h.1, ?_, h.2.2⟩
      exact h.2.1.advance (hl _ (.due h.1)) (hl _ .cycle) (ho _ (by simp)) hk
    · exact h.of_quiet (step_quiet ht ha fun k hk => hadv ⟨k, hk⟩)

/-- The step begins an event test of the processor. -/
def StartsTest : Side → Act → Prop
  | .ee, a => a = .eeEventTest
  | .iop, a => ∃ spu2 usb c, a = .iopEventTest spu2 usb c

theorem StartsTest.waits {a : Act} (ha : StartsTest side a) (hi : m.Inv conf)
    (ht : (m.cpu side).tasks = []) (hn : (m.cpu side).interrupt n = true)
    (hd : (m.cpu side).Due n) : (m.step conf a).Waits conf side n := by
  have hl := (hi side).listed n hn
  cases side with
  | ee =>
    obtain rfl := ha
    have hq : (m.cpu .ee).Quiet eeProc n ((m.step conf .eeEventTest).cpu .ee) :=
      step_quiet id (by simp) (by simp)
    refine .of_entry hq.entry hq.cycle hn hd (Or.inr (Or.inl ⟨?_, hl⟩))
    rw [Machine.step, cpu_on]
    exact Cpu.first_mem_eeEventTest ht
  | iop =>
    obtain ⟨spu2, usb, c, rfl⟩ := ha
    have hq : (m.cpu .iop).Quiet eeProc n
        ((m.step conf (.iopEventTest spu2 usb c)).cpu .iop) := step_quiet id (by simp) (by simp)
    refine .of_entry hq.entry hq.cycle hn hd (Or.inr (Or.inl ⟨?_, hl⟩))
    rw [Machine.step, cpu_on]
    exact Cpu.first_mem_iopEventTest ht

variable (conf m) (side n)

def run (as : List Act) : Machine := as.foldl (step conf) m

/-- Every step of the run meets its condition. -/
def MeetsAll : Machine → List Act → Prop
  | _, [] => True
  | m, a :: as => m.Meets conf a ∧ MeetsAll (m.step conf a) as

/-- A test of the event comes in the run when the event is due. -/
def TestedDue : Machine → List Act → Prop
  | _, [] => False
  | m, a :: as => m.TestsDue side n a ∨ TestedDue (m.step conf a) as

variable {conf m side n}

theorem Inv.run {as : List Act} (h : m.Inv conf) (hm : MeetsAll conf m as) :
    (m.run conf as).Inv conf := by
  induction as generalizing m with
  | nil => exact h
  | cons a as ih => exact ih (h.step hm.1) hm.2

theorem meetsAll_append {as bs : List Act} :
    MeetsAll conf m (as ++ bs) ↔ MeetsAll conf m as ∧ MeetsAll conf (m.run conf as) bs := by
  induction as generalizing m with
  | nil => exact (Iff.of_eq (true_and _)).symm
  | cons a as ih =>
    rw [List.cons_append, MeetsAll, ih, MeetsAll, and_assoc]
    rfl

theorem run_idle {as : List Act} (hm : MeetsAll conf m as) (ht : ∀ a ∈ as, ¬Touches side n a)
    (hn : (m.cpu side).interrupt n = false) :
    ((m.run conf as).cpu side).entry n = (m.cpu side).entry n := by
  induction as generalizing m with
  | nil => rfl
  | cons a as ih =>
    have he := (step_entry hm.1 (ht a (by simp))).2 fun h => by simp [hn] at h
    have hn' : ((m.step conf a).cpu side).interrupt n = false := by
      rw [← hn]
      exact congrArg Prod.fst he
    exact (ih hm.2 (fun b hb => ht b (List.mem_cons_of_mem a hb)) hn').trans he

/-- A pending event has one callback as soon as it is tested when due, and none before. -/
theorem run_pending {as : List Act} (hm : MeetsAll conf m as) (ht : ∀ a ∈ as, ¬Touches side n a)
    (hn : (m.cpu side).interrupt n = true) :
    (TestedDue conf side n m as →
      ((m.run conf as).cpu side).interrupt n = false ∧
        ((m.run conf as).cpu side).calls n = (m.cpu side).calls n + 1) ∧
    (¬TestedDue conf side n m as → ((m.run conf as).cpu side).entry n = (m.cpu side).entry n) := by
  induction as generalizing m with
  | nil => exact ⟨fun h => h.elim, fun _ => rfl⟩
  | cons a as ih =>
    have hta := ht a (by simp)
    have hts (b : Act) (hb : b ∈ as) := ht b (List.mem_cons_of_mem a hb)
    obtain ⟨hrun, hkeep⟩ := step_entry hm.1 hta
    by_cases hd : m.TestsDue side n a
    · obtain ⟨hn', hc⟩ := hrun ⟨hn, hd⟩
      have he := run_idle hm.2 hts hn'
      simp only [Cpu.entry, Prod.mk.injEq] at he
      exact ⟨fun _ => ⟨he.1.trans hn', he.2.2.2.trans hc⟩, fun h => absurd (Or.inl hd) h⟩
    · have he := hkeep fun h => hd h.2
      have hn' : ((m.step conf a).cpu side).interrupt n = true := by
        rw [← hn]
        exact congrArg Prod.fst he
      obtain ⟨h1, h2⟩ := ih hm.2 hts hn'
      have hcalls : ((m.step conf a).cpu side).calls n = (m.cpu side).calls n :=
        congrArg (fun e => e.2.2.2) he
      refine ⟨fun h => ?_, fun h => (h2 fun h' => h (Or.inr h')).trans he⟩
      rw [← hcalls]
      exact h1 (h.resolve_left hd)

theorem run_waits {as : List Act} (hi : m.Inv conf) (hm : MeetsAll conf m as)
    (ht : ∀ a ∈ as, ¬Touches side n a) (h : m.Waits conf side n) :
    TestedDue conf side n m as ∨ (m.run conf as).Waits conf side n := by
  induction as generalizing m with
  | nil => exact Or.inr h
  | cons a as ih =>
    rcases step_waits hi hm.1 (ht a (by simp)) h with hd | hw
    · exact Or.inl (Or.inl hd)
    · exact (ih (hi.step hm.1) hm.2 (fun b hb => ht b (List.mem_cons_of_mem a hb)) hw).imp_left
        Or.inr

/-- Nothing runs and nothing is late, on either processor. -/
def Start (conf : Config) (m : Machine) : Prop :=
  ∀ side, (∀ n, (m.cpu side).interrupt n = true → n ∈ (conf.proc side).listed) ∧
    (m.cpu side).tasks = [] ∧ (m.cpu side).OnTime

theorem Start.inv (h : Start conf m) : m.Inv conf := by
  intro side
  obtain ⟨hl, -, hp, hc⟩ := h side
  exact ⟨hl, fun n hn => Or.inl (hp n hn), Or.inl hc⟩

/-- In every run whose steps meet their conditions, the next event of each processor is never later
than what is pending, but for what the running test will see to; and an event has its callback
exactly once, at its first test when it is due, and every event test that begins when it is due
comes to that test, unless the event is scheduled anew or cleared. -/
theorem schedule_correct (conf : Config) (m : Machine) (as bs : List Act) (hs : Start conf m)
    (hm : MeetsAll conf m (as ++ bs)) (side : Side) :
    ((m.run conf as).cpu side).Inv (conf.proc side) ∧
    (((m.run conf as).cpu side).tasks = [] → ((m.run conf as).cpu side).OnTime) ∧
    ∀ n, (∀ a ∈ bs, ¬Touches side n a) →
      (((m.run conf as).cpu side).interrupt n = false →
        ((m.run conf (as ++ bs)).cpu side).entry n = ((m.run conf as).cpu side).entry n) ∧
      (((m.run conf as).cpu side).interrupt n = true →
        (TestedDue conf side n (m.run conf as) bs →
          ((m.run conf (as ++ bs)).cpu side).interrupt n = false ∧
          ((m.run conf (as ++ bs)).cpu side).calls n = ((m.run conf as).cpu side).calls n + 1) ∧
        (¬TestedDue conf side n (m.run conf as) bs →
          ((m.run conf (as ++ bs)).cpu side).entry n = ((m.run conf as).cpu side).entry n) ∧
        (((m.run conf as).cpu side).Due n → ((m.run conf as).cpu side).tasks = [] →
          (∃ a bs', bs = a :: bs' ∧ StartsTest side a) →
          ((m.run conf (as ++ bs)).cpu side).tasks = [] →
          TestedDue conf side n (m.run conf as) bs)) := by
  obtain ⟨hma, hmb⟩ := meetsAll_append.mp hm
  have hi : (m.run conf as).Inv conf := hs.inv.run hma
  have hrun : m.run conf (as ++ bs) = (m.run conf as).run conf bs := List.foldl_append
  rw [hrun]
  refine ⟨hi side, fun ht => (hi side).onTime ht, fun n ht => ⟨run_idle hmb ht, fun hn => ?_⟩⟩
  obtain ⟨h1, h2⟩ := run_pending hmb ht hn
  refine ⟨h1, h2, fun hd htasks ⟨a, bs', hbs, hst⟩ hend => ?_⟩
  subst hbs
  have hw := hst.waits hi htasks hn hd
  have hts (b : Act) (hb : b ∈ bs') := ht b (List.mem_cons_of_mem a hb)
  rcases run_waits (hi.step hmb.1) hmb.2 hts hw with hd | ⟨-, -, htest⟩
  · exact Or.inr hd
  · replace hend : ((((m.run conf as).step conf a).run conf bs').cpu side).tasks = [] := hend
    simp [Cpu.ToTest, hend] at htest

/-- A processor at cycle 250, with one event pending since cycle 200. -/
def pendingCpu (n : Event) (next : Time) (tasks : List Task) : Cpu where
  cycle := 250
  interrupt k := k == n
  sCycle _ := 100
  eCycle _ := 100
  nextEvent := next
  nextsCounter := 0
  nextCounter := 1000
  tasks := tasks
  calls _ := 0

theorem pendingCpu_spans (n : Event) (next : Time) (tasks : List Task) (h : Near 0 next) :
    (pendingCpu n next tasks).Spans [] := by
  have h0 : Near 0 0 := by decide
  have h100 : Near 0 100 := by decide
  have h200 : Near 0 200 := by decide
  have h250 : Near 0 250 := by decide
  have h1000 : Near 0 1000 := by decide
  exact Cpu.spans_of ⟨h250, h, h0, h1000⟩
    (fun _ _ => ⟨h100, h200⟩) (by simp)

theorem pendingCpu_counters (n : Event) (next : Time) (ts : List Task) :
    (pendingCpu n next (.counters :: ts)).counters = pendingCpu n next ts := by
  have h : (pendingCpu n next (.counters :: ts)).testCycle 0 1000 = false := by
    show decide ((1000 : BitVec 32).toInt ≤ ((250 : Time) - 0).toInt) = false
    decide
  have htasks : (if (pendingCpu n next (.counters :: ts)).testCycle 0 1000 = true
      then Task.rcntSet :: ts else ts) = ts := by rw [h]; rfl
  exact congrArg (pendingCpu n next) htasks

/-- A GIF event that is due has its callback in the next event test. -/
theorem schedule_correct_gif :
    let s : Cpu := pendingCpu EeEventType.dmacGif 200 []
    let m : Machine := ⟨s, pendingCpu IopEvt.cdvd 200 [], 0, 0, 0⟩
    let conf : Config := ⟨false, false⟩
    let bs : List Act := [.eeEventTest, .counters, .task .ee, .task .ee, .task .ee]
    ((m.run conf bs).cpu .ee).interrupt EeEventType.dmacGif = false ∧
      ((m.run conf bs).cpu .ee).calls EeEventType.dmacGif = 1 := by
  intro s m conf bs
  have h200 : NotLater 200 200 := NotLater.refl 200
  have h250 : NotLater 200 250 := by decide
  have h1000 : NotLater 200 1000 := by decide
  have hs : Start conf m := fun side => by
    cases side
    · refine ⟨fun n hn => ?_, rfl, fun _ _ => h200, h1000⟩
      rw [beq_iff_eq.mp hn]
      decide
    · refine ⟨fun n hn => ?_, rfl, fun _ _ => h200, h1000⟩
      rw [beq_iff_eq.mp hn]
      decide
  have hcpu (ts : List Task) := pendingCpu_spans EeEventType.dmacGif 3322 ts (by decide)
  have hstep : (m.step conf .eeEventTest).step conf .counters =
      ⟨pendingCpu EeEventType.dmacGif 3322 [.first, .finish], m.iop, 0, 0, 0⟩ :=
    congrArg (fun s : Cpu => (⟨s, m.iop, 0, 0, 0⟩ : Machine)) (pendingCpu_counters _ _ _)
  have hm : MeetsAll conf m bs := by
    refine ⟨trivial, trivial, ?_⟩
    rw [hstep]
    exact ⟨hcpu _, hcpu _, hcpu _, trivial⟩
  have htest : TestedDue conf .ee EeEventType.dmacGif m bs := by
    refine .inr (.inr ?_)
    rw [hstep]
    exact .inr (.inr (.inl ⟨rfl, rfl, h250⟩))
  have htouch (a : Act) (ha : a ∈ bs) : ¬Touches .ee EeEventType.dmacGif a := by
    simp only [bs, List.mem_cons, List.not_mem_nil, or_false] at ha
    rcases ha with rfl | rfl | rfl | rfl | rfl <;> exact id
  exact (((schedule_correct conf m [] bs hs hm .ee).2.2 _ htouch).2 rfl).1 htest

/-- A processor with a counter event that is due, and nothing pending. -/
def countersDue : Cpu where
  cycle := 10000
  interrupt _ := false
  sCycle _ := 0
  eCycle _ := 0
  nextEvent := 10000
  nextsCounter := 9000
  nextCounter := 1000
  tasks := []
  calls _ := 0

/-- `psxRcntUpdate` sets the next event 32 cycles ahead, and does not lower it for SPU2. -/
theorem schedule_not_correct :
    let m : Machine := ⟨countersDue, countersDue, 0, 0, 0⟩
    let conf : Config := ⟨false, false⟩
    let as : List Act := [
      .iopEventTest (some ⟨789, 9216⟩) (some ⟨9990, 36864⟩) fun _ => ⟨0, 0, 0x10000000, 1, 10000⟩,
      .task .iop]
    Start conf m ∧ ((m.run conf as).cpu .iop).tasks = [] ∧
      ((m.run conf as).cpu .iop).nextEvent = 10032 ∧
      ((m.run conf as).cpu .iop).counterDue = 10005 ∧ ¬((m.run conf as).cpu .iop).OnTime := by
  intro m conf as
  have hnot : ¬NotLater ((m.run conf as).cpu .iop).nextEvent ((m.run conf as).cpu .iop).counterDue := by
    decide +kernel
  refine ⟨fun side => ?_, by decide +kernel, by decide +kernel, by decide +kernel, fun h => hnot h.2⟩
  cases side
  · exact ⟨fun n hn => absurd hn (by simp [m, cpu, countersDue]), rfl,
      fun n hn => absurd hn (by simp [m, cpu, countersDue]), by decide +kernel⟩
  · exact ⟨fun n hn => absurd hn (by simp [m, cpu, countersDue]), rfl,
      fun n hn => absurd hn (by simp [m, cpu, countersDue]), by decide +kernel⟩

end Machine

end OmegaRed.Events
