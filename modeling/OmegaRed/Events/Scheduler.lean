import OmegaRed.Lib.Timers

/-! The event schedule of one processor, with the tests that run the events' callbacks. -/

namespace OmegaRed.Events

open Lib.Deadlines

abbrev Event := Fin 32

/-- What an event test has still to do. -/
inductive Task
  | counters
  /-- the counters are updated, their next event is not assigned yet -/
  | rcntSet
  /-- the events that are always tested, then the rest -/
  | first
  /-- the events that are tested when one of them is pending -/
  | rest
  | test (n : Event)
  | finish
  deriving DecidableEq, Repr

/-- The events that the test of a processor lists, in its order. -/
structure Proc where
  first : List Event
  rest : List Event
  /-- the tests are skipped when no event is pending -/
  skips : Bool

def Proc.listed (p : Proc) : List Event := p.first ++ p.rest

/-- The scheduling state of a processor, with the callbacks run so far. -/
structure Cpu where
  cycle : Time
  /-- the bits of `interrupt` -/
  interrupt : Event → Bool
  sCycle : Event → Time
  eCycle : Event → BitVec 32
  /-- `g_nextEventCycle`, `g_iopNextEventCycle` -/
  nextEvent : Time
  nextsCounter : Time
  nextCounter : BitVec 32
  tasks : List Task
  calls : Event → Nat

namespace Cpu

variable (s : Cpu)

/-- `cpuSetNextEvent`, `psxSetNextBranch` -/
def setNext (start : Time) (delta : BitVec 32) : Cpu :=
  { s with nextEvent := lower s.nextEvent start delta }

/-- `cpuTestCycle`, `psxTestCycle` -/
def testCycle (start : Time) (delta : BitVec 32) : Bool :=
  decide (delta.toInt ≤ (s.cycle - start).toInt)

/-- `CPU_INT` and `PSX_INT`, up to the effect on the other processor. -/
def int (n : Event) (ecycle : BitVec 32) : Cpu :=
  { s with
    interrupt := Function.update s.interrupt n true
    sCycle := Function.update s.sCycle n s.cycle
    eCycle := Function.update s.eCycle n ecycle }.setNext s.cycle ecycle

/-- `cpuClearInt` -/
def clearInt (n : Event) : Cpu := { s with interrupt := Function.update s.interrupt n false }

/-- `TESTINT`, `IopTestEvent`; what the callback does are later steps. -/
def test (n : Event) : Cpu :=
  if s.interrupt n = false then s
  else if s.testCycle (s.sCycle n) (s.eCycle n) then
    { s.clearInt n with calls := Function.update s.calls n (s.calls n + 1) }
  else s.setNext (s.sCycle n) (s.eCycle n)

def advance (k : BitVec 32) : Cpu := { s with cycle := s.cycle + k }

/-- Assigns the cycle of the next counter event. -/
def setCounter (start : Time) (delta : BitVec 32) : Cpu :=
  { s with nextsCounter := start, nextCounter := delta }

/-- The next task of the event test, for the tasks that test events. -/
def task (p : Proc) : Cpu :=
  match s.tasks with
  | .test n :: ts => { s.test n with tasks := ts }
  | .first :: ts =>
    { s with
      tasks := (if p.skips = true ∧ ∀ n, s.interrupt n = false then []
        else p.first.map .test ++ [.rest]) ++ ts }
  | .rest :: ts =>
    { s with
      tasks := (if ∃ n ∈ p.rest, s.interrupt n = true then p.rest.map .test else []) ++ ts }
  | _ => s

/-- The cycle at which a pending event is due. -/
def due (n : Event) : Time := s.sCycle n + s.eCycle n

def counterDue : Time := s.nextsCounter + s.nextCounter

/-- The event is due now. -/
def Due (n : Event) : Prop := NotLater (s.due n) s.cycle

/-- The points of time that the code compares. -/
inductive Live : Time → Prop
  | cycle : Live s.cycle
  | nextEvent : Live s.nextEvent
  | nextsCounter : Live s.nextsCounter
  | counterDue : Live s.counterDue
  | sCycle {n : Event} (h : s.interrupt n = true) : Live (s.sCycle n)
  | due {n : Event} (h : s.interrupt n = true) : Live (s.due n)

/-- No two of these points, and of `ts`, are half a turn of the clock apart. -/
def Spans (ts : List Time) : Prop := ∃ o, (∀ t, s.Live t → Near o t) ∧ ∀ t ∈ ts, Near o t

/-- An event that the running test has still to look at. -/
def ToTest (p : Proc) (n : Event) : Prop :=
  .test n ∈ s.tasks ∨ (.first ∈ s.tasks ∧ n ∈ p.listed) ∨ (.rest ∈ s.tasks ∧ n ∈ p.rest)

/-- The next event is not later than what is pending, up to what a running test will see to. -/
structure Inv (p : Proc) : Prop where
  listed : ∀ n, s.interrupt n = true → n ∈ p.listed
  pending : ∀ n, s.interrupt n = true → NotLater s.nextEvent (s.due n) ∨ s.ToTest p n
  counter : NotLater s.nextEvent s.counterDue ∨ .finish ∈ s.tasks

/-- Between event tests, the next event is not later than any pending or counter event. -/
def OnTime : Prop :=
  (∀ n, s.interrupt n = true → NotLater s.nextEvent (s.due n)) ∧
    NotLater s.nextEvent s.counterDue

variable {s} {p : Proc}

theorem Inv.onTime (h : s.Inv p) (ht : s.tasks = []) : s.OnTime := by
  refine ⟨fun n hn => ?_, ?_⟩
  · refine (h.pending n hn).resolve_right ?_
    simp [ToTest, ht]
  · exact h.counter.resolve_right (by simp [ht])

theorem testCycle_iff {o : Time} (hs : ∀ t, s.Live t → Near o t) {n : Event}
    (hn : s.interrupt n = true) : s.testCycle (s.sCycle n) (s.eCycle n) = true ↔ s.Due n := by
  rw [testCycle, decide_eq_true_eq]
  exact elapsed_iff (hs _ (.sCycle hn)) (hs _ (.due hn)) (hs _ .cycle)

section Steps

theorem Inv.setNext (h : s.Inv p) {start : Time} {delta : BitVec 32}
    (hs : s.Spans [start, start + delta]) : (s.setNext start delta).Inv p := by
  obtain ⟨o, hl, ht⟩ := hs
  have hst : Near o start := ht _ (by simp)
  have hd : Near o (start + delta) := ht _ (by simp)
  refine ⟨h.listed, fun n hn => ?_, ?_⟩
  · exact (h.pending n hn).imp_left fun hnl =>
      lower_notLater (hl _ .nextEvent) hst hd (hl _ (.due hn)) hnl
  · exact h.counter.imp_left fun hnl =>
      lower_notLater (hl _ .nextEvent) hst hd (hl _ .counterDue) hnl

theorem Inv.int (h : s.Inv p) {n : Event} {e : BitVec 32} (hn : n ∈ p.listed)
    (hs : s.Spans [s.cycle + e]) : (s.int n e).Inv p := by
  obtain ⟨o, hl, ht⟩ := hs
  have hc : Near o s.cycle := hl _ .cycle
  have hd : Near o (s.cycle + e) := ht _ (by simp)
  have hx : Near o s.nextEvent := hl _ .nextEvent
  refine ⟨fun m hm => ?_, fun m hm => ?_, ?_⟩
  · by_cases hmn : m = n
    · rwa [hmn]
    · exact h.listed m (by simpa [Cpu.int, Cpu.setNext, hmn] using hm)
  · by_cases hmn : m = n
    · left
      rw [hmn]
      simpa [Cpu.int, Cpu.setNext, Cpu.due] using lower_notLater_delta hx hc hd
    · have hm' : s.interrupt m = true := by simpa [Cpu.int, Cpu.setNext, hmn] using hm
      have hdue : (s.int n e).due m = s.due m := by simp [Cpu.int, Cpu.setNext, Cpu.due, hmn]
      rw [hdue]
      exact (h.pending m hm').imp_left fun hnl => lower_notLater hx hc hd (hl _ (.due hm')) hnl
  · exact h.counter.imp_left fun hnl => lower_notLater hx hc hd (hl _ .counterDue) hnl

theorem Inv.clearInt (h : s.Inv p) (n : Event) : (s.clearInt n).Inv p := by
  have hm (m : Event) (hm : (s.clearInt n).interrupt m = true) : s.interrupt m = true := by
    by_cases hmn : m = n
    · simp [Cpu.clearInt, hmn] at hm
    · simpa [Cpu.clearInt, hmn] using hm
  exact ⟨fun m h' => h.listed m (hm m h'), fun m h' => h.pending m (hm m h'), h.counter⟩

theorem Inv.advance (h : s.Inv p) (k : BitVec 32) : (s.advance k).Inv p :=
  ⟨h.listed, h.pending, h.counter⟩

theorem ToTest.tail {n : Event} {k : Task} {ts ts' : List Task} (ht : s.tasks = k :: ts)
    (hts : ∀ k ∈ ts, k ∈ ts') (h : s.ToTest p n)
    (hk : (k = .test n ∨ (k = .first ∧ n ∈ p.listed) ∨ (k = .rest ∧ n ∈ p.rest)) →
      ToTest { s with tasks := ts' } p n) : ToTest { s with tasks := ts' } p n := by
  rw [ToTest, ht] at h
  simp only [List.mem_cons] at h
  rcases h with (h | h) | ⟨h | h, hn⟩ | ⟨h | h, hn⟩
  · exact hk (Or.inl h.symm)
  · exact Or.inl (hts _ h)
  · exact hk (Or.inr (Or.inl ⟨h.symm, hn⟩))
  · exact Or.inr (Or.inl ⟨hts _ h, hn⟩)
  · exact hk (Or.inr (Or.inr ⟨h.symm, hn⟩))
  · exact Or.inr (Or.inr ⟨hts _ h, hn⟩)

theorem test_cases (n : Event) :
    (s.interrupt n = false ∧ s.test n = s) ∨
    (s.interrupt n = true ∧ s.testCycle (s.sCycle n) (s.eCycle n) = true ∧
      s.test n = { s.clearInt n with calls := Function.update s.calls n (s.calls n + 1) }) ∨
    (s.interrupt n = true ∧ s.testCycle (s.sCycle n) (s.eCycle n) = false ∧
      s.test n = s.setNext (s.sCycle n) (s.eCycle n)) := by
  rw [test]
  cases hn : s.interrupt n
  · exact Or.inl ⟨rfl, rfl⟩
  cases hc : s.testCycle (s.sCycle n) (s.eCycle n)
  · exact Or.inr (Or.inr ⟨rfl, rfl, rfl⟩)
  · exact Or.inr (Or.inl ⟨rfl, rfl, rfl⟩)

theorem ToTest.other {n m : Event} {ts : List Task} (h : s.ToTest p m)
    (ht : s.tasks = .test n :: ts) (hm : m ≠ n) : ToTest { s with tasks := ts } p m := by
  refine h.tail ht (fun _ hk => hk) fun hk => ?_
  rcases hk with hk | ⟨hk, -⟩ | ⟨hk, -⟩
  · exact absurd (Task.test.inj hk).symm hm
  · exact absurd hk (by simp)
  · exact absurd hk (by simp)

theorem Inv.test (h : s.Inv p) {n : Event} {ts : List Task} (ht : s.tasks = .test n :: ts)
    (hs : s.Spans []) : Inv { s.test n with tasks := ts } p := by
  have hfin (hf : Task.finish ∈ s.tasks) : Task.finish ∈ ts := by
    rw [ht] at hf
    exact (List.mem_cons.mp hf).resolve_left (by simp)
  have hother (m : Event) (hm : m ≠ n) (htt : s.ToTest p m) :
      ToTest { s with tasks := ts } p m := htt.other ht hm
  rcases test_cases (s := s) n with ⟨hn, he⟩ | ⟨hn, -, he⟩ | ⟨hn, -, he⟩
  · rw [he]
    refine ⟨h.listed, fun m hm => (h.pending m hm).imp_right (hother m ?_), h.counter.imp_right hfin⟩
    rintro rfl
    simp [hn] at hm
  · rw [he]
    have hc := h.clearInt n
    refine ⟨hc.listed, fun m hm => (hc.pending m hm).imp_right (hother m ?_), hc.counter.imp_right hfin⟩
    rintro rfl
    simp [Cpu.clearInt] at hm
  · rw [he]
    obtain ⟨o, hl, -⟩ := hs
    have hx : Near o s.nextEvent := hl _ .nextEvent
    have hst : Near o (s.sCycle n) := hl _ (.sCycle hn)
    have hd : Near o (s.sCycle n + s.eCycle n) := hl _ (.due hn)
    have hset : (s.setNext (s.sCycle n) (s.eCycle n)).Inv p := h.setNext ⟨o, hl, by
      simpa using ⟨hst, hd⟩⟩
    refine ⟨h.listed, fun m hm => ?_, hset.counter.imp_right hfin⟩
    by_cases hmn : m = n
    · rw [hmn]
      exact Or.inl (lower_notLater_delta hx hst hd)
    · exact (hset.pending m hm).imp_right (hother m hmn)

theorem ToTest.first {n : Event} {ts : List Task} (h : s.ToTest p n) (ht : s.tasks = .first :: ts)
    (hn : s.interrupt n = true) (hl : n ∈ p.listed) : (s.task p).ToTest p n := by
  rw [Cpu.task, ht]
  refine h.tail ht (fun _ hk => List.mem_append_right _ hk) fun hk => ?_
  rw [if_neg (fun hs => by simp [hs.2 n] at hn)]
  rcases List.mem_append.mp hl with hl | hl
  · exact Or.inl (by simp [hl])
  · exact Or.inr (Or.inr ⟨by simp, hl⟩)

theorem ToTest.rest {n : Event} {ts : List Task} (h : s.ToTest p n) (ht : s.tasks = .rest :: ts)
    (hn : s.interrupt n = true) : (s.task p).ToTest p n := by
  rw [Cpu.task, ht]
  refine h.tail ht (fun _ hk => List.mem_append_right _ hk) fun hk => ?_
  rcases hk with hk | ⟨hk, -⟩ | ⟨-, hl⟩
  · exact absurd hk (by simp)
  · exact absurd hk (by simp)
  · rw [if_pos ⟨n, hl, hn⟩]
    exact Or.inl (by simp [hl])

theorem Inv.first (h : s.Inv p) {ts : List Task} (ht : s.tasks = .first :: ts) :
    (s.task p).Inv p := by
  have htest (m : Event) (hm : s.interrupt m = true) (htt : s.ToTest p m) :=
    htt.first ht hm (h.listed m hm)
  rw [Cpu.task, ht] at htest ⊢
  refine ⟨h.listed, fun m hm => (h.pending m hm).imp_right (htest m hm),
    h.counter.imp_right fun hf => ?_⟩
  rw [ht] at hf
  exact List.mem_append_right _ ((List.mem_cons.mp hf).resolve_left (by simp))

theorem Inv.rest (h : s.Inv p) {ts : List Task} (ht : s.tasks = .rest :: ts) :
    (s.task p).Inv p := by
  have htest (m : Event) (hm : s.interrupt m = true) (htt : s.ToTest p m) := htt.rest ht hm
  rw [Cpu.task, ht] at htest ⊢
  refine ⟨h.listed, fun m hm => (h.pending m hm).imp_right (htest m hm),
    h.counter.imp_right fun hf => ?_⟩
  rw [ht] at hf
  exact List.mem_append_right _ ((List.mem_cons.mp hf).resolve_left (by simp))

theorem Inv.task (h : s.Inv p) (hs : s.Spans []) : (s.task p).Inv p := by
  cases ht : s.tasks with
  | nil => rwa [Cpu.task, ht]
  | cons k ts =>
    cases k with
    | counters => rwa [Cpu.task, ht]
    | rcntSet => rwa [Cpu.task, ht]
    | finish => rwa [Cpu.task, ht]
    | first => exact h.first ht
    | rest => exact h.rest ht
    | test n =>
      rw [Cpu.task, ht]
      exact h.test ht hs

end Steps

end Cpu

end OmegaRed.Events
