import OmegaRed.Events.Scheduler
import Mathlib.Tactic.Ring

/-! The counters of the two processors, as far as they reschedule the next counter event. -/

namespace OmegaRed.Events

open Lib.Deadlines

/-- `Counter` of the EE. -/
structure Counter where
  isCounting : Bool
  clockSource : BitVec 2
  count : BitVec 32
  target : BitVec 32
  rate : BitVec 32
  sCycleT : Time

/-- `SyncCounter` -/
structure SyncCounter where
  sCycle : Time
  cycleT : BitVec 32

/-- `psxCounter`, for the six hardware counters -/
structure PsxCounter where
  count : BitVec 64
  target : BitVec 64
  mode : BitVec 32
  rate : BitVec 32
  sCycleT : Time

/-- `psxCounter`, for the updates of SPU2 and USB -/
structure Async where
  sCycleT : Time
  cycleT : BitVec 32

namespace SyncCounter

def due (c : SyncCounter) : Time := c.sCycle + c.cycleT

end SyncCounter

namespace Counter

variable (c : Counter)

def stopped : Bool := !c.isCounting || c.clockSource == 3

/-- The overflow or the target has just passed. -/
def passed : Bool := decide (0x10000 < c.count) || decide (c.target < c.count)

def overshot : Bool := !c.stopped && c.passed

/-- `EECNT_FUTURE_TARGET` -/
def future : Bool := c.target &&& 0x10000000 != 0

def toOverflow : BitVec 32 := (0x10000 - c.count) * c.rate

def toTarget : BitVec 32 := (c.target - c.count) * c.rate

/-- The points of time that `_rcntSet` schedules from the counter. -/
def times (start : Time) : List Time :=
  if c.stopped then []
  else if c.passed then [start + 4]
  else if c.future then [c.sCycleT + c.toOverflow]
  else [c.sCycleT + c.toOverflow, c.sCycleT + c.toTarget]

end Counter

namespace PsxCounter

variable (cntidx : Fin 6) (c : PsxCounter)

def overflowCap : BitVec 64 := if 3 ≤ cntidx.val then 0x100000000 else 0x10000

/-- `IOPCNT_STOPPED`, `PSXHBLANK` -/
def stopped : Bool := c.mode &&& 0x10000000 != 0 || c.rate == 0x2001

def passed : Bool := decide (overflowCap cntidx < c.count) || decide (c.target < c.count)

def overshot : Bool := !c.stopped && c.passed cntidx

/-- `IOPCNT_FUTURE_TARGET` -/
def future : Bool := c.target &&& 0x1000000000 != 0

def toOverflow : BitVec 64 := (overflowCap cntidx - c.count) * c.rate.setWidth 64

def toTarget : BitVec 64 := (c.target - c.count) * c.rate.setWidth 64

/-- Without a delay that is negative already, the comparison as `u64` takes only sooner points. -/
def times (start : Time) (next : BitVec 32) : List Time :=
  if c.stopped then []
  else if c.passed cntidx then [start + 4]
  else if 0 ≤ next.toInt then []
  else if c.future then [c.sCycleT + (c.toOverflow cntidx).setWidth 32]
  else [c.sCycleT + (c.toOverflow cntidx).setWidth 32, c.sCycleT + c.toTarget.setWidth 32]

end PsxCounter

namespace Cpu

variable (s : Cpu)

/-- `nextCounter = c; cpuSetNextEvent(nextsCounter, nextCounter)`, when that is sooner. -/
def setDelay (c : BitVec 32) : Cpu :=
  if c.toInt < s.nextCounter.toInt then (s.setCounter s.nextsCounter c).setNext s.nextsCounter c
  else s

/-- The same, compared as `u64`. -/
def setDelay64 (c : BitVec 64) : Cpu :=
  if c < s.nextCounter.signExtend 64 then
    (s.setCounter s.nextsCounter (c.setWidth 32)).setNext s.nextsCounter (c.setWidth 32)
  else s

/-- A delay from `sCycleT` on as a delay from `nextsCounter` on. -/
def delay (x : BitVec 32) (sCycleT : Time) : BitVec 32 :=
  x - (s.cycle - sCycleT) + (s.cycle - s.nextsCounter)

def delay64 (x : BitVec 64) (sCycleT : Time) : BitVec 64 :=
  x - (s.cycle - sCycleT).setWidth 64 + (s.cycle - s.nextsCounter).setWidth 64

/-- `_rcntSet` of the EE -/
def rcntSet (c : Counter) : Cpu :=
  if c.stopped then s
  else if c.passed then s.setCounter s.nextsCounter 4
  else
    let s' := s.setDelay (s.delay c.toOverflow c.sCycleT)
    if c.future then s' else s'.setDelay (s'.delay c.toTarget c.sCycleT)

/-- `cpuRcntSet` -/
def cpuRcntSet (vsync : SyncCounter) (c : Fin 4 → Counter) : Cpu :=
  let s' := (List.ofFn c).foldl rcntSet
    (s.setCounter s.cycle (vsync.cycleT - (s.cycle - vsync.sCycle)))
  if s'.nextCounter.toInt < 0 then s'.setCounter s'.nextsCounter 0 else s'

/-- `_rcntSet` of the IOP -/
def psxRcntSet (cntidx : Fin 6) (c : PsxCounter) : Cpu :=
  if c.stopped then s
  else if c.passed cntidx then s.setCounter s.nextsCounter 4
  else
    let s' := s.setDelay64 (s.delay64 (c.toOverflow cntidx) c.sCycleT)
    if c.future then s' else s'.setDelay64 (s'.delay64 c.toTarget c.sCycleT)

/-- The delay until the next update of SPU2 or USB; an update that is due runs now. -/
def asyncDelay (a : Async) : BitVec 32 :=
  if a.cycleT.toInt ≤ (s.cycle - a.sCycleT).toInt then a.cycleT
  else a.cycleT - (s.cycle - a.sCycleT)

/-- What the updates leave in `psxNextCounter`. -/
def updateDelay (spu2 usb : Option Async) : BitVec 32 :=
  let c := spu2.elim 0x7fffffff s.asyncDelay
  usb.elim c fun a => if (s.asyncDelay a).toInt < c.toInt then s.asyncDelay a else c

/-- `psxRcntUpdate`, from the counters as its target and overflow tests leave them. -/
def psxRcntUpdate (spu2 usb : Option Async) (c : Fin 6 → PsxCounter) : Cpu :=
  (List.finRange 6).foldl (fun s i => s.psxRcntSet i (c i))
    ({ s with nextEvent := s.cycle + 32 }.setCounter s.cycle (s.updateDelay spu2 usb))

/-- The delay that `psxDmaGeneric` leaves in `psxNextCounter`. -/
def dmaDelay (size : BitVec 32) : BitVec 32 :=
  let c := s.nextCounter - (s.cycle - s.nextsCounter)
  if (size * 3).toInt < c.toInt then size * 3 else c

/-- `psxDmaGeneric`, which brings the next SPU2 update forward. -/
def psxDma (size : BitVec 32) : Cpu :=
  { s.setCounter s.cycle (s.dmaDelay size) with
    nextEvent :=
      if s.nextEvent - s.cycle > s.dmaDelay size then s.cycle + s.dmaDelay size else s.nextEvent }

/-- What a rescheduling of the counters leaves as it is. -/
def kept : Cpu := { s with nextEvent := 0, nextsCounter := 0, nextCounter := 0 }

/-- The invariant, with the live points near `o`. -/
structure Good (p : Proc) (o : Time) : Prop where
  near : ∀ t, s.Live t → Near o t
  inv : s.Inv p

variable {s} {p : Proc} {o : Time}

@[simp] theorem delay_due (x : BitVec 32) (sCycleT : Time) :
    s.nextsCounter + s.delay x sCycleT = sCycleT + x := by
  rw [delay]
  ring

@[simp] theorem delay64_due (x : BitVec 64) (sCycleT : Time) :
    s.nextsCounter + (s.delay64 x sCycleT).setWidth 32 = sCycleT + x.setWidth 32 := by
  have hadd (a b : BitVec 64) : (a + b).setWidth 32 = a.setWidth 32 + b.setWidth 32 :=
    BitVec.setWidth_add a b (by decide)
  have hsub (a b : BitVec 64) : (a - b).setWidth 32 = a.setWidth 32 - b.setWidth 32 := by
    apply BitVec.eq_of_toNat_eq
    simp
    omega
  have hset (a : BitVec 32) : (a.setWidth 64).setWidth 32 = a := by simp
  rw [delay64, hadd, hsub, hset, hset]
  ring

@[simp] theorem setDelay_nextsCounter (c : BitVec 32) :
    (s.setDelay c).nextsCounter = s.nextsCounter := by
  rw [setDelay]
  split <;> rfl

@[simp] theorem setDelay64_nextsCounter (c : BitVec 64) :
    (s.setDelay64 c).nextsCounter = s.nextsCounter := by
  rw [setDelay64]
  split <;> rfl

@[simp] theorem setDelay_kept (c : BitVec 32) : (s.setDelay c).kept = s.kept := by
  rw [setDelay]
  split <;> rfl

@[simp] theorem setDelay64_kept (c : BitVec 64) : (s.setDelay64 c).kept = s.kept := by
  rw [setDelay64]
  split <;> rfl

@[simp] theorem rcntSet_nextsCounter (c : Counter) :
    (s.rcntSet c).nextsCounter = s.nextsCounter := by
  rw [rcntSet]
  split
  · rfl
  split
  · rfl
  · split <;> simp

theorem rcntSet_kept (c : Counter) : (s.rcntSet c).kept = s.kept := by
  rw [rcntSet]
  split
  · rfl
  split
  · rfl
  · split <;> simp

theorem psxRcntSet_kept (i : Fin 6) (c : PsxCounter) : (s.psxRcntSet i c).kept = s.kept := by
  rw [psxRcntSet]
  split
  · rfl
  split
  · rfl
  · split <;> simp

theorem cpuRcntSet_kept (vsync : SyncCounter) (c : Fin 4 → Counter) :
    (s.cpuRcntSet vsync c).kept = s.kept := by
  have hfold (cs : List Counter) (t : Cpu) : (cs.foldl rcntSet t).kept = t.kept := by
    induction cs generalizing t with
    | nil => rfl
    | cons c cs ih => rw [List.foldl_cons, ih, rcntSet_kept]
  rw [cpuRcntSet]
  split
  · exact hfold _ _
  · exact hfold _ _

theorem psxRcntUpdate_kept (spu2 usb : Option Async) (c : Fin 6 → PsxCounter) :
    (s.psxRcntUpdate spu2 usb c).kept = s.kept := by
  have hfold (is : List (Fin 6)) (t : Cpu) :
      (is.foldl (fun s i => s.psxRcntSet i (c i)) t).kept = t.kept := by
    induction is generalizing t with
    | nil => rfl
    | cons i is ih => rw [List.foldl_cons, ih, psxRcntSet_kept]
  exact hfold _ _

theorem psxDma_kept (size : BitVec 32) : (s.psxDma size).kept = s.kept := rfl

theorem Good.of_kept {s' : Cpu} (h : s.Good p o) (hk : s'.kept = s.kept)
    (hx : Near o s'.nextEvent) (hs : Near o s'.nextsCounter) (hd : Near o s'.counterDue)
    (hp : (∀ t, Near o t → NotLater s.nextEvent t → NotLater s'.nextEvent t) ∨ .first ∈ s.tasks)
    (hc : NotLater s'.nextEvent s'.counterDue ∨ .finish ∈ s.tasks) : s'.Good p o := by
  have hcycle : s'.cycle = s.cycle := (congrArg Cpu.cycle hk :)
  have hint : s'.interrupt = s.interrupt := (congrArg Cpu.interrupt hk :)
  have hsc : s'.sCycle = s.sCycle := (congrArg Cpu.sCycle hk :)
  have hec : s'.eCycle = s.eCycle := (congrArg Cpu.eCycle hk :)
  have htasks : s'.tasks = s.tasks := (congrArg Cpu.tasks hk :)
  have hdue (n : Event) : s'.due n = s.due n := by rw [due, due, hsc, hec]
  refine ⟨fun t ht => ?_, fun n hn => ?_, fun n hn => ?_, ?_⟩
  · cases ht with
    | cycle => exact hcycle ▸ h.near _ .cycle
    | nextEvent => exact hx
    | nextsCounter => exact hs
    | counterDue => exact hd
    | @sCycle n hn => exact hsc ▸ h.near _ (.sCycle (hint ▸ hn))
    | @due n hn => exact hdue n ▸ h.near _ (.due (hint ▸ hn))
  · exact h.inv.listed n (hint ▸ hn)
  · have hn' : s.interrupt n = true := hint ▸ hn
    rw [hdue, ToTest, htasks]
    rcases hp with hp | hp
    · exact (h.inv.pending n hn').imp_left (hp _ (h.near _ (.due hn')))
    · exact Or.inr (Or.inr (Or.inl ⟨hp, h.inv.listed n hn'⟩))
  · rwa [htasks]

theorem Good.setNext (h : s.Good p o) {start : Time} {delta : BitVec 32} (hs : Near o start)
    (hd : Near o (start + delta)) : (s.setNext start delta).Good p o := by
  have hx := h.near _ .nextEvent
  have hcd := h.near _ .counterDue
  refine h.of_kept rfl (near_lower hx hd) (h.near _ .nextsCounter) hcd
    (Or.inl fun t ht => lower_notLater hx hs hd ht) ?_
  exact h.inv.counter.imp_left (lower_notLater hx hs hd hcd)

theorem Good.setCounter (h : s.Good p o) {start : Time} {delta : BitVec 32} (hs : Near o start)
    (hd : Near o (start + delta))
    (hc : NotLater s.nextEvent (start + delta) ∨ .finish ∈ s.tasks) :
    (s.setCounter start delta).Good p o :=
  h.of_kept rfl (h.near _ .nextEvent) hs hd (Or.inl fun _ _ ht => ht) hc

theorem Good.setCounterNext (h : s.Good p o) {start : Time} {delta : BitVec 32} (hs : Near o start)
    (hd : Near o (start + delta)) : ((s.setCounter start delta).setNext start delta).Good p o := by
  have hx := h.near _ .nextEvent
  refine h.of_kept rfl (near_lower hx hd) hs hd (Or.inl fun t ht => lower_notLater hx hs hd ht) ?_
  exact Or.inl (lower_notLater_delta hx hs hd)

theorem Good.setDelay (h : s.Good p o) {c : BitVec 32} (hd : Near o (s.nextsCounter + c)) :
    (s.setDelay c).Good p o := by
  rw [Cpu.setDelay]
  split
  · exact h.setCounterNext (h.near _ .nextsCounter) hd
  · exact h

theorem Good.setDelay64 (h : s.Good p o) {c : BitVec 64}
    (hd : Near o (s.nextsCounter + c.setWidth 32)) : (s.setDelay64 c).Good p o := by
  rw [Cpu.setDelay64]
  split
  · exact h.setCounterNext (h.near _ .nextsCounter) hd
  · exact h

theorem Good.rcntSet (h : s.Good p o) {c : Counter} (ht : ∀ t ∈ c.times s.nextsCounter, Near o t)
    (hp : c.overshot → NotLater s.nextEvent (s.nextsCounter + 4) ∨ .finish ∈ s.tasks) :
    (s.rcntSet c).Good p o := by
  rw [Cpu.rcntSet]
  rw [Counter.times] at ht
  split
  · exact h
  next hst =>
  rw [if_neg hst] at ht
  split
  · next hpa =>
    rw [if_pos hpa] at ht
    exact h.setCounter (h.near _ .nextsCounter) (ht _ (by simp))
      (hp (by simp [Counter.overshot, hst, hpa]))
  next hpa =>
  rw [if_neg hpa] at ht
  split
  · next hfu =>
    rw [if_pos hfu] at ht
    exact h.setDelay (by simpa using ht)
  · next hfu =>
    rw [if_neg hfu] at ht
    refine (h.setDelay ?_).setDelay ?_
    · simpa using ht _ (by simp)
    · simpa only [delay_due] using ht _ (by simp)

theorem Good.foldl_rcntSet (cs : List Counter) (h : s.Good p o)
    (ht : ∀ c ∈ cs, ∀ t ∈ c.times s.nextsCounter, Near o t)
    (hp : .finish ∈ s.tasks ∨ ∀ c ∈ cs, c.overshot = false) :
    (cs.foldl Cpu.rcntSet s).Good p o := by
  induction cs generalizing s with
  | nil => exact h
  | cons c cs ih =>
    have htasks : (s.rcntSet c).tasks = s.tasks := (congrArg Cpu.tasks (rcntSet_kept c) :)
    refine ih (h.rcntSet (ht c (by simp)) fun ho => ?_) ?_ ?_
    · refine Or.inr (hp.resolve_right fun hp => ?_)
      simp [hp c (by simp)] at ho
    · rw [rcntSet_nextsCounter]
      exact fun c' hc' => ht c' (List.mem_cons_of_mem _ hc')
    · rw [htasks]
      exact hp.imp_right fun hp c' hc' => hp c' (List.mem_cons_of_mem _ hc')

theorem Good.cpuRcntSet (h : s.Good p o) {vsync : SyncCounter} {c : Fin 4 → Counter}
    (hv : Near o vsync.due) (ht : ∀ i, ∀ t ∈ (c i).times s.cycle, Near o t)
    (hp : .finish ∈ s.tasks ∨
      (NotLater s.nextEvent vsync.due ∧ ∀ i, (c i).overshot = false)) :
    (s.cpuRcntSet vsync c).Good p o := by
  have hdue : s.cycle + (vsync.cycleT - (s.cycle - vsync.sCycle)) = vsync.due := by
    rw [SyncCounter.due]
    ring
  have h1 : (s.setCounter s.cycle (vsync.cycleT - (s.cycle - vsync.sCycle))).Good p o := by
    refine h.setCounter (h.near _ .cycle) (by rwa [hdue]) ?_
    rw [hdue]
    exact hp.symm.imp_left And.left
  have h2 := h1.foldl_rcntSet (List.ofFn c) (List.forall_mem_ofFn_iff.mpr ht)
    (hp.imp_right fun hp => List.forall_mem_ofFn_iff.mpr hp.2)
  rw [Cpu.cpuRcntSet]
  split
  · next hneg =>
    -- the counter event was due before `nextsCounter` already
    have hns := h2.near _ .nextsCounter
    have hcd := h2.near _ .counterDue
    have hx := h2.near _ .nextEvent
    refine h2.setCounter hns (by simpa using hns) (h2.inv.counter.imp_left fun hc => ?_)
    rw [show ∀ t : Time, t + 0 = t from BitVec.add_zero]
    refine hc.trans hx hcd hns ?_
    rw [notLater_iff hcd hns]
    rw [toInt_delta hns hcd] at hneg
    exact Int.ofNat_le.mp (by rw [counterDue]; omega)
  · exact h2

theorem Good.setDelay64_of_nonneg (h : s.Good p o) (h0 : 0 ≤ s.nextCounter.toInt) (c : BitVec 64) :
    (s.setDelay64 c).Good p o ∧ 0 ≤ (s.setDelay64 c).nextCounter.toInt := by
  rw [Cpu.setDelay64]
  split
  · next hc =>
    have hle : (c.setWidth 32).toNat ≤ s.nextCounter.toNat ∧ 0 ≤ (c.setWidth 32).toInt := by
      have hl := s.nextCounter.isLt
      rw [BitVec.lt_def, BitVec.signExtend_eq_setWidth_of_msb_false (by
        rw [BitVec.msb_eq_toInt]; simpa using h0)] at hc
      simp only [BitVec.toNat_setWidth, BitVec.toInt_eq_toNat_cond] at hc h0 ⊢
      split at h0 <;> split <;> omega
    exact ⟨h.setCounterNext (h.near _ .nextsCounter)
      (near_of_le (h.near _ .nextsCounter) (h.near _ .counterDue) h0 hle.1), hle.2⟩
  · exact ⟨h, h0⟩

theorem Good.psxRcntSet_of_nonneg (h : s.Good p o) (h0 : 0 ≤ s.nextCounter.toInt) {i : Fin 6}
    {c : PsxCounter} (hp : c.overshot i = false) :
    (s.psxRcntSet i c).Good p o ∧ 0 ≤ (s.psxRcntSet i c).nextCounter.toInt := by
  rw [Cpu.psxRcntSet]
  split
  · exact ⟨h, h0⟩
  next hst =>
  rw [if_neg (by simpa [PsxCounter.overshot, hst] using hp)]
  have h1 := h.setDelay64_of_nonneg h0 (s.delay64 (c.toOverflow i) c.sCycleT)
  split
  · exact h1
  · exact h1.1.setDelay64_of_nonneg h1.2 _

theorem Good.psxRcntSet (h : s.Good p o) {i : Fin 6} {c : PsxCounter}
    (ht : ∀ t ∈ c.times i s.nextsCounter s.nextCounter, Near o t)
    (hp : c.overshot i → NotLater s.nextEvent (s.nextsCounter + 4) ∨ .finish ∈ s.tasks) :
    (s.psxRcntSet i c).Good p o := by
  by_cases h0 : 0 ≤ s.nextCounter.toInt ∧ c.overshot i = false
  · exact (h.psxRcntSet_of_nonneg h0.1 h0.2).1
  rw [Cpu.psxRcntSet]
  rw [PsxCounter.times] at ht
  split
  · exact h
  next hst =>
  rw [if_neg hst] at ht
  split
  · next hpa =>
    rw [if_pos hpa] at ht
    exact h.setCounter (h.near _ .nextsCounter) (ht _ (by simp))
      (hp (by simp [PsxCounter.overshot, hst, hpa]))
  next hpa =>
  rw [if_neg hpa, if_neg (fun hn => h0 ⟨hn, by simp [PsxCounter.overshot, hpa]⟩)] at ht
  split
  · next hfu =>
    rw [if_pos hfu] at ht
    exact h.setDelay64 (by simpa using ht)
  · next hfu =>
    rw [if_neg hfu] at ht
    refine (h.setDelay64 ?_).setDelay64 ?_
    · simpa using ht _ (by simp)
    · simpa only [delay64_due] using ht _ (by simp)

theorem Good.psxRcntUpdate (h : s.Good p o) {spu2 usb : Option Async} {c : Fin 6 → PsxCounter}
    (h32 : Near o (s.cycle + 32)) (hd : Near o (s.cycle + s.updateDelay spu2 usb))
    (hle : 32 ≤ (s.updateDelay spu2 usb).toInt) (hp : ∀ i, (c i).overshot i = false)
    (hf : .first ∈ s.tasks) : (s.psxRcntUpdate spu2 usb c).Good p o := by
  have hc := h.near _ .cycle
  have hstart : ({ s with nextEvent := s.cycle + 32 }.setCounter s.cycle
      (s.updateDelay spu2 usb)).Good p o := by
    refine h.of_kept rfl h32 hc hd (Or.inr hf) (Or.inl ?_)
    refine (notLater_iff h32 hd).mpr ?_
    have h1 := toInt_delta hc h32
    have h2 := toInt_delta hc hd
    have h3 : (32 : BitVec 32).toInt = 32 := rfl
    omega
  have hfold (is : List (Fin 6)) (t : Cpu) (hg : t.Good p o) (h0 : 0 ≤ t.nextCounter.toInt) :
      (is.foldl (fun s i => s.psxRcntSet i (c i)) t).Good p o := by
    induction is generalizing t with
    | nil => exact hg
    | cons i is ih =>
      obtain ⟨hg', h0'⟩ := hg.psxRcntSet_of_nonneg h0 (hp i)
      exact ih _ hg' h0'
  exact hfold _ _ hstart ((show (0 : Int) ≤ 32 by decide).trans hle)

theorem psxDma_of_nonneg {size : BitVec 32} (hx : 0 ≤ (s.nextEvent - s.cycle).toInt)
    (hd : 0 ≤ (s.dmaDelay size).toInt) :
    s.psxDma size = (s.setCounter s.cycle (s.dmaDelay size)).setNext s.cycle (s.dmaDelay size) := by
  have hiff : s.nextEvent - s.cycle > s.dmaDelay size ↔
      (s.nextEvent - s.cycle).toInt > (s.dmaDelay size).toInt := by
    rw [gt_iff_lt, BitVec.lt_def]
    rw [BitVec.toInt_eq_toNat_cond] at hx hd ⊢
    rw [BitVec.toInt_eq_toNat_cond]
    split at hx <;> split at hd <;> simp_all <;> omega
  rw [psxDma, Cpu.setNext, lower]
  congr 1
  exact if_congr hiff rfl rfl

theorem Good.psxDma (h : s.Good p o) {size : BitVec 32} (hx : 0 ≤ (s.nextEvent - s.cycle).toInt)
    (hsz : 0 ≤ (size * 3).toInt) (hd : Near o (s.cycle + size * 3)) : (s.psxDma size).Good p o := by
  have hc := h.near _ .cycle
  have hcd := h.near _ .counterDue
  have hsame : s.cycle + (s.nextCounter - (s.cycle - s.nextsCounter)) = s.counterDue := by
    rw [counterDue]
    ring
  have hdelay : s.dmaDelay size = size * 3 ∨ (s.cycle + s.dmaDelay size = s.counterDue) := by
    rw [dmaDelay]
    split
    · exact Or.inl rfl
    · exact Or.inr hsame
  have hnear : Near o (s.cycle + s.dmaDelay size) := by
    rcases hdelay with he | he
    · rwa [he]
    · rwa [he]
  by_cases hneg : 0 ≤ (s.dmaDelay size).toInt
  · rw [psxDma_of_nonneg hx hneg]
    exact h.setCounterNext hc hnear
  · have he : s.cycle + s.dmaDelay size = s.counterDue :=
      hdelay.resolve_left fun he => hneg (he ▸ hsz)
    have hfin : Task.finish ∈ s.tasks := by
      refine h.inv.counter.resolve_left fun hnl => hneg ?_
      rw [notLater_iff (h.near _ .nextEvent) hcd] at hnl
      rw [toInt_sub (h.near _ .nextEvent) hc] at hx
      rw [toInt_delta hc hnear, he]
      omega
    have hset : s.psxDma size = s.setCounter s.cycle (s.dmaDelay size) := by
      rw [Cpu.psxDma, if_neg]
      · rfl
      intro hgt
      rw [gt_iff_lt, BitVec.lt_def] at hgt
      rw [BitVec.toInt_eq_toNat_cond] at hx hneg
      have hl := (s.nextEvent - s.cycle).isLt
      split at hx <;> split at hneg <;> omega
    rw [hset]
    exact h.setCounter hc hnear (Or.inr hfin)

end Cpu

end OmegaRed.Events

/-! The two processors with their schedules, and the steps that a run is made of. -/

namespace OmegaRed.Events

open Lib.Deadlines

namespace EeEventType

def dmacVif0 : Event := ⟨0, by decide⟩
def dmacVif1 : Event := ⟨1, by decide⟩
def dmacGif : Event := ⟨2, by decide⟩
def dmacFromIpu : Event := ⟨3, by decide⟩
def dmacToIpu : Event := ⟨4, by decide⟩
def dmacSif0 : Event := ⟨5, by decide⟩
def dmacSif1 : Event := ⟨6, by decide⟩
def dmacFromSpr : Event := ⟨8, by decide⟩
def dmacToSpr : Event := ⟨9, by decide⟩
def dmacMfifoVif : Event := ⟨10, by decide⟩
def dmacMfifoGif : Event := ⟨11, by decide⟩
def vifVu0Finish : Event := ⟨17, by decide⟩
def vifVu1Finish : Event := ⟨18, by decide⟩

end EeEventType

namespace IopEvt

def sif2 : Event := ⟨0, by decide⟩
def cdvd : Event := ⟨1, by decide⟩
def sif0 : Event := ⟨2, by decide⟩
def sif1 : Event := ⟨3, by decide⟩
def dma11 : Event := ⟨4, by decide⟩
def dma12 : Event := ⟨5, by decide⟩
def sio : Event := ⟨6, by decide⟩
def cdrom : Event := ⟨7, by decide⟩
def cdromRead : Event := ⟨8, by decide⟩
def cdvdRead : Event := ⟨9, by decide⟩
def dev9 : Event := ⟨10, by decide⟩
def usb : Event := ⟨11, by decide⟩

end IopEvt

open EeEventType in
/-- `_cpuTestInterrupts` -/
def eeProc : Proc where
  first := [dmacVif1, dmacGif, dmacSif0, dmacSif1]
  rest := [dmacVif0, dmacFromIpu, dmacToIpu, dmacFromSpr, dmacToSpr, dmacMfifoVif, dmacMfifoGif,
    vifVu0Finish, vifVu1Finish]
  skips := false

open IopEvt in
/-- `_psxTestInterrupts`; `ps1` is bit 3 of `HW_ICFG`. -/
def iopProc (ps1 : Bool) : Proc where
  first := [sif0, sif1, sif2] ++ (if ps1 then [sio] else []) ++ [cdvdRead]
  rest := [cdvd, dma11, dma12, cdrom, cdromRead, dev9, usb]
  skips := true

inductive Side
  | ee
  | iop
  deriving DecidableEq, Repr

structure Config where
  /-- `CHECK_EETIMINGHACK` -/
  eeTimingHack : Bool
  ps1 : Bool

def Config.proc (conf : Config) : Side → Proc
  | .ee => eeProc
  | .iop => iopProc conf.ps1

/-- With the timing hack every event of the EE is 8 cycles away. -/
def Config.ecycle (conf : Config) (ecycle : BitVec 32) : BitVec 32 :=
  if conf.eeTimingHack then 8 else ecycle

structure Machine where
  ee : Cpu
  iop : Cpu
  /-- the cycles left of the IOP's time slice -/
  iopCycleEE : BitVec 32
  iopBreak : BitVec 32
  /-- `EEsCycle`, how far the EE is ahead of the IOP -/
  eesCycle : BitVec 32

def Machine.cpu (m : Machine) : Side → Cpu
  | .ee => m.ee
  | .iop => m.iop

/-- Applies `f` to the schedule of one processor. -/
def Machine.on (m : Machine) (side : Side) (f : Cpu → Cpu) : Machine :=
  side.casesOn { m with ee := f m.ee } { m with iop := f m.iop }

/-- What is done to the schedules, one after the other; a callback does its own after its test. -/
inductive Act
  | cpuInt (n : Event) (ecycle : BitVec 32)
  | psxInt (n : Event) (ecycle : BitVec 32)
  | clearInt (side : Side) (n : Event)
  /-- `cpuSetNextEvent`, `psxSetNextBranch` -/
  | setNextEvent (side : Side) (start : Time) (delta : BitVec 32)
  | advance (side : Side) (k : BitVec 32)
  /-- a new time slice of the IOP, or the end of one -/
  | slice (iopCycleEE iopBreak eesCycle : BitVec 32)
  | rcntSet (c : Counter)
  | updateVSyncRate (vsync : SyncCounter) (c : Fin 4 → Counter)
  | psxRcntSet (cntidx : Fin 6) (c : PsxCounter)
  | psxDma (size : BitVec 32)
  | eeEventTest
  | counters
  | rcntUpdate (vsync : SyncCounter) (c : Fin 4 → Counter)
  | finish (hsync : SyncCounter)
  | iopEventTest (spu2 usb : Option Async) (c : Fin 6 → PsxCounter)
  | task (side : Side)

namespace Cpu

variable (s : Cpu)

/-- The start of `_cpuEventTest_Shared`; 3072 is `eeWaitCycles`. -/
def eeEventTest : Cpu :=
  if s.tasks = [] then
    { s with nextEvent := s.cycle + 3072, tasks := [.counters, .first, .finish] }
  else s

/-- Whether the counters are updated. -/
def counters : Cpu :=
  match s.tasks with
  | .counters :: ts =>
    { s with tasks := if s.testCycle s.nextsCounter s.nextCounter then .rcntSet :: ts else ts }
  | _ => s

/-- The end of `rcntUpdate` -/
def rcntUpdate (vsync : SyncCounter) (c : Fin 4 → Counter) : Cpu :=
  match s.tasks with
  | .rcntSet :: ts => { s.cpuRcntSet vsync c with tasks := ts }
  | _ => s

/-- The next event that `_cpuEventTest_Shared` schedules at its end. -/
def nextEventTest (iopDelta eesCycle : BitVec 32) (hsync : SyncCounter) : Time :=
  let t₁ := if 192 < eesCycle.toInt then lower s.nextEvent s.cycle 48 else s.nextEvent
  let t₂ := lower t₁ s.cycle (iopDelta - eesCycle)
  let t₃ := lower t₂ hsync.sCycle hsync.cycleT
  lower t₃ s.nextsCounter s.nextCounter

/-- The end of `_cpuEventTest_Shared` -/
def finish (iopDelta eesCycle : BitVec 32) (hsync : SyncCounter) : Cpu :=
  match s.tasks with
  | .finish :: ts => { s with nextEvent := s.nextEventTest iopDelta eesCycle hsync, tasks := ts }
  | _ => s

/-- The start of `iopEventTest` -/
def iopEventTest (spu2 usb : Option Async) (c : Fin 6 → PsxCounter) : Cpu :=
  if s.tasks = [] then
    let s' := { s with tasks := [.first] }
    if s.testCycle s.nextsCounter s.nextCounter then s'.psxRcntUpdate spu2 usb c
    else { s' with nextEvent := s.counterDue }
  else s

end Cpu

namespace Machine

variable (conf : Config) (m : Machine)

/-- The cycles of the EE until the next event of the IOP. -/
def iopDelta : BitVec 32 := (m.iop.nextEvent - m.iop.cycle) * 8

/-- `CPU_INT` -/
def cpuInt (n : Event) (ecycle : BitVec 32) : Machine :=
  let m' := m.on .ee fun s => s.int n (conf.ecycle ecycle)
  if (conf.ecycle ecycle).toInt ≤ 28 ∧ 0 < m.iopCycleEE.toInt then
    { m' with iopBreak := m.iopBreak + m.iopCycleEE, iopCycleEE := 0 }
  else m'

/-- `PSX_INT` -/
def psxInt (n : Event) (ecycle : BitVec 32) : Machine :=
  let m' := m.on .iop fun s => s.int n ecycle
  if m.iopCycleEE.toInt < 0 then m'.on .ee fun s => s.setNext s.cycle m'.iopDelta else m'

def step : Act → Machine
  | .cpuInt n e => m.cpuInt conf n e
  | .psxInt n e => m.psxInt n e
  | .clearInt side n => m.on side fun s => s.clearInt n
  | .setNextEvent side start delta => m.on side fun s => s.setNext start delta
  | .advance side k => m.on side fun s => s.advance k
  | .slice c b e => { m with iopCycleEE := c, iopBreak := b, eesCycle := e }
  | .rcntSet c => m.on .ee fun s => s.rcntSet c
  | .updateVSyncRate v c => m.on .ee fun s => s.cpuRcntSet v c
  | .psxRcntSet i c => m.on .iop fun s => s.psxRcntSet i c
  | .psxDma size => m.on .iop fun s => s.psxDma size
  | .eeEventTest => m.on .ee Cpu.eeEventTest
  | .counters => m.on .ee Cpu.counters
  | .rcntUpdate v c => m.on .ee fun s => s.rcntUpdate v c
  | .finish h => m.on .ee fun s => s.finish m.iopDelta m.eesCycle h
  | .iopEventTest a b c => m.on .iop fun s => s.iopEventTest a b c
  | .task side => m.on side fun s => s.task (conf.proc side)

end Machine

end OmegaRed.Events
