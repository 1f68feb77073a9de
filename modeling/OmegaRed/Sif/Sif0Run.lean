import OmegaRed.Sif.Sif0Carry

/-! Runs of SIF0: the two sides are started in any order, and the loop always stops. -/

namespace OmegaRed.Sif.Sif0

open Lib Lib.Memory Relation

def sif0Interrupt (s : State) : State := { s with iop := { s.iop with interrupt := none } }

/-- `sifReset`, before the first start. -/
structure Initial (c : Chain) (mem : Nat → UInt32) (s : State) : Prop where
  fifo : s.fifo.Ok fifoSifW
  size : s.fifo.size = 0
  ee_busy : s.ee.busy = false
  iop_busy : s.iop.busy = false
  chainMode : s.ee.normalMode = false
  tie : s.ee.tie = c.tie
  qwc : s.ee.qwc = 0
  counter : s.iop.counter = 0
  sent : s.sent = 0
  received : s.received = 0
  eeMem : s.eeMem = mem

/-- A side is started when it is idle and tags are left for it; `SIF0Dma` can run at any time. -/
inductive Step (c : Chain) (s : State) : State → Prop
  | dmaSIF0 (hidle : s.ee.busy = false) (hint : s.ee.interrupt = none)
      (hleft : s.received < c.n) :
      Step c s (startEE { s with ee := { s.ee with str := true } })
  | psxDma9 (hidle : s.iop.busy = false) (hleft : s.sent < c.n) :
      Step c s (startIOP { s with iop := { s.iop with tadr := c.tags s.sent } })
  | init : Step c s (sif0Init s)
  | runIOP : Step c s (runIOP c.iopMem s)
  | runEE : Step c s (runEE s)
  | eeInterrupt (hint : s.ee.interrupt ≠ none) : Step c s (eesif0Interrupt s)
  | iopInterrupt (hint : s.iop.interrupt ≠ none) : Step c s (sif0Interrupt s)

def Reachable (c : Chain) (mem : Nat → UInt32) (s : State) : Prop :=
  ∃ s₀, Initial c mem s₀ ∧ ReflTransGen (Step c) s₀ s

section run

variable {c : Chain} {mem : Nat → UInt32} {s t : State}

theorem moves_iop : ReflTransGen (Move c.iopMem) s (runIOP c.iopMem s) := by
  cases h : iopCanRun s with
  | true => exact .single (move_runIOP h)
  | false => rw [runIOP, h]; exact .refl

theorem moves_ee : ReflTransGen (Move c.iopMem) s (runEE s) := by
  cases h : eeCanRun s with
  | true => exact (moves_runEE h).to_reflTransGen
  | false => rw [runEE, h]; exact .refl

theorem Sized.moves (h : Sized s) (hmoves : ReflTransGen (Move c.iopMem) s t) : Sized t := by
  induction hmoves with
  | refl => exact h
  | tail _ hmove ih => exact ih.move hmove

theorem Follows.moves (h : Follows c s) (hc : c.Linked)
    (hmoves : ReflTransGen (Move c.iopMem) s t) : Follows c t := by
  induction hmoves with
  | refl => exact h
  | tail _ hmove ih => exact ih.move hc hmove

/-- All that a move of a matched and placed chain keeps. -/
structure Inv (c : Chain) (mem : Nat → UInt32) (s : State) : Prop where
  sized : Sized s
  follows : Follows c s
  carries : Carries c mem s

theorem Inv.moves (h : Inv c mem s) (hl : c.Linked) (hc : c.Matched) (hp : c.Placed)
    (hmoves : ReflTransGen (Move c.iopMem) s t) : Inv c mem t := by
  induction hmoves with
  | refl => exact h
  | tail _ hmove ih =>
    exact ⟨ih.sized.move hmove, ih.follows.move hl hmove,
      ih.carries.move ih.sized ih.follows hc hp hmove⟩

theorem Sized.step (h : Sized s) (hstep : Step c s t) : Sized t := by
  cases hstep with
  | dmaSIF0 => exact ⟨h.fifo, h.size_mod, h.counter_nonneg, h.counter_mod⟩
  | psxDma9 => exact ⟨h.fifo, h.size_mod, h.counter_nonneg, h.counter_mod⟩
  | init => exact ⟨h.fifo, h.size_mod, h.counter_nonneg, h.counter_mod⟩
  | runIOP => exact h.moves moves_iop
  | runEE => exact h.moves (c := c) moves_ee
  | eeInterrupt => exact ⟨h.fifo, h.size_mod, h.counter_nonneg, h.counter_mod⟩
  | iopInterrupt => exact ⟨h.fifo, h.size_mod, h.counter_nonneg, h.counter_mod⟩

theorem Follows.step (h : Follows c s) (hc : c.Linked) (hstep : Step c s t) : Follows c t := by
  cases hstep with
  | dmaSIF0 => exact ⟨h.sent_le, h.next⟩
  | psxDma9 _ hleft => exact ⟨h.sent_le, fun _ _ => ⟨hleft, rfl⟩⟩
  | init => exact ⟨h.sent_le, h.next⟩
  | runIOP => exact h.moves hc moves_iop
  | runEE => exact h.moves hc moves_ee
  | eeInterrupt => exact ⟨h.sent_le, h.next⟩
  | iopInterrupt => exact ⟨h.sent_le, h.next⟩

theorem Inv.step (h : Inv c mem s) (hl : c.Linked) (hc : c.Matched) (hp : c.Placed)
    (hstep : Step c s t) : Inv c mem t := by
  have hsized := h.sized.step hstep
  have hfollows := h.follows.step hl hstep
  have hcarries := h.carries
  cases hstep with
  | dmaSIF0 hidle hint hleft =>
    exact ⟨hsized, hfollows, { hcarries with
      str := fun _ => rfl
      interrupt := fun _ => hint
      idle_qwc := fun hbusy => Bool.noConfusion hbusy
      waits := fun _ _ => hleft }⟩
  | psxDma9 =>
    exact ⟨hsized, hfollows, { hcarries with
      idle_counter := fun hbusy => Bool.noConfusion hbusy }⟩
  | init => exact ⟨hsized, hfollows, { hcarries with }⟩
  | runIOP => exact h.moves hl hc hp moves_iop
  | runEE => exact h.moves hl hc hp moves_ee
  | eeInterrupt hint =>
    exact ⟨hsized, hfollows, { hcarries with
      str := fun hbusy => absurd (hcarries.interrupt hbusy) hint
      interrupt := fun _ => rfl }⟩
  | iopInterrupt => exact ⟨hsized, hfollows, { hcarries with }⟩

theorem Initial.sized (h : Initial c mem s) : Sized s where
  fifo := h.fifo
  size_mod := by rw [h.size]; rfl
  counter_nonneg := by rw [h.counter]
  counter_mod := by rw [h.counter]; rfl

theorem Initial.follows (h : Initial c mem s) : Follows c s where
  sent_le := by rw [h.sent]; exact Nat.zero_le _
  next := fun hbusy => by rw [h.iop_busy] at hbusy; cases hbusy

theorem Initial.carries (h : Initial c mem s) : Carries c mem s where
  chainMode := h.chainMode
  tie := h.tie
  str := fun hbusy => by rw [h.ee_busy] at hbusy; cases hbusy
  interrupt := fun hbusy => by rw [h.ee_busy] at hbusy; cases hbusy
  idle_qwc := fun _ => h.qwc
  idle_counter := fun _ => h.counter
  waits := fun hbusy => by rw [h.ee_busy] at hbusy; cases hbusy
  source := by rw [h.counter]; exact inIopMem_zero _
  words := by
    refine ⟨[], [], 0, ?_, ?_, ?_, ?_, ?_⟩
    · rw [h.received, h.sent]
      exact .nil 0
    · rw [RingFifo.content, h.size, h.counter]
      rfl
    · rw [h.qwc]
      rfl
    · rw [h.qwc]
      intro k hk
      exact absurd hk (Nat.not_lt_zero k)
    · rw [h.received, store_nil, h.eeMem]
      rfl

theorem Reachable.sized (h : Reachable c mem s) : Sized s := by
  obtain ⟨s₀, hinit, hrun⟩ := h
  exact Run.invariant (fun _ _ hs hstep => hs.step hstep) hrun hinit.sized

theorem Reachable.follows (h : Reachable c mem s) (hc : c.Linked) : Follows c s := by
  obtain ⟨s₀, hinit, hrun⟩ := h
  exact Run.invariant (fun _ _ hs hstep => hs.step hc hstep) hrun hinit.follows

theorem Reachable.inv (h : Reachable c mem s) (hl : c.Linked) (hc : c.Matched) (hp : c.Placed) :
    Inv c mem s := by
  obtain ⟨s₀, hinit, hrun⟩ := h
  have hinv : Inv c mem s₀ := ⟨hinit.sized, hinit.follows, hinit.carries⟩
  exact Run.invariant (fun _ _ hs hstep => hs.step hl hc hp hstep) hrun hinv

end run

section loop

variable {c : Chain} {mem : Nat → UInt32} {s t : State}

/-- The words of the last `k` tags and their blocks. -/
def Chain.wordsLeft (c : Chain) : Nat → Nat
  | 0 => 0
  | k + 1 => 4 + c.count (c.n - (k + 1)) + c.wordsLeft k

/-- What is left to do: every word is written once and read once. -/
def work (c : Chain) (s : State) : Nat :=
  2 * (s.iop.counter.toNat + c.wordsLeft (c.n - s.sent)) + s.fifo.size.toNat +
    s.iop.busy.toNat + s.ee.busy.toNat + s.ee.str.toNat

theorem Chain.wordsLeft_sub {i : Nat} (h : i < c.n) :
    c.wordsLeft (c.n - i) = 4 + c.count i + c.wordsLeft (c.n - (i + 1)) := by
  rw [show c.n - i = c.n - (i + 1) + 1 by omega, wordsLeft,
    show c.n - (c.n - (i + 1) + 1) = i by omega]

theorem work_processIOPTag (hs : Sized s) (hf : Follows c s) (hbusy : s.iop.busy = true)
    (hcounter : s.iop.counter ≤ 0) (hended : s.iop.ended = false) :
    work c (processIOPTag c.iopMem s) < work c s := by
  obtain ⟨hlt, htadr⟩ := hf.next hbusy hended
  have hnonneg := hs.fifo.size_nonneg
  have hcount : (processIOPTag c.iopMem s).iop.counter.toNat = c.count s.sent := by
    simp only [processIOPTag, htadr]
    rfl
  have hsize : (processIOPTag c.iopMem s).fifo.size.toNat = s.fifo.size.toNat + 4 := by
    simp only [processIOPTag, RingFifo.bump, RingFifo.write, length_iopWords]
    omega
  rw [work, work, hcount, hsize, c.wordsLeft_sub hlt]
  simp only [processIOPTag]
  omega

theorem work_writeIOPtoFifo (hs : Sized s) (hcounter : 0 < s.iop.counter)
    (hfree : 0 < s.fifo.free fifoSifW) : work c (writeIOPtoFifo c.iopMem s) < work c s := by
  have hnonneg := hs.fifo.size_nonneg
  simp only [work, writeIOPtoFifo, RingFifo.write, length_iopWords]
  omega

theorem work_writeFifoToEE (hs : Sized s) (hstr : s.ee.str = true) (hqwc : 0 < s.ee.qwc)
    (hsize : 0 < s.fifo.size) : work c (writeFifoToEE s) < work c s := by
  have hmod := hs.size_mod
  rw [writeFifoToEE]
  split
  · simp only [work, hstr, Bool.toNat_false, Bool.toNat_true]
    omega
  · simp only [work, RingFifo.read]
    omega

theorem Move.work_lt (hmove : Move c.iopMem s t) (hs : Sized s) (hf : Follows c s) :
    work c t < work c s := by
  cases hmove with
  | endIOP hbusy =>
    simp only [work, Sif0.endIOP, hbusy, Bool.toNat_false, Bool.toNat_true]
    omega
  | tagIOP hbusy hcounter hended => exact work_processIOPTag hs hf hbusy hcounter hended
  | writeIOP _ hcounter hfree => exact work_writeIOPtoFifo hs hcounter hfree
  | stopEE hbusy =>
    simp only [work, hbusy, Bool.toNat_false, Bool.toNat_true]
    omega
  | endEE hbusy =>
    simp only [work, Sif0.endEE, hbusy, Bool.toNat_false, Bool.toNat_true]
    omega
  | tagEE _ _ _ _ _ hsize =>
    simp only [work, processEETag, RingFifo.read]
    omega
  | writeEE _ hstr hqwc hsize => exact work_writeFifoToEE hs hstr hqwc hsize

theorem work_moves (hmoves : TransGen (Move c.iopMem) s t) (hs : Sized s) (hf : Follows c s)
    (hc : c.Linked) : work c t < work c s := by
  induction hmoves with
  | single hmove => exact hmove.work_lt hs hf
  | tail hrun hmove ih =>
    have hrefl := hrun.to_reflTransGen
    exact Nat.lt_trans (hmove.work_lt (hs.moves hrefl) (hf.moves hc hrefl)) ih

theorem steps_round : ReflTransGen (Step c) s (round c.iopMem s) :=
  .tail (.single .runIOP) .runEE

/-- With fuel for the work left, the loop comes to a state in which no side can go on. -/
theorem sif0Loop_stops (hc : c.Linked) (fuel : Nat) (hs : Sized s) (hf : Follows c s)
    (hfuel : work c s < fuel) : ∃ t, sif0Loop c.iopMem fuel s = some t ∧
      ReflTransGen (Step c) s t ∧ iopCanRun t = false ∧ eeCanRun t = false := by
  induction fuel generalizing s with
  | zero => omega
  | succ fuel ih =>
    rw [sif0Loop]
    cases hbusy : busyCheck c.iopMem s with
    | false =>
      obtain ⟨hstays, hends⟩ := round_of_not_busy hbusy
      exact ⟨s, congrArg some hstays, .refl, hends⟩
    | true =>
      have hlt := work_moves (moves_round_of_busy hbusy) hs hf hc
      obtain ⟨t, hloop, hrun, hends⟩ :=
        ih (hs.moves moves_round) (hf.moves hc moves_round) (by omega)
      exact ⟨t, hloop, steps_round.trans hrun, hends⟩

theorem Reachable.sif0Dma_stops (h : Reachable c mem s) (hc : c.Linked) :
    ∃ fuel t, sif0Dma c.iopMem fuel s = some t ∧ Reachable c mem t ∧
      iopCanRun t = false ∧ eeCanRun t = false := by
  have hinit : Step c s (sif0Init s) := .init
  obtain ⟨t, hloop, hrun, hends⟩ := sif0Loop_stops hc (work c (sif0Init s) + 1)
    (h.sized.step hinit) ((h.follows hc).step hc hinit) (Nat.lt_succ_self _)
  obtain ⟨s₀, hfirst, hrun₀⟩ := h
  exact ⟨_, t, hloop, ⟨s₀, hfirst, (hrun₀.tail hinit).trans hrun⟩, hends⟩

theorem steps_sif0Loop {fuel : Nat} (h : sif0Loop c.iopMem fuel s = some t) :
    ReflTransGen (Step c) s t := by
  induction fuel generalizing s with
  | zero => cases h
  | succ fuel ih =>
    rw [sif0Loop] at h
    split at h
    · exact steps_round.trans (ih h)
    · cases h
      exact steps_round

theorem Reachable.step (h : Reachable c mem s) (hstep : Step c s t) : Reachable c mem t := by
  obtain ⟨s₀, hinit, hrun⟩ := h
  exact ⟨s₀, hinit, hrun.tail hstep⟩

theorem Reachable.sif0Dma {fuel : Nat} (h : Reachable c mem s)
    (hdma : sif0Dma c.iopMem fuel s = some t) : Reachable c mem t := by
  obtain ⟨s₀, hinit, hrun⟩ := h
  exact ⟨s₀, hinit, (hrun.tail .init).trans (steps_sif0Loop hdma)⟩

end loop

end OmegaRed.Sif.Sif0

/-! SIF0 delivers every chain of blocks in order, however its two sides are started. -/

namespace OmegaRed.Sif.Sif0

open Lib Lib.Memory Relation

variable {c : Chain} {mem : Nat → UInt32} {s t : State}

/-- A block that no later block overlaps stays in the EE's memory as it was delivered. -/
theorem Chain.load_delivered {i k : Nat} (hi : i < k)
    (hclear : ∀ j, i < j → j < k → destBase (c.hi i) + c.count i ≤ destBase (c.hi j) ∨
      destBase (c.hi j) + c.count j ≤ destBase (c.hi i)) :
    load (c.delivered mem k) (destBase (c.hi i)) (c.count i) = c.block i := by
  induction k with
  | zero => omega
  | succ k ih =>
    rw [delivered]
    rcases Nat.lt_or_eq_of_le (Nat.le_of_lt_succ hi) with hlt | rfl
    · have hk := hclear k hlt (Nat.lt_succ_self k)
      rw [load_store_disjoint _ _ (by rwa [length_block])]
      exact ih hlt fun j hj hjk => hclear j hj (Nat.lt_succ_of_lt hjk)
    · have hself := load_store_self (c.delivered mem i) (destBase (c.hi i)) (c.block i)
      rwa [length_block] at hself

theorem full_of_stopped (hs : Sized s) (hiop : iopCanRun s = false) (hee : eeCanRun s = false)
    (hbusy : s.iop.busy = true) : s.ee.busy = false ∧ s.fifo.size = 128 := by
  have hle := hs.fifo.size_le
  rw [iopCanRun, hbusy, Bool.true_and, Bool.or_eq_false_iff] at hiop
  have hfull := of_decide_eq_false hiop.1
  rw [free_eq] at hfull
  simp only [fifoSifW] at hle
  have hsize : s.fifo.size = 128 := by omega
  refine ⟨?_, hsize⟩
  cases hb : s.ee.busy with
  | false => rfl
  | true => simp [eeCanRun, hb, hsize] at hee

/-- An EE side that cannot go on has read all that was sent, and waits for the next start. -/
theorem waiting_of_stopped (h : Inv c mem s) (hiop : iopCanRun s = false)
    (hee : eeCanRun s = false) (hbusy : s.ee.busy = true) :
    s.iop.busy = false ∧ s.fifo.size = 0 ∧ s.received = s.sent ∧ s.sent < c.n := by
  have hmod := h.sized.size_mod
  have hnonneg := h.sized.fifo.size_nonneg
  have hidle : s.iop.busy = false := by
    cases hb : s.iop.busy with
    | false => rfl
    | true =>
      rw [(full_of_stopped h.sized hiop hee hb).1] at hbusy
      cases hbusy
  simp only [eeCanRun, hbusy, Bool.true_and, Bool.or_eq_false_iff, Bool.and_eq_false_iff,
    decide_eq_false_iff_not] at hee
  have hsize : s.fifo.size = 0 := by omega
  obtain ⟨cur, w, base, hspells, hflight, hcur, _⟩ := h.carries.words
  have hnil : cur ++ w = [] := by
    rw [← hflight, RingFifo.content, hsize, h.carries.idle_counter hidle]
    rfl
  obtain ⟨rfl, rfl⟩ := List.append_eq_nil_iff.mp hnil
  have hqwc : s.ee.qwc = 0 := by
    rw [List.length_nil] at hcur
    omega
  have hended : s.ee.ended = false := hee.2.resolve_right (not_not_intro hqwc)
  obtain ⟨hsame, _⟩ := hspells.eq_of_length (by decide)
  refine ⟨hidle, hsize, hsame, ?_⟩
  rw [← hsame]
  exact h.carries.waits hbusy hended

theorem delivered_of_idle (h : Inv c mem s) (hee : s.ee.busy = false) (hall : s.received = c.n) :
    s.fifo.size = 0 ∧ s.eeMem = c.delivered mem c.n := by
  obtain ⟨cur, w, base, hspells, hflight, hcur, _, hmem⟩ := h.carries.words
  have hsent : s.sent = c.n := Nat.le_antisymm h.follows.sent_le (hall ▸ hspells.le)
  have hnonneg := h.sized.fifo.size_nonneg
  rw [h.carries.idle_qwc hee] at hcur
  have hcur : cur = [] := List.eq_nil_of_length_eq_zero hcur
  rw [hall, hsent] at hspells
  rw [hcur, hspells.self] at hflight
  constructor
  · have hlen := congrArg List.length (List.append_eq_nil_iff.mp hflight).1
    rw [RingFifo.length_content, List.length_nil] at hlen
    omega
  · rwa [hcur, store_nil, hall] at hmem

/-- In every state the queue holds whole quadwords and fits, and the loop stops; once the EE has
ended with the last tag, the queue is empty and its memory holds the blocks in order. -/
theorem sif0_delivers (hl : c.Linked) (hs : Reachable c mem s) :
    (0 ≤ s.fifo.size ∧ s.fifo.size ≤ 128 ∧ s.fifo.size % 4 = 0) ∧
      (∃ fuel t, sif0Dma c.iopMem fuel s = some t ∧ Reachable c mem t ∧
        (t.iop.busy = true → t.ee.busy = false ∧ t.fifo.size = 128) ∧
        (c.Matched → c.Placed → t.ee.busy = true →
          t.iop.busy = false ∧ t.fifo.size = 0 ∧ t.received = t.sent ∧ t.sent < c.n)) ∧
      (c.Matched → c.Placed → s.ee.busy = false → s.received = c.n →
        s.fifo.size = 0 ∧ s.eeMem = c.delivered mem c.n ∧
        ∀ i < c.n, (∀ j, i < j → j < c.n → destBase (c.hi i) + c.count i ≤ destBase (c.hi j) ∨
            destBase (c.hi j) + c.count j ≤ destBase (c.hi i)) →
          load s.eeMem (destBase (c.hi i)) (c.count i) = c.block i) := by
  refine ⟨?_, ?_, ?_⟩
  · have hsized := hs.sized
    exact ⟨hsized.fifo.size_nonneg, hsized.fifo.size_le, hsized.size_mod⟩
  · obtain ⟨fuel, t, hdma, ht, hiop, hee⟩ := hs.sif0Dma_stops hl
    refine ⟨fuel, t, hdma, ht, full_of_stopped ht.sized hiop hee, fun hc hp => ?_⟩
    exact waiting_of_stopped (ht.inv hl hc hp) hiop hee
  · intro hc hp hee hall
    obtain ⟨hsize, hmem⟩ := delivered_of_idle (hs.inv hl hc hp) hee hall
    refine ⟨hsize, hmem, fun i hi hclear => ?_⟩
    rw [hmem]
    exact Chain.load_delivered hi hclear

section sample

/-- One tag at address 0 with a block of five words at 0x1000. -/
def sampleMem (dest : UInt32) (i : Nat) : UInt32 :=
  if i = 0 then 0x80001000 else if i = 4 then 5 else if i = 8 then 0x70000002
  else if i = 12 then dest else .ofNat i

def sampleChain (dest : UInt32) : Chain := ⟨sampleMem dest, fun _ => 0, 1, false⟩

def sampleInit : State :=
  ⟨⟨fun _ => 0, 0, 0, 0⟩, ⟨false, false, 0, none, false, false, false, 0, 0⟩,
    ⟨false, false, 0, none, 0, 0, 0⟩, false, 0, fun _ => 0, 0, 0⟩

theorem sampleInit_initial (dest : UInt32) :
    Initial (sampleChain dest) (fun _ => 0) sampleInit :=
  ⟨⟨by decide, by decide, by decide, by decide⟩, rfl, rfl, rfl, rfl, rfl, rfl, rfl, rfl, rfl, rfl⟩

section words

variable (dest : UInt32) (i : Nat)

theorem iopPhysMem_zero : iopPhysMem 0 = 0 := by decide

@[simp] theorem sample_data : (sampleChain dest).data i = 0x80001000 := by
  simp [Chain.data, sampleChain, iopPhysMem_zero, sampleMem]

@[simp] theorem sample_words : (sampleChain dest).words i = 5 := by
  simp [Chain.words, sampleChain, iopPhysMem_zero, sampleMem]

@[simp] theorem sample_lo : (sampleChain dest).lo i = 0x70000002 := by
  simp [Chain.lo, sampleChain, iopPhysMem_zero, sampleMem]

@[simp] theorem sample_hi : (sampleChain dest).hi i = dest := by
  simp [Chain.hi, sampleChain, iopPhysMem_zero, sampleMem]

end words

theorem sampleChain_linked (dest : UInt32) : (sampleChain dest).Linked where
  next i hi := absurd (Nat.lt_of_succ_lt_succ hi) (Nat.not_lt_zero i)
  last i _ := by
    rw [Chain.iopEnds, sample_data]
    decide

theorem sampleChain_matched (dest : UInt32) : (sampleChain dest).Matched where
  tagInMem i _ := by
    change InIopMem 0 4
    rw [InIopMem]
    decide
  words_le i _ := by
    rw [sample_words]
    decide
  qwc_eq i _ := by
    rw [Chain.qwc, sample_lo, sample_words]
    decide
  last i _ := by
    rw [Chain.eeEnds, sample_lo]
    exact Bool.or_true _

/-- The IOP's side is started. -/
def sampleSent (dest : UInt32) : State :=
  (psxDma9 (sampleMem dest) 10 sampleInit).getD sampleInit

/-- The EE's side is started after it. -/
def sampleRun (dest : UInt32) : State :=
  let s := sampleSent dest
  (dmaSIF0 (sampleMem dest) 10 { s with ee := { s.ee with str := true } }).getD s

theorem sampleSent_reachable (dest : UInt32) :
    Reachable (sampleChain dest) (fun _ => 0) (sampleSent dest) := by
  have hinit : Reachable (sampleChain dest) (fun _ => 0) sampleInit :=
    ⟨sampleInit, sampleInit_initial dest, .refl⟩
  rw [sampleSent]
  cases h : psxDma9 (sampleMem dest) 10 sampleInit with
  | none => exact hinit
  | some t =>
    have hstart : Step (sampleChain dest) sampleInit (startIOP sampleInit) :=
      .psxDma9 rfl Nat.zero_lt_one
    exact (hinit.step hstart).sif0Dma h

theorem sampleRun_reachable {dest : UInt32} (hidle : (sampleSent dest).ee.busy = false)
    (hint : (sampleSent dest).ee.interrupt = none) (hleft : (sampleSent dest).received < 1) :
    Reachable (sampleChain dest) (fun _ => 0) (sampleRun dest) := by
  have hsent := sampleSent_reachable dest
  simp only [sampleRun]
  cases h : dmaSIF0 (sampleMem dest) 10
      { sampleSent dest with ee := { (sampleSent dest).ee with str := true } } with
  | none =>
    rw [Option.getD_none]
    exact hsent
  | some t =>
    rw [Option.getD_some]
    exact (hsent.step (.dmaSIF0 hidle hint hleft)).sif0Dma h

theorem sif0_delivers_sample :
    (sampleRun 0x100000).fifo.size = 0 ∧
      (sampleRun 0x100000).eeMem = (sampleChain 0x100000).delivered (fun _ => 0) 1 := by
  have hreach : Reachable (sampleChain 0x100000) (fun _ => 0) (sampleRun 0x100000) :=
    sampleRun_reachable (by decide) (by decide) (by decide)
  have hplaced : (sampleChain 0x100000).Placed := by
    refine ⟨fun i _ => ?_, fun i _ => .inr (.inl ?_)⟩
    · rw [Chain.source, Chain.count, sample_data, sample_words, InIopMem]
      decide
    · rw [Chain.qwc, sample_lo, sample_hi, InMain]
      decide
  obtain ⟨hsize, hmem, _⟩ := (sif0_delivers (sampleChain_linked _) hreach).2.2
    (sampleChain_matched _) hplaced (by decide) (by decide)
  exact ⟨hsize, hmem⟩

/-- A block for an address where the EE has no memory stops the EE's side and stays in the queue. -/
theorem not_sif0_delivers :
    ¬ ∀ (c : Chain) (mem : Nat → UInt32) (s : State), c.Linked → c.Matched →
      (∀ i < c.n, InIopMem (c.source i) (c.count i)) → Reachable c mem s →
      s.iop.busy = false → s.ee.busy = false → s.received = c.n →
      s.fifo.size = 0 ∧ s.eeMem = c.delivered mem c.n := by
  intro h
  have hreach : Reachable (sampleChain 0x12000000) (fun _ => 0) (sampleRun 0x12000000) :=
    sampleRun_reachable (by decide) (by decide) (by decide)
  have hsource : ∀ i < 1, InIopMem ((sampleChain 0x12000000).source i)
      ((sampleChain 0x12000000).count i) := by
    intro i _
    rw [Chain.source, Chain.count, sample_data, sample_words, InIopMem]
    decide
  have hempty := (h _ _ _ (sampleChain_linked _) (sampleChain_matched _) hsource hreach
    (by decide) (by decide) (by decide)).1
  have hleft : (sampleRun 0x12000000).fifo.size = 8 := by decide
  rw [hleft] at hempty
  cases hempty

end sample

end OmegaRed.Sif.Sif0
