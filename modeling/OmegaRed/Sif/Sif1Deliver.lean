import OmegaRed.Sif.Sif1Run

/-! SIF1 delivers the blocks of a source chain and stops where its tags say, as far as it does. -/

namespace OmegaRed.Sif.Sif1

open Lib Lib.Memory Relation

section loop

variable {c : Chain} {mem : Nat → UInt8} {s t : State}

/-- What the tags from the last `k` on have to send. -/
def Chain.tagsLeft (c : Chain) : Nat → Nat
  | 0 => 0
  | k + 1 => 8 + 4 * (c.tag (c.n - (k + 1))).qwc + c.tagsLeft k

/-- What is left to do: every word is written once and read once. -/
def work (c : Chain) (s : State) : Nat :=
  2 * (4 * s.ee.qwc + c.tagsLeft (c.n - s.fetched)) + s.fifo.size.toNat +
    s.ee.busy.toNat + s.ee.str.toNat + s.iop.busy.toNat

/-- The EE's side can run, but the queue has no room for a quadword. -/
def Stalled (s : State) : Prop :=
  s.ee.busy = true ∧ s.ee.str = true ∧ 0 < s.ee.qwc ∧ 0 < s.fifo.free fifoSifW ∧
    s.fifo.free fifoSifW < 4

/-- The EE's side waits for room that an idle IOP's side does not make. -/
def Stuck (s : State) : Prop := Stalled s ∧ s.iop.busy = false

theorem Chain.tagsLeft_sub {i : Nat} (h : i < c.n) :
    c.tagsLeft (c.n - i) = 8 + 4 * (c.tag i).qwc + c.tagsLeft (c.n - (i + 1)) := by
  rw [show c.n - i = c.n - (i + 1) + 1 by omega, tagsLeft,
    show c.n - (c.n - (i + 1) + 1) = i by omega]

theorem work_processEETag (hf : Follows c s) (hl : c.Linked) (hbusy : s.ee.busy = true)
    (hqwc : s.ee.qwc = 0) (hended : s.ee.ended = false) :
    work c (processEETag c.eeMem s) < work c s := by
  have hgoes : endsHere c s = false := (hf.ended hbusy).symm.trans hended
  obtain ⟨hlt, htadr⟩ := hf.next (.inl hbusy) hgoes
  rw [Ee.nextTadr_of_zero hqwc] at htadr
  have htag : ⟨c.eeMem (c.base s.fetched)⟩ = c.tag s.fetched := rfl
  rw [processEETag_eq (by rw [htadr]; exact hl.base_eq hlt) htag (hl.id_lt s.fetched hlt)]
  simp only [work, c.tagsLeft_sub hlt]
  split
  · simp only [RingFifo.write, length_load]
    omega
  · omega

theorem work_writeEEtoFifo (hf : Follows c s) (hstr : s.ee.str = true) :
    work c (writeEEtoFifo c.eeMem s) < work c s ∨
      work c (writeEEtoFifo c.eeMem s) ≤ work c s ∧ writeSize s = 0 ∧
        (writeEEtoFifo c.eeMem s).fifo = s.fifo.write fifoSifW [] := by
  cases hbase : dmaGetAddr s.ee.madr false with
  | none =>
    rw [writeEEtoFifo, hbase]
    simp only [work, hstr, Bool.toNat_false, Bool.toNat_true]
    omega
  | some base =>
    have hle : writeSize s ≤ s.ee.qwc := Nat.min_le_left _ _
    rw [writeEEtoFifo_eq hstr hf.mod hbase]
    rcases Nat.eq_zero_or_pos (writeSize s) with hzero | hpos
    · refine .inr ⟨?_, hzero, ?_⟩
      · simp only [work, RingFifo.write, length_load, hzero]
        omega
      · simp only [hzero, Nat.mul_zero, load_zero]
    · refine .inl ?_
      simp only [work, RingFifo.write, length_load]
      omega

theorem MoveIOP.work_lt (hmove : MoveIOP s t) : work c t < work c s := by
  cases hmove with
  | writeIOP _ hcounter hsize =>
    simp only [work, writeFifoToIOP, RingFifo.read]
    omega
  | endIOP hbusy =>
    simp only [work, Sif1.endIOP, hbusy, Bool.toNat_false, Bool.toNat_true]
    omega
  | tagIOP _ _ _ hsize =>
    simp only [work, sifIOPReadTag, RingFifo.read]
    omega

theorem work_movesIOP (hmoves : TransGen MoveIOP s t) : work c t < work c s := by
  induction hmoves with
  | single hmove => exact hmove.work_lt
  | tail _ hmove ih => exact Nat.lt_trans hmove.work_lt ih

theorem work_runIOP_le : work c (runIOP s) ≤ work c s := by
  cases h : iopCanRun s with
  | true => exact Nat.le_of_lt (work_movesIOP (moves_runIOP h))
  | false => rw [runIOP, h]; exact Nat.le_refl _

theorem MoveEE.work_lt_or_stalled (hmove : MoveEE c.eeMem s t) (hf : Follows c s)
    (hl : c.Linked) : work c t < work c s ∨
      work c t ≤ work c s ∧ Stalled s ∧ t.fifo.size = s.fifo.size ∧ t.iop = s.iop := by
  cases hmove with
  | stopEE hbusy =>
    refine .inl ?_
    simp only [work, hbusy, Bool.toNat_false, Bool.toNat_true]
    omega
  | endEE hbusy =>
    refine .inl ?_
    simp only [work, Sif1.endEE, hbusy, Bool.toNat_false, Bool.toNat_true]
    omega
  | tagEE hbusy _ hqwc hended => exact .inl (work_processEETag hf hl hbusy hqwc hended)
  | writeEE hbusy hstr hqwc hfree =>
    rcases work_writeEEtoFifo hf hstr with hlt | ⟨hle, hzero, hfifo⟩
    · exact .inl hlt
    · have hfew : s.fifo.free fifoSifW < 4 := by
        rw [writeSize] at hzero
        omega
      refine .inr ⟨hle, ⟨hbusy, hstr, hqwc, hfree, hfew⟩, ?_, ?_⟩
      · rw [hfifo]
        exact Int.add_zero _
      · rw [writeEEtoFifo]
        split <;> rfl

theorem work_round (hf : Follows c s) (hl : c.Linked) (hbusy : busyCheck c.eeMem s = true)
    (hfree : ¬ Stuck s) : work c (round c.eeMem s) < work c s := by
  rw [round]
  cases hee : eeCanRun s with
  | false =>
    have hstays : runEE c.eeMem s = s := by rw [runEE, hee]; rfl
    rw [busyCheck, hee, Bool.false_or, hstays] at hbusy
    rw [hstays]
    exact work_movesIOP (moves_runIOP hbusy)
  | true =>
    rcases (MoveEE.work_lt_or_stalled (move_runEE hee) hf hl) with
      hlt | ⟨hle, hstalled, hsize, hiop⟩
    · exact Nat.lt_of_le_of_lt work_runIOP_le hlt
    · have hidle : s.iop.busy = true := by
        cases hb : s.iop.busy with
        | true => rfl
        | false => exact absurd ⟨hstalled, hb⟩ hfree
      have hroom := hstalled.2.2.2.2
      rw [free_eq] at hroom
      have hcan : iopCanRun (runEE c.eeMem s) = true := by
        have hfour : 4 ≤ s.fifo.size := by omega
        simp [iopCanRun, hiop, hidle, hsize, hfour]
      exact Nat.lt_of_lt_of_le (work_movesIOP (moves_runIOP hcan)) hle

theorem steps_round : ReflTransGen (Step c) s (round c.eeMem s) :=
  .tail (.single .runEE) .runIOP

/-- With fuel for the work left, a loop that is never stuck comes to a state in which no side can
go on. -/
theorem sif1Loop_stops (hl : c.Linked) (hirq : c.IrqEnds) (fuel : Nat) (hf : Follows c s)
    (hfree : ∀ k, ¬ Stuck ((round c.eeMem)^[k] s)) (hfuel : work c s < fuel) :
    ∃ t, sif1Loop c.eeMem fuel s = some t ∧ ReflTransGen (Step c) s t ∧
      eeCanRun t = false ∧ iopCanRun t = false := by
  induction fuel generalizing s with
  | zero => omega
  | succ fuel ih =>
    rw [sif1Loop]
    cases hbusy : busyCheck c.eeMem s with
    | false =>
      obtain ⟨hstays, hends⟩ := round_of_not_busy hbusy
      exact ⟨s, congrArg some hstays, .refl, hends⟩
    | true =>
      have hlt := work_round hf hl hbusy (hfree 0)
      have hnext : ∀ k, ¬ Stuck ((round c.eeMem)^[k] (round c.eeMem s)) :=
        fun k => hfree (k + 1)
      have hround : Follows c (round c.eeMem s) := (hf.runEE hl hirq).movesIOP moves_iop
      obtain ⟨t, hloop, hrun, hends⟩ := ih hround hnext (by omega)
      exact ⟨t, hloop, steps_round.trans hrun, hends⟩

theorem Reachable.step (h : Reachable c mem s) (hstep : Step c s t) : Reachable c mem t := by
  obtain ⟨s₀, hinit, hrun⟩ := h
  exact ⟨s₀, hinit, hrun.tail hstep⟩

theorem Reachable.steps (h : Reachable c mem s) (hsteps : ReflTransGen (Step c) s t) :
    Reachable c mem t := by
  obtain ⟨s₀, hinit, hrun⟩ := h
  exact ⟨s₀, hinit, hrun.trans hsteps⟩

end loop

section reachable

variable {c : Chain} {mem : Nat → UInt8} {s t : State}

theorem Initial.sized (h : Initial c mem s) : Sized s where
  fifo := h.fifo
  size_even := by rw [h.size]; rfl
  counter_nonneg := by rw [h.counter]
  counter_even := by rw [h.counter]; rfl
  whole := fun _ => by rw [h.size, h.counter]; exact ⟨rfl, rfl⟩

theorem Initial.follows (h : Initial c mem s) : Follows c s where
  mod := h.mod
  tte := h.tte
  tie := h.tie
  fetched_le := by rw [h.fetched]; exact Nat.zero_le _
  current := fun hpos => absurd hpos (by rw [h.qwc]; exact Nat.lt_irrefl 0)
  atData := fun hpos => absurd hpos (by rw [h.qwc]; exact Nat.lt_irrefl 0)
  next := by
    rw [h.ee_busy, h.qwc]
    rintro (hb | hpos)
    · cases hb
    · exact absurd hpos (Nat.lt_irrefl 0)
  ended := fun hb => by rw [h.ee_busy] at hb; cases hb

theorem Initial.carries (h : Initial c mem s) (hc : c.Matched) : Carries c mem s where
  taken_le := by rw [h.taken]; exact Nat.zero_le _
  idle_counter := fun _ => h.counter
  dest := by rw [h.counter]; exact inIopMem_zero _
  words := by
    refine ⟨[], 0, ?_, ?_, ?_, ?_⟩
    · rw [h.qwc]
      intro k hk
      exact absurd hk (Nat.not_lt_zero k)
    · rw [RingFifo.content, h.size, h.qwc, h.fetched, h.taken]
      exact hc.stream_eq
    · rw [h.counter]
      rfl
    · rw [h.taken, List.flatMap_nil, store_nil, h.iopMem]
      rfl

theorem Reachable.sized (h : Reachable c mem s) : Sized s := by
  obtain ⟨s₀, hinit, hrun⟩ := h
  exact Run.invariant (fun _ _ hs hstep => hs.step hstep) hrun hinit.sized

theorem Reachable.follows (h : Reachable c mem s) (hl : c.Linked) (hirq : c.IrqEnds) :
    Follows c s := by
  obtain ⟨s₀, hinit, hrun⟩ := h
  exact Run.invariant (fun _ _ hs hstep => hs.step hl hirq hstep) hrun hinit.follows

theorem Reachable.carries (h : Reachable c mem s) (hl : c.Linked) (hirq : c.IrqEnds)
    (hc : c.Matched) (hfit : c.Fits) : Carries c mem s := by
  obtain ⟨s₀, hinit, hrun⟩ := h
  induction hrun with
  | refl => exact hinit.carries hc
  | tail hrun hstep ih =>
    have hs : Reachable c mem _ := ⟨s₀, hinit, hrun⟩
    exact ih.step hs.sized (hs.follows hl hirq) hl hc hfit hstep

theorem Reachable.rounds (h : Reachable c mem s) (k : Nat) :
    Reachable c mem ((round c.eeMem)^[k] s) := by
  induction k generalizing s with
  | zero => exact h
  | succ k ih => exact ih (h.steps steps_round)

theorem Reachable.not_stuck (h : Reachable c mem s) (hl : c.Linked) (hirq : c.IrqEnds)
    (htte : c.tte = false) : ¬ Stuck s := by
  rintro ⟨⟨_, _, _, hpos, hlt⟩, _⟩
  have hwhole := h.sized.whole ((h.follows hl hirq).tte.trans htte)
  rw [free_eq] at hpos hlt
  omega

/-- The EE's side ends exactly where its tag says so, when the tag's data are sent. -/
theorem runEE_busy_iff (hf : Follows c s) (hstr : s.ee.str = true) (hcan : eeCanRun s = true) :
    (runEE c.eeMem s).ee.busy = false ↔ s.ee.qwc = 0 ∧ endsHere c s = true := by
  have hmove : MoveEE c.eeMem s (runEE c.eeMem s) := move_runEE hcan
  generalize runEE c.eeMem s = t at hmove
  cases hmove with
  | stopEE _ hoff =>
    rw [hstr] at hoff
    cases hoff
  | endEE hbusy _ hqwc hended =>
    refine iff_of_true rfl ⟨hqwc, ?_⟩
    rw [← hf.ended hbusy]
    rw [hf.mod] at hended
    exact hended.resolve_left (by decide)
  | tagEE hbusy _ _ hended =>
    refine iff_of_false ?_ fun hand => ?_
    · rw [processEETag]
      split
      · simp [hbusy]
      · simp [hbusy]
    · rw [← hf.ended hbusy, hended] at hand
      cases hand.2
  | writeEE hbusy _ hqwc =>
    refine iff_of_false ?_ fun hand => by omega
    rw [writeEEtoFifo]
    split
    · simp [hbusy]
    · simp [hbusy]

theorem drained_of_stopped (hs : Sized s) (htte : s.ee.tte = false) (hiop : iopCanRun s = false)
    (hbusy : s.iop.busy = true) : s.fifo.size = 0 := by
  have hwhole := hs.whole htte
  have hnonneg := hs.fifo.size_nonneg
  rw [iopCanRun, hbusy, Bool.true_and, Bool.or_eq_false_iff] at hiop
  have hfew := of_decide_eq_false hiop.1
  omega

theorem idle_of_stopped (hee : eeCanRun s = false) (hiop : iopCanRun s = false)
    (hbusy : s.ee.busy = true) : s.iop.busy = false := by
  rw [eeCanRun, hbusy, Bool.true_and, Bool.or_eq_false_iff] at hee
  have hfull := of_decide_eq_false hee.1
  rw [free_eq] at hfull
  cases hb : s.iop.busy with
  | false => rfl
  | true =>
    rw [iopCanRun, hb, Bool.true_and, Bool.or_eq_false_iff] at hiop
    have hfew := of_decide_eq_false hiop.1
    omega

theorem delivered_of_carries (h : Carries c mem s) (hcounter : s.iop.counter = 0) :
    s.iopMem = c.delivered mem s.taken ∧ ∃ base, Resolves s.ee.madr s.ee.qwc base ∧
      s.fifo.content fifoSifW ++ load c.eeMem base (4 * s.ee.qwc) ++ c.stream s.fetched =
        c.blocksFrom s.taken := by
  obtain ⟨cur, base, hbase, hflight, hcur, hmem⟩ := h.words
  rw [hcounter] at hcur
  have hnil : cur = [] := List.eq_nil_of_length_eq_zero hcur
  rw [hnil, List.nil_append] at hflight
  rw [hnil, List.flatMap_nil, store_nil] at hmem
  exact ⟨hmem, base, hbase, hflight⟩

theorem all_of_drained (h : Carries c mem s) (hsize : s.fifo.size = 0) (hqwc : s.ee.qwc = 0)
    (hsent : s.fetched = c.n) : s.iopMem = c.delivered mem c.blocks.length := by
  obtain ⟨cur, base, hbase, hflight, hcur, hmem⟩ := h.words
  rw [RingFifo.content, hsize, hqwc, hsent, Chain.stream_of_le (Nat.le_refl _)] at hflight
  obtain ⟨hnil, hrest⟩ := List.append_eq_nil_iff.mp hflight.symm
  have hall : s.taken = c.blocks.length := by
    refine Nat.le_antisymm h.taken_le (Nat.le_of_not_lt fun hlt => ?_)
    rw [Chain.blocksFrom_of_lt hlt] at hrest
    cases hrest
  rwa [hnil, List.flatMap_nil, store_nil, hall] at hmem

/-- The queue fits in every state; a loop that is never stuck stops, and without TTE none is; the
EE's side ends where its tag says; and each block that the IOP has taken has come whole. -/
theorem sif1_delivers (hl : c.Linked) (hirq : c.IrqEnds) (hs : Reachable c mem s) :
    (0 ≤ s.fifo.size ∧ s.fifo.size ≤ 128) ∧
      ((c.tte = true → ∀ k, ¬ Stuck ((round c.eeMem)^[k] (sif1Init s))) →
        ∃ fuel t, sif1Dma c.eeMem fuel s = some t ∧ Reachable c mem t ∧
          (t.ee.busy = true → t.iop.busy = false) ∧
          (c.tte = false → t.iop.busy = true → t.fifo.size = 0 ∧
            (c.Matched → c.Fits → t.ee.qwc = 0 → t.fetched = c.n →
              t.iopMem = c.delivered mem c.blocks.length))) ∧
      (s.ee.busy = true → s.ee.ended = endsHere c s ∧
        (s.ee.str = true → eeCanRun s = true →
          ((runEE c.eeMem s).ee.busy = false ↔ s.ee.qwc = 0 ∧ endsHere c s = true))) ∧
      (c.Matched → c.Fits → s.iop.counter = 0 →
        s.iopMem = c.delivered mem s.taken ∧ ∃ base, Resolves s.ee.madr s.ee.qwc base ∧
          s.fifo.content fifoSifW ++ load c.eeMem base (4 * s.ee.qwc) ++ c.stream s.fetched =
            c.blocksFrom s.taken) := by
  have hf := hs.follows hl hirq
  refine ⟨⟨hs.sized.fifo.size_nonneg, hs.sized.fifo.size_le⟩, fun hfree => ?_,
    fun hbusy => ⟨hf.ended hbusy, runEE_busy_iff hf⟩,
    fun hc hfit => delivered_of_carries (hs.carries hl hirq hc hfit)⟩
  have hinit : Reachable c mem (sif1Init s) := hs.step .init
  have hnever : ∀ k, ¬ Stuck ((round c.eeMem)^[k] (sif1Init s)) := by
    cases htte : c.tte with
    | true => exact hfree htte
    | false => exact fun k => (hinit.rounds k).not_stuck hl hirq htte
  obtain ⟨t, hloop, hrun, hee, hiop⟩ := sif1Loop_stops hl hirq (work c (sif1Init s) + 1)
    (hinit.follows hl hirq) hnever (Nat.lt_succ_self _)
  have ht := hinit.steps hrun
  refine ⟨_, t, hloop, ht, idle_of_stopped hee hiop, fun htte hbusy => ?_⟩
  have hsize := drained_of_stopped ht.sized ((ht.follows hl hirq).tte.trans htte) hiop hbusy
  exact ⟨hsize, fun hc hfit hqwc hsent =>
    all_of_drained (ht.carries hl hirq hc hfit) hsize hqwc hsent⟩

theorem steps_sif1Loop {fuel : Nat} (h : sif1Loop c.eeMem fuel s = some t) :
    ReflTransGen (Step c) s t := by
  induction fuel generalizing s with
  | zero => cases h
  | succ fuel ih =>
    rw [sif1Loop] at h
    split at h
    · exact steps_round.trans (ih h)
    · cases h
      exact steps_round

theorem Reachable.sif1Dma {fuel : Nat} (h : Reachable c mem s)
    (hdma : sif1Dma c.eeMem fuel s = some t) : Reachable c mem t :=
  (h.step .init).steps (steps_sif1Loop hdma)

end reachable

section sample

/-- A block of `w` words for the address 0x1000, with the padding that it needs. -/
def sampleBlock (w : UInt32) : Block :=
  ⟨0x80001000, w, 0, 0, (List.range ((w.toNat + 3) / 4 * 4)).map fun i => .ofNat (i + 1)⟩

/-- A REFE tag at address 0 for the block at address 0x100. -/
def sampleMem (w : UInt32) (i : Nat) : UInt32 :=
  if i = 0 then .ofNat ((w.toNat + 3) / 4 + 1) else if i = 1 then 0x100
  else (sampleBlock w).spell.getD (i - 0x40) 0

def sampleChain (w : UInt32) : Chain := ⟨sampleMem w, fun _ => 0, 1, false, false, [sampleBlock w]⟩

def sampleInit : State :=
  ⟨⟨fun _ => 0, 0, 0, 0⟩, ⟨false, false, 0, none, false, chainMode, false, false, ⟨0⟩, 0, 0, 0⟩,
    ⟨false, false, 0, none, 0, 0⟩, fun _ => 0, 0, 0, none⟩

/-- The IOP's side is started, and the EE's after it. -/
def sampleRun (w : UInt32) : Option State :=
  dmaSIF1 (sampleMem w) false 10 { startIOP sampleInit with
    ee := { sampleInit.ee with str := true, tadr := 0 } }

theorem sampleInit_initial (w : UInt32) : Initial (sampleChain w) (fun _ => 0) sampleInit :=
  ⟨⟨by decide, by decide, by decide, by decide⟩, rfl, rfl, rfl, rfl, rfl, rfl, rfl, rfl, rfl, rfl,
    rfl⟩

theorem sampleRun_reachable {w : UInt32} {t : State} (h : sampleRun w = some t) :
    Reachable (sampleChain w) (fun _ => 0) t := by
  have hinit : Reachable (sampleChain w) (fun _ => 0) sampleInit :=
    ⟨sampleInit, sampleInit_initial w, .refl⟩
  have hstart : Step (sampleChain w) (startIOP sampleInit) _ :=
    .dmaSIF1 false rfl (fun _ => Nat.zero_lt_one) (fun hpos => absurd hpos (Nat.lt_irrefl 0))
  exact ((hinit.step (.psxDma10 rfl)).step hstart).sif1Dma h

theorem sample_base (w : UInt32) (i : Nat) : (sampleChain w).base i = 0 := by
  have hbase : dmaGetAddr 0 false = some 0 := by decide
  simp [Chain.base, sampleChain, hbase]

theorem sample_tag (w : UInt32) (i : Nat) :
    (sampleChain w).tag i = ⟨.ofNat ((w.toNat + 3) / 4 + 1)⟩ := by
  rw [Chain.tag, sample_base]
  rfl

theorem sample_tag_four (i : Nat) : (sampleChain 4).tag i = ⟨2⟩ := sample_tag 4 i

theorem sample_tag_five (i : Nat) : (sampleChain 5).tag i = ⟨3⟩ := sample_tag 5 i

theorem sampleChain_linked {w word : UInt32} (htag : ∀ i, (sampleChain w).tag i = ⟨word⟩)
    (hid : (DmaTag.mk word).id = tagREFE) : (sampleChain w).Linked where
  readable i _ := by
    have hbase : dmaGetAddr 0 false = some 0 := by decide
    simp [sampleChain, hbase]
  id_lt i _ := by
    rw [htag, hid]
    exact .inl (by decide)
  next i hi := absurd (Nat.lt_of_succ_lt_succ hi) (Nat.not_lt_zero i)
  last i _ := by
    rw [Chain.ends, htag, tagEnds, hid]
    rfl

theorem sampleChain_irqEnds (w : UInt32) : (sampleChain w).IrqEnds := by
  intro i _ htie
  cases htie

theorem sample_source {w : UInt32} {i : Nat} (h : ((sampleChain w).tag i).id = tagREFE) :
    (sampleChain w).source i = 0x100 := by
  rw [Chain.source, h, if_neg (by decide), Chain.addr, sample_base]
  rfl

theorem sampleChain_matched {w word : UInt32} (htag : ∀ i, (sampleChain w).tag i = ⟨word⟩)
    (hid : (DmaTag.mk word).id = tagREFE) (hqwc : (DmaTag.mk word).qwc ≤ 100)
    (hstream : load (sampleMem w) 0x40 (4 * (DmaTag.mk word).qwc) = (sampleBlock w).spell) :
    (sampleChain w).Matched where
  stream_eq := by
    have hsource := sample_source (w := w) (i := 0) (by rw [htag, hid])
    have hbase : destBase 0x100 = 0x40 := by decide
    have hlast : (sampleChain w).stream (0 + 1) = [] := Chain.stream_of_le (Nat.le_refl 1)
    rw [Chain.stream_of_lt Nat.zero_lt_one, hlast, Chain.words, hsource, htag, hbase]
    have hload : load (sampleChain w).eeMem 0x40 (4 * (DmaTag.mk word).qwc) =
        (sampleBlock w).spell := hstream
    rw [hload, List.append_nil]
    exact (List.append_nil _).symm
  padded b hb := by
    rw [List.mem_singleton.mp hb, Block.Padded]
    simp [sampleBlock]
  source i _ := by
    rw [sample_source (by rw [htag, hid]), htag]
    refine .inr (.inl ⟨by decide, ?_⟩)
    rw [show (0x100 : UInt32).toNat % 2 ^ 29 / 16 * 16 = 256 by decide]
    simp only [mainRam]
    omega

theorem sif1_delivers_sample :
    ∃ t, sampleRun 4 = some t ∧ t.iopMem = (sampleChain 4).delivered (fun _ => 0) 1 := by
  have hrun : (sampleRun 4).map (fun t => (t.taken, t.iop.counter)) = some (1, 0) := by decide
  obtain ⟨t, ht, htaken⟩ := Option.map_eq_some_iff.mp hrun
  obtain ⟨hone, hcounter⟩ := Prod.mk.inj htaken
  have hmatched : (sampleChain 4).Matched :=
    sampleChain_matched sample_tag_four (by decide) (by decide) (by decide)
  have hfits : (sampleChain 4).Fits := by
    refine ⟨fun b hb => ?_, fun b hb => ?_⟩
    · rw [List.mem_singleton.mp hb, Block.Whole]
      decide
    · rw [List.mem_singleton.mp hb, InIopMem]
      decide
  have hmem := ((sif1_delivers (sampleChain_linked sample_tag_four (by decide))
    (sampleChain_irqEnds 4) (sampleRun_reachable ht)).2.2.2 hmatched hfits hcounter).1
  rw [hone] at hmem
  exact ⟨t, ht, hmem⟩

/-- A block of five words comes as four. -/
theorem not_sif1_delivers :
    ¬ ∀ (c : Chain) (mem : Nat → UInt8) (s : State), c.Linked → c.IrqEnds → c.Matched →
      (∀ b ∈ c.blocks, InIopMem b.dest b.words.toNat) → Reachable c mem s →
      s.ee.busy = false → s.iop.busy = false → s.iopMem = c.delivered mem s.taken := by
  intro h
  have hrun : (sampleRun 5).map (fun t => (t.taken, t.ee.busy, t.iop.busy, t.iopMem 0x1010)) =
      some (1, false, false, 0) := by decide
  obtain ⟨t, ht, hall⟩ := Option.map_eq_some_iff.mp hrun
  simp only [Prod.mk.injEq] at hall
  obtain ⟨hone, hee, hiop, hzero⟩ := hall
  have hmatched : (sampleChain 5).Matched :=
    sampleChain_matched sample_tag_five (by decide) (by decide) (by decide)
  have hdest : ∀ b ∈ (sampleChain 5).blocks, InIopMem b.dest b.words.toNat := by
    intro b hb
    rw [List.mem_singleton.mp hb, InIopMem]
    decide
  have hmem := h _ _ _ (sampleChain_linked sample_tag_five (by decide)) (sampleChain_irqEnds 5)
    hmatched hdest (sampleRun_reachable ht) hee hiop
  have hfive : (sampleChain 5).delivered (fun _ => 0) 1 0x1010 = 5 := by decide
  rw [hone] at hmem
  rw [hmem, hfive] at hzero
  cases hzero

end sample

end OmegaRed.Sif.Sif1
