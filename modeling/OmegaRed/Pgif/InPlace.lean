import OmegaRed.Pgif.Placed

/-! A transfer of the interface from its start on: what a list and a block to the GPU come to, and a
block to the IOP only if it moves no word. -/

namespace OmegaRed.Pgif

open Lib.Traces State

variable {mem : U32 → U32} {s t : State} {chcr : U32} {n : Nat} {evs : List Event}

inductive Transfer
  | list (ps : List U32)
  | toGpu
  | toIop
  deriving DecidableEq

namespace State

/-- No engine is at work, and no transfer has been watched yet. -/
structure Idle (s : State) : Prop where
  ok : s.dat.ring.Ok
  size_eq : s.dat.ring.size = pgifDatRbSz
  foreign : s.dat.Foreign
  left : s.dat.left = []
  lost : s.dat.lost = []
  stored : s.stored = []
  llAct : s.dma.pgpuDmaLlAct = false
  toGpu : s.dma.pgpuDmaNrActToGpu = false
  toIop : s.dma.pgpuDmaNrActToIop = false

/-- The address that `MADR` stands for. -/
def base (s : State) : U32 := s.dma.pgpuDmaMadr &&& 0x1FFFFFFF

/-- `BCR` has the size of the blocks and their count. -/
def total (s : State) : Nat := s.dma.blockSize * s.dma.blockCount

end State

/-- What a write of `chcr` to `CHCR` starts. -/
def Transfer.Starts (mem : U32 → U32) (s : State) (chcr : U32) : Transfer → Prop
  | .list ps => chcr &&& dmaStartBusy ≠ 0 ∧ chcr &&& dmaLinkedList ≠ 0 ∧ chcr &&& dmaDirFromRam ≠ 0 ∧
      Linked mem s.base ps
  | .toGpu => chcr &&& dmaStartBusy ≠ 0 ∧ chcr &&& dmaLinkedList = 0 ∧ chcr &&& dmaDirFromRam ≠ 0
  | .toIop => chcr &&& dmaStartBusy ≠ 0 ∧ chcr &&& dmaLinkedList = 0 ∧ chcr &&& dmaDirFromRam = 0

/-- A loop takes no more rounds than this. -/
def Transfer.rounds (mem : U32 → U32) (s : State) : Transfer → Nat
  | .list ps => (listWords mem ps).length + ps.length + 1
  | .toGpu => s.total + 1
  | .toIop => 0

/-- The words of the transfer that have left the queue or are in it are the first ones of `ws` in
their order, and none was dropped. -/
structure Queued (ws : List U32) (t : State) : Prop where
  inOrder : t.dat.sent <+: ws
  kept : ∀ w ∈ t.dat.lost, w.dma = false

/-- The registers after `moved` words of a block; the transfer ends with its last word. -/
structure Counted (s : State) (moved : Nat) (active : Bool) (t : State) : Prop where
  madr : t.dma.pgpuDmaMadr = wordAt s.dma.pgpuDmaMadr moved
  size : t.dma.blockSize = s.dma.blockSize
  count : t.dma.blockCount = s.dma.blockCount - moved / s.dma.blockSize
  ends : active = false → moved = s.total
  stops : 0 < moved → moved = s.total → active = false

/-- The queue is filled, once the driver requests it, until the transfer is over or there is no
room. -/
def Fills (mem : U32 → U32) (n : Nat) (t : State) : Prop :=
  t.getUpdPgifCtrlReg.pGifCtrlReg &&& 8 ≠ 0 →
    ∃ u, t.fillFifoOnDrain mem n = some u ∧ (u.Full ∨ u.active = false)

/-- `t` has of the transfer what it should have. -/
def InPlace (mem : U32 → U32) (n : Nat) (s : State) : Transfer → State → Prop
  | .list ps, t => Queued (listWords mem ps) t ∧ Fills mem n t ∧
      (t.dma.pgpuDmaLlAct = false → t.dat.sent = listWords mem ps)
  | .toGpu, t => Queued (wordsAt mem s.base s.total) t ∧ Fills mem n t ∧
      Counted s t.dat.sent.length t.dma.pgpuDmaNrActToGpu t
  | .toIop, t => t.stored.map Prod.fst = (List.range t.stored.length).map (wordAt s.base) ∧
      Counted s t.stored.length t.dma.pgpuDmaNrActToIop t

/-- No word comes into the queue that a transfer from `s` could take. -/
def Quiet (s : State) (evs : List Event) : Prop :=
  s.total = 0 ∨ s.dat.ring.count = 0 ∧ ∀ ev ∈ evs, ¬ev.Writes

theorem Pumped.run {E : Nat → State → Prop} {k : Nat} (h : Pumped mem E) (hs : E k s) (hn : k < n)
    (hmeets : Meets (State.step mem n)
      (fun s ev => Keeps s ev ∧ (ev.Writes → ∀ {k t}, E k t → E k t.drainPgpuDmaNrToIop)) s evs) :
    ∃ t, run (State.step mem n) s evs = some t ∧ ∃ j ≤ k, E j t := by
  refine total (fun s ev hs hok => ?_) hmeets ⟨k, Nat.le_refl k, hs⟩
  obtain ⟨j, hj, hE⟩ := hs
  obtain ⟨t, hstep, i, hi, hE'⟩ := h.step hE (Nat.lt_of_le_of_lt hj hn) hok.1 fun hw => hok.2 hw
  exact ⟨t, hstep, i, Nat.le_trans hi hj, hE'⟩

theorem Pumped.fills {E : Nat → State → Prop} {k j : Nat} (h : Pumped mem E) (hn : k < n)
    (hj : j ≤ k) (ht : E j t) : Fills mem n t := by
  intro hon
  obtain ⟨u, hu, -, hstop⟩ := h.fillFifoOnDrain ht (Nat.lt_of_le_of_lt hj hn)
  exact ⟨u, hu, hstop hon⟩

namespace State

theorem Idle.intact (h : s.Idle) : s.dat.Intact :=
  ⟨h.ok, h.size_eq, fun w hw => by rw [h.lost] at hw; cases hw⟩

theorem Idle.sent (h : s.Idle) : s.dat.sent = [] := by
  rw [DataFifo.sent, h.left, List.nil_append, List.map_eq_nil_iff, List.filter_eq_nil_iff]
  intro w hw
  rw [h.foreign w hw]
  decide

theorem blockAt_start (d : Dma) (n : Nat) (hn : n = 0) (hnr : d.nrWordsN = d.blockSize * d.blockCount)
    (hcr : d.crWordN = 0) : BlockAt d.blockSize d.blockCount n d := by
  subst hn
  refine ⟨hnr, hcr, Nat.zero_le _, ?_, ?_⟩
  · rw [Nat.zero_div, Nat.sub_zero, Dma.blockSize_eq, Dma.blockCount_eq, Nat.add_comm,
      Nat.mul_comm]
    exact (Nat.div_add_mod _ _).symm
  · rw [Dma.blockSize_eq]
    exact Nat.mod_lt _ (by decide)

theorem BlockAt.blockCount {size count m : Nat} {d : Dma} (h : BlockAt size count m d) :
    d.blockCount = count - m / size := by
  have hlt := h.size_lt
  rw [Dma.blockCount_eq, h.bcr, Nat.add_mul_div_right _ _ (by decide), Nat.div_eq_of_lt hlt,
    Nat.zero_add]

theorem or_trigger (c : U32) {m : U32} (h : dmaTrigger &&& m = 0) :
    (c ||| dmaTrigger) &&& m = c &&& m := by
  rw [BitVec.and_or_distrib_right, h]
  exact BitVec.or_zero

theorem psxDma2GpuW_chcr (hbusy : chcr &&& dmaStartBusy ≠ 0) :
    s.psxDma2GpuW mem n pgpuDmaChcrAddr chcr =
      { s with pgpuDmaChcr := chcr }.processPgpuDma mem n := by
  have haddr : pgpuDmaChcrAddr &&& 0x1FFFFFFF = pgpuDmaChcrAddr := by decide
  rw [psxDma2GpuW]
  dsimp only
  rw [haddr, if_neg (by decide), if_neg (by decide), if_pos rfl, if_pos hbusy]

theorem start_list (hidle : s.Idle) {ps : List U32} (hstarts : (Transfer.list ps).Starts mem s chcr)
    (hn : (Transfer.list ps).rounds mem s < n) :
    ∃ t, s.psxDma2GpuW mem n pgpuDmaChcrAddr chcr = some t ∧
      ∃ j ≤ (Transfer.list ps).rounds mem s, ListAt mem (listWords mem ps) j t := by
  obtain ⟨hbusy, hlist, hdir, hlinked⟩ := hstarts
  have hstart : ListAt mem (listWords mem ps) ((Transfer.list ps).rounds mem s) { s with
      pgpuDmaChcr := chcr ||| dmaTrigger
      dma := { s.dma with pgpuDmaLlAct := true, nextAddr := s.base, wCnt := 0, wordNr := 0 } } := by
    refine ⟨hidle.intact, hidle.toGpu, hidle.toIop, [], ps, ⟨rfl, hlinked⟩, ?_, fun _ => ?_,
      fun hoff => absurd hoff.symm Bool.false_ne_true⟩
    · rw [hidle.sent]
      rfl
    · rw [Transfer.rounds, List.length_nil]
      omega
  obtain ⟨t, ht, hE, -⟩ := (ListAt.pumped mem _).fillFifoOnDrain hstart hn
  rw [psxDma2GpuW_chcr hbusy, processPgpuDma, if_neg hbusy]
  dsimp only
  rw [or_trigger chcr (by decide), or_trigger chcr (by decide), if_pos hlist, if_pos hdir]
  exact ⟨t, ht, hE⟩

/-- The registers at the start of a block. -/
def blockDma (s : State) : Dma :=
  { s.dma with crWordN := 0, addrNdma := s.base, nrWordsN := s.total }

theorem start_toGpu (hidle : s.Idle) (hstarts : Transfer.toGpu.Starts mem s chcr)
    (hn : Transfer.toGpu.rounds mem s < n) :
    ∃ t, s.psxDma2GpuW mem n pgpuDmaChcrAddr chcr = some t ∧
      ∃ j ≤ Transfer.toGpu.rounds mem s,
        GpuAt mem s.base s.dma.pgpuDmaMadr s.dma.blockSize s.dma.blockCount j t := by
  obtain ⟨hbusy, hlist, hdir⟩ := hstarts
  have hsent := hidle.sent
  have hlength : s.dat.sent.length = 0 := by rw [hsent, List.length_nil]
  have hstart : GpuAt mem s.base s.dma.pgpuDmaMadr s.dma.blockSize s.dma.blockCount
      (Transfer.toGpu.rounds mem s) { s with
        pgpuDmaChcr := chcr ||| dmaTrigger
        dma := { s.blockDma with pgpuDmaNrActToGpu := true } } := by
    refine ⟨⟨hidle.intact, hidle.llAct, hidle.toIop, ?_, ?_, ?_, ?_⟩, fun _ => ?_,
      fun hoff => absurd hoff.symm Bool.false_ne_true, fun hpos => absurd hlength (Nat.ne_of_gt hpos)⟩
    · exact blockAt_start { s.blockDma with pgpuDmaNrActToGpu := true } _ hlength rfl rfl
    · rw [hsent]
      rfl
    · rw [hlength, wordAt_zero]
      rfl
    · rw [hlength, wordAt_zero]
      rfl
    · exact Nat.lt_succ_of_le (Nat.sub_le _ _)
  obtain ⟨t, ht, hE, -⟩ := (GpuAt.pumped mem _ _ _ _).fillFifoOnDrain hstart hn
  rw [psxDma2GpuW_chcr hbusy, processPgpuDma, if_neg hbusy]
  dsimp only
  rw [or_trigger chcr (by decide), or_trigger chcr (by decide), if_neg (not_not.mpr hlist),
    if_pos hdir]
  exact ⟨t, ht, hE⟩

theorem start_toIop (n : Nat) (hidle : s.Idle) (hstarts : Transfer.toIop.Starts mem s chcr) :
    ∃ u, s.psxDma2GpuW mem n pgpuDmaChcrAddr chcr = some u.drainPgpuDmaNrToIop ∧
      u.dat = s.dat ∧ u.stored = [] ∧
      IopAt s.base s.dma.pgpuDmaMadr s.dma.blockSize s.dma.blockCount 0 u := by
  obtain ⟨hbusy, hlist, hdir⟩ := hstarts
  have hlength : s.stored.length = 0 := by rw [hidle.stored, List.length_nil]
  refine ⟨{ s with
    pgpuDmaChcr := chcr ||| dmaTrigger
    dma := { s.blockDma with pgpuDmaNrActToIop := true } }, ?_, rfl, hidle.stored, ?_⟩
  · rw [psxDma2GpuW_chcr hbusy, processPgpuDma, if_neg hbusy]
    dsimp only
    rw [or_trigger chcr (by decide), or_trigger chcr (by decide), if_neg (not_not.mpr hlist),
      if_neg (not_not.mpr hdir)]
    rfl
  · refine ⟨⟨hidle.intact, hidle.sent, hidle.llAct, hidle.toGpu, ?_, rfl, ?_, ?_⟩, Nat.zero_le _,
      fun hoff => absurd hoff.symm Bool.false_ne_true, fun hpos => absurd hlength (Nat.ne_of_gt hpos)⟩
    · exact blockAt_start { s.blockDma with pgpuDmaNrActToIop := true } _ hlength rfl rfl
    · rw [hidle.stored]
      rfl
    · rw [hlength, Nat.mul_zero, wordAt_zero]
      rfl

end State

theorem DataFifo.count_put {f : DataFifo} (h : f.Intact) (w : Word) : 0 < (f.put w).ring.count := by
  have hsize := h.size_eq
  rw [pgifDatRbSz] at hsize
  rw [ring_put, RingBuf.put]
  split
  · exact Nat.succ_pos _
  · omega

section Block

variable {base madr : U32} {size count k : Nat}

theorem meets_drained {E : Nat → State → Prop} (hmeets : Meets (State.step mem n) Keeps s evs)
    (hdrain : ∀ {k t}, E k t → E k t.drainPgpuDmaNrToIop) :
    Meets (State.step mem n)
      (fun s ev => Keeps s ev ∧ (ev.Writes → ∀ {k t}, E k t → E k t.drainPgpuDmaNrToIop)) s evs :=
  hmeets.mono fun _ _ hkeeps => ⟨hkeeps, fun _ => hdrain⟩

theorem State.IopAt.written (h : IopAt base madr size count 0 s)
    (htotal : 0 < size * count) {ev : Event} (hwrites : ev.Writes)
    (hstep : State.step mem n s ev = some t) : IopAt base madr size count 1 t := by
  have hpumped := IopAt.pumped mem base madr size count 0
  have hput {u : State} (hu : IopAt base madr size count 0 u) (data : U32) :
      IopAt base madr size count 1
        (drainPgpuDmaNrToIop { u with dat := u.dat.put ⟨data, false⟩ }) :=
    (hpumped.beside (k := 0) hu (beside_put hu.intact data)).drain_pos
      (DataFifo.count_put hu.intact _) htotal
  cases ev with
  | pgifW addr data =>
    have haddr : addr = pgpuDatFifo := hwrites
    rw [State.step, State.pgifW, if_pos haddr] at hstep
    cases hstep
    exact hput h data
  | pgifWQword addr d0 d1 d2 d3 =>
    have haddr : addr = pgpuDatFifo := hwrites
    rw [State.step, State.pgifWQword, if_pos haddr] at hstep
    cases hstep
    have h0 := beside_put h.intact d0
    have h1 := h0.trans (beside_put h0.intact d1)
    have h2 := h1.trans (beside_put h1.intact d2)
    exact hput (hpumped.beside (k := 0) h h2) d3
  | psxGPUw | psxGPUr | pgifR | pgifRQword | psxDma2GpuR | psxDma2GpuW => exact absurd hwrites id

theorem State.IopAt.run (h : IopAt base madr size count k s) (hn : 0 < n)
    (hmeets : Meets (State.step mem n) Keeps s evs) :
    ∃ t, run (State.step mem n) s evs = some t ∧ IopAt base madr size count k t := by
  obtain ⟨t, ht, j, -, hE⟩ := (IopAt.pumped mem base madr size count k).run h hn
    (meets_drained hmeets fun h => h.drainToIop _)
  exact ⟨t, ht, hE⟩

theorem State.IopAt.run_written (h : IopAt base madr size count 0 s) (hn : 0 < n)
    (htotal : 0 < size * count) (hmeets : Meets (State.step mem n) Keeps s evs)
    (hwrites : ∃ ev ∈ evs, ev.Writes)
    (hrun : Lib.Traces.run (State.step mem n) s evs = some t) : 0 < t.stored.length := by
  induction evs generalizing s with
  | nil =>
    obtain ⟨ev, hmem, -⟩ := hwrites
    cases hmem
  | cons ev evs ih =>
    obtain ⟨u, hstep, hrest⟩ := Option.bind_eq_some_iff.mp hrun
    by_cases hev : ev.Writes
    · obtain ⟨t', ht', hE⟩ := (h.written htotal hev hstep).run hn (hmeets.2 u hstep)
      rw [hrest] at ht'
      cases ht'
      exact hE.le
    · obtain ⟨u', hu', j, -, hE⟩ := (IopAt.pumped mem base madr size count 0).step h hn hmeets.1
        fun hw => absurd hw hev
      rw [hstep] at hu'
      cases hu'
      obtain ⟨ev', hmem, hwrites'⟩ := hwrites
      obtain rfl | hmem := List.mem_cons.mp hmem
      · exact absurd hwrites' hev
      · exact ih hE (hmeets.2 u hstep) ⟨ev', hmem, hwrites'⟩ hrest

theorem State.IopAt.run_unwritten (h : IopAt base madr size count 0 s) (hs : s.stored = [])
    (hn : 0 < n) (hmeets : Meets (State.step mem n) Keeps s evs)
    (hunwritten : ∀ ev ∈ evs, ¬ev.Writes) :
    ∃ t, Lib.Traces.run (State.step mem n) s evs = some t ∧ IopAt base madr size count 0 t ∧
      t.stored = [] := by
  have hiop := IopAt.pumped mem base madr size count 0
  have hpumped : Pumped mem fun _ s => IopAt base madr size count 0 s ∧ s.stored = [] :=
    { intact := fun h => h.1.intact
      beside := fun {k s t} h hb => ⟨hiop.beside (k := 0) h.1 hb, hb.stored.trans h.2⟩
      list := fun {k s} h => by
        rw [drainPgpuDmaLl_of_idle h.1.llAct]
        exact ⟨k, Nat.le_refl k, h⟩
      round := fun {k s} h hroom hact => absurd (hiop.round (k := 0) h.1 hroom hact) (by simp) }
  obtain ⟨t, ht, j, -, hE⟩ := hpumped.run (k := 0) ⟨h, hs⟩ hn
    (hmeets.and (Meets.of_mem fun ev hev _ hw => absurd hw (hunwritten ev hev)))
  exact ⟨t, ht, hE⟩

end Block

theorem in_place_list {ps : List U32} {k j : Nat} (hn : k < n) (hj : j ≤ k)
    (h : ListAt mem (listWords mem ps) j t) : InPlace mem n s (.list ps) t := by
  obtain ⟨cur, qs, -, hwords, -, hoff⟩ := h.rest
  refine ⟨⟨⟨cur ++ listWords mem qs, ?_⟩, h.intact.kept⟩, (ListAt.pumped mem _).fills hn hj h,
    fun hover => ?_⟩
  · rw [← List.append_assoc, hwords]
  · obtain ⟨rfl, rfl⟩ := hoff hover
    rw [← hwords]
    simp only [listWords, List.flatMap_nil, List.append_nil]

theorem in_place_toGpu {k j : Nat} (hn : k < n) (hj : j ≤ k)
    (h : GpuAt mem s.base s.dma.pgpuDmaMadr s.dma.blockSize s.dma.blockCount j t) :
    InPlace mem n s .toGpu t := by
  refine ⟨⟨?_, h.intact.kept⟩, (GpuAt.pumped mem _ _ _ _).fills hn hj h, h.madr, h.block.blockSize,
    h.block.blockCount, h.ends, h.stops⟩
  rw [h.sent]
  exact wordsAt_prefix mem _ h.block.le

theorem add_four_ne (a : U32) : a + 4 ≠ a := by
  intro h
  have hzero := BitVec.add_right_eq_self.mp h
  exact absurd hzero (by decide)

/-- A block to the IOP is in its place only as long as none of its words is stored. -/
theorem in_place_toIop_iff {k : Nat}
    (h : IopAt s.base s.dma.pgpuDmaMadr s.dma.blockSize s.dma.blockCount k t) :
    InPlace mem n s .toIop t ↔ t.stored.length = 0 := by
  constructor
  · rintro ⟨hstored, hcounted⟩
    rw [h.stored] at hstored
    have hmadr := hcounted.madr
    rw [h.madr] at hmadr
    obtain hzero | hone | ⟨m, hm⟩ : t.stored.length = 0 ∨ t.stored.length = 1 ∨
        ∃ m, t.stored.length = m + 2 := by
      rcases t.stored.length with _ | _ | m
      · exact .inl rfl
      · exact .inr (.inl rfl)
      · exact .inr (.inr ⟨m, rfl⟩)
    · exact hzero
    · rw [hone, Nat.mul_one, wordAt_succ] at hmadr
      exact absurd hmadr (add_four_ne _)
    · rw [hm] at hstored
      have hmem : wordAt s.base 1 ∈ List.replicate (m + 2) s.base := by
        rw [hstored]
        exact List.mem_map_of_mem (List.mem_range.mpr (by omega))
      have hsecond := List.eq_of_mem_replicate hmem
      rw [wordAt_succ, wordAt_zero] at hsecond
      exact absurd hsecond (add_four_ne _)
  · intro hzero
    refine ⟨?_, ?_, h.block.blockSize, h.block.blockCount, h.ends, h.stops⟩
    · rw [hzero, List.length_eq_zero_iff.mp hzero]
      rfl
    · rw [h.madr, hzero]

/-- Every transfer comes to its end, and has every word in its place, unless it stores a word. -/
theorem words_in_place_iff {tr : Transfer} (hidle : s.Idle) (hstarts : tr.Starts mem s chcr)
    (hn : tr.rounds mem s < n)
    (hmeets : ∀ u, s.psxDma2GpuW mem n pgpuDmaChcrAddr chcr = some u →
      Meets (State.step mem n) Keeps u evs) :
    ∃ t, run (State.step mem n) s (.psxDma2GpuW pgpuDmaChcrAddr chcr :: evs) = some t ∧
      (InPlace mem n s tr t ↔ (tr = .toIop → Quiet s evs)) := by
  cases tr with
  | list ps =>
    obtain ⟨u, hu, j, hj, hlist⟩ := start_list hidle hstarts hn
    obtain ⟨t, ht, i, hi, hE⟩ := (ListAt.pumped mem _).run hlist (Nat.lt_of_le_of_lt hj hn)
      (meets_drained (hmeets u hu) fun {k t} h => by rwa [drainPgpuDmaNrToIop_of_idle h.toIop])
    have hplace : InPlace mem n s (.list ps) t := in_place_list hn (Nat.le_trans hi hj) hE
    exact ⟨t, by rw [run, State.step, hu, Option.bind_some, ht],
      iff_of_true hplace fun htr => by cases htr⟩
  | toGpu =>
    obtain ⟨u, hu, j, hj, hgpu⟩ := start_toGpu hidle hstarts hn
    obtain ⟨t, ht, i, hi, hE⟩ := (GpuAt.pumped mem _ _ _ _).run hgpu (Nat.lt_of_le_of_lt hj hn)
      (meets_drained (hmeets u hu) fun {k t} h => by rwa [drainPgpuDmaNrToIop_of_idle h.toIop])
    have hplace : InPlace mem n s .toGpu t := in_place_toGpu hn (Nat.le_trans hi hj) hE
    exact ⟨t, by rw [run, State.step, hu, Option.bind_some, ht],
      iff_of_true hplace fun htr => by cases htr⟩
  | toIop =>
    have hpos : 0 < n := hn
    obtain ⟨u, hu, hdat, hstored, hiop⟩ := start_toIop n hidle hstarts
    have hrest := hmeets _ hu
    have hdrained : IopAt s.base s.dma.pgpuDmaMadr s.dma.blockSize s.dma.blockCount 0
        u.drainPgpuDmaNrToIop := hiop.drainToIop _
    obtain ⟨t, ht, hE⟩ := hdrained.run hpos hrest
    refine ⟨t, by rw [run, State.step, hu, Option.bind_some, ht], ?_⟩
    rw [in_place_toIop_iff hE]
    constructor
    · intro hzero _
      by_contra hquiet
      obtain ⟨htotal, hcomes⟩ := not_or.mp hquiet
      have hwords : 0 < s.dma.blockSize * s.dma.blockCount := Nat.pos_of_ne_zero htotal
      by_cases hcount : s.dat.ring.count = 0
      · obtain ⟨ev, hmem, hwrites⟩ : ∃ ev ∈ evs, ev.Writes := by
          by_contra hnone
          exact hcomes ⟨hcount, fun ev hmem hw => hnone ⟨ev, hmem, hw⟩⟩
        have hlength := hdrained.run_written hpos hwords hrest ⟨ev, hmem, hwrites⟩ ht
        omega
      · rw [← hdat] at hcount
        obtain ⟨t', ht', hE'⟩ := (hiop.drain_pos (Nat.pos_of_ne_zero hcount) hwords).run hpos hrest
        rw [ht] at ht'
        cases ht'
        have hle := hE'.le
        omega
    · intro hquiet
      obtain htotal | ⟨hcount, hunwritten⟩ := hquiet rfl
      · have hle := hE.block.le
        rw [State.total] at htotal
        omega
      · have hsame : u.drainPgpuDmaNrToIop = u := by rw [drainPgpuDmaNrToIop, hdat, hcount, drainToIop]
        rw [hsame] at hrest ht
        obtain ⟨t', ht', -, hnone⟩ := hiop.run_unwritten hstored hpos hrest hunwritten
        rw [ht] at ht'
        cases ht'
        rw [hnone, List.length_nil]

/-- After `pgifInit` and writes to `MADR`, `BCR` and the control register. -/
def programmed (madr bcr ctrl : U32) : State :=
  { pgifInit with
    dma := { pgifInit.dma with pgpuDmaMadr := madr, pgpuDmaBcr := bcr }
    pGifCtrlReg := ctrl }

theorem idle_programmed (madr bcr ctrl : U32) : (programmed madr bcr ctrl).Idle where
  ok := RingBuf.ok_empty (by decide) _
  size_eq := rfl
  foreign w hw := by cases hw
  left := rfl
  lost := rfl
  stored := rfl
  llAct := rfl
  toGpu := rfl
  toIop := rfl

/-- A packet of one word at `0x100`, and the end of the list. -/
def onePacket (a : U32) : U32 := if a = 0x100 then 0x01FFFFFF else a

theorem words_in_place_onePacket : ∃ t,
    run (State.step onePacket 4) (programmed 0x100 0 8)
      [.psxDma2GpuW pgpuDmaChcrAddr 0x01000401, .pgifR pgpuDatFifo] = some t ∧
    InPlace onePacket 4 (programmed 0x100 0 8) (.list [0x100]) t := by
  have hlinked : Linked onePacket 0x100 [0x100] := .packet (by decide) .done
  have hstarts : (Transfer.list [0x100]).Starts onePacket (programmed 0x100 0 8) 0x01000401 :=
    ⟨by decide, by decide, by decide, hlinked⟩
  have hkeeps (u : State) : Meets (State.step onePacket 4) Keeps u [.pgifR pgpuDatFifo] :=
    ⟨fun hcmd => absurd hcmd (by decide), fun _ _ => trivial⟩
  obtain ⟨t, ht, hplace⟩ := words_in_place_iff (idle_programmed 0x100 0 8) hstarts (by decide)
    fun u _ => hkeeps u
  exact ⟨t, ht, hplace.mpr fun htr => by cases htr⟩

/-- A block of two words to `0x1000`: both are stored there, and `MADR` ends at `0x1010`. -/
theorem not_in_place : ∃ t,
    run (State.step onePacket 1) (programmed 0x1000 0x00010002 0)
      [.psxDma2GpuW pgpuDmaChcrAddr 0x01000000, .pgifW pgpuDatFifo 7, .pgifW pgpuDatFifo 8] =
      some t ∧
    t.stored = [(0x1000, 7), (0x1000, 8)] ∧ t.dma.pgpuDmaMadr = 0x1010 ∧
    ¬InPlace onePacket 1 (programmed 0x1000 0x00010002 0) .toIop t := by
  refine ⟨_, rfl, rfl, rfl, fun hplace => ?_⟩
  exact absurd hplace.1 (by decide)

end OmegaRed.Pgif
