import OmegaRed.Lib.Traces
import OmegaRed.Sif.Sif1Carry

/-! The words on their way through SIF1: what the moves keep of the blocks. -/

namespace OmegaRed.Sif.Sif1

open Lib Lib.Memory Relation

/-- What the IOP has received, is receiving and will receive are the blocks in order. -/
structure Carries (c : Chain) (mem : Nat → UInt8) (s : State) : Prop where
  taken_le : s.taken ≤ c.blocks.length
  idle_counter : s.iop.busy = false → s.iop.counter = 0
  dest : InIopMem s.iop.madr s.iop.counter.toNat
  words : ∃ cur base, Resolves s.ee.madr s.ee.qwc base ∧
    s.fifo.content fifoSifW ++ load c.eeMem base (4 * s.ee.qwc) ++ c.stream s.fetched =
      cur ++ c.blocksFrom s.taken ∧
    cur.length = s.iop.counter.toNat ∧
    store s.iopMem (iopPhysMem s.iop.madr) (cur.flatMap Words.bytes) = c.delivered mem s.taken

section carries

variable {c : Chain} {mem : Nat → UInt8} {s : State}

theorem Carries.writeEEtoFifo (h : Carries c mem s) (hs : Sized s) (hf : Follows c s)
    (hstr : s.ee.str = true) (hqwc : 0 < s.ee.qwc) : Carries c mem (writeEEtoFifo c.eeMem s) := by
  obtain ⟨cur, base, hbase, hflight, hcur⟩ := h.words
  have hle : writeSize s ≤ s.ee.qwc := Nat.min_le_left _ _
  have hsplit : 4 * s.ee.qwc = 4 * writeSize s + 4 * (s.ee.qwc - writeSize s) := by omega
  have hroom : s.fifo.size + (load c.eeMem base (4 * writeSize s)).length ≤ fifoSifW := by
    have hfull := hs.fifo.size_le
    have hfree := free_eq s.fifo
    rw [length_load]
    simp only [writeSize]
    simp only [fifoSifW] at hfull hfree ⊢
    omega
  rw [writeEEtoFifo_eq hstr hf.mod (hbase.base hqwc false)]
  refine ⟨h.taken_le, h.idle_counter, h.dest, cur, base + 4 * writeSize s, hbase.add _, ?_, hcur⟩
  rw [← hflight, hsplit, load_add, hs.fifo.content_write hroom]
  simp only [List.append_assoc]

theorem Carries.processEETag (h : Carries c mem s) (hs : Sized s) (hf : Follows c s)
    (hl : c.Linked) (hc : c.Matched) (hbusy : s.ee.busy = true) (hqwc : s.ee.qwc = 0)
    (hended : s.ee.ended = false) (hfree : 0 < s.fifo.free fifoSifW) :
    Carries c mem (processEETag c.eeMem s) := by
  obtain ⟨cur, base, hbase, hflight, hcur⟩ := h.words
  have hgoes : endsHere c s = false := (hf.ended hbusy).symm.trans hended
  obtain ⟨hlt, htadr⟩ := hf.next (.inl hbusy) hgoes
  rw [Ee.nextTadr_of_zero hqwc] at htadr
  have htag : ⟨c.eeMem (c.base s.fetched)⟩ = c.tag s.fetched := rfl
  have heven := hs.size_even
  rw [free_eq] at hfree
  rw [processEETag_eq (by rw [htadr]; exact hl.base_eq hlt) htag (hl.id_lt s.fetched hlt)]
  refine ⟨h.taken_le, h.idle_counter, h.dest, cur, destBase (c.source s.fetched), ?_, ?_, hcur⟩
  · have hmadr : (if (c.tag s.fetched).id = tagCNT ∨ (c.tag s.fetched).id = tagNEXT ∨
        (c.tag s.fetched).id = tagEND then s.ee.tadr + 16 else c.eeMem (c.base s.fetched + 1)) =
        c.source s.fetched := by
      rw [Chain.source, htadr]
      rfl
    simp only [hmadr]
    exact hc.resolves hlt
  · rw [← hflight, hqwc, Chain.stream_of_lt hlt, Chain.words]
    simp only [hf.tte]
    cases c.tte with
    | false => simp
    | true =>
      have hroom : s.fifo.size + (load c.eeMem (c.base s.fetched + 2) 2).length ≤ fifoSifW := by
        rw [length_load]
        simp only [fifoSifW]
        omega
      rw [if_pos rfl, if_pos rfl, hs.fifo.content_write hroom]
      simp

theorem length_flatMap_bytes (l : List UInt32) : (l.flatMap Words.bytes).length = 4 * l.length := by
  induction l with
  | nil => rfl
  | cons x l ih =>
    rw [List.flatMap_cons, List.length_append, ih, Words.length_bytes, List.length_cons]
    omega

theorem Carries.writeFifoToIOP (h : Carries c mem s) (hs : Sized s) (hbusy : s.iop.busy = true)
    (hcounter : 0 < s.iop.counter) (hsize : 0 < s.fifo.size) :
    Carries c mem (writeFifoToIOP s) := by
  obtain ⟨cur, base, hbase, hflight, hcur, hmem⟩ := h.words
  let k := (min s.iop.counter s.fifo.size).toNat
  have hk : (k : Int) ≤ s.fifo.size := by omega
  have hkc : k ≤ s.iop.counter.toNat := by omega
  have hcount : (Sif1.writeFifoToIOP s).iop.counter.toNat = s.iop.counter.toNat - k := by
    simp only [Sif1.writeFifoToIOP, k]
    omega
  have hlen := s.fifo.length_read fifoSifW k
  have htake : (cur.take k).length = k := by
    rw [List.length_take]
    omega
  rw [hs.fifo.content_read hk, List.append_assoc, List.append_assoc,
    ← List.take_append_drop k cur, List.append_assoc] at hflight
  obtain ⟨hread, hrest⟩ := List.append_inj hflight (hlen.trans htake.symm)
  have hbytes : ((cur.take k).flatMap Words.bytes).length = 4 * k := by
    rw [length_flatMap_bytes, htake]
  refine ⟨h.taken_le, fun hidle => ?_, ?_, cur.drop k, base, hbase, ?_, ?_, ?_⟩
  · rw [show (Sif1.writeFifoToIOP s).iop.busy = s.iop.busy from rfl, hbusy] at hidle
    cases hidle
  · rw [hcount]
    exact h.dest.add hkc
  · rw [List.append_assoc]
    exact hrest
  · rw [hcount, List.length_drop, hcur]
  · change store (store s.iopMem (iopPhysMem s.iop.madr)
      ((s.fifo.read fifoSifW k).1.flatMap Words.bytes)) (iopPhysMem (s.iop.madr + .ofNat (4 * k))) _
        = _
    rcases Nat.lt_or_eq_of_le hkc with hlt | heq
    · have happend := store_append s.iopMem (iopPhysMem s.iop.madr)
        ((cur.take k).flatMap Words.bytes) ((cur.drop k).flatMap Words.bytes)
      rw [hbytes, ← List.flatMap_append, List.take_append_drop] at happend
      rw [iopPhysMem_add h.dest hlt, hread, happend, hmem]
      rfl
    · have hnil : cur.drop k = [] := List.drop_eq_nil_of_le (by omega)
      have hall : cur.take k = cur := List.take_of_length_le (by omega)
      rw [hnil, List.flatMap_nil, store_nil, hread, hall, hmem]
      rfl

theorem Carries.endIOP (h : Carries c mem s) (hs : Sized s) (hcounter : s.iop.counter ≤ 0) :
    Carries c mem (endIOP s) where
  taken_le := h.taken_le
  idle_counter := fun _ => Int.le_antisymm hcounter hs.counter_nonneg
  dest := h.dest
  words := h.words

theorem Carries.sifIOPReadTag (h : Carries c mem s) (hs : Sized s) (hc : c.Matched)
    (hfit : c.Fits) (hbusy : s.iop.busy = true) (hcounter : s.iop.counter ≤ 0)
    (hsize : 4 ≤ s.fifo.size) : Carries c mem (sifIOPReadTag s) := by
  obtain ⟨cur, base, hbase, hflight, hcur, hmem⟩ := h.words
  have hnil : cur = [] := List.eq_nil_of_length_eq_zero (by omega)
  have hlen := s.fifo.length_read fifoSifW 4
  rw [hnil, List.flatMap_nil, store_nil] at hmem
  rw [hs.fifo.content_read hsize, List.append_assoc, List.append_assoc, hnil, List.nil_append]
    at hflight
  have hlt : s.taken < c.blocks.length := by
    by_contra hge
    rw [Chain.blocksFrom_of_le (by omega), List.append_eq_nil_iff] at hflight
    rw [hflight.1] at hlen
    cases hlen
  rw [Chain.blocksFrom_of_lt hlt] at hflight
  have hmem_block : c.blocks[s.taken] ∈ c.blocks := List.getElem_mem hlt
  generalize hb : c.blocks[s.taken] = b at hflight hmem_block
  have hwhole := hfit.whole b hmem_block
  have hpayload := Block.payload_length (hc.padded b hmem_block) hwhole
  rw [show b.spell = [b.data, b.words, b.tagLo, b.tagHi] ++ b.payload from rfl,
    List.append_assoc] at hflight
  obtain ⟨htag, hrest⟩ := List.append_inj hflight hlen
  have hmadr : (Sif1.sifIOPReadTag s).iop.madr = b.dest := by
    simp only [Sif1.sifIOPReadTag, htag]
    rfl
  have hcount : (Sif1.sifIOPReadTag s).iop.counter.toNat = b.words.toNat := by
    simp only [Sif1.sifIOPReadTag, htag]
    exact Block.counter_eq hwhole
  refine ⟨hlt, fun hidle => ?_, ?_, b.payload, base, hbase, ?_, ?_, ?_⟩
  · rw [show (Sif1.sifIOPReadTag s).iop.busy = s.iop.busy from rfl, hbusy] at hidle
    cases hidle
  · rw [hmadr, hcount]
    exact hfit.dest b hmem_block
  · rw [List.append_assoc]
    exact hrest
  · rw [hcount, hpayload]
  · have hnext := Chain.delivered_succ mem hlt
    rw [hb, List.take_of_length_le (by omega), ← hmem, ← hmadr] at hnext
    exact hnext.symm

theorem Carries.moveEE {t : State} (h : Carries c mem s) (hs : Sized s) (hf : Follows c s)
    (hl : c.Linked) (hc : c.Matched) (hmove : MoveEE c.eeMem s t) : Carries c mem t := by
  cases hmove with
  | stopEE => exact ⟨h.taken_le, h.idle_counter, h.dest, h.words⟩
  | endEE => exact ⟨h.taken_le, h.idle_counter, h.dest, h.words⟩
  | tagEE hbusy _ hqwc hended hfree => exact h.processEETag hs hf hl hc hbusy hqwc hended hfree
  | writeEE _ hstr hqwc => exact h.writeEEtoFifo hs hf hstr hqwc

theorem Carries.moveIOP {t : State} (h : Carries c mem s) (hs : Sized s) (hc : c.Matched)
    (hfit : c.Fits) (hmove : MoveIOP s t) : Carries c mem t := by
  cases hmove with
  | writeIOP hbusy hcounter hsize => exact h.writeFifoToIOP hs hbusy hcounter hsize
  | endIOP _ hcounter => exact h.endIOP hs hcounter
  | tagIOP hbusy hcounter _ hsize => exact h.sifIOPReadTag hs hc hfit hbusy hcounter hsize

end carries

end OmegaRed.Sif.Sif1

/-! Runs of SIF1: starts, force stops and interrupts in any order, and the loop's end. -/

namespace OmegaRed.Sif.Sif1

open Lib Lib.Memory Relation

/-- The channel is stopped by a write of 0 to STR. -/
def stopChannel (s : State) : State :=
  { s with ee := { s.ee with str := false, interrupt := none } }

def sif1Interrupt (s : State) : State := { s with iop := { s.iop with interrupt := none } }

/-- The state of `sifReset` with the channel in chain mode. -/
structure Initial (c : Chain) (mem : Nat → UInt8) (s : State) : Prop where
  fifo : s.fifo.Ok fifoSifW
  size : s.fifo.size = 0
  ee_busy : s.ee.busy = false
  iop_busy : s.iop.busy = false
  mod : s.ee.mod = chainMode
  tte : s.ee.tte = c.tte
  tie : s.ee.tie = c.tie
  qwc : s.ee.qwc = 0
  counter : s.iop.counter = 0
  fetched : s.fetched = 0
  taken : s.taken = 0
  iopMem : s.iopMem = mem

/-- A chain that is taken up again in the middle of a tag asks VIF1 only where the answer is the
same. -/
def ResumesAlike (c : Chain) (vif1Tie : Bool) (t : DmaTag) : Prop :=
  t.irq = true → vif1Tie = c.tie ∨ t.id = tagREFE ∨ t.id = tagEND

/-- A side is started when it is stopped; a stopped chain is taken up again where it stands. -/
inductive Step (c : Chain) (s : State) : State → Prop
  | dmaSIF1 (vif1Tie : Bool) (hidle : s.ee.str = false) (hleft : s.ee.qwc = 0 → s.fetched < c.n)
      (hresume : 0 < s.ee.qwc → ResumesAlike c vif1Tie s.ee.tag) :
      Step c s (startEE vif1Tie { s with ee := { s.ee with
        str := true, tadr := if s.ee.qwc = 0 then c.tadr s.fetched else s.ee.tadr } })
  | psxDma10 (hidle : s.iop.busy = false) : Step c s (startIOP s)
  | stop : Step c s (stopChannel s)
  | init : Step c s (sif1Init s)
  | runEE : Step c s (runEE c.eeMem s)
  | runIOP : Step c s (runIOP s)
  | eeInterrupt (hint : s.ee.interrupt ≠ none) : Step c s (eesif1Interrupt s)
  | iopInterrupt (hint : s.iop.interrupt ≠ none) : Step c s (sif1Interrupt s)

def Reachable (c : Chain) (mem : Nat → UInt8) (s : State) : Prop :=
  ∃ s₀, Initial c mem s₀ ∧ ReflTransGen (Step c) s₀ s

section run

variable {c : Chain} {mem : Nat → UInt8} {s t : State}

theorem Sized.runEE (h : Sized s) : Sized (runEE c.eeMem s) := by
  cases hrun : eeCanRun s with
  | true => exact h.moveEE (move_runEE hrun)
  | false => rwa [Sif1.runEE, hrun]

theorem Sized.movesIOP (h : Sized s) (hmoves : ReflTransGen MoveIOP s t) : Sized t := by
  induction hmoves with
  | refl => exact h
  | tail _ hmove ih => exact ih.moveIOP hmove

theorem moves_iop : ReflTransGen MoveIOP s (runIOP s) := by
  cases h : iopCanRun s with
  | true => exact (moves_runIOP h).to_reflTransGen
  | false => rw [runIOP, h]; exact .refl

theorem Follows.runEE (h : Follows c s) (hl : c.Linked) (hirq : c.IrqEnds) :
    Follows c (runEE c.eeMem s) := by
  cases hrun : eeCanRun s with
  | true => exact h.moveEE hl hirq (move_runEE hrun)
  | false => rwa [Sif1.runEE, hrun]

theorem Follows.movesIOP (h : Follows c s) (hmoves : ReflTransGen MoveIOP s t) : Follows c t := by
  induction hmoves with
  | refl => exact h
  | tail _ hmove ih => exact ih.moveIOP hmove

theorem Carries.runEE (h : Carries c mem s) (hs : Sized s) (hf : Follows c s) (hl : c.Linked)
    (hc : c.Matched) : Carries c mem (runEE c.eeMem s) := by
  cases hrun : eeCanRun s with
  | true => exact h.moveEE hs hf hl hc (move_runEE hrun)
  | false => rwa [Sif1.runEE, hrun]

theorem Carries.movesIOP (h : Carries c mem s) (hs : Sized s) (hc : c.Matched) (hfit : c.Fits)
    (hmoves : ReflTransGen MoveIOP s t) : Carries c mem t := by
  induction hmoves with
  | refl => exact h
  | tail hrun hmove ih => exact ih.moveIOP (hs.movesIOP hrun) hc hfit hmove

theorem Sized.step (h : Sized s) (hstep : Step c s t) : Sized t := by
  cases hstep with
  | dmaSIF1 => exact ⟨h.fifo, h.size_even, h.counter_nonneg, h.counter_even, h.whole⟩
  | psxDma10 => exact ⟨h.fifo, h.size_even, h.counter_nonneg, h.counter_even, h.whole⟩
  | stop => exact ⟨h.fifo, h.size_even, h.counter_nonneg, h.counter_even, h.whole⟩
  | init => exact ⟨h.fifo, h.size_even, h.counter_nonneg, h.counter_even, h.whole⟩
  | runEE => exact h.runEE
  | runIOP => exact h.movesIOP moves_iop
  | eeInterrupt => exact ⟨h.fifo, h.size_even, h.counter_nonneg, h.counter_even, h.whole⟩
  | iopInterrupt => exact ⟨h.fifo, h.size_even, h.counter_nonneg, h.counter_even, h.whole⟩

theorem tagEnds_eq_of_resumesAlike {vif1Tie : Bool} {tag : DmaTag}
    (h : ResumesAlike c vif1Tie tag) : tagEnds vif1Tie tag = tagEnds c.tie tag := by
  rw [tagEnds, tagEnds]
  cases hirq : tag.irq with
  | false => rfl
  | true =>
    rcases h hirq with heq | hid | hid
    · rw [heq]
    · simp [hid]
    · simp [hid]

theorem Follows.startEE (h : Follows c s) {vif1Tie : Bool} (hleft : s.ee.qwc = 0 → s.fetched < c.n)
    (hresume : 0 < s.ee.qwc → ResumesAlike c vif1Tie s.ee.tag) :
    Follows c (startEE vif1Tie { s with ee := { s.ee with
      str := true, tadr := if s.ee.qwc = 0 then c.tadr s.fetched else s.ee.tadr } }) := by
  rcases Nat.eq_zero_or_pos s.ee.qwc with hqwc | hqwc
  · have hstart : ¬ (s.ee.mod = chainMode ∧ 0 < s.ee.qwc) := fun hand => by omega
    simp only [Sif1.startEE, hstart, if_false, decide_false, Bool.false_and]
    refine ⟨h.mod, h.tte, h.tie, h.fetched_le, fun hpos => ?_, fun hpos => ?_, fun _ _ => ?_,
      fun _ => rfl⟩
    · exact absurd hpos (by simp [hqwc])
    · exact absurd hpos (by simp [hqwc])
    · refine ⟨hleft hqwc, (Ee.nextTadr_of_zero ?_).trans (if_pos hqwc)⟩
      exact hqwc
  · have hstart : s.ee.mod = chainMode ∧ 0 < s.ee.qwc := ⟨h.mod, hqwc⟩
    have hcurrent := h.current hqwc
    have hne : s.ee.qwc ≠ 0 := by omega
    simp only [Sif1.startEE, hstart, if_true, decide_true, Bool.true_and, and_self, hne, if_false]
    refine ⟨rfl, h.tte, h.tie, h.fetched_le, fun _ => rfl, h.atData, fun _ hgoes => ?_,
      fun _ => ?_⟩
    · exact h.next (.inr hqwc) (by rw [endsHere, hcurrent]; exact hgoes)
    · exact tagEnds_eq_of_resumesAlike (hresume hqwc)

theorem Follows.step (h : Follows c s) (hl : c.Linked) (hirq : c.IrqEnds) (hstep : Step c s t) :
    Follows c t := by
  cases hstep with
  | dmaSIF1 _ _ hleft hresume => exact h.startEE hleft hresume
  | psxDma10 => exact ⟨h.mod, h.tte, h.tie, h.fetched_le, h.current, h.atData, h.next, h.ended⟩
  | stop => exact ⟨h.mod, h.tte, h.tie, h.fetched_le, h.current, h.atData, h.next, h.ended⟩
  | init => exact ⟨h.mod, h.tte, h.tie, h.fetched_le, h.current, h.atData, h.next, h.ended⟩
  | runEE => exact h.runEE hl hirq
  | runIOP => exact h.movesIOP moves_iop
  | eeInterrupt => exact ⟨h.mod, h.tte, h.tie, h.fetched_le, h.current, h.atData, h.next, h.ended⟩
  | iopInterrupt =>
    exact ⟨h.mod, h.tte, h.tie, h.fetched_le, h.current, h.atData, h.next, h.ended⟩

theorem Carries.step (h : Carries c mem s) (hs : Sized s) (hf : Follows c s) (hl : c.Linked)
    (hc : c.Matched) (hfit : c.Fits) (hstep : Step c s t) : Carries c mem t := by
  cases hstep with
  | dmaSIF1 => exact ⟨h.taken_le, h.idle_counter, h.dest, h.words⟩
  | psxDma10 => exact ⟨h.taken_le, fun hb => Bool.noConfusion hb, h.dest, h.words⟩
  | stop => exact ⟨h.taken_le, h.idle_counter, h.dest, h.words⟩
  | init => exact ⟨h.taken_le, h.idle_counter, h.dest, h.words⟩
  | runEE => exact h.runEE hs hf hl hc
  | runIOP => exact h.movesIOP hs hc hfit moves_iop
  | eeInterrupt => exact ⟨h.taken_le, h.idle_counter, h.dest, h.words⟩
  | iopInterrupt => exact ⟨h.taken_le, h.idle_counter, h.dest, h.words⟩

end run

end OmegaRed.Sif.Sif1
