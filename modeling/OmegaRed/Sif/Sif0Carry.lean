import OmegaRed.Sif.Sif0

/-! What the moves of SIF0 keep: the queue's bounds, the place in the chain, the words on their way. -/

namespace OmegaRed.Sif.Sif0

open Lib Lib.Memory Relation

/-- The queue and the rest of the block are whole quadwords. -/
structure Sized (s : State) : Prop where
  fifo : s.fifo.Ok fifoSifW
  size_mod : s.fifo.size % 4 = 0
  counter_nonneg : 0 ≤ s.iop.counter
  counter_mod : s.iop.counter % 4 = 0

/-- A running IOP side stands at the next tag of the chain. -/
structure Follows (c : Chain) (s : State) : Prop where
  sent_le : s.sent ≤ c.n
  next : s.iop.busy = true → s.iop.ended = false → s.sent < c.n ∧ s.iop.tadr = c.tags s.sent

/-- What the EE has read, is reading and will read are the blocks in order. -/
structure Carries (c : Chain) (mem : Nat → UInt32) (s : State) : Prop where
  chainMode : s.ee.normalMode = false
  tie : s.ee.tie = c.tie
  str : s.ee.busy = true → s.ee.str = true
  interrupt : s.ee.busy = true → s.ee.interrupt = none
  idle_qwc : s.ee.busy = false → s.ee.qwc = 0
  idle_counter : s.iop.busy = false → s.iop.counter = 0
  waits : s.ee.busy = true → s.ee.ended = false → s.received < c.n
  source : InIopMem s.iop.madr s.iop.counter.toNat
  words : ∃ cur w base, Spells c s.received s.sent w ∧
    s.fifo.content fifoSifW ++ iopWords c.iopMem (iopPhysMem s.iop.madr) s.iop.counter.toNat =
      cur ++ w ∧
    cur.length = 4 * s.ee.qwc ∧ Resolves s.ee.madr s.ee.qwc base ∧
    store s.eeMem base cur = c.delivered mem s.received

theorem free_eq (f : RingFifo UInt32) : f.free fifoSifW = 128 - f.size := rfl

section sized

variable {iopMem : Nat → UInt32} {s : State}

theorem Sized.writeIOPtoFifo (h : Sized s) (hcounter : 0 < s.iop.counter)
    (hfree : 0 < s.fifo.free fifoSifW) : Sized (writeIOPtoFifo iopMem s) := by
  have hsize := h.size_mod
  have hmod := h.counter_mod
  rw [free_eq] at hfree
  constructor
  · refine h.fifo.write ?_
    rw [length_iopWords, free_eq]
    simp only [fifoSifW]
    omega
  · simp only [Sif0.writeIOPtoFifo, RingFifo.write, length_iopWords, free_eq]
    omega
  · simp only [Sif0.writeIOPtoFifo, free_eq]
    omega
  · simp only [Sif0.writeIOPtoFifo, free_eq]
    omega

theorem tagCount (w : UInt32) : (((w + 3) &&& 0xfffffffc) &&& 0xffffc).toNat % 4 = 0 :=
  Chain.count_mod ⟨fun _ => w, fun _ => 0, 0, false⟩ 0

theorem Sized.processIOPTag (h : Sized s) (hfree : 0 < s.fifo.free fifoSifW) :
    Sized (processIOPTag iopMem s) := by
  have hsize := h.size_mod
  have hcount := tagCount (iopMem (iopPhysMem s.iop.tadr + 4))
  rw [free_eq] at hfree
  constructor
  · refine (h.fifo.write ?_).bump ?_
    · rw [length_iopWords]
      simp only [fifoSifW]
      omega
    · simp only [RingFifo.write, length_iopWords, fifoSifW]
      omega
  · simp only [Sif0.processIOPTag, RingFifo.bump, RingFifo.write, length_iopWords]
    omega
  · exact Int.natCast_nonneg _
  · simp only [Sif0.processIOPTag]
    omega

theorem Sized.processEETag (h : Sized s) (hsize : 4 ≤ s.fifo.size) : Sized (processEETag s) where
  fifo := h.fifo.read hsize
  size_mod := by
    have hmod := h.size_mod
    simp only [Sif0.processEETag, RingFifo.read]
    omega
  counter_nonneg := h.counter_nonneg
  counter_mod := h.counter_mod

theorem Sized.writeFifoToEE (h : Sized s) : Sized (writeFifoToEE s) := by
  have hmod := h.size_mod
  have hnonneg := h.fifo.size_nonneg
  rw [Sif0.writeFifoToEE]
  split
  · exact ⟨h.fifo, hmod, h.counter_nonneg, h.counter_mod⟩
  · refine ⟨h.fifo.read ?_, ?_, h.counter_nonneg, h.counter_mod⟩
    · omega
    · simp only [RingFifo.read]
      omega

theorem Sized.move {t : State} (h : Sized s) (hmove : Move iopMem s t) : Sized t := by
  cases hmove with
  | endIOP => exact ⟨h.fifo, h.size_mod, h.counter_nonneg, h.counter_mod⟩
  | tagIOP _ _ _ hfree => exact h.processIOPTag hfree
  | writeIOP _ hcounter hfree => exact h.writeIOPtoFifo hcounter hfree
  | stopEE => exact ⟨h.fifo, h.size_mod, h.counter_nonneg, h.counter_mod⟩
  | endEE => exact ⟨h.fifo, h.size_mod, h.counter_nonneg, h.counter_mod⟩
  | tagEE _ _ _ _ _ hsize => exact h.processEETag hsize
  | writeEE => exact h.writeFifoToEE

end sized

section follows

variable {c : Chain} {s : State}

@[simp] theorem writeFifoToEE_iop (s : State) : (writeFifoToEE s).iop = s.iop := by
  rw [writeFifoToEE]
  split <;> rfl

@[simp] theorem writeFifoToEE_sent (s : State) : (writeFifoToEE s).sent = s.sent := by
  rw [writeFifoToEE]
  split <;> rfl

theorem processIOPTag_ended (htadr : s.iop.tadr = c.tags s.sent) (hended : s.iop.ended = false) :
    (processIOPTag c.iopMem s).iop.ended = c.iopEnds s.sent := by
  simp only [processIOPTag, hended, htadr, Bool.false_or]
  rfl

theorem Follows.processIOPTag (h : Follows c s) (hc : c.Linked) (hbusy : s.iop.busy = true)
    (hended : s.iop.ended = false) : Follows c (processIOPTag c.iopMem s) := by
  obtain ⟨hlt, htadr⟩ := h.next hbusy hended
  refine ⟨hlt, fun _ hgoes => ?_⟩
  rw [processIOPTag_ended htadr hended] at hgoes
  have hmore : s.sent + 1 < c.n := by
    by_contra hge
    rw [hc.last s.sent (by omega)] at hgoes
    cases hgoes
  refine ⟨hmore, ?_⟩
  rw [show (Sif0.processIOPTag c.iopMem s).iop.tadr = s.iop.tadr + 16 from rfl, htadr]
  exact (hc.next s.sent hmore hgoes).symm

theorem Follows.move {t : State} (h : Follows c s) (hc : c.Linked)
    (hmove : Move c.iopMem s t) : Follows c t := by
  cases hmove with
  | endIOP => exact ⟨h.sent_le, fun hbusy => Bool.noConfusion hbusy⟩
  | tagIOP hbusy _ hended => exact h.processIOPTag hc hbusy hended
  | writeIOP => exact ⟨h.sent_le, h.next⟩
  | stopEE => exact ⟨h.sent_le, h.next⟩
  | endEE => exact ⟨h.sent_le, h.next⟩
  | tagEE => exact ⟨h.sent_le, h.next⟩
  | writeEE => exact ⟨by simpa using h.sent_le, by simpa using h.next⟩

end follows

section carries

variable {c : Chain} {mem : Nat → UInt32} {s : State}

theorem Carries.endIOP (h : Carries c mem s) (hs : Sized s) (hcounter : s.iop.counter ≤ 0) :
    Carries c mem (endIOP s) where
  chainMode := h.chainMode
  tie := h.tie
  str := h.str
  interrupt := h.interrupt
  idle_qwc := h.idle_qwc
  idle_counter := fun _ => Int.le_antisymm hcounter hs.counter_nonneg
  waits := h.waits
  source := h.source
  words := h.words

theorem Carries.writeIOPtoFifo (h : Carries c mem s) (hs : Sized s)
    (hbusy : s.iop.busy = true) (hcounter : 0 < s.iop.counter)
    (hfree : 0 < s.fifo.free fifoSifW) : Carries c mem (writeIOPtoFifo c.iopMem s) := by
  obtain ⟨cur, w, base, hspells, hflight, hcur⟩ := h.words
  let k := (min s.iop.counter (s.fifo.free fifoSifW)).toNat
  have hk : k ≤ s.iop.counter.toNat := by omega
  have hroom : s.fifo.size + (iopWords c.iopMem (iopPhysMem s.iop.madr) k).length ≤ fifoSifW := by
    rw [length_iopWords]
    simp only [k, RingFifo.free, fifoSifW] at hfree ⊢
    omega
  have hcount : (Sif0.writeIOPtoFifo c.iopMem s).iop.counter.toNat = s.iop.counter.toNat - k := by
    simp only [Sif0.writeIOPtoFifo, k]
    omega
  refine ⟨h.chainMode, h.tie, h.str, h.interrupt, h.idle_qwc, fun hidle => ?_, h.waits, ?_, ?_⟩
  · rw [show (Sif0.writeIOPtoFifo c.iopMem s).iop.busy = s.iop.busy from rfl, hbusy] at hidle
    cases hidle
  · rw [hcount]
    exact h.source.add hk
  · refine ⟨cur, w, base, hspells, ?_, hcur⟩
    rw [hcount, ← hflight, h.source.iopWords_eq hk, ← List.append_assoc]
    congr 1
    exact hs.fifo.content_write hroom

theorem tagWords (h : InIopMem (c.tags s.sent) 4) (htadr : s.iop.tadr = c.tags s.sent) :
    iopWords c.iopMem (iopPhysMem (s.iop.tadr + 8)) 2 = [c.lo s.sent, c.hi s.sent] := by
  have hadd : iopPhysMem (c.tags s.sent + 8) = iopPhysMem (c.tags s.sent) + 8 :=
    iopPhysMem_add (k := 2) h (by decide)
  rw [htadr, hadd]
  rfl

theorem Carries.processIOPTag (h : Carries c mem s) (hs : Sized s) (hf : Follows c s)
    (hc : c.Matched) (hp : c.Placed) (hbusy : s.iop.busy = true) (hcounter : s.iop.counter ≤ 0)
    (hended : s.iop.ended = false) (hfree : 0 < s.fifo.free fifoSifW) :
    Carries c mem (processIOPTag c.iopMem s) := by
  obtain ⟨hlt, htadr⟩ := hf.next hbusy hended
  obtain ⟨cur, w, base, hspells, hflight, hcur⟩ := h.words
  have hzero : s.iop.counter = 0 := Int.le_antisymm hcounter hs.counter_nonneg
  have hmadr : (Sif0.processIOPTag c.iopMem s).iop.madr = c.source s.sent := by
    simp only [Sif0.processIOPTag, htadr]
    rfl
  have hcount : (Sif0.processIOPTag c.iopMem s).iop.counter.toNat = c.count s.sent := by
    simp only [Sif0.processIOPTag, htadr]
    rfl
  have hmod := hs.size_mod
  rw [free_eq] at hfree
  have hroom : s.fifo.size + ([c.lo s.sent, c.hi s.sent].length : Int) ≤ fifoSifW := by
    simp only [List.length_cons, List.length_nil, fifoSifW]
    omega
  obtain ⟨pad, hpad, hbump⟩ := (hs.fifo.write hroom).content_bump (k := 2)
  obtain ⟨x, y, rfl⟩ := List.length_eq_two.mp hpad
  refine ⟨h.chainMode, h.tie, h.str, h.interrupt, h.idle_qwc, fun hidle => ?_, h.waits, ?_, ?_⟩
  · rw [show (Sif0.processIOPTag c.iopMem s).iop.busy = s.iop.busy from rfl, hbusy] at hidle
    cases hidle
  · rw [hmadr, hcount]
    exact hp.source s.sent hlt
  · refine ⟨cur, _, base, hspells.snoc x y, ?_, hcur⟩
    have hcontent : (Sif0.processIOPTag c.iopMem s).fifo.content fifoSifW =
        s.fifo.content fifoSifW ++ [c.lo s.sent, c.hi s.sent] ++ [x, y] := by
      simp only [Sif0.processIOPTag]
      rw [tagWords (hc.tagInMem s.sent hlt) htadr, hbump, hs.fifo.content_write hroom]
    rw [hzero] at hflight
    have hflight : s.fifo.content fifoSifW = cur ++ w := by
      rw [← hflight]
      exact (List.append_nil _).symm
    rw [hmadr, hcount, hcontent, hflight]
    simp [Chain.block]

theorem Carries.endEE (h : Carries c mem s) (hqwc : s.ee.qwc = 0) : Carries c mem (endEE s) where
  chainMode := h.chainMode
  tie := h.tie
  str := fun hbusy => Bool.noConfusion hbusy
  interrupt := fun hbusy => Bool.noConfusion hbusy
  idle_qwc := fun _ => hqwc
  idle_counter := h.idle_counter
  waits := fun hbusy => Bool.noConfusion hbusy
  source := h.source
  words := h.words

theorem Carries.writeFifoToEE (h : Carries c mem s) (hs : Sized s) (hbusy : s.ee.busy = true)
    (hqwc : 0 < s.ee.qwc) : Carries c mem (writeFifoToEE s) := by
  obtain ⟨cur, w, base, hspells, hflight, hcur, hbase, hmem⟩ := h.words
  let k := min s.ee.qwc (s.fifo.size / 4).toNat
  have hnonneg := hs.fifo.size_nonneg
  have hk : ((4 * k : Nat) : Int) ≤ s.fifo.size := by omega
  have hlen := s.fifo.length_read fifoSifW (4 * k)
  rw [hs.fifo.content_read hk, List.append_assoc, ← List.take_append_drop (4 * k) cur,
    List.append_assoc] at hflight
  have htake : (cur.take (4 * k)).length = 4 * k := by
    rw [List.length_take]
    omega
  obtain ⟨hread, hrest⟩ := List.append_inj hflight (hlen.trans htake.symm)
  rw [Sif0.writeFifoToEE, hbase.base hqwc true]
  refine ⟨h.chainMode, h.tie, h.str, h.interrupt, fun hidle => ?_, h.idle_counter, h.waits, h.source, ?_⟩
  · rw [hbusy] at hidle
    cases hidle
  · refine ⟨cur.drop (4 * k), w, base + 4 * k, hspells, hrest, ?_, hbase.add k, ?_⟩
    · change (cur.drop (4 * k)).length = 4 * (s.ee.qwc - k)
      rw [List.length_drop]
      omega
    · change store (store s.eeMem base (s.fifo.read fifoSifW (4 * k)).1) (base + 4 * k) _ = _
      have happend := store_append s.eeMem base (cur.take (4 * k)) (cur.drop (4 * k))
      rw [htake, List.take_append_drop] at happend
      rw [hread, happend, hmem]

theorem Carries.processEETag (h : Carries c mem s) (hs : Sized s) (hf : Follows c s)
    (hc : c.Matched) (hp : c.Placed) (hbusy : s.ee.busy = true) (hqwc : s.ee.qwc = 0)
    (hended : s.ee.ended = false) (hsize : 4 ≤ s.fifo.size) : Carries c mem (processEETag s) := by
  obtain ⟨cur, w, base, hspells, hflight, hcur, hbase, hmem⟩ := h.words
  have hlen := s.fifo.length_read fifoSifW 4
  have hnil : cur = [] := List.eq_nil_of_length_eq_zero (by omega)
  rw [hnil, store_nil] at hmem
  rw [hs.fifo.content_read hsize, List.append_assoc, hnil, List.nil_append] at hflight
  have hsome : w ≠ [] := by
    intro hw
    rw [hw, List.append_eq_nil_iff] at hflight
    rw [hflight.1] at hlen
    cases hlen
  obtain ⟨x, y, rest, hw, hnext⟩ := hspells.uncons hsome
  rw [show w = [c.lo s.received, c.hi s.received, x, y] ++ (c.block s.received ++ rest) from hw]
    at hflight
  have hlt : s.received < c.n := Nat.lt_of_lt_of_le hnext.le hf.sent_le
  obtain ⟨htag, hrest⟩ := List.append_inj hflight hlen
  have hqwc' : (Sif0.processEETag s).ee.qwc = c.qwc s.received := by
    simp only [Sif0.processEETag, htag]
    rfl
  have hmadr : (Sif0.processEETag s).ee.madr = c.hi s.received := by
    simp only [Sif0.processEETag, htag]
    rfl
  have hends : (Sif0.processEETag s).ee.ended = c.eeEnds s.received := by
    simp only [Sif0.processEETag, htag, hended, Bool.false_or, h.tie]
    rfl
  refine ⟨h.chainMode, h.tie, h.str, h.interrupt, fun hidle => ?_, h.idle_counter, fun _ hgoes => ?_,
    h.source, ?_⟩
  · rw [show (Sif0.processEETag s).ee.busy = s.ee.busy from rfl, hbusy] at hidle
    cases hidle
  · rw [hends] at hgoes
    by_contra hge
    rw [hc.last s.received (by simp only [Sif0.processEETag] at hge; omega)] at hgoes
    cases hgoes
  · refine ⟨c.block s.received, rest, destBase (c.hi s.received), hnext, hrest, ?_, ?_, ?_⟩
    · rw [hqwc', Chain.length_block, hc.count_eq_qwc hlt]
    · rw [hqwc', hmadr]
      exact hp.resolves hlt
    · change store s.eeMem _ _ = store (c.delivered mem s.received) _ _
      rw [hmem]

theorem Carries.move {t : State} (h : Carries c mem s) (hs : Sized s) (hf : Follows c s)
    (hc : c.Matched) (hp : c.Placed) (hmove : Move c.iopMem s t) : Carries c mem t := by
  cases hmove with
  | endIOP _ hcounter => exact h.endIOP hs hcounter
  | tagIOP hbusy hcounter hended hfree =>
    exact h.processIOPTag hs hf hc hp hbusy hcounter hended hfree
  | writeIOP hbusy hcounter hfree => exact h.writeIOPtoFifo hs hbusy hcounter hfree
  | stopEE hbusy hstr =>
    rw [h.str hbusy] at hstr
    cases hstr
  | endEE _ _ hqwc => exact h.endEE hqwc
  | tagEE hbusy _ hqwc _ hended hsize =>
    exact h.processEETag hs hf hc hp hbusy hqwc hended hsize
  | writeEE hbusy _ hqwc => exact h.writeFifoToEE hs hbusy hqwc

end carries

end OmegaRed.Sif.Sif0
