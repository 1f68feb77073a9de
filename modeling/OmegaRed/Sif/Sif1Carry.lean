import OmegaRed.Sif.Sif1

/-! What the moves of SIF1 keep: the queue's bounds, the place in the chain, the words on their way. -/

namespace OmegaRed.Sif.Sif1

open Lib Lib.Memory Relation

/-- The queue and the rest of the block are whole pairs of words, and quadwords without TTE. -/
structure Sized (s : State) : Prop where
  fifo : s.fifo.Ok fifoSifW
  size_even : s.fifo.size % 2 = 0
  counter_nonneg : 0 ≤ s.iop.counter
  counter_even : s.iop.counter % 2 = 0
  whole : s.ee.tte = false → s.fifo.size % 4 = 0 ∧ s.iop.counter % 4 = 0

theorem free_eq (f : RingFifo UInt32) : f.free fifoSifW = 128 - f.size := rfl

theorem tagCounter (w : UInt32) : (w &&& 0xffffc).toNat % 4 = 0 := by
  rw [UInt32.toNat_and]
  have hfield := Masks.and_field w.toNat 2 18
  rw [show (0xffffc : UInt32).toNat = (2 ^ 18 - 1) * 2 ^ 2 from rfl, hfield]
  exact Nat.mul_mod_left _ 4

@[simp] theorem hwDmacSrcTadrInc_tte (e : Ee) : (hwDmacSrcTadrInc e).tte = e.tte := by
  rw [hwDmacSrcTadrInc]
  split_ifs <;> rfl

@[simp] theorem hwDmacSrcChain_tte (e : Ee) (id : Nat) : (hwDmacSrcChain e id).1.tte = e.tte := by
  rw [hwDmacSrcChain]
  split_ifs <;> rfl

@[simp] theorem hwDmacSrcTadrInc_busy (e : Ee) : (hwDmacSrcTadrInc e).busy = e.busy := by
  rw [hwDmacSrcTadrInc]
  split_ifs <;> rfl

@[simp] theorem hwDmacSrcChain_busy (e : Ee) (id : Nat) :
    (hwDmacSrcChain e id).1.busy = e.busy := by
  rw [hwDmacSrcChain]
  split_ifs <;> rfl

section sized

variable {eeMem : Nat → UInt32} {s : State}

theorem Sized.writeEEtoFifo (h : Sized s) : Sized (writeEEtoFifo eeMem s) := by
  have heven := h.size_even
  have hle := h.fifo.size_le
  simp only [fifoSifW] at hle
  rw [Sif1.writeEEtoFifo]
  split
  · exact ⟨h.fifo, heven, h.counter_nonneg, h.counter_even, h.whole⟩
  · refine ⟨h.fifo.write ?_, ?_, h.counter_nonneg, h.counter_even, fun htte => ?_⟩
    · rw [length_load, free_eq]
      simp only [fifoSifW]
      omega
    · simp only [RingFifo.write, length_load]
      omega
    · have hwhole := h.whole (by simpa using htte)
      simp only [RingFifo.write, length_load]
      omega

theorem Sized.processEETag (h : Sized s) (hfree : 0 < s.fifo.free fifoSifW) :
    Sized (processEETag eeMem s) := by
  have heven := h.size_even
  rw [free_eq] at hfree
  rw [Sif1.processEETag]
  split
  · exact ⟨h.fifo, heven, h.counter_nonneg, h.counter_even, h.whole⟩
  · cases htte : s.ee.tte with
    | false =>
      exact ⟨h.fifo, heven, h.counter_nonneg, h.counter_even, fun _ => h.whole htte⟩
    | true =>
      refine ⟨h.fifo.write ?_, ?_, h.counter_nonneg, h.counter_even, fun hoff => ?_⟩
      · rw [length_load]
        simp only [fifoSifW]
        omega
      · simp only [if_true, RingFifo.write, length_load]
        omega
      · simp [htte] at hoff

theorem Sized.writeFifoToIOP (h : Sized s) (hcounter : 0 < s.iop.counter)
    (hsize : 0 < s.fifo.size) : Sized (writeFifoToIOP s) := by
  have heven := h.size_even
  have hcount := h.counter_even
  refine ⟨h.fifo.read (by omega), ?_, ?_, ?_, fun htte => ?_⟩
  · simp only [Sif1.writeFifoToIOP, RingFifo.read]
    omega
  · simp only [Sif1.writeFifoToIOP]
    omega
  · simp only [Sif1.writeFifoToIOP]
    omega
  · have hwhole := h.whole htte
    simp only [Sif1.writeFifoToIOP, RingFifo.read]
    omega

theorem Sized.sifIOPReadTag (h : Sized s) (hsize : 4 ≤ s.fifo.size) : Sized (sifIOPReadTag s) := by
  have heven := h.size_even
  have htag := tagCounter ((s.fifo.read fifoSifW 4).1.getD 1 0)
  refine ⟨h.fifo.read hsize, ?_, Int.natCast_nonneg _, ?_, fun htte => ?_⟩
  · simp only [Sif1.sifIOPReadTag, RingFifo.read]
    omega
  · simp only [Sif1.sifIOPReadTag]
    omega
  · have hwhole := h.whole htte
    refine ⟨?_, ?_⟩
    · simp only [Sif1.sifIOPReadTag, RingFifo.read]
      omega
    · simp only [Sif1.sifIOPReadTag]
      omega

theorem Sized.moveEE {t : State} (h : Sized s) (hmove : MoveEE eeMem s t) : Sized t := by
  cases hmove with
  | stopEE => exact ⟨h.fifo, h.size_even, h.counter_nonneg, h.counter_even, h.whole⟩
  | endEE => exact ⟨h.fifo, h.size_even, h.counter_nonneg, h.counter_even, h.whole⟩
  | tagEE _ _ _ _ hfree => exact h.processEETag hfree
  | writeEE => exact h.writeEEtoFifo

theorem Sized.moveIOP {t : State} (h : Sized s) (hmove : MoveIOP s t) : Sized t := by
  cases hmove with
  | writeIOP _ hcounter hsize => exact h.writeFifoToIOP hcounter hsize
  | endIOP => exact ⟨h.fifo, h.size_even, h.counter_nonneg, h.counter_even, h.whole⟩
  | tagIOP _ _ _ hsize => exact h.sifIOPReadTag hsize

end sized

/-- Where the EE's side will read its next tag, when the data of this one are sent. -/
def Ee.nextTadr (e : Ee) : UInt32 :=
  if e.tag.id = tagCNT then e.tadr + .ofNat (16 * e.qwc) else e.tadr

/-- The tag that the EE's side is at ends the transfer. -/
def endsHere (c : Chain) (s : State) : Bool := s.current.any (tagEnds c.tie)

/-- The EE's side stands at its place in the chain, and knows whether its tag ends it. -/
structure Follows (c : Chain) (s : State) : Prop where
  mod : s.ee.mod = chainMode
  tte : s.ee.tte = c.tte
  tie : s.ee.tie = c.tie
  fetched_le : s.fetched ≤ c.n
  current : 0 < s.ee.qwc → s.current = some s.ee.tag
  atData : 0 < s.ee.qwc → s.ee.tag.id = tagCNT → s.ee.tadr = s.ee.madr
  next : s.ee.busy = true ∨ 0 < s.ee.qwc → endsHere c s = false →
    s.fetched < c.n ∧ s.ee.nextTadr = c.tadr s.fetched
  ended : s.ee.busy = true → s.ee.ended = endsHere c s

theorem Ee.nextTadr_of_zero {e : Ee} (h : e.qwc = 0) : e.nextTadr = e.tadr := by
  rw [nextTadr, h]
  split
  · exact UInt32.add_zero _
  · rfl

theorem hwDmacSrcChain_eq (e : Ee) {id : Nat} (h : id < 5 ∨ id = tagEND) :
    hwDmacSrcChain e id =
      ({ e with
        madr := if id = tagCNT ∨ id = tagNEXT ∨ id = tagEND then e.tadr + 16 else e.madr
        tadr := if id = tagNEXT then e.madr else if id = tagEND then e.tadr else e.tadr + 16 },
        decide (id = tagREFE ∨ id = tagEND)) := by
  have hid : id = tagREFE ∨ id = tagCNT ∨ id = tagNEXT ∨ id = tagREF ∨ id = tagREFS ∨
      id = tagEND := by
    simp only [tagREFE, tagCNT, tagNEXT, tagREF, tagREFS, tagEND] at h ⊢
    omega
  rcases hid with rfl | rfl | rfl | rfl | rfl | rfl <;> rfl

/-- The quadwords that the EE writes in one move. -/
def writeSize (s : State) : Nat := min s.ee.qwc (s.fifo.free fifoSifW / 4).toNat

theorem writeEEtoFifo_eq {eeMem : Nat → UInt32} {s : State} {base : Nat}
    (hstr : s.ee.str = true) (hmod : s.ee.mod = chainMode)
    (hbase : dmaGetAddr s.ee.madr false = some base) :
    writeEEtoFifo eeMem s = { s with
      fifo := s.fifo.write fifoSifW (load eeMem base (4 * writeSize s))
      ee := { s.ee with
        madr := s.ee.madr + .ofNat (16 * writeSize s)
        tadr := if s.ee.tag.id = tagCNT then s.ee.madr + .ofNat (16 * writeSize s) else s.ee.tadr
        cycles := s.ee.cycles + writeSize s
        qwc := s.ee.qwc - writeSize s } } := by
  simp only [writeEEtoFifo, hbase, hwDmacSrcTadrInc, hstr, hmod, Bool.true_eq_false, if_false,
    ne_eq, not_true_eq_false]
  split <;> rfl

theorem processEETag_eq {eeMem : Nat → UInt32} {s : State} {base : Nat}
    (hbase : dmaGetAddr s.ee.tadr false = some base) {tag : DmaTag} (htag : ⟨eeMem base⟩ = tag)
    (hid : tag.id < 5 ∨ tag.id = tagEND) :
    processEETag eeMem s = { s with
      fifo := if s.ee.tte then s.fifo.write fifoSifW (load eeMem (base + 2) 2) else s.fifo
      ee := { s.ee with
        tag
        qwc := tag.qwc
        ended := decide (tag.id = tagREFE ∨ tag.id = tagEND)
        madr := if tag.id = tagCNT ∨ tag.id = tagNEXT ∨ tag.id = tagEND then s.ee.tadr + 16
          else eeMem (base + 1)
        tadr := if tag.id = tagNEXT then eeMem (base + 1)
          else if tag.id = tagEND then s.ee.tadr else s.ee.tadr + 16 }
      fetched := s.fetched + 1
      current := some tag } := by
  simp only [processEETag, hbase, htag, hwDmacSrcChain_eq _ hid]

section follows

variable {c : Chain} {s : State}

theorem Follows.writeEEtoFifo (h : Follows c s) (hstr : s.ee.str = true) (hqwc : 0 < s.ee.qwc) :
    Follows c (writeEEtoFifo c.eeMem s) := by
  cases hbase : dmaGetAddr s.ee.madr false with
  | none =>
    rw [Sif1.writeEEtoFifo, hbase]
    exact ⟨h.mod, h.tte, h.tie, h.fetched_le, h.current, h.atData, h.next, h.ended⟩
  | some base =>
    rw [writeEEtoFifo_eq hstr h.mod hbase]
    refine ⟨h.mod, h.tte, h.tie, h.fetched_le, fun _ => h.current hqwc, fun _ hcnt => ?_,
      fun _ hgoes => ?_, h.ended⟩
    · exact if_pos hcnt
    · obtain ⟨hlt, hnext⟩ := h.next (.inr hqwc) hgoes
      refine ⟨hlt, ?_⟩
      have hle : writeSize s ≤ s.ee.qwc := Nat.min_le_left _ _
      rw [← hnext]
      simp only [Ee.nextTadr]
      split
      · rename_i hcnt
        rw [h.atData hqwc hcnt, UInt32.add_assoc, ← UInt32.ofNat_add, ← Nat.mul_add,
          Nat.add_sub_cancel' hle]
      · rfl

theorem tagEnds_of_irqEnds (hirq : c.IrqEnds) {i : Nat} (hi : i < c.n) :
    c.ends i = decide ((c.tag i).id = tagREFE ∨ (c.tag i).id = tagEND) := by
  rw [Chain.ends, tagEnds, Bool.decide_or]
  cases hand : (c.tag i).irq && c.tie with
  | false => rw [Bool.or_false]
  | true =>
    rw [Bool.and_eq_true] at hand
    rw [Bool.or_true, ← Bool.decide_or, decide_eq_true (hirq i hi hand.2 hand.1)]

theorem Follows.processEETag (h : Follows c s) (hl : c.Linked) (hirq : c.IrqEnds)
    (hbusy : s.ee.busy = true) (hqwc : s.ee.qwc = 0) (hended : s.ee.ended = false) :
    Follows c (processEETag c.eeMem s) := by
  have hgoes : endsHere c s = false := (h.ended hbusy).symm.trans hended
  obtain ⟨hlt, htadr⟩ := h.next (.inl hbusy) hgoes
  rw [Ee.nextTadr_of_zero hqwc] at htadr
  have hid := hl.id_lt s.fetched hlt
  have hends := tagEnds_of_irqEnds hirq hlt
  have htag : ⟨c.eeMem (c.base s.fetched)⟩ = c.tag s.fetched := rfl
  rw [processEETag_eq (by rw [htadr]; exact hl.base_eq hlt) htag hid]
  refine ⟨h.mod, h.tte, h.tie, hlt, fun _ => rfl, fun _ hcnt => ?_, fun _ hmore => ?_,
    fun _ => hends.symm⟩
  · simp only at hcnt
    simp [hcnt, tagCNT, tagNEXT, tagEND]
  · have hmore : c.ends s.fetched = false := hmore
    have hsucc : s.fetched + 1 < c.n := by
      by_contra hge
      rw [hl.last s.fetched (by omega)] at hmore
      cases hmore
    refine ⟨hsucc, ?_⟩
    rw [hl.next s.fetched hsucc hmore]
    rw [hends, decide_eq_false_iff_not, not_or] at hmore
    simp only [Ee.nextTadr, Chain.next, Chain.addr, htadr, if_neg hmore.2]
    split
    · rename_i hcnt
      rw [if_neg (by rw [hcnt]; decide)]
    · rfl

theorem Follows.moveEE {t : State} (h : Follows c s) (hl : c.Linked) (hirq : c.IrqEnds)
    (hmove : MoveEE c.eeMem s t) : Follows c t := by
  cases hmove with
  | stopEE hbusy =>
    exact ⟨h.mod, h.tte, h.tie, h.fetched_le, h.current, h.atData,
      fun _ => h.next (.inl hbusy), fun hb => Bool.noConfusion hb⟩
  | endEE hbusy =>
    exact ⟨h.mod, h.tte, h.tie, h.fetched_le, h.current, h.atData,
      fun _ => h.next (.inl hbusy), fun hb => Bool.noConfusion hb⟩
  | tagEE hbusy _ hqwc hended => exact h.processEETag hl hirq hbusy hqwc hended
  | writeEE _ hstr hqwc => exact h.writeEEtoFifo hstr hqwc

theorem Follows.moveIOP {t : State} (h : Follows c s) (hmove : MoveIOP s t) : Follows c t := by
  cases hmove with
  | writeIOP =>
    exact ⟨h.mod, h.tte, h.tie, h.fetched_le, h.current, h.atData, h.next, h.ended⟩
  | endIOP =>
    exact ⟨h.mod, h.tte, h.tie, h.fetched_le, h.current, h.atData, h.next, h.ended⟩
  | tagIOP =>
    exact ⟨h.mod, h.tte, h.tie, h.fetched_le, h.current, h.atData, h.next, h.ended⟩

end follows

end OmegaRed.Sif.Sif1
