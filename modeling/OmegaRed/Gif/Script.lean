import OmegaRed.Gif.Alike
import OmegaRed.Gif.Stability

/-! What a path does with its data depends on the calls and on `GIF_STAT` only, not on where the
data lies in the buffer or on when the MTGS thread reads. -/

namespace OmegaRed.Gif

open Lib.Memory

variable {σ : Type} {handlerAD : List UInt8 → σ → Bool × σ} {stat : Stat}

theorem alike_moveToFront {p : GifPath} (h : Placed p) : Alike p p.moveToFront where
  left := h
  right := h.moveToFront
  live := by
    have hbase : p.base.toNat = p.gsPack.offset := by rw [h.base, Int.toNat_natCast]
    simp only [GifPath.live, GifPath.moveToFront, hbase, Nat.sub_zero]
    have hstore := load_store_self p.buffer 0 (load p.buffer p.gsPack.offset
      (p.curSize - p.gsPack.offset))
    rw [length_load] at hstore
    exact hstore.symm
  size := rfl
  gifTag := .refl _
  state := rfl
  dmaRewind := rfl

theorem alike_fetchAdd {p : GifPath} (h : Placed p) (size : Int) : Alike p (p.fetchAdd size) :=
  ⟨h, ⟨h.packet, h.inData⟩, rfl, rfl, .refl _, rfl, rfl⟩

theorem Placed.append {p : GifPath} (h : Placed p) (data : List UInt8) : Placed (p.append data) :=
  ⟨h.packet, Nat.le_trans h.inData (Nat.le_add_right _ _)⟩

theorem live_append {p : GifPath} (h : Placed p) (data : List UInt8) :
    (p.append data).live = p.live ++ data := by
  have hle := h.offset_le
  have happend := load_store_append p.buffer p.gsPack.offset (p.curSize - p.gsPack.offset) data
  rw [Nat.add_sub_cancel' hle] at happend
  simp only [GifPath.live, GifPath.append]
  rw [show p.curSize + data.length - p.gsPack.offset =
    p.curSize - p.gsPack.offset + data.length by omega, happend]

theorem Alike.append {p q : GifPath} (h : Alike p q) (data : List UInt8) :
    Alike (p.append data) (q.append data) where
  left := h.left.append data
  right := h.right.append data
  live := by rw [live_append h.left, live_append h.right, h.live]
  size := h.size
  gifTag := h.gifTag
  state := h.state
  dmaRewind := h.dmaRewind

/-- What is copied to the path is all that is left of a call of `CopyGSPacketData`, and so on. -/
structure Abs (σ : Type) where
  path : GifPath
  regs : σ
  executing : Bool
  done : Bool
  sent : List UInt8

/-- A call, or a round of the loop of `ExecuteGSPacket` with the `GIF_STAT` it sees. -/
inductive Event
  | call (c : Call)
  | round (stat : Stat)

def Abs.send (a : Abs σ) (path : GifPath) (pack : GSPacket) : Abs σ :=
  { a with path := path, sent := a.sent ++ load a.path.buffer pack.offset pack.size }

def Abs.call (a : Abs σ) : Call → Abs σ
  | .copyGSPacketData data => { a with path := a.path.append data }
  | .executeGSPacket => { a with executing := true, done := false }
  | .flushToMTGS =>
    match a.path.flushed with
    | some pack => a.send a.path.afterFlush pack
    | none => a
  | .slice =>
    match a.path.sliced with
    | some pack => a.send a.path.afterSlice pack
    | none => a

/-- `ExecuteGSPacket` without the move to the front. -/
def execRound (handlerAD : List UInt8 → σ → Bool × σ) (stat : Stat) (p : GifPath) (g : σ) : Exec σ :=
  if !p.gifTag.isValid then
    if p.curOffset + 16 > p.curSize then .exit p g else loadTag handlerAD stat p g
  else processData handlerAD stat p g

def Abs.round (handlerAD : List UInt8 → σ → Bool × σ) (stat : Stat) (a : Abs σ) : Abs σ :=
  match execRound handlerAD stat a.path a.regs with
  | .again p g => { a with path := p, regs := g }
  | .realign p g => { a with path := p, regs := g }
  | .exit p g => { a with path := p, regs := g, executing := false }
  | .done p g pack =>
    { path := p, regs := g, executing := false, done := true
      sent := a.sent ++ load p.buffer pack.offset pack.size }

def Abs.event (handlerAD : List UInt8 → σ → Bool × σ) (a : Abs σ) : Event → Abs σ
  | .call c => a.call c
  | .round stat => a.round handlerAD stat

/-- Does a round begin with the move to the front? -/
def GifPath.Realigns (p : GifPath) : Prop :=
  p.gifTag.isValid = false ∧ p.curOffset + 16 ≤ p.curSize ∧ p.curOffset > buffLimit

/-- The steps of a path with the events they show. -/
inductive Labelled (handlerAD : List UInt8 → σ → Bool × σ) :
    State σ → List Event → State σ → Prop
  | call (s : State σ) (c : Call) : s.ee = .idle → Labelled handlerAD s [.call c] (s.call c)
  | realign (s : State σ) (stat : Stat) : s.ee = .execute → s.path.Realigns →
      Labelled handlerAD s [] (s.afterExec (executeGSPacket handlerAD stat s.path s.regs))
  | execute (s : State σ) (stat : Stat) : s.ee = .execute → ¬s.path.Realigns →
      Labelled handlerAD s [.round stat]
        (s.afterExec (executeGSPacket handlerAD stat s.path s.regs))
  | loadTag (s : State σ) (stat : Stat) : s.ee = .loadTag →
      Labelled handlerAD s [.round stat] (s.afterExec (loadTag handlerAD stat s.path s.regs))
  | silent (s t : State σ) : Internal handlerAD (fun _ => False) s t → Labelled handlerAD s [] t

inductive Runs (handlerAD : List UInt8 → σ → Bool × σ) : State σ → List Event → State σ → Prop
  | refl (s : State σ) : Runs handlerAD s [] s
  | step {s t u : State σ} {es fs : List Event} : Runs handlerAD s es t →
      Labelled handlerAD t fs u → Runs handlerAD s (es ++ fs) u

/-- What the call in hand has still to do to the path. -/
def Phase.Rel (p : GifPath) (sent : List UInt8) (a : Abs σ) : Phase → Prop
  | .idle => Alike p a.path ∧ a.executing = false ∧ a.sent = sent
  | .execute => Alike p a.path ∧ a.executing = true ∧ a.sent = sent
  | .realign (.copy data) | .addBlank (.copy data) _ | .sendBlank (.copy data) _
  | .move (.copy data) | .wait data | .memcpy data =>
    Alike p p ∧ Alike (p.append data) a.path ∧ a.executing = false ∧ a.sent = sent
  | .realign .tag | .addBlank .tag _ | .sendBlank .tag _ | .move .tag | .loadTag =>
    Alike p a.path ∧ After.tag.Holds p ∧ a.executing = true ∧ a.sent = sent
  | .add pack | .send pack =>
    Alike p a.path ∧ a.executing = false ∧
      a.sent = sent ++ load p.buffer pack.offset pack.size

structure Rel (s : State σ) (a : Abs σ) : Prop where
  regs : s.regs = a.regs
  done : s.done = a.done
  phase : s.ee.Rel s.path s.sent a

theorem Phase.Rel.congr {p q : GifPath} {sent : List UInt8} {a : Abs σ} {ee : Phase}
    (h : ee.Rel p sent a) (hpath : Alike q p) (hbuf : q.buffer = p.buffer)
    (hpos : q.curOffset = p.curOffset ∧ q.curSize = p.curSize) : ee.Rel q sent a := by
  have htag : After.tag.Holds p → After.tag.Holds q := by
    rintro ⟨hsize, hvalid⟩
    exact ⟨by omega, hpath.gifTag.isValid.trans hvalid⟩
  cases ee with
  | idle => exact ⟨hpath.trans h.1, h.2⟩
  | execute => exact ⟨hpath.trans h.1, h.2⟩
  | realign k =>
    cases k with
    | copy data => exact ⟨.refl hpath.left, (hpath.append data).trans h.2.1, h.2.2⟩
    | tag => exact ⟨hpath.trans h.1, htag h.2.1, h.2.2⟩
  | addBlank k size =>
    cases k with
    | copy data => exact ⟨.refl hpath.left, (hpath.append data).trans h.2.1, h.2.2⟩
    | tag => exact ⟨hpath.trans h.1, htag h.2.1, h.2.2⟩
  | sendBlank k size =>
    cases k with
    | copy data => exact ⟨.refl hpath.left, (hpath.append data).trans h.2.1, h.2.2⟩
    | tag => exact ⟨hpath.trans h.1, htag h.2.1, h.2.2⟩
  | move k =>
    cases k with
    | copy data => exact ⟨.refl hpath.left, (hpath.append data).trans h.2.1, h.2.2⟩
    | tag => exact ⟨hpath.trans h.1, htag h.2.1, h.2.2⟩
  | wait data => exact ⟨.refl hpath.left, (hpath.append data).trans h.2.1, h.2.2⟩
  | memcpy data => exact ⟨.refl hpath.left, (hpath.append data).trans h.2.1, h.2.2⟩
  | loadTag => exact ⟨hpath.trans h.1, htag h.2.1, h.2.2⟩
  | add pack => exact ⟨hpath.trans h.1, h.2.1, by rw [hbuf]; exact h.2.2⟩
  | send pack => exact ⟨hpath.trans h.1, h.2.1, by rw [hbuf]; exact h.2.2⟩

theorem Phase.Rel.placed {p : GifPath} {sent : List UInt8} {a : Abs σ} {ee : Phase}
    (h : ee.Rel p sent a) : Placed p := by
  cases ee with
  | realign k => cases k <;> exact h.1.left
  | addBlank k size => cases k <;> exact h.1.left
  | sendBlank k size => cases k <;> exact h.1.left
  | move k => cases k <;> exact h.1.left
  | _ => exact h.1.left

theorem holds_moveToFront {p : GifPath} (h : Placed p) (htag : After.tag.Holds p) :
    After.tag.Holds p.moveToFront := by
  have hpos := (alike_moveToFront h).positions.2
  have hin := h.moveToFront.inData
  obtain ⟨hsize, hvalid⟩ := htag
  exact ⟨by omega, hvalid⟩

theorem Rel.silent {s t : State σ} {a : Abs σ} (h : Rel s a)
    (hst : Internal handlerAD (fun _ => False) s t) : Rel t a := by
  obtain ⟨hregs, hdone, hphase⟩ := h
  have hplaced := hphase.placed
  have hfetch (size : Int) : s.ee.Rel (s.path.fetchAdd size) s.sent a :=
    hphase.congr (alike_fetchAdd hplaced size).symm rfl ⟨rfl, rfl⟩
  cases hst with
  | realign k hee hready =>
    rw [hee] at hphase
    refine ⟨hregs, hdone, ?_⟩
    dsimp only
    split <;> cases k <;> exact hphase
  | addBlank k size hee =>
    have hfetch := hfetch size
    rw [hee] at hfetch
    exact ⟨hregs, hdone, by cases k <;> exact hfetch⟩
  | sendBlank k size hee =>
    rw [hee] at hphase
    exact ⟨hregs, hdone, by cases k <;> exact hphase⟩
  | move k hee =>
    rw [hee] at hphase
    have hmove := (alike_moveToFront hplaced).symm
    refine ⟨hregs, hdone, ?_⟩
    cases k with
    | copy data => exact ⟨.refl hmove.left, (hmove.append data).trans hphase.2.1, hphase.2.2⟩
    | tag => exact ⟨hmove.trans hphase.1, holds_moveToFront hplaced hphase.2.1, hphase.2.2⟩
  | wait data hee hready =>
    rw [hee] at hphase
    exact ⟨hregs, hdone, hphase⟩
  | memcpy data hee hsize =>
    rw [hee] at hphase
    exact ⟨hregs, hdone, hphase.2⟩
  | execute stat hee hstat => exact hstat.elim
  | loadTag stat hee hstat => exact hstat.elim
  | add pack hee =>
    have hfetch := hfetch pack.size
    rw [hee] at hfetch
    exact ⟨hregs, hdone, hfetch⟩
  | send pack hee =>
    rw [hee] at hphase
    exact ⟨hregs, hdone, hphase⟩
  | consume e queue hgs hqueue => exact ⟨hregs, hdone, hphase⟩
  | fetchSub e hgs => exact ⟨hregs, hdone, hfetch _⟩

theorem execRound_alike {p q : GifPath} (h : Alike p q) (g : σ)
    (hvalid : p.gifTag.isValid = true → p.gifTag.hasAD = true) :
    (execRound handlerAD stat p g).Alike (execRound handlerAD stat q g) := by
  have hpos := h.positions.2
  have hin := h.left.inData
  have hin' := h.right.inData
  rw [execRound, execRound, ← h.gifTag.isValid]
  split
  · by_cases hsize : p.curOffset + 16 > p.curSize
    · rw [if_pos hsize, if_pos (by omega)]
      exact ⟨h, rfl⟩
    · rw [if_neg hsize, if_neg (by omega)]
      exact loadTag_alike h g (by omega)
  · rename_i hv
    exact processData_alike h g fun hAD => absurd (hvalid (by simpa using hv)) (by simp [hAD])

theorem Rel.round {s : State σ} {a : Abs σ} {e : Exec σ} (h : Rel s a)
    (hexec : a.executing = true) (hsent : a.sent = s.sent)
    (he : e.Alike (execRound handlerAD stat a.path a.regs)) :
    Rel (s.afterExec e) (a.round handlerAD stat) := by
  rw [Abs.round]
  generalize execRound handlerAD stat a.path a.regs = e' at he
  cases e with
  | again p g =>
    cases e' with
    | again q g' => exact ⟨he.2, h.done, he.1, hexec, hsent⟩
    | realign q g' => exact he.elim
    | exit q g' => exact he.elim
    | done q g' pack => exact he.elim
  | realign p g => cases e' <;> exact he.elim
  | exit p g =>
    cases e' with
    | again q g' => exact he.elim
    | realign q g' => exact he.elim
    | exit q g' => exact ⟨he.2, h.done, he.1, rfl, hsent⟩
    | done q g' pack => exact he.elim
  | done p g pack =>
    cases e' with
    | again q g' => exact he.elim
    | realign q g' => exact he.elim
    | exit q g' => exact he.elim
    | done q g' pack' =>
      refine ⟨he.2.1, rfl, he.1, rfl, ?_⟩
      change a.sent ++ load q.buffer pack'.offset pack'.size = _
      rw [hsent, ← he.2.2]
      rfl

theorem executeGSPacket_of_realigns {p : GifPath} (g : σ) (h : p.Realigns) :
    executeGSPacket handlerAD stat p g = .realign p g := by
  obtain ⟨hvalid, hsize, hlimit⟩ := h
  rw [executeGSPacket, hvalid]
  simp [Nat.not_lt.mpr hsize, hlimit]

theorem executeGSPacket_of_not_realigns {p : GifPath} (g : σ) (h : ¬p.Realigns) :
    executeGSPacket handlerAD stat p g = execRound handlerAD stat p g := by
  rw [executeGSPacket, execRound]
  split
  · rename_i hvalid
    split
    · rfl
    · rename_i hsize
      have hlimit : ¬p.curOffset > buffLimit := fun hlimit =>
        h ⟨by simpa using hvalid, Nat.not_lt.mp hsize, hlimit⟩
      rw [if_neg hlimit]
  · rfl

theorem execRound_of_holds {p : GifPath} (g : σ) (h : After.tag.Holds p) :
    execRound handlerAD stat p g = loadTag handlerAD stat p g := by
  obtain ⟨hsize, hvalid⟩ := h
  rw [execRound, hvalid, Bool.not_false, if_pos rfl, if_neg (Nat.not_lt.mpr hsize)]

theorem Alike.flushed {p q : GifPath} (h : Alike p q) :
    (p.flushed = none ∧ q.flushed = none) ∨
      (p.flushed = some p.gsPack ∧ q.flushed = some q.gsPack) := by
  rw [GifPath.flushed, GifPath.flushed, ← h.size, ← h.gifTag.isValid]
  split
  · exact .inr ⟨rfl, rfl⟩
  · exact .inl ⟨rfl, rfl⟩

theorem Alike.afterFlush {p q : GifPath} (h : Alike p q) : Alike p.afterFlush q.afterFlush := by
  have hrest := h.rest ⟨h.left.inData, Nat.le_refl _⟩ ⟨h.right.inData, Nat.le_refl _⟩
    h.positions.2 p.state p.dmaRewind h.gifTag
  have hstate := h.state
  have hrewind := h.dmaRewind
  exact ⟨hrest.left, ⟨hrest.right.packet, hrest.right.inData⟩, hrest.live, rfl, h.gifTag, hstate,
    hrewind⟩

/-- What a slice leaves of the packet's size. -/
def GifPath.keptSize (p : GifPath) : Nat := p.gsPack.size - if p.gifTag.isValid then 16 else 0

theorem Alike.keptSize {p q : GifPath} (h : Alike p q) : p.keptSize = q.keptSize := by
  rw [GifPath.keptSize, GifPath.keptSize, h.size, h.gifTag.isValid]

theorem sliced_of_le {p : GifPath} (h : ¬p.gsPack.size > 16) : p.sliced = none := if_neg h

theorem sliced_of_gt {p : GifPath} (h : p.gsPack.size > 16) :
    p.sliced = some ⟨p.gsPack.offset, p.keptSize⟩ := if_pos h

theorem Alike.sliced_eq {p q : GifPath} (h : Alike p q) :
    load p.buffer p.gsPack.offset p.keptSize = load q.buffer q.gsPack.offset q.keptSize := by
  have hpk := h.left.packet
  have hin := h.left.inData
  have hkept : p.keptSize ≤ p.gsPack.size := Nat.sub_le _ _
  rw [← h.keptSize]
  exact h.load_eq (k := 0) (by omega)

theorem afterSlice_curOffset {p : GifPath} (h : Placed p) (hsize : p.gsPack.size > 16) :
    p.afterSlice.curOffset = p.gsPack.offset + p.keptSize := by
  have hpk := h.packet
  simp only [GifPath.afterSlice, GifPath.keptSize]
  split <;> omega

theorem Alike.afterSlice {p q : GifPath} (h : Alike p q) (hsize : p.gsPack.size > 16) :
    Alike p.afterSlice q.afterSlice := by
  have hcur := afterSlice_curOffset h.left hsize
  have hcur' := afterSlice_curOffset h.right (h.size ▸ hsize)
  have hpk := h.left.packet
  have hin := h.left.inData
  have hpk' := h.right.packet
  have hin' := h.right.inData
  have hkept : p.keptSize ≤ p.gsPack.size := Nat.sub_le _ _
  have hkept' : q.keptSize ≤ q.gsPack.size := Nat.sub_le _ _
  have hlength := h.length
  refine ⟨⟨Nat.add_zero _, ?_⟩, ⟨Nat.add_zero _, ?_⟩, ?_, rfl, h.gifTag.invalid, h.state,
    h.dmaRewind⟩
  · rw [hcur]
    exact Nat.le_trans (by omega) hin
  · rw [hcur']
    exact Nat.le_trans (by omega) hin'
  · change load p.buffer p.afterSlice.curOffset (p.curSize - p.afterSlice.curOffset) =
      load q.buffer q.afterSlice.curOffset (q.curSize - q.afterSlice.curOffset)
    rw [hcur, hcur', ← h.keptSize,
      show q.curSize - (q.gsPack.offset + p.keptSize) = p.curSize - (p.gsPack.offset + p.keptSize) by
        omega]
    exact h.load_eq (by omega)

theorem Rel.call {s : State σ} {a : Abs σ} (h : Rel s a) (hee : s.ee = .idle) (c : Call) :
    Rel (s.call c) (a.call c) := by
  obtain ⟨hregs, hdone, hphase⟩ := h
  rw [hee] at hphase
  obtain ⟨halike, hexec, hsent⟩ := hphase
  cases c with
  | copyGSPacketData data =>
    refine ⟨hregs, hdone, ?_⟩
    simp only [State.call]
    split <;> exact ⟨.refl halike.left, halike.append data, hexec, hsent⟩
  | executeGSPacket => exact ⟨hregs, rfl, halike, rfl, hsent⟩
  | flushToMTGS =>
    rcases halike.flushed with ⟨hp, hq⟩ | ⟨hp, hq⟩
    · simp only [State.call, Abs.call, hp, hq]
      exact ⟨hregs, hdone, hee ▸ ⟨halike, hexec, hsent⟩⟩
    · simp only [State.call, Abs.call, hp, hq]
      refine ⟨hregs, hdone, halike.afterFlush, hexec, ?_⟩
      change a.sent ++ _ = s.sent ++ _
      rw [hsent, ← halike.packet_eq]
      rfl
  | slice =>
    by_cases hsize : s.path.gsPack.size > 16
    · simp only [State.call, Abs.call, sliced_of_gt hsize,
        sliced_of_gt (p := a.path) (halike.size ▸ hsize)]
      refine ⟨hregs, hdone, halike.afterSlice hsize, hexec, ?_⟩
      change a.sent ++ _ = s.sent ++ _
      rw [hsent, ← halike.sliced_eq]
      rfl
    · simp only [State.call, Abs.call, sliced_of_le hsize,
        sliced_of_le (p := a.path) (halike.size ▸ hsize)]
      exact ⟨hregs, hdone, hee ▸ ⟨halike, hexec, hsent⟩⟩

theorem Rel.labelled {s t : State σ} {a : Abs σ} {es : List Event} (h : Rel s a) (hinv : Inv s)
    (hst : Labelled handlerAD s es t) :
    Rel t (es.foldl (Abs.event handlerAD) a) := by
  have hphase := h.phase
  cases hst with
  | call c hee => exact h.call hee c
  | realign stat hee hrealign =>
    rw [hee] at hphase
    rw [executeGSPacket_of_realigns s.regs hrealign]
    exact ⟨h.regs, h.done, hphase.1, ⟨hrealign.2.1, hrealign.1⟩, hphase.2⟩
  | execute stat hee hrealign =>
    rw [hee] at hphase
    obtain ⟨halike, hexec, hsent⟩ := hphase
    rw [executeGSPacket_of_not_realigns s.regs hrealign]
    refine h.round hexec hsent ?_
    rw [← h.regs]
    exact execRound_alike halike s.regs fun hvalid => (hinv.valid hvalid).1
  | loadTag stat hee =>
    rw [hee] at hphase
    obtain ⟨halike, hholds, hexec, hsent⟩ := hphase
    rw [← execRound_of_holds s.regs hholds]
    refine h.round hexec hsent ?_
    rw [← h.regs]
    exact execRound_alike halike s.regs fun hvalid => (hinv.valid hvalid).1
  | silent t hst => exact h.silent hst

theorem Inv.labelled {s t : State σ} {es : List Event} (h : Inv s)
    (hst : Labelled handlerAD s es t) : Inv t := by
  cases hst with
  | call c hee => exact h.call hee c
  | realign stat hee hrealign => exact h.step (.internal _ _ (.execute s stat hee trivial))
  | execute stat hee hrealign => exact h.step (.internal _ _ (.execute s stat hee trivial))
  | loadTag stat hee => exact h.step (.internal _ _ (.loadTag s stat hee trivial))
  | silent t hst => exact h.internal hst

theorem Rel.runs {s t : State σ} {a : Abs σ} {es : List Event} (h : Rel s a) (hinv : Inv s)
    (hrun : Runs handlerAD s es t) : Inv t ∧ Rel t (es.foldl (Abs.event handlerAD) a) := by
  induction hrun with
  | refl => exact ⟨hinv, h⟩
  | step hrun hst ih =>
    obtain ⟨hinv, hrel⟩ := ih
    rw [List.foldl_append]
    exact ⟨hinv.labelled hst, hrel.labelled hinv hst⟩

theorem Rel.of_alike {s t : State σ} (h : Alike s.path t.path) (hregs : s.regs = t.regs)
    (hdone : s.done = t.done) (hsent : s.sent = t.sent) (hidle : s.ee = .idle) :
    Rel s ⟨t.path, t.regs, false, t.done, t.sent⟩ :=
  ⟨hregs, hdone, hidle ▸ ⟨h, rfl, hsent.symm⟩⟩

/-- Two idle states whose paths are alike, after runs that show the same events: what was
handed to the GS, the registers and the paths are the same again. -/
theorem runs_alike {s t s' t' : State σ} {es : List Event} (hs : Inv s) (ht : Inv t)
    (h : Alike s.path t.path) (hregs : s.regs = t.regs) (hdone : s.done = t.done)
    (hsent : s.sent = t.sent) (hidle : s.ee = .idle) (hidle' : t.ee = .idle)
    (hrun : Runs handlerAD s es s') (hrun' : Runs handlerAD t es t') (hend : s'.ee = .idle)
    (hend' : t'.ee = .idle) :
    Alike s'.path t'.path ∧ s'.regs = t'.regs ∧ s'.done = t'.done ∧ s'.sent = t'.sent := by
  obtain ⟨-, hrel⟩ := (Rel.of_alike h hregs hdone hsent hidle).runs hs hrun
  obtain ⟨-, hrel'⟩ := (Rel.of_alike (.refl ht.placed) rfl rfl rfl hidle').runs ht hrun'
  have hphase := hrel.phase
  have hphase' := hrel'.phase
  rw [hend] at hphase
  rw [hend'] at hphase'
  exact ⟨hphase.1.trans hphase'.1.symm, hrel.regs.trans hrel'.regs.symm,
    hrel.done.trans hrel'.done.symm, hphase.2.2.symm.trans hphase'.2.2⟩

end OmegaRed.Gif
