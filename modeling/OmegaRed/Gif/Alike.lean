import OmegaRed.Gif.Parser

/-! Paths that differ only in where their data lies are parsed alike. -/

namespace OmegaRed.Gif

open Lib.Memory

variable {σ : Type} {handlerAD : List UInt8 → σ → Bool × σ} {stat : Stat}

/-- The same tag, and the same of the 16 registers it can look at. -/
structure GifTag.Alike (t u : GifTag) : Prop where
  tag : t.tag = u.tag
  nLoop : t.nLoop = u.nLoop
  nRegs : t.nRegs = u.nRegs
  nRegIdx : t.nRegIdx = u.nRegIdx
  len : t.len = u.len
  hasAD : t.hasAD = u.hasAD
  isValid : t.isValid = u.isValid
  regs : ∀ i < 16, t.regs.getD i 0 = u.regs.getD i 0

namespace GifTag.Alike

variable {t u v : GifTag}

theorem refl (t : GifTag) : Alike t t := ⟨rfl, rfl, rfl, rfl, rfl, rfl, rfl, fun _ _ => rfl⟩

theorem symm (h : Alike t u) : Alike u t :=
  ⟨h.tag.symm, h.nLoop.symm, h.nRegs.symm, h.nRegIdx.symm, h.len.symm, h.hasAD.symm,
    h.isValid.symm, fun i hi => (h.regs i hi).symm⟩

theorem trans (h : Alike t u) (h' : Alike u v) : Alike t v :=
  ⟨h.tag.trans h'.tag, h.nLoop.trans h'.nLoop, h.nRegs.trans h'.nRegs, h.nRegIdx.trans h'.nRegIdx,
    h.len.trans h'.len, h.hasAD.trans h'.hasAD, h.isValid.trans h'.isValid,
    fun i hi => (h.regs i hi).trans (h'.regs i hi)⟩

theorem curReg (h : Alike t u) : t.curReg = u.curReg := by
  have hlt : t.nRegIdx &&& 0xf < 16 := Nat.lt_of_le_of_lt Nat.and_le_right (by decide)
  rw [GifTag.curReg, GifTag.curReg, ← h.nRegIdx]
  exact h.regs _ hlt

theorem packedStep (h : Alike t u) : Alike t.packedStep u.packedStep := by
  rw [GifTag.packedStep, GifTag.packedStep, h.nLoop, h.nRegIdx, h.nRegs]
  split
  · split
    · exact ⟨h.tag, rfl, rfl, rfl, h.len, h.hasAD, h.isValid, h.regs⟩
    · exact ⟨h.tag, rfl, rfl, rfl, h.len, h.hasAD, h.isValid, h.regs⟩
  · exact h

theorem invalid (h : Alike t u) : Alike { t with isValid := false } { u with isValid := false } :=
  ⟨h.tag, h.nLoop, h.nRegs, h.nRegIdx, h.len, h.hasAD, rfl, h.regs⟩

theorem setTag (h : Alike t u) {m m' : Nat → UInt8} {a b : Nat}
    (hread : load m a 16 = load m' b 16) : Alike (t.setTag m a) (u.setTag m' b) := by
  rw [GifTag.setTag, GifTag.setTag, HWGifTag.read_congr hread]
  dsimp only
  split
  · exact ⟨rfl, rfl, rfl, rfl, rfl, rfl, rfl, fun _ _ => rfl⟩
  · exact ⟨rfl, rfl, rfl, rfl, rfl, rfl, rfl, h.regs⟩
  · exact ⟨rfl, rfl, rfl, rfl, rfl, rfl, rfl, h.regs⟩
  · exact ⟨rfl, rfl, rfl, rfl, rfl, rfl, rfl, h.regs⟩

end GifTag.Alike

/-- The bytes from the packet being assembled to the end of the data. -/
def GifPath.live (p : GifPath) : List UInt8 :=
  load p.buffer p.gsPack.offset (p.curSize - p.gsPack.offset)

structure Alike (p q : GifPath) : Prop where
  left : Placed p
  right : Placed q
  live : p.live = q.live
  size : p.gsPack.size = q.gsPack.size
  gifTag : p.gifTag.Alike q.gifTag
  state : p.state = q.state
  dmaRewind : p.dmaRewind = q.dmaRewind

namespace Alike

variable {p q r : GifPath}

theorem refl (h : Placed p) : Alike p p := ⟨h, h, rfl, rfl, .refl _, rfl, rfl⟩

theorem symm (h : Alike p q) : Alike q p :=
  ⟨h.right, h.left, h.live.symm, h.size.symm, h.gifTag.symm, h.state.symm, h.dmaRewind.symm⟩

theorem trans (h : Alike p q) (h' : Alike q r) : Alike p r :=
  ⟨h.left, h'.right, h.live.trans h'.live, h.size.trans h'.size, h.gifTag.trans h'.gifTag,
    h.state.trans h'.state, h.dmaRewind.trans h'.dmaRewind⟩

theorem length (h : Alike p q) :
    p.curSize - p.gsPack.offset = q.curSize - q.gsPack.offset := by
  have hlen := congrArg List.length h.live
  rwa [GifPath.live, GifPath.live, length_load, length_load] at hlen

theorem positions (h : Alike p q) :
    p.curOffset - p.gsPack.offset = q.curOffset - q.gsPack.offset ∧
      p.curSize - p.curOffset = q.curSize - q.curOffset := by
  have hlen := h.length
  have hsize := h.size
  have hp := h.left.packet
  have hq := h.right.packet
  omega

theorem load_eq (h : Alike p q) {k n : Nat} (hn : p.gsPack.offset + k + n ≤ p.curSize) :
    load p.buffer (p.gsPack.offset + k) n = load q.buffer (q.gsPack.offset + k) n := by
  have hlive := h.live
  rw [GifPath.live, GifPath.live, ← h.length] at hlive
  exact load_part hlive (by omega)

theorem load_curOffset (h : Alike p q) {n : Nat} (hn : p.curOffset + n ≤ p.curSize) :
    load p.buffer p.curOffset n = load q.buffer q.curOffset n := by
  rw [← h.left.packet, ← h.right.packet, ← h.size]
  exact h.load_eq (by rwa [h.left.packet])

theorem packet_eq (h : Alike p q) :
    load p.buffer p.gsPack.offset p.gsPack.size = load q.buffer q.gsPack.offset q.gsPack.size := by
  rw [← h.size]
  exact h.load_eq (k := 0) (by
    rw [Nat.add_zero, h.left.packet]
    exact h.left.inData)

theorem withTag (h : Alike p q) {t u : GifTag} (ht : t.Alike u) :
    Alike { p with gifTag := t } { q with gifTag := u } where
  left := ⟨h.left.packet, h.left.inData⟩
  right := ⟨h.right.packet, h.right.inData⟩
  live := h.live
  size := h.size
  gifTag := ht
  state := h.state
  dmaRewind := h.dmaRewind

theorem incTag (h : Alike p q) {n : Nat} (hn : p.curOffset + n ≤ p.curSize) {t u : GifTag}
    (ht : t.Alike u) :
    Alike { p.incTag n with gifTag := t } { q.incTag n with gifTag := u } where
  left := (h.left.incTag hn _ _).placed
  right := by
    have hpos := h.positions.2
    have hin := h.right.inData
    exact (h.right.incTag (by omega) _ _).placed
  live := h.live
  size := congrArg (· + n) h.size
  gifTag := ht
  state := h.state
  dmaRewind := h.dmaRewind

theorem setTag (h : Alike p q) (hn : p.curOffset + 16 ≤ p.curSize) : Alike p.setTag q.setTag := by
  have htag := h.gifTag.setTag (h.load_curOffset hn)
  refine ⟨⟨h.left.packet, h.left.inData⟩, ⟨h.right.packet, h.right.inData⟩, h.live, h.size, htag,
    ?_, h.dmaRewind⟩
  simp only [GifPath.setTag, htag.tag]

end Alike

/-- What the loop over the data of an A+D tag does with one quadword. -/
def adCall (handlerAD : List UInt8 → σ → Bool × σ) (p : GifPath) (g : σ) : Bool × σ :=
  if p.gifTag.curReg = gifRegAD then handlerAD (load p.buffer p.curOffset 16) g else (false, g)

def GifPath.adStep (p : GifPath) : GifPath := { p.incTag 16 with gifTag := p.gifTag.packedStep }

theorem adLoop_round {p : GifPath} (g : σ) (hloop : ¬p.gifTag.nLoop = 0)
    (hsize : ¬p.curOffset + 16 > p.curSize) :
    adLoop handlerAD p g =
      if (adCall handlerAD p g).1 then (.stalled, p.adStep, (adCall handlerAD p g).2)
      else adLoop handlerAD p.adStep (adCall handlerAD p g).2 := by
  rw [adLoop, if_neg hloop, if_neg hsize]
  rfl

theorem Alike.adCall {p q : GifPath} (h : Alike p q) (g : σ) (hsize : p.curOffset + 16 ≤ p.curSize) :
    adCall handlerAD p g = adCall handlerAD q g := by
  rw [Gif.adCall, Gif.adCall, h.gifTag.curReg, h.load_curOffset hsize]

theorem adLoop_alike (handlerAD : List UInt8 → σ → Bool × σ) {p q : GifPath} (h : Alike p q)
    (g : σ) :
    (adLoop handlerAD p g).1 = (adLoop handlerAD q g).1 ∧
      Alike (adLoop handlerAD p g).2.1 (adLoop handlerAD q g).2.1 ∧
      (adLoop handlerAD p g).2.2 = (adLoop handlerAD q g).2.2 := by
  have hpos := h.positions.2
  have hin := h.left.inData
  have hin' := h.right.inData
  by_cases hloop : p.gifTag.nLoop = 0
  · rw [adLoop, if_pos hloop, adLoop, if_pos (h.gifTag.nLoop ▸ hloop)]
    exact ⟨rfl, h, rfl⟩
  have hloop' : ¬q.gifTag.nLoop = 0 := h.gifTag.nLoop ▸ hloop
  by_cases hsize : p.curOffset + 16 > p.curSize
  · rw [adLoop, if_neg hloop, if_pos hsize, adLoop, if_neg hloop', if_pos (by omega)]
    exact ⟨rfl, h, rfl⟩
  have hstep : Alike p.adStep q.adStep := h.incTag (by omega) h.gifTag.packedStep
  rw [adLoop_round g hloop hsize, adLoop_round g hloop' (by omega), ← h.adCall g (by omega)]
  split
  · exact ⟨rfl, hstep, rfl⟩
  · exact adLoop_alike handlerAD hstep _
termination_by p.curSize - p.curOffset
decreasing_by
  simp only [GifPath.adStep, GifPath.incTag]
  omega

/-- The same end of a round, at paths that are alike. -/
def Exec.Alike : Exec σ → Exec σ → Prop
  | .again p g, .again q g' => Gif.Alike p q ∧ g = g'
  | .exit p g, .exit q g' => Gif.Alike p q ∧ g = g'
  | .done p g pack, .done q g' pack' =>
    Gif.Alike p q ∧ g = g' ∧
      load p.buffer pack.offset pack.size = load q.buffer pack'.offset pack'.size
  | _, _ => False

theorem Alike.rest {p q : GifPath} (h : Alike p q) {n n' : Nat}
    (hn : p.curOffset ≤ n ∧ n ≤ p.curSize) (hn' : q.curOffset ≤ n' ∧ n' ≤ q.curSize)
    (heq : n - p.curOffset = n' - q.curOffset) (state : GifPathState) (dmaRewind : Nat) {t u : GifTag}
    (ht : t.Alike u) :
    Alike
      { p with
        gifTag := t, gsPack := ⟨p.curOffset, 0⟩, state := state, dmaRewind := dmaRewind
        curSize := n }
      { q with
        gifTag := u, gsPack := ⟨q.curOffset, 0⟩, state := state, dmaRewind := dmaRewind
        curSize := n' } where
  left := ⟨Nat.add_zero _, hn.1⟩
  right := ⟨Nat.add_zero _, hn'.1⟩
  live := by
    simp only [GifPath.live, ← heq]
    exact h.load_curOffset (by omega)
  size := rfl
  gifTag := ht
  state := rfl
  dmaRewind := rfl

theorem endTag_alike {p q : GifPath} (h : Alike p q) (g : σ) :
    (endTag stat p g).Alike (endTag stat q g) := by
  have hpos := h.positions.2
  have hin := h.left.inData
  have hin' := h.right.inData
  have htag := h.gifTag.invalid
  have heop : q.gifTag.tag.eop = p.gifTag.tag.eop := by rw [h.gifTag.tag]
  simp only [endTag, heop, ← hpos]
  split
  · split
    · split
      · exact ⟨h.rest ⟨Nat.le_refl _, hin⟩ ⟨Nat.le_refl _, hin'⟩ (by omega) _ _ htag, rfl,
          h.packet_eq⟩
      · exact ⟨h.rest ⟨hin, Nat.le_refl _⟩ ⟨hin', Nat.le_refl _⟩ hpos _ _ htag, rfl, h.packet_eq⟩
    · exact ⟨h.rest ⟨hin, Nat.le_refl _⟩ ⟨hin', Nat.le_refl _⟩ hpos _ _ htag, rfl, h.packet_eq⟩
  · exact ⟨h.withTag htag, rfl⟩

theorem processData_alike {p q : GifPath} (h : Alike p q) (g : σ)
    (hlen : p.gifTag.hasAD = false → p.curOffset + p.gifTag.len ≤ p.curSize) :
    (processData handlerAD stat p g).Alike (processData handlerAD stat q g) := by
  rw [processData, processData, ← h.gifTag.hasAD]
  split
  · obtain ⟨hexit, halike, hregs⟩ := adLoop_alike handlerAD h g
    generalize adLoop handlerAD p g = r at hexit halike hregs
    generalize adLoop handlerAD q g = r' at hexit halike hregs
    obtain ⟨e, p', g'⟩ := r
    obtain ⟨e', q', g''⟩ := r'
    obtain rfl : e = e' := hexit
    obtain rfl : g' = g'' := hregs
    cases e with
    | early => exact ⟨halike, rfl⟩
    | stalled =>
      have halike : Alike p' q' := halike
      have heop : q'.gifTag.tag.eop = p'.gifTag.tag.eop := by rw [halike.gifTag.tag]
      simp only [heop, ← halike.gifTag.nLoop]
      split
      · exact endTag_alike halike g'
      · exact ⟨halike, rfl⟩
    | finished => exact endTag_alike halike g'
  · rename_i hAD
    rw [← h.gifTag.len]
    exact endTag_alike (h.incTag (hlen (by simpa using hAD)) h.gifTag) g

theorem loadTag_alike {p q : GifPath} (h : Alike p q) (g : σ) (hsize : p.curOffset + 16 ≤ p.curSize) :
    (loadTag handlerAD stat p g).Alike (loadTag handlerAD stat q g) := by
  have hset := h.setTag hsize
  have hpos := h.positions.2
  have hin := h.left.inData
  have hin' := h.right.inData
  have hiff : q.curOffset + 16 + p.setTag.gifTag.len > q.curSize ↔
      p.curOffset + 16 + p.setTag.gifTag.len > p.curSize := by omega
  have hcond : (!q.setTag.gifTag.hasAD &&
        decide (q.setTag.curOffset + 16 + q.setTag.gifTag.len > q.setTag.curSize)) =
      (!p.setTag.gifTag.hasAD &&
        decide (p.setTag.curOffset + 16 + p.setTag.gifTag.len > p.setTag.curSize)) := by
    rw [← hset.gifTag.hasAD, ← hset.gifTag.len]
    exact congrArg _ (decide_eq_decide.mpr hiff)
  rw [loadTag, loadTag]
  dsimp only
  rw [hcond]
  split
  · exact ⟨hset.withTag hset.gifTag.invalid, rfl⟩
  · rename_i hfit
    refine processData_alike (hset.incTag (n := 16) hsize hset.gifTag) g fun hAD => ?_
    have hAD : p.setTag.gifTag.hasAD = false := hAD
    rw [hAD, Bool.not_false, Bool.true_and, decide_eq_true_eq] at hfit
    exact Nat.not_lt.mp hfit

end OmegaRed.Gif
