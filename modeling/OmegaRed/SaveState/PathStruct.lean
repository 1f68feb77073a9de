import OmegaRed.Gif.Script
import Mathlib.Data.List.GetD

/-! The object of a GIF path as a savestate holds it, and the range of its fields in a run. -/

namespace OmegaRed.SaveState

open Gif Lib.Words

/-- How the values of an object lie in memory. -/
structure Image (α : Type) where
  size : Nat
  toBytes : α → List UInt8
  ofBytes : List UInt8 → α
  length_toBytes : ∀ a, (toBytes a).length = size
  ofBytes_toBytes : ∀ a, ofBytes (toBytes a) = a

structure TagStruct where
  nloop : Fin (2 ^ 15)
  eop : Bool
  flg : GifFlg
  nreg : Fin 16
  regs0 : UInt32
  regs1 : UInt32
  nLoop : UInt32
  nRegs : UInt32
  nRegIdx : UInt32
  len : UInt32
  regs : Fin 16 → UInt8
  hasAD : Bool
  isValid : Bool

structure GSPacketStruct where
  offset : UInt32
  size : UInt32
  readAmount : UInt32

/-- `Gif_Path` up to `mtvu`, without what does not change. -/
structure PathStruct where
  readAmount : UInt32
  buffSize : UInt32
  buffLimit : UInt32
  curSize : UInt32
  curOffset : UInt32
  dmaRewind : UInt32
  gifTag : TagStruct
  gsPack : GSPacketStruct
  state : GifPathState

def tagStruct (t : GifTag) : TagStruct where
  nloop := Fin.ofNat _ t.tag.nloop
  eop := t.tag.eop
  flg := t.tag.flg
  nreg := Fin.ofNat _ t.tag.nreg
  regs0 := t.tag.regs0
  regs1 := t.tag.regs1
  nLoop := .ofNat t.nLoop
  nRegs := .ofNat t.nRegs
  nRegIdx := .ofNat t.nRegIdx
  len := .ofNat t.len
  regs i := (t.regs.getD i 0).toUInt8
  hasAD := t.hasAD
  isValid := t.isValid

def TagStruct.toTag (t : TagStruct) : GifTag where
  tag := ⟨t.nloop, t.eop, t.flg, t.nreg, t.regs0, t.regs1⟩
  nLoop := t.nLoop.toNat
  nRegs := t.nRegs.toNat
  nRegIdx := t.nRegIdx.toNat
  len := t.len.toNat
  regs := List.ofFn fun i => (t.regs i).toUInt32
  hasAD := t.hasAD
  isValid := t.isValid

/-- The object of the path; `packReadAmount` is `gsPack.readAmount`. -/
def pathStruct (p : GifPath) (packReadAmount : Int) : PathStruct where
  readAmount := .ofInt p.readAmount
  buffSize := .ofNat buffSize
  buffLimit := .ofNat buffLimit
  curSize := .ofNat p.curSize
  curOffset := .ofNat p.curOffset
  dmaRewind := .ofNat p.dmaRewind
  gifTag := tagStruct p.gifTag
  gsPack := ⟨.ofNat p.gsPack.offset, .ofNat p.gsPack.size, .ofInt packReadAmount⟩
  state := p.state

/-- The path that the object is, once `readAmount` is cleared. -/
def PathStruct.toPath (q : PathStruct) (buffer : Nat → UInt8) : GifPath where
  readAmount := 0
  buffer := buffer
  curSize := q.curSize.toNat
  curOffset := q.curOffset.toNat
  dmaRewind := q.dmaRewind.toNat
  gifTag := q.gifTag.toTag
  gsPack := ⟨q.gsPack.offset.toNat, q.gsPack.size.toNat⟩
  state := q.state

structure TagBounded (t : GifTag) : Prop where
  nloop : t.tag.nloop < 2 ^ 15
  nreg : t.tag.nreg < 16
  nLoop : t.nLoop < 2 ^ 15
  nRegs : t.nRegs ≤ 16
  nRegIdx : t.nRegIdx ≤ 16
  len : t.len < 2 ^ 32
  regs : ∀ r ∈ t.regs, r.toNat < 16

theorem alike_toTag {t : GifTag} (h : TagBounded t) : t.Alike (tagStruct t).toTag where
  tag := by
    have hnloop : t.tag.nloop % 2 ^ 15 = t.tag.nloop := Nat.mod_eq_of_lt h.nloop
    have hnreg : t.tag.nreg % 16 = t.tag.nreg := Nat.mod_eq_of_lt h.nreg
    simp only [TagStruct.toTag, tagStruct, Fin.val_ofNat, hnloop, hnreg]
  nLoop := (UInt32.toNat_ofNat_of_lt' (Nat.lt_trans h.nLoop (by decide))).symm
  nRegs := (UInt32.toNat_ofNat_of_lt' (Nat.lt_of_le_of_lt h.nRegs (by decide))).symm
  nRegIdx := (UInt32.toNat_ofNat_of_lt' (Nat.lt_of_le_of_lt h.nRegIdx (by decide))).symm
  len := (UInt32.toNat_ofNat_of_lt' h.len).symm
  hasAD := rfl
  isValid := rfl
  regs i hi := by
    have hlt : (t.regs.getD i 0).toNat < 16 := by
      by_cases hlen : i < t.regs.length
      · rw [List.getD_eq_getElem _ _ hlen]
        exact h.regs _ (List.getElem_mem hlen)
      · rw [List.getD_eq_default _ _ (Nat.not_lt.mp hlen)]
        decide
    have hback : (t.regs.getD i 0).toUInt8.toUInt32 = t.regs.getD i 0 := by
      apply UInt32.toNat_inj.mp
      rw [UInt8.toNat_toUInt32, UInt32.toNat_toUInt8]
      omega
    have hofFn : (List.ofFn fun i => ((tagStruct t).regs i).toUInt32).getD i 0 =
        ((tagStruct t).regs ⟨i, hi⟩).toUInt32 := by
      rw [List.getD_eq_getElem _ _ (by simpa using hi), List.getElem_ofFn]
    rw [TagStruct.toTag, hofFn]
    exact hback.symm

theorem TagBounded.reset : TagBounded .reset :=
  ⟨by decide, by decide, by decide, by decide, by decide, by decide, fun _ hr => nomatch hr⟩

theorem TagBounded.packedStep {t : GifTag} (h : TagBounded t) : TagBounded t.packedStep := by
  rw [GifTag.packedStep]
  split
  · split
    · exact ⟨h.nloop, h.nreg, Nat.lt_of_le_of_lt (Nat.sub_le _ _) h.nLoop, h.nRegs, Nat.zero_le _,
        h.len, h.regs⟩
    · rename_i hlt
      have hnRegs := h.nRegs
      exact ⟨h.nloop, h.nreg, h.nLoop, h.nRegs, by dsimp only; omega, h.len, h.regs⟩
  · exact h

theorem TagBounded.invalid {t : GifTag} (h : TagBounded t) :
    TagBounded { t with isValid := false } :=
  ⟨h.nloop, h.nreg, h.nLoop, h.nRegs, h.nRegIdx, h.len, h.regs⟩

theorem nloop_read_lt (m : Nat → UInt8) (a : Nat) : (HWGifTag.read m a).nloop < 2 ^ 15 :=
  Nat.mod_lt _ (by decide)

theorem nreg_read_lt (m : Nat → UInt8) (a : Nat) : (HWGifTag.read m a).nreg < 16 := by
  have hlt := (loadWord m (a + 4)).toNat_lt
  change (loadWord m (a + 4)).toNat / 2 ^ 28 < 16
  omega

theorem toNat_lt_of_mem_nibbles {r w : UInt32} {n : Nat} (h : r ∈ GifTag.nibbles w n) :
    r.toNat < 16 := by
  obtain ⟨i, -, rfl⟩ := List.mem_map.mp h
  rw [UInt32.toNat_and]
  exact Nat.lt_of_le_of_lt Nat.and_le_right (by decide)

theorem TagBounded.setTag {t : GifTag} (h : TagBounded t) (m : Nat → UInt8) (a : Nat) :
    TagBounded (t.setTag m a) := by
  have hnloop := nloop_read_lt m a
  have hnreg := nreg_read_lt m a
  have hnRegs : ((HWGifTag.read m a).nreg + 15) % 16 + 1 ≤ 16 := by omega
  have hlen : (((HWGifTag.read m a).nreg + 15) % 16 + 1) * (HWGifTag.read m a).nloop ≤ 16 * 2 ^ 15 :=
    Nat.mul_le_mul hnRegs (Nat.le_of_lt hnloop)
  rw [GifTag.setTag]
  dsimp only
  split
  · refine ⟨hnloop, hnreg, hnloop, hnRegs, Nat.zero_le _, ?_, fun r hr => ?_⟩
    · change _ * _ * 16 < _
      omega
    · rcases List.mem_append.mp hr with hr | hr <;> exact toNat_lt_of_mem_nibbles hr
  · refine ⟨hnloop, hnreg, hnloop, hnRegs, Nat.zero_le _, ?_, h.regs⟩
    change (_ * _ + 1) / 2 * 16 < _
    omega
  · refine ⟨hnloop, hnreg, hnloop, Nat.zero_le _, Nat.zero_le _, ?_, h.regs⟩
    change _ * 16 < _
    omega
  · refine ⟨hnloop, hnreg, hnloop, Nat.zero_le _, Nat.zero_le _, ?_, h.regs⟩
    change _ * 16 < _
    omega

/-- The fields of the path hold its values. -/
structure Bounded (p : GifPath) : Prop where
  gifTag : TagBounded p.gifTag
  curSize : p.curSize ≤ buffSize
  dmaRewind : p.dmaRewind ≤ buffSize

theorem Bounded.incTag {p : GifPath} (h : Bounded p) (n : Nat) {t : GifTag} (ht : TagBounded t) :
    Bounded { p.incTag n with gifTag := t } :=
  ⟨ht, h.curSize, h.dmaRewind⟩

theorem Bounded.adLoop {σ : Type} {handlerAD : List UInt8 → σ → Bool × σ} {p : GifPath} {g : σ}
    (h : Bounded p) : Bounded (adLoop handlerAD p g).2.1 := by
  fun_induction Gif.adLoop handlerAD p g with
  | case1 => exact h
  | case2 => exact h
  | case3 => exact h.incTag 16 h.gifTag.packedStep
  | case4 p g hloop hsize dbl g' hg p' hdbl ih => exact ih (h.incTag 16 h.gifTag.packedStep)

/-- The path that a round leaves. -/
def execPath {σ : Type} : Exec σ → GifPath
  | .again p _ | .realign p _ | .exit p _ | .done p _ _ => p

variable {σ : Type} {handlerAD : List UInt8 → σ → Bool × σ} {stat : Stat}

theorem Bounded.endTag {p : GifPath} (h : Bounded p) (g : σ) (hin : p.curOffset ≤ p.curSize) :
    Bounded (execPath (endTag stat p g)) := by
  have htag := h.gifTag.invalid
  have hsize := h.curSize
  rw [Gif.endTag]
  dsimp only
  split
  · split
    · split
      · exact ⟨htag, Nat.le_trans hin hsize, Nat.le_trans (Nat.sub_le _ _) hsize⟩
      · exact ⟨htag, hsize, Nat.zero_le _⟩
    · exact ⟨htag, hsize, Nat.zero_le _⟩
  · exact ⟨htag, hsize, h.dmaRewind⟩

theorem Bounded.processData {p : GifPath} (h : Bounded p) (g : σ) (hp : Placed p)
    (hlen : p.gifTag.hasAD = false → p.curOffset + p.gifTag.len ≤ p.curSize) :
    Bounded (execPath (processData handlerAD stat p g)) := by
  rw [Gif.processData]
  split
  · have hloop : Bounded (Gif.adLoop handlerAD p g).2.1 := h.adLoop
    have hin := (adLoop_advances handlerAD g hp).1.placed.inData
    split
    · rename_i hr
      rw [hr] at hloop
      exact hloop
    · rename_i hr
      rw [hr] at hloop hin
      split
      · exact hloop.endTag _ hin
      · exact hloop
    · rename_i hr
      rw [hr] at hloop hin
      exact hloop.endTag _ hin
  · rename_i hAD
    exact (h.incTag p.gifTag.len h.gifTag).endTag g (hlen (by simpa using hAD))

theorem Bounded.loadTag {p : GifPath} (h : Bounded p) (g : σ) (hp : Placed p)
    (hsize : p.curOffset + 16 ≤ p.curSize) :
    Bounded (execPath (loadTag handlerAD stat p g)) := by
  have hset : Bounded p.setTag := ⟨h.gifTag.setTag _ _, h.curSize, h.dmaRewind⟩
  have hplaced : Placed p.setTag := ⟨hp.packet, hp.inData⟩
  rw [Gif.loadTag]
  dsimp only
  split
  · exact ⟨hset.gifTag.invalid, hset.curSize, hset.dmaRewind⟩
  · rename_i hfit
    refine Bounded.processData (hset.incTag 16 hset.gifTag) g
      (hplaced.incTag hsize p.setTag.gifTag p.setTag.state).placed fun hAD => ?_
    have hAD : p.setTag.gifTag.hasAD = false := hAD
    rw [hAD, Bool.not_false, Bool.true_and, decide_eq_true_eq] at hfit
    exact Nat.not_lt.mp hfit

theorem Bounded.executeGSPacket {p : GifPath} (h : Bounded p) (g : σ) (hp : Placed p)
    (hvalid : p.gifTag.isValid = true → p.gifTag.hasAD = true) :
    Bounded (execPath (executeGSPacket handlerAD stat p g)) := by
  rw [Gif.executeGSPacket]
  split
  · split
    · exact h
    · split
      · exact h
      · exact h.loadTag g hp (by omega)
  · rename_i hv
    exact h.processData g hp fun hAD => absurd (hvalid (by simpa using hv)) (by simp [hAD])

theorem Bounded.moveToFront {p : GifPath} (h : Bounded p) : Bounded p.moveToFront :=
  ⟨h.gifTag, Nat.le_trans (Nat.sub_le _ _) h.curSize, h.dmaRewind⟩

theorem path_afterExec (s : State σ) (e : Exec σ) : (s.afterExec e).path = execPath e := by
  cases e <;> rfl

theorem Bounded.call {s : State σ} (h : Bounded s.path) (c : Call) : Bounded (s.call c).path := by
  cases c with
  | copyGSPacketData data => exact h
  | executeGSPacket => exact h
  | flushToMTGS =>
    rw [State.call]
    split
    · exact ⟨h.gifTag, h.curSize, h.dmaRewind⟩
    · exact h
  | slice =>
    rw [State.call]
    split
    · exact ⟨h.gifTag.invalid, h.curSize, h.dmaRewind⟩
    · exact h

theorem Bounded.step {s t : State σ} (h : Bounded s.path) (hinv : Inv s)
    (hst : Step handlerAD s t) : Bounded t.path := by
  have hvalid := fun hv => (hinv.valid hv).1
  cases hst with
  | call c hee hc => exact h.call c
  | internal t hst =>
    cases hst with
    | execute stat hee hstat =>
      rw [path_afterExec]
      exact h.executeGSPacket s.regs hinv.placed hvalid
    | loadTag stat hee hstat =>
      have hpending := hinv.pending
      rw [hee] at hpending
      rw [path_afterExec]
      exact h.loadTag s.regs hinv.placed hpending.2.1
    | move k hee => exact h.moveToFront
    | memcpy data hee hsize => exact ⟨h.gifTag, hsize, h.dmaRewind⟩
    | addBlank k size hee => exact ⟨h.gifTag, h.curSize, h.dmaRewind⟩
    | add pack hee => exact ⟨h.gifTag, h.curSize, h.dmaRewind⟩
    | fetchSub e hgs => exact ⟨h.gifTag, h.curSize, h.dmaRewind⟩
    | _ => exact h

theorem bounded_of_reachable {buffer : Nat → UInt8} {regs : σ} {s : State σ}
    (h : Relation.ReflTransGen (Step handlerAD) (.init buffer regs) s) :
    Inv s ∧ Bounded s.path := by
  induction h with
  | refl => exact ⟨.init buffer regs, .reset, Nat.zero_le _, Nat.zero_le _⟩
  | tail _ hst ih => exact ⟨ih.1.step hst, ih.2.step ih.1 hst⟩

theorem alike_toPath {p : GifPath} (hp : Placed p) (h : Bounded p) (packReadAmount : Int)
    {buffer : Nat → UInt8} (hbuf : ∀ i, i < p.curSize → buffer i = p.buffer i) :
    Alike p ((pathStruct p packReadAmount).toPath buffer) := by
  have hlt : buffSize < 2 ^ 32 := by decide
  have hpk := hp.packet
  have hin := hp.inData
  have hmax := h.curSize
  have hcurSize : (UInt32.ofNat p.curSize).toNat = p.curSize :=
    UInt32.toNat_ofNat_of_lt' (by change p.curSize < 2 ^ 32; omega)
  have hcurOffset : (UInt32.ofNat p.curOffset).toNat = p.curOffset :=
    UInt32.toNat_ofNat_of_lt' (by change p.curOffset < 2 ^ 32; omega)
  have hoffset : (UInt32.ofNat p.gsPack.offset).toNat = p.gsPack.offset :=
    UInt32.toNat_ofNat_of_lt' (by change p.gsPack.offset < 2 ^ 32; omega)
  have hsize : (UInt32.ofNat p.gsPack.size).toNat = p.gsPack.size :=
    UInt32.toNat_ofNat_of_lt' (by change p.gsPack.size < 2 ^ 32; omega)
  have hrewind : (UInt32.ofNat p.dmaRewind).toNat = p.dmaRewind :=
    UInt32.toNat_ofNat_of_lt' (Nat.lt_of_le_of_lt h.dmaRewind hlt)
  have hpath : (pathStruct p packReadAmount).toPath buffer =
      { p with readAmount := 0, buffer := buffer, gifTag := (tagStruct p.gifTag).toTag } := by
    simp only [PathStruct.toPath, pathStruct, hcurSize, hcurOffset, hoffset, hsize, hrewind]
  rw [hpath]
  refine ⟨hp, ⟨hpk, hin⟩, ?_, rfl, alike_toTag h.gifTag, rfl, rfl⟩
  apply Lib.Memory.load_congr
  intro i hi
  exact (hbuf _ (by omega)).symm

end OmegaRed.SaveState

/-! One layout of the object of a path. -/

namespace OmegaRed.SaveState

open Gif

/-- The words in a list of bytes. -/
def words : List UInt8 → List UInt32
  | b₀ :: b₁ :: b₂ :: b₃ :: l => Lib.Words.ofBytes b₀ b₁ b₂ b₃ :: words l
  | _ => []

theorem words_flatMap_bytes (ws : List UInt32) : words (ws.flatMap Lib.Words.bytes) = ws := by
  induction ws with
  | nil => rfl
  | cons w ws ih =>
    rw [List.flatMap_cons]
    change Lib.Words.ofBytes _ _ _ _ :: words (ws.flatMap Lib.Words.bytes) = _
    rw [Lib.Words.ofBytes_bytes, ih]

def flgWord : GifFlg → UInt32
  | .packed => 0
  | .reglist => 1
  | .image => 2
  | .image2 => 3

def stateWord : GifPathState → UInt32
  | .idle => 0
  | .packed => 1
  | .reglist => 2
  | .image => 3
  | .wait => 4

def stateOfWord (w : UInt32) : GifPathState :=
  if w = 0 then .idle else if w = 1 then .packed else if w = 2 then .reglist
  else if w = 3 then .image else .wait

def boolWord (b : Bool) : UInt32 := if b then 1 else 0

namespace PathStruct

def toWords (q : PathStruct) : List UInt32 :=
  let t := q.gifTag
  [q.readAmount, q.buffSize, q.buffLimit, q.curSize, q.curOffset, q.dmaRewind,
    .ofNat t.nloop, boolWord t.eop, flgWord t.flg, .ofNat t.nreg, t.regs0, t.regs1,
    t.nLoop, t.nRegs, t.nRegIdx, t.len, boolWord t.hasAD, boolWord t.isValid,
    q.gsPack.offset, q.gsPack.size, q.gsPack.readAmount, stateWord q.state] ++
    List.ofFn fun i => (t.regs i).toUInt32

def ofWords (ws : List UInt32) : PathStruct :=
  let w := fun i => ws.getD i 0
  { readAmount := w 0, buffSize := w 1, buffLimit := w 2, curSize := w 3, curOffset := w 4
    dmaRewind := w 5
    gifTag :=
      { nloop := Fin.ofNat _ (w 6).toNat, eop := w 7 = 1, flg := .ofBits (w 8).toNat
        nreg := Fin.ofNat _ (w 9).toNat, regs0 := w 10, regs1 := w 11, nLoop := w 12
        nRegs := w 13, nRegIdx := w 14, len := w 15, hasAD := w 16 = 1, isValid := w 17 = 1
        regs := fun i => (w (22 + i.val)).toUInt8 }
    gsPack := ⟨w 18, w 19, w 20⟩
    state := stateOfWord (w 21) }

theorem getD_toWords_regs (q : PathStruct) (i : Fin 16) :
    q.toWords.getD (22 + i) 0 = (q.gifTag.regs i).toUInt32 := by
  have hlen : 22 + (i : Nat) < q.toWords.length := by
    have hi := i.isLt
    simp only [toWords, List.length_append, List.length_cons, List.length_nil, List.length_ofFn]
    omega
  rw [List.getD_eq_getElem _ _ hlen]
  simp only [toWords]
  rw [List.getElem_append_right (by simp), List.getElem_ofFn]
  simp

theorem ofBits_flgWord (f : GifFlg) : GifFlg.ofBits (flgWord f).toNat = f := by
  cases f <;> rfl

theorem stateOfWord_stateWord (s : GifPathState) : stateOfWord (stateWord s) = s := by
  cases s <;> rfl

theorem boolWord_eq_one (b : Bool) : decide (boolWord b = 1) = b := by
  cases b <;> rfl

theorem ofNat_mod_word {n : Nat} [NeZero n] (hn : n ≤ 2 ^ 32) (i : Fin n) :
    Fin.ofNat n (i % 2 ^ 32) = i := by
  rw [Nat.mod_eq_of_lt (Nat.lt_of_lt_of_le i.isLt hn)]
  exact Fin.ofNat_val_eq_self i

theorem ofWords_toWords (q : PathStruct) : ofWords q.toWords = q := by
  simp only [ofWords, getD_toWords_regs, UInt8.toUInt8_toUInt32]
  obtain ⟨readAmount, buffSize, buffLimit, curSize, curOffset, dmaRewind, gifTag, gsPack, state⟩ := q
  obtain ⟨nloop, eop, flg, nreg, regs0, regs1, nLoop, nRegs, nRegIdx, len, regs, hasAD, isValid⟩ :=
    gifTag
  simp only [toWords, List.cons_append, List.getD_cons_zero, List.getD_cons_succ,
    UInt32.toNat_ofNat', ofNat_mod_word (n := 2 ^ 15) (by decide),
    ofNat_mod_word (n := 16) (by decide), ofBits_flgWord, stateOfWord_stateWord, boolWord_eq_one]

/-- One field behind the other, each of them a word. -/
def packed : Image PathStruct where
  size := 152
  toBytes q := q.toWords.flatMap Lib.Words.bytes
  ofBytes l := ofWords (words l)
  length_toBytes q := by
    rw [List.length_flatMap]
    simp [toWords]
  ofBytes_toBytes q := by rw [words_flatMap_bytes, ofWords_toWords]

end PathStruct

end OmegaRed.SaveState
