import OmegaRed.Gif.Parser
import OmegaRed.Gif.Path

/-! Where the unread packets of a path lie in its buffer. -/

namespace OmegaRed.Gif

open Lib.Memory

def total (es : List Entry) : Nat := (es.map Entry.size).sum

@[simp] theorem total_nil : total [] = 0 := rfl

@[simp] theorem total_cons (e : Entry) (es : List Entry) : total (e :: es) = e.size + total es := rfl

@[simp] theorem total_append (es fs : List Entry) : total (es ++ fs) = total es + total fs := by
  simp [total]

/-- The entries are packets that fill the buffer from `a` to `b`. -/
def Tiles : List Entry → Nat → Nat → Prop
  | [], a, b => a = b
  | .gsPacket offset bytes :: es, a, b =>
    offset = a ∧ 0 < bytes.length ∧ Tiles es (a + bytes.length) b
  | .blank _ :: _, _, _ => False

theorem Tiles.total {es : List Entry} {a b : Nat} (h : Tiles es a b) : b = a + total es := by
  induction es generalizing a with
  | nil => exact h.symm
  | cons e es ih =>
    cases e with
    | gsPacket offset bytes =>
      rw [ih h.2.2, total_cons]
      simp only [Entry.size]
      omega
    | blank size => exact h.elim

theorem Tiles.eq_nil {es : List Entry} {a : Nat} (h : Tiles es a a) : es = [] := by
  cases es with
  | nil => rfl
  | cons e es =>
    have htotal := h.total
    cases e with
    | gsPacket offset bytes =>
      have := h.2.1
      simp only [total_cons, Entry.size] at htotal
      omega
    | blank size => exact h.elim

theorem Tiles.tail {e : Entry} {es : List Entry} {a b : Nat} (h : Tiles (e :: es) a b) :
    Tiles es (a + e.size) b := by
  cases e with
  | gsPacket offset bytes => exact h.2.2
  | blank size => exact h.elim

theorem Tiles.snoc {es : List Entry} {a b : Nat} {bytes : List UInt8} (h : Tiles es a b)
    (hb : 0 < bytes.length) : Tiles (es ++ [.gsPacket b bytes]) a (b + bytes.length) := by
  induction es generalizing a with
  | nil =>
    obtain rfl : a = b := h
    exact ⟨rfl, hb, rfl⟩
  | cons e es ih =>
    cases e with
    | gsPacket offset bytes' => exact ⟨h.1, h.2.1, ih h.2.2⟩
    | blank size => exact h.elim

theorem Tiles.mem {es : List Entry} {a b offset : Nat} {bytes : List UInt8} (h : Tiles es a b)
    (hm : .gsPacket offset bytes ∈ es) : a ≤ offset ∧ offset + bytes.length ≤ b := by
  induction es generalizing a with
  | nil => simp at hm
  | cons e es ih =>
    have htotal := h.total
    cases hm with
    | head =>
      obtain ⟨rfl, -, -⟩ := h
      simp only [total_cons, Entry.size] at htotal
      omega
    | tail _ hm =>
      obtain ⟨hlo, hhi⟩ := ih h.tail hm
      omega

/-- The blank packet `RealignPacket` sends at `e`, the end of the lap it leaves. -/
def lapBlank (e : Nat) : List Entry := if e < buffLimit then [.blank (buffLimit - e)] else []

theorem lapBlank_of_lt {e : Nat} (h : e < buffLimit) : lapBlank e = [.blank (buffLimit - e)] :=
  if_pos h

theorem lapBlank_of_ge {e : Nat} (h : buffLimit ≤ e) : lapBlank e = [] := if_neg (by omega)

theorem not_gsPacket_mem_lapBlank (e offset : Nat) (bytes : List UInt8) :
    Entry.gsPacket offset bytes ∉ lapBlank e := by
  rw [lapBlank]
  split <;> simp

theorem total_lapBlank (e : Nat) : e + total (lapBlank e) = max e buffLimit := by
  rw [lapBlank]
  split
  · simp only [total_cons, total_nil, Entry.size]
    omega
  · simp only [total_nil]
    omega

/-- The unread entries end at `base`, where the packet in hand starts.  Either they are
one piece, or some are left from the lap before: these lie from `a` to `e`, and then the
data of this lap, `n` bytes, has not reached them. -/
inductive Layout (n : Nat) : List Entry → Nat → Prop
  | one (es : List Entry) (a base : Nat) : Tiles es a base → Layout n es base
  | two (prev cur : List Entry) (a e base : Nat) : Tiles prev a e → Tiles cur 0 base →
      (prev ≠ [] → n ≤ a) → prev ++ lapBlank e ≠ [] → Layout n (prev ++ lapBlank e ++ cur) base

theorem Layout.mono {n m : Nat} {es : List Entry} {base : Nat} (h : Layout n es base)
    (hm : m ≤ n) : Layout m es base := by
  cases h with
  | one es a base hes => exact .one es a base hes
  | two prev cur a e base hprev hcur hn hne =>
    exact .two prev cur a e base hprev hcur (fun hp => hm.trans (hn hp)) hne

theorem Layout.tail {n : Nat} {e : Entry} {es : List Entry} {base : Nat}
    (h : Layout n (e :: es) base) : Layout n es base := by
  generalize hes : e :: es = fs at h
  cases h with
  | one fs a base hfs =>
    subst hes
    exact .one es _ base hfs.tail
  | two prev cur a d base hprev hcur hn hne =>
    cases prev with
    | cons p prev =>
      simp only [List.cons_append] at hes
      obtain ⟨rfl, rfl⟩ := List.cons.inj hes
      by_cases hrest : prev ++ lapBlank d = []
      · rw [hrest, List.nil_append]
        exact .one cur 0 base hcur
      · refine .two prev cur _ d base hprev.tail hcur ?_ hrest
        intro _
        exact (hn (by simp)).trans (Nat.le_add_right _ _)
    | nil =>
      rw [lapBlank] at hes hne
      split at hes
      · obtain ⟨rfl, rfl⟩ := List.cons.inj hes
        exact .one _ 0 base hcur
      · rename_i hd
        rw [if_neg hd] at hne
        exact absurd rfl hne

theorem Layout.snoc {n : Nat} {es : List Entry} {base : Nat} {bytes : List UInt8}
    (h : Layout n es base) (hb : 0 < bytes.length) :
    Layout n (es ++ [.gsPacket base bytes]) (base + bytes.length) := by
  cases h with
  | one es a base hes => exact .one _ a _ (hes.snoc hb)
  | two prev cur a e base hprev hcur hn hne =>
    rw [List.append_assoc]
    exact .two prev _ a e _ hprev (hcur.snoc hb) hn hne

/-- As long as no more is unread than lies before `base`, all of it is of this lap. -/
theorem Layout.one_of_total_le {n : Nat} {es : List Entry} {base : Nat} (h : Layout n es base)
    (hle : total es ≤ base) : ∃ a, Tiles es a base := by
  cases h with
  | one es a base hes => exact ⟨a, hes⟩
  | two prev cur a e base hprev hcur hn hne =>
    have hp := hprev.total
    have hc := hcur.total
    have hb := total_lapBlank e
    simp only [total_append] at hle
    have hprev0 : total prev = 0 := by omega
    have hblank0 : total (lapBlank e) = 0 := by omega
    have hae : a = e := by omega
    subst hae
    rw [hprev.eq_nil, lapBlank] at hne
    rw [lapBlank] at hblank0
    split at hne
    · rename_i hd
      rw [if_pos hd] at hblank0
      simp only [total_cons, total_nil, Entry.size] at hblank0
      omega
    · exact absurd rfl hne

theorem Layout.grow {n m : Nat} {es : List Entry} {base : Nat} (h : Layout n es base)
    (hroom : total es ≤ base ∨ m + total es < buffLimit + base) : Layout m es base := by
  cases h with
  | one es a base hes => exact .one es a base hes
  | two prev cur a e base hprev hcur hn hne =>
    rcases hroom with hle | hroom
    · obtain ⟨a', hes⟩ := (Layout.two prev cur a e base hprev hcur hn hne).one_of_total_le hle
      exact .one _ a' _ hes
    · refine .two prev cur a e base hprev hcur ?_ hne
      intro _
      have hp := hprev.total
      have hc := hcur.total
      have hb := total_lapBlank e
      simp only [total_append] at hroom
      omega

/-- Writes from the packet in hand on, up to the size of the layout, miss the unread packets. -/
theorem Layout.mem {n : Nat} {es : List Entry} {base offset : Nat} {bytes : List UInt8}
    (h : Layout n es base) (hm : .gsPacket offset bytes ∈ es) :
    offset + bytes.length ≤ base ∨ n ≤ offset := by
  cases h with
  | one es a base hes => exact .inl (hes.mem hm).2
  | two prev cur a e base hprev hcur hn hne =>
    simp only [List.mem_append] at hm
    rcases hm with (hm | hm) | hm
    · exact .inr ((hn (List.ne_nil_of_mem hm)).trans (hprev.mem hm).1)
    · exact absurd hm (not_gsPacket_mem_lapBlank _ _ _)
    · exact .inl (hcur.mem hm).2

/-- The unread entries leave the first `n` bytes of the buffer free. -/
def Behind (es : List Entry) (base n : Nat) : Prop :=
  ∃ a, Tiles es a base ∧ (es ≠ [] → n ≤ a)

theorem Behind.tail {e : Entry} {es : List Entry} {base n : Nat} (h : Behind (e :: es) base n) :
    Behind es base n := by
  obtain ⟨a, hes, hn⟩ := h
  exact ⟨_, hes.tail, fun _ => (hn (by simp)).trans (Nat.le_add_right _ _)⟩

theorem Behind.mem {es : List Entry} {base n offset : Nat} {bytes : List UInt8}
    (h : Behind es base n) (hm : .gsPacket offset bytes ∈ es) : n ≤ offset := by
  obtain ⟨a, hes, hn⟩ := h
  exact (hn (List.ne_nil_of_mem hm)).trans (hes.mem hm).1

theorem Behind.layout {es : List Entry} {base n : Nat} (h : Behind es base n) :
    Layout n (es ++ lapBlank base) 0 := by
  obtain ⟨a, hes, hn⟩ := h
  by_cases hne : es ++ lapBlank base = []
  · rw [hne]
    exact .one [] 0 0 rfl
  · have := Layout.two es [] a base 0 hes rfl hn hne
    rwa [List.append_nil] at this

end OmegaRed.Gif

/-! The bytes of a queued GS packet stay as they were until the MTGS thread has read them. -/

namespace OmegaRed.Gif

open Lib.Memory Relation

variable {σ : Type} {handlerAD : List UInt8 → σ → Bool × σ} {stats : Stat → Prop}

def GifPath.entry (p : GifPath) (pack : GSPacket) : Entry :=
  .gsPacket pack.offset (load p.buffer pack.offset pack.size)

@[simp] theorem GifPath.size_entry (p : GifPath) (pack : GSPacket) :
    (p.entry pack).size = pack.size := length_load _ _ _

/-- What the code after `RealignPacket` relies on. -/
def After.Holds (p : GifPath) : After → Prop
  | .copy _ => True
  | .tag => p.curOffset + 16 ≤ p.curSize ∧ p.gifTag.isValid = false

/-- The size of the data that `RealignPacket` moves. -/
def GifPath.sizeToAdd (p : GifPath) : Nat := p.curSize - p.gsPack.offset

/-- Where the unread entries lie and what `readAmount` counts, by the EE thread's phase. -/
def Pending (p : GifPath) (es : List Entry) : Phase → Prop
  | .idle | .execute | .wait _ =>
    Layout p.curSize es p.gsPack.offset ∧ p.readAmount = total es
  | .loadTag => (Layout p.curSize es p.gsPack.offset ∧ p.readAmount = total es) ∧ After.tag.Holds p
  | .realign k => (Layout p.curSize es p.gsPack.offset ∧ p.readAmount = total es) ∧ k.Holds p
  | .addBlank k size => (Behind es p.gsPack.offset p.sizeToAdd ∧ p.readAmount = total es) ∧
      lapBlank p.gsPack.offset = [.blank size] ∧ k.Holds p
  | .sendBlank k size => (Behind es p.gsPack.offset p.sizeToAdd ∧ p.readAmount = total es + size) ∧
      lapBlank p.gsPack.offset = [.blank size] ∧ k.Holds p
  | .move k => (∃ fs, Behind fs p.gsPack.offset p.sizeToAdd ∧
      (es = fs ++ lapBlank p.gsPack.offset ∨ es = [])) ∧ p.readAmount = total es ∧ k.Holds p
  | .memcpy data => Layout (p.curSize + data.length) es p.gsPack.offset ∧ p.readAmount = total es
  | .add pack => Layout p.curSize (es ++ [p.entry pack]) p.gsPack.offset ∧ p.readAmount = total es
  | .send pack =>
    Layout p.curSize (es ++ [p.entry pack]) p.gsPack.offset ∧ p.readAmount = total es + pack.size

structure Inv (s : State σ) : Prop where
  placed : Placed s.path
  valid : s.path.gifTag.isValid = true → s.path.gifTag.hasAD = true ∧ 0 < s.path.gsPack.size
  pending : Pending s.path s.unread s.ee
  kept : ∀ offset bytes, .gsPacket offset bytes ∈ s.unread →
    load s.path.buffer offset bytes.length = bytes

/-- `RealignPacket` goes on when the unread packets leave room for the data in front. -/
theorem Layout.behind {p : GifPath} {es : List Entry} (h : Layout p.curSize es p.gsPack.offset)
    (hp : Placed p) (hread : p.readAmount = total es) (hready : p.realignReady) :
    Behind es p.gsPack.offset p.sizeToAdd := by
  have hle : p.gsPack.offset ≤ p.curSize := by
    have := hp.packet
    have := hp.inData
    omega
  simp only [GifPath.realignReady, hp.base, hread, ge_iff_le, decide_eq_true_eq] at hready
  obtain ⟨a, hes⟩ := h.one_of_total_le (by omega)
  refine ⟨a, hes, fun hne => ?_⟩
  have htotal := hes.total
  have hpos : a ≠ p.gsPack.offset := by
    rintro rfl
    exact hne hes.eq_nil
  simp only [GifPath.sizeToAdd]
  omega

theorem Layout.copy {p : GifPath} {es : List Entry} {size : Nat}
    (h : Layout p.curSize es p.gsPack.offset) (hp : Placed p) (hread : p.readAmount = total es)
    (hready : p.copyReady size) : Layout (p.curSize + size) es p.gsPack.offset := by
  simp only [GifPath.copyReady, hp.base, hread, Bool.or_eq_true, decide_eq_true_eq] at hready
  apply h.grow
  omega

theorem Pending.tail {p : GifPath} {e : Entry} {es : List Entry} {ee : Phase}
    (h : Pending p (e :: es) ee) : Pending (p.fetchAdd (-e.size)) es ee := by
  have hread {n : Int} (hr : p.readAmount = total (e :: es) + n) :
      (p.fetchAdd (-e.size)).readAmount = total es + n := by
    simp only [GifPath.fetchAdd, hr, total_cons]
    omega
  have hread0 (hr : p.readAmount = total (e :: es)) :
      (p.fetchAdd (-e.size)).readAmount = total es := by
    simp only [GifPath.fetchAdd, hr, total_cons]
    omega
  cases ee with
  | idle => exact ⟨h.1.tail, hread0 h.2⟩
  | execute => exact ⟨h.1.tail, hread0 h.2⟩
  | wait data => exact ⟨h.1.tail, hread0 h.2⟩
  | memcpy data => exact ⟨h.1.tail, hread0 h.2⟩
  | loadTag => exact ⟨⟨h.1.1.tail, hread0 h.1.2⟩, h.2⟩
  | realign k => exact ⟨⟨h.1.1.tail, hread0 h.1.2⟩, by cases k <;> exact h.2⟩
  | addBlank k size => exact ⟨⟨h.1.1.tail, hread0 h.1.2⟩, h.2.1, by cases k <;> exact h.2.2⟩
  | sendBlank k size => exact ⟨⟨h.1.1.tail, hread h.1.2⟩, h.2.1, by cases k <;> exact h.2.2⟩
  | move k =>
    obtain ⟨⟨fs, hfs, hes⟩, hr, hk⟩ := h
    refine ⟨?_, hread0 hr, by cases k <;> exact hk⟩
    cases fs with
    | nil =>
      refine ⟨[], hfs, .inr ?_⟩
      rcases hes with hes | hes
      · rw [List.nil_append, lapBlank] at hes
        split at hes
        · exact (List.cons.inj hes).2
        · simp at hes
      · simp at hes
    | cons f fs =>
      rcases hes with hes | hes
      · obtain ⟨rfl, rfl⟩ := List.cons.inj hes
        exact ⟨fs, hfs.tail, .inl rfl⟩
      · simp at hes
  | add pack => exact ⟨h.1.tail, hread0 h.2⟩
  | send pack => exact ⟨h.1.tail, hread h.2⟩

theorem Inv.init (buffer : Nat → UInt8) (regs : σ) : Inv (.init buffer regs) where
  placed := ⟨rfl, Nat.le_refl _⟩
  valid h := by simp [State.init, GifPath.reset, GifTag.reset] at h
  pending := ⟨.one [] 0 0 rfl, rfl⟩
  kept offset bytes hm := by simp [State.unread, State.init] at hm

theorem Placed.offset_le {p : GifPath} (h : Placed p) : p.gsPack.offset ≤ p.curSize := by
  have := h.packet
  have := h.inData
  omega

theorem Placed.moveToFront {p : GifPath} (h : Placed p) : Placed p.moveToFront where
  packet := Nat.zero_add _
  inData := by
    have := h.packet
    have := h.inData
    simp only [GifPath.moveToFront, h.base]
    omega

theorem Inv.afterExec {s : State σ} {e : Exec σ} (hplaced : Placed s.path)
    (hlay : Layout s.path.curSize s.unread s.path.gsPack.offset)
    (hread : s.path.readAmount = total s.unread)
    (hkept : ∀ offset bytes, .gsPacket offset bytes ∈ s.unread →
      load s.path.buffer offset bytes.length = bytes) (he : e.Ok s.path) : Inv (s.afterExec e) := by
  cases e with
  | again q g =>
    obtain ⟨hadv, hvalid⟩ := he
    refine ⟨hadv.placed, fun h => ?_, ⟨?_, hadv.readAmount.trans hread⟩, ?_⟩
    · exact absurd (hvalid.symm.trans h) (by simp)
    · rw [← hadv.curSize, ← hadv.offset] at hlay
      exact hlay
    · intro offset bytes hm
      exact (congrArg (load · offset bytes.length) hadv.buffer).trans (hkept offset bytes hm)
  | realign q g =>
    obtain ⟨rfl, hvalid, hsize⟩ := he
    refine ⟨hplaced, fun h => ?_, ⟨⟨hlay, hread⟩, hsize, hvalid⟩, hkept⟩
    exact absurd (hvalid.symm.trans h) (by simp)
  | exit q g =>
    obtain ⟨hadv, hvalid⟩ := he
    refine ⟨hadv.placed, hvalid, ⟨?_, hadv.readAmount.trans hread⟩, ?_⟩
    · rw [← hadv.curSize, ← hadv.offset] at hlay
      exact hlay
    · intro offset bytes hm
      exact (congrArg (load · offset bytes.length) hadv.buffer).trans (hkept offset bytes hm)
  | done q g pack =>
    obtain ⟨hr, hbuf, hoff, hpos, hpack, hcur, hle, hsize, hvalid⟩ := he
    refine ⟨⟨?_, hle⟩, fun h => ?_, ⟨?_, hr.trans hread⟩, ?_⟩
    · simp only [State.afterExec, hpack, hcur, Nat.add_zero]
    · exact absurd (hvalid.symm.trans h) (by simp)
    · have hlen : 0 < (load q.buffer pack.offset pack.size).length := by rwa [length_load]
      have := (hlay.mono hsize).snoc hlen
      simp only [State.afterExec, hpack]
      rwa [length_load, ← hoff] at this
    · intro offset bytes hm
      exact (congrArg (load · offset bytes.length) hbuf).trans (hkept offset bytes hm)

theorem Inv.take {s : State σ} (h : Inv s) (hee : s.ee = .idle) {n : Nat} (hn : 0 < n)
    (hle : n ≤ s.path.gsPack.size) (gifTag : GifTag) (hvalid : gifTag.isValid = false) :
    let pack : GSPacket := ⟨s.path.gsPack.offset, n⟩
    Inv { s with
      path := { s.path with
        curOffset := s.path.gsPack.offset + n, gsPack := ⟨s.path.gsPack.offset + n, 0⟩
        gifTag := gifTag }
      ee := .add pack } := by
  obtain ⟨hplaced, -, hpending, hkept⟩ := h
  rw [hee] at hpending
  obtain ⟨hlay, hread⟩ := hpending
  have hpk := hplaced.packet
  have hin := hplaced.inData
  refine ⟨⟨Nat.add_zero _, ?_⟩, fun h => ?_, ⟨?_, hread⟩, hkept⟩
  · dsimp only
    omega
  · exact absurd (hvalid.symm.trans h) (by simp)
  · have hlen : 0 < (load s.path.buffer s.path.gsPack.offset n).length := by rwa [length_load]
    have := hlay.snoc hlen
    rwa [length_load] at this

theorem Inv.call {s : State σ} (h : Inv s) (hee : s.ee = .idle) (c : Call) : Inv (s.call c) := by
  have hpk := h.placed.packet
  have hpending := h.pending
  rw [hee] at hpending
  cases c with
  | copyGSPacketData data =>
    refine ⟨h.placed, h.valid, ?_, h.kept⟩
    simp only [State.call]
    split
    · exact ⟨hpending, trivial⟩
    · exact hpending
  | executeGSPacket => exact ⟨h.placed, h.valid, hpending, h.kept⟩
  | flushToMTGS =>
    by_cases hf : s.path.gsPack.size ≠ 0 && !s.path.gifTag.isValid
    · have hsize : s.path.gsPack.size ≠ 0 := by simp_all
      have hvalid : s.path.gifTag.isValid = false := by simp_all
      have htake := h.take hee (Nat.pos_of_ne_zero hsize) (Nat.le_refl _) s.path.gifTag hvalid
      simp only [State.call, GifPath.flushed, hf, if_true, GifPath.afterFlush]
      rwa [hpk] at htake
    · simp only [State.call, GifPath.flushed, hf]
      exact h
  | slice =>
    by_cases hs : s.path.gsPack.size > 16
    · have htake := h.take hee (n := s.path.gsPack.size - if s.path.gifTag.isValid then 16 else 0)
        (by split <;> omega) (Nat.sub_le _ _) { s.path.gifTag with isValid := false } rfl
      have hcur : s.path.gsPack.offset +
          (s.path.gsPack.size - if s.path.gifTag.isValid then 16 else 0) =
            s.path.curOffset - if s.path.gifTag.isValid then 16 else 0 := by
        split <;> omega
      simp only [State.call, GifPath.sliced, hs, if_true, GifPath.afterSlice]
      rwa [hcur] at htake
    · simp only [State.call, GifPath.sliced, if_neg hs]
      exact h

theorem Inv.internal {s t : State σ} (h : Inv s) (hst : Internal handlerAD stats s t) : Inv t := by
  obtain ⟨hplaced, hvalid, hpending, hkept⟩ := h
  cases hst with
  | realign k hee hready =>
    rw [hee] at hpending
    obtain ⟨⟨hlay, hread⟩, hk⟩ := hpending
    have hbehind := hlay.behind hplaced hread hready
    refine ⟨hplaced, hvalid, ?_, hkept⟩
    have hbase := hplaced.base
    by_cases hlt : s.path.base < buffLimit
    · have hblank := lapBlank_of_lt (e := s.path.gsPack.offset) (by omega)
      have hsize : (buffLimit - s.path.base).toNat = buffLimit - s.path.gsPack.offset := by omega
      rw [if_pos hlt, hsize]
      exact ⟨⟨hbehind, hread⟩, hblank, hk⟩
    · have hblank := lapBlank_of_ge (e := s.path.gsPack.offset) (by omega)
      rw [if_neg hlt]
      refine ⟨⟨s.unread, hbehind, .inl ?_⟩, hread, hk⟩
      rw [hblank, List.append_nil]
      rfl
  | addBlank k size hee =>
    rw [hee] at hpending
    obtain ⟨⟨hbehind, hread⟩, hblank, hk⟩ := hpending
    refine ⟨⟨hplaced.packet, hplaced.inData⟩, hvalid, ⟨⟨hbehind, ?_⟩, hblank, ?_⟩, hkept⟩
    · exact congrArg (· + (size : Int)) hread
    · cases k <;> exact hk
  | sendBlank k size hee =>
    rw [hee] at hpending
    obtain ⟨⟨hbehind, hread⟩, hblank, hk⟩ := hpending
    have hunread : s.gs.toList ++ (s.queue ++ [Entry.blank size]) =
        s.unread ++ lapBlank s.path.gsPack.offset := by
      rw [hblank, State.unread, List.append_assoc]
    refine ⟨hplaced, hvalid, ⟨⟨s.unread, hbehind, .inl hunread⟩, ?_, hk⟩, ?_⟩
    · dsimp only [State.unread]
      rw [hunread, total_append, hblank, hread]
      simp [Entry.size]
    · intro offset bytes hm
      dsimp only [State.unread] at hm
      rw [hunread, List.mem_append] at hm
      rcases hm with hm | hm
      · exact hkept offset bytes hm
      · exact absurd hm (not_gsPacket_mem_lapBlank _ _ _)
  | move k hee =>
    rw [hee] at hpending
    obtain ⟨⟨fs, hbehind, hes⟩, hread, hk⟩ := hpending
    have hbase : s.path.base.toNat = s.path.gsPack.offset := by rw [hplaced.base]; rfl
    have hlay : Layout s.path.sizeToAdd s.unread 0 := by
      rcases hes with hes | hes
      · rw [hes]
        exact hbehind.layout
      · rw [hes]
        exact .one [] 0 0 rfl
    have hsize : s.path.moveToFront.curSize = s.path.sizeToAdd := by
      simp only [GifPath.moveToFront, hbase, GifPath.sizeToAdd]
    have hnew : Layout s.path.moveToFront.curSize s.unread 0 := by rwa [hsize]
    refine ⟨hplaced.moveToFront, hvalid, ?_, ?_⟩
    · cases k with
      | copy data => exact ⟨hnew, hread⟩
      | tag =>
        refine ⟨⟨hnew, hread⟩, ?_, hk.2⟩
        have := hplaced.packet
        have := hk.1
        simp only [GifPath.moveToFront, hbase]
        omega
    · intro offset bytes hm
      have hfree : s.path.sizeToAdd ≤ offset := by
        change _ ∈ s.unread at hm
        rcases hes with hes | hes
        · rw [hes, List.mem_append] at hm
          rcases hm with hm | hm
          · exact hbehind.mem hm
          · exact absurd hm (not_gsPacket_mem_lapBlank _ _ _)
        · rw [hes] at hm
          simp at hm
      change load (store s.path.buffer 0 (load s.path.buffer s.path.base.toNat
        (s.path.curSize - s.path.base.toNat))) offset bytes.length = bytes
      rw [hbase, load_store_disjoint _ _ (.inr _), hkept offset bytes hm]
      rw [length_load, Nat.zero_add]
      exact hfree
  | wait data hee hready =>
    rw [hee] at hpending
    obtain ⟨hlay, hread⟩ := hpending
    exact ⟨hplaced, hvalid, ⟨hlay.copy hplaced hread hready, hread⟩, hkept⟩
  | memcpy data hee hsize =>
    rw [hee] at hpending
    obtain ⟨hlay, hread⟩ := hpending
    refine ⟨⟨hplaced.packet, hplaced.inData.trans (Nat.le_add_right _ _)⟩, hvalid,
      ⟨hlay, hread⟩, ?_⟩
    intro offset bytes hm
    have hoff := hplaced.offset_le
    have hmiss := hlay.mem hm
    refine (load_store_disjoint _ _ ?_).trans (hkept offset bytes hm)
    omega
  | execute stat hee hstat =>
    rw [hee] at hpending
    obtain ⟨hlay, hread⟩ := hpending
    exact .afterExec hplaced hlay hread hkept (executeGSPacket_ok _ hplaced hvalid)
  | loadTag stat hee hstat =>
    rw [hee] at hpending
    obtain ⟨⟨hlay, hread⟩, hk⟩ := hpending
    exact .afterExec hplaced hlay hread hkept (loadTag_ok _ hplaced hk.1)
  | add pack hee =>
    rw [hee] at hpending
    obtain ⟨hlay, hread⟩ := hpending
    exact ⟨⟨hplaced.packet, hplaced.inData⟩, hvalid,
      ⟨hlay, congrArg (· + (pack.size : Int)) hread⟩, hkept⟩
  | send pack hee =>
    rw [hee] at hpending
    obtain ⟨hlay, hread⟩ := hpending
    have hunread : s.gs.toList ++ (s.queue ++ [s.path.entry pack]) =
        s.unread ++ [s.path.entry pack] := by
      rw [State.unread, List.append_assoc]
    refine ⟨hplaced, hvalid, ⟨?_, ?_⟩, ?_⟩
    · dsimp only [State.unread]
      exact hunread ▸ hlay
    · dsimp only [State.unread]
      change s.path.readAmount = total (s.gs.toList ++ (s.queue ++ [s.path.entry pack]))
      rw [hunread, total_append, hread, total_cons, GifPath.size_entry]
      simp
    · intro offset bytes hm
      dsimp only [State.unread] at hm
      change _ ∈ s.gs.toList ++ (s.queue ++ [s.path.entry pack]) at hm
      rw [hunread, List.mem_append, List.mem_singleton] at hm
      rcases hm with hm | hm
      · exact hkept offset bytes hm
      · obtain ⟨rfl, rfl⟩ := Entry.gsPacket.inj hm
        rw [length_load]
  | consume e queue hgs hqueue =>
    have hunread : s.unread = (some e).toList ++ queue := by
      rw [State.unread, hgs, hqueue]
      rfl
    rw [hunread] at hpending hkept
    exact ⟨hplaced, hvalid, hpending, hkept⟩
  | fetchSub e hgs =>
    have hunread : s.unread = e :: s.queue := by
      rw [State.unread, hgs]
      rfl
    rw [hunread] at hpending hkept
    exact ⟨⟨hplaced.packet, hplaced.inData⟩, hvalid, hpending.tail,
      fun offset bytes hm => hkept offset bytes (List.mem_cons_of_mem _ hm)⟩

theorem Inv.stable {s : State σ} (h : Inv s) : Stable s := by
  obtain ⟨hplaced, -, hpending, hkept⟩ := h
  have hoff := hplaced.offset_le
  intro offset bytes hm
  refine ⟨hkept offset bytes hm, fun lo hi hwrites => ?_⟩
  cases hee : s.ee with
  | memcpy data =>
    rw [hee] at hpending
    simp only [State.writes, hee, Option.some.injEq, Prod.mk.injEq] at hwrites
    have hmiss := hpending.1.mem hm
    omega
  | move k =>
    rw [hee] at hpending
    obtain ⟨⟨fs, hbehind, hes⟩, -⟩ := hpending
    simp only [State.writes, hee, Option.some.injEq, Prod.mk.injEq, hplaced.base] at hwrites
    refine .inr (hwrites.2 ▸ ?_)
    rcases hes with hes | hes
    · rw [hes, List.mem_append] at hm
      rcases hm with hm | hm
      · exact hbehind.mem hm
      · exact absurd hm (not_gsPacket_mem_lapBlank _ _ _)
    · rw [hes] at hm
      simp at hm
  | idle => simp [State.writes, hee] at hwrites
  | realign k => simp [State.writes, hee] at hwrites
  | addBlank k size => simp [State.writes, hee] at hwrites
  | sendBlank k size => simp [State.writes, hee] at hwrites
  | wait data => simp [State.writes, hee] at hwrites
  | execute => simp [State.writes, hee] at hwrites
  | loadTag => simp [State.writes, hee] at hwrites
  | add pack => simp [State.writes, hee] at hwrites
  | send pack => simp [State.writes, hee] at hwrites

theorem Inv.step {s t : State σ} (h : Inv s) (hst : Step handlerAD s t) : Inv t := by
  cases hst with
  | call c hee hc => exact h.call hee c
  | internal t hst => exact h.internal hst

/-- Whatever is called, in every run the queued packets keep their bytes. -/
theorem stable_of_reachable {buffer : Nat → UInt8} {regs : σ} {s : State σ}
    (h : ReflTransGen (Step handlerAD) (.init buffer regs) s) : Stable s :=
  (Lib.Run.invariant (fun _ _ hs hst => hs.step hst) h (Inv.init buffer regs)).stable

/-- An image tag without data that ends its packet. -/
def endingTag : List UInt8 := [0, 0x80, 0, 0, 0, 0, 0, 0x08] ++ List.replicate 8 0

theorem executeGSPacket_endingTag (handlerAD : List UInt8 → σ → Bool × σ) (g : σ) :
    ∃ q, executeGSPacket handlerAD ⟨false, false⟩ ((GifPath.reset fun _ => 0).append endingTag) g =
        .done q g ⟨0, 16⟩ ∧ q.buffer = store (fun _ => 0) 0 endingTag := by
  have hAD : ((GifPath.reset fun _ => 0).append endingTag).setTag.gifTag.hasAD = false := by decide
  have hlen : ((GifPath.reset fun _ => 0).append endingTag).setTag.gifTag.len = 0 := by decide
  have heop : ((GifPath.reset fun _ => 0).append endingTag).setTag.gifTag.tag.eop = true := by
    decide
  rw [executeGSPacket_of_le g rfl (Nat.zero_le _) hAD (hlen ▸ Nat.le_refl 16), hlen, endTag,
    if_pos (by simp [GifPath.incTag, heop])]
  exact ⟨_, rfl, rfl⟩

/-- A packet that waits for the MTGS thread. -/
theorem stable_endingTag : ∃ s : State Unit, s.unread = [.gsPacket 0 endingTag] ∧ Stable s := by
  obtain ⟨q, hexec, hbuf⟩ := executeGSPacket_endingTag (fun _ g => (false, g)) ()
  have hrun : ∃ s, ReflTransGen (Step fun _ g => (false, g)) (.init (fun _ => 0) ()) s ∧
      s.unread = [.gsPacket 0 endingTag] := by
    have hsize : 0 + 16 ≤ buffSize := by decide
    refine Lib.Run.reaches_of_step (.call _ (.copyGSPacketData endingTag) rfl ⟨1, rfl⟩) ?_
    refine Lib.Run.reaches_of_step (.internal _ _ (.wait _ endingTag rfl rfl)) ?_
    refine Lib.Run.reaches_of_step (.internal _ _ (.memcpy _ endingTag rfl hsize)) ?_
    refine Lib.Run.reaches_of_step (.call _ .executeGSPacket rfl trivial) ?_
    refine Lib.Run.reaches_of_step (.internal _ _ (.execute _ ⟨false, false⟩ rfl trivial)) ?_
    change ∃ s, ReflTransGen _ (State.afterExec _ (executeGSPacket _ _
      ((GifPath.reset fun _ => 0).append endingTag) ())) s ∧ _
    rw [hexec]
    refine Lib.Run.reaches_of_step (.internal _ _ (.add _ ⟨0, 16⟩ rfl)) ?_
    refine Lib.Run.reaches_of_step (.internal _ _ (.send _ ⟨0, 16⟩ rfl)) ?_
    refine ⟨_, .refl, ?_⟩
    change [Entry.gsPacket 0 (load q.buffer 0 16)] = _
    rw [hbuf]
    exact congrArg (fun bytes => [Entry.gsPacket 0 bytes]) (load_store_self _ 0 endingTag)
  obtain ⟨s, hreach, hunread⟩ := hrun
  exact ⟨s, hunread, stable_of_reachable hreach⟩

end OmegaRed.Gif
