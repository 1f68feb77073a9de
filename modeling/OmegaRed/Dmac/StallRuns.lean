import OmegaRed.Dmac.LegacyDmac
import OmegaRed.Lib.Traces
import Mathlib.Algebra.Order.Group.Nat
import Mathlib.Tactic.Common

/-! A channel with stall control transfers its chain in order, and nothing of a `REFS` packet that
is not below `STADR`. -/

namespace OmegaRed.Dmac

open Lib Traces

/-! ## The chain without stalls -/

/-- Where a chain is: the registers that the next tag is found by. -/
structure Link where
  tadr : U32
  asr0 : U32
  asr1 : U32
  asp : BitVec 2

def DMACh.link (c : DMACh) : Link := ⟨c.tadr, c.asr0, c.asr1, c.asp⟩

/-- The channel with the next tag read. -/
def Link.packet (mem : U32 → Tag) (l : Link) : DMACh × Bool :=
  let ptag := mem l.tadr
  ((⟨0, 0, l.tadr, l.asr0, l.asr1, l.asp, .refe⟩ : DMACh).transfer ptag).hwDmacSrcChainWithStack
    ptag.id

/-- The channel when what is left of a packet in flight has been transferred. -/
def DMACh.settle (c : DMACh) (flight : Bool) : DMACh := if flight then c.advance c.qwc else c

/-- What is left of a packet in flight. -/
def DMACh.rest (c : DMACh) (flight : Bool) : List U32 := if flight then c.quads c.qwc else []

/-- A chain after some tags, with all the quadwords of their packets. -/
structure Walk where
  link : Link
  ended : Bool
  packets : List U32

def walk (mem : U32 → Tag) (tie : Bool) (start : Link) : Nat → Walk
  | 0 => ⟨start, false, []⟩
  | n + 1 =>
    let w := walk mem tie start n
    if w.ended then w
    else
      let (ch, done) := w.link.packet mem
      ⟨(ch.settle (decide (0 < ch.qwc))).link, done || (tie && (mem w.link.tadr).irq),
        w.packets ++ ch.quads ch.qwc⟩

/-- Behind the last quadword of a tag's packet. -/
def Tag.endNat (t : Tag) : Nat := t.addr.toNat + 16 * t.qwc.toNat

/-- What stall control promises: the quadwords of the packets in the order of the chain up to some
tag, each once; the ones of `REFS` packets lie below `STADR`; and a `REFS` tag is taken where its
packet lies below `STADR` as a whole, and stalled where it does not. -/
structure Controlled (mem : U32 → Tag) (tie : Bool) (start : Link) (c : DMACh) (flight done : Bool)
    (h : History) : Prop where
  order : ∃ n, (c.settle flight).link = (walk mem tie start n).link ∧
    done = (walk mem tie start n).ended ∧
    h.sent.map Sent.addr ++ c.rest flight = (walk mem tie start n).packets
  sent : ∀ q ∈ h.sent, q.refs = true → q.addr.toNat + 16 ≤ q.stadr.toNat
  taken : ∀ x ∈ h.taken, (mem x.1).endNat ≤ x.2.toNat
  stalls : ∀ x ∈ h.stalls, x.2.toNat < (mem x.1).endNat

/-! ## Parts of a packet -/

namespace DMACh

variable (c : DMACh)

theorem advance_advance {k n : Nat} (hk : k ≤ n) :
    ((c.advance k).advance (n - k)).link = (c.advance n).link := by
  have hmadr : c.madr + BitVec.ofNat 32 (16 * k) + BitVec.ofNat 32 (16 * (n - k)) =
      c.madr + BitVec.ofNat 32 (16 * n) := by
    rw [BitVec.add_assoc, ← BitVec.ofNat_add, ← Nat.mul_add, Nat.add_sub_cancel' hk]
  by_cases htag : c.tag = .cnt
  · simp only [advance, hwDmacSrcTadrInc, htag, if_true, link, hmadr]
  · simp only [advance, hwDmacSrcTadrInc, htag, if_false, link]

theorem advance_madr (k : Nat) : (c.advance k).madr = c.madr + .ofNat 32 (16 * k) := by
  rw [advance, hwDmacSrcTadrInc]
  split_ifs <;> rfl

theorem advance_qwc (k : Nat) : (c.advance k).qwc = c.qwc - k := by
  rw [advance, hwDmacSrcTadrInc]
  split_ifs <;> rfl

theorem advance_tag (k : Nat) : (c.advance k).tag = c.tag := by
  rw [advance, hwDmacSrcTadrInc]
  split_ifs <;> rfl

theorem quads_advance {k n : Nat} (hk : k ≤ n) :
    c.quads k ++ (c.advance k).quads (n - k) = c.quads n := by
  have hsplit : n = k + (n - k) := by omega
  rw [quads, quads, quads, hsplit, Nat.add_sub_cancel_left, List.range_add, List.map_append,
    List.map_map]
  congr 1
  refine List.map_congr_left fun i _ => ?_
  rw [advance_madr, Function.comp_apply, BitVec.add_assoc, ← BitVec.ofNat_add, ← Nat.mul_add]

theorem settle_advance {k : Nat} (hk : k ≤ c.qwc) :
    ((c.advance k).settle (decide (0 < (c.advance k).qwc))).link = (c.settle true).link := by
  rw [settle, settle, if_pos rfl, advance_qwc]
  by_cases hlt : 0 < c.qwc - k
  · rw [if_pos (by simpa using hlt), advance_advance c hk]
  · have heq : k = c.qwc := by omega
    rw [if_neg (by simpa using hlt), heq]

theorem rest_advance {k : Nat} (hk : k ≤ c.qwc) :
    c.quads k ++ (c.advance k).rest (decide (0 < (c.advance k).qwc)) = c.rest true := by
  rw [rest, rest, if_pos rfl, advance_qwc, ← quads_advance c hk]
  by_cases hlt : 0 < c.qwc - k
  · rw [if_pos (by simpa using hlt)]
  · have hzero : c.qwc - k = 0 := by omega
    rw [if_neg (by simpa using hlt), hzero]
    rfl

end DMACh

/-! ## Tags -/

theorem DMACh.chain_tag (c : DMACh) (id : TagId) : (c.hwDmacSrcChainWithStack id).1.tag = c.tag := by
  cases id with
  | call =>
    rw [hwDmacSrcChainWithStack]
    dsimp only
    split_ifs <;> rfl
  | ret =>
    rw [hwDmacSrcChainWithStack]
    dsimp only
    split_ifs <;> rfl
  | _ => rfl

theorem DMACh.packet_eq (c : DMACh) (mem : U32 → Tag) : c.link.packet mem =
    (c.transfer (mem c.tadr)).hwDmacSrcChainWithStack (mem c.tadr).id :=
  rfl

theorem DMACh.packet_refs (c : DMACh) {mem : U32 → Tag} (hrefs : (mem c.tadr).id = .refs) :
    c.link.packet mem =
      ({ c.transfer (mem c.tadr) with tadr := c.tadr + 16 }, false) := by
  rw [packet_eq, hrefs]
  rfl

/-! ## What the parts of both channels keep -/

/-- The packet in flight lies below `STADR` too. -/
structure Keeps (mem : U32 → Tag) (tie : Bool) (start : Link) (c : DMACh) (flight done : Bool)
    (stadr : U32) (h : History) : Prop extends Controlled mem tie start c flight done h where
  below : flight = true → c.tag = .refs → c.madr.toNat + 16 * c.qwc ≤ stadr.toNat

namespace Keeps

variable {mem : U32 → Tag} {tie : Bool} {start : Link} {c c' : DMACh} {flight done : Bool}
  {stadr : U32} {h : History}

theorem source (hkeeps : Keeps mem tie start c flight done stadr h) {value : U32}
    (hvalue : flight = true → c.tag = .refs → c.madr.toNat + 16 * c.qwc ≤ value.toNat) :
    Keeps mem tie start c flight done value h :=
  ⟨hkeeps.toControlled, hvalue⟩

theorem send (hkeeps : Keeps mem tie start c true done stadr h) {k : Nat} (hk : k ≤ c.qwc) :
    Keeps mem tie start (c.advance k) (decide (0 < (c.advance k).qwc)) done stadr
      (h.send c k stadr) := by
  obtain ⟨n, hlink, hended, hsent⟩ := hkeeps.order
  have hstadr := stadr.isLt
  refine ⟨⟨⟨n, ?_, hended, ?_⟩, fun q hq hrefs => ?_, hkeeps.taken, hkeeps.stalls⟩,
    fun _ hrefs => ?_⟩
  · rw [DMACh.settle_advance c hk, hlink]
  · have haddr : (h.send c k stadr).sent.map Sent.addr = h.sent.map Sent.addr ++ c.quads k := by
      simp [History.send, Function.comp_def]
    rw [haddr, List.append_assoc, DMACh.rest_advance c hk, hsent]
  · rw [History.send, List.mem_append, List.mem_map] at hq
    obtain hq | ⟨addr, haddr, rfl⟩ := hq
    · exact hkeeps.sent q hq hrefs
    · obtain ⟨i, hi, rfl⟩ := List.mem_map.mp haddr
      have hlt := List.mem_range.mp hi
      have hbelow := hkeeps.below rfl (of_decide_eq_true hrefs)
      dsimp only
      rw [BitVec.toNat_add, BitVec.toNat_ofNat, Nat.add_mod_mod, Nat.mod_eq_of_lt (by omega)]
      omega
  · rw [DMACh.advance_tag] at hrefs
    have hbelow := hkeeps.below rfl hrefs
    rw [DMACh.advance_madr, DMACh.advance_qwc, BitVec.toNat_add, BitVec.toNat_ofNat,
      Nat.add_mod_mod, Nat.mod_eq_of_lt (by omega)]
    omega

theorem stall (c' : DMACh) (hkeeps : Keeps mem tie start c false done stadr h)
    (hlink : c'.link = c.link)
    (hend : stadr.toNat < (mem c.tadr).endNat) :
    Keeps mem tie start c' false done stadr (h.stall c.tadr stadr) := by
  obtain ⟨n, hwalk, hended, hsent⟩ := hkeeps.order
  refine ⟨⟨⟨n, hlink.trans hwalk, hended, hsent⟩, hkeeps.sent, hkeeps.taken, fun x hx => ?_⟩,
    fun hflight => by cases hflight⟩
  obtain hx | hx := List.mem_append.mp hx
  · exact hkeeps.stalls x hx
  · rw [List.mem_singleton.mp hx]
    exact hend

theorem take (hkeeps : Keeps mem tie start c false false stadr h)
    (hfits : (mem c.tadr).id = .refs → (mem c.tadr).endNat ≤ stadr.toNat) :
    Keeps mem tie start (c.link.packet mem).1 (decide (0 < (c.link.packet mem).1.qwc))
      ((c.link.packet mem).2 || (tie && (mem c.tadr).irq)) stadr
      (h.take (mem c.tadr) c.tadr stadr) := by
  obtain ⟨n, hwalk, hended, hsent⟩ := hkeeps.order
  have hlink : (walk mem tie start n).link = c.link := hwalk.symm
  have hnext : walk mem tie start (n + 1) =
      ⟨((c.link.packet mem).1.settle (decide (0 < (c.link.packet mem).1.qwc))).link,
        (c.link.packet mem).2 || (tie && (mem c.tadr).irq),
        (walk mem tie start n).packets ++
          (c.link.packet mem).1.quads (c.link.packet mem).1.qwc⟩ := by
    rw [walk]
    dsimp only
    rw [← hended, if_neg Bool.false_ne_true, hlink]
    rfl
  have hhistory : (h.take (mem c.tadr) c.tadr stadr).sent = h.sent := by
    rw [History.take]
    split_ifs <;> rfl
  have hstalls : (h.take (mem c.tadr) c.tadr stadr).stalls = h.stalls := by
    rw [History.take]
    split_ifs <;> rfl
  refine ⟨⟨⟨n + 1, ?_, ?_, ?_⟩, ?_, fun x hx => ?_, ?_⟩, fun _ hrefs => ?_⟩
  · rw [hnext]
  · rw [hnext]
  · have hrest : c.rest false = [] := rfl
    rw [hnext, ← hsent, hhistory, hrest, List.append_nil]
    congr 1
    rw [DMACh.rest]
    split_ifs with hqwc
    · rfl
    · have hzero : (c.link.packet mem).1.qwc = 0 := by simpa using hqwc
      rw [hzero]
      rfl
  · rw [hhistory]
    exact hkeeps.sent
  · rw [History.take] at hx
    split_ifs at hx with hrefs
    · obtain hx | hx := List.mem_append.mp hx
      · exact hkeeps.taken x hx
      · rw [List.mem_singleton.mp hx]
        exact hfits hrefs
    · exact hkeeps.taken x hx
  · rw [hstalls]
    exact hkeeps.stalls
  · rw [DMACh.packet_eq, DMACh.chain_tag] at hrefs
    have hid : (mem c.tadr).id = .refs := hrefs
    rw [DMACh.packet_refs c hid]
    exact hfits hid

theorem reread (c' : DMACh) (hkeeps : Keeps mem tie start c false done stadr h)
    (hlink : c'.link = c.link) :
    Keeps mem tie start c' false done stadr h := by
  obtain ⟨n, hwalk, hended, hsent⟩ := hkeeps.order
  exact ⟨⟨⟨n, hlink.trans hwalk, hended, hsent⟩, hkeeps.sent, hkeeps.taken, hkeeps.stalls⟩,
    fun hflight => by cases hflight⟩

theorem fresh (mem : U32 → Tag) (tie : Bool) (c : DMACh) (stadr : U32) :
    Keeps mem tie c.link c false false stadr .empty where
  order := ⟨0, rfl, rfl, rfl⟩
  sent q hq := by cases hq
  taken x hx := by cases hx
  stalls x hx := by cases hx
  below hflight := by cases hflight

end Keeps

/-- The packets of `REFS` tags do not go around the address space. -/
def Fits (mem : U32 → Tag) : Prop := ∀ a, (mem a).id = .refs → (mem a).endNat < 2 ^ 32

theorem Fits.packetEnd {mem : U32 → Tag} (h : Fits mem) {c : DMACh}
    (hrefs : (mem c.tadr).id = .refs) :
    (c.transfer (mem c.tadr)).packetEnd.toNat = (mem c.tadr).endNat := by
  have hlt := h c.tadr hrefs
  rw [Tag.endNat] at hlt ⊢
  rw [DMACh.packetEnd, DMACh.size, BitVec.toNat_add, BitVec.toNat_ofNat, Nat.add_mod_mod]
  exact Nat.mod_eq_of_lt hlt

section Channels

variable {mem : U32 → Tag} {tie : Bool} {start : Link}

/-! ## GIF -/

namespace GifDma

variable {s t : GifDma}

/-- While the channel waits at a `REFS` tag, `madr` is what has been read of it. -/
structure Inv (mem : U32 → Tag) (tie : Bool) (start : Link) (s : GifDma) : Prop extends
    Keeps mem tie start s.ch (decide (0 < s.ch.qwc)) s.gspath3done s.stadr s.history where
  stalled : s.prevcycles ≠ 0 → s.ch.qwc = 0 ∧ s.gspath3done = false ∧
    (mem s.ch.tadr).id = .refs ∧ s.ch.madr = (mem s.ch.tadr).addr

/-- `STADR` is not set below the end of a `REFS` packet that is in flight. -/
def Steady (s : GifDma) : StallEvent → Prop
  | .source value => 0 < s.ch.qwc → s.ch.tag = .refs →
    s.ch.madr.toNat + 16 * s.ch.qwc ≤ (stadrAddr value).toNat
  | .activate .. => True

instance (s : GifDma) : (ev : StallEvent) → Decidable (s.Steady ev)
  | .source _ => inferInstanceAs (Decidable (_ → _ → _))
  | .activate .. => isTrue trivial

/-- A `REFS` tag is taken at the next activation, once its packet lies below `STADR`. -/
def Resumes (mem : U32 → Tag) (tie : Bool) (s : GifDma) : Prop :=
  s.ch.qwc = 0 → s.gspath3done = false → (mem s.ch.tadr).id = .refs →
    (mem s.ch.tadr).endNat ≤ s.stadr.toNat → ∀ n depth tte t,
      s.step mem tie (.activate n depth tte) = some t → (s.ch.tadr, s.stadr) ∈ t.history.taken

theorem Inv.idle (h : Inv mem tie start s) (hqwc : s.ch.qwc = 0) :
    Keeps mem tie start s.ch false s.gspath3done s.stadr s.history := by
  have hkeeps := h.toKeeps
  rw [hqwc] at hkeeps
  exact hkeeps

theorem Inv.reset (h : Inv mem tie start s) : Inv mem tie start { s with prevcycles := 0 } :=
  ⟨h.toKeeps, fun hne => absurd rfl hne⟩

theorem Inv.packetEnd (h : Inv mem tie start s) (hprev : s.prevcycles ≠ 0) :
    s.ch.packetEnd = (mem s.ch.tadr).addr := by
  obtain ⟨hqwc, -, -, hmadr⟩ := h.stalled hprev
  rw [DMACh.packetEnd, DMACh.size, hqwc, hmadr]
  exact BitVec.add_zero _

theorem Inv.ready (h : Inv mem tie start s) :
    (if s.prevcycles ≠ 0 then { s with prevcycles := 0, ch := { s.ch with qwc := 0 } } else s) =
      { s with prevcycles := 0 } := by
  by_cases hprev : s.prevcycles ≠ 0
  · have hsame : ({ s.ch with qwc := 0 } : DMACh) = s.ch := by rw [← (h.stalled hprev).1]
    rw [if_pos hprev, hsame]
  · rw [if_neg hprev, ← not_not.mp hprev]

theorem Inv.readTag (h : Inv mem tie start s) (hmem : Fits mem) :
    Inv mem tie start (s.readTag mem tie).1 := by
  rw [GifDma.readTag]
  dsimp only
  by_cases hwait : s.prevcycles ≠ 0 ∧ s.stadr < s.ch.packetEnd
  · rw [if_pos hwait]
    have hqwc := (h.stalled hwait.1).1
    have hend : s.stadr.toNat < (mem s.ch.tadr).endNat := by
      have hlt := BitVec.lt_def.mp hwait.2
      rw [h.packetEnd hwait.1] at hlt
      exact Nat.lt_add_right _ hlt
    have hstall := (h.idle hqwc).stall s.ch rfl hend
    refine ⟨?_, h.stalled⟩
    dsimp only
    rw [hqwc]
    exact hstall
  · rw [if_neg hwait, h.ready]
    have hinv := h.reset
    generalize hu : ({ s with prevcycles := 0 } : GifDma) = u at hinv ⊢
    have hprev : u.prevcycles = 0 := by rw [← hu]
    by_cases hnext : u.gspath3done = false ∧ u.ch.qwc = 0
    · rw [if_pos hnext]
      have hidle := hinv.idle hnext.2
      rw [hnext.1] at hidle
      rw [← DMACh.packet_eq]
      by_cases hrefs : (mem u.ch.tadr).id = .refs
      · have hend := hmem.packetEnd hrefs
        have htake := hidle.take
        rw [DMACh.packet_refs _ hrefs] at htake ⊢
        have hpacket : ({ u.ch.transfer (mem u.ch.tadr) with tadr := u.ch.tadr + 16 } :
            DMACh).packetEnd.toNat = (mem u.ch.tadr).endNat := hend
        dsimp only
        by_cases hstall : (mem u.ch.tadr).id = .refs ∧ u.stadr <
            ({ u.ch.transfer (mem u.ch.tadr) with tadr := u.ch.tadr + 16 } : DMACh).packetEnd
        · rw [if_pos hstall]
          have htadr : u.ch.tadr + 16 - 16 = u.ch.tadr := BitVec.add_sub_cancel _ _
          have hlt := BitVec.lt_def.mp hstall.2
          rw [hpacket] at hlt
          have hstalled := hidle.stall { u.ch.transfer (mem u.ch.tadr) with
            tadr := u.ch.tadr + 16 - 16, qwc := 0 } (by rw [htadr]; rfl) hlt
          refine ⟨hstalled, fun _ => ⟨rfl, rfl, ?_, ?_⟩⟩
          · dsimp only
            rw [htadr]
            exact hrefs
          · dsimp only
            rw [htadr]
            rfl
        · rw [if_neg hstall]
          refine ⟨htake fun _ => ?_, fun hne => absurd hprev hne⟩
          have hle := fun hlt => hstall ⟨hrefs, BitVec.lt_def.mpr hlt⟩
          rw [hpacket] at hle
          exact Nat.le_of_not_lt hle
      · have htake := hidle.take fun hid => absurd hid hrefs
        rcases hp : u.ch.link.packet mem with ⟨ch, done⟩
        rw [hp] at htake
        dsimp only
        rw [if_neg fun hstall => hrefs hstall.1]
        exact ⟨htake, fun hne => absurd hprev hne⟩
    · rw [if_neg hnext]
      exact hinv

theorem Inv.chain (h : Inv mem tie start s) (hqwc : 0 < s.ch.qwc) (n : Nat) :
    Inv mem tie start (s.chain n) := by
  have hkeeps := h.toKeeps
  rw [decide_eq_true hqwc] at hkeeps
  refine ⟨hkeeps.send (Nat.min_le_right n _), fun hne => ?_⟩
  exact absurd (h.stalled hne).1 hqwc.ne'

theorem Inv.gifDma (hmem : Fits mem) {n depth : Nat} (h : Inv mem tie start s)
    (ht : gifDma mem tie n depth s = some t) : Inv mem tie start t := by
  induction depth generalizing s t with
  | zero => cases ht
  | succ depth ih =>
    have hread := h.readTag hmem
    rw [GifDma.gifDma] at ht
    rcases hu : s.readTag mem tie with ⟨u, go⟩
    rw [hu] at ht hread
    cases go with
    | false =>
      cases ht
      exact hread
    | true =>
      dsimp only at ht
      split_ifs at ht with hqwc hdone
      · cases ht
        exact hread.chain hqwc n
      · obtain ⟨v, hv, rfl⟩ := Option.map_eq_some_iff.mp ht
        exact (ih hread hv).reset
      · cases ht
        exact hread.reset

theorem Inv.step (hmem : Fits mem) {ev : StallEvent} (h : Inv mem tie start s)
    (hsteady : s.Steady ev) (hstep : s.step mem tie ev = some t) : Inv mem tie start t := by
  cases ev with
  | source value =>
    cases hstep
    refine ⟨h.toKeeps.source fun hflight htag => ?_, h.stalled⟩
    exact hsteady (of_decide_eq_true hflight) htag
  | activate n depth tte =>
    rw [GifDma.step] at hstep
    split_ifs at hstep
    · exact h.gifDma hmem hstep
    · cases hstep
      exact h

theorem taken_readTag {x : U32 × U32} (hx : x ∈ s.history.taken) :
    x ∈ (s.readTag mem tie).1.history.taken := by
  have htake (ptag : Tag) (tadr stadr : U32) : x ∈ (s.history.take ptag tadr stadr).taken := by
    rw [History.take]
    split_ifs
    · exact List.mem_append_left _ hx
    · exact hx
  rw [GifDma.readTag]
  dsimp only
  split_ifs
  · exact hx
  · exact hx
  · exact htake ..
  · exact hx
  · exact hx
  · exact htake ..
  · exact hx

theorem taken_gifDma {x : U32 × U32} {n depth : Nat} (hx : x ∈ (s.readTag mem tie).1.history.taken)
    (ht : gifDma mem tie n depth s = some t) : x ∈ t.history.taken := by
  induction depth generalizing s t with
  | zero => cases ht
  | succ depth ih =>
    rw [GifDma.gifDma] at ht
    rcases hu : s.readTag mem tie with ⟨u, go⟩
    rw [hu] at ht hx
    cases go with
    | false =>
      cases ht
      exact hx
    | true =>
      dsimp only at ht
      split_ifs at ht
      · cases ht
        exact hx
      · obtain ⟨v, hv, rfl⟩ := Option.map_eq_some_iff.mp ht
        exact (ih (t := v) (taken_readTag hx) hv : x ∈ v.history.taken)
      · cases ht
        exact hx

theorem Inv.resumes (hmem : Fits mem) (h : Inv mem tie start s) : s.Resumes mem tie := by
  intro hqwc hdone hrefs hend n depth tte t hstep
  rw [GifDma.step, if_pos (.inr hdone)] at hstep
  refine taken_gifDma ?_ hstep
  have hwait : ¬ (s.prevcycles ≠ 0 ∧ s.stadr < s.ch.packetEnd) := by
    rintro ⟨hprev, hlt⟩
    rw [h.packetEnd hprev, BitVec.lt_def] at hlt
    rw [Tag.endNat] at hend
    omega
  have hstall : ¬ ((mem s.ch.tadr).id = .refs ∧ s.stadr <
      ({ s.ch.transfer (mem s.ch.tadr) with tadr := s.ch.tadr + 16 } : DMACh).packetEnd) := by
    rintro ⟨-, hlt⟩
    have hlt' : s.stadr.toNat < (s.ch.transfer (mem s.ch.tadr)).packetEnd.toNat := BitVec.lt_def.mp hlt
    rw [hmem.packetEnd hrefs] at hlt'
    omega
  rw [GifDma.readTag]
  dsimp only
  rw [if_neg hwait, h.ready]
  dsimp only
  rw [if_pos ⟨hdone, hqwc⟩, ← DMACh.packet_eq, DMACh.packet_refs _ hrefs]
  dsimp only
  rw [if_neg hstall]
  dsimp only
  rw [History.take, if_pos hrefs]
  exact List.mem_append_right _ (List.mem_singleton_self _)

/-- A channel that is started on a chain. -/
def started (ch : DMACh) (stadr : U32) : GifDma :=
  ⟨{ ch with qwc := 0 }, false, 0, stadr, .empty⟩

theorem inv_started (ch : DMACh) (stadr : U32) : Inv mem tie ch.link (started ch stadr) :=
  ⟨Keeps.fresh mem tie { ch with qwc := 0 } stadr, fun hne => absurd rfl hne⟩

end GifDma

/-! ## VIF1 -/

namespace Vif1Dma

variable {s t : Vif1Dma}

structure Inv (mem : U32 → Tag) (tie : Bool) (start : Link) (s : Vif1Dma) : Prop extends
    Keeps mem tie start s.ch s.inprogress s.done s.stadr s.history where
  pos : s.inprogress = true → 0 < s.ch.qwc

/-- `STADR` is not set below the end of a `REFS` packet that is in flight, and is not the end of
one that the channel comes to. -/
def Steady (mem : U32 → Tag) (s : Vif1Dma) : StallEvent → Prop
  | .source value => s.inprogress = true → s.ch.tag = .refs →
    s.ch.madr.toNat + 16 * s.ch.qwc ≤ (stadrAddr value).toNat
  | .activate .. => s.inprogress = false → s.done = false → (mem s.ch.tadr).id = .refs →
    (mem s.ch.tadr).endNat ≠ s.stadr.toNat

instance (mem : U32 → Tag) (s : Vif1Dma) : (ev : StallEvent) → Decidable (s.Steady mem ev)
  | .source _ => inferInstanceAs (Decidable (_ → _ → _))
  | .activate .. => inferInstanceAs (Decidable (_ → _ → _ → _))

/-- A `REFS` tag is taken at the next activation that can transfer the tag, once its packet lies
below `STADR`. -/
def Resumes (mem : U32 → Tag) (tie : Bool) (s : Vif1Dma) : Prop :=
  s.inprogress = false → s.done = false → (mem s.ch.tadr).id = .refs →
    (mem s.ch.tadr).endNat ≤ s.stadr.toNat → ∀ n depth t, s.Steady mem (.activate n depth true) →
      s.step mem tie (.activate n depth true) = some t → (s.ch.tadr, s.stadr) ∈ t.history.taken

theorem Inv.vif1Chain (h : Inv mem tie start s) (hflight : s.inprogress = true) (n : Nat) :
    Inv mem tie start (s.vif1Chain n) := by
  have hpos := h.pos hflight
  have hkeeps := h.toKeeps
  rw [hflight] at hkeeps
  have hsend := hkeeps.send (Nat.min_le_right n s.ch.qwc)
  rw [Vif1Dma.vif1Chain, if_neg hpos.ne']
  have hsame : decide (0 < (s.ch.advance (min n s.ch.qwc)).qwc) =
      decide ((s.ch.advance (min n s.ch.qwc)).qwc ≠ 0) :=
    decide_eq_decide.mpr Nat.pos_iff_ne_zero
  rw [hsame] at hsend
  exact ⟨hsend, fun hne => Nat.pos_of_ne_zero (of_decide_eq_true hne)⟩

theorem Inv.vif1SetupTransfer (hmem : Fits mem) (h : Inv mem tie start s)
    (hflight : s.inprogress = false) (hdone : s.done = false)
    (hne : (mem s.ch.tadr).id = .refs → (mem s.ch.tadr).endNat ≠ s.stadr.toNat) (tte : Bool) :
    Inv mem tie start (s.vif1SetupTransfer mem tie tte) := by
  have hkeeps := h.toKeeps
  rw [hflight, hdone] at hkeeps
  rw [Vif1Dma.vif1SetupTransfer]
  dsimp only
  by_cases hstall : s.done = false ∧ (mem s.ch.tadr).id = .refs ∧
      s.stadr ≤ (s.ch.transfer (mem s.ch.tadr)).packetEnd
  · rw [if_pos hstall]
    have hle := BitVec.le_def.mp hstall.2.2
    rw [hmem.packetEnd hstall.2.1] at hle
    have hlt : s.stadr.toNat < (mem s.ch.tadr).endNat :=
      lt_of_le_of_ne hle (hne hstall.2.1).symm
    have hstalled := hkeeps.stall (s.ch.transfer (mem s.ch.tadr)) rfl hlt
    refine ⟨?_, fun hfalse => by cases hfalse⟩
    dsimp only
    rw [hdone]
    exact hstalled
  · rw [if_neg hstall]
    cases tte with
    | false =>
      rw [if_pos rfl]
      have hread := hkeeps.reread (s.ch.transfer (mem s.ch.tadr)) rfl
      refine ⟨?_, fun hfalse => by cases hfalse⟩
      dsimp only
      rw [hdone]
      exact hread
    | true =>
      rw [if_neg (by decide)]
      have htake := hkeeps.take fun hrefs => by
        have hnot := fun hle => hstall ⟨hdone, hrefs, BitVec.le_def.mpr hle⟩
        rw [hmem.packetEnd hrefs] at hnot
        exact (Nat.lt_of_not_le hnot).le
      rw [← DMACh.packet_eq]
      rcases hp : s.ch.link.packet mem with ⟨ch, done⟩
      rw [hp] at htake
      dsimp only
      rw [hdone, Bool.false_or]
      exact ⟨htake, fun hpos => of_decide_eq_true hpos⟩

theorem Inv.step (hmem : Fits mem) {ev : StallEvent} (h : Inv mem tie start s)
    (hsteady : s.Steady mem ev) (hstep : s.step mem tie ev = some t) : Inv mem tie start t := by
  cases ev with
  | source value =>
    cases hstep
    exact ⟨h.toKeeps.source hsteady, h.pos⟩
  | activate n depth tte =>
    cases hstep
    cases hflight : s.inprogress with
    | true =>
      rw [if_pos rfl]
      exact h.vif1Chain hflight n
    | false =>
      rw [if_neg Bool.false_ne_true]
      by_cases hdone : s.done = false
      · rw [if_pos hdone]
        exact h.vif1SetupTransfer hmem hflight hdone (hsteady hflight hdone) tte
      · rw [if_neg hdone]
        exact h

theorem resumes (hmem : Fits mem) (s : Vif1Dma) : s.Resumes mem tie := by
  intro hflight hdone hrefs hend n depth t hsteady hstep
  have hlt := lt_of_le_of_ne hend (hsteady hflight hdone hrefs)
  have hstall : ¬ (s.done = false ∧ (mem s.ch.tadr).id = .refs ∧
      s.stadr ≤ (s.ch.transfer (mem s.ch.tadr)).packetEnd) := by
    rintro ⟨-, -, hle⟩
    rw [BitVec.le_def, hmem.packetEnd hrefs] at hle
    omega
  cases hstep
  rw [hflight, if_neg Bool.false_ne_true, if_pos hdone, Vif1Dma.vif1SetupTransfer]
  dsimp only
  rw [if_neg hstall, if_neg (by decide), ← DMACh.packet_eq, DMACh.packet_refs _ hrefs]
  dsimp only
  rw [History.take, if_pos hrefs]
  exact List.mem_append_right _ (List.mem_singleton_self _)

def started (ch : DMACh) (stadr : U32) : Vif1Dma :=
  ⟨{ ch with qwc := 0 }, false, false, stadr, .empty⟩

theorem inv_started (ch : DMACh) (stadr : U32) : Inv mem tie ch.link (started ch stadr) :=
  ⟨Keeps.fresh mem tie { ch with qwc := 0 } stadr, fun hpos => by cases hpos⟩

end Vif1Dma

/-- In every run in which `STADR` does not fall below a packet in flight, and is never the end of a
packet that VIF1 comes to, both channels obey stall control and take the same packets. -/
theorem stall_controlled (hmem : Fits mem) {ch ch' : DMACh} {stadr stadr' : U32}
    {evs evs' : List StallEvent} {g : GifDma} {v : Vif1Dma}
    (hg : Meets (GifDma.step mem tie) GifDma.Steady (.started ch stadr) evs)
    (hgrun : run (GifDma.step mem tie) (.started ch stadr) evs = some g)
    (hv : Meets (Vif1Dma.step mem tie) (Vif1Dma.Steady mem) (.started ch' stadr') evs')
    (hvrun : run (Vif1Dma.step mem tie) (.started ch' stadr') evs' = some v) :
    Controlled mem tie ch.link g.ch (decide (0 < g.ch.qwc)) g.gspath3done g.history ∧
      Controlled mem tie ch'.link v.ch v.inprogress v.done v.history ∧
      g.Resumes mem tie ∧ v.Resumes mem tie ∧
      ∀ x, (x ∈ g.history.taken → x ∉ v.history.stalls) ∧
        (x ∈ v.history.taken → x ∉ g.history.stalls) := by
  have hgif : GifDma.Inv mem tie ch.link g :=
    invariant (fun _ _ _ h hsteady hstep => h.step hmem hsteady hstep) hg hgrun
      (GifDma.inv_started ch stadr)
  have hvif : Vif1Dma.Inv mem tie ch'.link v :=
    invariant (fun _ _ _ h hsteady hstep => h.step hmem hsteady hstep) hv hvrun
      (Vif1Dma.inv_started ch' stadr')
  refine ⟨hgif.toControlled, hvif.toControlled, hgif.resumes hmem, Vif1Dma.resumes hmem v,
    fun x => ⟨fun htaken hstall => ?_, fun htaken hstall => ?_⟩⟩
  · have hle := hgif.taken x htaken
    have hlt := hvif.stalls x hstall
    omega
  · have hle := hvif.taken x htaken
    have hlt := hgif.stalls x hstall
    omega

end Channels

/-- A `REFS` tag at `0x1000` for one quadword, and the end of the chain behind it. -/
def oneQuad (a : U32) : Tag :=
  if a = 0x1000 then ⟨1, .refs, false, 0x2000⟩ else ⟨0, .end_, false, 0⟩

theorem fits_oneQuad : Fits oneQuad := by
  intro a hrefs
  rw [oneQuad] at hrefs ⊢
  split_ifs at hrefs ⊢
  decide

theorem stall_controlled_oneQuad : ∃ g v,
    run (GifDma.step oneQuad false) (.started ⟨0, 0, 0x1000, 0, 0, 0, .refe⟩ 0x2000)
      [.activate 1 1 true, .source 0x2010, .activate 1 1 true] = some g ∧
    run (Vif1Dma.step oneQuad false) (.started ⟨0, 0, 0x1000, 0, 0, 0, .refe⟩ 0x2000)
      [.activate 1 1 true, .source 0x2020, .activate 1 1 true, .activate 1 1 true] = some v ∧
    g.history.sent.map Sent.addr = [0x2000] ∧ v.history.sent.map Sent.addr = [0x2000] ∧
    Controlled oneQuad false ⟨0x1000, 0, 0, 0⟩ g.ch (decide (0 < g.ch.qwc)) g.gspath3done g.history ∧
    Controlled oneQuad false ⟨0x1000, 0, 0, 0⟩ v.ch v.inprogress v.done v.history := by
  have hgif : Meets (GifDma.step oneQuad false) GifDma.Steady
      (.started ⟨0, 0, 0x1000, 0, 0, 0, .refe⟩ 0x2000)
      [.activate 1 1 true, .source 0x2010, .activate 1 1 true] := by decide +kernel
  have hvif : Meets (Vif1Dma.step oneQuad false) (Vif1Dma.Steady oneQuad)
      (.started ⟨0, 0, 0x1000, 0, 0, 0, .refe⟩ 0x2000)
      [.activate 1 1 true, .source 0x2020, .activate 1 1 true, .activate 1 1 true] := by
    decide +kernel
  have hcontrolled := stall_controlled fits_oneQuad hgif rfl hvif rfl
  exact ⟨_, _, rfl, rfl, by decide +kernel, by decide +kernel, hcontrolled.1, hcontrolled.2.1⟩

/-- A packet that ends at `STADR` is taken by GIF, and VIF1 stalls. -/
theorem not_same_packets : ∃ g v,
    run (GifDma.step oneQuad false) (.started ⟨0, 0, 0x1000, 0, 0, 0, .refe⟩ 0x2010)
      [.activate 1 1 true] = some g ∧
    run (Vif1Dma.step oneQuad false) (.started ⟨0, 0, 0x1000, 0, 0, 0, .refe⟩ 0x2010)
      [.activate 1 1 true] = some v ∧
    g.history.taken = [(0x1000, 0x2010)] ∧ v.history.stalls = [(0x1000, 0x2010)] ∧
    (oneQuad 0x1000).endNat = 0x2010 :=
  ⟨_, _, rfl, rfl, rfl, rfl, rfl⟩

end OmegaRed.Dmac
