import OmegaRed.Gif.Cutting
import OmegaRed.Gif.Arbiter

/-! `XGKICK`: a packet is measured in the memory of VU1, copied to path 1 and executed. -/

namespace OmegaRed.Gif

open Lib.Memory

/-- The loop of `GetGSPacketSize` for path 1; no value where it has not ended in as many rounds as
are given. -/
def sizeLoop (mem : Nat → UInt8) (size : Nat) : Nat → Nat → Nat → Option Nat
  | 0, _, _ => none
  | rounds + 1, offset, curSize =>
    let gifTag := GifTag.reset.setTag mem (offset % 0x4000)
    let offset := offset + (16 + gifTag.len)
    let curSize := curSize + (16 + gifTag.len)
    if curSize ≥ 0x4000 then some 0
    else if curSize ≥ size then some size
    else if gifTag.tag.eop then some curSize
    else sizeLoop mem size rounds offset curSize

/-- `GetGSPacketSize` with its default for `size`, in the rounds that 0x4000 bytes have room
for. -/
def getGSPacketSize (mem : Nat → UInt8) (offset : Nat) : Option Nat :=
  sizeLoop mem 0xffffffff (0x4000 / 16) offset 0

/-- The address that `_vuXGKICK` takes from a register. -/
def kickAddr (vi : UInt16) : Nat := (vi &&& 0x3ff).toNat * 16

/-- What `_vuXGKICK` copies. -/
def kickChunks (mem : Nat → UInt8) (addr size : Nat) : List (List UInt8) :=
  let diff := 0x4000 - addr
  if size > diff then [load mem addr diff, load mem 0 (size - diff)] else [load mem addr size]

/-- The bytes from `addr` on, round the end of the memory. -/
def wrapped (mem : Nat → UInt8) (addr n : Nat) : List UInt8 :=
  (List.range n).map fun i => mem ((addr + i) % 0x4000)

namespace GifPath

/-- `CopyGSPacketData` when its waits are over; none where the data fails the overflow
assertion. -/
def copyGSPacketData (p : GifPath) (data : List UInt8) : Option GifPath :=
  let p := if p.curSize + data.length > buffSize then p.realignPacket else p
  if p.curSize + data.length ≤ buffSize then some (p.append data) else none

/-- Between two packets, with all data used up. -/
structure Idle (p : GifPath) : Prop where
  used : p.curOffset = p.curSize
  packet : p.gsPack = ⟨p.curOffset, 0⟩
  tag : p.gifTag.isValid = false
  inBuffer : p.curSize ≤ buffSize

end GifPath

section

variable {σ : Type} (handlerAD : List UInt8 → σ → Bool × σ) (stat : Stat)

/-- A round of `ExecuteGSPacket`, with `RealignPacket` where it is called. -/
def executeRound (p : GifPath) (g : σ) : Exec σ :=
  match executeGSPacket handlerAD stat p g with
  | .realign p g => loadTag handlerAD stat p.realignPacket g
  | e => e

/-- `ExecuteGSPacket`: the packet when it has found `done`, the path and the registers; no value
where it has not ended in as many rounds as are given. -/
def executePacket : Nat → GifPath → σ → Option (Option GSPacket × GifPath × σ)
  | 0, _, _ => none
  | rounds + 1, p, g =>
    match executeRound handlerAD stat p g with
    | .again p g | .realign p g => executePacket rounds p g
    | .exit p g => some (none, p, g)
    | .done p g pack => some (some pack, p, g)

end

end OmegaRed.Gif

/-! The two parsers of `XGKICK` agree: what is measured is what is executed. -/

namespace OmegaRed.Gif

open Lib.Memory

variable {S : List UInt8} {pos n addr : Nat} {mem : Nat → UInt8}

/-! ## Measuring -/

/-- From `pos` on, the stream is whole primitives up to the first end of a packet, which is its
own. -/
inductive Chain (S : List UInt8) : Nat → Prop
  | last (pos : Nat) : (tagAt S pos).tag.eop = true → pos + 16 + (tagAt S pos).len = S.length →
      Chain S pos
  | next (pos : Nat) : (tagAt S pos).tag.eop = false →
      Chain S (pos + 16 + (tagAt S pos).len) → Chain S pos

theorem Chain.bound (h : Chain S pos) : pos + 16 + (tagAt S pos).len ≤ S.length := by
  induction h with
  | last pos _ hlen => exact Nat.le_of_eq hlen
  | next pos _ _ ih => omega

@[simp] theorem length_wrapped (mem : Nat → UInt8) (addr n : Nat) :
    (wrapped mem addr n).length = n := by
  simp [wrapped]

theorem load_wrapped (mem : Nat → UInt8) (haddr : 16 ∣ addr) (hpos : 16 ∣ pos) (hn : pos + 16 ≤ n) :
    load mem ((addr + pos) % 0x4000) 16 = load (view (wrapped mem addr n)) pos 16 := by
  rw [load_ext_iff]
  intro i hi
  have hmod : (addr + pos) % 0x4000 + i = (addr + (pos + i)) % 0x4000 := by omega
  have hget : (wrapped mem addr n)[pos + i]? = some (mem ((addr + (pos + i)) % 0x4000)) := by
    simp only [wrapped, List.getElem?_map, List.getElem?_range (show pos + i < n by omega),
      Option.map_some]
  rw [hmod, view, List.getD_eq_getElem?_getD, hget, Option.getD_some]

theorem tagAt_wrapped (mem : Nat → UInt8) (haddr : 16 ∣ addr) (hpos : 16 ∣ pos) (hn : pos + 16 ≤ n) :
    (tagAt (wrapped mem addr n) pos).len =
        (GifTag.reset.setTag mem ((addr + pos) % 0x4000)).len ∧
      (tagAt (wrapped mem addr n) pos).tag.eop =
        (GifTag.reset.setTag mem ((addr + pos) % 0x4000)).tag.eop := by
  have hload := load_wrapped mem haddr hpos hn
  obtain ⟨-, hlen, -⟩ := GifTag.setTag_congr .reset .reset hload
  refine ⟨hlen.symm, ?_⟩
  rw [tagAt, GifTag.eop_setTag, GifTag.eop_setTag, HWGifTag.read_congr hload]

theorem chain_of_sizeLoop (haddr : 16 ∣ addr) {rounds : Nat} (hpos : 16 ∣ pos)
    (h : sizeLoop mem 0xffffffff rounds (addr + pos) pos = some n) (hn : 0 < n) :
    n < 0x4000 ∧ Chain (wrapped mem addr n) pos := by
  induction rounds generalizing pos with
  | zero => cases h
  | succ rounds ih =>
    rw [sizeLoop] at h
    have hlen := GifTag.len_setTag_mod .reset mem ((addr + pos) % 0x4000)
    by_cases hfull : pos + (16 + (GifTag.reset.setTag mem ((addr + pos) % 0x4000)).len) ≥ 0x4000
    · rw [if_pos hfull] at h
      cases h
      exact absurd hn (Nat.lt_irrefl 0)
    · rw [if_neg hfull, if_neg (by omega)] at h
      cases heop : (GifTag.reset.setTag mem ((addr + pos) % 0x4000)).tag.eop with
      | true =>
        rw [heop, if_pos rfl] at h
        cases h
        obtain ⟨hl, he⟩ := tagAt_wrapped mem
          (n := pos + (16 + (GifTag.reset.setTag mem ((addr + pos) % 0x4000)).len)) haddr hpos
          (by omega)
        refine ⟨by omega, .last pos (he.trans heop) ?_⟩
        rw [hl, length_wrapped]
        omega
      | false =>
        rw [heop, if_neg Bool.false_ne_true] at h
        have hnext : addr + pos + (16 + (GifTag.reset.setTag mem ((addr + pos) % 0x4000)).len) =
            addr + (pos + (16 + (GifTag.reset.setTag mem ((addr + pos) % 0x4000)).len)) := by omega
        rw [hnext] at h
        obtain ⟨hlt, hchain⟩ := ih (by omega) h
        have hbound := hchain.bound
        rw [length_wrapped] at hbound
        obtain ⟨hl, he⟩ := tagAt_wrapped mem (n := n) haddr hpos (by omega)
        refine ⟨hlt, .next pos (he.trans heop) ?_⟩
        rw [hl, Nat.add_assoc]
        exact hchain

theorem exists_sizeLoop (mem : Nat → UInt8) {rounds : Nat} (offset : Nat) (h : 0x4000 ≤ pos + 16 * rounds) (hpos : pos < 0x4000) :
    ∃ n, sizeLoop mem 0xffffffff rounds offset pos = some n := by
  induction rounds generalizing pos offset with
  | zero => omega
  | succ rounds ih =>
    rw [sizeLoop]
    split
    · exact ⟨0, rfl⟩
    · split
      · exact ⟨_, rfl⟩
      · split
        · exact ⟨_, rfl⟩
        · exact ih _ (by omega) (by omega)

/-! ## Copying -/

theorem GifPath.rest_moveToFront {p : GifPath} (h : Placed p) : p.moveToFront.rest = p.rest := by
  have hbase : p.base.toNat = p.gsPack.offset := by
    rw [h.base]
    rfl
  have hself := load_store_self p.buffer 0
    (load p.buffer p.gsPack.offset (p.curSize - p.gsPack.offset))
  rw [length_load] at hself
  simp only [GifPath.rest, GifPath.moveToFront, hbase, Nat.sub_zero]
  exact hself

theorem realignPacket_spec {p : GifPath} (h : Placed p) :
    Placed p.realignPacket ∧ p.realignPacket.rest = p.rest ∧
      p.realignPacket.gsPack = ⟨0, p.gsPack.size⟩ ∧ p.realignPacket.gifTag = p.gifTag ∧
      p.realignPacket.curSize = p.curSize - p.gsPack.offset := by
  have hbase : p.base.toNat = p.gsPack.offset := by
    rw [h.base]
    rfl
  have hcur : p.moveToFront.curSize = p.curSize - p.gsPack.offset := by
    rw [GifPath.moveToFront, hbase]
  rw [GifPath.realignPacket]
  split
  · have hf : Placed (p.fetchAdd (buffLimit - p.base)) := ⟨h.packet, h.inData⟩
    exact ⟨hf.moveToFront, GifPath.rest_moveToFront hf, rfl, rfl, hcur⟩
  · exact ⟨h.moveToFront, GifPath.rest_moveToFront h, rfl, rfl, hcur⟩

/-- A path with these bytes to parse, at the start of a packet. -/
structure Loaded (S : List UInt8) (p : GifPath) : Prop where
  placed : Placed p
  bytes : p.rest = S
  start : p.gsPack.size = 0
  tag : p.gifTag.isValid = false

theorem GifPath.Idle.loaded {p : GifPath} (h : p.Idle) : Loaded [] p := by
  have hpk := h.packet
  refine ⟨⟨?_, Nat.le_of_eq h.used⟩, ?_, ?_, h.tag⟩
  · rw [hpk, Nat.add_zero]
  · rw [GifPath.rest, hpk, ← h.used, Nat.sub_self, load_zero]
  · rw [hpk]

theorem rest_append {p : GifPath} (h : p.gsPack.offset ≤ p.curSize) (data : List UInt8) :
    (p.append data).rest = p.rest ++ data := by
  have hsize : p.curSize = p.gsPack.offset + (p.curSize - p.gsPack.offset) := by omega
  have hstore := load_store_append p.buffer p.gsPack.offset (p.curSize - p.gsPack.offset) data
  rw [← hsize] at hstore
  simp only [GifPath.rest, GifPath.append]
  rw [← hstore]
  congr 1
  omega

theorem Loaded.append {p : GifPath} (h : Loaded S p) (data : List UInt8) :
    Loaded (S ++ data) (p.append data) := by
  have hpk := h.placed.packet
  have hin := h.placed.inData
  refine ⟨⟨hpk, Nat.le_add_right_of_le hin⟩, ?_, h.start, h.tag⟩
  rw [rest_append (by omega), h.bytes]

theorem Loaded.copy {p : GifPath} (h : Loaded S p) (data : List UInt8)
    (hsize : S.length + data.length ≤ buffSize) :
    ∃ q, p.copyGSPacketData data = some q ∧ Loaded (S ++ data) q := by
  have hlen : S.length = p.curSize - p.gsPack.offset := by
    rw [← h.bytes, GifPath.rest, length_load]
  rw [GifPath.copyGSPacketData]
  by_cases hfull : p.curSize + data.length > buffSize
  · obtain ⟨hplaced, hrest, hpack, htag, hcur⟩ := realignPacket_spec h.placed
    have hloaded : Loaded S p.realignPacket :=
      ⟨hplaced, hrest.trans h.bytes, by rw [hpack]; exact h.start, by rw [htag]; exact h.tag⟩
    simp only [if_pos hfull]
    rw [if_pos (by omega)]
    exact ⟨_, rfl, hloaded.append data⟩
  · simp only [if_neg hfull]
    rw [if_pos (by omega)]
    exact ⟨_, rfl, h.append data⟩

theorem kickChunks_flatten (mem : Nat → UInt8) (haddr : addr ≤ 0x4000) (hn : n ≤ 0x4000) :
    (kickChunks mem addr n).flatten = wrapped mem addr n := by
  have hfront {k : Nat} (hk : addr + k ≤ 0x4000) : wrapped mem addr k = load mem addr k := by
    refine List.map_congr_left fun i hi => ?_
    rw [Nat.mod_eq_of_lt (by have := List.mem_range.mp hi; omega)]
  rw [kickChunks]
  split
  next hwrap =>
    have hback : wrapped mem addr n = wrapped mem addr (0x4000 - addr) ++
        load mem 0 (n - (0x4000 - addr)) := by
      have hsum : n = 0x4000 - addr + (n - (0x4000 - addr)) := by omega
      conv_lhs => rw [hsum]
      rw [wrapped, List.range_add, List.map_append, List.map_map, wrapped]
      congr 1
      refine List.map_congr_left fun i hi => ?_
      have hi := List.mem_range.mp hi
      simp only [Function.comp_apply]
      congr 1
      omega
    rw [hback, hfront (by omega)]
    simp
  · rw [hfront (by omega)]
    simp

theorem exists_copied (mem : Nat → UInt8) {p : GifPath} (h : p.Idle) (haddr : addr ≤ 0x4000) (hn : n < 0x4000) :
    ∃ q, (kickChunks mem addr n).foldlM GifPath.copyGSPacketData p = some q ∧
      Loaded (wrapped mem addr n) q := by
  have hsize : 0x4000 ≤ buffSize := by decide
  have hflat := kickChunks_flatten mem haddr hn.le
  rw [kickChunks] at hflat ⊢
  split
  next hwrap =>
    rw [if_pos hwrap] at hflat
    obtain ⟨q, hq, hloaded⟩ := h.loaded.copy (load mem addr (0x4000 - addr))
      (by rw [List.length_nil, length_load]; omega)
    obtain ⟨q', hq', hloaded'⟩ := hloaded.copy (load mem 0 (n - (0x4000 - addr)))
      (by rw [List.nil_append, length_load, length_load]; omega)
    refine ⟨q', by simp [hq, hq'], ?_⟩
    rw [← hflat]
    simpa using hloaded'
  next hwrap =>
    rw [if_neg hwrap] at hflat
    obtain ⟨q, hq, hloaded⟩ := h.loaded.copy (load mem addr n)
      (by rw [List.length_nil, length_load]; omega)
    refine ⟨q, by simp [hq], ?_⟩
    rw [← hflat]
    simpa using hloaded

/-! ## Executing -/

variable {stat : Stat}

theorem tag_iterate (t : GifTag) (n : Nat) : (GifTag.packedStep^[n] t).tag = t.tag := by
  induction n with
  | zero => rfl
  | succ n ih => rw [Function.iterate_succ_apply', GifTag.tag_packedStep, ih]

/-- A path that has parsed `pos` bytes of the stream, all of which it has. -/
structure Parsed (S : List UInt8) (pos : Nat) (p : GifPath) : Prop where
  placed : Placed p
  bytes : p.rest = S
  pos : p.gsPack.size = pos
  tag : p.gifTag.isValid = false

theorem Parsed.shows {p : GifPath} (h : Parsed S pos p) : Shows S 0 p := by
  have hlen : S.length = p.curSize - p.gsPack.offset := by
    rw [← h.bytes, GifPath.rest, length_load]
  refine ⟨?_, by omega⟩
  have hview := load_view [] S []
  rw [List.nil_append, List.append_nil, List.length_nil, hlen] at hview
  rw [hview]
  exact h.bytes

theorem Parsed.length {p : GifPath} (h : Parsed S pos p) : p.gsPack.offset + S.length = p.curSize := by
  have hpk := h.placed.packet
  have hin := h.placed.inData
  rw [← h.bytes, GifPath.rest, length_load]
  omega

theorem loadTag_complete (stat : Stat) {p : GifPath} {r : GSRegs × List (List UInt8)} (hsig : NoSignal S)
    (h : Parsed S pos p) (hcalls : r.2 ++ adCalls S pos = adCalls S 0)
    (hlen : pos + 16 + (tagAt S pos).len ≤ S.length) :
    ∃ q r', loadTag logged stat p r = endTag stat q r' ∧ Advances p q ∧
      q.gsPack.size = pos + 16 + (tagAt S pos).len ∧ q.gifTag.tag.eop = (tagAt S pos).tag.eop ∧
      r'.2 ++ adCalls S (pos + 16 + (tagAt S pos).len) = adCalls S 0 := by
  have hp := h.placed
  have hpk := hp.packet
  have hpos := h.pos
  have hsize := h.length
  have hload := h.shows.load hp (n := 16) (by omega)
  rw [Nat.zero_add, hpos] at hload
  obtain ⟨hAD, hl, heq⟩ := GifTag.setTag_congr p.gifTag .reset hload
  change _ = (tagAt S pos).hasAD at hAD
  change _ = (tagAt S pos).len at hl
  have heop : (p.gifTag.setTag p.buffer p.curOffset).tag.eop = (tagAt S pos).tag.eop := by
    rw [tagAt, GifTag.eop_setTag, GifTag.eop_setTag, HWGifTag.read_congr hload]
  have htag : p.setTag.gifTag = p.gifTag.setTag p.buffer p.curOffset := rfl
  have hadv : Advances p (p.setTag.incTag 16) := hp.incTag (by omega) _ _
  have hbefore := hcalls
  rw [adCalls.eq_def S pos, if_neg (by omega), if_neg (by omega), ← List.append_assoc] at hcalls
  have hfits : ¬(!p.setTag.gifTag.hasAD &&
      decide (p.setTag.curOffset + 16 + p.setTag.gifTag.len > p.setTag.curSize)) = true := by
    rw [htag, hl]
    change ¬(_ && decide (p.curOffset + 16 + (tagAt S pos).len > p.curSize)) = true
    rw [decide_eq_false (by omega), Bool.and_false]
    exact Bool.false_ne_true
  rw [loadTag]
  simp only [if_neg hfits]
  rw [processData]
  cases hT : (tagAt S pos).hasAD with
  | false =>
    have hnot : ¬(p.setTag.incTag 16).gifTag.hasAD = true := by
      change ¬p.setTag.gifTag.hasAD = true
      rw [htag, hAD, hT]
      exact Bool.false_ne_true
    have hinc : (p.setTag.incTag 16).gifTag.len = (tagAt S pos).len := hl
    rw [if_neg hnot, hinc]
    refine ⟨_, _, rfl, hadv.trans (hadv.placed.incTag (n := (tagAt S pos).len) ?_ _ _), ?_, heop, ?_⟩
    · change p.curOffset + 16 + (tagAt S pos).len ≤ p.curSize
      omega
    · simp only [GifPath.incTag, GifPath.setTag, hpos]
    · rw [adWrites, hT, if_neg Bool.false_ne_true, List.append_nil] at hcalls
      exact hcalls
  | true =>
    have hyes : (p.setTag.incTag 16).gifTag.hasAD = true := hAD.trans hT
    rw [if_pos hyes]
    obtain ⟨hidx, hleft⟩ := GifTag.setTag_of_hasAD .reset (view S) pos hT
    change (tagAt S pos).len = 16 * (tagAt S pos).left at hleft
    have hreached : AdReached S pos r.2 0 (p.setTag.incTag 16) r.2 0 := by
      refine ⟨heq (by rw [hAD, hT]), ?_, by omega, Nat.zero_le _, ?_⟩
      · simp only [GifPath.incTag, GifPath.setTag, hpos]
        omega
      · rw [adWrites_zero, List.append_nil]
    obtain ⟨hadv', -, -⟩ := adLoop_advances logged r hadv.placed
    obtain ⟨hne, ⟨m, hm⟩, hfin, hearly⟩ := adLoop_stream hsig hT hbefore hadv.placed
      (h.shows.advances hadv) hreached
    generalize adLoop logged (p.setTag.incTag 16) r = res at *
    obtain ⟨exit, q, r'⟩ := res
    have hq := hadv.trans hadv'
    have hqpk := hq.placed.packet
    have hqoff := hq.offset
    have hqsize := hq.curSize
    have hqpos := hm.pos
    obtain ⟨hidx', hleft'⟩ := GifTag.iterate_packedStep (t := tagAt S pos) hidx m
    have hzero := GifTag.left_eq_zero hidx'
    rw [← hm.gifTag] at hzero hleft'
    have hmlen := hm.len
    dsimp only at *
    cases exit with
    | early =>
      obtain ⟨hloop, hshort⟩ := hearly rfl
      have hmore := mt hzero.mp hloop
      omega
    | stalled => exact absurd rfl hne
    | finished =>
      have hdone := hzero.mpr (hfin rfl)
      have hall : (tagAt S pos).len = 16 * m := by omega
      refine ⟨q, r', rfl, hq, by omega, ?_, ?_⟩
      · rw [hm.gifTag, tag_iterate]
      · rw [hm.calls, ← hcalls, hall, Nat.mul_div_cancel_left m (by decide)]

theorem Parsed.realignPacket {p : GifPath} (h : Parsed S pos p) : Parsed S pos p.realignPacket := by
  obtain ⟨hplaced, hrest, hpack, htag, -⟩ := realignPacket_spec h.placed
  exact ⟨hplaced, hrest.trans h.bytes, by rw [hpack]; exact h.pos, by rw [htag]; exact h.tag⟩

theorem Advances.rest {p q : GifPath} (h : Advances p q) : q.rest = p.rest := by
  rw [GifPath.rest, h.buffer, h.offset, h.curSize]
  rfl

theorem executeRound_complete (stat : Stat) {p : GifPath} {r : GSRegs × List (List UInt8)} (hsig : NoSignal S)
    (h : Parsed S pos p) (hcalls : r.2 ++ adCalls S pos = adCalls S 0)
    (hlen : pos + 16 + (tagAt S pos).len ≤ S.length) :
    ∃ p' q r', executeRound logged stat p r = endTag stat q r' ∧ Parsed S pos p' ∧
      Advances p' q ∧ q.gsPack.size = pos + 16 + (tagAt S pos).len ∧
      q.gifTag.tag.eop = (tagAt S pos).tag.eop ∧
      r'.2 ++ adCalls S (pos + 16 + (tagAt S pos).len) = adCalls S 0 := by
  have hpk := h.placed.packet
  have hpos := h.pos
  have hsize := h.length
  rw [executeRound, executeGSPacket, if_pos (by simp [h.tag]), if_neg (by omega)]
  by_cases hlimit : p.curOffset > buffLimit
  · rw [if_pos hlimit]
    obtain ⟨q, r', heq, hrest⟩ := loadTag_complete stat hsig h.realignPacket hcalls hlen
    exact ⟨p.realignPacket, q, r', heq, h.realignPacket, hrest⟩
  · rw [if_neg hlimit]
    obtain ⟨q, r', heq, hrest⟩ := loadTag_complete stat hsig h hcalls hlen
    refine ⟨p, q, r', ?_, h, hrest⟩
    have hne : ∀ q g, loadTag logged stat p r ≠ .realign q g := loadTag_ne_realign p r
    rw [← heq]
    cases hload : loadTag logged stat p r with
    | realign q' g => exact absurd hload (hne q' g)
    | again q' g => rfl
    | exit q' g => rfl
    | done q' g pack => rfl

/-- What is asked of `ExecuteGSPacket` on the bytes `S`: it is done, the packet is `S`, its A+D
writes are handled in order, and nothing is left for another call. -/
structure Executed (stat : Stat) (S : List UInt8) (pack : GSPacket) (p : GifPath)
    (r : GSRegs × List (List UInt8)) : Prop where
  size : pack.size = S.length
  bytes : load p.buffer pack.offset pack.size = S
  consumed : p.curOffset = p.curSize ∧ p.curOffset = pack.offset + pack.size
  calls : r.2 = adCalls S 0
  ended : executePacket logged stat 1 p r = some (none, p, r)

theorem executePacket_chain (hstat : NotPath3 stat) (hsig : NoSignal S) (hchain : Chain S pos)
    {p : GifPath} {r : GSRegs × List (List UInt8)} (h : Parsed S pos p)
    (hcalls : r.2 ++ adCalls S pos = adCalls S 0) {rounds : Nat}
    (hrounds : S.length ≤ pos + 16 * rounds) :
    ∃ pack q r', executePacket logged stat rounds p r = some (some pack, q, r') ∧
      Executed stat S pack q r' := by
  have hstat : stat.path3 = false := hstat
  induction hchain generalizing p r rounds with
  | last pos heop hlen =>
    obtain ⟨p', q, r', heq, hp', hadv, hsize, htag, hcalls'⟩ :=
      executeRound_complete stat hsig h hcalls (Nat.le_of_eq hlen)
    obtain ⟨rounds, rfl⟩ : ∃ k, rounds = k + 1 := ⟨rounds - 1, by omega⟩
    have hqpk := hadv.placed.packet
    have hqsize := hadv.curSize
    have hqoff := hadv.offset
    have hplen := hp'.length
    have hqlen : q.curSize - q.gsPack.offset = q.gsPack.size := by omega
    have hend : q.curOffset = q.curSize := by omega
    rw [hlen, adCalls.eq_def S S.length, if_pos (by omega), List.append_nil] at hcalls'
    rw [executePacket, heq, endTag]
    dsimp only
    rw [htag, heop, if_pos rfl, hstat, if_neg Bool.false_ne_true]
    refine ⟨_, _, _, rfl, hsize.trans hlen, ?_, ⟨hend, hqpk.symm⟩, hcalls', ?_⟩
    · have hrest := hadv.rest.trans hp'.bytes
      rw [GifPath.rest, hqlen] at hrest
      exact hrest
    · rw [executePacket, executeRound, executeGSPacket, if_pos (by rfl), if_pos (by
        change q.curOffset + 16 > q.curSize
        omega)]
  | next pos heop hrest ih =>
    have hbound := hrest.bound
    obtain ⟨p', q, r', heq, hp', hadv, hsize, htag, hcalls'⟩ :=
      executeRound_complete stat hsig h hcalls (by omega)
    obtain ⟨rounds, rfl⟩ : ∃ k, rounds = k + 1 := ⟨rounds - 1, by omega⟩
    rw [executePacket, heq, endTag]
    dsimp only
    rw [htag, heop, if_neg Bool.false_ne_true]
    refine ih ?_ hcalls' (by omega)
    exact ⟨⟨hadv.placed.packet, hadv.placed.inData⟩, hadv.rest.trans hp'.bytes, hsize, rfl⟩

/-- For every memory and every address, measuring ends, and a packet of the size that it gives is
copied and executed as a whole, and its bytes are those from the address on, round the end of the
memory. -/
theorem xgkick_packet (mem : Nat → UInt8) (vi : UInt16) :
    ∃ n, getGSPacketSize mem (kickAddr vi) = some n ∧
      (0 < n → NoSignal (wrapped mem (kickAddr vi) n) →
        ∀ (p : GifPath) (regs : GSRegs) (stat : Stat), p.Idle → NotPath3 stat →
          ∃ q, (kickChunks mem (kickAddr vi) n).foldlM GifPath.copyGSPacketData p = some q ∧
            ∀ rounds, 0x4000 / 16 ≤ rounds → ∃ pack t r,
              executePacket logged stat rounds q (regs, []) = some (some pack, t, r) ∧
                Executed stat (wrapped mem (kickAddr vi) n) pack t r) := by
  have haddr : kickAddr vi < 0x4000 := by
    have hand : (vi &&& 0x3ff).toNat ≤ 0x3ff := by
      rw [UInt16.toNat_and]
      exact Nat.and_le_right
    rw [kickAddr]
    omega
  obtain ⟨n, hn⟩ := exists_sizeLoop mem (kickAddr vi)
    (show 0x4000 ≤ 0 + 16 * (0x4000 / 16) by omega) (by omega)
  refine ⟨n, hn, fun hpos hsig p regs stat hidle hstat => ?_⟩
  have hdvd : 16 ∣ kickAddr vi := Nat.dvd_mul_left _ _
  rw [← Nat.add_zero (kickAddr vi)] at hn
  obtain ⟨hlt, hchain⟩ := chain_of_sizeLoop hdvd (Nat.dvd_zero _) hn hpos
  obtain ⟨q, hq, hloaded⟩ := exists_copied mem hidle haddr.le hlt
  refine ⟨q, hq, fun rounds hrounds => ?_⟩
  refine executePacket_chain hstat hsig hchain
    ⟨hloaded.placed, hloaded.bytes, hloaded.start, hloaded.tag⟩ (List.nil_append _) ?_
  rw [length_wrapped]
  omega

/-- A memory of empty primitives, each the end of a packet. -/
def endTags (i : Nat) : UInt8 := if i % 16 = 1 then 0x80 else 0

/-- A kick of the last quadword. -/
theorem xgkick_packet_endTags :
    ∃ q, (kickChunks endTags (kickAddr 0x3ff) 16).foldlM GifPath.copyGSPacketData
        (.reset fun _ => 0) = some q ∧
      ∀ rounds, 0x4000 / 16 ≤ rounds → ∃ pack t r,
        executePacket logged ⟨false, false⟩ rounds q (.zero, []) = some (some pack, t, r) ∧
          Executed ⟨false, false⟩ (wrapped endTags (kickAddr 0x3ff) 16) pack t r := by
  obtain ⟨n, hn, hkick⟩ := xgkick_packet endTags 0x3ff
  have hsize : getGSPacketSize endTags (kickAddr 0x3ff) = some 16 := by decide
  rw [hsize] at hn
  cases hn
  refine hkick (by decide) ?_ (.reset fun _ => 0) .zero ⟨false, false⟩
    ⟨rfl, rfl, rfl, Nat.zero_le _⟩ rfl
  have hlen : (tagAt (wrapped endTags (kickAddr 0x3ff) 16) 0).len = 0 := by decide
  have hAD : (tagAt (wrapped endTags (kickAddr 0x3ff) 16) 0).hasAD = false := by decide
  intro w hw
  rw [adCalls, length_wrapped, if_neg (by decide), hlen, if_neg (by decide), adWrites, hAD,
    if_neg Bool.false_ne_true, List.nil_append, adCalls, length_wrapped, if_pos (by decide)] at hw
  cases hw

end OmegaRed.Gif
