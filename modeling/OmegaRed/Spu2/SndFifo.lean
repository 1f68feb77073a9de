import OmegaRed.Lib.RingFifo
import Mathlib
import OmegaRed.Lib.Traces

/-! The sound output buffer: the emulator thread writes packets, the audio thread reads them. -/

namespace OmegaRed.Spu2.SndBuffer

def SndOutPacketSize : Nat := 64

structure Config where
  m_size : Nat
  SynchMode : Nat

/-- `GetAlignedBufferSize` -/
def getAlignedBufferSize (comp : Nat) : Nat :=
  (comp + SndOutPacketSize - 1) / SndOutPacketSize * SndOutPacketSize

/-- The data that ends an underrun. -/
def Config.toFill (cfg : Config) : Nat :=
  getAlignedBufferSize (cfg.m_size / if cfg.SynchMode = 2 then 32 else 400)

/-- The emulator thread: outside `_WriteSamples`, or in `_WriteSamples_Internal` with `i` samples
of `bData` copied and `later` for the second call. -/
inductive Writer (α : Type)
  | idle
  | copying (bData later : List α) (i : Nat)

/-- The audio thread: outside `ReadSamples`, or with `i` of `nSamples` samples copied. -/
inductive Reader (β : Type)
  | idle
  | copying (data nSamples quietSamples i : Nat) (bData : Nat → β)

/-- A call of `ReadSamples`: the data it found, the samples it took and what it delivered. -/
structure Read (β : Type) where
  found : Nat
  taken : Nat
  packet : List β

structure State (α β : Type) where
  m_buffer : Nat → α
  m_rpos : Nat
  m_wpos : Nat
  m_underrun_freeze : Bool
  writer : Writer α
  reader : Reader β
  /-- The samples of the packets that were not dropped. -/
  accepted : List α
  reads : List (Read β)

/-- `CheckUnderrunStatus`, with `nSamples`, `quietSampleCount` and `m_underrun_freeze` after
it. -/
def checkUnderrunStatus (cfg : Config) (freeze : Bool) (data nSamples : Nat) :
    Bool × Nat × Nat × Bool :=
  if freeze then
    if data < cfg.toFill then (false, nSamples, nSamples, true) else (true, nSamples, 0, false)
  else if data < nSamples then (data != 0, data, SndOutPacketSize - data, true)
  else (true, nSamples, 0, false)

/-- A step of one of the threads; a call starts with the packet to write, or with what is in
the packet to read into. -/
inductive Label (α β : Type)
  | write (bData : Fin SndOutPacketSize → α)
  | writer
  | read (bData : Nat → β)
  | reader

namespace State

variable {α β : Type} (cfg : Config) (resample : α → β) (silence : β)

/-- `_GetApproximateDataInBuffer` -/
def dataInBuffer (s : State α β) : Nat := (s.m_wpos + cfg.m_size - s.m_rpos) % cfg.m_size

/-- `_WriteSamples`, up to its copies. -/
def startWrite (s : State α β) (bData : List α) : State α β :=
  if cfg.m_size - s.dataInBuffer cfg ≤ bData.length then s
  else
    let b1 := cfg.m_size - s.m_wpos
    { s with
      accepted := s.accepted ++ bData
      writer :=
        if b1 < bData.length then .copying (bData.take b1) (bData.drop b1) 0
        else .copying bData [] 0 }

/-- A step of `_WriteSamples_Internal`: a sample, or the position after the last one. -/
def stepWriter (s : State α β) : Option (State α β) :=
  match s.writer with
  | .idle => none
  | .copying bData later i =>
    match bData[i]? with
    | some sample =>
      some { s with
        m_buffer := Function.update s.m_buffer (s.m_wpos + i) sample
        writer := .copying bData later (i + 1) }
    | none =>
      some { s with
        m_wpos := (s.m_wpos + bData.length) % cfg.m_size
        writer :=
          match later with
          | [] => .idle
          | _ => .copying later [] 0 }

/-- The end of `ReadSamples`: the silence goes to the start of the packet. -/
def finish (s : State α β) (bData : Nat → β) (found taken quietSamples : Nat) : State α β :=
  { s with
    reader := .idle
    reads := s.reads ++ [⟨found, taken, (List.range SndOutPacketSize).map fun i =>
      if i < quietSamples then silence else bData i⟩] }

/-- `ReadSamples`, up to its copies. -/
def startRead (s : State α β) (bData : Nat → β) : State α β :=
  let data := s.dataInBuffer cfg
  let (copies, nSamples, quietSamples, freeze) :=
    checkUnderrunStatus cfg s.m_underrun_freeze data SndOutPacketSize
  let s := { s with m_underrun_freeze := freeze }
  if copies then { s with reader := .copying data nSamples quietSamples 0 bData }
  else s.finish silence bData data 0 quietSamples

/-- A step of the copies of `ReadSamples`, or `_DropSamples_Internal` after the last one. -/
def stepReader (s : State α β) : Option (State α β) :=
  match s.reader with
  | .idle => none
  | .copying data nSamples quietSamples i bData =>
    if i < nSamples then
      let b1 := min (cfg.m_size - s.m_rpos) nSamples
      let sample := s.m_buffer (if i < b1 then i + s.m_rpos else i - b1)
      some { s with
        reader :=
          .copying data nSamples quietSamples (i + 1) (Function.update bData i (resample sample)) }
    else
      some ({ s with m_rpos := (s.m_rpos + nSamples) % cfg.m_size }.finish silence bData data
        nSamples quietSamples)

def step (s : State α β) : Label α β → Option (State α β)
  | .write bData =>
    match s.writer with
    | .idle => some (s.startWrite cfg (List.ofFn bData))
    | .copying .. => none
  | .writer => s.stepWriter cfg
  | .read bData =>
    match s.reader with
    | .idle => some (s.startRead cfg silence bData)
    | .copying .. => none
  | .reader => s.stepReader cfg resample silence

/-- What `Init` leaves; the buffer is not cleared. -/
def init (m_buffer : Nat → α) : State α β := ⟨m_buffer, 0, 0, false, .idle, .idle, [], []⟩

/-- The samples of accepted packets whose position is not stored yet. -/
def pending (s : State α β) : Nat :=
  match s.writer with
  | .idle => 0
  | .copying bData later _ => bData.length + later.length

def published (s : State α β) : Nat := s.accepted.length - s.pending

def delivered (s : State α β) : Nat := (s.reads.map Read.taken).sum

end State

end OmegaRed.Spu2.SndBuffer

/-! The audio thread plays the packets that were accepted, with silence where there are none. -/

namespace OmegaRed.Spu2.SndBuffer

open Lib

namespace Read

variable {β : Type}

/-- An underrun goes on until enough data is found. -/
def freezes (toFill : Nat) (freeze : Bool) (r : Read β) : Bool :=
  if freeze then r.found < toFill else r.found < SndOutPacketSize

/-- The samples that a read has to take. -/
def due (toFill : Nat) (freeze : Bool) (r : Read β) : Nat :=
  if freeze then if r.found < toFill then 0 else SndOutPacketSize
  else min r.found SndOutPacketSize

/-- Every read of a sequence takes what it has to take. -/
def Follows (toFill : Nat) : Bool → List (Read β) → Prop
  | _, [] => True
  | freeze, r :: reads =>
    r.taken = r.due toFill freeze ∧ Follows toFill (r.freezes toFill freeze) reads

theorem follows_append {toFill : Nat} {freeze : Bool} {reads : List (Read β)} {r : Read β} :
    Follows toFill freeze (reads ++ [r]) ↔ Follows toFill freeze reads ∧
      r.taken = r.due toFill (reads.foldl (Read.freezes toFill) freeze) := by
  induction reads generalizing freeze with
  | nil => exact ⟨fun h => ⟨trivial, h.1⟩, fun h => ⟨h.2, trivial⟩⟩
  | cons r' reads ih =>
    simp only [List.cons_append, Follows, List.foldl_cons, ih, and_assoc]

end Read

namespace State

variable {α β : Type} {cfg : Config} {resample : α → β} {silence : β} {s s' : State α β}

/-- The buffer is a queue: what is delivered is what was accepted, in order and each sample once;
a packet that is not full ends in silence, and an underrun goes on until there is enough data.
The data is what was written and is not read yet; a packet is accepted where it leaves a slot. -/
structure Fifo (cfg : Config) (resample : α → β) (silence : β) (s : State α β) : Prop where
  order : s.reads.flatMap (fun r => r.packet.take r.taken) <+: s.accepted.map resample
  positions : s.m_rpos < cfg.m_size ∧ s.m_wpos < cfg.m_size
  quiet : ∀ r ∈ s.reads, r.packet.length = SndOutPacketSize ∧
    r.packet.drop r.taken = List.replicate (SndOutPacketSize - r.taken) silence
  refill : Read.Follows cfg.toFill false s.reads
  data : s.dataInBuffer cfg = s.published - s.delivered
  whole : ∀ bData s', s.step cfg resample silence (.write bData) = some s' →
    if SndOutPacketSize < cfg.m_size - (s.published - s.delivered) then
      s'.accepted = s.accepted ++ List.ofFn bData
    else s' = s

/-- The reads so far leave the buffer in an underrun. -/
def frozen (cfg : Config) (s : State α β) : Bool := s.reads.foldl (Read.freezes cfg.toFill) false

structure Inv (cfg : Config) (resample : α → β) (silence : β) (s : State α β) : Prop where
  size : 64 ∣ cfg.m_size
  toFill : 64 ≤ cfg.toFill
  pos : 0 < cfg.m_size
  wpos : s.m_wpos = s.published % cfg.m_size
  rpos : s.m_rpos = s.delivered % cfg.m_size
  dvd_published : 64 ∣ s.published
  dvd_delivered : 64 ∣ s.delivered
  le : s.delivered ≤ s.published
  pending : s.pending ≤ s.accepted.length
  room : s.accepted.length < s.delivered + cfg.m_size
  held : ∀ k, s.delivered ≤ k → k < s.published →
    s.accepted[k]? = some (s.m_buffer (k % cfg.m_size))
  writer : ∀ bData later i, s.writer = .copying bData later i → later = [] ∧
    bData.length = 64 ∧ i ≤ 64 ∧ s.accepted.drop s.published = bData ∧
    ∀ j < i, s.accepted[s.published + j]? =
      some (s.m_buffer ((s.published + j) % cfg.m_size))
  reader : ∀ data nSamples quietSamples i bData,
    s.reader = .copying data nSamples quietSamples i bData →
    nSamples = 64 ∧ quietSamples = 0 ∧ i ≤ 64 ∧ s.delivered + 64 ≤ s.published ∧
    (∀ j < i, (s.accepted[s.delivered + j]?).map resample = some (bData j)) ∧
    s.m_underrun_freeze = (⟨data, 64, []⟩ : Read β).freezes cfg.toFill (s.frozen cfg) ∧
    (⟨data, 64, []⟩ : Read β).due cfg.toFill (s.frozen cfg) = 64
  freeze : s.reader = .idle → s.m_underrun_freeze = s.frozen cfg
  order : s.reads.flatMap (fun r => r.packet.take r.taken) =
    (s.accepted.map resample).take s.delivered
  quiet : ∀ r ∈ s.reads, r.packet.length = SndOutPacketSize ∧
    r.packet.drop r.taken = List.replicate (SndOutPacketSize - r.taken) silence
  refill : Read.Follows cfg.toFill false s.reads

theorem add_sub_mod {n p d : Nat} (hd : d ≤ p) (hp : p < d + n) :
    (p % n + n - d % n) % n = p - d := by
  obtain ⟨k, rfl⟩ := Nat.exists_eq_add_of_le hd
  have hn : 0 < n := by omega
  have hlt := Nat.mod_lt d hn
  have hk : k % n = k := Nat.mod_eq_of_lt (by omega)
  rw [Nat.add_mod, hk, Nat.add_sub_cancel_left]
  by_cases hwrap : d % n + k < n
  · rw [Nat.mod_eq_of_lt hwrap, show d % n + k + n - d % n = k + n by omega, Nat.add_mod_right, hk]
  · have hsum : (d % n + k) % n = d % n + k - n := by
      rw [Nat.mod_eq_sub_mod (by omega), Nat.mod_eq_of_lt (by omega)]
    rw [hsum, show d % n + k - n + n - d % n = k by omega, hk]

theorem mod_add_le {n p : Nat} (hn : 64 ∣ n) (hpos : 0 < n) (hp : 64 ∣ p) : p % n + 64 ≤ n := by
  have hlt := Nat.mod_lt p hpos
  have hdvd : 64 ∣ p % n := (Nat.dvd_mod_iff hn).2 hp
  omega

namespace Inv

theorem data (h : s.Inv cfg resample silence) :
    s.dataInBuffer cfg = s.published - s.delivered := by
  have := h.room
  rw [dataInBuffer, h.wpos, h.rpos, add_sub_mod h.le]
  rw [published]
  omega

theorem fifo (h : s.Inv cfg resample silence) : s.Fifo cfg resample silence where
  order := by
    rw [h.order]
    exact List.take_prefix ..
  positions := by
    rw [h.rpos, h.wpos]
    exact ⟨Nat.mod_lt _ h.pos, Nat.mod_lt _ h.pos⟩
  quiet := h.quiet
  refill := h.refill
  data := h.data
  whole := by
    intro bData s' hs
    rw [State.step] at hs
    split at hs
    · rw [← Option.some.inj hs, State.startWrite, List.length_ofFn, h.data]
      by_cases hfree : SndOutPacketSize < cfg.m_size - (s.published - s.delivered)
      · rw [if_pos hfree, if_neg (Nat.not_le.2 hfree)]
      · rw [if_neg hfree, if_pos (Nat.not_lt.1 hfree)]
    · cases hs

theorem published_of_idle (hidle : s.writer = .idle) : s.published = s.accepted.length := by
  rw [published, State.pending, hidle]
  rfl

theorem startWrite (h : s.Inv cfg resample silence) (hidle : s.writer = .idle) {bData : List α}
    (hlen : bData.length = 64) : (s.startWrite cfg bData).Inv cfg resample silence := by
  have hdata := h.data
  have hpub := published_of_idle hidle
  have hle := h.le
  unfold State.startWrite
  split
  · exact h
  rename_i hfree
  have hwpos := mod_add_le h.size h.pos h.dvd_published
  rw [← h.wpos] at hwpos
  dsimp only
  rw [if_neg (by omega)]
  have hpub' : published { s with accepted := s.accepted ++ bData, writer := .copying bData [] 0 } =
      s.published := by
    rw [hpub, published, State.pending, List.length_append]
    exact Nat.add_sub_cancel ..
  exact {
    size := h.size
    toFill := h.toFill
    pos := h.pos
    wpos := by rw [hpub']; exact h.wpos
    rpos := h.rpos
    dvd_published := by rw [hpub']; exact h.dvd_published
    dvd_delivered := h.dvd_delivered
    le := by rw [hpub']; exact hle
    pending := by
      rw [List.length_append]
      exact Nat.le_add_left ..
    room := by
      rw [List.length_append]
      change _ < s.delivered + _
      omega
    held := by
      intro k hlo hhi
      rw [hpub'] at hhi
      rw [List.getElem?_append_left (by omega)]
      exact h.held k hlo hhi
    writer := by
      rintro _ _ _ ⟨⟩
      refine ⟨rfl, hlen, Nat.zero_le _, ?_, fun j hj => absurd hj (Nat.not_lt_zero j)⟩
      rw [hpub', hpub, List.drop_left]
    reader := by
      intro data n quiet i bData' hr
      obtain ⟨hn, hq, hi, hroom, hcopied, hfreeze⟩ := h.reader data n quiet i bData' hr
      refine ⟨hn, hq, hi, by rw [hpub']; exact hroom, fun j hj => ?_, hfreeze⟩
      rw [List.getElem?_append_left (by change s.delivered + j < _; omega)]
      exact hcopied j hj
    freeze := h.freeze
    order := by
      rw [h.order, List.map_append, List.take_append_of_le_length]
      · rfl
      · rw [List.length_map]
        change s.delivered ≤ _
        omega
    quiet := h.quiet
    refill := h.refill }

theorem stepWriter_sample (h : s.Inv cfg resample silence) {bData later : List α} {i : Nat}
    {sample : α} (hw : s.writer = .copying bData later i) (hi : bData[i]? = some sample) :
    Inv cfg resample silence { s with
      m_buffer := Function.update s.m_buffer (s.m_wpos + i) sample
      writer := .copying bData later (i + 1) } := by
  obtain ⟨hlater, hlen, hle, hdrop, hcopied⟩ := h.writer _ _ _ hw
  have hilt : i < 64 := by
    have := (List.getElem?_eq_some_iff.1 hi).1
    omega
  have hpend : s.pending = 64 := by
    rw [State.pending, hw, hlater]
    exact hlen
  have hroom := h.room
  have hpending := h.pending
  have hpubdef : s.published = s.accepted.length - s.pending := rfl
  have hle' := h.le
  have hpub' : published { s with
      m_buffer := Function.update s.m_buffer (s.m_wpos + i) sample
      writer := .copying bData later (i + 1) } = s.published := by
    rw [published, published, State.pending, State.pending, hw]
  have hcell : s.m_wpos + i = (s.published + i) % cfg.m_size := by
    have hend := mod_add_le h.size h.pos h.dvd_published
    rw [h.wpos, Nat.add_mod, Nat.mod_eq_of_lt (show i < cfg.m_size by omega),
      Nat.mod_eq_of_lt (show s.published % cfg.m_size + i < cfg.m_size by omega)]
  have hsample : s.accepted[s.published + i]? = some sample := by
    rw [← hi, ← hdrop, List.getElem?_drop]
  exact {
    size := h.size
    toFill := h.toFill
    pos := h.pos
    wpos := by rw [hpub']; exact h.wpos
    rpos := h.rpos
    dvd_published := by rw [hpub']; exact h.dvd_published
    dvd_delivered := h.dvd_delivered
    le := by rw [hpub']; exact hle'
    pending := by
      change bData.length + later.length ≤ _
      rw [hlater]
      change bData.length ≤ s.accepted.length
      omega
    room := h.room
    held := by
      intro k hlo hhi
      rw [hpub'] at hhi
      change s.delivered ≤ k at hlo
      rw [hcell]
      dsimp only
      rw [Function.update_of_ne (Cyclic.mod_ne_mod (by omega) (by omega))]
      exact h.held k hlo hhi
    writer := by
      rintro _ _ _ ⟨⟩
      refine ⟨hlater, hlen, hilt, ?_, fun j hj => ?_⟩
      · rw [hpub']
        exact hdrop
      · rw [hpub', hcell]
        dsimp only
        obtain hj | rfl := Nat.lt_succ_iff_lt_or_eq.1 hj
        · rw [Function.update_of_ne (Cyclic.mod_ne_mod (by omega) (by omega))]
          exact hcopied j hj
        · rw [Function.update_self]
          exact hsample
    reader := by
      intro data n quiet i' bData' hr
      obtain ⟨hn, hq, hi', hroom', hrest⟩ := h.reader data n quiet i' bData' hr
      exact ⟨hn, hq, hi', by rw [hpub']; exact hroom', hrest⟩
    freeze := h.freeze
    order := h.order
    quiet := h.quiet
    refill := h.refill }

theorem stepWriter_publish (h : s.Inv cfg resample silence) {bData : List α} {i : Nat}
    (hw : s.writer = .copying bData [] i) (hi : bData[i]? = none) :
    Inv cfg resample silence { s with
      m_wpos := (s.m_wpos + bData.length) % cfg.m_size, writer := .idle } := by
  obtain ⟨-, hlen, hle, hdrop, hcopied⟩ := h.writer _ _ _ hw
  have hi64 : i = 64 := by
    have := List.getElem?_eq_none_iff.1 hi
    omega
  have hpend : s.pending = 64 := by
    rw [State.pending, hw]
    exact hlen
  have hpending := h.pending
  have hpubdef : s.published = s.accepted.length - s.pending := rfl
  have hle' := h.le
  have hpub' : published { s with
      m_wpos := (s.m_wpos + bData.length) % cfg.m_size
      writer := .idle } = s.published + 64 := by
    change s.accepted.length - 0 = _
    omega
  exact {
    size := h.size
    toFill := h.toFill
    pos := h.pos
    wpos := by
      rw [hpub']
      dsimp only
      rw [h.wpos, hlen, Nat.mod_add_mod]
    rpos := h.rpos
    dvd_published := by
      rw [hpub']
      exact Nat.dvd_add h.dvd_published (Nat.dvd_refl 64)
    dvd_delivered := h.dvd_delivered
    le := by
      rw [hpub']
      exact Nat.le_add_right_of_le hle'
    pending := Nat.zero_le _
    room := h.room
    held := by
      intro k hlo hhi
      rw [hpub'] at hhi
      by_cases hk : k < s.published
      · exact h.held k hlo hk
      · have hnew := hcopied (k - s.published) (by omega)
        rwa [Nat.add_sub_cancel' (Nat.not_lt.1 hk)] at hnew
    writer := by
      rintro _ _ _ ⟨⟩
    reader := by
      intro data n quiet i' bData' hr
      obtain ⟨hn, hq, hi', hroom', hrest⟩ := h.reader data n quiet i' bData' hr
      exact ⟨hn, hq, hi', by rw [hpub']; exact Nat.le_add_right_of_le hroom', hrest⟩
    freeze := h.freeze
    order := h.order
    quiet := h.quiet
    refill := h.refill }

theorem stepWriter (h : s.Inv cfg resample silence) (hs : s.stepWriter cfg = some s') :
    s'.Inv cfg resample silence := by
  unfold State.stepWriter at hs
  split at hs
  · cases hs
  · rename_i bData later i hw
    split at hs
    · rename_i sample hi
      cases hs
      exact h.stepWriter_sample hw hi
    · rename_i hi
      obtain ⟨rfl, -⟩ := h.writer _ _ _ hw
      cases hs
      exact h.stepWriter_publish hw hi

theorem reads_append (h : s.Inv cfg resample silence) {r : Read β} {freeze : Bool} {rpos : Nat}
    (hrpos : rpos = (s.delivered + r.taken) % cfg.m_size)
    (hfreeze : freeze = r.freezes cfg.toFill (s.frozen cfg))
    (hdue : r.taken = r.due cfg.toFill (s.frozen cfg)) (hdvd : 64 ∣ r.taken)
    (hle : s.delivered + r.taken ≤ s.published)
    (htake : r.packet.take r.taken = ((s.accepted.map resample).drop s.delivered).take r.taken)
    (hquiet : r.packet.length = SndOutPacketSize ∧
      r.packet.drop r.taken = List.replicate (SndOutPacketSize - r.taken) silence) :
    Inv cfg resample silence { s with
      m_rpos := rpos, m_underrun_freeze := freeze, reader := .idle, reads := s.reads ++ [r] } := by
  have hdel : delivered { s with
      m_rpos := rpos, m_underrun_freeze := freeze, reader := .idle, reads := s.reads ++ [r] } =
      s.delivered + r.taken := by
    rw [delivered, delivered, List.map_append, List.sum_append]
    simp
  have hroom := h.room
  exact {
    size := h.size
    toFill := h.toFill
    pos := h.pos
    wpos := h.wpos
    rpos := by rw [hdel]; exact hrpos
    dvd_published := h.dvd_published
    dvd_delivered := by rw [hdel]; exact Nat.dvd_add h.dvd_delivered hdvd
    le := by rw [hdel]; exact hle
    pending := h.pending
    room := by
      rw [hdel]
      dsimp only
      omega
    held := by
      intro k hlo hhi
      rw [hdel] at hlo
      exact h.held k (by omega) hhi
    writer := h.writer
    reader := by
      intro _ _ _ _ _ hr
      cases hr
    freeze := by
      intro _
      rw [frozen, List.foldl_append]
      exact hfreeze
    order := by
      rw [hdel, List.flatMap_append, h.order, List.take_add, ← htake]
      simp
    quiet := by
      intro r' hr'
      obtain hr' | hr' := List.mem_append.1 hr'
      · exact h.quiet r' hr'
      · obtain rfl := List.mem_singleton.1 hr'
        exact hquiet
    refill := Read.follows_append.2 ⟨h.refill, hdue⟩ }

theorem startRead_quiet (h : s.Inv cfg resample silence) (bData : Nat → β) {freeze : Bool}
    {found : Nat} (hdue : (⟨found, 0, []⟩ : Read β).due cfg.toFill (s.frozen cfg) = 0)
    (hfreeze : freeze = (⟨found, 0, []⟩ : Read β).freezes cfg.toFill (s.frozen cfg)) :
    Inv cfg resample silence
      (State.finish silence { s with m_underrun_freeze := freeze } bData found 0 64) := by
  refine h.reads_append h.rpos hfreeze hdue.symm (Nat.dvd_zero 64) h.le rfl ⟨?_, ?_⟩
  · rw [List.length_map, List.length_range]
  · refine List.eq_replicate_iff.2 ⟨by simp, fun b hb => ?_⟩
    obtain ⟨i, hi, rfl⟩ := List.mem_map.1 (List.mem_of_mem_drop hb)
    exact if_pos (List.mem_range.1 hi)

theorem startRead_copies (h : s.Inv cfg resample silence) (bData : Nat → β) {freeze : Bool}
    {found : Nat} (hdue : (⟨found, 64, []⟩ : Read β).due cfg.toFill (s.frozen cfg) = 64)
    (hfreeze : freeze = (⟨found, 64, []⟩ : Read β).freezes cfg.toFill (s.frozen cfg))
    (hdata : s.delivered + 64 ≤ s.published) :
    Inv cfg resample silence
      { s with m_underrun_freeze := freeze, reader := .copying found 64 0 0 bData } where
  size := h.size
  toFill := h.toFill
  pos := h.pos
  wpos := h.wpos
  rpos := h.rpos
  dvd_published := h.dvd_published
  dvd_delivered := h.dvd_delivered
  le := h.le
  pending := h.pending
  room := h.room
  held := h.held
  writer := h.writer
  reader := by
    rintro _ _ _ _ _ ⟨⟩
    exact ⟨rfl, rfl, Nat.zero_le _, hdata, fun j hj => absurd hj (Nat.not_lt_zero j), hfreeze, hdue⟩
  freeze := by
    intro hr
    cases hr
  order := h.order
  quiet := h.quiet
  refill := h.refill

theorem startRead (h : s.Inv cfg resample silence) (hidle : s.reader = .idle) (bData : Nat → β) :
    (s.startRead cfg silence bData).Inv cfg resample silence := by
  have hdata := h.data
  have hfill := h.toFill
  have hle := h.le
  have hdvd : 64 ∣ s.dataInBuffer cfg := by
    rw [hdata]
    exact Nat.dvd_sub h.dvd_published h.dvd_delivered
  unfold State.startRead
  dsimp only
  rw [h.freeze hidle]
  cases hfrozen : s.frozen cfg with
  | true =>
    by_cases hlow : s.dataInBuffer cfg < cfg.toFill
    · have hcheck : checkUnderrunStatus cfg true (s.dataInBuffer cfg) SndOutPacketSize =
          (false, 64, 64, true) := (if_pos rfl).trans (if_pos hlow)
      rw [hcheck]
      apply h.startRead_quiet bData
      · rw [hfrozen]
        exact (if_pos rfl).trans (if_pos hlow)
      · rw [hfrozen]
        exact (decide_eq_true hlow).symm
    · have hcheck : checkUnderrunStatus cfg true (s.dataInBuffer cfg) SndOutPacketSize =
          (true, 64, 0, false) := (if_pos rfl).trans (if_neg hlow)
      rw [hcheck]
      apply h.startRead_copies bData
      · rw [hfrozen]
        exact (if_pos rfl).trans (if_neg hlow)
      · rw [hfrozen]
        exact (decide_eq_false hlow).symm
      · omega
  | false =>
    by_cases hlow : s.dataInBuffer cfg < 64
    · have hzero : s.dataInBuffer cfg = 0 := by omega
      have hcheck : checkUnderrunStatus cfg false 0 SndOutPacketSize = (false, 0, 64, true) := rfl
      rw [hzero, hcheck]
      apply h.startRead_quiet bData
      · rw [hfrozen]
        rfl
      · rw [hfrozen]
        rfl
    · have hcheck : checkUnderrunStatus cfg false (s.dataInBuffer cfg) SndOutPacketSize =
          (true, 64, 0, false) := (if_neg Bool.false_ne_true).trans (if_neg hlow)
      rw [hcheck]
      apply h.startRead_copies bData
      · rw [hfrozen]
        exact Nat.min_eq_right (Nat.not_lt.1 hlow)
      · rw [hfrozen]
        exact (decide_eq_false hlow).symm
      · omega

theorem stepReader (h : s.Inv cfg resample silence)
    (hs : s.stepReader cfg resample silence = some s') : s'.Inv cfg resample silence := by
  unfold State.stepReader at hs
  split at hs
  · cases hs
  rename_i found n quiet i bData hr
  obtain ⟨rfl, rfl, hi, hroom, hcopied, hfreeze, hdue⟩ := h.reader _ _ _ _ _ hr
  have hle := h.le
  have hpubdef : s.published ≤ s.accepted.length := Nat.sub_le ..
  by_cases hlt : i < 64
  · rw [if_pos hlt] at hs
    obtain rfl := Option.some.inj hs
    have hend := mod_add_le h.size h.pos h.dvd_delivered
    have hcell : i + s.m_rpos = (s.delivered + i) % cfg.m_size := by
      rw [h.rpos, Nat.add_mod, Nat.mod_eq_of_lt (show i < cfg.m_size by omega),
        Nat.mod_eq_of_lt (show s.delivered % cfg.m_size + i < cfg.m_size by omega), Nat.add_comm]
    have hb1 : i < min (cfg.m_size - s.m_rpos) 64 := by
      rw [h.rpos]
      omega
    rw [if_pos hb1, hcell]
    exact { h with
      reader := by
        rintro _ _ _ _ _ ⟨⟩
        refine ⟨rfl, rfl, hlt, hroom, fun j hj => ?_, hfreeze, hdue⟩
        obtain hj | rfl := Nat.lt_succ_iff_lt_or_eq.1 hj
        · rw [Function.update_of_ne (Nat.ne_of_lt hj)]
          exact hcopied j hj
        · rw [Function.update_self]
          change (s.accepted[s.delivered + j]?).map resample = _
          rw [h.held _ (by omega) (by omega)]
          rfl
      freeze := by
        intro hr
        cases hr }
  · rw [if_neg hlt] at hs
    obtain rfl := Option.some.inj hs
    obtain rfl : i = 64 := by omega
    have hrpos : (s.m_rpos + 64) % cfg.m_size = (s.delivered + 64) % cfg.m_size := by
      rw [h.rpos, Nat.mod_add_mod]
    refine h.reads_append (r := ⟨found, 64, _⟩) hrpos hfreeze hdue.symm (Nat.dvd_refl 64) hroom ?_
      ⟨?_, ?_⟩
    · apply List.ext_getElem?
      intro j
      by_cases hj : j < 64
      · rw [List.getElem?_take_of_lt hj, List.getElem?_take_of_lt hj, List.getElem?_drop,
          List.getElem?_map, List.getElem?_map, hcopied j hj,
          List.getElem?_range (show j < SndOutPacketSize from hj)]
        rfl
      · rw [List.getElem?_take_eq_none (Nat.not_lt.1 hj), List.getElem?_take_eq_none
          (Nat.not_lt.1 hj)]
    · rw [List.length_map, List.length_range]
    · rw [List.drop_eq_nil_of_le (by simp [SndOutPacketSize])]
      rfl

theorem step (h : s.Inv cfg resample silence) {l : Label α β}
    (hs : s.step cfg resample silence l = some s') : s'.Inv cfg resample silence := by
  cases l with
  | write bData =>
    rw [State.step] at hs
    split at hs
    · rename_i hidle
      obtain rfl := Option.some.inj hs
      exact h.startWrite hidle (List.length_ofFn ..)
    · cases hs
  | writer => exact h.stepWriter hs
  | read bData =>
    rw [State.step] at hs
    split at hs
    · rename_i hidle
      obtain rfl := Option.some.inj hs
      exact h.startRead hidle bData
    · cases hs
  | reader => exact h.stepReader hs

end Inv

theorem init_inv (hsize : 64 ∣ cfg.m_size) (hpos : 0 < cfg.m_size) (hfill : 64 ≤ cfg.toFill)
    (m_buffer : Nat → α) : (init m_buffer : State α β).Inv cfg resample silence where
  size := hsize
  toFill := hfill
  pos := hpos
  wpos := (Nat.zero_mod _).symm
  rpos := (Nat.zero_mod _).symm
  dvd_published := Nat.dvd_zero 64
  dvd_delivered := Nat.dvd_zero 64
  le := Nat.le_refl 0
  pending := Nat.le_refl 0
  room := by
    change 0 < 0 + cfg.m_size
    omega
  held := fun k _ hhi => absurd hhi (Nat.not_lt_zero k)
  writer := by
    intro _ _ _ hw
    cases hw
  reader := by
    intro _ _ _ _ _ hr
    cases hr
  freeze := fun _ => rfl
  order := rfl
  quiet := fun r hr => absurd hr List.not_mem_nil
  refill := trivial

end State

/-- A buffer of the least size that is configured, and larger, waits for a packet. -/
theorem le_toFill {cfg : Config} (hsize : 64 ≤ cfg.m_size)
    (h : cfg.SynchMode = 2 ∨ 400 ≤ cfg.m_size) : 64 ≤ cfg.toFill := by
  have hpos : 1 ≤ cfg.m_size / if cfg.SynchMode = 2 then 32 else 400 := by
    split
    · omega
    · omega
  unfold Config.toFill getAlignedBufferSize SndOutPacketSize
  omega

variable {α β : Type} {cfg : Config} {resample : α → β} {silence : β}

/-- In every interleaving of the two threads the buffer is a queue. -/
theorem run_fifo (hsize : 64 ∣ cfg.m_size) (hpos : 0 < cfg.m_size)
    (hfill : cfg.SynchMode = 2 ∨ 400 ≤ cfg.m_size) {m_buffer : Nat → α} {labels : List (Label α β)}
    {s : State α β}
    (hrun :
      Lib.Traces.run (State.step cfg resample silence) (State.init m_buffer) labels = some s) :
    s.Fifo cfg resample silence := by
  have hle : 64 ≤ cfg.m_size := Nat.le_of_dvd hpos hsize
  have hinit : (State.init m_buffer : State α β).Inv cfg resample silence :=
    State.init_inv hsize hpos (le_toFill hle hfill) m_buffer
  have hmeets : Lib.Traces.Meets (State.step cfg resample silence) (fun _ _ => True)
      (State.init m_buffer) labels := Lib.Traces.Meets.of_mem fun _ _ _ => trivial
  exact (Lib.Traces.invariant (fun _ _ _ h _ hs => h.step hs) hmeets hrun hinit).fifo

/-- A read of an empty buffer of the least size that is configured. -/
theorem run_fifo_empty : ∃ s : State Int Int,
    Lib.Traces.run (State.step ⟨2304, 1⟩ id 0) (State.init fun _ => 5) [.read fun _ => 7] = some s ∧
      s.Fifo ⟨2304, 1⟩ id 0 := by
  have hrun : Lib.Traces.run (State.step ⟨2304, 1⟩ id 0) (State.init fun _ => 5)
      [.read fun _ => 7] =
        some (State.startRead ⟨2304, 1⟩ (0 : Int) (State.init fun _ => (5 : Int)) fun _ => 7) := rfl
  exact ⟨_, hrun, run_fifo (by decide) (by decide) (.inr (by decide)) hrun⟩

/-- Two reads of an empty buffer of 128 samples. -/
def smallReads : List (Label Int Int) :=
  ([.read fun _ => 0, .read fun _ => 0] : List (Label Int Int)) ++ List.replicate 65 .reader

/-- A small buffer ends an underrun without data. -/
theorem not_run_fifo : ¬∀ cfg : Config, 64 ∣ cfg.m_size → 0 < cfg.m_size →
    ∀ (m_buffer : Nat → Int) (labels : List (Label Int Int)) (s : State Int Int),
      Lib.Traces.run (State.step cfg id 0) (State.init m_buffer) labels = some s →
        s.Fifo cfg id 0 := by
  intro hfifo
  have hlen : (Lib.Traces.run (State.step ⟨128, 1⟩ id 0) (State.init fun _ => 5) smallReads).map
      (fun s => (s.accepted.length, (s.reads.flatMap fun r => r.packet.take r.taken).length)) =
      some (0, 64) := by
    decide +kernel
  obtain ⟨s, hrun, hs⟩ := Option.map_eq_some_iff.1 hlen
  have horder := (hfifo ⟨128, 1⟩ (by decide) (by decide) _ _ s hrun).order.length_le
  rw [List.length_map, (Prod.mk.inj hs).1, (Prod.mk.inj hs).2] at horder
  exact absurd horder (by decide)

end OmegaRed.Spu2.SndBuffer
