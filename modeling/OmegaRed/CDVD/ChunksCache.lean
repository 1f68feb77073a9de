import OmegaRed.CDVD.IsoFile
import Mathlib.Algebra.BigOperators.Group.List.Basic

/-! The cache of decompressed chunks: the last used chunk first, evicted from the other end. -/

namespace OmegaRed.CDVD

open Lib.Memory

namespace ChunksCache

/-- `CacheEntry` -/
structure CacheEntry where
  data : Nat → UInt8
  offset : Int
  coverage : Int
  size : Int

/-- The request is within the chunk's coverage. -/
def CacheEntry.covers (e : CacheEntry) (offset length : Int) : Bool :=
  e.offset ≤ offset && offset + length ≤ e.offset + e.coverage

end ChunksCache

open ChunksCache

structure ChunksCache where
  m_entries : List CacheEntry
  m_size : Int
  m_limit : Int

namespace ChunksCache

def create (initialLimitMb : UInt32) : ChunksCache where
  m_entries := []
  m_size := 0
  m_limit := (initialLimitMb * 1024 * 1024).toNat

/-- The loop of `MatchLimit`, on the entries from the last one on. -/
def evict (removeAll : Bool) (limit : Int) : List CacheEntry → Int → List CacheEntry × Int
  | [], size => ([], size)
  | e :: es, size =>
    if removeAll = true ∨ limit < size then evict removeAll limit es (size - e.size)
    else (e :: es, size)

variable (c : ChunksCache)

def matchLimit (removeAll : Bool) : ChunksCache :=
  let (es, size) := evict removeAll c.m_limit c.m_entries.reverse c.m_size
  { c with m_entries := es.reverse, m_size := size }

def setLimit (megabytes : UInt32) : ChunksCache :=
  { c with m_limit := (megabytes.toNat : Int) * 1024 * 1024 }.matchLimit false

def clear : ChunksCache := c.matchLimit true

def take (e : CacheEntry) : ChunksCache :=
  { c with m_entries := e :: c.m_entries, m_size := c.m_size + e.size }.matchLimit false

/-- `CopyAvailable`; a negative size is a huge one for `memcpy`, which has no result. -/
def copyAvailable (src : Nat → UInt8) (srcOffset srcSize : Int) (dst : Nat → UInt8)
    (dstOffset maxCopySize : Int) : Int × Option (Nat → UInt8) :=
  let available := min ((srcOffset + srcSize - dstOffset).bmod (2 ^ 32)) (max 0 maxCopySize)
  (available, if 0 ≤ available then
      some (store dst 0 (load src (dstOffset - srcOffset).toNat available.toNat))
    else none)

/-- The result, what it leaves of `dest`, and the cache behind. -/
def read (dest : Nat → UInt8) (offset length : Int) :
    (Int × Option (Nat → UInt8)) × ChunksCache :=
  match c.m_entries.find? fun e => e.covers offset length with
  | some e =>
    (copyAvailable e.data e.offset e.size dest offset length,
      { c with m_entries := e :: c.m_entries.eraseP fun e => e.covers offset length })
  | none => ((-1, some dest), c)

/-- A chunk of the file `F`: it holds what `F` has in its coverage. -/
structure CacheEntry.Holds (F : List UInt8) (e : CacheEntry) : Prop where
  offset : 0 ≤ e.offset
  coverage : 0 ≤ e.coverage ∧ e.coverage < 2 ^ 31
  size : e.size = min e.coverage (max 0 (F.length - e.offset))
  data : load e.data 0 e.size.toNat = fread F e.offset.toNat e.size.toNat

/-- The sizes add up within the limit, and every chunk is one of `F`. -/
structure Inv (F : List UInt8) (c : ChunksCache) : Prop where
  size : c.m_size = (c.m_entries.map CacheEntry.size).sum
  le : c.m_size ≤ c.m_limit
  limit : 0 ≤ c.m_limit
  holds : ∀ e ∈ c.m_entries, e.Holds F

theorem CacheEntry.Holds.size_nonneg {F : List UInt8} {e : CacheEntry} (h : e.Holds F) :
    0 ≤ e.size := by
  have hc := h.coverage
  have hs := h.size
  omega

theorem evict_spec (removeAll : Bool) (limit : Int) (es : List CacheEntry) (size : Int) :
    ∃ gone, es = gone ++ (evict removeAll limit es size).1 ∧
      (evict removeAll limit es size).2 = size - (gone.map CacheEntry.size).sum ∧
      ((evict removeAll limit es size).1 = [] ∨ (evict removeAll limit es size).2 ≤ limit) := by
  induction es generalizing size with
  | nil => exact ⟨[], rfl, by simp [evict], Or.inl rfl⟩
  | cons e es ih =>
    rw [evict]
    split
    · obtain ⟨gone, hes, hsize, hfit⟩ := ih (size - e.size)
      refine ⟨e :: gone, ?_, ?_, hfit⟩
      · rw [List.cons_append, ← hes]
      · rw [hsize, List.map_cons, List.sum_cons]
        omega
    · next hkeep =>
      push Not at hkeep
      exact ⟨[], rfl, by simp, Or.inr hkeep.2⟩

variable {c : ChunksCache} {F : List UInt8}

theorem inv_matchLimit (removeAll : Bool) (hlimit : 0 ≤ c.m_limit)
    (hsize : c.m_size = (c.m_entries.map CacheEntry.size).sum)
    (hholds : ∀ e ∈ c.m_entries, e.Holds F) : Inv F (c.matchLimit removeAll) := by
  obtain ⟨gone, hes, hsz, hfit⟩ := evict_spec removeAll c.m_limit c.m_entries.reverse c.m_size
  rw [matchLimit]
  generalize evict removeAll c.m_limit c.m_entries.reverse c.m_size = left at hes hsz hfit ⊢
  have hentries : c.m_entries = left.1.reverse ++ gone.reverse := by
    rw [← List.reverse_append, ← hes, List.reverse_reverse]
  have hsum : left.2 = (left.1.reverse.map CacheEntry.size).sum := by
    rw [hsz, hsize, hentries, List.map_append, List.sum_append, List.map_reverse, List.map_reverse,
      List.sum_reverse, List.sum_reverse]
    omega
  refine ⟨hsum, ?_, hlimit, fun e he => hholds e ?_⟩
  · rcases hfit with hnil | hle
    · simpa [hsum, hnil] using hlimit
    · exact hle
  · rw [hentries]
    exact List.mem_append_left _ he

theorem inv_create (mb : UInt32) : Inv F (create mb) :=
  ⟨rfl, Int.natCast_nonneg _, Int.natCast_nonneg _, by simp [create]⟩

theorem Inv.setLimit (h : Inv F c) (mb : UInt32) : Inv F (c.setLimit mb) :=
  inv_matchLimit false (by simp only; omega) h.size h.holds

theorem Inv.clear (h : Inv F c) : Inv F c.clear := inv_matchLimit true h.limit h.size h.holds

theorem Inv.take (h : Inv F c) {e : CacheEntry} (he : e.Holds F) : Inv F (c.take e) := by
  refine inv_matchLimit false h.limit ?_ ?_
  · rw [List.map_cons, List.sum_cons, ← h.size, add_comm]
  · simpa using ⟨he, h.holds⟩

theorem Inv.read (h : Inv F c) (dest : Nat → UInt8) (offset length : Int) :
    Inv F (c.read dest offset length).2 := by
  rw [ChunksCache.read]
  split
  · next e hfind =>
    have hperm : (e :: c.m_entries.eraseP fun e => e.covers offset length).Perm c.m_entries := by
      obtain ⟨hp, as, bs, heq, has⟩ := List.find?_eq_some_iff_append.mp hfind
      have has' : ∀ a ∈ as, ¬a.covers offset length = true := fun a ha => by simpa using has a ha
      have hbs : (e :: bs).eraseP (fun e => e.covers offset length) = bs :=
        List.eraseP_cons_of_pos hp
      rw [heq, List.eraseP_append_right _ has', hbs]
      exact List.perm_middle.symm
    refine ⟨?_, h.le, h.limit, fun a ha => h.holds a (hperm.subset ha)⟩
    rw [h.size]
    exact (hperm.map CacheEntry.size).sum_eq.symm
  · exact h

/-- A read that finds nothing and changes nothing, or that gives what `F` has of the request. -/
def ReadCorrect (F : List UInt8) (c : ChunksCache) (dest : Nat → UInt8) (offset length : Int) :
    Prop :=
  c.read dest offset length = ((-1, some dest), c) ∨
    (c.read dest offset length).1 = (min length (max 0 (F.length - offset)),
      some (store dest 0 (fread F offset.toNat (min length (max 0 (F.length - offset))).toNat)))

/-- The copy from a chunk is right exactly when the request does not start behind its data. -/
theorem copyAvailable_iff {e : CacheEntry} (he : e.Holds F) (dest : Nat → UInt8)
    {offset length : Int} (hl : 0 ≤ length) (hc : e.covers offset length) :
    copyAvailable e.data e.offset e.size dest offset length =
      (min length (max 0 (F.length - offset)),
        some (store dest 0 (fread F offset.toNat (min length (max 0 (F.length - offset))).toNat))) ↔
    offset ≤ e.offset + e.size := by
  have hco := he.coverage
  have hof := he.offset
  have hsz := he.size
  have hnn := he.size_nonneg
  simp only [CacheEntry.covers, Bool.and_eq_true, decide_eq_true_eq] at hc
  have hmod : (e.offset + e.size - offset).bmod (2 ^ 32) = e.offset + e.size - offset :=
    Int.bmod_eq_of_le (by omega) (by omega)
  rw [copyAvailable, hmod, max_eq_right hl]
  constructor
  · intro h
    have h1 := congrArg Prod.fst h
    simp only at h1
    omega
  · intro hle
    have havail : min (e.offset + e.size - offset) length =
        min length (max 0 (F.length - offset)) := by omega
    have hin : (offset - e.offset).toNat + (min length (max 0 (F.length - offset))).toNat ≤
        e.size.toNat := by omega
    have hpos : e.offset.toNat + (offset - e.offset).toNat = offset.toNat := by omega
    have hload : load e.data (offset - e.offset).toNat (min length (max 0 (F.length - offset))).toNat =
        fread F offset.toNat (min length (max 0 (F.length - offset))).toNat := by
      have hpart := take_drop_load e.data 0 hin
      rw [Nat.zero_add] at hpart
      rw [← hpart, he.data, ← hpos]
      exact fread_fread F _ hin
    rw [if_pos (by omega), havail, hload]

inductive Op
  | take (e : CacheEntry)
  | setLimit (megabytes : UInt32)
  | clear
  | read (dest : Nat → UInt8) (offset length : Int)

/-- A chunk that is taken is one of `F`. -/
def Op.Valid (F : List UInt8) : Op → Prop
  | .take e => e.Holds F
  | _ => True

def step (c : ChunksCache) : Op → ChunksCache
  | .take e => c.take e
  | .setLimit mb => c.setLimit mb
  | .clear => c.clear
  | .read dest offset length => (c.read dest offset length).2

theorem Inv.step (h : Inv F c) {op : Op} (hop : op.Valid F) : Inv F (c.step op) := by
  cases op with
  | take e => exact h.take hop
  | setLimit mb => exact h.setLimit mb
  | clear => exact h.clear
  | read dest offset length => exact h.read dest offset length

theorem Inv.run (h : Inv F c) {ops : List Op} (hops : ∀ op ∈ ops, op.Valid F) :
    Inv F (ops.foldl ChunksCache.step c) := by
  induction ops generalizing c with
  | nil => exact h
  | cons op ops ih =>
    exact ih (h.step (hops op (by simp))) fun o ho => hops o (List.mem_cons_of_mem op ho)

theorem Inv.readCorrect_iff (h : Inv F c) (dest : Nat → UInt8) {offset length : Int}
    (hl : 0 ≤ length) : ReadCorrect F c dest offset length ↔
      ∀ e, c.m_entries.find? (fun e => e.covers offset length) = some e →
        offset ≤ e.offset + e.size := by
  rw [ReadCorrect, ChunksCache.read]
  cases hfind : c.m_entries.find? fun e => e.covers offset length with
  | none => simp
  | some e =>
    have he := h.holds e (List.mem_of_find?_eq_some hfind)
    have hc : e.covers offset length = true :=
      List.find?_some (p := fun e : CacheEntry => e.covers offset length) hfind
    have hiff := copyAvailable_iff he dest hl hc
    have hnot : ¬((copyAvailable e.data e.offset e.size dest offset length,
        { c with m_entries := e :: c.m_entries.eraseP fun e => e.covers offset length }) =
          (((-1 : Int), some dest), c)) := by
      intro heq
      have h1 : copyAvailable e.data e.offset e.size dest offset length = (-1, some dest) :=
        congrArg Prod.fst heq
      rw [copyAvailable] at h1
      obtain ⟨h2, h3⟩ := Prod.mk.inj h1
      rw [if_neg (by omega)] at h3
      exact absurd h3 (by simp)
    simp only [hnot, false_or, Option.some.injEq, forall_eq']
    exact hiff

/-- Whatever was taken, limited, cleared and read before: the sizes add up within the limit, and
a read is right exactly when it does not start behind the data of the chunk it finds. -/
theorem read_correct_iff (F : List UInt8) (initialLimitMb : UInt32) (ops : List Op)
    (hops : ∀ op ∈ ops, op.Valid F) (dest : Nat → UInt8) (offset length : Int) (_h0 : 0 ≤ offset)
    (hl : 0 ≤ length) :
    let c := ops.foldl step (create initialLimitMb)
    c.m_size = (c.m_entries.map CacheEntry.size).sum ∧ c.m_size ≤ c.m_limit ∧
      (ReadCorrect F c dest offset length ↔
        ∀ e, c.m_entries.find? (fun e => e.covers offset length) = some e →
          offset ≤ e.offset + e.size) := by
  have h := (inv_create (F := F) initialLimitMb).run hops
  exact ⟨h.size, h.le, h.readCorrect_iff dest hl⟩

/-- The last chunk of a file of three bytes, which covers four. -/
def lastChunk : CacheEntry where
  data _ := 7
  offset := 0
  coverage := 4
  size := 3

theorem lastChunk_holds : lastChunk.Holds [7, 7, 7] :=
  ⟨by decide, by decide, by decide, by decide⟩

theorem read_correct_lastChunk :
    ReadCorrect [7, 7, 7] ([Op.take lastChunk].foldl step (create 1)) (fun _ => 0) 2 2 := by
  refine (read_correct_iff [7, 7, 7] 1 [.take lastChunk] ?_ (fun _ => 0) 2 2 (by decide)
    (by decide)).2.2.mpr ?_
  · rintro op hop
    rw [List.mem_singleton.mp hop]
    exact lastChunk_holds
  · intro e he
    obtain rfl : e = lastChunk := (Option.some.inj he).symm
    decide

/-- `CLAMP` with a negative upper bound: one byte behind the end of the data, a copy of `-1` bytes. -/
theorem not_readCorrect_lastChunk :
    Op.Valid [7, 7, 7] (.take lastChunk) ∧
      ([Op.take lastChunk].foldl step (create 1)).m_entries = [lastChunk] ∧
      ¬ReadCorrect [7, 7, 7] ([Op.take lastChunk].foldl step (create 1)) (fun _ => 0) 4 0 := by
  refine ⟨lastChunk_holds, rfl, ?_⟩
  rintro (h | h)
  · exact absurd (congrArg (fun r => r.1.2.isSome) h) (by decide)
  · exact absurd (congrArg (fun r => r.1) h) (by decide)

end ChunksCache

end OmegaRed.CDVD
