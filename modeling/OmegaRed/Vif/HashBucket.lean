import Mathlib.Logic.Function.Basic
import OmegaRed.Lib.Traces

/-! `HashBucket`, the cache of the unpack blocks that are compiled. -/

namespace OmegaRed.Vif

open Lib

/-- `startPtr` is the `value` of the other half of the union. -/
structure NVifBlock where
  hash_key : UInt16
  length : UInt16
  key0 : UInt32
  key1 : UInt32
  startPtr : UInt64
  deriving DecidableEq

namespace NVifBlock

/-- The cell that ends a chain, all zero. -/
def empty : NVifBlock := ⟨0, 0, 0, 0, 0⟩

/-- The comparison of `find`, within one chain. -/
def keysEq (b q : NVifBlock) : Bool := b.key0 == q.key0 && b.key1 == q.key1

def SameKeys (b q : NVifBlock) : Prop :=
  b.hash_key = q.hash_key ∧ b.key0 = q.key0 ∧ b.key1 = q.key1

end NVifBlock

/-- Each chain with the cells that are allocated for it; `none` for the null pointer. -/
structure HashBucket where
  m_bucket : UInt16 → Option (List NVifBlock)

namespace HashBucket

/-- The loop of `find`; no value where it leaves the chain's memory. -/
def findIn (q : NVifBlock) : List NVifBlock → Option (Option NVifBlock)
  | [] => none
  | chainpos :: rest =>
    if chainpos.keysEq q then some (some chainpos)
    else if chainpos.startPtr = 0 then some none
    else findIn q rest

def find (h : HashBucket) (dataPtr : NVifBlock) : Option (Option NVifBlock) :=
  (h.m_bucket dataPtr.hash_key).bind (findIn dataPtr)

def sizeOf : List NVifBlock → Option Nat
  | [] => none
  | chainpos :: rest => if chainpos.startPtr ≠ 0 then (sizeOf rest).map (· + 1) else some 0

def bucket_size (h : HashBucket) (dataPtr : NVifBlock) : Option Nat :=
  (h.m_bucket dataPtr.hash_key).bind sizeOf

/-- The cells before the empty one are kept, the block is put in its place and a new empty one
behind. -/
def add (h : HashBucket) (dataPtr : NVifBlock) : Option HashBucket := do
  let cells ← h.m_bucket dataPtr.hash_key
  let size ← h.bucket_size dataPtr
  return ⟨Function.update h.m_bucket dataPtr.hash_key
    (some (cells.take size ++ [dataPtr, .empty]))⟩

def reset : HashBucket := ⟨fun _ => some [.empty]⟩

end HashBucket

/-- What `dVifUnpack` reads of the unit and of its registers. -/
structure UnpackRegs where
  cmd : UInt32
  usn : UInt8
  start_aligned : UInt8
  num : UInt32
  mask : UInt32
  mode : UInt32
  cl : UInt8
  wl : UInt8

/-- The block that `dVifUnpack` looks for. -/
def dVifUnpackBlock (r : UnpackRegs) (isFill : Bool) : NVifBlock :=
  let upkType := (r.cmd &&& (0x1f : UInt32)).toUInt8 ||| (r.usn <<< 5)
  let doMask := isFill || r.cmd &&& 0x10 != 0
  let hash_key : UInt32 := upkType.toUInt32 <<< 8 ||| (r.num &&& 0xff)
  let key1 : UInt32 := (r.wl.toUInt32 <<< 24) ||| (r.cl.toUInt32 <<< 16) |||
    ((r.start_aligned.toUInt32 &&& 0xff) <<< 8) ||| (r.mode &&& 0xff)
  let key1 := if upkType &&& 0xf ≠ 9 then key1 &&& 0xffff01ff else key1
  let key0 := if doMask then r.mask else 0
  ⟨hash_key.toUInt16, 0, key0, key1, 0⟩

inductive HashBucket.Op
  | add (dataPtr : NVifBlock)
  | reset

/-- A cache with the blocks that were added since the last reset. -/
structure Cached where
  bucket : HashBucket
  added : List NVifBlock

namespace Cached

def start : Cached := ⟨.reset, []⟩

def step (s : Cached) : HashBucket.Op → Option Cached
  | .add b => (s.bucket.add b).map fun h => ⟨h, s.added ++ [b]⟩
  | .reset => some start

/-- A block is added with its code, and after `find` has returned null for it. -/
def AfterMiss (s : Cached) (op : HashBucket.Op) : Prop :=
  ∀ b, op = .add b → b.startPtr ≠ 0 ∧ s.bucket.find b = some none

/-- `find` returns a block with these keys when one was added, and null when none was. -/
structure Finds (s : Cached) (q : NVifBlock) : Prop where
  hit : (∃ b ∈ s.added, b.SameKeys q) →
    ∃ c, s.bucket.find q = some (some c) ∧ c.startPtr ≠ 0 ∧ c.SameKeys q
  miss : (¬∃ b ∈ s.added, b.SameKeys q) → s.bucket.find q = some none

/-! ## What the chains hold -/

/-- Each chain is the blocks with its hash key, in the order in which they were added, and the
empty cell. -/
structure Inv (s : Cached) : Prop where
  chains : ∀ k, s.bucket.m_bucket k = some (s.added.filter (·.hash_key == k) ++ [.empty])
  code : ∀ b ∈ s.added, b.startPtr ≠ 0
  keyed : ∀ b ∈ s.added, b.key0 ≠ 0 ∨ b.key1 ≠ 0

end Cached

namespace HashBucket

variable {bs : List NVifBlock}

theorem keysEq_empty (q : NVifBlock) :
    NVifBlock.empty.keysEq q = (q.key0 == 0 && q.key1 == 0) := by
  rw [NVifBlock.keysEq, NVifBlock.empty, Bool.beq_comm (a := q.key0), Bool.beq_comm (a := q.key1)]

/-- The walk through a chain ends at the first block with the keys, and else at the empty cell,
which is itself returned for the keys 0 and 0. -/
theorem findIn_append (h : ∀ b ∈ bs, b.startPtr ≠ 0) (q : NVifBlock) :
    findIn q (bs ++ [.empty]) = match bs.find? (·.keysEq q) with
      | some b => some (some b)
      | none => if q.key0 == 0 && q.key1 == 0 then some (some .empty) else some none := by
  induction bs with
  | nil =>
    rw [List.nil_append, findIn, keysEq_empty]
    rfl
  | cons b bs ih =>
    rw [List.cons_append, findIn, List.find?_cons]
    cases b.keysEq q with
    | true => rfl
    | false =>
      rw [if_neg Bool.false_ne_true, if_neg (h b List.mem_cons_self)]
      exact ih fun c hc => h c (List.mem_cons_of_mem b hc)

theorem sizeOf_append (h : ∀ b ∈ bs, b.startPtr ≠ 0) :
    HashBucket.sizeOf (bs ++ [.empty]) = some bs.length := by
  induction bs with
  | nil => rfl
  | cons b bs ih =>
    rw [List.cons_append, HashBucket.sizeOf, if_pos (h b List.mem_cons_self),
      ih fun c hc => h c (List.mem_cons_of_mem b hc)]
    rfl

end HashBucket

namespace Cached

open HashBucket

variable {s t : Cached}

theorem Inv.find_eq (h : Inv s) (q : NVifBlock) :
    s.bucket.find q = match (s.added.filter (·.hash_key == q.hash_key)).find? (·.keysEq q) with
      | some b => some (some b)
      | none => if q.key0 == 0 && q.key1 == 0 then some (some .empty) else some none := by
  rw [HashBucket.find, h.chains, Option.bind_some, findIn_append]
  exact fun b hb => h.code b (List.mem_filter.mp hb).1

theorem Inv.bucket_size_eq (h : Inv s) (q : NVifBlock) :
    s.bucket.bucket_size q = some (s.added.filter (·.hash_key == q.hash_key)).length := by
  rw [bucket_size, h.chains, Option.bind_some, sizeOf_append]
  exact fun b hb => h.code b (List.mem_filter.mp hb).1

theorem Inv.add_eq (h : Inv s) (b : NVifBlock) :
    s.bucket.add b = some ⟨Function.update s.bucket.m_bucket b.hash_key
      (some (s.added.filter (·.hash_key == b.hash_key) ++ [b, .empty]))⟩ := by
  rw [HashBucket.add, h.bucket_size_eq, h.chains]
  simp

theorem inv_start : Inv start :=
  ⟨fun _ => rfl, fun _ hb => absurd hb List.not_mem_nil, fun _ hb => absurd hb List.not_mem_nil⟩

theorem Inv.keyed_of_miss (h : Inv s) {b : NVifBlock} (hmiss : s.bucket.find b = some none) :
    b.key0 ≠ 0 ∨ b.key1 ≠ 0 := by
  rw [h.find_eq] at hmiss
  split at hmiss
  · cases hmiss
  · split at hmiss
    · cases hmiss
    next hk =>
      rw [Bool.and_eq_true, beq_iff_eq, beq_iff_eq, not_and_or] at hk
      exact hk

theorem Inv.step (h : Inv s) {op : HashBucket.Op} (hop : AfterMiss s op)
    (hstep : step s op = some t) : Inv t := by
  cases op with
  | reset =>
    cases hstep
    exact inv_start
  | add b =>
    obtain ⟨hcode, hmiss⟩ := hop b rfl
    rw [Cached.step, h.add_eq, Option.map_some] at hstep
    cases hstep
    refine ⟨fun k => ?_, ?_, ?_⟩
    · rcases eq_or_ne k b.hash_key with rfl | hk
      · simp
      · simp [Function.update_of_ne hk, h.chains, hk.symm]
    · simp only [List.mem_append, List.mem_singleton]
      rintro c (hc | rfl)
      · exact h.code c hc
      · exact hcode
    · simp only [List.mem_append, List.mem_singleton]
      rintro c (hc | rfl)
      · exact h.keyed c hc
      · exact h.keyed_of_miss hmiss

theorem Inv.exists_run (h : Inv s) {ops : List HashBucket.Op}
    (hops : Traces.Meets Cached.step AfterMiss s ops) :
    ∃ t, Traces.run Cached.step s ops = some t ∧ Inv t := by
  induction ops generalizing s with
  | nil => exact ⟨s, rfl, h⟩
  | cons op ops ih =>
    obtain ⟨t, ht⟩ : ∃ t, Cached.step s op = some t := by
      cases op with
      | reset => exact ⟨start, rfl⟩
      | add b => exact ⟨_, by rw [Cached.step, h.add_eq, Option.map_some]⟩
    obtain ⟨u, hu, hinv⟩ := ih (h.step hops.1 ht) (hops.2 t ht)
    exact ⟨u, by rw [Traces.run, ht, Option.bind_some, hu], hinv⟩

/-! ## What is found -/

theorem sameKeys_of_find? {q b : NVifBlock} {bs : List NVifBlock}
    (h : (bs.filter (·.hash_key == q.hash_key)).find? (·.keysEq q) = some b) :
    b ∈ bs ∧ b.SameKeys q := by
  have hk := List.find?_some h
  obtain ⟨hmem, hhash⟩ := List.mem_filter.mp (List.mem_of_find?_eq_some h)
  rw [NVifBlock.keysEq, Bool.and_eq_true, beq_iff_eq, beq_iff_eq] at hk
  exact ⟨hmem, beq_iff_eq.mp hhash, hk⟩

theorem not_sameKeys_of_find? {q : NVifBlock} {bs : List NVifBlock}
    (h : (bs.filter (·.hash_key == q.hash_key)).find? (·.keysEq q) = none) :
    ¬∃ b ∈ bs, b.SameKeys q := by
  rintro ⟨b, hb, hhash, hk⟩
  have hno := List.find?_eq_none.mp h b (List.mem_filter.mpr ⟨hb, beq_iff_eq.mpr hhash⟩)
  rw [NVifBlock.keysEq, Bool.and_eq_true, beq_iff_eq, beq_iff_eq] at hno
  exact hno hk

theorem Inv.finds_iff (h : Inv s) (q : NVifBlock) : Finds s q ↔ q.key0 ≠ 0 ∨ q.key1 ≠ 0 := by
  cases hfind : (s.added.filter (·.hash_key == q.hash_key)).find? (·.keysEq q) with
  | some b =>
    obtain ⟨hmem, hsame⟩ := sameKeys_of_find? hfind
    have heq : s.bucket.find q = some (some b) := by rw [h.find_eq, hfind]
    constructor
    · intro _
      rw [← hsame.2.1, ← hsame.2.2]
      exact h.keyed b hmem
    · intro _
      exact ⟨fun _ => ⟨b, heq, h.code b hmem, hsame⟩, fun hno => absurd ⟨b, hmem, hsame⟩ hno⟩
  | none =>
    have hno := not_sameKeys_of_find? hfind
    have heq : s.bucket.find q =
        if q.key0 == 0 && q.key1 == 0 then some (some .empty) else some none := by
      rw [h.find_eq, hfind]
    constructor
    · intro hs
      exact h.keyed_of_miss (hs.miss hno)
    · intro hk
      refine ⟨fun hex => absurd hex hno, fun _ => ?_⟩
      rw [heq, if_neg]
      rw [Bool.and_eq_true, beq_iff_eq, beq_iff_eq, not_and_or]
      exact hk

/-- The cache finds what was added and nothing else, except for the keys 0 and 0, for which it
never returns null. -/
theorem finds_run_iff {ops : List HashBucket.Op}
    (hops : Traces.Meets step AfterMiss start ops) :
    ∃ s, Traces.run step start ops = some s ∧
      ∀ q, Finds s q ↔ q.key0 ≠ 0 ∨ q.key1 ≠ 0 := by
  obtain ⟨s, hrun, hinv⟩ := inv_start.exists_run hops
  exact ⟨s, hrun, hinv.finds_iff⟩

/-- After one block for CL = WL = 1. -/
theorem finds_run_iff_add :
    ∃ s, Traces.run step start [.add ⟨0x6c01, 16, 0, 0x01010000, 0x10000⟩] = some s ∧
      ∀ q, Finds s q ↔ q.key0 ≠ 0 ∨ q.key1 ≠ 0 := by
  apply finds_run_iff
  refine ⟨fun b hb => ?_, fun _ _ => trivial⟩
  cases hb
  exact ⟨by decide, rfl⟩

/-- An unpack with CL = WL = 0, the mask and the mode 0, is given the empty cell of an empty
cache. -/
theorem not_finds_run :
    ¬∀ ops, Traces.Meets step AfterMiss start ops →
      ∃ s, Traces.run step start ops = some s ∧ ∀ q, Finds s q := by
  intro h
  obtain ⟨s, hrun, hs⟩ := h [] trivial
  cases hrun
  have hmiss := (hs (dVifUnpackBlock ⟨0x6c, 0, 0, 1, 0, 0, 0, 0⟩ true)).miss (by simp [start])
  exact absurd hmiss (by decide)

end Cached

end OmegaRed.Vif
