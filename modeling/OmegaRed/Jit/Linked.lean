import OmegaRed.Lib.Traces
import Mathlib.Data.List.Pairwise
import OmegaRed.Lib.OrderedMaps
import OmegaRed.Lib.Words

/-! The recompiled blocks in the order of their guest addresses, and the jumps between them. -/

namespace OmegaRed.Jit

open Lib Stores

structure BASEBLOCKEX where
  startpc : UInt32
  fnptr : UInt64
  size : UInt16
deriving DecidableEq, Repr

namespace BaseBlockArray

def startsAfter (blocks : List BASEBLOCKEX) (startpc : UInt32) (i : Nat) : Bool :=
  blocks[i]?.any fun b => decide (b.startpc > startpc)

def imin (blocks : List BASEBLOCKEX) (startpc : UInt32) : Nat :=
  Bisect.first (startsAfter blocks startpc) blocks.length 0 blocks.length

def insert (blocks : List BASEBLOCKEX) (startpc : UInt32) (fnptr : UInt64) : List BASEBLOCKEX :=
  let i := imin blocks startpc
  blocks.take i ++ ⟨startpc, fnptr, 0⟩ :: blocks.drop i

def erase (blocks : List BASEBLOCKEX) (first last : Nat) : List BASEBLOCKEX :=
  blocks.take first ++ blocks.drop last

end BaseBlockArray

/-- The blocks, the jumps with the guest address each goes to, and the memory of the code. -/
structure BaseBlocks where
  blocks : List BASEBLOCKEX
  links : List (UInt32 × UInt64)
  code : Nat → UInt8

/-- What a jump to `target` with its operand at `site` holds. -/
def displacement (target site : UInt64) : UInt32 := (target - (site + 4)).toUInt32

namespace BaseBlocks

/-- Point all jumps to `startpc` at `target`. -/
def relink (s : BaseBlocks) (startpc : UInt32) (target : UInt64) : BaseBlocks :=
  { s with
    code := storeWords (fun l => l.2.toNat) (fun l => displacement target l.2) s.code
      (s.links.filter fun l => l.1 == startpc) }

def new (s : BaseBlocks) (startpc : UInt32) (fnptr : UInt64) : BaseBlocks :=
  let s := s.relink startpc fnptr
  { s with blocks := BaseBlockArray.insert s.blocks startpc fnptr }

/-- `none` is -1. -/
def lastIndex (s : BaseBlocks) (startpc : UInt32) : Option Nat :=
  if s.blocks.length = 0 then none
  else some (Bisect.last (BaseBlockArray.startsAfter s.blocks startpc) s.blocks.length 0
    (s.blocks.length - 1))

def index (s : BaseBlocks) (startpc : UInt32) : Option Nat := do
  let idx ← s.lastIndex startpc
  let b ← s.blocks[idx]?
  if startpc < b.startpc ∨
      b.size ≠ 0 ∧ startpc ≥ b.startpc + .ofNat (b.size.toNat * 4) then none else some idx

def get (s : BaseBlocks) (startpc : UInt32) : Option BASEBLOCKEX := do
  let idx ← s.index startpc
  s.blocks[idx]?

def link (recompiler : UInt64) (s : BaseBlocks) (pc : UInt32) (jumpptr : UInt64) : BaseBlocks :=
  let target := match s.get pc with
    | some b => if b.startpc = pc then b.fnptr else recompiler
    | none => recompiler
  { s with
    code := storeWord s.code jumpptr.toNat (displacement target jumpptr)
    links := s.links ++ [(pc, jumpptr)] }

/-- One round of `Remove`.  Development builds put a breakpoint where the block started. -/
def drop (recompiler : UInt64) (isDevBuild : Bool) (s : BaseBlocks) (b : BASEBLOCKEX) :
    BaseBlocks :=
  let s := s.relink b.startpc recompiler
  if isDevBuild then { s with code := Function.update s.code b.fnptr.toNat 0xcc } else s

def remove (recompiler : UInt64) (isDevBuild : Bool) (s : BaseBlocks) (first last : Nat) :
    Option BaseBlocks :=
  if first ≤ last ∧ last < s.blocks.length then
    let t := ((s.blocks.drop first).take (last + 1 - first)).foldl (drop recompiler isDevBuild) s
    some { t with blocks := BaseBlockArray.erase t.blocks first (last + 1) }
  else none

def reset (s : BaseBlocks) : BaseBlocks := { s with blocks := [], links := [] }

/-- What the recompilers do with their blocks: the last is the length they give a block once they
have been through it. -/
inductive Action
  | new (startpc : UInt32) (fnptr : UInt64)
  | link (pc : UInt32) (jumpptr : UInt64)
  | remove (first last : Nat)
  | reset
  | setSize (idx : Nat) (size : UInt16)
deriving DecidableEq, Repr

def step (recompiler : UInt64) (isDevBuild : Bool) (s : BaseBlocks) : Action → Option BaseBlocks
  | .new startpc fnptr => some (s.new startpc fnptr)
  | .link pc jumpptr => some (s.link recompiler pc jumpptr)
  | .remove first last => s.remove recompiler isDevBuild first last
  | .reset => some s.reset
  | .setSize idx size => some { s with blocks := s.blocks.modify idx fun b => { b with size } }

end BaseBlocks

end OmegaRed.Jit

/-! No jump is left to a block that has been removed. -/

namespace OmegaRed.Jit

open Lib Stores Words

variable {blocks : List BASEBLOCKEX} {b : BASEBLOCKEX} {pc : UInt32}

def Sorted (blocks : List BASEBLOCKEX) : Prop := blocks.Pairwise fun b c => b.startpc < c.startpc

/-- The last block that starts at `pc` or before it. -/
structure IsLast (blocks : List BASEBLOCKEX) (pc : UInt32) (i : Nat) (b : BASEBLOCKEX) : Prop where
  get : blocks[i]? = some b
  le : b.startpc ≤ pc
  last : ∀ j c, blocks[j]? = some c → c.startpc ≤ pc → j ≤ i

/-- `pc` is in the block, or the block has no length yet. -/
def Covers (b : BASEBLOCKEX) (pc : UInt32) : Prop :=
  b.size = 0 ∨ pc.toNat < b.startpc.toNat + 4 * b.size.toNat

/-! ## The two searches -/

namespace BaseBlockArray

theorem startsAfter_iff {i : Nat} :
    startsAfter blocks pc i = true ↔ ∃ b, blocks[i]? = some b ∧ pc < b.startpc := by
  simp only [startsAfter, Option.any_eq_true, decide_eq_true_eq, gt_iff_lt]

theorem exists_split (hs : Sorted blocks) (pc : UInt32) :
    ∃ k ≤ blocks.length, ∀ i < blocks.length, (startsAfter blocks pc i = true ↔ k ≤ i) := by
  refine Bisect.exists_first fun i j hij hj hi => ?_
  obtain ⟨b, hb, hlt⟩ := startsAfter_iff.mp hi
  refine startsAfter_iff.mpr ⟨blocks[j], List.getElem?_eq_getElem hj, ?_⟩
  rcases Nat.eq_or_lt_of_le hij with rfl | hij
  · rw [List.getElem?_eq_getElem hj] at hb
    cases hb
    exact hlt
  · have hbi := List.getElem?_eq_some_iff.mp hb
    obtain ⟨hi', rfl⟩ := hbi
    exact UInt32.lt_trans hlt (List.pairwise_iff_getElem.mp hs i j hi' hj hij)

theorem imin_split (hs : Sorted blocks) (pc : UInt32) :
    (∀ b ∈ blocks.take (imin blocks pc), b.startpc ≤ pc) ∧
      ∀ b ∈ blocks.drop (imin blocks pc), pc < b.startpc := by
  obtain ⟨k, hk, hsplit⟩ := exists_split hs pc
  have himin : imin blocks pc = k :=
    Bisect.first_eq (Nat.zero_le k) hk (fun i _ hi => hsplit i hi) (by omega)
  rw [himin]
  constructor
  · intro b hb
    obtain ⟨i, hi, rfl⟩ := List.mem_take_iff_getElem.mp hb
    by_contra hlt
    have hafter := (hsplit i (by omega)).mp
      (startsAfter_iff.mpr ⟨_, List.getElem?_eq_getElem (by omega), UInt32.not_le.mp hlt⟩)
    omega
  · intro b hb
    obtain ⟨i, hi, rfl⟩ := List.mem_drop_iff_getElem.mp hb
    obtain ⟨c, hc, hlt⟩ := startsAfter_iff.mp ((hsplit (k + i) (by omega)).mpr (by omega))
    rw [List.getElem?_eq_getElem (by omega)] at hc
    cases hc
    exact hlt

theorem mem_insert {fnptr : UInt64} :
    b ∈ insert blocks pc fnptr ↔ b = ⟨pc, fnptr, 0⟩ ∨ b ∈ blocks := by
  have hsplit := List.take_append_drop (imin blocks pc) blocks
  rw [insert, List.mem_append, List.mem_cons]
  conv_rhs => rw [← hsplit, List.mem_append]
  exact or_left_comm

theorem sorted_insert (hs : Sorted blocks) (hnew : ∀ b ∈ blocks, b.startpc ≠ pc)
    (fnptr : UInt64) : Sorted (insert blocks pc fnptr) := by
  obtain ⟨hbefore, hafter⟩ := imin_split hs pc
  have hsplit := List.take_append_drop (imin blocks pc) blocks
  rw [Sorted, ← hsplit, List.pairwise_append] at hs
  obtain ⟨htake, hdrop, hcross⟩ := hs
  refine List.pairwise_append.mpr ⟨htake, List.pairwise_cons.mpr ⟨hafter, hdrop⟩, ?_⟩
  intro b hb c hc
  rcases List.mem_cons.mp hc with rfl | hc
  · have hne := hnew b (List.mem_of_mem_take hb)
    exact UInt32.lt_of_le_of_ne (hbefore b hb) hne
  · exact hcross b hb c hc

end BaseBlockArray

namespace BaseBlocks

variable {s t : BaseBlocks} {recompiler : UInt64} {isDevBuild : Bool} {i : Nat}

theorem lastIndex_of_isLast (hs : Sorted s.blocks) (h : IsLast s.blocks pc i b) :
    s.lastIndex pc = some i := by
  obtain ⟨k, hk, hsplit⟩ := BaseBlockArray.exists_split hs pc
  obtain ⟨hi, hb⟩ := List.getElem?_eq_some_iff.mp h.get
  have hik : i < k := by
    by_contra hge
    obtain ⟨c, hc, hlt⟩ := BaseBlockArray.startsAfter_iff.mp ((hsplit i hi).mpr (by omega))
    rw [h.get] at hc
    cases hc
    exact absurd h.le (UInt32.not_le.mpr hlt)
  have hki : k ≤ i + 1 := by
    by_contra hlt
    have hnot := mt (hsplit (i + 1) (by omega)).mp (by omega)
    have hle : s.blocks[i + 1].startpc ≤ pc := by
      by_contra hgt
      exact hnot (BaseBlockArray.startsAfter_iff.mpr
        ⟨_, List.getElem?_eq_getElem (by omega), UInt32.not_le.mp hgt⟩)
    have := h.last (i + 1) _ (List.getElem?_eq_getElem (by omega)) hle
    omega
  rw [lastIndex, if_neg (by omega)]
  refine congrArg some (Bisect.last_eq (Nat.zero_le i) (by omega) (fun j _ hj => ?_) (by omega))
  rw [hsplit j (by omega)]
  omega

theorem exists_isLast (hs : Sorted blocks) (h : ∃ b ∈ blocks, b.startpc ≤ pc) :
    ∃ i b, IsLast blocks pc i b := by
  obtain ⟨k, hk, hsplit⟩ := BaseBlockArray.exists_split hs pc
  obtain ⟨c, hc, hle⟩ := h
  have hbefore {j : Nat} {c : BASEBLOCKEX} (hj : blocks[j]? = some c) :
      c.startpc ≤ pc ↔ j < k := by
    obtain ⟨hlt, rfl⟩ := List.getElem?_eq_some_iff.mp hj
    have hiff := hsplit j hlt
    rw [BaseBlockArray.startsAfter_iff] at hiff
    simp only [hj, Option.some.injEq, exists_eq_left'] at hiff
    rw [← UInt32.not_lt, hiff, Nat.not_le]
  obtain ⟨j, hj⟩ := List.mem_iff_getElem?.mp hc
  have hjk := (hbefore hj).mp hle
  have hget : blocks[k - 1]? = some blocks[k - 1] := List.getElem?_eq_getElem (by omega)
  exact ⟨k - 1, _, hget, (hbefore hget).mpr (by omega),
    fun i d hi hd => by have := (hbefore hi).mp hd; omega⟩

theorem isLast_of_mem (hs : Sorted blocks) (hb : b ∈ blocks) :
    ∃ i, IsLast blocks b.startpc i b := by
  obtain ⟨i, hi⟩ := List.mem_iff_getElem?.mp hb
  obtain ⟨hlt, hget⟩ := List.getElem?_eq_some_iff.mp hi
  refine ⟨i, hi, UInt32.le_refl _, fun j c hj hc => ?_⟩
  obtain ⟨hjlt, rfl⟩ := List.getElem?_eq_some_iff.mp hj
  by_contra hij
  have hbc := List.pairwise_iff_getElem.mp hs i j hlt hjlt (by omega)
  rw [hget] at hbc
  exact absurd hc (UInt32.not_le.mpr hbc)

theorem covers_iff (hsize : b.startpc.toNat + 4 * b.size.toNat < 2 ^ 32) (pc : UInt32) :
    Covers b pc ↔ ¬(b.size ≠ 0 ∧ pc ≥ b.startpc + .ofNat (b.size.toNat * 4)) := by
  have hend : (b.startpc + .ofNat (b.size.toNat * 4)).toNat =
      b.startpc.toNat + 4 * b.size.toNat := by
    rw [UInt32.toNat_add, UInt32.toNat_ofNat']
    omega
  rw [Covers, ge_iff_le, UInt32.le_iff_toNat_le, hend, not_and_or, not_not, Nat.not_le]

theorem index_eq_some_iff (hs : Sorted s.blocks)
    (hsizes : ∀ b ∈ s.blocks, b.startpc.toNat + 4 * b.size.toNat < 2 ^ 32) :
    s.index pc = some i ↔ ∃ b, IsLast s.blocks pc i b ∧ Covers b pc := by
  constructor
  · intro h
    obtain ⟨idx, hlast, h⟩ := Option.bind_eq_some_iff.mp h
    obtain ⟨b, hb, h⟩ := Option.bind_eq_some_iff.mp h
    split at h
    · cases h
    next hin =>
      cases h
      obtain ⟨hle, hcovers⟩ := not_or.mp hin
      have hle := UInt32.not_lt.mp hle
      have hmem := List.mem_of_getElem? hb
      obtain ⟨j, c, hj⟩ := exists_isLast hs ⟨b, hmem, hle⟩
      rw [lastIndex_of_isLast hs hj] at hlast
      cases hlast
      have hc := hj.get
      rw [hb] at hc
      cases hc
      exact ⟨b, hj, (covers_iff (hsizes b hmem) pc).mpr hcovers⟩
  · rintro ⟨b, hlast, hcovers⟩
    have hmem := List.mem_of_getElem? hlast.get
    have hin := (covers_iff (hsizes b hmem) pc).mp hcovers
    simp only [index, lastIndex_of_isLast hs hlast, hlast.get, Option.bind_eq_bind,
      Option.bind_some]
    exact if_neg (not_or.mpr ⟨UInt32.not_lt.mpr hlast.le, hin⟩)

theorem get_eq_some_iff (hs : Sorted s.blocks)
    (hsizes : ∀ b ∈ s.blocks, b.startpc.toNat + 4 * b.size.toNat < 2 ^ 32) :
    s.get pc = some b ↔ ∃ i, IsLast s.blocks pc i b ∧ Covers b pc := by
  constructor
  · intro h
    obtain ⟨i, hi, hb⟩ := Option.bind_eq_some_iff.mp h
    obtain ⟨c, hlast, hcovers⟩ := (index_eq_some_iff hs hsizes).mp hi
    have hc := hlast.get
    rw [hb] at hc
    cases hc
    exact ⟨i, hlast, hcovers⟩
  · rintro ⟨i, hlast, hcovers⟩
    rw [get, (index_eq_some_iff hs hsizes).mpr ⟨b, hlast, hcovers⟩]
    exact hlast.get

/-! ## The jumps -/

/-- The address lies in no operand at `site`. -/
def Outside (site addr : UInt64) : Prop :=
  addr.toNat < site.toNat ∨ site.toNat + 4 ≤ addr.toNat

/-- The jump at `site` goes to the block that starts at `pc`, or else to the recompiler. -/
structure Jumps (recompiler : UInt64) (s : BaseBlocks) (pc : UInt32) (site : UInt64) : Prop where
  block : ∀ b ∈ s.blocks, b.startpc = pc →
    loadWord s.code site.toNat = displacement b.fnptr site
  compile : (∀ b ∈ s.blocks, b.startpc ≠ pc) →
    loadWord s.code site.toNat = displacement recompiler site

/-- What holds between two calls. -/
structure Sound (recompiler : UInt64) (s : BaseBlocks) : Prop where
  sorted : Sorted s.blocks
  sizes : ∀ b ∈ s.blocks, b.startpc.toNat + 4 * b.size.toNat < 2 ^ 32
  apart : s.links.Pairwise fun l l' => Apart l.2.toNat l'.2.toNat
  outside : ∀ l ∈ s.links, ∀ b ∈ s.blocks, Outside l.2 b.fnptr
  jumps : ∀ l ∈ s.links, Jumps recompiler s l.1 l.2

theorem relink_of_eq (hapart : s.links.Pairwise fun l l' => Apart l.2.toNat l'.2.toNat)
    {l : UInt32 × UInt64} (hl : l ∈ s.links) (target : UInt64) :
    loadWord (s.relink l.1 target).code l.2.toNat = displacement target l.2 :=
  loadWord_storeWords (fun l : UInt32 × UInt64 => l.2.toNat) _ (hapart.filter _)
    (List.mem_filter.mpr ⟨hl, beq_self_eq_true l.1⟩)

theorem relink_of_ne (hapart : s.links.Pairwise fun l l' => Apart l.2.toNat l'.2.toNat)
    {l : UInt32 × UInt64} (hl : l ∈ s.links) (hne : l.1 ≠ pc) (target : UInt64) :
    loadWord (s.relink pc target).code l.2.toNat = loadWord s.code l.2.toNat := by
  have hsymm : Std.Symm fun l l' : UInt32 × UInt64 => Apart l.2.toNat l'.2.toNat :=
    ⟨fun _ _ => Apart.symm⟩
  refine loadWord_storeWords_of_apart fun l' hl' => ?_
  obtain ⟨hmem, hpc⟩ := List.mem_filter.mp hl'
  refine hapart.forall hl hmem ?_
  rintro rfl
  exact hne (beq_iff_eq.mp hpc)

theorem Sound.new (h : s.Sound recompiler) (hnew : ∀ b ∈ s.blocks, b.startpc ≠ pc)
    {fnptr : UInt64} (hout : ∀ l ∈ s.links, Outside l.2 fnptr) :
    (s.new pc fnptr).Sound recompiler where
  sorted := BaseBlockArray.sorted_insert h.sorted hnew fnptr
  sizes b hb := by
    rcases BaseBlockArray.mem_insert.mp hb with rfl | hb
    · exact pc.toNat_lt
    · exact h.sizes b hb
  apart := h.apart
  outside l hl b hb := by
    rcases BaseBlockArray.mem_insert.mp hb with rfl | hb
    · exact hout l hl
    · exact h.outside l hl b hb
  jumps l hl := by
    by_cases hpc : l.1 = pc
    · subst hpc
      refine ⟨fun b hb hstart => ?_, fun hnone => ?_⟩
      · rcases BaseBlockArray.mem_insert.mp hb with rfl | hb
        · exact relink_of_eq h.apart hl fnptr
        · exact absurd hstart (hnew b hb)
      · exact absurd rfl (hnone _ (BaseBlockArray.mem_insert.mpr (.inl rfl)))
    · have hcode := relink_of_ne h.apart hl hpc fnptr
      refine ⟨fun b hb hstart => ?_, fun hnone => ?_⟩
      · rcases BaseBlockArray.mem_insert.mp hb with rfl | hb
        · exact absurd hstart.symm hpc
        · exact hcode.trans ((h.jumps l hl).block b hb hstart)
      · exact hcode.trans ((h.jumps l hl).compile fun b hb =>
          hnone b (BaseBlockArray.mem_insert.mpr (.inr hb)))

theorem Sound.get_startpc (h : s.Sound recompiler) (hb : b ∈ s.blocks) :
    s.get b.startpc = some b := by
  obtain ⟨i, hlast⟩ := isLast_of_mem h.sorted hb
  refine (get_eq_some_iff h.sorted h.sizes).mpr ⟨i, hlast, ?_⟩
  by_cases h0 : b.size = 0
  · exact .inl h0
  · have hpos : b.size.toNat ≠ 0 := fun h' => h0 (UInt16.toNat_inj.mp h')
    exact .inr (by omega)

theorem Sound.link_word (h : s.Sound recompiler) (pc : UInt32) (site : UInt64) :
    Jumps recompiler (s.link recompiler pc site) pc site := by
  have hword : loadWord (s.link recompiler pc site).code site.toNat = displacement _ site :=
    loadWord_storeWord _ _ _
  refine ⟨fun b hb hstart => ?_, fun hnone => ?_⟩
  · subst hstart
    rw [hword, h.get_startpc hb]
    simp only [if_true]
  · rw [hword]
    cases hget : s.get pc with
    | none => rfl
    | some b =>
      obtain ⟨i, hlast, -⟩ := (get_eq_some_iff h.sorted h.sizes).mp hget
      simp only [if_neg (hnone b (List.mem_of_getElem? hlast.get))]

theorem Sound.link (h : s.Sound recompiler) {site : UInt64}
    (hapart : ∀ l ∈ s.links, Apart l.2.toNat site.toNat)
    (hout : ∀ b ∈ s.blocks, Outside site b.fnptr) (pc : UInt32) :
    (s.link recompiler pc site).Sound recompiler where
  sorted := h.sorted
  sizes := h.sizes
  apart := by
    refine List.pairwise_append.mpr ⟨h.apart, List.pairwise_singleton _ _, fun l hl l' hl' => ?_⟩
    rw [List.mem_singleton.mp hl']
    exact hapart l hl
  outside l hl := by
    rcases List.mem_append.mp hl with hl | hl
    · exact h.outside l hl
    · rw [List.mem_singleton.mp hl]
      exact hout
  jumps l hl := by
    rcases List.mem_append.mp hl with hl | hl
    · have hcode : loadWord (s.link recompiler pc site).code l.2.toNat =
          loadWord s.code l.2.toNat := loadWord_storeWord_of_apart (hapart l hl) _
      exact ⟨fun b hb hstart => hcode.trans ((h.jumps l hl).block b hb hstart),
        fun hnone => hcode.trans ((h.jumps l hl).compile hnone)⟩
    · rw [List.mem_singleton.mp hl]
      exact h.link_word pc site

/-- Rounds of `Remove` send the jumps to the blocks they are for to the recompiler, and leave the
others. -/
theorem drop_rounds (recompiler : UInt64) (isDevBuild : Bool) {bs : List BASEBLOCKEX}
    (hapart : s.links.Pairwise fun l l' => Apart l.2.toNat l'.2.toNat)
    (hout : ∀ l ∈ s.links, ∀ b ∈ bs, Outside l.2 b.fnptr) :
    let t := bs.foldl (drop recompiler isDevBuild) s
    t.blocks = s.blocks ∧ t.links = s.links ∧ ∀ l ∈ s.links,
      ((∃ b ∈ bs, b.startpc = l.1) → loadWord t.code l.2.toNat = displacement recompiler l.2) ∧
      ((∀ b ∈ bs, b.startpc ≠ l.1) → loadWord t.code l.2.toNat = loadWord s.code l.2.toNat) := by
  induction bs generalizing s with
  | nil => exact ⟨rfl, rfl, fun l _ => ⟨fun ⟨b, hb, _⟩ => (List.not_mem_nil hb).elim, fun _ => rfl⟩⟩
  | cons b bs ih =>
    have hblocks : (s.drop recompiler isDevBuild b).blocks = s.blocks := by
      rw [drop]
      split <;> rfl
    have hlinks : (s.drop recompiler isDevBuild b).links = s.links := by
      rw [drop]
      split <;> rfl
    have hcode {l : UInt32 × UInt64} (hl : l ∈ s.links) :
        loadWord (s.drop recompiler isDevBuild b).code l.2.toNat =
          loadWord (s.relink b.startpc recompiler).code l.2.toNat := by
      rw [drop]
      split
      · exact loadWord_update_of_outside (hout l hl b List.mem_cons_self) _
      · rfl
    obtain ⟨ihblocks, ihlinks, ihcode⟩ := ih (s := s.drop recompiler isDevBuild b)
      (by rw [hlinks]; exact hapart)
      (by rw [hlinks]; exact fun l hl c hc => hout l hl c (List.mem_cons_of_mem b hc))
    rw [hlinks] at ihcode
    refine ⟨ihblocks.trans hblocks, ihlinks.trans hlinks, fun l hl => ?_⟩
    obtain ⟨ihsome, ihnone⟩ := ihcode l hl
    rw [hcode hl] at ihnone
    constructor
    · intro hex
      by_cases hrest : ∃ c ∈ bs, c.startpc = l.1
      · exact ihsome hrest
      · have hnone : ∀ c ∈ bs, c.startpc ≠ l.1 := fun c hc heq => hrest ⟨c, hc, heq⟩
        have hb : b.startpc = l.1 := by
          obtain ⟨c, hc, heq⟩ := hex
          rcases List.mem_cons.mp hc with rfl | hc
          · exact heq
          · exact absurd heq (hnone c hc)
        refine (ihnone hnone).trans ?_
        rw [hb]
        exact relink_of_eq hapart hl recompiler
    · intro hnone
      obtain ⟨hb, hrest⟩ := List.forall_mem_cons.mp hnone
      exact (ihnone hrest).trans (relink_of_ne hapart hl hb.symm recompiler)

theorem blocks_split (blocks : List BASEBLOCKEX) {first last : Nat} (h : first ≤ last) :
    blocks.take first ++ ((blocks.drop first).take (last + 1 - first) ++ blocks.drop (last + 1)) =
      blocks := by
  have hrest := List.take_append_drop (last + 1 - first) (blocks.drop first)
  rw [List.drop_drop, show first + (last + 1 - first) = last + 1 by omega] at hrest
  rw [hrest, List.take_append_drop]

theorem Sound.remove (h : s.Sound recompiler) {first last : Nat} (hle : first ≤ last)
    (hlast : last < s.blocks.length) :
    ∃ t, s.remove recompiler isDevBuild first last = some t ∧ t.Sound recompiler ∧
      t.links = s.links := by
  have hsplit := blocks_split s.blocks hle
  have hsorted := h.sorted
  rw [Sorted, ← hsplit, List.pairwise_append, List.pairwise_append] at hsorted
  obtain ⟨hbefore, ⟨-, hafter, hmid⟩, hfirst⟩ := hsorted
  have hsub {b : BASEBLOCKEX}
      (hb : b ∈ BaseBlockArray.erase s.blocks first (last + 1)) : b ∈ s.blocks := by
    rcases List.mem_append.mp hb with hb | hb
    · exact List.mem_of_mem_take hb
    · exact List.mem_of_mem_drop hb
  have hgone {b c : BASEBLOCKEX} (hb : b ∈ (s.blocks.drop first).take (last + 1 - first))
      (hc : c ∈ BaseBlockArray.erase s.blocks first (last + 1)) : b.startpc ≠ c.startpc := by
    rcases List.mem_append.mp hc with hc | hc
    · exact (UInt32.ne_of_lt (hfirst c hc b (List.mem_append_left _ hb))).symm
    · exact UInt32.ne_of_lt (hmid b hb c hc)
  obtain ⟨hblocks, hlinks, hcode⟩ := drop_rounds recompiler isDevBuild h.apart fun l hl b hb =>
      h.outside l hl b (List.mem_of_mem_drop (List.mem_of_mem_take hb))
  refine ⟨_, if_pos ⟨hle, hlast⟩, ?_, hlinks⟩
  rw [hblocks]
  refine ⟨?_, fun b hb => h.sizes b (hsub hb), by rw [hlinks]; exact h.apart, ?_, ?_⟩
  · exact List.pairwise_append.mpr ⟨hbefore, hafter,
      fun b hb c hc => hfirst b hb c (List.mem_append_right _ hc)⟩
  · rw [hlinks]
    exact fun l hl b hb => h.outside l hl b (hsub hb)
  · rw [hlinks]
    intro l hl
    obtain ⟨hsome, hnone⟩ := hcode l hl
    refine ⟨fun b hb hstart => ?_, fun hleft => ?_⟩
    · refine (hnone fun c hc => hstart ▸ hgone hc hb).trans ?_
      exact (h.jumps l hl).block b (hsub hb) hstart
    · by_cases hex : ∃ b ∈ (s.blocks.drop first).take (last + 1 - first), b.startpc = l.1
      · exact hsome hex
      · have hmid : ∀ b ∈ (s.blocks.drop first).take (last + 1 - first), b.startpc ≠ l.1 :=
          fun b hb heq => hex ⟨b, hb, heq⟩
        refine (hnone hmid).trans ((h.jumps l hl).compile fun b hb => ?_)
        rw [← hsplit, List.mem_append, List.mem_append] at hb
        rcases hb with hb | hb | hb
        · exact hleft b (List.mem_append_left _ hb)
        · exact hmid b hb
        · exact hleft b (List.mem_append_right _ hb)

/-! ## Runs -/

/-- What the recompilers keep to: a block is new where there is none, an operand is code of its own
until the code is reset, blocks are removed that are there, and none reaches the end of the address
space. -/
def Legal (s : BaseBlocks) : Action → Prop
  | .new startpc fnptr =>
    (∀ b ∈ s.blocks, b.startpc ≠ startpc) ∧ ∀ l ∈ s.links, Outside l.2 fnptr
  | .link _ jumpptr =>
    (∀ l ∈ s.links, Apart l.2.toNat jumpptr.toNat) ∧ ∀ b ∈ s.blocks, Outside jumpptr b.fnptr
  | .remove first last => first ≤ last ∧ last < s.blocks.length
  | .reset => True
  | .setSize idx size => ∀ b ∈ s.blocks[idx]?, b.startpc.toNat + 4 * size.toNat < 2 ^ 32

instance (site addr : UInt64) : Decidable (Outside site addr) :=
  inferInstanceAs (Decidable (_ ∨ _))

instance (s : BaseBlocks) : ∀ a, Decidable (s.Legal a)
  | .new .. => @instDecidableAnd _ _ (List.decidableBAll _ _) (List.decidableBAll _ _)
  | .link .. =>
    @instDecidableAnd _ _ (List.decidableBAll (fun _ : UInt32 × UInt64 => _ ∨ _) _)
      (List.decidableBAll _ _)
  | .remove .. => inferInstanceAs (Decidable (_ ∧ _))
  | .reset => isTrue trivial
  | .setSize .. => @Option.decidableForallMem _ _ (fun _ => Nat.decLt _ _) _

/-- The jumps that have been linked since the last `Reset`. -/
def linked (jumps : List (UInt32 × UInt64)) : Action → List (UInt32 × UInt64)
  | .link pc jumpptr => jumps ++ [(pc, jumpptr)]
  | .reset => []
  | _ => jumps

theorem Sound.setSize (h : s.Sound recompiler) {idx : Nat} {size : UInt16}
    (hsize : ∀ b, s.blocks[idx]? = some b → b.startpc.toNat + 4 * size.toNat < 2 ^ 32) :
    Sound recompiler { s with blocks := s.blocks.modify idx fun b => { b with size } } := by
  have hget {j : Nat} {c : BASEBLOCKEX}
      (hc : (s.blocks.modify idx fun b => { b with size })[j]? = some c) :
      ∃ b, s.blocks[j]? = some b ∧ c.startpc = b.startpc ∧ c.fnptr = b.fnptr ∧
        c.startpc.toNat + 4 * c.size.toNat < 2 ^ 32 := by
    rw [List.getElem?_modify] at hc
    obtain ⟨b, hb, rfl⟩ := Option.map_eq_some_iff.mp hc
    have hold := h.sizes b (List.mem_of_getElem? hb)
    refine ⟨b, hb, ?_⟩
    split
    next heq => exact ⟨rfl, rfl, hsize b (heq ▸ hb)⟩
    · exact ⟨rfl, rfl, hold⟩
  have hmem {c : BASEBLOCKEX} (hc : c ∈ s.blocks.modify idx fun b => { b with size }) :
      ∃ b ∈ s.blocks, c.startpc = b.startpc ∧ c.fnptr = b.fnptr ∧
        c.startpc.toNat + 4 * c.size.toNat < 2 ^ 32 := by
    obtain ⟨j, hj⟩ := List.mem_iff_getElem?.mp hc
    obtain ⟨b, hb, hrest⟩ := hget hj
    exact ⟨b, List.mem_of_getElem? hb, hrest⟩
  refine ⟨?_, fun c hc => ?_, h.apart, fun l hl c hc => ?_, fun l hl => ⟨fun c hc hstart => ?_, ?_⟩⟩
  · refine List.pairwise_iff_getElem.mpr fun i j hi hj hij => ?_
    obtain ⟨b, hb, hstart, -⟩ := hget (List.getElem?_eq_getElem hi)
    obtain ⟨b', hb', hstart', -⟩ := hget (List.getElem?_eq_getElem hj)
    obtain ⟨hi', rfl⟩ := List.getElem?_eq_some_iff.mp hb
    obtain ⟨hj', rfl⟩ := List.getElem?_eq_some_iff.mp hb'
    rw [hstart, hstart']
    exact List.pairwise_iff_getElem.mp h.sorted i j hi' hj' hij
  · obtain ⟨-, -, -, -, hend⟩ := hmem hc
    exact hend
  · obtain ⟨b, hb, -, hfn, -⟩ := hmem hc
    rw [hfn]
    exact h.outside l hl b hb
  · obtain ⟨b, hb, hpc, hfn, -⟩ := hmem hc
    rw [hfn]
    exact (h.jumps l hl).block b hb (hpc ▸ hstart)
  · intro hnone
    refine (h.jumps l hl).compile fun b hb hstart => ?_
    obtain ⟨j, hj⟩ := List.mem_iff_getElem?.mp hb
    refine hnone (if idx = j then { b with size } else b) (List.mem_of_getElem? (i := j) ?_) ?_
    · rw [List.getElem?_modify, hj]
      rfl
    · split <;> exact hstart

theorem Sound.step (isDevBuild : Bool) (h : s.Sound recompiler) {a : Action} (ha : s.Legal a) :
    ∃ t, step recompiler isDevBuild s a = some t ∧ t.Sound recompiler ∧
      t.links = linked s.links a := by
  cases a with
  | new startpc fnptr => exact ⟨_, rfl, h.new ha.1 ha.2, rfl⟩
  | link pc jumpptr => exact ⟨_, rfl, h.link ha.1 ha.2 pc, rfl⟩
  | remove first last => exact h.remove ha.1 ha.2
  | reset =>
    exact ⟨_, rfl, ⟨.nil, nofun, .nil, nofun, nofun⟩, rfl⟩
  | setSize idx size => exact ⟨_, rfl, h.setSize ha, rfl⟩

theorem Sound.run (h : s.Sound recompiler) {actions : List Action}
    (hlegal : Traces.Meets (BaseBlocks.step recompiler isDevBuild) Legal s actions) :
    ∃ t, Traces.run (BaseBlocks.step recompiler isDevBuild) s actions = some t ∧
      t.Sound recompiler ∧ t.links = actions.foldl linked s.links := by
  induction actions generalizing s with
  | nil => exact ⟨s, rfl, h, rfl⟩
  | cons a actions ih =>
    obtain ⟨r, hr, hsound, hlinks⟩ := h.step isDevBuild hlegal.1
    obtain ⟨t, ht, hsound', hlinks'⟩ := ih hsound (hlegal.2 r hr)
    refine ⟨t, ?_, hsound', ?_⟩
    · rw [Traces.run, hr, Option.bind_some, ht]
    · rw [hlinks', hlinks, List.foldl_cons]

/-- The blocks in order, what the searches find, and where the jumps in `links` go. -/
structure Linked (recompiler : UInt64) (jumps : List (UInt32 × UInt64)) (s : BaseBlocks) :
    Prop where
  sorted : Sorted s.blocks
  lastIndex : ∀ pc, (∃ b ∈ s.blocks, b.startpc ≤ pc) →
    ∃ i b, s.lastIndex pc = some i ∧ IsLast s.blocks pc i b
  index : ∀ pc i, s.index pc = some i ↔ ∃ b, IsLast s.blocks pc i b ∧ Covers b pc
  get : ∀ pc b, s.get pc = some b ↔ ∃ i, IsLast s.blocks pc i b ∧ Covers b pc
  jumps : ∀ l ∈ jumps, Jumps recompiler s l.1 l.2

/-- Every legal run, from whatever code there is, links every jump to the block that starts at its
target, or to the recompiler. -/
theorem linked_run (recompiler : UInt64) (isDevBuild : Bool) (code : Nat → UInt8)
    {actions : List Action}
    (hlegal : Traces.Meets (step recompiler isDevBuild) Legal ⟨[], [], code⟩ actions) :
    ∃ s, Traces.run (step recompiler isDevBuild) ⟨[], [], code⟩ actions = some s ∧
      s.Linked recompiler (actions.foldl linked []) := by
  have hempty : Sound recompiler ⟨[], [], code⟩ := ⟨.nil, nofun, .nil, nofun, nofun⟩
  obtain ⟨s, hrun, h, hlinks⟩ := hempty.run hlegal
  refine ⟨s, hrun, h.sorted, fun pc hex => ?_, fun pc i => index_eq_some_iff h.sorted h.sizes,
    fun pc b => get_eq_some_iff h.sorted h.sizes, ?_⟩
  · obtain ⟨i, b, hlast⟩ := exists_isLast h.sorted hex
    exact ⟨i, b, lastIndex_of_isLast h.sorted hlast, hlast⟩
  · rw [← hlinks]
    exact h.jumps

/-- A jump that is linked before its block is there, and the block removed again. -/
theorem linked_run_removed :
    ∃ s, Traces.run (step 0x100 true) ⟨[], [], fun _ => 0⟩
        [.link 0x20 0x1002, .new 0x20 0x2000, .setSize 0 4, .new 0x10 0x3000, .remove 1 1] =
          some s ∧ s.Linked 0x100 [(0x20, 0x1002)] :=
  linked_run 0x100 true (fun _ => 0) (by decide +kernel)

end BaseBlocks

end OmegaRed.Jit
