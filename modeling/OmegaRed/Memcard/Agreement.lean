import OmegaRed.Memcard.Directory
import OmegaRed.Memcard.WalkInside

/-! When the walks over a directory agree on the entries that it has. -/

namespace OmegaRed.Memcard.FolderMemoryCard

open Lib.Walks Relation MemoryCardFileEntryTreeNode

/-- The directory that some parents lead to from the one with the given first cluster and length. -/
def dirOf (d : Nat × Nat) : List MemoryCardFileEntry → Nat × Nat
  | [] => d
  | entry :: _ => (entry.cluster, entry.length)

variable {card : FolderMemoryCard} {d : Nat × Nat}

/-- A call of the walk that is where the directory's chain and its length say. -/
structure InPlace (card : FolderMemoryCard) (d : Nat × Nat) (parent : List MemoryCardFileEntry)
    (c r index : Nat) : Prop where
  reach : ReflTransGen card.Subdirectory d (dirOf d parent)
  chain : ∃ j, index = 2 * j ∧ card.chainAt (dirOf d parent).1 j = some c
  rest : r + index = (dirOf d parent).2

variable {parent : List MemoryCardFileEntry} {c r index : Nat}

theorem dirOf_lt (hd : d.2 < 2 ^ 32) (parent : List MemoryCardFileEntry) :
    (dirOf d parent).2 < 2 ^ 32 := by
  cases parent with
  | nil => exact hd
  | cons entry _ => exact entry.length_lt

theorem InPlace.entryAt (h : InPlace card d parent c r index) {i : Nat} (hi : i < min r 2) :
    index + i < (dirOf d parent).2 ∧
      card.entryAt (dirOf d parent).1 (index + i) = some ((card.fileEntries c).entries i) := by
  obtain ⟨j, rfl, hj⟩ := h.chain
  have hrest := h.rest
  refine ⟨by omega, ?_⟩
  rw [FolderMemoryCard.entryAt, show (2 * j + i) / 2 = j by omega,
    show (2 * j + i) % 2 = i by omega, hj]
  rfl

theorem InPlace.subdir (h : InPlace card d parent c r index) {i : Nat} (hi : i < min r 2)
    (hlive : ((card.fileEntries c).entries i).isLive)
    (hsub : ((card.fileEntries c).entries i).isSubdir) :
    InPlace card d ((card.fileEntries c).entries i :: parent)
      ((card.fileEntries c).entries i).cluster ((card.fileEntries c).entries i).length 0 := by
  obtain ⟨hlt, hentry⟩ := h.entryAt hi
  exact ⟨h.reach.tail ⟨_, hlt, _, hentry, hlive, hsub, rfl⟩, ⟨0, rfl, rfl⟩, rfl⟩

/-- Every directory's chain ends with its length. -/
def AllFit (card : FolderMemoryCard) (d : Nat × Nat) : Prop :=
  ∀ d', ReflTransGen card.Subdirectory d d' → card.ChainFits d'.1 d'.2

theorem InPlace.next (h : InPlace card d parent c r index) (hd : d.2 < 2 ^ 32)
    (hfit : AllFit card d) (hnext : card.fatAt c % 2 ^ 31 ≠ lastDataCluster) :
    2 ≤ r ∧ u32Sub r 2 = r - 2 ∧
      InPlace card d parent (card.fatAt c % 2 ^ 31) (u32Sub r 2) (index + 2) := by
  obtain ⟨j, rfl, hj⟩ := h.chain
  have hchain : card.chainAt (dirOf d parent).1 (j + 1) = some (card.fatAt c % 2 ^ 31) := by
    rw [chainAt, hj, Option.bind_some, if_neg hnext]
  have hlen := hfit _ h.reach (j + 1) (hchain ▸ rfl)
  have hrest := h.rest
  have hlt := dirOf_lt hd parent
  have hsub : u32Sub r 2 = r - 2 := by
    rw [u32Sub, u32]
    omega
  refine ⟨by omega, hsub, h.reach, ⟨j + 1, rfl, hchain⟩, ?_⟩
  rw [hsub]
  omega

/-- A walk that ends inside the FAT. -/
def Inside (card : FolderMemoryCard) (a : Place) : Prop :=
  Ends (Place.calls card) a ∧
    ∀ b, Reaches (Place.calls card) a b → ∀ n ∈ b.found card Trace.read, InFat true n

theorem Inside.tail {a b : Place} (h : Inside card a) (hb : b ∈ Place.calls card a) :
    Inside card b :=
  ⟨h.1.inv hb, fun c hc => h.2 c (.head hb hc)⟩

theorem Inside.last_iff (h : Inside card (.dir parent c r index)) :
    card.fatAt c = lastUsedCluster ↔ card.fatAt c % 2 ^ 31 = lastDataCluster := by
  refine ⟨fun heq => by rw [heq]; rfl, fun heq => ?_⟩
  by_contra hne
  have hcall : Place.dir parent (card.fatAt c % 2 ^ 31) (u32Sub r 2) (index + 2) ∈
      Place.calls card (.dir parent c r index) := by
    rw [Place.calls, if_pos hne]
    exact List.mem_append_right _ List.mem_cons_self
  have hin := h.2 _ (.single hcall) lastDataCluster (by
    rw [Place.found, heq]
    exact List.mem_append_right _ List.mem_cons_self)
  exact absurd hin (by unfold InFat lastDataCluster; decide)

theorem mem_entryCalls_dir {entry : MemoryCardFileEntry} {p : List MemoryCardFileEntry}
    {c r index : Nat} (h : Place.dir p c r index ∈ Place.entryCalls parent entry) :
    entry.isLive ∧ entry.isSubdir ∧
      Place.dir p c r index = .dir (entry :: parent) entry.cluster entry.length 0 := by
  rw [Place.entryCalls] at h
  split at h
  · next hdir =>
    split at h
    · next hdot =>
      rw [Bool.and_eq_true] at hdir
      exact ⟨hdir.1, by rw [MemoryCardFileEntry.isSubdir, hdir.2, hdot]; rfl,
        List.mem_singleton.mp h⟩
    · exact absurd h List.not_mem_nil
  · split at h
    · split at h
      · exact absurd h List.not_mem_nil
      · exact Place.noConfusion (List.mem_singleton.mp h)
    · exact absurd h List.not_mem_nil

theorem entryCalls_subdir {entry : MemoryCardFileEntry} (hlive : entry.isLive)
    (hsub : entry.isSubdir) :
    Place.entryCalls parent entry = [.dir (entry :: parent) entry.cluster entry.length 0] := by
  rw [MemoryCardFileEntry.isSubdir, Bool.and_eq_true] at hsub
  rw [Place.entryCalls, if_pos (by rw [← MemoryCardFileEntry.isLive, hlive, hsub.1]; rfl),
    if_pos hsub.2]

theorem inPlace_of_reaches {c₀ L : Nat} (hL : L < 2 ^ 32) (hfit : AllFit card (c₀, L))
    (hin : Inside card (.dir [] c₀ L 0)) {b : Place}
    (hb : Reaches (Place.calls card) (.dir [] c₀ L 0) b) :
    Inside card b ∧ ∀ p c r i, b = .dir p c r i → InPlace card (c₀, L) p c r i := by
  induction hb with
  | refl =>
    refine ⟨hin, fun p c r i heq => ?_⟩
    cases heq
    exact ⟨.refl, ⟨0, rfl, rfl⟩, rfl⟩
  | @tail a b _ hcall ih =>
    refine ⟨ih.1.tail hcall, fun p c r i heq => ?_⟩
    subst heq
    cases a with
    | dir p' c' r' i' =>
      have hplace := ih.2 p' c' r' i' rfl
      rcases List.mem_append.mp hcall with hmem | hmem
      · obtain ⟨k, hk, hmem⟩ := List.mem_flatMap.mp hmem
        obtain ⟨hlive, hsub, heq⟩ := mem_entryCalls_dir hmem
        cases heq
        exact hplace.subdir (List.mem_range.mp hk) hlive hsub
      · split at hmem
        · next hne =>
          cases List.mem_singleton.mp hmem
          exact (hplace.next hL hfit fun heq => hne (ih.1.last_iff.mpr heq)).2.2
        · exact absurd hmem List.not_mem_nil
    | file p' e c' k =>
      rw [Calls, Place.calls] at hcall
      split at hcall
      · exact Place.noConfusion (List.mem_singleton.mp hcall)
      · exact absurd hcall List.not_mem_nil

theorem mem_found_examined {x : Examined} {b : Place} (h : x ∈ b.found card Trace.examined) :
    ∃ p c r i, b = .dir p c r i ∧ ∃ k < min r 2, x = ⟨p, i + k, (card.fileEntries c).entries k⟩ := by
  have hown (p : List MemoryCardFileEntry) (i : Nat) (e : MemoryCardFileEntry) :
      (Place.entryOwn p i e).examined = [⟨p, i, e⟩] := by
    rw [Place.entryOwn]
    split <;> rfl
  cases b with
  | dir p c r i =>
    refine ⟨p, c, r, i, rfl, ?_⟩
    rcases List.mem_append.mp h with hx | hx
    · obtain ⟨k, hk, hx⟩ := List.mem_flatMap.mp hx
      rw [hown] at hx
      exact ⟨k, List.mem_range.mp hk, List.mem_singleton.mp hx⟩
    · exact absurd hx List.not_mem_nil
  | file p e c k => exact absurd h List.not_mem_nil

theorem found_examined {p : List MemoryCardFileEntry} {c r i k : Nat} (hk : k < min r 2) :
    (⟨p, i + k, (card.fileEntries c).entries k⟩ : Examined) ∈
      (Place.dir p c r i).found card Trace.examined := by
  refine List.mem_append_left _ (List.mem_flatMap.mpr ⟨k, List.mem_range.mpr hk, ?_⟩)
  exact List.mem_cons_self

theorem mem_examined {c r i fuel : Nat} {t : Trace}
    (h : card.flushFileEntries fuel parent c r i = some t) (x : Examined) : x ∈ t.examined ↔
      ∃ b, Reaches (Place.calls card) (.dir parent c r i) b ∧ x ∈ b.found card Trace.examined := by
  have hrun : Place.run card fuel (.dir parent c r i) = some t := h
  exact (run_records card homomorphic_examined).mem_iff hrun x

/-- The entry is one of the directory it is in, by its number. -/
def Examined.Below (d : Nat × Nat) (x : Examined) : Prop := x.index < (dirOf d x.parent).2

theorem examined_below {c₀ L fuel : Nat} {t : Trace} (hL : L < 2 ^ 32) (hfit : AllFit card (c₀, L))
    (hin : Inside card (.dir [] c₀ L 0)) (ht : card.flushFileEntries fuel [] c₀ L 0 = some t) :
    ∀ x ∈ t.examined, Examined.Below (c₀, L) x := by
  intro x hx
  obtain ⟨b, hb, hx⟩ := (mem_examined ht x).mp hx
  obtain ⟨p, c, r, i, rfl, k, hk, rfl⟩ := mem_found_examined hx
  exact ((inPlace_of_reaches hL hfit hin hb).2 p c r i rfl).entryAt hk |>.1

/-- If only entries below the length are looked at, the chain of a directory that is reached fits,
and the walk goes along all of it. -/
theorem chainFits_of_below {c₀ L : Nat} (hL : L < 2 ^ 32)
    (hbelow : ∀ b, Reaches (Place.calls card) (.dir [] c₀ L 0) b →
      ∀ x ∈ b.found card Trace.examined, Examined.Below (c₀, L) x)
    (hreach : Reaches (Place.calls card) (.dir [] c₀ L 0)
      (.dir parent (dirOf (c₀, L) parent).1 (dirOf (c₀, L) parent).2 0)) (j : Nat) :
    ∀ c, card.chainAt (dirOf (c₀, L) parent).1 j = some c → 2 * j ≤ (dirOf (c₀, L) parent).2 ∧
      Reaches (Place.calls card) (.dir [] c₀ L 0)
        (.dir parent c ((dirOf (c₀, L) parent).2 - 2 * j) (2 * j)) := by
  have hlt := @dirOf_lt (c₀, L) hL parent
  induction j with
  | zero =>
    intro c hc
    obtain rfl := Option.some.inj hc
    exact ⟨Nat.zero_le _, hreach⟩
  | succ j ih =>
    intro c hc
    rw [chainAt, Option.bind_eq_some_iff] at hc
    obtain ⟨c', hc', hnext⟩ := hc
    obtain ⟨hj, hplace⟩ := ih c' hc'
    split at hnext
    · exact absurd hnext (Option.some_ne_none c).symm
    · next hlast =>
      obtain rfl := Option.some.inj hnext
      have hused : card.fatAt c' ≠ lastUsedCluster := fun heq => hlast (by rw [heq]; rfl)
      generalize hr : (dirOf (c₀, L) parent).2 - 2 * j = r at hplace
      have hcall : Place.dir parent (card.fatAt c' % 2 ^ 31) (u32Sub r 2) (2 * j + 2) ∈
          Place.calls card (.dir parent c' r (2 * j)) := by
        rw [Place.calls, if_pos hused]
        exact List.mem_append_right _ List.mem_cons_self
      have hreached := hplace.tail hcall
      by_cases htwo : 2 ≤ r
      · have hsub : u32Sub r 2 = (dirOf (c₀, L) parent).2 - 2 * (j + 1) := by
          rw [u32Sub, u32]
          omega
        rw [hsub] at hreached
        exact ⟨by omega, hreached⟩
      · -- the count has passed zero
        have hwrap : 0 < min (u32Sub r 2) 2 := by
          rw [u32Sub, u32]
          omega
        have hlow := hbelow _ hreached _ (found_examined hwrap)
        change 2 * j + 2 + 0 < (dirOf (c₀, L) parent).2 at hlow
        omega

theorem allFit_of_below {c₀ L : Nat} (hL : L < 2 ^ 32)
    (hbelow : ∀ b, Reaches (Place.calls card) (.dir [] c₀ L 0) b →
      ∀ x ∈ b.found card Trace.examined, Examined.Below (c₀, L) x) : AllFit card (c₀, L) := by
  have hdir (d : Nat × Nat) (h : ReflTransGen card.Subdirectory (c₀, L) d) :
      ∃ parent, dirOf (c₀, L) parent = d ∧
        Reaches (Place.calls card) (.dir [] c₀ L 0) (.dir parent d.1 d.2 0) := by
    induction h with
    | refl => exact ⟨[], rfl, .refl⟩
    | @tail d d' _ hsub ih =>
      obtain ⟨parent, rfl, hreach⟩ := ih
      obtain ⟨n, hn, entry, hentry, hlive, hsubdir, rfl⟩ := hsub
      rw [entryAt, Option.map_eq_some_iff] at hentry
      obtain ⟨c, hc, rfl⟩ := hentry
      obtain ⟨hj, hplace⟩ := chainFits_of_below hL hbelow hreach (n / 2) c hc
      refine ⟨_ :: parent, rfl, hplace.tail (List.mem_append_left _ (List.mem_flatMap.mpr
        ⟨n % 2, List.mem_range.mpr (by omega), ?_⟩))⟩
      rw [entryCalls_subdir hlive hsubdir]
      exact List.mem_cons_self
  intro d hd j hj
  obtain ⟨parent, rfl, hreach⟩ := hdir d hd
  obtain ⟨c, hc⟩ := Option.isSome_iff_exists.mp hj
  exact (chainFits_of_below hL hbelow hreach j c hc).1

section Copy

variable {i count : Nat} {nodes rest : List MemoryCardFileEntryTreeNode}

theorem copyEntries_succ (fuel c i count : Nat) : card.copyEntries (fuel + 1) c i count =
    if i < count then
      (copyNode ((card.fileEntries c).entries (i % 2)) (card.copyEntries fuel
        ((card.fileEntries c).entries (i % 2)).cluster 0
        ((card.fileEntries c).entries (i % 2)).length)).bind fun nodes =>
      if i % 2 = 1 then
        if card.fatAt c % 2 ^ 31 = lastDataCluster then some nodes
        else (card.copyEntries fuel (card.fatAt c % 2 ^ 31) (i + 1) count).map (nodes ++ ·)
      else (card.copyEntries fuel c (i + 1) count).map (nodes ++ ·)
    else some [] := rfl

theorem copy_end (h : ¬ i < count) : Eventually (fun n => card.copyEntries n c i count) [] := by
  refine .of_succ ?_
  simp only [copyEntries_succ, h, if_false]
  exact eventually_const

/-- What is copied for an entry. -/
def Copies (card : FolderMemoryCard) (entry : MemoryCardFileEntry)
    (nodes : List MemoryCardFileEntryTreeNode) : Prop :=
  Eventually (fun n => copyNode entry (card.copyEntries n entry.cluster 0 entry.length)) nodes

theorem copy_even (h : i < count) (heven : i % 2 = 0)
    (hnode : Copies card ((card.fileEntries c).entries 0) nodes)
    (hrest : Eventually (fun n => card.copyEntries n c (i + 1) count) rest) :
    Eventually (fun n => card.copyEntries n c i count) (nodes ++ rest) := by
  refine .of_succ ?_
  simp only [copyEntries_succ, h, if_true, heven, Nat.zero_ne_one, if_false]
  exact hnode.bind (hrest.map (nodes ++ ·))

theorem copy_odd_last (h : i < count) (hodd : i % 2 = 1)
    (hlast : card.fatAt c % 2 ^ 31 = lastDataCluster)
    (hnode : Copies card ((card.fileEntries c).entries 1) nodes) :
    Eventually (fun n => card.copyEntries n c i count) nodes := by
  refine .of_succ ?_
  simp only [copyEntries_succ, h, if_true, hodd, hlast]
  exact hnode.bind eventually_const

theorem copy_odd_next (h : i < count) (hodd : i % 2 = 1)
    (hlast : card.fatAt c % 2 ^ 31 ≠ lastDataCluster)
    (hnode : Copies card ((card.fileEntries c).entries 1) nodes)
    (hrest : Eventually (fun n => card.copyEntries n (card.fatAt c % 2 ^ 31) (i + 1) count) rest) :
    Eventually (fun n => card.copyEntries n c i count) (nodes ++ rest) := by
  refine .of_succ ?_
  simp only [copyEntries_succ, h, if_true, hodd, hlast, if_false]
  exact hnode.bind (hrest.map (nodes ++ ·))

end Copy

/-- The live entries that a walk of `FlushFileEntries` has looked at. -/
def Trace.processed (t : Trace) : List (List MemoryCardFileEntry × MemoryCardFileEntry) :=
  (t.examined.filter fun x => x.entry.isLive).map fun x => (x.parent, x.entry)

theorem homomorphic_processed : Homomorphic Trace.processed :=
  ⟨rfl, fun t u => by rw [Trace.processed, Trace.append, List.filter_append, List.map_append]; rfl⟩

/-- A trace has the entries of a tree. -/
def Same (parent : List MemoryCardFileEntry) (t : Trace)
    (nodes : List MemoryCardFileEntryTreeNode) : Prop :=
  Trace.processed t = nodes.flatMap (paths parent)

theorem Same.append {t u : Trace} {nodes rest : List MemoryCardFileEntryTreeNode}
    (h : Same parent t nodes) (h' : Same parent u rest) :
    Same parent (t.append u) (nodes ++ rest) := by
  rw [Same, homomorphic_processed.append, h, h', List.flatMap_append]

theorem processed_examine (parent : List MemoryCardFileEntry) (index : Nat)
    (entry : MemoryCardFileEntry) : Trace.processed (Trace.examine parent index entry) =
      if entry.isLive then [(parent, entry)] else [] := by
  rw [Trace.processed, Trace.examine, List.filter_cons]
  split <;> rfl

theorem processed_addFileClusters {entry : MemoryCardFileEntry} {fuel c k : Nat} {t : Trace}
    (h : card.addFileClusters parent entry fuel c k = some t) : Trace.processed t = [] := by
  induction fuel generalizing c k t with
  | zero => exact absurd h (Option.some_ne_none t).symm
  | succ fuel ih =>
    rw [addFileClusters_succ] at h
    split at h
    · obtain ⟨u, hu, rfl⟩ := Option.map_eq_some_iff.mp h
      rw [homomorphic_processed.append, ih hu]
      rfl
    · exact Option.some.inj h ▸ rfl

theorem entry_same {fuel : Nat} {entry : MemoryCardFileEntry} {t : Trace}
    (h : card.flushFileEntry
      (fun entry => card.flushFileEntries fuel (entry :: parent) entry.cluster entry.length 0)
      fuel parent index entry = some t)
    (hsubdir : entry.isLive → entry.isSubdir → ∀ u,
      card.flushFileEntries fuel (entry :: parent) entry.cluster entry.length 0 = some u →
      ∃ tree, Eventually (fun n => card.copyEntries n entry.cluster 0 entry.length) tree ∧
        Same (entry :: parent) u tree) :
    ∃ nodes, Copies card entry nodes ∧ Same parent t nodes := by
  have hleaf (hsub : ¬ (entry.isLive ∧ entry.isSubdir))
      (ht : Trace.processed t = if entry.isLive then [(parent, entry)] else []) :
      ∃ nodes, Copies card entry nodes ∧ Same parent t nodes := by
    by_cases hlive : entry.isLive
    · have hno : ¬ entry.isSubdir := fun hs => hsub ⟨hlive, hs⟩
      refine ⟨[node entry []], ?_, ?_⟩
      · simp only [Copies, copyNode, hlive, if_true, hno]
        exact eventually_const
      · rw [Same, ht, if_pos hlive, List.flatMap_singleton, paths_node, List.flatMap_nil]
    · refine ⟨[], ?_, by rw [Same, ht, if_neg hlive]; rfl⟩
      simp only [Copies, copyNode, hlive]
      exact eventually_const
  rw [flushFileEntry] at h
  split at h
  · next hdir =>
    have hlive : entry.isLive := Bool.and_elim_left hdir
    split at h
    · next hdot =>
      have hsub : entry.isSubdir := by
        rw [MemoryCardFileEntry.isSubdir, Bool.and_elim_right hdir, hdot]
        rfl
      obtain ⟨u, hu, rfl⟩ := Option.map_eq_some_iff.mp h
      obtain ⟨tree, htree, hsame⟩ := hsubdir hlive hsub u hu
      refine ⟨[node entry tree], ?_, ?_⟩
      · simp only [Copies, copyNode, hlive, hsub, if_true]
        exact htree.map _
      · rw [Same, homomorphic_processed.append, homomorphic_processed.append, processed_examine,
          if_pos hlive, hsame, List.flatMap_singleton, paths_node]
        rfl
    · next hdot =>
      refine hleaf (fun hs => hdot (Bool.and_elim_right hs.2)) ?_
      rw [← Option.some.inj h, processed_examine]
  · next hdir =>
    have hsub : ¬ (entry.isLive ∧ entry.isSubdir) := fun hs => hdir (by
      rw [← MemoryCardFileEntry.isLive, hs.1, Bool.and_elim_left hs.2]
      rfl)
    split at h
    · obtain ⟨u, hu, rfl⟩ := Option.map_eq_some_iff.mp h
      have hnone : Trace.processed u = [] := by
        rw [addFileEntryToMetadataQuickAccess] at hu
        split at hu
        · exact Option.some.inj hu ▸ rfl
        · exact processed_addFileClusters hu
      refine hleaf hsub ?_
      rw [homomorphic_processed.append, hnone, List.append_nil, processed_examine]
    · refine hleaf hsub ?_
      rw [← Option.some.inj h, processed_examine]

theorem flushEntries_cases {n : Nat} {u : Trace}
    (h : card.flushEntries n parent c r index = some u) :
    ∃ v : Nat → Trace, (∀ i < min r 2, card.flushFileEntry
      (fun entry => card.flushFileEntries n (entry :: parent) entry.cluster entry.length 0)
      n parent (index + i) ((card.fileEntries c).entries i) = some (v i)) ∧
      u = (List.range (min r 2)).foldl (fun t i => t.append (v i)) .empty := by
  have hsome := gather_isSome.mp (show (card.flushEntries n parent c r index).isSome from
    h ▸ rfl)
  let v (i : Nat) : Trace := (card.flushFileEntry
    (fun entry => card.flushFileEntries n (entry :: parent) entry.cluster entry.length 0)
    n parent (index + i) ((card.fileEntries c).entries i)).getD .empty
  have hv (i : Nat) (hi : i ∈ List.range (min r 2)) : card.flushFileEntry
      (fun entry => card.flushFileEntries n (entry :: parent) entry.cluster entry.length 0)
      n parent (index + i) ((card.fileEntries c).entries i) = some (v i) := by
    obtain ⟨w, hw⟩ := Option.isSome_iff_exists.mp (hsome i hi)
    exact hw.trans (congrArg some (by simp only [v, hw, Option.getD_some]))
  refine ⟨v, fun i hi => hv i (List.mem_range.mpr hi), ?_⟩
  have hfold (l : List Nat) (t : Trace) (hl : ∀ i ∈ l, i ∈ List.range (min r 2)) :
      l.foldlM (fun t i => (card.flushFileEntry
        (fun entry => card.flushFileEntries n (entry :: parent) entry.cluster entry.length 0)
        n parent (index + i) ((card.fileEntries c).entries i)).map t.append) t =
      some (l.foldl (fun t i => t.append (v i)) t) := by
    induction l generalizing t with
    | nil => rfl
    | cons i l ih =>
      rw [List.foldlM_cons, hv i (hl i List.mem_cons_self)]
      exact ih _ fun k hk => hl k (List.mem_cons_of_mem i hk)
  exact Option.some.inj (h.symm.trans (hfold _ _ fun i hi => hi))

/-- Where the chains fit, the tree that is copied has the entries that are flushed. -/
theorem copy_same (hd : d.2 < 2 ^ 32) (hfit : AllFit card d) (fuel : Nat) :
    ∀ parent c r index t, InPlace card d parent c r index → Inside card (.dir parent c r index) →
      card.flushFileEntries fuel parent c r index = some t →
      ∃ tree, Eventually (fun n => card.copyEntries n c index (dirOf d parent).2) tree ∧
        Same parent t tree := by
  induction fuel with
  | zero => exact fun _ _ _ _ t _ _ h => absurd h (Option.some_ne_none t).symm
  | succ fuel ih =>
    intro parent c r index t hplace hin h
    rw [flushFileEntries_succ, Option.bind_eq_some_iff] at h
    obtain ⟨u, hu, h⟩ := h
    obtain ⟨v, hv, rfl⟩ := flushEntries_cases hu
    obtain ⟨j, hj, -⟩ := hplace.chain
    have hrest := hplace.rest
    -- the entries of this cluster
    have hentry (i : Nat) (hi : i < min r 2) : ∃ nodes,
        Copies card ((card.fileEntries c).entries i) nodes ∧ Same parent (v i) nodes := by
      refine entry_same (hv i hi) fun hlive hsub w hw => ?_
      refine ih _ _ _ _ w (hplace.subdir hi hlive hsub) (hin.tail ?_) hw
      refine List.mem_append_left _ (List.mem_flatMap.mpr ⟨i, List.mem_range.mpr hi, ?_⟩)
      rw [entryCalls_subdir hlive hsub]
      exact List.mem_cons_self
    have hread : Same parent (.readAt c) [] := rfl
    by_cases hlast : card.fatAt c % 2 ^ 31 = lastDataCluster
    · rw [if_neg (not_not_intro (hin.last_iff.mpr hlast))] at h
      obtain rfl := Option.some.inj h
      obtain rfl | rfl | htwo : r = 0 ∨ r = 1 ∨ 2 ≤ r := by omega
      · exact ⟨[], copy_end (by omega), rfl⟩
      · obtain ⟨nodes, hnodes, hsame⟩ := hentry 0 (by decide)
        have hend : Eventually (fun n => card.copyEntries n c (index + 1) (dirOf d parent).2) [] :=
          copy_end (by omega)
        refine ⟨_, copy_even (by omega) (by omega) hnodes hend, ?_⟩
        exact hsame.append hread
      · have hmin : min r 2 = 2 := Nat.min_eq_right htwo
        obtain ⟨nodes, hnodes, hsame⟩ := hentry 0 (by omega)
        obtain ⟨nodes', hnodes', hsame'⟩ := hentry 1 (by omega)
        refine ⟨_, copy_even (by omega) (by omega) hnodes
          (copy_odd_last (by omega) (by omega) hlast hnodes'), ?_⟩
        rw [hmin]
        have hboth := (hsame.append hsame').append hread
        rwa [List.append_nil] at hboth
    · obtain ⟨htwo, -, hnextPlace⟩ := hplace.next hd hfit hlast
      have hused : card.fatAt c ≠ lastUsedCluster := fun heq => hlast (hin.last_iff.mp heq)
      rw [if_pos hused] at h
      obtain ⟨w, hw, rfl⟩ := Option.map_eq_some_iff.mp h
      have hcall : Place.dir parent (card.fatAt c % 2 ^ 31) (u32Sub r 2) (index + 2) ∈
          Place.calls card (.dir parent c r index) := by
        rw [Place.calls, if_pos hused]
        exact List.mem_append_right _ List.mem_cons_self
      obtain ⟨rest, hcopied, hrestSame⟩ := ih _ _ _ _ w hnextPlace (hin.tail hcall) hw
      have hmin : min r 2 = 2 := Nat.min_eq_right htwo
      obtain ⟨nodes, hnodes, hsame⟩ := hentry 0 (by omega)
      obtain ⟨nodes', hnodes', hsame'⟩ := hentry 1 (by omega)
      refine ⟨_, copy_even (by omega) (by omega) hnodes
        (copy_odd_next (by omega) (by omega) hlast hnodes' hcopied), ?_⟩
      rw [hmin]
      have hall := ((hsame.append hsame').append hread).append hrestSame
      rwa [List.append_nil, List.append_assoc] at hall

theorem map_entry_copyNode {entry : MemoryCardFileEntry}
    {subdir : Option (List MemoryCardFileEntryTreeNode)} {nodes : List MemoryCardFileEntryTreeNode}
    (h : copyNode entry subdir = some nodes) :
    nodes.map MemoryCardFileEntryTreeNode.entry = if entry.isLive then [entry] else [] := by
  rw [copyNode] at h
  split at h
  · next hlive =>
    rw [if_pos hlive]
    split at h
    · obtain ⟨s, -, rfl⟩ := Option.map_eq_some_iff.mp h
      rfl
    · exact Option.some.inj h ▸ rfl
  · next hlive =>
    rw [if_neg hlive]
    exact Option.some.inj h ▸ rfl

theorem findEntry_of_copyEntries (e : MemoryCardFileEntry) {fuel c i count : Nat}
    {tree : List MemoryCardFileEntryTreeNode} (h : card.copyEntries fuel c i count = some tree) :
    card.findEntry e fuel c i count =
      some ((tree.map MemoryCardFileEntryTreeNode.entry).find? (·.equivalent e)) := by
  induction fuel generalizing c i tree with
  | zero => exact absurd h (Option.some_ne_none tree).symm
  | succ fuel ih =>
    rw [copyEntries_succ] at h
    rw [findEntry]
    split at h
    · next hlt =>
      rw [if_pos hlt]
      obtain ⟨nodes, hnodes, h⟩ := Option.bind_eq_some_iff.mp h
      have hmap := map_entry_copyNode hnodes
      generalize (card.fileEntries c).entries (i % 2) = entry at hmap ⊢
      -- the entry is found here, or the search goes on
      have hhere (rest : List MemoryCardFileEntryTreeNode) (hfound : entry.isLive && entry.equivalent e) :
          some (some entry) =
            some (((nodes ++ rest).map MemoryCardFileEntryTreeNode.entry).find? (·.equivalent e)) := by
        rw [Bool.and_eq_true] at hfound
        rw [List.map_append, hmap, if_pos hfound.1, List.singleton_append,
          List.find?_cons_of_pos (p := fun x : MemoryCardFileEntry => x.equivalent e) hfound.2]
      have hon (rest : List MemoryCardFileEntryTreeNode)
          (hfound : ¬ (entry.isLive && entry.equivalent e)) :
          ((nodes ++ rest).map MemoryCardFileEntryTreeNode.entry).find? (·.equivalent e) =
            (rest.map MemoryCardFileEntryTreeNode.entry).find? (·.equivalent e) := by
        rw [List.map_append, hmap]
        split
        · next hlive =>
          rw [List.singleton_append, List.find?_cons_of_neg (p := fun x : MemoryCardFileEntry => x.equivalent e) fun heq =>
            hfound (by rw [hlive, heq]; rfl)]
        · rfl
      dsimp only
      split at h
      · next hodd =>
        split at h
        · next hlast =>
          obtain rfl := Option.some.inj h
          have hhere := hhere []
          have hon := hon []
          rw [List.append_nil] at hhere hon
          split
          · next hfound => exact hhere hfound
          · next hfound => rw [hon hfound]; rfl
        · next hlast =>
          obtain ⟨rest, hrest, rfl⟩ := Option.map_eq_some_iff.mp h
          split
          · next hfound => exact hhere rest hfound
          · next hfound => rw [ih hrest, hon rest hfound]
      · next heven =>
        obtain ⟨rest, hrest, rfl⟩ := Option.map_eq_some_iff.mp h
        split
        · next hfound => exact hhere rest hfound
        · next hfound => rw [ih hrest, hon rest hfound]
    · next hlt =>
      rw [if_neg hlt]
      exact Option.some.inj h ▸ rfl

section Search

variable {s : Nat}

/-- A search that ends and looks at nothing but entries below the length. -/
def SearchesBelow (card : FolderMemoryCard) (d : Nat × Nat) (s : Nat)
    (parent : List MemoryCardFileEntry) (c r index : Nat) : Prop :=
  ∃ res, Eventually (fun n => card.searchFileEntries n parent c s r index) res ∧
    ∀ x ∈ res.2, Examined.Below d x

theorem searchFileEntries_succ (n : Nat) (parent : List MemoryCardFileEntry) (c s r index : Nat) :
    card.searchFileEntries (n + 1) parent c s r index =
      if c = s then some (some (card.fileEntries c), [])
      else (if card.fatAt c % 2 ^ 31 ≠ lastDataCluster then
          card.searchFileEntries n parent (card.fatAt c % 2 ^ 31) s (u32Sub r 2) (index + 2)
        else some (none, [])).bind fun found =>
          if found.1.isSome then some found
          else (card.searchSubdirectories (fun entry =>
            card.searchFileEntries n (entry :: parent) entry.cluster s entry.length 0)
            parent c r index).map fun r => (r.1, found.2 ++ r.2) := rfl

theorem subdirectoriesBelow (hplace : InPlace card d parent c r index)
    (hvisit : ∀ i < min r 2, ((card.fileEntries c).entries i).isLive →
      ((card.fileEntries c).entries i).isSubdir →
      SearchesBelow card d s ((card.fileEntries c).entries i :: parent)
        ((card.fileEntries c).entries i).cluster ((card.fileEntries c).entries i).length 0) :
    ∃ res, Eventually (fun n => card.searchSubdirectories (fun entry =>
      card.searchFileEntries n (entry :: parent) entry.cluster s entry.length 0)
      parent c r index) res ∧ ∀ x ∈ res.2, Examined.Below d x := by
  have hentries : ∀ it, card.fileEntryDict c = some it → card.fileEntries c = it := fun it h => by
    rw [fileEntries, h]
    rfl
  simp only [searchSubdirectories]
  cases hdict : card.fileEntryDict c with
  | none => exact ⟨(none, []), eventually_const, fun x hx => absurd hx List.not_mem_nil⟩
  | some it =>
    rw [hentries it hdict] at hvisit
    let P (res : Option MemoryCardFileEntryCluster × List Examined) : Prop :=
      ∀ x ∈ res.2, Examined.Below d x
    refine Eventually.foldlM (P := P) (fun found hfound i hi => ?_) fun x hx =>
      absurd hx List.not_mem_nil
    have hi := List.mem_range.mp hi
    have hbelow : ∀ x ∈ found.2 ++ [⟨parent, index + i, it.entries i⟩], Examined.Below d x := by
      intro x hx
      rcases List.mem_append.mp hx with hx | hx
      · exact hfound x hx
      · obtain rfl := List.mem_singleton.mp hx
        exact (hplace.entryAt hi).1
    by_cases hsome : found.1.isSome
    · simp only [hsome, if_true]
      exact ⟨found, eventually_const, hfound⟩
    · by_cases hsub : (it.entries i).isLive ∧ (it.entries i).isSubdir
      · obtain ⟨res, hres, hall⟩ := hvisit i hi hsub.1 hsub.2
        have hcond : ((it.entries i).isValid && (it.entries i).isUsed && (it.entries i).isDir &&
            !(it.entries i).isDotDir) = true := by
          rw [Bool.and_assoc, ← MemoryCardFileEntry.isLive, ← MemoryCardFileEntry.isSubdir, hsub.1,
            hsub.2]
          rfl
        simp only [hsome, hcond, if_true]
        refine ⟨_, hres.map _, fun x hx => ?_⟩
        rcases List.mem_append.mp hx with hx | hx
        · exact hbelow x hx
        · exact hall x hx
      · have hcond : ¬ ((it.entries i).isValid && (it.entries i).isUsed && (it.entries i).isDir &&
            !(it.entries i).isDotDir) = true := by
          rw [Bool.and_assoc, ← MemoryCardFileEntry.isLive, ← MemoryCardFileEntry.isSubdir,
            Bool.and_eq_true]
          exact hsub
        simp only [hsome, hcond]
        exact ⟨_, eventually_const, hbelow⟩

theorem searchesBelow (hd : d.2 < 2 ^ 32) (hfit : AllFit card d) {a : Place} (hin : Inside card a) :
    ∀ parent c r index, a = .dir parent c r index → InPlace card d parent c r index →
      SearchesBelow card d s parent c r index := by
  have hends := hin.1
  induction hends with
  | intro a _ ih =>
    rintro parent c r index rfl hplace
    by_cases hc : c = s
    · refine ⟨(some (card.fileEntries s), []), .of_succ ?_, fun x hx =>
        absurd hx List.not_mem_nil⟩
      simp only [searchFileEntries_succ, hc, if_true]
      exact eventually_const
    · -- the other clusters of the directory come first
      have hnext : ∃ res, Eventually (fun n =>
          if card.fatAt c % 2 ^ 31 ≠ lastDataCluster then
            card.searchFileEntries n parent (card.fatAt c % 2 ^ 31) s (u32Sub r 2) (index + 2)
          else some (none, [])) res ∧ ∀ x ∈ res.2, Examined.Below d x := by
        by_cases hlast : card.fatAt c % 2 ^ 31 = lastDataCluster
        · simp only [hlast, ne_eq, not_true, if_false]
          exact ⟨_, eventually_const, fun x hx => absurd hx List.not_mem_nil⟩
        · have hused : card.fatAt c ≠ lastUsedCluster := fun heq => hlast (hin.last_iff.mp heq)
          have hcall : Place.dir parent (card.fatAt c % 2 ^ 31) (u32Sub r 2) (index + 2) ∈
              Place.calls card (.dir parent c r index) := by
            rw [Place.calls, if_pos hused]
            exact List.mem_append_right _ List.mem_cons_self
          simp only [hlast, ne_eq, not_false_eq_true, if_true]
          exact ih _ hcall (hin.tail hcall) _ _ _ _ rfl (hplace.next hd hfit hlast).2.2
      obtain ⟨found, hfound, hbelow⟩ := hnext
      have hsubs := subdirectoriesBelow (s := s) hplace fun i hi hlive hsub => by
        have hcall : Place.dir ((card.fileEntries c).entries i :: parent)
            ((card.fileEntries c).entries i).cluster ((card.fileEntries c).entries i).length 0 ∈
            Place.calls card (.dir parent c r index) := by
          refine List.mem_append_left _ (List.mem_flatMap.mpr ⟨i, List.mem_range.mpr hi, ?_⟩)
          rw [entryCalls_subdir hlive hsub]
          exact List.mem_cons_self
        exact ih _ hcall (hin.tail hcall) _ _ _ _ rfl (hplace.subdir hi hlive hsub)
      obtain ⟨res, hres, hall⟩ := hsubs
      by_cases hsome : found.1.isSome
      · refine ⟨found, .of_succ ?_, hbelow⟩
        simp only [searchFileEntries_succ, hc, if_false]
        exact hfound.bind (by simp only [hsome, if_true]; exact eventually_const)
      · refine ⟨(res.1, found.2 ++ res.2), .of_succ ?_, fun x hx => ?_⟩
        · simp only [searchFileEntries_succ, hc, if_false]
          exact hfound.bind (by simp only [hsome]; exact hres.map fun r => (r.1, found.2 ++ r.2))
        · rcases List.mem_append.mp hx with hx | hx
          · exact hbelow x hx
          · exact hall x hx

end Search

end OmegaRed.Memcard.FolderMemoryCard

/-! The walks over a directory of a card that the guest has written. -/

namespace OmegaRed.Memcard.FolderMemoryCard

open Lib.Walks Lib.Words Relation MemoryCardFileEntryTreeNode

variable (card : FolderMemoryCard)

/-- `FlushFileEntries` and `GetFileEntryCluster` look only at entries of the directories below their
lengths, `FlushFileEntries` finds the entries that `CopyEntryDictIntoTree` copies, and
`FindEquivalent` looks among the same. -/
structure WalksAgree (cluster length : Nat) : Prop where
  flushed : ∃ fuel t, card.flushFileEntries fuel [] cluster length 0 = some t ∧
    (∀ n ∈ t.read, InFat true n) ∧ (∀ x ∈ t.examined, Examined.Below (cluster, length) x) ∧
    ∃ fuel' tree, card.copyEntryDictIntoTree fuel' cluster length = some tree ∧
      Trace.processed t = tree.flatMap (paths []) ∧
      ∀ entry, card.findEquivalent fuel' entry cluster length =
        some ((tree.map MemoryCardFileEntryTreeNode.entry).find? (·.equivalent entry))
  searched : ∀ searchCluster, ∃ fuel res,
    card.searchFileEntries fuel [] cluster searchCluster length 0 = some res ∧
      ∀ x ∈ res.2, Examined.Below (cluster, length) x

theorem inside_iff_run {a : Place} : Inside card a ↔
    ∃ n t, a.run card n = some t ∧ ∀ i ∈ t.read, InFat true i :=
  ((run_records card homomorphic_read).inside_iff _).symm

/-- The walks agree exactly when they stay in the FAT, come back to no place, and no chain of a
directory that live entries lead to goes on behind the directory's length. -/
theorem walksAgree_iff (cluster length : UInt32) :
    card.WalksAgree cluster.toNat length.toNat ↔
      Sound (Node.calls card) Node.found true (.dir cluster.toNat length.toNat) ∧
        ∀ d, ReflTransGen card.Subdirectory (cluster.toNat, length.toNat) d →
          card.ChainFits d.1 d.2 := by
  have hlt : length.toNat < 2 ^ 32 := length.toNat_lt
  generalize length.toNat = L at hlt
  have hsound := card.run_inside_iff (a := .dir [] cluster.toNat L 0) ⟨cluster.toNat_lt, hlt⟩ true
  generalize cluster.toNat = c at hsound
  rw [← inside_iff_run] at hsound
  change Inside card (.dir [] c L 0) ↔ Sound _ _ _ (Node.dir c L) at hsound
  constructor
  · intro h
    obtain ⟨fuel, t, ht, hread, hbelow, -⟩ := h.flushed
    refine ⟨hsound.mp ((inside_iff_run card).mpr ⟨fuel, t, ht, hread⟩), ?_⟩
    exact allFit_of_below hlt fun b hb x hx => hbelow x ((mem_examined ht x).mpr ⟨b, hb, hx⟩)
  · rintro ⟨hs, hfit⟩
    have hin := hsound.mpr hs
    have hstart : InPlace card (c, L) [] c L 0 := ⟨.refl, ⟨0, rfl, rfl⟩, rfl⟩
    refine ⟨?_, fun s => ?_⟩
    · obtain ⟨fuel, t, ht, hread⟩ := (inside_iff_run card).mp hin
      obtain ⟨tree, ⟨fuel', htree⟩, hsame⟩ := copy_same hlt hfit fuel [] c L 0 t hstart hin ht
      have htree := htree fuel' (Nat.le_refl fuel')
      exact ⟨fuel, t, ht, hread, examined_below hlt hfit hin ht, fuel', tree, htree, hsame,
        fun entry => findEntry_of_copyEntries entry htree⟩
    · obtain ⟨res, ⟨fuel, hres⟩, hbelow⟩ := searchesBelow (s := s) hlt hfit hin [] c L 0 rfl hstart
      exact ⟨fuel, res, hres fuel (Nat.le_refl fuel), hbelow⟩

section Stale

/-- A directory in the clusters 0, 1 and 2 that has become shorter: two entries are left of six, and
a file that was deleted stands in the last cluster. -/
def stale : FolderMemoryCard where
  superBlock _ := 0
  indirectFat _ := 0
  fat n := if n % 4 = 3 then if n < 8 then 0x80 else 0xFF else
    if n = 0 then 1 else if n = 4 then 2 else if n < 8 then 0 else 0xFF
  backupBlock1 _ := 0
  backupBlock2 _ := 0
  fileEntryDict c := some ⟨fun _ => ⟨fun i =>
    if i = 0 then if c = 2 then 0x17 else 0x27 else if i = 1 then 0x84 else
    if 0x10 ≤ i ∧ i < 0x14 then 0xFF else if i = 0x40 then 0x2e else 0⟩⟩
  fileMetadataQuickAccess _ := none
  cache _ := none
  oldDataCache _ := none

/-- The flush looks at the entries 4 and 5 of a directory of two, and finds the deleted file. -/
theorem examined_stale : (stale.flushFileEntries 3 [] 0 2 0).map (fun t =>
    t.examined.map fun x => (x.parent.length, x.index, x.entry.isFile)) =
      some [(0, 0, false), (0, 1, false), (0, 4, true), (0, 5, true)] := by
  decide

theorem not_walksAgree_stale : ¬ stale.WalksAgree 0 2 := by
  intro h
  obtain ⟨fuel, t, ht, -, hbelow, -⟩ := h.flushed
  obtain ⟨u, hu, hlist⟩ := Option.map_eq_some_iff.mp examined_stale
  have hmem : (0, 4, true) ∈
      u.examined.map fun x => (x.parent.length, x.index, x.entry.isFile) := by
    rw [hlist]
    decide
  obtain ⟨x, hx, heq⟩ := List.mem_map.mp hmem
  have hlow := hbelow x ((mem_examined ht x).mpr ((mem_examined hu x).mp hx))
  rw [Examined.Below, List.eq_nil_of_length_eq_zero (congrArg Prod.fst heq),
    show x.index = 4 from congrArg (fun q => q.2.1) heq] at hlow
  exact absurd hlow (by decide)

end Stale

end OmegaRed.Memcard.FolderMemoryCard
