import OmegaRed.Memcard.WalkEnds

/-! The walks along the FAT of a card that the guest has written. -/

namespace OmegaRed.Memcard.FolderMemoryCard

open Lib.Walks Lib.Words Relation

/-- An index of `m_fat.data`, with its in-use bit masked off or as it is. -/
def InFat (masked : Bool) (n : Nat) : Prop := (if masked then n % 2 ^ 31 else n) < 256 * 256

/-- The clusters that are reached are in the FAT, and none of the places comes round to itself. -/
def Sound {α : Type} (calls : α → List α) (found : α → List Nat) (masked : Bool) (a : α) : Prop :=
  ∀ b, Reaches calls a b → (∀ n ∈ found b, InFat masked n) ∧ ¬ Cyclic calls b

section Projected

variable {α β τ : Type} {calls : α → List α} {f : Nat → α → Option τ} {record : τ → List Nat}
  {found : α → List Nat} {calls' : β → List β} {found' : β → List Nat} {p : α → β} {a : α}

theorem inside_iff_sound (h : Records calls f record found) (hp : Projects calls calls' p)
    (hfound : ∀ a, found a = found' (p a)) (hfin : {b | Reaches calls' (p a) b}.Finite)
    (masked : Bool) : (∃ n t, f n a = some t ∧ ∀ i ∈ record t, InFat masked i) ↔
      Sound calls' found' masked (p a) := by
  rw [h.inside_iff, ← hp.ends_iff, ends_iff_not_cyclic hfin]
  constructor
  · rintro ⟨hcyc, hok⟩ c hc
    obtain ⟨b, hb, rfl⟩ := hp.reaches_iff.mp hc
    exact ⟨hfound b ▸ hok b hb, hcyc _ hc⟩
  · intro hall
    refine ⟨fun c hc => (hall c hc).2, fun b hb => ?_⟩
    rw [hfound]
    exact (hall (p b) (hp.reaches_iff.mpr ⟨b, hb, rfl⟩)).1

theorem reaches_subset {s : Set β} {b : β} (hb : b ∈ s) (hs : ∀ b ∈ s, ∀ c ∈ calls' b, c ∈ s) :
    {c | Reaches calls' b c} ⊆ s := by
  intro c hc
  induction hc with
  | refl => exact hb
  | tail _ hcall ih => exact hs _ ih _ hcall

end Projected

variable (card : FolderMemoryCard)

/-- The clusters to come in `GetLastClusterOfData`. -/
def lastCalls (cluster : Nat) : List Nat :=
  if card.fatAt cluster % 2 ^ 31 ≠ lastDataCluster then [card.fatAt cluster % 2 ^ 31] else []

/-- The clusters to come in `RemoveUnchangedDataFromCache`. -/
def removeCalls (cluster : Nat) : List Nat :=
  if cluster ≠ lastDataCluster then [card.fatAt cluster % 2 ^ 31] else []

def removeFound (cluster : Nat) : List Nat := if cluster ≠ lastDataCluster then [cluster] else []

/-- What decides the calls of `FlushFileEntries` and `AddFileEntryToMetadataQuickAccess`. -/
inductive Node
  | dir (cluster remainingFiles : Nat)
  | file (cluster : Nat)

namespace Node

def ofPlace : Place → Node
  | .dir _ dirCluster remainingFiles _ => dir dirCluster remainingFiles
  | .file _ _ fileCluster _ => file fileCluster

/-- The calls for an entry. -/
def entryCalls (entry : MemoryCardFileEntry) : List Node :=
  if entry.isValid && entry.isUsed && entry.isDir then
    if !entry.isDotDir then [dir entry.cluster entry.length] else []
  else if entry.isValid && entry.isUsed && entry.isFile then
    if entry.cluster = MemoryCardFileEntry.emptyFileCluster then [] else [file entry.cluster]
  else []

def calls : Node → List Node
  | dir cluster remainingFiles =>
    (List.range (min remainingFiles 2)).flatMap (fun i =>
      entryCalls ((card.fileEntries cluster).entries i)) ++
    if card.fatAt cluster ≠ lastUsedCluster then
      [dir (card.fatAt cluster % 2 ^ 31) (u32Sub remainingFiles 2)]
    else []
  | file cluster => if card.fatAt cluster ≠ lastUsedCluster then [file (card.fatAt cluster)] else []

def found : Node → List Nat
  | dir cluster _ => [cluster]
  | file cluster => [cluster]

theorem found_ofPlace (a : Place) : a.found card Trace.read = found (ofPlace a) := by
  cases a with
  | dir parent c r index =>
    have hnil (i : Nat) : (Place.entryOwn parent (index + i) ((card.fileEntries c).entries i)).read =
        [] := by
      rw [Place.entryOwn]
      split <;> rfl
    have hentries : (List.range (min r 2)).flatMap (fun _ => ([] : List Nat)) = [] :=
      List.flatMap_eq_nil_iff.mpr fun _ _ => rfl
    simp only [Place.found, hnil, hentries]
    rfl
  | file parent entry c k => rfl

theorem map_entryCalls (parent : List MemoryCardFileEntry) (entry : MemoryCardFileEntry) :
    (Place.entryCalls parent entry).map ofPlace = entryCalls entry := by
  rw [Place.entryCalls, entryCalls]
  split
  · split <;> rfl
  · split
    · split <;> rfl
    · rfl

theorem projects : Projects (Place.calls card) (calls card) ofPlace := by
  intro a
  cases a with
  | dir parent c r index =>
    rw [Place.calls, ofPlace, calls, List.map_append, List.map_flatMap]
    congr 1
    · exact congrArg (fun g => (List.range (min r 2)).flatMap g)
        (funext fun i => map_entryCalls parent _)
    · split <;> rfl
  | file parent entry c k =>
    rw [Place.calls, ofPlace, calls]
    split <;> rfl

/-- The numbers of a node have 32 bits. -/
def Fits : Node → Prop
  | dir cluster remainingFiles => cluster < 2 ^ 32 ∧ remainingFiles < 2 ^ 32
  | file cluster => cluster < 2 ^ 32

theorem fits_entryCalls (entry : MemoryCardFileEntry) : ∀ b ∈ entryCalls entry, b.Fits := by
  have hdir : (dir entry.cluster entry.length).Fits := ⟨entry.cluster_lt, entry.length_lt⟩
  have hfile : (file entry.cluster).Fits := entry.cluster_lt
  intro b hb
  rw [entryCalls] at hb
  split_ifs at hb <;> simp only [List.mem_singleton, List.not_mem_nil] at hb
  · exact hb ▸ hdir
  · exact hb ▸ hfile

theorem fits_calls (a : Node) : ∀ b ∈ calls card a, b.Fits := by
  intro b hb
  cases a with
  | dir c r =>
    rcases List.mem_append.mp hb with hb | hb
    · obtain ⟨i, -, hb⟩ := List.mem_flatMap.mp hb
      exact fits_entryCalls _ b hb
    · split at hb
      · obtain rfl := List.mem_singleton.mp hb
        exact ⟨by omega, Nat.mod_lt _ (by decide)⟩
      · exact absurd hb List.not_mem_nil
  | file c =>
    rw [calls] at hb
    split at hb
    · obtain rfl := List.mem_singleton.mp hb
      exact card.fatAt_lt c
    · exact absurd hb List.not_mem_nil

theorem finite_fits : {a : Node | a.Fits}.Finite := by
  have hpairs : (Set.Iio (2 ^ 32) ×ˢ Set.Iio (2 ^ 32) : Set (Nat × Nat)).Finite :=
    (Set.finite_Iio _).prod (Set.finite_Iio _)
  refine ((hpairs.image fun q => dir q.1 q.2).union
    ((Set.finite_Iio (2 ^ 32)).image file)).subset fun a ha => ?_
  cases a with
  | dir c r => exact Or.inl ⟨(c, r), ha, rfl⟩
  | file c => exact Or.inr ⟨c, ha, rfl⟩

theorem finite_reaches {a : Node} (h : a.Fits) : {b | Reaches (calls card) a b}.Finite :=
  finite_fits.subset (reaches_subset h fun a _ => fits_calls card a)

end Node

/-- A place of the two functions has its result inside the FAT exactly when its node is sound. -/
theorem run_inside_iff {a : Place} (h : (Node.ofPlace a).Fits) (masked : Bool) :
    (∃ n t, a.run card n = some t ∧ ∀ i ∈ t.read, InFat masked i) ↔
      Sound (Node.calls card) Node.found masked (Node.ofPlace a) :=
  inside_iff_sound (run_records card homomorphic_read) (Node.projects card) (Node.found_ofPlace card)
    (Node.finite_reaches card h) masked

theorem records_last : Records card.lastCalls card.getLastClusterOfData Prod.snd fun c => [c] := by
  have hsucc (n c : Nat) : card.getLastClusterOfData (n + 1) c =
      if card.fatAt c % 2 ^ 31 ≠ lastDataCluster then
        (card.getLastClusterOfData n (card.fatAt c % 2 ^ 31)).map fun r => (r.1, c :: r.2)
      else some (c, [c]) := rfl
  refine ⟨⟨fun _ => rfl, fun n c => ?_⟩, fun n c t ht i => ?_⟩
  · rw [hsucc, lastCalls]
    split
    · rw [Option.isSome_map, List.forall_mem_singleton]
    · exact iff_of_true rfl (List.forall_mem_nil _)
  · rw [hsucc] at ht
    rw [lastCalls]
    split at ht
    · next hnext =>
      obtain ⟨r, hr, rfl⟩ := Option.map_eq_some_iff.mp ht
      rw [if_pos hnext]
      simp only [List.mem_cons, List.not_mem_nil, or_false, exists_eq_left, hr, Option.some.injEq,
        exists_eq_left']
    · next hnext =>
      obtain rfl := Option.some.inj ht
      rw [if_neg hnext]
      exact (or_iff_left fun ⟨b, hb, _⟩ => absurd hb List.not_mem_nil).symm

/-- The cache when the pages of a cluster have been looked at. -/
def removeUnchangedCluster (cluster : Nat) (cache : Nat → Option (Nat → UInt8)) :
    Nat → Option (Nat → UInt8) :=
  (List.range 2).foldl (fun cache i =>
    card.removeUnchangedPage cache (u32 ((cluster + card.allocOffset) * 2 + i))) cache

/-- A turn of the loop of `RemoveUnchangedDataFromCache`, with the cache that it finds. -/
def removePlaces (a : Nat × (Nat → Option (Nat → UInt8))) :
    List (Nat × (Nat → Option (Nat → UInt8))) :=
  if a.1 ≠ lastDataCluster then
    [(card.fatAt a.1 % 2 ^ 31, card.removeUnchangedCluster a.1 a.2)]
  else []

theorem records_remove : Records card.removePlaces
    (fun n a => card.removeUnchangedPages n a.1 a.2) Prod.snd fun a => removeFound a.1 := by
  have hsucc (n c : Nat) (cache : Nat → Option (Nat → UInt8)) :
      card.removeUnchangedPages (n + 1) c cache = if c ≠ lastDataCluster then
        (card.removeUnchangedPages n (card.fatAt c % 2 ^ 31)
          (card.removeUnchangedCluster c cache)).map fun r => (r.1, c :: r.2)
      else some (cache, []) := rfl
  refine ⟨⟨fun _ => rfl, fun n a => ?_⟩, fun n a t ht i => ?_⟩
  · rw [hsucc, removePlaces]
    split
    · rw [Option.isSome_map, List.forall_mem_singleton]
    · exact iff_of_true rfl (List.forall_mem_nil _)
  · rw [hsucc] at ht
    rw [removePlaces, removeFound]
    split at ht
    · next hnext =>
      obtain ⟨r, hr, rfl⟩ := Option.map_eq_some_iff.mp ht
      rw [if_pos hnext, if_pos hnext]
      simp only [List.mem_cons, List.not_mem_nil, or_false, exists_eq_left, hr, Option.some.injEq,
        exists_eq_left']
    · next hnext =>
      obtain rfl := Option.some.inj ht
      rw [if_neg hnext, if_neg hnext]
      exact iff_of_false List.not_mem_nil fun h => h.elim List.not_mem_nil fun ⟨b, hb, _⟩ =>
        absurd hb List.not_mem_nil

theorem projects_remove : Projects card.removePlaces card.removeCalls Prod.fst := by
  intro a
  rw [removePlaces, removeCalls]
  split <;> rfl

theorem finite_reaches_clusters {calls : Nat → List Nat} (h : ∀ c, ∀ b ∈ calls c, b < 2 ^ 32)
    {c : Nat} (hc : c < 2 ^ 32) : {b | Reaches calls c b}.Finite :=
  (Set.finite_Iio (2 ^ 32)).subset (reaches_subset (s := Set.Iio (2 ^ 32)) hc fun c _ => h c)

/-- Each walk ends and reads the FAT only inside it exactly when the clusters that it comes to are
inside and no place comes round to itself. -/
theorem walks_inside_iff (masked : Bool) :
    (∀ cluster < 2 ^ 32,
      (∃ fuel r, card.getLastClusterOfData fuel cluster = some r ∧ ∀ n ∈ r.2, InFat masked n) ↔
        Sound card.lastCalls (fun c => [c]) masked cluster) ∧
    (∀ parent entry,
      (∃ fuel t, card.addFileEntryToMetadataQuickAccess fuel parent entry = some t ∧
        ∀ n ∈ t.read, InFat masked n) ↔
        (entry.cluster ≠ MemoryCardFileEntry.emptyFileCluster →
          Sound (Node.calls card) Node.found masked (.file entry.cluster))) ∧
    (∀ oldEntry newEntry cache,
      (∃ fuel r, card.removeUnchangedDataFromCache fuel oldEntry newEntry cache = some r ∧
        ∀ n ∈ r.2, InFat masked n) ↔
        (oldEntry.unchanged newEntry →
          Sound card.removeCalls removeFound masked (newEntry.cluster % 2 ^ 31))) ∧
    (∀ parent index, ∀ dirCluster < 2 ^ 32, ∀ remainingFiles < 2 ^ 32,
      (∃ fuel t, card.flushFileEntries fuel parent dirCluster remainingFiles index = some t ∧
        ∀ n ∈ t.read, InFat masked n) ↔
        Sound (Node.calls card) Node.found masked (.dir dirCluster remainingFiles)) ∧
    ((∃ fuel t, card.flushRootEntries fuel = some t ∧ ∀ n ∈ t.read, InFat masked n) ↔
      let root := (card.fileEntries card.rootdirCluster).entries 0
      (root.isValid && root.isUsed →
        Sound (Node.calls card) Node.found masked (.dir card.rootdirCluster root.length))) := by
  refine ⟨fun cluster hc => ?_, fun parent entry => ?_, fun oldEntry newEntry cache => ?_,
    fun parent index c hc r hr => card.run_inside_iff (a := .dir parent c r index) ⟨hc, hr⟩ masked,
    ?_⟩
  · refine inside_iff_sound (records_last card) (p := id) (fun a => List.map_id _) (fun _ => rfl)
      (finite_reaches_clusters (fun c b hb => ?_) hc) masked
    rw [lastCalls] at hb
    split at hb
    · obtain rfl := List.mem_singleton.mp hb
      omega
    · exact absurd hb List.not_mem_nil
  · by_cases hempty : entry.cluster = MemoryCardFileEntry.emptyFileCluster
    · refine iff_of_true ⟨0, .empty, ?_, fun n hn => absurd hn List.not_mem_nil⟩
        fun hne => absurd hempty hne
      rw [addFileEntryToMetadataQuickAccess, if_pos hempty]
    · simp only [addFileEntryToMetadataQuickAccess, ne_eq, hempty, not_false_eq_true,
        forall_const]
      exact card.run_inside_iff (a := .file parent entry entry.cluster 0) entry.cluster_lt masked
  · by_cases hsame : oldEntry.unchanged newEntry
    · simp only [removeUnchangedDataFromCache, hsame, if_true, forall_const]
      refine @inside_iff_sound _ _ _ _ _ _ _ _ _ _ (newEntry.cluster % 2 ^ 31, cache)
        (records_remove card) (projects_remove card) (fun _ => rfl)
        (finite_reaches_clusters (fun c b hb => ?_) (by omega)) masked
      rw [removeCalls] at hb
      split at hb
      · obtain rfl := List.mem_singleton.mp hb
        omega
      · exact absurd hb List.not_mem_nil
    · refine iff_of_true ⟨0, (cache, []), ?_, fun n hn => absurd hn List.not_mem_nil⟩
        fun h => absurd h hsame
      rw [removeUnchangedDataFromCache, if_neg hsame]
  · generalize hroot : (card.fileEntries card.rootdirCluster).entries 0 = root
    by_cases hlive : root.isValid && root.isUsed
    · simp only [flushRootEntries, hroot, hlive, if_true, forall_const]
      exact card.run_inside_iff (a := .dir [] card.rootdirCluster root.length 0)
        ⟨UInt32.toNat_lt _, root.length_lt⟩ masked
    · refine iff_of_true ⟨0, .empty, ?_, fun n hn => absurd hn List.not_mem_nil⟩
        fun h => absurd h hlive
      simp only [flushRootEntries, hroot]
      rw [if_neg hlive]

section Ring

/-- A card whose FAT sends each cluster to the first, with a root directory of two entries. -/
def ring : FolderMemoryCard where
  superBlock _ := 0
  indirectFat _ := 0
  fat n := if n % 4 = 3 then 0x80 else 0
  backupBlock1 _ := 0
  backupBlock2 _ := 0
  fileEntryDict _ := some ⟨fun _ => ⟨fun i => if i = 0 then 0x27 else if i = 1 then 0x84 else
    if i = 4 then 2 else if i = 0x40 then 0x2e else 0⟩⟩
  fileMetadataQuickAccess _ := none
  cache _ := none
  oldDataCache _ := none

theorem fatAt_ring (n : Nat) : ring.fatAt n = 2 ^ 31 := by
  have hword (m : Nat) : loadWord ring.fat (4 * m) = loadWord ring.fat (4 * 0) := by
    refine loadWord_congr fun i hi => ?_
    change (if (4 * m + i) % 4 = 3 then (0x80 : UInt8) else 0) = if (4 * 0 + i) % 4 = 3 then 0x80 else 0
    rw [Nat.mul_add_mod, Nat.mul_add_mod]
  rw [fatAt, fatData, hword]
  decide

theorem flushFileEntries_ring (fuel : Nat) (parent : List MemoryCardFileEntry) (c r index : Nat) :
    ring.flushFileEntries fuel parent c r index = none := by
  induction fuel generalizing parent c r index with
  | zero => rfl
  | succ fuel ih =>
    have hnext : 2 ^ 31 ≠ lastUsedCluster := by decide
    simp only [flushFileEntries_succ, fatAt_ring, hnext, ne_eq, not_false_eq_true, if_true, ih,
      Option.map_none, Option.bind_fun_none]

/-- A guest that makes the chain of its root directory a ring: the flush never returns. -/
theorem not_flushRootEntries_ring : ¬ ∃ fuel, (ring.flushRootEntries fuel).isSome := by
  rintro ⟨fuel, h⟩
  rw [flushRootEntries] at h
  simp only [flushFileEntries_ring] at h
  revert h
  decide

end Ring

end OmegaRed.Memcard.FolderMemoryCard
