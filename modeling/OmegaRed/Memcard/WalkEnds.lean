import OmegaRed.Memcard.Chains

/-! When the walks along the FAT end inside it. -/

namespace OmegaRed.Memcard.FolderMemoryCard

open Lib.Walks Relation

variable (card : FolderMemoryCard)

/-- A call of `FlushFileEntries`, or a turn of the loop of `AddFileEntryToMetadataQuickAccess`. -/
inductive Place
  | dir (parent : List MemoryCardFileEntry) (dirCluster remainingFiles index : Nat)
  | file (parent : List MemoryCardFileEntry) (entry : MemoryCardFileEntry)
      (fileCluster clusterNumber : Nat)

namespace Place

/-- What is done at a place. -/
def run (fuel : Nat) : Place → Option Trace
  | dir parent dirCluster remainingFiles index =>
    card.flushFileEntries fuel parent dirCluster remainingFiles index
  | file parent entry fileCluster clusterNumber =>
    card.addFileClusters parent entry fuel fileCluster clusterNumber

/-- The calls for an entry. -/
def entryCalls (parent : List MemoryCardFileEntry) (entry : MemoryCardFileEntry) : List Place :=
  if entry.isValid && entry.isUsed && entry.isDir then
    if !entry.isDotDir then [dir (entry :: parent) entry.cluster entry.length 0] else []
  else if entry.isValid && entry.isUsed && entry.isFile then
    if entry.cluster = MemoryCardFileEntry.emptyFileCluster then []
    else [file parent entry entry.cluster 0]
  else []

def calls : Place → List Place
  | dir parent dirCluster remainingFiles index =>
    (List.range (min remainingFiles 2)).flatMap (fun i =>
      entryCalls parent ((card.fileEntries dirCluster).entries i)) ++
    if card.fatAt dirCluster ≠ lastUsedCluster then
      [dir parent (card.fatAt dirCluster % 2 ^ 31) (u32Sub remainingFiles 2) (index + 2)]
    else []
  | file parent entry fileCluster clusterNumber =>
    if card.fatAt fileCluster ≠ lastUsedCluster then
      [file parent entry (card.fatAt fileCluster) (u32 (clusterNumber + 1))]
    else []

/-- What is done with an entry itself. -/
def entryOwn (parent : List MemoryCardFileEntry) (index : Nat) (entry : MemoryCardFileEntry) : Trace :=
  (Trace.examine parent index entry).append
    (if entry.isValid && entry.isUsed && entry.isDir && !entry.isDotDir then
      .ref entry.cluster ⟨parent, entry, 0xFFFFFFFF⟩ else .empty)

/-- What is done at a place itself, as far as one list of the trace is concerned. -/
def found {ι : Type} (record : Trace → List ι) : Place → List ι
  | dir parent dirCluster remainingFiles index =>
    (List.range (min remainingFiles 2)).flatMap (fun i => record
      (entryOwn parent (index + i) ((card.fileEntries dirCluster).entries i))) ++
      record (.readAt dirCluster)
  | file parent entry fileCluster clusterNumber =>
    record ((Trace.ref (fileCluster % 2 ^ 31) ⟨parent, entry, clusterNumber⟩).append
      (.readAt fileCluster))

end Place

/-- A list of the trace. -/
structure Homomorphic {ι : Type} (record : Trace → List ι) : Prop where
  empty : record .empty = []
  append : ∀ t u, record (t.append u) = record t ++ record u

theorem homomorphic_read : Homomorphic Trace.read := ⟨rfl, fun _ _ => rfl⟩
theorem homomorphic_examined : Homomorphic Trace.examined := ⟨rfl, fun _ _ => rfl⟩

section Gather

variable {g : Nat → Option Trace} {l : List Nat} {t u : Trace}

theorem gather_isSome :
    (l.foldlM (fun t i => (g i).map t.append) t).isSome ↔ ∀ i ∈ l, (g i).isSome := by
  induction l generalizing t with
  | nil => exact iff_of_true rfl fun i hi => absurd hi List.not_mem_nil
  | cons j l ih =>
    rw [List.foldlM_cons, List.forall_mem_cons]
    cases hj : g j with
    | none => exact iff_of_false Bool.false_ne_true fun h => Bool.false_ne_true h.1
    | some v => exact ih.trans (and_iff_right rfl).symm

theorem mem_gather {ι : Type} {record : Trace → List ι}
    (happend : ∀ t u, record (t.append u) = record t ++ record u)
    (h : l.foldlM (fun t i => (g i).map t.append) t = some u) (x : ι) :
    x ∈ record u ↔ x ∈ record t ∨ ∃ i ∈ l, ∃ v, g i = some v ∧ x ∈ record v := by
  induction l generalizing t with
  | nil =>
    obtain rfl := Option.some.inj h
    exact (or_iff_left fun ⟨i, hi, _⟩ => absurd hi List.not_mem_nil).symm
  | cons j l ih =>
    rw [List.foldlM_cons] at h
    cases hj : g j with
    | none =>
      rw [hj] at h
      exact absurd h (Option.some_ne_none u).symm
    | some v =>
      rw [hj] at h
      rw [ih h, happend, List.mem_append, or_assoc]
      simp only [List.mem_cons, exists_eq_or_imp, hj, Option.some.injEq, exists_eq_left']

end Gather

variable {card}

theorem addFileClusters_succ (parent : List MemoryCardFileEntry) (entry : MemoryCardFileEntry)
    (n c k : Nat) : card.addFileClusters parent entry (n + 1) c k =
      if card.fatAt c ≠ lastUsedCluster then
        (card.addFileClusters parent entry n (card.fatAt c) (u32 (k + 1))).map
          ((Trace.ref (c % 2 ^ 31) ⟨parent, entry, k⟩).append (.readAt c)).append
      else some ((Trace.ref (c % 2 ^ 31) ⟨parent, entry, k⟩).append (.readAt c)) := rfl

theorem flushFileEntry_isSome (n : Nat) (parent : List MemoryCardFileEntry) (index : Nat)
    (entry : MemoryCardFileEntry) :
    (card.flushFileEntry
      (fun entry => card.flushFileEntries n (entry :: parent) entry.cluster entry.length 0)
      n parent index entry).isSome ↔ ∀ b ∈ Place.entryCalls parent entry, (b.run card n).isSome := by
  rw [flushFileEntry, Place.entryCalls, addFileEntryToMetadataQuickAccess]
  split
  · split
    · rw [List.forall_mem_singleton, Option.isSome_map]
      rfl
    · exact iff_of_true rfl (List.forall_mem_nil _)
  · split
    · rw [Option.isSome_map]
      split
      · exact iff_of_true rfl (List.forall_mem_nil _)
      · rw [List.forall_mem_singleton]
        rfl
    · exact iff_of_true rfl (List.forall_mem_nil _)

theorem mem_flushFileEntry {ι : Type} {record : Trace → List ι} (hrecord : Homomorphic record)
    {n : Nat} {parent : List MemoryCardFileEntry} {index : Nat}
    {entry : MemoryCardFileEntry} {t : Trace} (h : card.flushFileEntry
      (fun entry => card.flushFileEntries n (entry :: parent) entry.cluster entry.length 0)
      n parent index entry = some t) (x : ι) :
    x ∈ record t ↔ x ∈ record (Place.entryOwn parent index entry) ∨
      ∃ b ∈ Place.entryCalls parent entry, ∃ u, b.run card n = some u ∧ x ∈ record u := by
  have hnone {t : Trace} : x ∈ record t ↔
      x ∈ record (t.append .empty) ∨
        ∃ b ∈ ([] : List Place), ∃ u, b.run card n = some u ∧ x ∈ record u := by
    rw [hrecord.append, hrecord.empty, List.append_nil]
    exact (or_iff_left fun ⟨b, hb, _⟩ => absurd hb List.not_mem_nil).symm
  have hone {b : Place} {t u : Trace} (h : (b.run card n).map t.append = some u) :
      x ∈ record u ↔
        x ∈ record t ∨ ∃ b' ∈ [b], ∃ u, b'.run card n = some u ∧ x ∈ record u := by
    obtain ⟨v, hv, rfl⟩ := Option.map_eq_some_iff.mp h
    simp only [List.mem_singleton, exists_eq_left, hv, Option.some.injEq, exists_eq_left',
      hrecord.append, List.mem_append]
  rw [flushFileEntry] at h
  rw [Place.entryCalls, Place.entryOwn]
  split at h
  · next hdir =>
    rw [if_pos hdir]
    split at h
    · next hdot =>
      rw [if_pos hdot, if_pos (by rw [hdir, hdot]; rfl)]
      exact @hone (.dir _ _ _ _) _ _ h
    · next hdot =>
      rw [if_neg hdot, if_neg fun hboth => hdot (Bool.and_elim_right hboth)]
      exact Option.some.inj h ▸ hnone
  · next hdir =>
    rw [if_neg hdir, if_neg fun hboth => hdir (Bool.and_elim_left hboth)]
    split at h
    · next hfile =>
      rw [if_pos hfile]
      rw [addFileEntryToMetadataQuickAccess] at h
      split at h
      · next hempty =>
        rw [if_pos hempty]
        obtain rfl := Option.some.inj h
        rw [hrecord.append, hrecord.empty, List.append_nil]
        exact hnone
      · next hempty =>
        rw [if_neg hempty, hrecord.append, hrecord.empty, List.append_nil]
        exact @hone (.file _ _ _ _) _ _ h
    · next hfile =>
      rw [if_neg hfile]
      exact Option.some.inj h ▸ hnone

variable (card) in
/-- The entries of a cluster, one after the other. -/
def flushEntries (n : Nat) (parent : List MemoryCardFileEntry) (c r index : Nat) : Option Trace :=
  (List.range (min r 2)).foldlM (fun t i =>
    (card.flushFileEntry
      (fun entry => card.flushFileEntries n (entry :: parent) entry.cluster entry.length 0)
      n parent (index + i) ((card.fileEntries c).entries i)).map t.append) Trace.empty

theorem flushFileEntries_succ (n : Nat) (parent : List MemoryCardFileEntry) (c r index : Nat) :
    card.flushFileEntries (n + 1) parent c r index =
      (card.flushEntries n parent c r index).bind fun t =>
        if card.fatAt c ≠ lastUsedCluster then
          (card.flushFileEntries n parent (card.fatAt c % 2 ^ 31) (u32Sub r 2) (index + 2)).map
            (t.append (.readAt c)).append
        else some (t.append (.readAt c)) := rfl

variable (card) in
theorem run_recursion : Recursion (Place.calls card) (fun n a => Place.run card n a) := by
  refine ⟨fun a => by cases a <;> rfl, fun n a => ?_⟩
  cases a with
  | dir parent c r index =>
    have hentries : (card.flushEntries n parent c r index).isSome ↔
        ∀ b ∈ (List.range (min r 2)).flatMap (fun i =>
          Place.entryCalls parent ((card.fileEntries c).entries i)), (b.run card n).isSome := by
      rw [flushEntries, gather_isSome, List.forall_mem_flatMap]
      exact forall₂_congr fun i _ => flushFileEntry_isSome n parent _ _
    rw [Place.calls, List.forall_mem_append, ← hentries]
    change (card.flushFileEntries (n + 1) parent c r index).isSome ↔ _
    rw [flushFileEntries_succ]
    cases card.flushEntries n parent c r index with
    | none => exact iff_of_false Bool.false_ne_true fun h => Bool.false_ne_true h.1
    | some t =>
      refine Iff.trans ?_ (and_iff_right rfl).symm
      rw [Option.bind_some]
      split
      · rw [Option.isSome_map, List.forall_mem_singleton]
        rfl
      · exact iff_of_true rfl (List.forall_mem_nil _)
  | file parent entry c k =>
    change (card.addFileClusters parent entry (n + 1) c k).isSome ↔ _
    rw [addFileClusters_succ, Place.calls]
    split
    · rw [Option.isSome_map, List.forall_mem_singleton]
      rfl
    · exact iff_of_true rfl (List.forall_mem_nil _)

theorem mem_flushEntries {ι : Type} {record : Trace → List ι} (hrecord : Homomorphic record)
    {n : Nat} {parent : List MemoryCardFileEntry} {c r index : Nat}
    {t : Trace} (h : card.flushEntries n parent c r index = some t) (x : ι) :
    x ∈ record t ↔
      x ∈ (List.range (min r 2)).flatMap (fun i => record
        (Place.entryOwn parent (index + i) ((card.fileEntries c).entries i))) ∨
      ∃ b ∈ (List.range (min r 2)).flatMap (fun i =>
        Place.entryCalls parent ((card.fileEntries c).entries i)),
        ∃ u, b.run card n = some u ∧ x ∈ record u := by
  rw [mem_gather hrecord.append h, hrecord.empty]
  constructor
  · rintro (hx | ⟨i, hi, u, hu, hx⟩)
    · exact absurd hx List.not_mem_nil
    · rcases (mem_flushFileEntry hrecord hu x).mp hx with hx | ⟨b, hb, hrun⟩
      · exact Or.inl (List.mem_flatMap.mpr ⟨i, hi, hx⟩)
      · exact Or.inr ⟨b, List.mem_flatMap.mpr ⟨i, hi, hb⟩, hrun⟩
  · have hall (i : Nat) (hi : i ∈ List.range (min r 2)) := Option.isSome_iff_exists.mp
      (gather_isSome.mp (show (card.flushEntries n parent c r index).isSome from h ▸ rfl)
        i hi)
    rintro (hx | ⟨b, hb, v, hv, hx⟩)
    · obtain ⟨i, hi, hx⟩ := List.mem_flatMap.mp hx
      obtain ⟨u, hu⟩ := hall i hi
      exact Or.inr ⟨i, hi, u, hu, (mem_flushFileEntry hrecord hu x).mpr (Or.inl hx)⟩
    · obtain ⟨i, hi, hb⟩ := List.mem_flatMap.mp hb
      obtain ⟨u, hu⟩ := hall i hi
      exact Or.inr ⟨i, hi, u, hu, (mem_flushFileEntry hrecord hu x).mpr (Or.inr ⟨b, hb, v, hv, hx⟩)⟩

variable (card) in
/-- What a walk has in one list of its trace is what is done at the places it comes to. -/
theorem run_records {ι : Type} {record : Trace → List ι} (hrecord : Homomorphic record) :
    Records (Place.calls card) (fun n a => Place.run card n a) record
      (fun a => a.found card record) := by
  refine ⟨run_recursion card, fun n a t ht x => ?_⟩
  -- the last call has its own part of the trace
  have hlast {b : Place} {u t : Trace} (h : (b.run card n).map u.append = some t) :
      x ∈ record t ↔ x ∈ record u ∨ ∃ b' ∈ [b], ∃ v, b'.run card n = some v ∧ x ∈ record v := by
    obtain ⟨v, hv, rfl⟩ := Option.map_eq_some_iff.mp h
    simp only [List.mem_singleton, exists_eq_left, hv, Option.some.injEq, exists_eq_left',
      hrecord.append, List.mem_append]
  have hnil {u : Trace} : x ∈ record u ↔
      x ∈ record u ∨ ∃ b' ∈ ([] : List Place), ∃ v, b'.run card n = some v ∧ x ∈ record v :=
    (or_iff_left fun ⟨b, hb, _⟩ => absurd hb List.not_mem_nil).symm
  cases a with
  | dir parent c r index =>
    change card.flushFileEntries (n + 1) parent c r index = some t at ht
    rw [flushFileEntries_succ, Option.bind_eq_some_iff] at ht
    obtain ⟨u, hu, ht⟩ := ht
    have hentries := mem_flushEntries hrecord hu x
    -- the entries and the next cluster
    have hsplit {l : List Place} (h : x ∈ record t ↔ x ∈ record (u.append (.readAt c)) ∨
        ∃ b' ∈ l, ∃ v, b'.run card n = some v ∧ x ∈ record v) :
        x ∈ record t ↔ x ∈ Place.found card record (.dir parent c r index) ∨ ∃ b' ∈
          (List.range (min r 2)).flatMap (fun i =>
            Place.entryCalls parent ((card.fileEntries c).entries i)) ++ l,
          ∃ v, b'.run card n = some v ∧ x ∈ record v := by
      rw [h, hrecord.append, List.mem_append, hentries, Place.found, List.mem_append]
      simp only [List.mem_append, or_and_right, exists_or]
      exact or_assoc.trans or_or_or_comm
    rw [Place.calls]
    split at ht
    · next hnext =>
      rw [if_pos hnext]
      exact hsplit (@hlast (.dir _ _ _ _) _ _ ht)
    · next hnext =>
      rw [if_neg hnext]
      exact hsplit (Option.some.inj ht ▸ hnil)
  | file parent entry c k =>
    change card.addFileClusters parent entry (n + 1) c k = some t at ht
    rw [addFileClusters_succ] at ht
    rw [Place.calls, Place.found]
    split at ht
    · next hnext =>
      rw [if_pos hnext]
      exact @hlast (.file _ _ _ _) _ _ ht
    · next hnext =>
      rw [if_neg hnext]
      exact Option.some.inj ht ▸ hnil

end OmegaRed.Memcard.FolderMemoryCard
