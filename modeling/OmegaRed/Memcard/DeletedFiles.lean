import OmegaRed.Memcard.Directory

/-! A flush deletes what the guest has deleted, and when it leaves alone what the guest has not. -/

namespace OmegaRed.Memcard.FolderMemoryCard

open MemoryCardFileEntryTreeNode

variable {card : FolderMemoryCard}

theorem chainAt_none {c j k : Nat} (h : card.chainAt c j = none) (hk : j ≤ k) :
    card.chainAt c k = none := by
  obtain ⟨i, rfl⟩ := Nat.exists_eq_add_of_le hk
  induction i with
  | zero => exact h
  | succ i ih =>
    have hprev := ih (Nat.le_add_right j i)
    rw [← Nat.add_assoc, chainAt, hprev, Option.bind_none]

/-- The live entries of a directory from one on. -/
def liveFrom (card : FolderMemoryCard) (cluster i count : Nat) : List MemoryCardFileEntry :=
  ((List.range' i (count - i)).filterMap (card.entryAt cluster)).filter (·.isLive)

theorem liveFrom_end {cluster i count : Nat} (h : ¬ i < count) :
    card.liveFrom cluster i count = [] := by
  rw [liveFrom, Nat.sub_eq_zero_of_le (Nat.le_of_not_lt h)]
  rfl

theorem liveFrom_none {cluster i count : Nat} (h : card.chainAt cluster (i / 2) = none) :
    card.liveFrom cluster i count = [] := by
  rw [liveFrom, List.filterMap_eq_nil_iff.mpr fun n hn => ?_]
  · rfl
  · have hle := (List.mem_range'_1.mp hn).1
    rw [entryAt, chainAt_none h (Nat.div_le_div_right hle)]
    rfl

theorem liveFrom_cons {cluster i count c : Nat} (h : i < count)
    (hc : card.chainAt cluster (i / 2) = some c) :
    card.liveFrom cluster i count =
      (if ((card.fileEntries c).entries (i % 2)).isLive then [(card.fileEntries c).entries (i % 2)]
        else []) ++ card.liveFrom cluster (i + 1) count := by
  have hentry : card.entryAt cluster i = some ((card.fileEntries c).entries (i % 2)) := by
    rw [entryAt, hc]
    rfl
  rw [liveFrom, show count - i = (count - (i + 1)) + 1 by omega, List.range'_succ,
    List.filterMap_cons, hentry, List.filter_cons]
  split <;> rfl

/-- The loop of `FindEquivalent` finds the first equivalent among the live entries to come. -/
theorem findEntry_eq (e : MemoryCardFileEntry) {cluster fuel c i count : Nat}
    (hc : card.chainAt cluster (i / 2) = some c) (hfuel : count - i < fuel) :
    card.findEntry e fuel c i count =
      some ((card.liveFrom cluster i count).find? (·.equivalent e)) := by
  induction fuel generalizing c i with
  | zero => exact absurd hfuel (Nat.not_lt_zero _)
  | succ fuel ih =>
    rw [findEntry]
    split
    · next hlt =>
      rw [liveFrom_cons hlt hc]
      dsimp only
      split
      · next hfound =>
        rw [Bool.and_eq_true] at hfound
        rw [if_pos hfound.1, List.singleton_append,
          List.find?_cons_of_pos (p := fun x : MemoryCardFileEntry => x.equivalent e) hfound.2]
      · next hfound =>
        -- the search goes on behind the entry
        have hskip : ((if ((card.fileEntries c).entries (i % 2)).isLive then
            [(card.fileEntries c).entries (i % 2)] else []) ++
              card.liveFrom cluster (i + 1) count).find? (·.equivalent e) =
            (card.liveFrom cluster (i + 1) count).find? (·.equivalent e) := by
          split
          · next hlive =>
            rw [List.singleton_append,
              List.find?_cons_of_neg (p := fun x : MemoryCardFileEntry => x.equivalent e)
                fun heq => hfound (by rw [hlive, heq]; rfl)]
          · rfl
        rw [hskip]
        split
        · next hodd =>
          have hlink : card.chainAt cluster ((i + 1) / 2) =
              if card.fatAt c % 2 ^ 31 = lastDataCluster then none
              else some (card.fatAt c % 2 ^ 31) := by
            rw [show (i + 1) / 2 = i / 2 + 1 by omega, chainAt, hc]
            rfl
          split
          · next hlast =>
            rw [if_pos hlast] at hlink
            rw [liveFrom_none hlink]
            rfl
          · next hlast =>
            rw [if_neg hlast] at hlink
            exact ih hlink (by omega)
        · next heven =>
          refine ih ?_ (by omega)
          rwa [show (i + 1) / 2 = i / 2 by omega]
    · next hlt =>
      rw [liveFrom_end hlt]
      rfl

/-- `FindEquivalent` always returns, with the first equivalent of the live entries. -/
theorem equivalentEntry_eq (e : MemoryCardFileEntry) (cluster count : Nat) :
    card.equivalentEntry e cluster count =
      (card.liveEntries (cluster, count)).find? (·.equivalent e) := by
  have hchain : card.chainAt cluster (0 / 2) = some cluster := rfl
  rw [equivalentEntry, findEquivalent, findEntry_eq e hchain (by omega), liveFrom,
    ← List.range_eq_range']
  rfl

section Meets

variable {node : MemoryCardFileEntryTreeNode} {nodes inner : List MemoryCardFileEntryTreeNode}
  {d : Nat × Nat} {dirs : List MemoryCardFileEntry} {entry e : MemoryCardFileEntry}
  {m : Option MemoryCardFileEntry}

theorem meets_cons : Meets card (node :: nodes) d dirs e m ↔
    Meets card [node] d dirs e m ∨ Meets card nodes d dirs e m := by
  constructor
  · intro h
    cases h with
    | here hmem hlive hdot =>
      rcases List.mem_cons.mp hmem with heq | hmem
      · exact Or.inl (.here (List.mem_singleton.mpr heq) hlive hdot)
      · exact Or.inr (.here hmem hlive hdot)
    | subdir hmem hlive hdot hdir hnew hmeets =>
      rcases List.mem_cons.mp hmem with heq | hmem
      · exact Or.inl (.subdir (List.mem_singleton.mpr heq) hlive hdot hdir hnew hmeets)
      · exact Or.inr (.subdir hmem hlive hdot hdir hnew hmeets)
  · have hmono {l : List MemoryCardFileEntryTreeNode} (hsub : l ⊆ node :: nodes)
        (h : Meets card l d dirs e m) : Meets card (node :: nodes) d dirs e m := by
      cases h with
      | here hmem hlive hdot => exact .here (hsub hmem) hlive hdot
      | subdir hmem hlive hdot hdir hnew hmeets =>
        exact .subdir (hsub hmem) hlive hdot hdir hnew hmeets
    rintro (h | h)
    · exact hmono (List.cons_subset_cons node (List.nil_subset nodes)) h
    · exact hmono (List.subset_cons_self node nodes) h

theorem not_meets_nil : ¬ Meets card [] d dirs e m := by
  intro h
  cases h with
  | here hmem => exact List.not_mem_nil hmem
  | subdir hmem => exact List.not_mem_nil hmem

theorem meets_node : Meets card [.node entry inner] d dirs e m ↔
    (entry.isLive && !entry.isDotDir) ∧
      ((dirs = [] ∧ e = entry ∧ m = (card.liveEntries d).find? (·.equivalent entry)) ∨
        ∃ dirs' newEntry, dirs = entry :: dirs' ∧ entry.isDir ∧
          (card.liveEntries d).find? (·.equivalent entry) = some newEntry ∧
          Meets card inner (newEntry.cluster, newEntry.length) dirs' e m) := by
  constructor
  · intro h
    cases h with
    | here hmem hlive hdot =>
      obtain ⟨rfl, -⟩ := MemoryCardFileEntryTreeNode.node.inj (List.mem_singleton.mp hmem)
      exact ⟨by rw [hlive, hdot]; rfl, Or.inl ⟨rfl, rfl, rfl⟩⟩
    | subdir hmem hlive hdot hdir hnew hmeets =>
      obtain ⟨rfl, rfl⟩ := MemoryCardFileEntryTreeNode.node.inj (List.mem_singleton.mp hmem)
      exact ⟨by rw [hlive, hdot]; rfl, Or.inr ⟨_, _, rfl, hdir, hnew, hmeets⟩⟩
  · rintro ⟨hcond, ⟨rfl, rfl, rfl⟩ | ⟨dirs', newEntry, rfl, hdir, hnew, hmeets⟩⟩
    · rw [Bool.and_eq_true, Bool.not_eq_true'] at hcond
      exact .here List.mem_cons_self hcond.1 hcond.2
    · rw [Bool.and_eq_true, Bool.not_eq_true'] at hcond
      exact .subdir List.mem_cons_self hcond.1 hcond.2 hdir hnew hmeets

end Meets

/-- The entries that a flush deletes, by the paths of their files. -/
def Deletes (card : FolderMemoryCard) (nodes : List MemoryCardFileEntryTreeNode) (d : Nat × Nat)
    (dirPath p : HostPath) (n : List UInt8) : Prop :=
  ∃ dirs e, Meets card nodes d dirs e none ∧
    p = dirPath ++ dirs.map MemoryCardFileEntry.hostName ∧ n = e.hostName

mutual

theorem mem_flushDeletedNode (node : MemoryCardFileEntryTreeNode) (d : Nat × Nat)
    (dirPath p : HostPath) (n : List UInt8) :
    FlushAction.delete p n ∈ card.flushDeletedNode d.1 d.2 dirPath node ↔
      Deletes card [node] d dirPath p n := by
  cases node with
  | node entry inner =>
    rw [flushDeletedNode, equivalentEntry_eq, Deletes]
    simp only [meets_node]
    by_cases hcond : entry.isLive && !entry.isDotDir
    · rw [MemoryCardFileEntry.isLive] at hcond
      rw [if_pos hcond]
      cases hfind : (card.liveEntries d).find? (·.equivalent entry) with
      | none =>
        rw [List.mem_singleton]
        constructor
        · intro heq
          cases heq
          exact ⟨[], entry, ⟨hcond, Or.inl ⟨rfl, rfl, rfl⟩⟩, (List.append_nil dirPath).symm, rfl⟩
        · rintro ⟨dirs, e, ⟨-, ⟨rfl, rfl, -⟩ | ⟨_, _, _, _, hnew, _⟩⟩, rfl, rfl⟩
          · rw [List.map_nil, List.append_nil]
          · exact absurd hnew (Option.some_ne_none _).symm
      | some newEntry =>
        dsimp only
        by_cases hdir : entry.isDir
        · rw [if_pos hdir]
          have hinner := mem_flushDeleted inner (newEntry.cluster, newEntry.length)
            (dirPath ++ [entry.hostName]) p n
          refine hinner.trans ?_
          constructor
          · rintro ⟨dirs, e, hmeets, rfl, rfl⟩
            refine ⟨entry :: dirs, e, ⟨hcond, Or.inr ⟨dirs, newEntry, rfl, hdir, rfl, hmeets⟩⟩, ?_,
              rfl⟩
            rw [List.map_cons, List.append_assoc, List.singleton_append]
          · rintro ⟨dirs, e, ⟨-, ⟨_, _, hnone⟩ | ⟨dirs', new', rfl, -, hnew, hmeets⟩⟩, rfl, rfl⟩
            · exact absurd hnone (Option.some_ne_none _).symm
            · obtain rfl := Option.some.inj hnew
              refine ⟨dirs', e, hmeets, ?_, rfl⟩
              rw [List.map_cons, List.append_assoc, List.singleton_append]
        · rw [if_neg hdir]
          refine iff_of_false (fun hmem => ?_) ?_
          · split at hmem
            · exact FlushAction.noConfusion (List.mem_singleton.mp hmem)
            · exact List.not_mem_nil hmem
          · rintro ⟨dirs, e, ⟨-, ⟨_, _, hnone⟩ | ⟨_, _, _, hd, _⟩⟩, _⟩
            · exact absurd hnone (Option.some_ne_none _).symm
            · exact hdir hd
    · rw [MemoryCardFileEntry.isLive] at hcond
      rw [if_neg hcond]
      exact iff_of_false List.not_mem_nil fun ⟨_, _, h, _⟩ => hcond h.1

theorem mem_flushDeleted (nodes : List MemoryCardFileEntryTreeNode) (d : Nat × Nat)
    (dirPath p : HostPath) (n : List UInt8) :
    FlushAction.delete p n ∈ card.flushDeleted d.1 d.2 dirPath nodes ↔
      Deletes card nodes d dirPath p n := by
  cases nodes with
  | nil =>
    rw [flushDeleted]
    exact iff_of_false List.not_mem_nil fun ⟨_, _, h, _⟩ => not_meets_nil h
  | cons node nodes =>
    have hsplit : ∀ dirs e, Meets card (node :: nodes) d dirs e none ↔
        Meets card [node] d dirs e none ∨ Meets card nodes d dirs e none := fun _ _ => meets_cons
    rw [flushDeleted, List.mem_append, mem_flushDeletedNode node, mem_flushDeleted nodes]
    simp only [Deletes, hsplit, or_and_right, exists_or]

end

end OmegaRed.Memcard.FolderMemoryCard
