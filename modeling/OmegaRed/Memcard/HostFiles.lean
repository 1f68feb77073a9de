import OmegaRed.Memcard.DeletedFiles

/-! The host's files in a flush that deletes. -/

namespace OmegaRed.Memcard

namespace Host

variable {host : Host} {dirPath path : HostPath} {fileName : List UInt8}

/-- Where the file of an entry that is gone is, and where it goes. -/
def source (dirPath : HostPath) (fileName : List UInt8) : HostPath := dirPath ++ [fileName]
def target (dirPath : HostPath) (fileName : List UInt8) : HostPath :=
  dirPath ++ [deletedPrefix ++ fileName]

theorem pathString_mono {p q : HostPath} (h : p <+: q) : pathString p <+: pathString q := by
  obtain ⟨r, rfl⟩ := h
  exact ⟨pathString r, by rw [pathString, pathString, pathString, List.flatMap_append]⟩

theorem closeMatching_closed (host : Host) (path : HostPath) :
    (host.closeMatching path).openFiles.any (path.isPrefixOf ·) = false := by
  rw [List.any_eq_false]
  intro file hfile hprefix
  have hkept := (List.mem_filter.mp hfile).2
  rw [Bool.not_eq_true', Bool.eq_false_iff] at hkept
  exact hkept (List.isPrefixOf_iff_prefix.mpr
    (pathString_mono (List.isPrefixOf_iff_prefix.mp hprefix)))

/-- The folder when the place that a file or directory goes to has been made free. -/
def freed (host : Host) (path : HostPath) : HostPath → Option HostNode := fun r =>
  if host.nodes path = some .dir ∧ path <+: r then none else host.nodes r

/-- What is moved is there; it goes to a free place, or a file goes to a file's. -/
def Moves (nodes : HostPath → Option HostNode) (file1 file2 : HostPath) : Prop :=
  (nodes file1).isSome ∧ (nodes file2 = none ∨
    ∃ data data', nodes file1 = some (.file data) ∧ nodes file2 = some (.file data'))

open Classical in
theorem renameFile_nodes {file1 file2 : HostPath}
    (hclosed : host.openFiles.any (file1.isPrefixOf ·) = false) : (host.renameFile file1 file2).nodes =
      if Moves host.nodes file1 file2 then (host.moved file1 file2).nodes else host.nodes := by
  rw [renameFile, hclosed, Moves]
  cases host.nodes file1 with
  | none => simp
  | some node₁ =>
    cases host.nodes file2 with
    | none => simp
    | some node₂ => cases node₁ <;> cases node₂ <;> simp

open Classical in
theorem delete_nodes (host : Host) (dirPath : HostPath) (fileName : List UInt8) :
    (host.delete dirPath fileName).nodes =
      let nodes := host.freed (target dirPath fileName)
      if Moves nodes (source dirPath fileName) (target dirPath fileName) then
        (moved ⟨nodes, []⟩ (source dirPath fileName) (target dirPath fileName)).nodes
      else nodes := by
  have hclosed := host.closeMatching_closed (source dirPath fileName)
  rw [delete]
  change (Host.renameFile (if host.nodes (target dirPath fileName) = some .dir then
    (host.closeMatching (source dirPath fileName)).removeDirectory (target dirPath fileName)
    else host.closeMatching (source dirPath fileName)) (source dirPath fileName)
    (target dirPath fileName)).nodes = _
  split
  · next hdir =>
    have hfreed : host.freed (target dirPath fileName) = ((host.closeMatching
        (source dirPath fileName)).removeDirectory (target dirPath fileName)).nodes := by
      funext r
      simp only [freed, hdir, true_and]
      rfl
    have hclosed' : ((host.closeMatching (source dirPath fileName)).removeDirectory
        (target dirPath fileName)).openFiles.any ((source dirPath fileName).isPrefixOf ·) = false :=
      hclosed
    rw [renameFile_nodes hclosed', hfreed]
    rfl
  · next hdir =>
    have hfreed : host.freed (target dirPath fileName) =
        (host.closeMatching (source dirPath fileName)).nodes := by
      funext r
      simp only [freed, hdir, false_and, if_false]
      rfl
    rw [renameFile_nodes hclosed, hfreed]
    rfl

theorem length_source : (source dirPath fileName).length = dirPath.length + 1 := by
  rw [source, List.length_append, List.length_singleton]

theorem length_target : (target dirPath fileName).length = dirPath.length + 1 := by
  rw [target, List.length_append, List.length_singleton]

/-- How long a path is, in its names. -/
def size (path : HostPath) : Nat := (path.map List.length).sum

theorem size_append (p q : HostPath) : size (p ++ q) = size p + size q := by
  rw [size, List.map_append, List.sum_append]
  rfl

theorem size_target : size (target dirPath fileName) = size (source dirPath fileName) + 15 := by
  rw [target, source, size_append, size_append]
  simp only [size, List.map_cons, List.map_nil, List.sum_cons, List.sum_nil, List.length_append,
    deletedPrefix, List.length_cons, List.length_nil]
  omega

theorem nodes_of_delete {r : HostPath} {x : HostNode}
    (h : (host.delete dirPath fileName).nodes r = some x) : host.nodes r = some x ∨
      ∃ rest, r = target dirPath fileName ++ rest ∧
        host.nodes (source dirPath fileName ++ rest) = some x := by
  classical
  have hfreed {r : HostPath} (h : host.freed (target dirPath fileName) r = some x) :
      host.nodes r = some x := by
    rw [freed] at h
    split at h
    · exact absurd h (Option.some_ne_none x).symm
    · exact h
  rw [delete_nodes] at h
  dsimp only at h
  split at h
  · simp only [moved] at h
    split at h
    · next hpre =>
      obtain ⟨rest, rfl⟩ := hpre
      rw [List.drop_left] at h
      exact Or.inr ⟨rest, rfl, hfreed h⟩
    · split at h
      · exact absurd h (Option.some_ne_none x).symm
      · exact Or.inl (hfreed h)
  · exact Or.inl (hfreed h)

theorem delete_nodes_of_apart (hsource : ¬ source dirPath fileName <+: path)
    (htarget : ¬ target dirPath fileName <+: path) :
    (host.delete dirPath fileName).nodes path = host.nodes path := by
  classical
  have hfreed : host.freed (target dirPath fileName) path = host.nodes path := by
    rw [freed, if_neg fun h => htarget h.2]
  rw [delete_nodes]
  dsimp only
  split
  · simp only [moved, htarget, hsource, if_false]
    exact hfreed
  · exact hfreed

/-- The folder as a host can have it: what is on the way to a file is a directory, and names are not
empty. -/
structure WellFormed (host : Host) : Prop where
  parent : ∀ p, (host.nodes p).isSome → ∀ q, q <+: p → q ≠ p → host.nodes q = some .dir
  named : ∀ p, (host.nodes p).isSome → [] ∉ p

/-- The deletion loses the file at a path. -/
def Loses (dirPath : HostPath) (fileName : List UInt8) (path : HostPath) : Prop :=
  source dirPath fileName <+: path ∨
    (target dirPath fileName <+: path ∧ (target dirPath fileName ≠ path ∨ fileName ≠ []))

theorem named_delete (h : ∀ p, (host.nodes p).isSome → [] ∉ p) (p : HostPath)
    (hp : ((host.delete dirPath fileName).nodes p).isSome) : [] ∉ p := by
  obtain ⟨x, hx⟩ := Option.isSome_iff_exists.mp hp
  rcases nodes_of_delete hx with hsame | ⟨rest, rfl, hmoved⟩
  · exact h p (hsame ▸ rfl)
  · have hnil := h _ (by rw [hmoved]; rfl)
    rw [source, List.mem_append, List.mem_append, not_or, not_or] at hnil
    rw [target, List.mem_append, List.mem_append, not_or, not_or]
    refine ⟨⟨hnil.1.1, ?_⟩, hnil.2⟩
    rw [List.mem_singleton]
    exact fun heq => absurd heq.symm (List.cons_ne_nil _ _)

theorem delete_keeps {data : List UInt8} (hnamed : ∀ p, (host.nodes p).isSome → [] ∉ p)
    (hfile : host.nodes path = some (.file data)) (h : ¬ Loses dirPath fileName path) :
    (host.delete dirPath fileName).nodes path = some (.file data) := by
  classical
  rw [Loses, not_or, not_and, not_or, not_not, not_not] at h
  by_cases htarget : target dirPath fileName <+: path
  · -- an entry without a name has no file that could come here
    obtain ⟨heq, hempty⟩ := h.2 htarget
    have hnone : host.nodes (source dirPath fileName) = none := by
      by_contra hsome
      refine hnamed _ (Option.isSome_iff_ne_none.mpr hsome) ?_
      rw [source, hempty]
      exact List.mem_append_right _ List.mem_cons_self
    have hfreed : host.freed (target dirPath fileName) = host.nodes := by
      funext r
      rw [freed, if_neg]
      rw [heq, hfile]
      exact fun hdir => HostNode.noConfusion (Option.some.inj hdir.1)
    rw [delete_nodes, hfreed, if_neg]
    · exact hfile
    · rw [Moves, hnone]
      exact fun hmoves => Bool.false_ne_true hmoves.1
  · rw [delete_nodes_of_apart h.1 htarget]
    exact hfile

section Lost

/-- A file that is told apart from the others by its contents. -/
def mark : HostNode := .file [0]

/-- The marked file has a longer path than it had. -/
def Gone (path : HostPath) (host : Host) : Prop :=
  ∀ r, host.nodes r = some mark → size path < size r

theorem Gone.delete (h : Gone path host) : Gone path (host.delete dirPath fileName) := by
  intro r hr
  rcases nodes_of_delete hr with hsame | ⟨rest, rfl, hmoved⟩
  · exact h r hsame
  · have hlt := h _ hmoved
    rw [size_append] at hlt
    rw [size_append, size_target]
    omega

theorem Gone.nodes_ne (h : Gone path host) : host.nodes path ≠ some mark := fun heq =>
  Nat.lt_irrefl _ (h path heq)

open Classical in
/-- A folder with the marked file and, if need be, one other. -/
noncomputable def marked (path : HostPath) (extra : Option HostPath) : Host where
  nodes r := if r = path then some mark else if r <+: path then some .dir
    else if extra = some r then some (.file []) else none
  openFiles := []

/-- The other file is one that would come to the place of the marked one. -/
def Extra (path : HostPath) (extra : Option HostPath) : Prop :=
  extra = none ∨ ∃ dirPath fileName, extra = some (source dirPath fileName) ∧
    target dirPath fileName = path ∧ fileName ≠ []

theorem not_prefix_both (hs : source dirPath fileName <+: path)
    (ht : target dirPath fileName <+: path) : False := by
  have heq : source dirPath fileName = target dirPath fileName :=
    (List.prefix_of_prefix_length_le hs ht (by rw [length_source, length_target])).eq_of_length
      (by rw [length_source, length_target])
  have hsize : size (target dirPath fileName) = size (source dirPath fileName) + 15 := size_target
  rw [← heq] at hsize
  omega

variable {extra : Option HostPath}

theorem marked_wellFormed (hnamed : [] ∉ path) (hextra : Extra path extra) :
    (marked path extra).WellFormed := by
  classical
  constructor
  · intro p hp q hq hne
    simp only [marked] at hp ⊢
    have hnot (h : q = path) (hpre : p <+: path) : False :=
      hne (hq.eq_of_length_le (h ▸ hpre.length_le))
    split at hp
    · next heq => rw [if_neg fun h => hnot h (heq ▸ List.prefix_refl _), if_pos (heq ▸ hq)]
    · split at hp
      · next hpre => rw [if_neg fun h => hnot h hpre, if_pos (hq.trans hpre)]
      · split at hp
        · next hsome =>
          rcases hextra with hnone | ⟨d, n, hd, rfl, -⟩
          · exact absurd (hnone.symm.trans hsome) (Option.some_ne_none p).symm
          · obtain rfl := Option.some.inj (hd.symm.trans hsome)
            have hdir : q <+: d := by
              rcases List.prefix_concat_iff.mp hq with heq | hpre
              · exact absurd heq hne
              · exact hpre
            have hlen := hdir.length_le
            have hpath : q <+: target d n := hdir.trans (List.prefix_append d _)
            rw [if_neg fun h => ?_, if_pos hpath]
            rw [h, length_target] at hlen
            omega
        · exact absurd hp Bool.false_ne_true
  · intro p hp
    simp only [marked] at hp
    split at hp
    · next heq => exact heq ▸ hnamed
    · split at hp
      · next hpre => exact fun hmem => hnamed (hpre.subset hmem)
      · split at hp
        · next hsome =>
          rcases hextra with hnone | ⟨d, n, hd, rfl, hn⟩
          · exact absurd (hnone.symm.trans hsome) (Option.some_ne_none p).symm
          · obtain rfl := Option.some.inj (hd.symm.trans hsome)
            rw [source, List.mem_append, not_or]
            refine ⟨fun hmem => hnamed (List.mem_append_left _ hmem), ?_⟩
            rw [List.mem_singleton]
            exact fun heq => hn heq.symm
        · exact absurd hp Bool.false_ne_true

theorem delete_marked (hextra : Extra path extra) (h : ¬ Loses dirPath fileName path) :
    (marked path extra).delete dirPath fileName = marked path extra := by
  rw [Loses, not_or] at h
  have hsource : (marked path extra).nodes (source dirPath fileName) = none := by
    have hne : source dirPath fileName ≠ path := fun heq => h.1 (heq ▸ List.prefix_refl _)
    simp only [marked]
    rw [if_neg hne, if_neg h.1, if_neg fun hsome => ?_]
    rcases hextra with hnone | ⟨d, n, hd, htarget, hn⟩
    · exact absurd (hnone.symm.trans hsome) (Option.some_ne_none _).symm
    · obtain ⟨rfl, hsame⟩ := List.append_inj' (Option.some.inj (hd.symm.trans hsome)) rfl
      obtain rfl := List.singleton_inj.mp hsame
      exact h.2 ⟨htarget ▸ List.prefix_refl _, Or.inr hn⟩
  have htarget : (marked path extra).nodes (target dirPath fileName) ≠ some .dir := by
    simp only [marked]
    split
    · exact fun heq => HostNode.noConfusion (Option.some.inj heq)
    · next hne =>
      rw [if_neg fun hpre => h.2 ⟨hpre, Or.inl hne⟩]
      split
      · exact fun heq => HostNode.noConfusion (Option.some.inj heq)
      · exact (Option.some_ne_none _).symm
  rw [delete]
  change (if (marked path extra).nodes (target dirPath fileName) = some .dir then _
    else marked path extra).renameFile (source dirPath fileName) (target dirPath fileName) = _
  rw [if_neg htarget, renameFile, hsource]
  rfl

theorem exists_gone (h : Loses dirPath fileName path) :
    ∃ extra, Extra path extra ∧ Gone path ((marked path extra).delete dirPath fileName) := by
  classical
  have hmark {extra : Option HostPath} {r : HostPath}
      (hr : (marked path extra).nodes r = some mark) : r = path := by
    simp only [marked] at hr
    split at hr
    · assumption
    · split at hr
      · exact HostNode.noConfusion (Option.some.inj hr)
      · split at hr
        · exact absurd (HostNode.file.inj (Option.some.inj hr)) (List.cons_ne_nil _ _).symm
        · exact absurd hr (Option.some_ne_none mark).symm
  have hfile (extra : Option HostPath) : (marked path extra).nodes path = some mark := by
    simp only [marked, if_true]
  -- the file's directory is removed
  by_cases hdir : target dirPath fileName <+: path ∧ target dirPath fileName ≠ path
  · refine ⟨none, Or.inl rfl, fun r hr => ?_⟩
    have hnode : (marked path none).nodes (target dirPath fileName) = some .dir := by
      simp only [marked]
      rw [if_neg hdir.2, if_pos hdir.1]
    have hfreed (r : HostPath) : (marked path none).freed (target dirPath fileName) r ≠ some mark := by
      rw [freed]
      split
      · exact (Option.some_ne_none mark).symm
      · next hnot =>
        intro heq
        exact hnot ⟨hnode, (hmark heq) ▸ hdir.1⟩
    rw [delete_nodes] at hr
    dsimp only at hr
    split at hr
    · simp only [moved] at hr
      split at hr
      · exact absurd hr (hfreed _)
      · split at hr
        · exact absurd hr (Option.some_ne_none mark).symm
        · exact absurd hr (hfreed _)
    · exact absurd hr (hfreed _)
  · -- something moves: the file, its directory, or another file to its place
    suffices hmoves : ∃ extra, Extra path extra ∧
        (marked path extra).nodes (target dirPath fileName) ≠ some .dir ∧
        Moves (marked path extra).nodes (source dirPath fileName) (target dirPath fileName) by
      obtain ⟨extra, hextra, hnode, hmoves⟩ := hmoves
      refine ⟨extra, hextra, fun r hr => ?_⟩
      have hfreed : (marked path extra).freed (target dirPath fileName) =
          (marked path extra).nodes := by
        funext r
        rw [freed, if_neg fun hboth => hnode hboth.1]
      rw [delete_nodes, hfreed] at hr
      simp only [hmoves, if_true, moved] at hr
      split at hr
      · next hpre =>
        obtain ⟨rest, rfl⟩ := hpre
        rw [List.drop_left] at hr
        rw [← hmark hr, size_append, size_append, size_target]
        omega
      · next htarget =>
        split at hr
        · exact absurd hr (Option.some_ne_none mark).symm
        · next hsource =>
          obtain rfl := hmark hr
          exact absurd h fun hl => hl.elim hsource fun hl => htarget hl.1
    by_cases hsource : source dirPath fileName <+: path
    · have htarget : (marked path none).nodes (target dirPath fileName) = none := by
        have hnot : ¬ target dirPath fileName <+: path := fun ht => not_prefix_both hsource ht
        have hne : target dirPath fileName ≠ path := fun heq => hnot (heq ▸ List.prefix_refl _)
        simp only [marked]
        rw [if_neg hne, if_neg hnot, if_neg (Option.some_ne_none _).symm]
      refine ⟨none, Or.inl rfl, by rw [htarget]; exact (Option.some_ne_none _).symm, ?_,
        Or.inl htarget⟩
      simp only [marked, hsource, if_true]
      split <;> rfl
    · have hl := h.resolve_left hsource
      have heq : target dirPath fileName = path := not_not.mp fun hne => hdir ⟨hl.1, hne⟩
      have hname : fileName ≠ [] := hl.2.resolve_left (not_not_intro heq)
      have hnode : (marked path (some (source dirPath fileName))).nodes (target dirPath fileName) =
          some mark := by
        rw [heq]
        exact hfile _
      have hother : (marked path (some (source dirPath fileName))).nodes
          (source dirPath fileName) = some (.file []) := by
        have hne : source dirPath fileName ≠ path := fun heq => hsource (heq ▸ List.prefix_refl _)
        simp only [marked]
        rw [if_neg hne, if_neg hsource, if_pos trivial]
      refine ⟨_, Or.inr ⟨dirPath, fileName, rfl, heq, hname⟩, ?_, by rw [hother]; rfl,
        Or.inr ⟨_, _, hother, hnode⟩⟩
      rw [hnode]
      exact fun hdir => HostNode.noConfusion (Option.some.inj hdir)

end Lost

end Host

end OmegaRed.Memcard

/-! A flush of a card on which the guest has deleted. -/

namespace OmegaRed.Memcard.FolderMemoryCard

open MemoryCardFileEntryTreeNode Host

variable (card : FolderMemoryCard)

/-- The root directory, by its first cluster and its length. -/
def rootDir : Nat × Nat :=
  (card.rootdirCluster, ((card.fileEntries card.rootdirCluster).entries 0).length)

/-- The folder when the actions have been taken. -/
def flushHost (actions : List FlushAction) (host : Host) : Host := actions.foldl FlushAction.run host

def hostPath (dirs : List MemoryCardFileEntry) (entry : MemoryCardFileEntry) : HostPath :=
  dirs.map MemoryCardFileEntry.hostName ++ [entry.hostName]

/-- The guest has deleted the entry: its directory is still there, and has no such entry. -/
def Deleted (old : List MemoryCardFileEntryTreeNode) (dirs : List MemoryCardFileEntry)
    (entry : MemoryCardFileEntry) : Prop := Meets card old card.rootDir dirs entry none

/-- The entry of a file still exists. -/
def Kept (old : List MemoryCardFileEntryTreeNode) (dirs : List MemoryCardFileEntry)
    (entry : MemoryCardFileEntry) : Prop :=
  entry.isDir = false ∧ ∃ newEntry, Meets card old card.rootDir dirs entry (some newEntry)

/-- The files and directories that get their deleted names are those of the deleted entries, and
every file whose entry still exists is left in place. -/
structure DeletesOnly (old : List MemoryCardFileEntryTreeNode) : Prop where
  deletes : ∀ dirPath fileName, .delete dirPath fileName ∈ card.flushDeletedRoot old ↔
    ∃ dirs entry, card.Deleted old dirs entry ∧
      dirPath = dirs.map MemoryCardFileEntry.hostName ∧ fileName = entry.hostName
  leaves : ∀ host : Host, host.WellFormed → ∀ dirs entry data, card.Kept old dirs entry →
    host.nodes (hostPath dirs entry) = some (.file data) →
    (flushHost (card.flushDeletedRoot old) host).nodes (hostPath dirs entry) = some (.file data)

/-- No entry that is deleted has on the host the name of a file that still exists or of a directory
above it, and neither has its deleted name. -/
def Apart (old : List MemoryCardFileEntryTreeNode) : Prop :=
  ∀ dirs entry dirs' entry', card.Deleted old dirs entry → card.Kept old dirs' entry' →
    [] ∉ hostPath dirs' entry' →
    ¬ Loses (dirs.map MemoryCardFileEntry.hostName) entry.hostName (hostPath dirs' entry')

theorem mem_flushDeletedRoot (old : List MemoryCardFileEntryTreeNode) (p : HostPath)
    (n : List UInt8) : .delete p n ∈ card.flushDeletedRoot old ↔
      ∃ dirs entry, card.Deleted old dirs entry ∧
        p = dirs.map MemoryCardFileEntry.hostName ∧ n = entry.hostName :=
  mem_flushDeleted old card.rootDir [] p n

theorem flushHost_keeps {path : HostPath} {data : List UInt8} {actions : List FlushAction}
    (h : ∀ p n, .delete p n ∈ actions → ¬ Loses p n path) {host : Host}
    (hnamed : ∀ p, (host.nodes p).isSome → [] ∉ p) (hfile : host.nodes path = some (.file data)) :
    (flushHost actions host).nodes path = some (.file data) := by
  induction actions generalizing host with
  | nil => exact hfile
  | cons action actions ih =>
    have hrest := fun p n hmem => h p n (List.mem_cons_of_mem action hmem)
    cases action with
    | removeUnchanged oldEntry newEntry => exact ih hrest hnamed hfile
    | delete p n =>
      exact ih hrest (named_delete hnamed) (delete_keeps hnamed hfile (h p n List.mem_cons_self))

theorem gone_flushHost {path : HostPath} {host : Host} (h : Gone path host)
    (actions : List FlushAction) : Gone path (flushHost actions host) := by
  induction actions generalizing host with
  | nil => exact h
  | cons action actions ih =>
    cases action with
    | removeUnchanged oldEntry newEntry => exact ih h
    | delete p n => exact ih h.delete

theorem exists_lost {path : HostPath} {actions : List FlushAction}
    (h : ∃ p n, .delete p n ∈ actions ∧ Loses p n path) :
    ∃ extra, Extra path extra ∧ Gone path (flushHost actions (marked path extra)) := by
  induction actions with
  | nil =>
    obtain ⟨p, n, hmem, -⟩ := h
    exact absurd hmem List.not_mem_nil
  | cons action actions ih =>
    obtain ⟨p, n, hmem, hl⟩ := h
    by_cases hfirst : ∃ p n, action = .delete p n ∧ Loses p n path
    · obtain ⟨p, n, rfl, hl⟩ := hfirst
      obtain ⟨extra, hextra, hgone⟩ := exists_gone hl
      exact ⟨extra, hextra, gone_flushHost hgone actions⟩
    · -- the first action does nothing to the folder
      rcases List.mem_cons.mp hmem with heq | hmem
      · exact absurd ⟨p, n, heq.symm, hl⟩ hfirst
      · obtain ⟨extra, hextra, hgone⟩ := ih ⟨p, n, hmem, hl⟩
        refine ⟨extra, hextra, ?_⟩
        cases action with
        | removeUnchanged oldEntry newEntry => exact hgone
        | delete p n =>
          have hsame := delete_marked hextra fun hl => hfirst ⟨p, n, rfl, hl⟩
          change Gone path (flushHost actions ((marked path extra).delete p n))
          rw [hsame]
          exact hgone

/-- A flush deletes only what the guest has deleted exactly when the host's names keep apart what it
has deleted and what it has not. -/
theorem deletesOnly_iff (old : List MemoryCardFileEntryTreeNode) :
    card.DeletesOnly old ↔ card.Apart old := by
  constructor
  · intro h dirs entry dirs' entry' hdeleted hkept hnamed hl
    obtain ⟨extra, hextra, hgone⟩ := exists_lost ⟨_, _,
      (card.mem_flushDeletedRoot old _ _).mpr ⟨dirs, entry, hdeleted, rfl, rfl⟩, hl⟩
    have hfile : (marked (hostPath dirs' entry') extra).nodes (hostPath dirs' entry') =
        some mark := by
      simp only [marked, if_true]
    exact hgone.nodes_ne (h.leaves _ (marked_wellFormed hnamed hextra) dirs' entry' _ hkept hfile)
  · intro h
    refine ⟨card.mem_flushDeletedRoot old, fun host hwell dirs' entry' data hkept hfile => ?_⟩
    refine flushHost_keeps (fun p n hmem => ?_) hwell.named hfile
    obtain ⟨dirs, entry, hdeleted, rfl, rfl⟩ := (card.mem_flushDeletedRoot old p n).mp hmem
    exact h dirs entry dirs' entry' hdeleted hkept (hwell.named _ (by rw [hfile]; rfl))

section Collision

/-- A file whose name is `a`, the character and `b`. -/
def named (c : UInt8) : MemoryCardFileEntry :=
  ⟨fun i => if i = 0 then 0x17 else if i = 1 then 0x84 else if i = 0x40 then 0x61
    else if i = 0x41 then c else if i = 0x42 then 0x62 else 0⟩

/-- A card whose root directory has itself and `a|b`. -/
def remaining : FolderMemoryCard where
  superBlock _ := 0
  indirectFat _ := 0
  fat _ := 0xFF
  backupBlock1 _ := 0
  backupBlock2 _ := 0
  fileEntryDict _ := some ⟨fun i => if i = 0 then
    ⟨fun i => if i = 0 then 0x27 else if i = 1 then 0x84 else if i = 4 then 2
      else if i = 0x40 then 0x2e else 0⟩ else named 0x7C⟩
  fileMetadataQuickAccess _ := none
  cache _ := none
  oldDataCache _ := none

/-- Before, there were `a:b` and `a|b`. -/
def before : List MemoryCardFileEntryTreeNode := [.node (named 0x3A) [], .node (named 0x7C) []]

/-- The folder with the file of both. -/
def shared : Host where
  nodes path := if path = [] then some .dir else if path = [[0x61, 0x5F, 0x62]] then some (.file [1])
    else none
  openFiles := []

theorem shared_wellFormed : shared.WellFormed := by
  have hcases (p : HostPath) (hp : (shared.nodes p).isSome) : p = [] ∨ p = [[0x61, 0x5F, 0x62]] := by
    simp only [shared] at hp
    split at hp
    · exact Or.inl ‹_›
    · split at hp
      · exact Or.inr ‹_›
      · exact absurd hp Bool.false_ne_true
  refine ⟨fun p hp q hq hne => ?_, fun p hp => ?_⟩
  · have hlt : q.length < p.length :=
      Nat.lt_of_le_of_ne hq.length_le fun heq => hne (hq.eq_of_length heq)
    rcases hcases p hp with rfl | rfl
    · exact absurd hlt (Nat.not_lt_zero _)
    · obtain rfl := List.length_eq_zero_iff.mp (Nat.lt_one_iff.mp hlt)
      rfl
  · rcases hcases p hp with rfl | rfl <;> decide

theorem kept_remaining : remaining.Kept before [] (named 0x7C) := by
  have hsome : ((remaining.liveEntries remaining.rootDir).find?
      (·.equivalent (named 0x7C))).isSome := by decide
  obtain ⟨newEntry, hnew⟩ := Option.isSome_iff_exists.mp hsome
  refine ⟨by decide, newEntry, hnew ▸ .here (List.mem_cons_of_mem _ List.mem_cons_self) ?_ ?_⟩
  · decide
  · decide

/-- The guest deletes `a:b` and keeps `a|b`: the file of both is renamed. -/
theorem not_deletesOnly_collision : ¬ remaining.DeletesOnly before := by
  intro h
  have hleft := h.leaves shared shared_wellFormed [] (named 0x7C) [1] kept_remaining (by decide)
  revert hleft
  decide

end Collision

end OmegaRed.Memcard.FolderMemoryCard
