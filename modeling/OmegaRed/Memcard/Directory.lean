import OmegaRed.Memcard.Chains

/-! The directories of a folder card: the tree that is copied of them, the search for an entry and
the search for a cluster, and what they say a directory has. -/

namespace OmegaRed.Memcard

open Lib.Memory Lib.Words

namespace MemoryCardFileEntry

variable (entry : MemoryCardFileEntry)

/-- The name up to its end, as `strncmp` and the host see it. -/
def nameBytes : List UInt8 := ((List.range 0x20).map entry.name).takeWhile (· ≠ 0)

def isLive : Bool := entry.isValid && entry.isUsed

/-- The entry of a subdirectory. -/
def isSubdir : Bool := entry.isDir && !entry.isDotDir

/-- An entry of the same type and name. -/
def equivalent (searchEntry : MemoryCardFileEntry) : Bool :=
  entry.isFile == searchEntry.isFile && entry.isDir == searchEntry.isDir &&
    searchEntry.nameBytes == entry.nameBytes

end MemoryCardFileEntry

/-- `MemoryCardFileEntryTreeNode` -/
inductive MemoryCardFileEntryTreeNode
  | node (entry : MemoryCardFileEntry) (subdir : List MemoryCardFileEntryTreeNode)

namespace MemoryCardFileEntryTreeNode

def entry : MemoryCardFileEntryTreeNode → MemoryCardFileEntry
  | node entry _ => entry

/-- The entries of a tree, each with the directories it is in, the nearest first. -/
def paths (parent : List MemoryCardFileEntry) :
    MemoryCardFileEntryTreeNode → List (List MemoryCardFileEntry × MemoryCardFileEntry)
  | node entry subdir => (parent, entry) :: subdir.flatMap (paths (entry :: parent))

theorem paths_node (parent : List MemoryCardFileEntry) (entry : MemoryCardFileEntry)
    (subdir : List MemoryCardFileEntryTreeNode) : paths parent (node entry subdir) =
      (parent, entry) :: subdir.flatMap (paths (entry :: parent)) := by
  rw [paths]

end MemoryCardFileEntryTreeNode

open MemoryCardFileEntryTreeNode

namespace FolderMemoryCard

variable (card : FolderMemoryCard)

/-- The node of an entry, which has none unless it is live. -/
def copyNode (entry : MemoryCardFileEntry) (subdir : Option (List MemoryCardFileEntryTreeNode)) :
    Option (List MemoryCardFileEntryTreeNode) :=
  if entry.isLive then
    if entry.isSubdir then subdir.map fun subdir => [node entry subdir] else some [node entry []]
  else some []

/-- The loop of `CopyEntryDictIntoTree` from entry `i` on, which is in `fileCluster`. -/
def copyEntries : Nat → Nat → Nat → Nat → Option (List MemoryCardFileEntryTreeNode)
  | 0, _, _, _ => none
  | fuel + 1, fileCluster, i, fileCount =>
    if i < fileCount then do
      let entry := (card.fileEntries fileCluster).entries (i % 2)
      let nodes ← copyNode entry (copyEntries fuel entry.cluster 0 entry.length)
      if i % 2 = 1 then
        let next := card.fatAt fileCluster % 2 ^ 31
        if next = lastDataCluster then some nodes
        else (copyEntries fuel next (i + 1) fileCount).map (nodes ++ ·)
      else (copyEntries fuel fileCluster (i + 1) fileCount).map (nodes ++ ·)
    else some []

def copyEntryDictIntoTree (fuel cluster fileCount : Nat) :
    Option (List MemoryCardFileEntryTreeNode) :=
  card.copyEntries fuel cluster 0 fileCount

/-- The loop of `FindEquivalent`. -/
def findEntry (searchEntry : MemoryCardFileEntry) :
    Nat → Nat → Nat → Nat → Option (Option MemoryCardFileEntry)
  | 0, _, _, _ => none
  | fuel + 1, fileCluster, i, fileCount =>
    if i < fileCount then
      let entry := (card.fileEntries fileCluster).entries (i % 2)
      if entry.isLive && entry.equivalent searchEntry then some (some entry)
      else if i % 2 = 1 then
        let next := card.fatAt fileCluster % 2 ^ 31
        if next = lastDataCluster then some none
        else findEntry searchEntry fuel next (i + 1) fileCount
      else findEntry searchEntry fuel fileCluster (i + 1) fileCount
    else some none

def findEquivalent (fuel : Nat) (searchEntry : MemoryCardFileEntry) (cluster fileCount : Nat) :
    Option (Option MemoryCardFileEntry) :=
  card.findEntry searchEntry fuel cluster 0 fileCount

/-- `checkSubdirectories`, with the entries that it looks at. -/
def searchSubdirectories
    (visit : MemoryCardFileEntry → Option (Option MemoryCardFileEntryCluster × List Examined))
    (parent : List MemoryCardFileEntry) (currentCluster fileCount index : Nat) :
    Option (Option MemoryCardFileEntryCluster × List Examined) :=
  match card.fileEntryDict currentCluster with
  | none => some (none, [])
  | some it =>
    (List.range (min fileCount 2)).foldlM (fun found i =>
      let entry := it.entries i
      if found.1.isSome then some found
      else
        let examined := found.2 ++ [⟨parent, index + i, entry⟩]
        if entry.isValid && entry.isUsed && entry.isDir && !entry.isDotDir then
          (visit entry).map fun r => (r.1, examined ++ r.2)
        else some (none, examined)) (none, [])

/-- `GetFileEntryCluster`, with the entries that it looks at. -/
def searchFileEntries :
    Nat → List MemoryCardFileEntry → Nat → Nat → Nat → Nat →
      Option (Option MemoryCardFileEntryCluster × List Examined)
  | 0, _, _, _, _, _ => none
  | fuel + 1, parent, currentCluster, searchCluster, fileCount, index =>
    if currentCluster = searchCluster then some (some (card.fileEntries currentCluster), [])
    else
      let next := card.fatAt currentCluster % 2 ^ 31
      let found := if next ≠ lastDataCluster then
          searchFileEntries fuel parent next searchCluster (u32Sub fileCount 2) (index + 2)
        else some (none, [])
      found.bind fun found =>
        if found.1.isSome then some found
        else (card.searchSubdirectories (fun entry =>
          searchFileEntries fuel (entry :: parent) entry.cluster searchCluster entry.length 0)
          parent currentCluster fileCount index).map fun r => (r.1, found.2 ++ r.2)

/-- Cluster `j` of the chain that begins with a cluster. -/
def chainAt (cluster : Nat) : Nat → Option Nat
  | 0 => some cluster
  | j + 1 => (chainAt cluster j).bind fun c =>
    if card.fatAt c % 2 ^ 31 = lastDataCluster then none else some (card.fatAt c % 2 ^ 31)

/-- Entry `n` of the directory that begins in a cluster. -/
def entryAt (cluster n : Nat) : Option MemoryCardFileEntry :=
  (card.chainAt cluster (n / 2)).map fun c => (card.fileEntries c).entries (n % 2)

/-- The directory's chain has no cluster behind the one that its length ends in or before. -/
def ChainFits (cluster length : Nat) : Prop := ∀ j, (card.chainAt cluster j).isSome → 2 * j ≤ length

/-- A directory that a live entry of another names, by its first cluster and its length. -/
def Subdirectory (d d' : Nat × Nat) : Prop :=
  ∃ n < d.2, ∃ entry, card.entryAt d.1 n = some entry ∧ entry.isLive ∧ entry.isSubdir ∧
    d' = (entry.cluster, entry.length)

end FolderMemoryCard

end OmegaRed.Memcard

/-! What a flush deletes: the entries of the old tree that have no equivalent any more, and the host's
files that go with them. -/

namespace OmegaRed.Memcard

namespace FileAccessHelper

/-- `\`, `%`, `:`, `|`, `"`, `<` and `>` -/
def illegalChars : List UInt8 := [0x5C, 0x25, 0x3A, 0x7C, 0x22, 0x3C, 0x3E]

def cleanMemcardFilenameEndDotOrSpace (name : List UInt8) : List UInt8 × Bool :=
  let trailing := (name.reverse.takeWhile fun c => c == 0x20 || c == 0x2E).length
  (name.take (name.length - trailing) ++ List.replicate trailing 0x5F, trailing != 0)

def cleanMemcardFilename (name : List UInt8) : List UInt8 × Bool :=
  let replaced := name.map fun c => if illegalChars.contains c then 0x5F else c
  let ended := cleanMemcardFilenameEndDotOrSpace replaced
  (ended.1, ended.2 || name.any illegalChars.contains)

end FileAccessHelper

/-- The name of the entry's file on the host. A name has an end, and no `/` in it. -/
def MemoryCardFileEntry.hostName (entry : MemoryCardFileEntry) : List UInt8 :=
  (FileAccessHelper.cleanMemcardFilename entry.nameBytes).1

/-- A path in the card's folder, by the names on it. -/
abbrev HostPath := List (List UInt8)

/-- A path as the host writes it. -/
def pathString (path : HostPath) : List UInt8 := path.flatMap (0x2F :: ·)

inductive HostNode
  | dir
  | file (data : List UInt8)
  deriving DecidableEq

/-- The card's folder on the host, which tells apart names by their bytes, and the files that
`m_lastAccessedFile` has opened. -/
structure Host where
  nodes : HostPath → Option HostNode
  openFiles : List HostPath

namespace Host

variable (host : Host)

def closeMatching (path : HostPath) : Host :=
  { host with openFiles := host.openFiles.filter fun file =>
      !(pathString path).isPrefixOf (pathString file) }

def removeDirectory (dirname : HostPath) : Host :=
  { host with nodes := fun path => if dirname <+: path then none else host.nodes path }

/-- Where everything is when a file or a directory has moved. -/
def moved (file1 file2 : HostPath) : Host :=
  { host with nodes := fun path =>
      if file2 <+: path then host.nodes (file1 ++ path.drop file2.length)
      else if file1 <+: path then none
      else host.nodes path }

/-- `wxRenameFile`: what is opened does not move, and only files are overwritten, by files. -/
def renameFile (file1 file2 : HostPath) : Host :=
  if host.openFiles.any (file1.isPrefixOf ·) then host
  else
    match host.nodes file1, host.nodes file2 with
    | some _, none => host.moved file1 file2
    | some (.file _), some (.file _) => host.moved file1 file2
    | _, _ => host

/-- `_pcsx2_deleted_` -/
def deletedPrefix : List UInt8 :=
  [0x5F, 0x70, 0x63, 0x73, 0x78, 0x32, 0x5F, 0x64, 0x65, 0x6C, 0x65, 0x74, 0x65, 0x64, 0x5F]

/-- The file or directory of an entry that is gone gets its deleted name. -/
def delete (dirPath : HostPath) (fileName : List UInt8) : Host :=
  let filePath := dirPath ++ [fileName]
  let host := host.closeMatching filePath
  let newFilePath := dirPath ++ [deletedPrefix ++ fileName]
  let host := if host.nodes newFilePath = some .dir then host.removeDirectory newFilePath else host
  host.renameFile filePath newFilePath

end Host

/-- What `FlushDeletedFilesAndRemoveUnchangedDataFromCache` does with an entry. -/
inductive FlushAction
  | delete (dirPath : HostPath) (fileName : List UInt8)
  | removeUnchanged (oldEntry newEntry : MemoryCardFileEntry)

def FlushAction.run (host : Host) : FlushAction → Host
  | delete dirPath fileName => host.delete dirPath fileName
  | removeUnchanged _ _ => host

namespace FolderMemoryCard

variable (card : FolderMemoryCard)

/-- `FindEquivalent`; its loop ends with the length. -/
def equivalentEntry (searchEntry : MemoryCardFileEntry) (cluster fileCount : Nat) :
    Option MemoryCardFileEntry :=
  (card.findEquivalent (fileCount + 1) searchEntry cluster fileCount).getD none

mutual

/-- One entry of the old tree. -/
def flushDeletedNode (newCluster newFileCount : Nat) (dirPath : HostPath) :
    MemoryCardFileEntryTreeNode → List FlushAction
  | .node entry subdir =>
    if entry.isValid && entry.isUsed && !entry.isDotDir then
      match card.equivalentEntry entry newCluster newFileCount with
      | none => [.delete dirPath entry.hostName]
      | some newEntry =>
        if entry.isDir then
          flushDeleted newEntry.cluster newEntry.length (dirPath ++ [entry.hostName]) subdir
        else if entry.isFile then [.removeUnchanged entry newEntry]
        else []
    else []

/-- `FlushDeletedFilesAndRemoveUnchangedDataFromCache` -/
def flushDeleted (newCluster newFileCount : Nat) (dirPath : HostPath) :
    List MemoryCardFileEntryTreeNode → List FlushAction
  | [] => []
  | entry :: oldFileEntries =>
    flushDeletedNode newCluster newFileCount dirPath entry ++
      flushDeleted newCluster newFileCount dirPath oldFileEntries

end

/-- The call for the root directory. -/
def flushDeletedRoot (oldFileEntries : List MemoryCardFileEntryTreeNode) : List FlushAction :=
  card.flushDeleted card.rootdirCluster ((card.fileEntries card.rootdirCluster).entries 0).length []
    oldFileEntries

/-- The live entries of a directory. -/
def liveEntries (d : Nat × Nat) : List MemoryCardFileEntry :=
  ((List.range d.2).filterMap (card.entryAt d.1)).filter (·.isLive)

/-- An entry of a tree, in the directory that has come of its own: the directories above it, and the
entry of the same name and type that is there now. -/
inductive Meets : List MemoryCardFileEntryTreeNode → Nat × Nat → List MemoryCardFileEntry →
    MemoryCardFileEntry → Option MemoryCardFileEntry → Prop
  | here {nodes : List MemoryCardFileEntryTreeNode} {d : Nat × Nat} {entry : MemoryCardFileEntry}
      {subdir : List MemoryCardFileEntryTreeNode} (hmem : .node entry subdir ∈ nodes)
      (hlive : entry.isLive) (hdot : entry.isDotDir = false) :
      Meets nodes d [] entry ((card.liveEntries d).find? (·.equivalent entry))
  | subdir {nodes : List MemoryCardFileEntryTreeNode} {d : Nat × Nat} {entry : MemoryCardFileEntry}
      {inner : List MemoryCardFileEntryTreeNode} {newEntry e : MemoryCardFileEntry}
      {dirs : List MemoryCardFileEntry} {m : Option MemoryCardFileEntry}
      (hmem : .node entry inner ∈ nodes) (hlive : entry.isLive) (hdot : entry.isDotDir = false)
      (hdir : entry.isDir) (hnew : (card.liveEntries d).find? (·.equivalent entry) = some newEntry)
      (hmeets : Meets inner (newEntry.cluster, newEntry.length) dirs e m) :
      Meets nodes d (entry :: dirs) e m

end FolderMemoryCard

end OmegaRed.Memcard
