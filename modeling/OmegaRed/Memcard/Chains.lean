import OmegaRed.Memcard.Folder
import OmegaRed.Lib.Walks

/-! The walks along the FAT, with the indices at which each of them reads it. -/

namespace OmegaRed.Memcard

open Lib.Memory Lib.Words

namespace MemoryCardFileEntry

variable (entry : MemoryCardFileEntry)

def isFile : Bool := entry.mode.testBit 4

/-- The bytes of a field of two entries are the same. -/
def sameField (entry' : MemoryCardFileEntry) (offset size : Nat) : Bool :=
  (List.range size).all fun i => entry.raw (offset + i) == entry'.raw (offset + i)

/-- `timeCreated`, `timeModified`, `length` and `cluster` are the same. -/
def unchanged (newEntry : MemoryCardFileEntry) : Bool :=
  entry.sameField newEntry 0x18 8 && entry.sameField newEntry 0x08 8 &&
    entry.length == newEntry.length && entry.cluster == newEntry.cluster

/-- `EmptyFileCluster` -/
def emptyFileCluster : Nat := 0xFFFFFFFF

theorem cluster_lt : entry.cluster < 2 ^ 32 := UInt32.toNat_lt _
theorem length_lt : entry.length < 2 ^ 32 := UInt32.toNat_lt _

end MemoryCardFileEntry

/-- `LastDataCluster | DataClusterInUseMask` -/
def lastUsedCluster : Nat := 0xFFFFFFFF

/-- What `m_fileMetadataQuickAccess` gets for a cluster; the parents are those of the entry, the
nearest first. -/
structure Reference where
  parent : List MemoryCardFileEntry
  entry : MemoryCardFileEntry
  consecutiveCluster : Nat

/-- An entry that a walk has looked at: the directories it is in and its number in the last one. -/
structure Examined where
  parent : List MemoryCardFileEntry
  index : Nat
  entry : MemoryCardFileEntry

/-- What a walk of `FlushFileEntries` does: the entries it looks at, the references it adds and the
indices at which it reads the FAT. -/
structure Trace where
  examined : List Examined
  refs : List (Nat × Reference)
  read : List Nat

namespace Trace

def empty : Trace := ⟨[], [], []⟩

def append (t u : Trace) : Trace :=
  ⟨t.examined ++ u.examined, t.refs ++ u.refs, t.read ++ u.read⟩

def examine (parent : List MemoryCardFileEntry) (index : Nat) (entry : MemoryCardFileEntry) : Trace :=
  ⟨[⟨parent, index, entry⟩], [], []⟩

def ref (cluster : Nat) (r : Reference) : Trace := ⟨[], [(cluster, r)], []⟩

def readAt (n : Nat) : Trace := ⟨[], [], [n]⟩

end Trace

namespace FolderMemoryCard

variable (card : FolderMemoryCard)

/-- `m_fat.data[0][0][n]` at any index: an address has 32 bits. -/
def fatAt (n : Nat) : Nat := card.fatData (n % 2 ^ 30)

theorem fatAt_lt (n : Nat) : card.fatAt n < 2 ^ 32 := UInt32.toNat_lt _

/-- The last cluster, and where the FAT is read for it. -/
def getLastClusterOfData : Nat → Nat → Option (Nat × List Nat)
  | 0, _ => none
  | fuel + 1, entryCluster =>
    let nextCluster := card.fatAt entryCluster % 2 ^ 31
    if nextCluster ≠ lastDataCluster then
      (getLastClusterOfData fuel nextCluster).map fun r => (r.1, entryCluster :: r.2)
    else some (entryCluster, [entryCluster])

/-- The loop of `AddFileEntryToMetadataQuickAccess`. -/
def addFileClusters (parent : List MemoryCardFileEntry) (entry : MemoryCardFileEntry) :
    Nat → Nat → Nat → Option Trace
  | 0, _, _ => none
  | fuel + 1, fileCluster, clusterNumber =>
    let t := (Trace.ref (fileCluster % 2 ^ 31) ⟨parent, entry, clusterNumber⟩).append
      (.readAt fileCluster)
    let next := card.fatAt fileCluster
    if next ≠ lastUsedCluster then
      (addFileClusters parent entry fuel next (u32 (clusterNumber + 1))).map t.append
    else some t

def addFileEntryToMetadataQuickAccess (fuel : Nat) (parent : List MemoryCardFileEntry)
    (entry : MemoryCardFileEntry) : Option Trace :=
  if entry.cluster = MemoryCardFileEntry.emptyFileCluster then some .empty
  else card.addFileClusters parent entry fuel entry.cluster 0

/-- A page that is as it was before goes from the cache. -/
def removeUnchangedPage (cache : Nat → Option (Nat → UInt8)) (page : Nat) :
    Nat → Option (Nat → UInt8) :=
  match cache page, card.oldDataCache page with
  | some new, some old =>
    if (List.range pageSize).all fun i => old i == new i then Function.update cache page none
    else cache
  | _, _ => cache

/-- The loop of `RemoveUnchangedDataFromCache`: the cache, and where the FAT is read. -/
def removeUnchangedPages :
    Nat → Nat → (Nat → Option (Nat → UInt8)) → Option ((Nat → Option (Nat → UInt8)) × List Nat)
  | 0, _, _ => none
  | fuel + 1, cluster, cache =>
    if cluster ≠ lastDataCluster then
      let cache := (List.range 2).foldl (fun cache i =>
        card.removeUnchangedPage cache (u32 ((cluster + card.allocOffset) * 2 + i))) cache
      (removeUnchangedPages fuel (card.fatAt cluster % 2 ^ 31) cache).map fun r =>
        (r.1, cluster :: r.2)
    else some (cache, [])

def removeUnchangedDataFromCache (fuel : Nat) (oldEntry newEntry : MemoryCardFileEntry)
    (cache : Nat → Option (Nat → UInt8)) : Option ((Nat → Option (Nat → UInt8)) × List Nat) :=
  if oldEntry.unchanged newEntry then
    card.removeUnchangedPages fuel (newEntry.cluster % 2 ^ 31) cache
  else some (cache, [])

/-- One entry in `FlushFileEntries`; the calls for a directory are made by `visit`. -/
def flushFileEntry (visit : MemoryCardFileEntry → Option Trace) (fuel : Nat)
    (parent : List MemoryCardFileEntry) (index : Nat) (entry : MemoryCardFileEntry) : Option Trace :=
  let t := Trace.examine parent index entry
  if entry.isValid && entry.isUsed && entry.isDir then
    if !entry.isDotDir then
      (visit entry).map (t.append (.ref entry.cluster ⟨parent, entry, 0xFFFFFFFF⟩)).append
    else some t
  else if entry.isValid && entry.isUsed && entry.isFile then
    (card.addFileEntryToMetadataQuickAccess fuel parent entry).map t.append
  else some t

/-- `FlushFileEntries`, where `FlushCluster` has put the pages of the directories into
`fileEntryDict`; `index` counts the entries of the directory in the clusters before. -/
def flushFileEntries :
    Nat → List MemoryCardFileEntry → Nat → Nat → Nat → Option Trace
  | 0, _, _, _, _ => none
  | fuel + 1, parent, dirCluster, remainingFiles, index => do
    let t ← (List.range (min remainingFiles 2)).foldlM (fun t i =>
      (card.flushFileEntry
        (fun entry => flushFileEntries fuel (entry :: parent) entry.cluster entry.length 0)
        fuel parent (index + i) ((card.fileEntries dirCluster).entries i)).map t.append) Trace.empty
    let t := t.append (.readAt dirCluster)
    let nextCluster := card.fatAt dirCluster
    if nextCluster ≠ lastUsedCluster then
      (flushFileEntries fuel parent (nextCluster % 2 ^ 31) (u32Sub remainingFiles 2)
        (index + 2)).map t.append
    else some t

/-- `FlushFileEntries` of the root directory. -/
def flushRootEntries (fuel : Nat) : Option Trace :=
  let entry := (card.fileEntries card.rootdirCluster).entries 0
  if entry.isValid && entry.isUsed then
    card.flushFileEntries fuel [] card.rootdirCluster entry.length 0
  else some .empty

end FolderMemoryCard

end OmegaRed.Memcard
