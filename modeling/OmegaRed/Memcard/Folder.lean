import OmegaRed.CDVD.IsoFile
import Mathlib

/-! The folder memory card: the structures it keeps in memory, the cache of saved pages, and how
a page's data is found among them. -/

namespace OmegaRed.Memcard

open Lib.Memory Lib.Words CDVD

def pageSize : Nat := 0x200
def clusterSize : Nat := pageSize * 2
def eccSize : Nat := 0x10
def pageSizeRaw : Nat := pageSize + eccSize
def clusterSizeRaw : Nat := pageSizeRaw * 2
def blockSizeRaw : Nat := clusterSizeRaw * 8

def indirectFatClusterCount : Nat := 1
def indirectFatUnused : Nat := 0xFFFFFFFF
def lastDataCluster : Nat := 0x7FFFFFFF

/-- The arithmetic of the card's addresses. -/
def u32 (n : Nat) : Nat := n % 2 ^ 32

/-- `a - b` of two `u32`. -/
def u32Sub (a b : Nat) : Nat := u32 (a + (2 ^ 32 - b))

/-- A file or directory entry, by its bytes. -/
structure MemoryCardFileEntry where
  raw : Nat → UInt8

namespace MemoryCardFileEntry

variable (entry : MemoryCardFileEntry)

def mode : Nat := (loadWord entry.raw 0).toNat
def length : Nat := (loadWord entry.raw 4).toNat
def cluster : Nat := (loadWord entry.raw 0x10).toNat
def name (i : Nat) : UInt8 := entry.raw (0x40 + i)

def isDir : Bool := entry.mode.testBit 5
def isUsed : Bool := entry.mode.testBit 15
def isValid : Bool := entry.mode != 0xFFFFFFFF

def isDotDir : Bool :=
  entry.name 0 == 0x2e &&
    (entry.name 1 == 0 || (entry.name 1 == 0x2e && entry.name 2 == 0))

end MemoryCardFileEntry

structure MemoryCardFileEntryCluster where
  entries : Nat → MemoryCardFileEntry

/-- What reading needs of a metadata reference: the position of the cluster in its file, and
the file's bytes if the host can open it. -/
structure MemoryCardFileMetadataReference where
  consecutiveCluster : Nat
  file : Option (List UInt8)

/-- The unions are their bytes. The FAT's bytes go on behind its array with whatever the host's
memory holds there: the indices into it are not checked. The times and the countdown to the next
flush, which no access looks at, are left out. -/
structure FolderMemoryCard where
  superBlock : Nat → UInt8
  indirectFat : Nat → UInt8
  fat : Nat → UInt8
  backupBlock1 : Nat → UInt8
  backupBlock2 : Nat → UInt8
  fileEntryDict : Nat → Option MemoryCardFileEntryCluster
  fileMetadataQuickAccess : Nat → Option MemoryCardFileMetadataReference
  cache : Nat → Option (Nat → UInt8)
  oldDataCache : Nat → Option (Nat → UInt8)

namespace FolderMemoryCard

variable (card : FolderMemoryCard)

def allocOffset : Nat := (loadWord card.superBlock 0x34).toNat
def allocEnd : Nat := (loadWord card.superBlock 0x38).toNat
def rootdirCluster : Nat := (loadWord card.superBlock 0x3c).toNat
def superBackupBlock1 : Nat := (loadWord card.superBlock 0x40).toNat
def superBackupBlock2 : Nat := (loadWord card.superBlock 0x44).toNat
def ifcList (i : Nat) : Nat := (loadWord card.superBlock (0x50 + 4 * i)).toNat

def indirectFatData (i j : Nat) : Nat :=
  (loadWord card.indirectFat (i * clusterSize + 4 * j)).toNat

/-- `m_fat.data[0][0][n]` -/
def fatData (n : Nat) : Nat := (loadWord card.fat (4 * n)).toNat

/-- `& DataClusterInUseMask` and `& NextDataClusterMask` of a FAT entry. -/
def inUse (n : Nat) : Bool := (card.fatData n).testBit 31
def nextCluster (n : Nat) : Nat := card.fatData n % 2 ^ 31

/-- `m_fileEntryDict[cluster]`; an absent cluster is inserted with all its bytes zero, which
`getFileEntryCluster` passes over like the absent one. -/
def fileEntries (cluster : Nat) : MemoryCardFileEntryCluster :=
  (card.fileEntryDict cluster).getD ⟨fun _ => ⟨fun _ => 0⟩⟩

/-- The search of a cluster's subdirectories, each by `visit`. -/
def checkSubdirectories (visit : Nat → Nat → Option (Option MemoryCardFileEntryCluster))
    (currentCluster fileCount : Nat) : Option (Option MemoryCardFileEntryCluster) :=
  match card.fileEntryDict currentCluster with
  | none => some none
  | some it =>
    (List.range (min fileCount 2)).foldlM (fun ptr i =>
      let entry := it.entries i
      if ptr.isSome then some ptr
      else if entry.isValid && entry.isUsed && entry.isDir && !entry.isDotDir then
        visit entry.cluster entry.length
      else some none) none

/-- `fuel` bounds the depth of the calls; without enough of it there is no result. -/
def getFileEntryCluster :
    Nat → Nat → Nat → Nat → Option (Option MemoryCardFileEntryCluster)
  | 0, _, _, _ => none
  | fuel + 1, currentCluster, searchCluster, fileCount =>
    if currentCluster = searchCluster then some (some (card.fileEntries currentCluster))
    else
      let next := card.nextCluster currentCluster
      let found := if next ≠ lastDataCluster then
          getFileEntryCluster fuel next searchCluster (u32Sub fileCount 2)
        else some none
      found.bind fun ptr =>
        if ptr.isSome then some ptr
        else card.checkSubdirectories
          (fun cluster length => getFileEntryCluster fuel cluster searchCluster length)
          currentCluster fileCount

/-- A pointer is what the memory holds from it on. -/
def getFileEntryPointer (fuel searchCluster entryNumber offset : Nat) :
    Option (Option (Nat → UInt8)) := do
  let fileCount := ((card.fileEntries card.rootdirCluster).entries 0).length
  let ptr ← card.getFileEntryCluster fuel card.rootdirCluster searchCluster fileCount
  some (ptr.map fun ptr i => (ptr.entries entryNumber).raw (offset + i))

/-- The clusters of the indirect FAT, then those of the FAT. -/
def getFatPointer (page offset cluster : Nat) : Option (Nat → UInt8) :=
  match (List.range indirectFatClusterCount).find? (fun i => cluster == card.ifcList i) with
  | some i => some fun k =>
      card.indirectFat (i * clusterSize + (page % 2 * pageSize + offset) + k)
  | none =>
    match ((List.range indirectFatClusterCount).flatMap fun i =>
        (List.range (clusterSize / 4)).map fun j => (i, j)).find? (fun ij =>
          card.indirectFatData ij.1 ij.2 != indirectFatUnused &&
            card.indirectFatData ij.1 ij.2 == cluster) with
    | some (i, j) => some fun k =>
        card.fat ((i * (clusterSize / 4) + j) * clusterSize + (page % 2 * pageSize + offset) + k)
    | none => none

def getSystemBlockPointer (fuel adr : Nat) : Option (Option (Nat → UInt8)) :=
  let block := adr / blockSizeRaw
  let page := adr / pageSizeRaw
  let offset := adr % pageSizeRaw
  let cluster := adr / clusterSizeRaw
  let startDataCluster := card.allocOffset
  let endDataCluster := u32 (startDataCluster + card.allocEnd)
  if startDataCluster ≤ cluster ∧ cluster < endDataCluster then
    let fatCluster := cluster - card.allocOffset
    if card.inUse fatCluster then card.getFileEntryPointer fuel fatCluster (page % 2) offset
    else some none
  else if block = 0 then
    some (some fun i => card.superBlock (page * pageSize + offset + i))
  else if block = card.superBackupBlock1 then
    some (some fun i => card.backupBlock1 (page % 16 * pageSize + offset + i))
  else if block = card.superBackupBlock2 then
    some (some fun i => card.backupBlock2 (page % 16 * pageSize + offset + i))
  else some (card.getFatPointer page offset cluster)

/-- Whether any byte was read, and the memory behind. -/
def readFromFile (dest adr dataLength : Nat) (m : Nat → UInt8) : Bool × (Nat → UInt8) :=
  let page := adr / pageSizeRaw
  let offset := adr % pageSizeRaw
  let cluster := adr / clusterSizeRaw
  let fatCluster := u32Sub cluster card.allocOffset
  if ¬ card.inUse fatCluster then (false, m)
  else match card.fileMetadataQuickAccess fatCluster with
    | none => (false, m)
    | some it => match it.file with
      | none => (false, m)
      | some file =>
        let clusterOffset := page % 2 * pageSize + offset
        let fileOffset := u32 (it.consecutiveCluster * clusterSize + clusterOffset)
        let bytes := fread file fileOffset dataLength
        let m := store m dest bytes
        if bytes.length < dataLength then
          (decide (0 < bytes.length),
            store m (dest + bytes.length) (List.replicate (dataLength - bytes.length) 0xFF))
        else (decide (0 < bytes.length), m)

def readDataWithoutCache (fuel dest adr dataLength : Nat) (m : Nat → UInt8) :
    Option (Nat → UInt8) := do
  match ← card.getSystemBlockPointer fuel adr with
  | some src => some (store m dest (load src 0 dataLength))
  | none =>
    let (read, m) := card.readFromFile dest adr dataLength m
    some (if read then m else store m dest (List.replicate dataLength 0xFF))

end FolderMemoryCard

end OmegaRed.Memcard

/-! Reading and saving ranges of the card's raw addresses. -/

namespace OmegaRed.Memcard

open Lib.Memory

def table : List UInt8 := [
  0x00, 0x87, 0x96, 0x11, 0xa5, 0x22, 0x33, 0xb4, 0xb4, 0x33, 0x22, 0xa5, 0x11, 0x96, 0x87, 0x00,
  0xc3, 0x44, 0x55, 0xd2, 0x66, 0xe1, 0xf0, 0x77, 0x77, 0xf0, 0xe1, 0x66, 0xd2, 0x55, 0x44, 0xc3,
  0xd2, 0x55, 0x44, 0xc3, 0x77, 0xf0, 0xe1, 0x66, 0x66, 0xe1, 0xf0, 0x77, 0xc3, 0x44, 0x55, 0xd2,
  0x11, 0x96, 0x87, 0x00, 0xb4, 0x33, 0x22, 0xa5, 0xa5, 0x22, 0x33, 0xb4, 0x00, 0x87, 0x96, 0x11,
  0xe1, 0x66, 0x77, 0xf0, 0x44, 0xc3, 0xd2, 0x55, 0x55, 0xd2, 0xc3, 0x44, 0xf0, 0x77, 0x66, 0xe1,
  0x22, 0xa5, 0xb4, 0x33, 0x87, 0x00, 0x11, 0x96, 0x96, 0x11, 0x00, 0x87, 0x33, 0xb4, 0xa5, 0x22,
  0x33, 0xb4, 0xa5, 0x22, 0x96, 0x11, 0x00, 0x87, 0x87, 0x00, 0x11, 0x96, 0x22, 0xa5, 0xb4, 0x33,
  0xf0, 0x77, 0x66, 0xe1, 0x55, 0xd2, 0xc3, 0x44, 0x44, 0xc3, 0xd2, 0x55, 0xe1, 0x66, 0x77, 0xf0,
  0xf0, 0x77, 0x66, 0xe1, 0x55, 0xd2, 0xc3, 0x44, 0x44, 0xc3, 0xd2, 0x55, 0xe1, 0x66, 0x77, 0xf0,
  0x33, 0xb4, 0xa5, 0x22, 0x96, 0x11, 0x00, 0x87, 0x87, 0x00, 0x11, 0x96, 0x22, 0xa5, 0xb4, 0x33,
  0x22, 0xa5, 0xb4, 0x33, 0x87, 0x00, 0x11, 0x96, 0x96, 0x11, 0x00, 0x87, 0x33, 0xb4, 0xa5, 0x22,
  0xe1, 0x66, 0x77, 0xf0, 0x44, 0xc3, 0xd2, 0x55, 0x55, 0xd2, 0xc3, 0x44, 0xf0, 0x77, 0x66, 0xe1,
  0x11, 0x96, 0x87, 0x00, 0xb4, 0x33, 0x22, 0xa5, 0xa5, 0x22, 0x33, 0xb4, 0x00, 0x87, 0x96, 0x11,
  0xd2, 0x55, 0x44, 0xc3, 0x77, 0xf0, 0xe1, 0x66, 0x66, 0xe1, 0xf0, 0x77, 0xc3, 0x44, 0x55, 0xd2,
  0xc3, 0x44, 0x55, 0xd2, 0x66, 0xe1, 0xf0, 0x77, 0x77, 0xf0, 0xe1, 0x66, 0xd2, 0x55, 0x44, 0xc3,
  0x00, 0x87, 0x96, 0x11, 0xa5, 0x22, 0x33, 0xb4, 0xb4, 0x33, 0x22, 0xa5, 0x11, 0x96, 0x87, 0x00]

/-- One byte's turn in the three sums. -/
def eccStep (data : Nat → UInt8) (ecc : UInt8 × UInt8 × UInt8) (i : Nat) :
    UInt8 × UInt8 × UInt8 :=
  let c := table.getD (data i).toNat 0
  if c &&& 0x80 ≠ 0 then
    (ecc.1 ^^^ c, ecc.2.1 ^^^ ~~~(.ofNat i), ecc.2.2 ^^^ .ofNat i)
  else (ecc.1 ^^^ c, ecc.2)

/-- The three ECC bytes of 128 bytes of data. -/
def calculateECC (data : Nat → UInt8) : List UInt8 :=
  let ecc := (List.range 0x80).foldl (eccStep data) (0, 0, 0)
  [~~~ecc.1 &&& 0x77, ~~~ecc.2.1 &&& 0x7f, ~~~ecc.2.2 &&& 0x7f]

/-- The buffer `Read` prepares for a page's ECC area. -/
def eccBuffer (data : Nat → UInt8) : Nat → UInt8 :=
  (List.range (pageSize / 0x80)).foldl
    (fun ecc i => store ecc (i * 3) (calculateECC fun k => data (i * 0x80 + k))) fun _ => 0xFF

namespace FolderMemoryCard

variable (card : FolderMemoryCard)

/-- The part of `Read` that is for the data of one page. -/
def readData (fuel dest adr size : Nat) (m : Nat → UInt8) : Option (Nat → UInt8) :=
  let page := adr / pageSizeRaw
  let offset := adr % pageSizeRaw
  if offset < pageSize then
    let dataLength := min size (pageSize - offset)
    match card.cache page with
    | some it => some (store m dest (load it offset dataLength))
    | none => card.readDataWithoutCache fuel dest adr dataLength m
  else some m

/-- `Read`; `fuel` bounds the depth of its calls as well. -/
def read : Nat → Nat → Nat → Nat → (Nat → UInt8) → Option (Nat → UInt8)
  | 0, _, _, _, _ => none
  | fuel + 1, dest, adr, size, m => do
    let page := adr / pageSizeRaw
    let offset := adr % pageSizeRaw
    let last := u32 (offset + size)
    let toNextPage := pageSizeRaw - offset
    let m ← if pageSizeRaw < last then
        read fuel (dest + toNextPage) (u32 (adr + toNextPage)) (size - toNextPage) m
      else some m
    let size := if pageSizeRaw < last then toNextPage else size
    let m ← card.readData fuel dest adr size m
    if pageSize < last then do
      let eccOffset := u32Sub pageSize offset
      let eccLength := min (u32Sub size offset) eccSize
      let data ← read fuel 0 (page * pageSizeRaw) pageSize fun _ => 0
      some (store m (dest + eccOffset) (load (eccBuffer data) 0 eccLength))
    else some m

/-- The part of `Save` that is for one page. -/
def savePage (fuel src adr size : Nat) (m : Nat → UInt8) : Option FolderMemoryCard := do
  let page := adr / pageSizeRaw
  let offset := adr % pageSizeRaw
  if offset < pageSize then
    let dataLength := min size (pageSize - offset)
    match card.cache page with
    | none =>
      let cachePage ← card.readDataWithoutCache fuel 0 (page * pageSizeRaw) pageSize fun _ => 0
      some { card with
        cache := Function.update card.cache page
          (some (store cachePage offset (load m src dataLength)))
        oldDataCache := Function.update card.oldDataCache page (some cachePage) }
    | some cachePage =>
      some { card with
        cache := Function.update card.cache page
          (some (store cachePage offset (load m src dataLength))) }
  else some card

def save : Nat → Nat → Nat → Nat → (Nat → UInt8) → FolderMemoryCard → Option FolderMemoryCard
  | 0, _, _, _, _, _ => none
  | fuel + 1, src, adr, size, m, card => do
    let offset := adr % pageSizeRaw
    let last := u32 (offset + size)
    let toNextPage := pageSizeRaw - offset
    let card ← if pageSizeRaw < last then
        save fuel (src + toNextPage) (u32 (adr + toNextPage)) (size - toNextPage) m card
      else some card
    card.savePage fuel src adr (if pageSizeRaw < last then toNextPage else size) m

end FolderMemoryCard

end OmegaRed.Memcard
