import OmegaRed.CDVD.Dump

/-! The sectors of an image: `InputIsoFile` finds out how they lie and serves windows of them. -/

namespace OmegaRed.CDVD

open Lib.Memory

/-- `isoType` -/
inductive IsoType
  | illegal | cd | dvd | audio | dvddl
  deriving DecidableEq

/-- The `ReadSync` of a reader with a block size and a data offset: into a buffer from a position
on, a number of blocks from a sector on. -/
abbrev ReadSync :=
  UInt32 → Int → (Nat → UInt8) → Int → UInt32 → UInt32 → Int × (Nat → UInt8)

structure InputIsoFile where
  readUnit : UInt32
  m_current_lsn : Int32
  m_type : IsoType
  m_offset : Int
  m_blockofs : Int
  m_blocksize : UInt32
  m_blocks : UInt32
  m_read_inprogress : Bool
  m_read_lsn : UInt32
  m_read_count : UInt32
  m_readbuffer : Nat → UInt8

def cdFramesizeRaw : UInt32 := 2448

/-- `itob` -/
def itob (i : UInt8) : UInt8 := i / 10 * 16 + i % 10

/-- `lsn_to_msf` -/
def lsnToMsf (lsn : Int) : List UInt8 :=
  let lsn := lsn + 150
  let m := UInt8.ofInt (lsn.tdiv 4500)
  let lsn := lsn - m.toNat * 4500
  let s := UInt8.ofInt (lsn.tdiv 75)
  [itob m, itob s, itob (UInt8.ofInt (lsn - s.toNat * 75))]

namespace InputIsoFile

def maxReadUnit : UInt32 := 128

/-- `_init`; the read buffer is not set. -/
def init (readbuffer : Nat → UInt8) : InputIsoFile where
  readUnit := 0
  m_current_lsn := -1
  m_type := .illegal
  m_offset := 0
  m_blockofs := 0
  m_blocksize := 0
  m_blocks := 0
  m_read_inprogress := false
  m_read_lsn := 0xffffffff
  m_read_count := 0
  m_readbuffer := readbuffer

variable (f : InputIsoFile)

def readSync (r : ReadSync) (dst : Nat → UInt8) (lsn : UInt32) : Int × (Nat → UInt8) :=
  if f.m_blocks < lsn then (-1, dst) else r f.m_blocksize f.m_offset dst f.m_blockofs lsn 1

/-- `CD001` -/
def isoMagic : List UInt8 := [0x43, 0x44, 0x30, 0x30, 0x31]

/-- `tryIsoType`; `buf` is its static buffer. -/
def tryIsoType (r : ReadSync) (buf : Nat → UInt8) (size : UInt32) (offset blockofs : Int) :
    (Bool × (Nat → UInt8)) × InputIsoFile :=
  let f := { f with m_blocksize := size, m_offset := offset, m_blockofs := blockofs }
  let res := f.readSync r buf 16
  if res.1 < 0 then ((false, res.2), f)
  else if load res.2 25 5 ≠ isoMagic then ((false, res.2), f)
  else ((true, res.2),
    { f with m_type := if load res.2 190 2 = ([0x00, 0x08] : List UInt8) then .cd else .dvd })

/-- The sizes, offsets and block offsets that `Detect` tries. -/
def isoTypes : List (UInt32 × Int × Int) :=
  [(2048, 0, 24), (2336, 0, 16), (2352, 0, 0), (2448, 0, 0),
    (2048, 150 * 2048, 24), (2352, 150 * 2048, 0), (2448, 150 * 2048, 0),
    (2048, -8, 24), (2352, -8, 0), (2448, -8, 0)]

/-- The calls of `tryIsoType`, and what is left when all have failed. -/
def tryIsoTypes (r : ReadSync) : InputIsoFile → (Nat → UInt8) → List (UInt32 × Int × Int) →
    InputIsoFile
  | f, _, [] => { f with
      m_offset := 0, m_blocksize := cdFramesizeRaw, m_blockofs := 0, m_type := .audio }
  | f, buf, (size, offset, blockofs) :: ts =>
    let res := f.tryIsoType r buf size offset blockofs
    if res.1.1 then res.2 else tryIsoTypes r res.2 res.1.2 ts

/-- `Detect`, with the block count of the reader; `none` is an image that is not known. -/
def detect (r : ReadSync) (buf : Nat → UInt8) (sectors : Int) : Option InputIsoFile :=
  let f := { f with m_type := .illegal }
  if sectors < 17 then none else some (tryIsoTypes r { f with m_blocks := 17 } buf isoTypes)

/-- What `Open` takes from the header of a blockdump. -/
def withHeader : Option (UInt32 × Int) → InputIsoFile
  | some (blocksize, blockofs) =>
    { f with m_blockofs := blockofs, m_blocksize := blocksize, readUnit := 1 }
  | none => f

/-- `Open`, with what the header of a blockdump says and the block counts of the reader before and
after; `none` is the exception. -/
def openFile (readbuffer : Nat → UInt8) (header : Option (UInt32 × Int)) (isCompressed : Bool)
    (r : ReadSync) (buf : Nat → UInt8) (sectors : Int) (blocks : UInt32) : Option InputIsoFile :=
  (((init readbuffer).withHeader header).detect r buf sectors).map fun f =>
    let f := if header.isNone && !isCompressed then { f with readUnit := maxReadUnit } else f
    { f with m_blocks := blocks }

/-- The sector is in the read buffer. -/
def buffered (lsn : UInt32) : Bool :=
  f.m_read_lsn ≤ lsn && lsn < f.m_read_lsn + f.m_read_count

def beginRead2 (lsn : UInt32) : InputIsoFile :=
  if f.m_blocks < lsn then { f with m_current_lsn := -1 }
  else
    let f := { f with m_current_lsn := lsn.toInt32 }
    if f.buffered lsn then f
    else { f with
      m_read_lsn := lsn
      m_read_count := if 1 < f.readUnit then min f.readUnit (f.m_blocks - lsn) else 1
      m_read_inprogress := true }

/-- `_offset` and `length` of a mode. -/
def modeWindow (mode : UInt32) : Int × Int :=
  if mode = 0 then (0, 2352)
  else if mode = 1 then (12, 2340)
  else if mode = 2 then (24, 2328)
  else if mode = 3 then (24, 2048)
  else (0, 0)

/-- The `memcpy` of `FinishRead3`: `length` bytes from `ndiff` on in the block to `diff`. -/
structure Copy where
  diff : Int
  ndiff : Int
  length : Int

def copyOf (mode : UInt32) : Copy :=
  let offset := (modeWindow mode).1
  let end1 := (f.m_blockofs + f.m_blocksize.toNat).bmod (2 ^ 32)
  let stop := min end1 (offset + (modeWindow mode).2)
  let diff := f.m_blockofs - offset
  if 0 < diff then ⟨diff, 0, stop - f.m_blockofs⟩ else ⟨0, -diff, stop - offset⟩

def readOffset : UInt32 := (f.m_current_lsn.toUInt32 - f.m_read_lsn) * f.m_blocksize

/-- What `FinishRead3` makes of `dst`; a negative length is a huge one for `memcpy`, which has no
result. -/
def place (dst : Nat → UInt8) (mode : UInt32) : Option (Nat → UInt8) :=
  let c := f.copyOf mode
  let dst := store dst 0 (List.replicate c.diff.toNat 0)
  if c.length < 0 then none
  else
    let dst := store dst c.diff.toNat
      (load f.m_readbuffer (c.ndiff.toNat + f.readOffset.toNat) c.length.toNat)
    some (if f.m_type = .cd ∧ 12 ≤ c.diff then
        store (store dst (c.diff.toNat - 12) (lsnToMsf f.m_current_lsn.toInt)) (c.diff.toNat - 9) [2]
      else dst)

/-- `FinishRead3`; `fin` is the result of the reader's `FinishRead` and the buffer it leaves,
if there is a read to finish. -/
def finishRead3 (fin : Int × (Nat → UInt8)) (dst : Nat → UInt8) (mode : UInt32) :
    Option (Int × (Nat → UInt8)) × InputIsoFile :=
  if f.m_current_lsn < 0 then (some (-1, dst), f)
  else if f.m_read_inprogress then
    let f := { f with m_read_inprogress := false, m_readbuffer := fin.2 }
    if fin.1 < 0 then (some (fin.1, dst), f)
    else ((f.place dst mode).map ((0, ·)), f)
  else ((f.place dst mode).map ((0, ·)), f)

end InputIsoFile

/-- `ISOreadSector`, with its static `cdbuffer`; it does not look at what `ReadSync` returns. -/
def isoReadSector (f : InputIsoFile) (r : ReadSync) (cdbuffer tempbuffer : Nat → UInt8)
    (lsn mode : UInt32) : Int × (Nat → UInt8) × (Nat → UInt8) :=
  let lsn := if lsn.toInt32 < 0 then f.m_blocks + lsn else lsn
  if f.m_blocks < lsn then (-1, tempbuffer, cdbuffer)
  else if mode = 0 then (0, (f.readSync r tempbuffer lsn).2, cdbuffer)
  else
    let cdbuffer := (f.readSync r cdbuffer lsn).2
    let w := InputIsoFile.modeWindow mode
    (0, store tempbuffer 0 (load cdbuffer w.1.toNat w.2.toNat), cdbuffer)

end OmegaRed.CDVD
