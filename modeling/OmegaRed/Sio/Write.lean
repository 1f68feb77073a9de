import OmegaRed.Lib.Memory
import Mathlib.Tactic.Ring

/-! The serial port: its registers, its buffer and the selected memory card. -/

namespace OmegaRed.Sio

open Lib.Memory

/-- `SIO_MODE` -/
inductive Mode
  | start
  | controller
  | multitap
  | infrared
  | memcard
  | memcardAuth
  | memcardErase
  | memcardWrite
  | memcardRead
  | memcardSector
  | memcardPSX
  | dummy
  deriving DecidableEq

/-- `_mcd` -/
structure Mcd where
  term : UInt8
  goodSector : Bool
  sectorAddr : UInt32
  transferAddr : UInt32
  flag : UInt8
  forceEjectionTimeout : UInt32

/-- `sio`, `siomode`, `mcds`, `mcd` and the static variables of the handlers. `touched` are the
indices at which the call in progress has read or written `buf`; `hung` says that it never
returns. -/
structure State where
  statReg : UInt16
  ctrlReg : UInt16
  buf : Nat → UInt8
  ret : UInt8
  cmd : UInt8
  bufCount : UInt16
  bufSize : UInt16
  port : UInt8
  slot : UInt8 → UInt8
  siomode : Mode
  mcds : UInt8 × UInt8 → Mcd
  mcd : UInt8 × UInt8
  siocmd : UInt8
  doXorCheck : Bool
  xorResult : UInt8
  checksumPos : UInt8
  writeSize : UInt8
  writeOnce : Bool
  readSize : UInt8
  readOnce : Bool
  xorCheck : UInt8
  tcount : UInt8 → UInt8
  touched : List Nat
  hung : Bool

/-- What a call finds around the port: the pads, the cards and the other chips. -/
structure Env where
  sendArray3 : UInt32
  pad : UInt8
  setSlot : UInt32
  mtapPresent : Bool
  cardPresent : Bool
  cardIsPSX : Bool
  timeoutReached : Bool
  cardData : Nat → UInt8
  sizeInfo : Vector UInt8 8
  xor : UInt8
  psxMode : Bool

def txRdy : UInt16 := 0x0001
def rxRdy : UInt16 := 0x0002
def txEmpty : UInt16 := 0x0004
def parityErr : UInt16 := 0x0008
def ackInp : UInt16 := 0x0080
def irq : UInt16 := 0x0200
def resetErr : UInt16 := 0x0010
def clrIntr : UInt16 := 0x0010
def sioReset : UInt16 := 0x0040

def forcedMcdEjectionMinTries : UInt32 := 2
def forcedMcdEjectionMaxTries : UInt32 := 128

def memcardPsxMagic : List UInt8 := [0x5A, 0x5D, 0x5C, 0x5D, 0x04, 0x00, 0x00, 0x80]

namespace State

/-- `sio.buf[i] = v` -/
def put (s : State) (i : Nat) (v : UInt8) : State :=
  { s with buf := Function.update s.buf i v, touched := s.touched ++ [i] }

/-- Several bytes are copied to `&sio.buf[i]`. -/
def copy (s : State) (i : Nat) (l : List UInt8) : State :=
  { s with buf := store s.buf i l, touched := s.touched ++ (List.range l.length).map (i + ·) }

/-- `n` bytes at `&sio.buf[i]` are read. -/
def peek (s : State) (i n : Nat) : State :=
  { s with touched := s.touched ++ (List.range n).map (i + ·) }

/-- `memset8` of the buffer. -/
def fill (s : State) (v : UInt8) : State :=
  { s with buf := fun _ => v, touched := s.touched ++ List.range 512 }

def card (s : State) : Mcd := s.mcds s.mcd

def setCard (s : State) (c : Mcd) : State := { s with mcds := Function.update s.mcds s.mcd c }

/-- `mcd->DoXor(&sio.buf[i], length)`; its counter has 8 bits, so a longer loop never ends. -/
def doXor (s : State) (i length : Nat) : State × UInt8 :=
  if length < 256 then
    (s.peek i length, (load s.buf i length).foldl (· ^^^ ·) 0)
  else ({ s.peek i 256 with hung := true }, 0)

/-- `SIO_STAT_READY` -/
def statReady (s : State) : State := { s with statReg := s.statReg &&& ~~~txEmpty ||| rxRdy }

/-- `SIO_STAT_EMPTY` -/
def statEmpty (s : State) : State := { s with statReg := s.statReg &&& ~~~rxRdy ||| txEmpty }

/-- `DEVICE_PLUGGED` -/
def devicePlugged (s : State) : State := { s with ret := 0xFF }.fill 0xFF

/-- `DEVICE_UNPLUGGED` -/
def deviceUnplugged (s : State) : State := { s with ret := 0x00 }.fill 0x00

/-- `sioInterrupt` -/
def interrupt (e : Env) (s : State) : State :=
  if e.psxMode then s else { s with statReg := s.statReg ||| irq }

end State

/-- `sioInit`; the static variables stay as they are. -/
def sioInit (s : State) : State :=
  { s with
    statReg := txRdy ||| txEmpty
    ctrlReg := 0
    buf := fun _ => 0
    ret := 0
    cmd := 0
    bufCount := 0
    bufSize := 4
    port := 0
    slot := fun _ => 0
    siomode := .start
    mcds := fun at_ =>
      if at_.1 < 2 ∧ at_.2 < 4 then
        { s.mcds at_ with term := 0x55, flag := 0x08, forceEjectionTimeout := 0 }
      else s.mcds at_
    mcd := (0, 0)
    touched := []
    hung := false }

end OmegaRed.Sio

/-! What a byte that is written to the port does in each mode. -/

namespace OmegaRed.Sio

open State

section Handlers

variable (e : Env) (data : UInt8) (s : State)

def sioWriteController : State :=
  let s := match s.bufCount.toNat with
    | 0 => s.statReady.devicePlugged.put 0 e.pad
    | n => s.put n e.pad
  s.interrupt e

def sioWriteMultitap : State :=
  let s := match s.bufCount.toNat with
    | 0 =>
      if e.mtapPresent then
        (((s.statReady.devicePlugged.put 0 0xFF).put 1 0x80).put 2 0x5A)
      else { s.deviceUnplugged.put 0 0x00 with siomode := .dummy }
    | 1 =>
      let s := { s with siocmd := data }
      if data = 0x12 ∨ data = 0x13 then ((s.put 3 0x04).put 4 0x00).put 5 0x5A
      else if data = 0x21 ∨ data = 0x22 then (((s.put 3 0x00).put 4 0x00).put 5 0x00).put 6 0x5A
      else (((s.put 3 0x00).put 4 0x00).put 5 0x00).put 6 0x00
    | 2 =>
      if s.siocmd = 0x21 then
        let s := { s with slot := Function.update s.slot s.port data }
        (s.put 5 (if e.setSlot ≠ 0 then data else 0xFF)).put 6 (if e.setSlot ≠ 0 then 0x5A else 0x66)
      else if s.siocmd = 0x22 then
        let s := { s with slot := Function.update s.slot s.port data }
        s.put 5 data
      else s
    | _ => s
  s.interrupt e

/-- `MemcardResponse` -/
def memcardResponse : State :=
  if s.bufSize > 1 then
    (s.put (s.bufSize.toNat - 1) 0x2B).put s.bufSize.toNat s.card.term
  else s

def memcardAuth : State :=
  if s.bufCount = 2 then
    if data = 0x01 ∨ data = 0x02 ∨ data = 0x04 ∨ data = 0x0F ∨ data = 0x11 ∨ data = 0x13 then
      let s := { s with doXorCheck := true, xorResult := 0 }
      (s.put 3 0x2B).put s.bufSize.toNat s.card.term
    else memcardResponse { s with doXorCheck := false }
  else if s.doXorCheck then
    match s.bufCount.toNat with
    | 3 => s
    | 12 => s.put 12 s.xorResult
    | _ => { s with xorResult := s.xorResult ^^^ data }
  else s

/-- The end of a command: `0x81` begins the next one. -/
def memcardNext : State :=
  if s.bufCount > s.bufSize ∧ data = 0x81 then { s.statReady with bufCount := 0 } else s

def memcardErase : State :=
  match s.bufCount.toNat with
  | 0 => if data ≠ 0x81 then { s with bufCount := -1 } else s
  | 1 =>
    let s := if data = 0x82 then
        { s.copy 0 [0xFF, 0xFF, 0x2B, s.card.term] with bufSize := 3 }
      else { s with bufCount := -1 }
    s.interrupt e
  | _ => memcardNext data s

/-- The start and the commit of `memcardWrite` and `memcardRead`, which differ in the command and
in the variable that remembers it. -/
def memcardHeader (command : UInt8) (once : State → Bool) (setOnce : Bool → State → State) : State :=
  let s := if data = command then setOnce true (s.copy 0 [0xFF, 0xFF, 0xFF, 0x2B])
    else if data = 0x81 ∧ once s then
      setOnce false { s.copy 0 [0xFF, 0xFF, 0x2B, s.card.term] with siomode := .dummy, bufSize := 3 }
    else { s with bufCount := -1 }
  s.interrupt e

/-- A byte of data of `memcardWrite`, or the checksum behind it; the length given to `DoXor` has
32 bits. -/
def memcardData : State :=
  let n := s.bufCount.toNat
  if n < s.checksumPos.toNat then s.put (n + 1) data
  else if n = s.checksumPos.toNat then
    let (s, xorCheck) := s.doXor 4 (if 4 ≤ n then n - 4 else 2 ^ 32 + n - 4)
    if s.hung then s
    else
      let s := ((s.peek n 1).put n xorCheck).peek 4 s.writeSize.toNat
      s.setCard { s.card with transferAddr := s.card.transferAddr + s.writeSize.toUInt32 }
  else s

def memcardWrite : State :=
  match s.bufCount.toNat with
  | 0 => if data ≠ 0x81 then { s with bufCount := -1 } else s
  | 1 => memcardHeader e data s 0x42 State.writeOnce fun once s => { s with writeOnce := once }
  | 2 =>
    { s.put (data.toNat + 5) s.card.term with
      writeSize := data
      bufSize := .ofNat (data.toNat + 5)
      checksumPos := data + 4 }
  | _ =>
    let s := memcardData data s
    if s.hung then s else memcardNext data s

def memcardRead : State :=
  match s.bufCount.toNat with
  | 0 => if data ≠ 0x81 then { s with bufCount := -1 } else s
  | 1 => memcardHeader e data s 0x43 State.readOnce fun once s => { s with readOnce := once }
  | 2 =>
    let s := { s with readSize := data }.copy 4 ((List.range data.toNat).map e.cardData)
    let s := s.setCard { s.card with transferAddr := s.card.transferAddr + data.toUInt32 }
    let (s, xorCheck) := s.doXor 4 data.toNat
    { (s.put (data.toNat + 4) xorCheck).put (data.toNat + 5) s.card.term with
      bufSize := .ofNat (data.toNat + 5) }
  | _ => memcardNext data s

def memcardSector : State :=
  let c := s.card
  match s.bufCount.toNat with
  | 2 => { s.setCard { c with sectorAddr := data.toUInt32 } with xorCheck := data }
  | 3 => { s.setCard { c with sectorAddr := c.sectorAddr ||| data.toUInt32 <<< 8 } with
      xorCheck := s.xorCheck ^^^ data }
  | 4 => { s.setCard { c with sectorAddr := c.sectorAddr ||| data.toUInt32 <<< 16 } with
      xorCheck := s.xorCheck ^^^ data }
  | 5 => { s.setCard { c with sectorAddr := c.sectorAddr ||| data.toUInt32 <<< 24 } with
      xorCheck := s.xorCheck ^^^ data }
  | 6 => s.setCard { c with goodSector := data = s.xorCheck }
  | 8 => s.setCard { c with transferAddr := (512 + 16) * c.sectorAddr }
  | 9 =>
    let mode := if s.cmd = 0x21 then .memcardErase else if s.cmd = 0x22 then .memcardWrite
      else if s.cmd = 0x23 then .memcardRead else s.siomode
    { s.fill 0xFF with siomode := mode, bufCount := -1 }
  | _ => s

/-- The count of accesses during a forced ejection. -/
def forcedEjection : State :=
  let c := s.card
  if c.forceEjectionTimeout ≠ 0 then
    let timeout := c.forceEjectionTimeout - 1
    let timeout := if forcedMcdEjectionMaxTries - timeout > forcedMcdEjectionMinTries ∧
      e.timeoutReached then 0 else timeout
    s.setCard { c with forceEjectionTimeout := timeout }
  else s

def memcardInit : State :=
  let s := { s with mcd := (s.port, s.slot s.port) }
  let forceEject := s.card.forceEjectionTimeout ≠ 0
  let s := forcedEjection e s
  if ¬ forceEject ∧ e.cardPresent then
    { s.devicePlugged with siomode := if e.cardIsPSX then .memcardPSX else .memcard }
  else { s.deviceUnplugged with siomode := .dummy }

def sioWriteMemcard : State :=
  match s.bufCount.toNat with
  | 0 => (memcardInit e s.statReady).interrupt e
  | 1 =>
    let s := { s with cmd := data }
    let s :=
      if data = 0x21 ∨ data = 0x22 ∨ data = 0x23 then
        { memcardResponse s with siomode := .memcardSector }
      else if data = 0x26 then
        s.copy 2 (0x2B :: e.sizeInfo.toList ++ [e.xor, s.card.term])
      else if data = 0x27 then s
      else if data = 0x28 then ((s.put 2 0x2B).put 3 s.card.term).put 4 0x55
      else if data = 0xF0 then { s with siomode := .memcardAuth }
      else if data = 0x11 ∨ data = 0x12 ∨ data = 0x81 ∨ data = 0xBF ∨ data = 0xF3 ∨ data = 0xF7 then
        { memcardResponse s with siomode := .dummy }
      else { s with siomode := .dummy }
    s.interrupt e
  | 2 => if s.cmd = 0x27 then memcardResponse (s.setCard { s.card with term := data }) else s
  | _ => s

/-- A good sector is read. -/
def memcardPSXRead : State :=
  let s := (s.peek 5 1).put 8 (s.buf 5)
  let s := (s.peek 6 1).put 9 (s.buf 6)
  let s := ((s.put 6 0x5C).put 7 0x5D).copy 10 ((List.range 0x80).map e.cardData)
  let (s, xorCheck) := s.doXor 8 (0x80 + 2)
  { (s.put 138 xorCheck).put 139 0x47 with siomode := .dummy }

/-- The last byte of a sector that is written. -/
def memcardPSXWrite : State :=
  let (s, xorcheck) := s.doXor 5 (0x80 + 2)
  let s := ((s.put 135 0x5C).put 136 0x5D).put 137 (if data = xorcheck then 0x47 else 0x4E)
  let s := if ¬ s.card.goodSector then s.put 137 0xFF else s.peek 7 0x80
  { s with siomode := .dummy }

def sioWriteMemcardPSX : State :=
  match s.bufCount.toNat with
  | 0 => (memcardInit e s.statReady).interrupt e
  | 1 =>
    let s := { s with cmd := data }
    let s :=
      if data = 0x53 then
        { (s.put 1 s.card.flag).copy 2 memcardPsxMagic with siomode := .dummy }
      else if data = 0x52 ∨ data = 0x57 ∨ data = 0x58 then
        (((s.put 1 0x00).put 2 0x5A).put 3 0x5D).put 4 0x00
      else { s with siomode := .dummy }
    s.interrupt e
  | 2 => s
  | 3 => s
  | 4 =>
    let s := s.put 5 data
    s.setCard { s.card with sectorAddr := data.toUInt32 <<< 8 }
  | 5 =>
    let s := s.put 6 data
    let sectorAddr := s.card.sectorAddr ||| data.toUInt32
    s.setCard { s.card with
      sectorAddr := sectorAddr
      goodSector := ¬ sectorAddr > 0x3FF
      transferAddr := 128 * sectorAddr }
  | 6 =>
    if s.cmd = 0x52 then
      if ¬ s.card.goodSector then { s.fill 0xFF with siomode := .dummy } else memcardPSXRead e s
    else s.put (6 + 1) data
  | n =>
    let s := s.put (n + 1) data
    if n = 134 then memcardPSXWrite data s else s

def sioWriteInfraRed : State := { s.statReady.devicePlugged with siomode := .dummy }.interrupt e

/-- The end of `sioWrite8inl`. -/
def received : State :=
  let s := { s with statReg := s.statReg ||| rxRdy ||| txEmpty }
  let s := if s.bufCount ≥ 3 then s else { s with statReg := s.statReg ||| ackInp }
  s.interrupt e

/-- `sioWrite8inl` in the modes other than `SIO_START`. -/
def sioWriteMode : State :=
  let t := match s.siomode with
    | .start => s
    | .controller => sioWriteController e s
    | .multitap => sioWriteMultitap e data s
    | .infrared => sioWriteInfraRed e s
    | .memcard => sioWriteMemcard e data s
    | .memcardAuth => memcardAuth data s
    | .memcardErase => memcardErase e data s
    | .memcardWrite => memcardWrite e data s
    | .memcardRead => memcardRead e data s
    | .memcardSector => memcardSector data s
    | .memcardPSX => sioWriteMemcardPSX e data s
    | .dummy => s
  if t.hung then t else received e t

def sioWriteStart : State :=
  let size2 := e.sendArray3.toNat / 2 ^ 18 % 2 ^ 9
  let s := { s with bufSize := .ofNat (size2 - 1) }
  let s :=
    if data = 0x01 then { s with siomode := .controller }
    else if data = 0x21 then { s with siomode := .multitap }
    else if data = 0x61 then { s with siomode := .infrared }
    else if data = 0x81 then { s with siomode := .memcard }
    else { s.deviceUnplugged with siomode := .dummy }
  sioWriteMode e data s

/-- `sioWrite8inl` -/
def sioWrite8 : State :=
  if s.siomode = .start then
    let s := sioWriteStart e data s
    if s.hung then s else received e s
  else sioWriteMode e data s

def sioRead8 : State × UInt8 :=
  if s.statReg &&& rxRdy ≠ 0 then
    let ret := s.buf s.bufCount.toNat
    let s := s.peek s.bufCount.toNat 1
    let s := if s.bufCount = s.bufSize then s.statEmpty else s
    let s := { s with bufCount := s.bufCount + 1 }.statEmpty
    ({ s with statReg := s.statReg &&& ~~~txRdy }, ret)
  else (s, s.ret)

def sioWriteCtrl16 (value : UInt16) : State :=
  let tcount := Function.update s.tcount s.port (.ofNat s.bufCount.toNat)
  let s := { s with
    port := .ofNat (value.toNat / 2 ^ 13 % 2)
    ctrlReg := value &&& ~~~resetErr
    statReg := if value &&& resetErr ≠ 0 then s.statReg &&& ~~~irq else s.statReg }
  let reset := s.ctrlReg &&& sioReset ≠ 0 ∨ s.ctrlReg = 0
  let tcount := if reset then fun _ => 0 else tcount
  let s := if reset then { s with siomode := .start, statReg := txRdy ||| txEmpty } else s
  let s := if s.ctrlReg &&& clrIntr ≠ 0 then
      { s with statReg := s.statReg &&& ~~~(irq ||| parityErr) } else s
  { s with tcount := tcount, bufCount := (tcount s.port).toUInt16 }

end Handlers

/-- The calls of the other chips. -/
inductive Op
  | write8 (e : Env) (data : UInt8)
  | read8
  | writeCtrl16 (value : UInt16)

/-- A call; none returns any more once one has hung. -/
def step (s : State) (op : Op) : State :=
  let s := { s with touched := [] }
  if s.hung then s else
  match op with
  | .write8 e data => sioWrite8 e data s
  | .read8 => (sioRead8 s).1
  | .writeCtrl16 value => sioWriteCtrl16 s value

end OmegaRed.Sio
