import Mathlib.Data.PNat.Defs
import Mathlib.Logic.Function.Basic

/-! The CD drive of the PS1, and the data that the guest takes from its sector buffer. -/

namespace OmegaRed.CDVD.CdRom

abbrev u8 := BitVec 8

abbrev u32 := BitVec 32

def btoi (b : u8) : u8 := BitVec.ofNat 8 (b.toNat / 16 * 10 + b.toNat % 16)

def itob (i : u8) : u8 := BitVec.ofNat 8 (i.toNat / 10 * 16 + i.toNat % 10)

/-- `pTransfer` is an address. -/
structure cdrStruct where
  OCUP : u8
  Reg2 : u8
  CmdProcess : u8
  Ctrl : u8
  Stat : u8
  StatP : u8
  Transfer : Nat → u8
  pTransfer : Nat
  Prev : Nat → u8
  Param : Nat → u8
  Result : Nat → u8
  ParamC : Nat
  ParamP : Nat
  ResultC : Nat
  ResultP : Nat
  ResultReady : Bool
  Cmd : u8
  Readed : u8
  Reading : Nat
  SetSector : Nat → u8
  SetSectorSeek : Nat → u8
  Track : u8
  Play : Bool
  CurTrack : Nat
  Mode : u8
  File : u8
  Channel : u8
  Muted : Bool
  RErr : Int
  FirstSector : Bool
  Init : Bool
  Irq : u8

/-- The disc, and the BIOS setting. `none` is an error of the plugin. -/
structure Env where
  getTN : Option (u8 × u8)
  getTD : u8 → Option (u8 × u8 × u8)
  readTrack : Int
  getBuffer : Int × (Nat → u8)
  LoadCdBios : Bool

def NoIntr : u8 := 0
def DataReady : u8 := 1
def Complete : u8 := 2
def Acknowledge : u8 := 3
def DiskError : u8 := 5

def READ_ACK : u8 := 250

namespace cdrStruct

variable (s : cdrStruct)

/-- The timer of the interrupt is left out: interrupts may come at any time. -/
def AddIrqQueue (irq : u8) : cdrStruct := { s with Irq := irq }

def SetResultSize (size : Nat) : cdrStruct :=
  { s with ResultP := 0, ResultC := size, ResultReady := true }

def setResult (i : Nat) (v : u8) : cdrStruct := { s with Result := Function.update s.Result i v }

def StartReading (type : Nat) : cdrStruct :=
  { s with Reading := type, FirstSector := true, Readed := 0xff }.AddIrqQueue READ_ACK

def StopReading : cdrStruct := { s with Reading := 0 }

def StopCdda : cdrStruct :=
  if s.Play then { s with StatP := s.StatP &&& ~~~0x80#8, Play := false } else s

def ReadTrack (env : Env) : cdrStruct :=
  { s with
    Prev := fun i => if i < 3 then itob (s.SetSector i) else s.Prev i
    RErr := env.readTrack }

def rotating : cdrStruct := { s with StatP := s.StatP ||| 0x02#8 }

/-- The answer of most commands: the status. -/
def status (stat : u8) : cdrStruct :=
  { (s.SetResultSize 1).setResult 0 s.StatP with Stat := stat }

def processed : cdrStruct := { s with CmdProcess := 0 }

/-- Several bytes of a result. -/
def results (vals : List u8) : cdrStruct :=
  { s with Result := fun i => vals.getD i (s.Result i) }

def getTN (env : Env) : cdrStruct :=
  let s := (s.processed.SetResultSize 3).rotating
  let s := s.setResult 0 s.StatP
  match env.getTN with
  | none => { s with Stat := DiskError }.setResult 0 (s.StatP ||| 0x01#8)
  | some (strack, etrack) =>
    (({ s with Stat := Acknowledge }.setResult 1 (itob strack)).setResult 2 (itob etrack))

def getTD (env : Env) : cdrStruct :=
  let s := ({ s.processed with Track := btoi (s.Param 0) }.SetResultSize 4).rotating
  match env.getTD s.Track with
  | none => { s with Stat := DiskError }.setResult 0 (s.Result 0 ||| 0x01#8)
  | some (m, sec, f) => { s with Stat := Acknowledge }.results [s.StatP, f, sec, m]

/-- `CdlTest`: the first four bytes of the texts. -/
def test : cdrStruct :=
  let s := { s with Stat := Acknowledge }
  match (s.Param 0).toNat with
  | 0x20 => (s.SetResultSize 4).results [0x98, 0x06, 0x10, 0xC3]
  | 0x22 => (s.SetResultSize 8).results [0x66, 0x6F, 0x72, 0x20]
  | 0x23 => (s.SetResultSize 8).results [0x43, 0x58, 0x44, 0x32]
  | 0x24 => (s.SetResultSize 8).results [0x43, 0x58, 0x44, 0x32]
  | _ => s

def readAck (env : Env) : cdrStruct :=
  if s.Reading = 0 then s else (s.rotating.status Acknowledge).ReadTrack env

/-- What an interrupt does, by its number. -/
def serve (env : Env) (irq : Nat) : cdrStruct :=
  match irq with
  | 0 => s.rotating.status Acknowledge
  | 1 => s.status Acknowledge
  | 2 => s.processed.rotating.status Acknowledge
  | 3 => { s.processed.status Acknowledge with StatP := s.StatP ||| 0x82#8 }
  | 4 => s.processed.rotating.status Complete
  | 5 => s.processed.rotating.status Complete
  | 7 => s.processed.rotating.status Complete
  | 8 => { s.processed with StatP := s.StatP &&& ~~~0x02#8 }.status Complete
  | 9 => (s.status Acknowledge).AddIrqQueue 41
  | 41 => { s with StatP := s.StatP &&& ~~~0x20#8 }.rotating.status Complete
  | 10 => ({ s with StatP := 0x02 }.status Acknowledge).AddIrqQueue 42
  | 42 => { s.status Complete with Init := true }
  | 11 => s.rotating.status Acknowledge
  | 12 => s.rotating.status Acknowledge
  | 13 => s.rotating.status Acknowledge
  | 14 => s.rotating.status Acknowledge
  | 15 =>
    { (s.SetResultSize 6).rotating with Stat := Acknowledge }.results
      [s.rotating.StatP, s.Mode, s.File, s.Channel, 0, 0]
  | 16 => { s.SetResultSize 8 with Stat := Acknowledge }.results ((List.range 8).map s.Transfer)
  | 17 =>
    { s.SetResultSize 8 with Stat := Acknowledge }.results
      [1, 1, s.Prev 0, itob (btoi (s.Prev 1) - 2), s.Prev 2, s.Prev 0, s.Prev 1, s.Prev 2]
  | 19 => s.getTN env
  | 20 => s.getTD env
  | 21 => (s.rotating.status Acknowledge).AddIrqQueue 53
  | 53 => s.rotating.status Complete
  | 22 => (s.rotating.status Acknowledge).AddIrqQueue 54
  | 54 => s.rotating.status Complete
  | 25 => s.test
  | 26 => (s.rotating.status Acknowledge).AddIrqQueue 58
  | 58 =>
    { s.SetResultSize 8 with Stat := Complete }.results
      [0x00, if env.LoadCdBios then 0x00 else 0x80, 0x00, 0x00, 0x50, 0x43, 0x53, 0x58]
  | 28 => { s with StatP := 0x02 }.status Acknowledge
  | 30 => (s.rotating.status Acknowledge).AddIrqQueue 62
  | 62 => s.rotating.status Complete
  | 249 => { s with OCUP := 0 }.AddIrqQueue 9
  | 250 => s.readAck env
  | 252 => (s.status Acknowledge).AddIrqQueue 253
  | 253 => s
  | 255 => s
  | _ => { s with Stat := Complete }

def cdrInterrupt (env : Env) : cdrStruct :=
  if s.Stat ≠ 0 then s
  else { s with Irq := 0xff, Ctrl := s.Ctrl &&& ~~~0x80#8 }.serve env s.Irq.toNat

/-- `SetSector` moves on by one. -/
def nextSector : cdrStruct :=
  let f := s.SetSector 2 + 1
  if f = 75 then
    let sec := s.SetSector 1 + 1
    if sec = 60 then
      { s with SetSector := fun i => match i with
        | 0 => s.SetSector 0 + 1
        | 1 => 0
        | 2 => 0
        | i => s.SetSector i }
    else
      { s with SetSector := fun i => match i with
        | 1 => sec
        | 2 => 0
        | i => s.SetSector i }
  else { s with SetSector := Function.update s.SetSector 2 f }

/-- `DoCDVDgetBuffer`, when the read of the track did not fail. -/
def getBuffer (env : Env) : cdrStruct :=
  if s.RErr = 0 then { s with RErr := env.getBuffer.1, Transfer := env.getBuffer.2 } else s

def cdrReadInterrupt (env : Env) : cdrStruct :=
  if s.Reading = 0 then s
  else if s.Stat ≠ 0 then s
  else
    let s := ({ s with OCUP := 1, StatP := s.StatP ||| 0x22#8 } : cdrStruct).SetResultSize 1
    let s := (s.setResult 0 s.StatP).getBuffer env
    if s.RErr = -1 then
      ({ s with Transfer := fun _ => 0, Stat := DiskError }.setResult 0
        (s.Result 0 ||| 0x01#8)).ReadTrack env
    else
      let s := ({ s with Stat := DataReady, Readed := 0 } : cdrStruct).nextSector
      if s.Transfer 6 &&& 0x80 ≠ 0 ∧ s.Mode &&& 0x2 ≠ 0 then s.AddIrqQueue 9
      else s.ReadTrack env

def cdrRead0 : cdrStruct × u8 :=
  let Ctrl := if s.ResultReady then s.Ctrl ||| 0x20#8 else s.Ctrl &&& ~~~0x20#8
  let Ctrl := if s.OCUP ≠ 0 then Ctrl ||| 0x40#8 else Ctrl &&& ~~~0x40#8
  ({ s with Ctrl := Ctrl ||| 0x18#8 }, Ctrl ||| 0x18#8)

def cdrWrite0 (rt : u8) : cdrStruct :=
  let s := { s with Ctrl := rt ||| (s.Ctrl &&& ~~~0x3#8) }
  if rt = 0 then { s with ParamP := 0, ParamC := 0, ResultReady := false } else s

def cdrRead1 : cdrStruct × u8 :=
  if s.ResultReady ∧ s.Ctrl &&& 0x1 ≠ 0 then
    ({ s with
      ResultP := s.ResultP + 1
      ResultReady := s.ResultReady && s.ResultP + 1 != s.ResultC }, s.Result s.ResultP)
  else (s, 0)

/-- A command waits for its interrupt. -/
def queue : cdrStruct :=
  { s with Ctrl := s.Ctrl ||| 0x80#8, Stat := NoIntr }.AddIrqQueue s.Cmd

def setloc : cdrStruct :=
  let m := btoi (s.Param 0)
  let sec := btoi (s.Param 1)
  let f := btoi (s.Param 2)
  if m ||| sec ||| f = 0 then { s with SetSector := s.SetSectorSeek }
  else { s with SetSector := fun i => [m, sec, f].getD i 0 }

def startReading (type : Nat) : cdrStruct :=
  { ({ s with Irq := 0 } : cdrStruct).StopReading with
    Ctrl := s.Ctrl ||| 0x80#8
    Stat := NoIntr }.StartReading type

/-- The commands. -/
def cdrWrite1 (rt : u8) : cdrStruct :=
  let s := { s with Cmd := rt, OCUP := 0 }
  if s.Ctrl &&& 0x1 ≠ 0 then s
  else match rt.toNat with
  | 0 => s.queue
  | 1 => s.queue
  | 2 => s.setloc.queue
  | 3 => { s with Play := true }.queue
  | 4 => { s with CurTrack := if s.CurTrack < 0xaa then s.CurTrack + 1 else s.CurTrack }.queue
  | 5 => { s with CurTrack := if s.CurTrack > 1 then s.CurTrack - 1 else s.CurTrack }.queue
  | 6 => s.startReading 1
  | 7 => s.StopCdda.StopReading.queue
  | 8 => s.StopCdda.StopReading.queue
  | 9 => s.StopCdda.StopReading.queue
  | 28 => s.StopCdda.StopReading.queue
  | 10 => s.StopCdda.StopReading.queue
  | 11 => { s with Muted := false }.queue
  | 12 => { s with Muted := true }.queue
  | 13 => { s with File := s.Param 0, Channel := s.Param 1 }.queue
  | 14 => { s with Mode := s.Param 0 }.queue
  | 15 => s.queue
  | 16 => s.queue
  | 17 => s.queue
  | 19 => s.queue
  | 20 => s.queue
  | 21 => { s with SetSectorSeek := s.SetSector }.queue
  | 22 => { s with SetSectorSeek := s.SetSector }.queue
  | 25 => s.queue
  | 26 => s.queue
  | 27 => s.startReading 2
  | 30 => s.queue
  | _ => s

/-- `*cdr.pTransfer++`; `base` is the address of `Transfer`, and `none` reads outside of it. -/
def cdrRead2 (base : ℕ+) : Option (cdrStruct × u8) :=
  if s.Readed = 0 then some (s, 0)
  else if base ≤ s.pTransfer ∧ s.pTransfer < base + 2352 then
    some ({ s with pTransfer := s.pTransfer + 1 }, s.Transfer (s.pTransfer - base))
  else none

def cdrWrite2 (rt : u8) : cdrStruct :=
  if s.Ctrl &&& 0x1 ≠ 0 then
    if rt = 0x07 then { s with ParamP := 0, ParamC := 0, ResultReady := false, Ctrl := 0 }
    else { s with Reg2 := rt }
  else if s.ParamP < 8 then
    { s with
      Param := Function.update s.Param s.ParamP rt
      ParamP := s.ParamP + 1
      ParamC := s.ParamC + 1 }
  else s

/-- Where the data of a sector starts. -/
def start : Nat := if s.Mode &&& 0x30 = 0x10 ∨ s.Mode &&& 0x30 = 0 then 12 else 0

/-- A write that asks for the data of a sector. -/
def Requests (rt : u8) : Prop := rt = 0x80 ∧ s.Ctrl &&& 0x1 = 0 ∧ s.Readed = 0

instance (rt : u8) : Decidable (s.Requests rt) := inferInstanceAs (Decidable (_ ∧ _))

def cdrWrite3 (base : ℕ+) (rt : u8) : cdrStruct :=
  if rt = 0x07 ∧ s.Ctrl &&& 0x1 ≠ 0 then
    { s with Stat := 0, Irq := if s.Irq = 0xff then 0 else s.Irq }
  else if s.Requests rt then { s with Readed := 1, pTransfer := base + s.start }
  else s

end cdrStruct

def cdsize (bcr : u32) : Nat := (bcr &&& 0xffff#32).toNat * 4

/-- The transfers that move data. -/
def Moves (chcr : u32) : Prop := chcr = 0x11000000#32 ∨ chcr = 0x11400100#32

instance (chcr : u32) : Decidable (Moves chcr) := inferInstanceAs (Decidable (_ ∨ _))

/-- The bytes that go to the IOP memory; `none` reads outside of `Transfer`, or writes outside of
the memory. -/
def cdrStruct.psxDma3 (s : cdrStruct) (base : ℕ+) (madr bcr chcr : u32) :
    Option (cdrStruct × List u8) :=
  if Moves chcr then
    if s.Readed = 0 ∨ cdsize bcr = 0 then some (s, [])
    else if base ≤ s.pTransfer ∧ s.pTransfer + cdsize bcr ≤ base + 2352 ∧
        (madr &&& 0x1fffff#32).toNat + cdsize bcr ≤ 0x200000 then
      some ({ s with pTransfer := s.pTransfer + cdsize bcr },
        (List.range (cdsize bcr)).map fun k => s.Transfer (s.pTransfer - base + k))
    else none
  else some (s, [])

def cdrReset : cdrStruct where
  OCUP := 0
  Reg2 := 0
  CmdProcess := 0
  Ctrl := 0
  Stat := 0
  StatP := 0
  Transfer _ := 0
  pTransfer := 0
  Prev _ := 0
  Param _ := 0
  Result _ := 0
  ParamC := 0
  ParamP := 0
  ResultC := 0
  ResultP := 0
  ResultReady := false
  Cmd := 0
  Readed := 0
  Reading := 0
  SetSector _ := 0
  SetSectorSeek _ := 0
  Track := 0
  Play := false
  CurTrack := 1
  Mode := 0
  File := 1
  Channel := 1
  Muted := false
  RErr := 0
  FirstSector := false
  Init := false
  Irq := 0

/-- A process, where `Transfer` is at `base`, and the savestates: what `cdrFreeze` stores, with
the `base` of the process that stored it. -/
structure World where
  cdr : cdrStruct
  base : ℕ+
  files : List (cdrStruct × ℕ+)

inductive Event
  | read (port : Fin 4)
  | write (port : Fin 4) (rt : u8)
  | interrupt (env : Env)
  | readInterrupt (env : Env)
  | dma3 (madr bcr chcr : u32)
  | reset
  | save
  | load (i : Nat)
  /-- another process -/
  | restart (base : ℕ+)

/-- One event, and the bytes that the data port or the DMA gives. -/
def step (w : World) : Event → Option (World × List u8)
  | .read 0 => some ({ w with cdr := w.cdr.cdrRead0.1 }, [])
  | .read 1 => some ({ w with cdr := w.cdr.cdrRead1.1 }, [])
  | .read 2 => (w.cdr.cdrRead2 w.base).map fun p => ({ w with cdr := p.1 }, [p.2])
  -- `cdrRead3` changes nothing
  | .read 3 => some (w, [])
  | .write 0 rt => some ({ w with cdr := w.cdr.cdrWrite0 rt }, [])
  | .write 1 rt => some ({ w with cdr := w.cdr.cdrWrite1 rt }, [])
  | .write 2 rt => some ({ w with cdr := w.cdr.cdrWrite2 rt }, [])
  | .write 3 rt => some ({ w with cdr := w.cdr.cdrWrite3 w.base rt }, [])
  | .interrupt env => some ({ w with cdr := w.cdr.cdrInterrupt env }, [])
  | .readInterrupt env => some ({ w with cdr := w.cdr.cdrReadInterrupt env }, [])
  | .dma3 madr bcr chcr =>
    (w.cdr.psxDma3 w.base madr bcr chcr).map fun p => ({ w with cdr := p.1 }, p.2)
  | .reset => some ({ w with cdr := cdrReset }, [])
  | .save => some ({ w with files := w.files ++ [(w.cdr, w.base)] }, [])
  | .load i => some ({ w with cdr := (w.files[i]?.map Prod.fst).getD w.cdr }, [])
  | .restart base => some ({ w with cdr := cdrReset, base := base }, [])

end OmegaRed.CDVD.CdRom
