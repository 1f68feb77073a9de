import OmegaRed.Gif.Path

/-! `Gif_Unit` outside MTVU mode: its three paths, the arbitration between them, and the guest's
writes to CSR and IMR. -/

namespace OmegaRed.Gif

open Lib.Words

inductive GIFPath
  | path1 | path2 | path3
  deriving DecidableEq

inductive TransferType
  | xgkick | direct | directHL | dma | fifo
  deriving DecidableEq

def TransferType.path : TransferType → GIFPath
  | .xgkick => .path1
  | .direct | .directHL => .path2
  | .dma | .fifo => .path3

/-- `GIF_STAT`; `apath` is `APATH - 1`, none for 0. -/
structure GifStat where
  m3r : Bool
  m3p : Bool
  imt : Bool
  pse : Bool
  ip3 : Bool
  p3q : Bool
  p2q : Bool
  p1q : Bool
  oph : Bool
  apath : Option GIFPath
  dir : Bool

def GifStat.zero : GifStat :=
  ⟨false, false, false, false, false, false, false, false, false, none, false⟩

/-- The interrupt bits of CSR, or the bits of IMR that mask them. -/
structure Flags where
  signal : Bool
  finish : Bool
  hsint : Bool
  vsint : Bool
  edwint : Bool
  deriving DecidableEq

namespace Flags

def ofBits (w : UInt32) : Flags :=
  ⟨w &&& 1 ≠ 0, w &&& 2 ≠ 0, w &&& 4 ≠ 0, w &&& 8 ≠ 0, w &&& 16 ≠ 0⟩

/-- The interrupts of `csr` that `old` masks and `new` does not. -/
def woken (csr old new : Flags) : Flags :=
  ⟨csr.signal && old.signal && !new.signal, csr.finish && old.finish && !new.finish,
    csr.hsint && old.hsint && !new.hsint, csr.vsint && old.vsint && !new.vsint,
    csr.edwint && old.edwint && !new.edwint⟩

def any (f : Flags) : Bool := f.signal || f.finish || f.hsint || f.vsint || f.edwint

end Flags

/-- The identifier and the mask in a write to SIGNAL or LABEL. -/
def idAndMask (pMem : List UInt8) : UInt32 × UInt32 :=
  (loadWord (pMem.getD · 0) 0, loadWord (pMem.getD · 0) 4)

/-- What the guest can tell of the unit's work: a call of `Gif_HandlerAD`, an update of SIGID, a
packet for the MTGS, a CSR write that acknowledges SIGNAL or FINISH, an IMR write with the
interrupts it lets through, `Gif_FinishIRQ` raising INTC_GS, and HSINT or VSINT raising it. -/
inductive GSEvent
  | handled (path : GIFPath) (pMem : List UInt8) (csrSignal : Bool)
  | applied (data : UInt32 × UInt32) (sigmsk : Bool)
  | completed (path : GIFPath) (pack : GSPacket)
  | csrSignal
  | csrFinish
  | imrWrite (new woken : Flags)
  | finishIRQ
  | sync

/-- `handlerAD` for a path, with the history. -/
def traced (path : GIFPath) (pMem : List UInt8) (r : GSRegs × List GSEvent) :
    Bool × GSRegs × List GSEvent :=
  let (dblSIGNAL, g) := handlerAD pMem r.1
  let applied :=
    if pMem.getD 8 0 = regSIGNAL && !r.1.csrSignal then
      [GSEvent.applied (idAndMask pMem) r.1.sigmsk] else []
  (dblSIGNAL, g, r.2 ++ .handled path pMem r.1.csrSignal :: applied)

/-- The fields of `tGS_CSR` that a write looks at. -/
structure CSRWrite where
  flags : Flags
  reset : Bool

def CSRWrite.ofBits (value : UInt32) : CSRWrite := ⟨.ofBits value, value &&& 0x200 ≠ 0⟩

/-- Who has called `Execute`. -/
inductive Caller
  | transfer (size : Nat)
  | csrWrite (csr : CSRWrite)
  | other

/-- The arguments and locals of `Execute`. -/
structure Execution where
  isPath3 : Bool
  isResume : Bool
  didPath3 : Bool
  curPath : GIFPath
  caller : Caller

/-- Where the EE thread stands: outside the unit, in `CopyGSPacketData` before and after it may
have moved the packet, before `Execute`, in its loop, in `RealignPacket`, before the
arbitration, behind the loop, or in `gsCSRwrite` behind its call of `Execute`. -/
inductive Pc
  | idle
  | copy (path : GIFPath) (data : List UInt8) (tranType : Option TransferType)
  | memcpy (path : GIFPath) (data : List UInt8) (tranType : Option TransferType)
  | enter (isPath3 isResume : Bool) (caller : Caller)
  | loop (e : Execution)
  | realign (e : Execution)
  | arbitrate (e : Execution)
  | leave (e : Execution)
  | csrTail (csr : CSRWrite)

/-- `gs` has CSR.SIGNAL, CSR.FINISH, IMR.SIGMSK and `gsSIGNAL`; `result` is what the last
transfer returned. -/
structure GifUnit where
  gifPath : GIFPath → GifPath
  gs : GSRegs
  hsint : Bool
  vsint : Bool
  edwint : Bool
  finishmsk : Bool
  hsmsk : Bool
  vsmsk : Bool
  edwmsk : Bool
  gsFINISHFired : Bool
  stat : GifStat
  result : Nat
  pc : Pc
  history : List GSEvent

/-- `RealignPacket` after its wait. -/
def GifPath.realignPacket (p : GifPath) : GifPath :=
  if p.base < buffLimit then (p.fetchAdd (buffLimit - p.base)).moveToFront else p.moveToFront

namespace GifUnit

def csr (u : GifUnit) : Flags := ⟨u.gs.csrSignal, u.gs.csrFinish, u.hsint, u.vsint, u.edwint⟩

def imr (u : GifUnit) : Flags := ⟨u.gs.sigmsk, u.finishmsk, u.hsmsk, u.vsmsk, u.edwmsk⟩

def setPath (u : GifUnit) (path : GIFPath) (p : GifPath) : GifUnit :=
  { u with gifPath := Function.update u.gifPath path p }

@[simp] theorem setPath_self (u : GifUnit) (path : GIFPath) (p : GifPath) :
    (u.setPath path p).gifPath path = p := Function.update_self _ _ _

theorem setPath_of_ne (u : GifUnit) {path path' : GIFPath} (h : path' ≠ path) (p : GifPath) :
    (u.setPath path p).gifPath path' = u.gifPath path' := Function.update_of_ne h _ _

def gsIrq (u : GifUnit) : GifUnit := { u with gs := { u.gs with intcGS := u.gs.intcGS + 1 } }

def canDoGif (u : GifUnit) : Bool := !u.stat.pse && !u.stat.dir && !u.gs.signalQueued

def canDoP3Slice (u : GifUnit) : Bool := u.stat.imt && (u.gifPath .path3).state = .image

def path3Masked (u : GifUnit) : Bool :=
  (u.stat.m3r || u.stat.m3p) &&
    ((u.gifPath .path3).state = .idle || (u.gifPath .path3).state = .wait)

def canDoPath1 (u : GifUnit) : Bool :=
  (u.stat.apath = none || u.stat.apath = some .path1 ||
    (u.stat.apath = some .path3 && u.canDoP3Slice)) && u.canDoGif

def canDoPath2 (u : GifUnit) : Bool :=
  (u.stat.apath = none || u.stat.apath = some .path2 ||
    (u.stat.apath = some .path3 && u.canDoP3Slice)) && u.canDoGif

def canDoPath2HL (u : GifUnit) : Bool :=
  (u.stat.apath = none || u.stat.apath = some .path2) && u.canDoGif

def canDoPath3 (u : GifUnit) : Bool :=
  ((u.stat.apath = none && !u.path3Masked) || u.stat.apath = some .path3) && u.canDoGif

/-- `TransferGSPacketData` up to its call of `CopyGSPacketData`. -/
def transferGSPacketData (u : GifUnit) (tranType : TransferType) (data : List UInt8) : GifUnit :=
  let copy : Pc := .copy tranType.path data (some tranType)
  if data = [] then { u with result := 0 }
  else match tranType with
    | .fifo => { u with pc := copy }
    | .dma =>
      if u.canDoPath3 then { u with pc := copy }
      else { u with result := 0, stat := { u.stat with p3q := u.stat.p3q || !u.path3Masked } }
    | .xgkick => { u with pc := copy, stat := { u.stat with p1q := u.stat.p1q || !u.canDoPath1 } }
    | .direct =>
      if u.canDoPath2 then { u with pc := copy }
      else { u with result := 0, stat := { u.stat with p2q := true } }
    | .directHL =>
      if u.canDoPath2HL then { u with pc := copy }
      else { u with result := 0, stat := { u.stat with p2q := true } }

/-- `CopyGSPacketData` up to its wait for the MTGS thread; none while `RealignPacket` waits. -/
def copyGSPacketData (u : GifUnit) (path : GIFPath) (data : List UInt8)
    (tranType : Option TransferType) : Option GifUnit :=
  let p := u.gifPath path
  let memcpy : Pc := .memcpy path data tranType
  if p.curSize + data.length > buffSize then
    if p.realignReady then some { u.setPath path p.realignPacket with pc := memcpy } else none
  else some { u with pc := memcpy }

/-- The copy itself; none while it waits, or when the data fails the overflow assertion. -/
def memcpy (u : GifUnit) (path : GIFPath) (data : List UInt8) (tranType : Option TransferType) :
    Option GifUnit :=
  let p := u.gifPath path
  let next : Pc :=
    match tranType with
    | some t => .enter (t = .dma) false (.transfer data.length)
    | none => .idle
  if p.copyReady data.length && p.curSize + data.length ≤ buffSize then
    some { u.setPath path (p.append data) with pc := next }
  else none

def addCompletedGSPacket (u : GifUnit) (path : GIFPath) (pack : GSPacket) : GifUnit :=
  { u.setPath path ((u.gifPath path).fetchAdd pack.size) with
    history := u.history ++ [.completed path pack] }

def flushToMTGS (u : GifUnit) : GifUnit :=
  match u.stat.apath with
  | none => u
  | some path =>
    match (u.gifPath path).flushed with
    | some pack =>
      (u.setPath path (u.gifPath path).afterFlush).addCompletedGSPacket path pack
    | none => u

def finishIRQ (u : GifUnit) : GifUnit :=
  if u.gs.csrFinish && !u.finishmsk && !u.gsFINISHFired then
    { u.gsIrq with gsFINISHFired := true, history := u.history ++ [.finishIRQ] }
  else u

/-- Back to the caller of `Execute`. -/
def returnTo (u : GifUnit) (caller : Caller) (result : Nat) : GifUnit :=
  match caller with
  | .transfer size => { u with result := size - result, pc := .idle }
  | .csrWrite csr => { u with pc := .csrTail csr }
  | .other => { u with pc := .idle }

/-- `Execute` up to its loop. -/
def enter (u : GifUnit) (isPath3 isResume : Bool) (caller : Caller) : GifUnit :=
  if u.canDoGif then
    { u.setPath .path3 { u.gifPath .path3 with dmaRewind := 0 } with
      stat := { u.stat with oph := true }
      pc := .loop ⟨isPath3, isResume, false, u.stat.apath.getD .path1, caller⟩ }
  else u.returnTo caller 0

/-- The active path has not finished its packet: leave the loop, or slice path 3. -/
def notDone (u : GifUnit) (e : Execution) : GifUnit :=
  if u.stat.apath = some .path3 && u.canDoP3Slice && !u.gs.signalQueued && !e.didPath3 &&
      (!(u.gifPath .path1).isDone || !(u.gifPath .path2).isDone) then
    let u := { u with
      stat := { u.stat with apath := none, ip3 := true }
      pc := .loop { e with didPath3 := true } }
    match (u.gifPath .path3).sliced with
    | some pack =>
      (u.setPath .path3 (u.gifPath .path3).afterSlice).addCompletedGSPacket .path3 pack
    | none => u
  else { u with pc := .leave e }

/-- After a round of `ExecuteGSPacket` on `path`. -/
def afterExec (u : GifUnit) (path : GIFPath) (e : Execution) :
    Exec (GSRegs × List GSEvent) → GifUnit
  | .again p (g, h) => { u.setPath path p with gs := g, history := h, pc := .loop e }
  | .realign p (g, h) => { u.setPath path p with gs := g, history := h, pc := .realign e }
  | .exit p (g, h) => { u.setPath path p with gs := g, history := h }.notDone e
  | .done p (g, h) pack =>
    let u := { u.setPath path p with gs := g, history := h, pc := .arbitrate e }
    let state := (u.gifPath e.curPath).state
    if state = .wait || state = .idle then u.addCompletedGSPacket path pack else u

def packetStat (u : GifUnit) : Stat := ⟨u.stat.apath = some .path3, u.stat.m3r || u.stat.m3p⟩

/-- The loop of `Execute` up to its arbitration, one round of `ExecuteGSPacket` at a time. -/
def loop (u : GifUnit) (e : Execution) : GifUnit :=
  match u.stat.apath with
  | none => { u with pc := .arbitrate e }
  | some path =>
    u.afterExec path e
      (executeGSPacket (traced path) u.packetStat (u.gifPath path) (u.gs, u.history))

/-- `RealignPacket` in `ExecuteGSPacket`; none while it waits. -/
def realign (u : GifUnit) (e : Execution) : Option GifUnit :=
  match u.stat.apath with
  | none => none
  | some path =>
    if (u.gifPath path).realignReady then
      let p := (u.gifPath path).realignPacket
      some (u.afterExec path e (loadTag (traced path) u.packetStat p (u.gs, u.history)))
    else none

def arbitrate (u : GifUnit) (e : Execution) : GifUnit :=
  if !u.gs.signalQueued && !(u.gifPath .path1).isDone then
    { u with
      stat := { u.stat with apath := some .path1, p1q := false }
      pc := .loop { e with curPath := .path1 } }
  else if !u.gs.signalQueued && !(u.gifPath .path2).isDone then
    { u with
      stat := { u.stat with apath := some .path2, p2q := false }
      pc := .loop { e with curPath := .path2 } }
  else if !u.gs.signalQueued && !(u.gifPath .path3).isDone && !u.path3Masked then
    { u with
      stat := { u.stat with apath := some .path3, p3q := false, ip3 := false }
      pc := .loop { e with curPath := .path3 } }
  else if e.isResume || e.curPath = .path1 then
    { u with stat := { u.stat with apath := none, oph := false }, pc := .leave e }
  else { u with pc := .leave e }

/-- `Execute` behind its loop. -/
def leave (u : GifUnit) (e : Execution) : GifUnit :=
  let p := u.gifPath e.curPath
  let u := (if p.curOffset = p.curSize then u.flushToMTGS else u).finishIRQ
  u.returnTo e.caller (if e.isPath3 then (u.gifPath .path3).dmaRewind else 0)

/-- RESET in `gsCSRwrite`. -/
def csrReset (u : GifUnit) : GifUnit :=
  { u with
    gs := { u.gs with signalQueued := false, csrSignal := false, csrFinish := false, sigmsk := true }
    hsint := false, vsint := false, edwint := false
    finishmsk := true, hsmsk := true, vsmsk := true, edwmsk := true }

/-- SIGNAL in `gsCSRwrite`. -/
def csrSignal (u : GifUnit) : GifUnit :=
  if u.gs.signalQueued then
    let data := u.gs.signalData
    { u with
      gs := { u.gs with
        sigid := (u.gs.sigid &&& ~~~data.2) ||| (data.1 &&& data.2)
        intcGS := if u.gs.sigmsk then u.gs.intcGS else u.gs.intcGS + 1
        csrSignal := true
        signalQueued := false }
      history := u.history ++ [.csrSignal, .applied data u.gs.sigmsk] }
  else
    { u with
      gs := { u.gs with csrSignal := false, signalQueued := false }
      history := u.history ++ [.csrSignal] }

/-- `gsCSRwrite` up to its call of `Execute`. -/
def gsCSRwrite (u : GifUnit) (csr : CSRWrite) : GifUnit :=
  let u := if csr.reset then u.csrReset else u
  if csr.flags.signal then { u.csrSignal with pc := .enter false true (.csrWrite csr) }
  else { u with pc := .csrTail csr }

/-- `gsCSRwrite` behind its call of `Execute`. -/
def csrTail (u : GifUnit) (csr : CSRWrite) : GifUnit :=
  let u :=
    if csr.flags.finish then
      { u with
        gs := { u.gs with csrFinish := false }
        gsFINISHFired := false
        history := u.history ++ [.csrFinish] }
    else u
  { u with
    hsint := u.hsint && !csr.flags.hsint
    vsint := u.vsint && !csr.flags.vsint
    edwint := u.edwint && !csr.flags.edwint
    pc := .idle }

def imrWrite (u : GifUnit) (value : UInt32) : GifUnit :=
  let new := Flags.ofBits (value >>> 8)
  let woken := Flags.woken u.csr u.imr new
  let u := if woken.any then u.gsIrq else u
  { u with
    gs := { u.gs with sigmsk := new.signal }
    finishmsk := new.finish, hsmsk := new.hsint, vsmsk := new.vsint, edwmsk := new.edwint
    history := u.history ++ [.imrWrite new woken] }

/-- The interrupt of a counter: nothing while it is pending. -/
def hsync (u : GifUnit) : GifUnit :=
  if u.hsint then u
  else if u.hsmsk then { u with hsint := true }
  else { u.gsIrq with hsint := true, history := u.history ++ [.sync] }

def vsync (u : GifUnit) : GifUnit :=
  if u.vsint then u
  else if u.vsmsk then { u with vsint := true }
  else { u.gsIrq with vsint := true, history := u.history ++ [.sync] }

/-- A write to GS_BUSDIR, as far as the unit is concerned. -/
def busdir (u : GifUnit) (dir : Bool) : GifUnit :=
  if dir then { u with stat := { u.stat with dir := true, oph := true } }.flushToMTGS
  else { u with stat := { u.stat with dir := false } }

end GifUnit

/-- The next step of the EE thread inside the unit, the MTGS thread having read `size` bytes of
a path, and what comes from outside while the EE thread is not inside: transfers, a
`CopyGSPacketData` of their first part, `Execute(false, true)`, the guest's register writes, the
counters, the end of a transfer that clears APATH, the end of the wait of path 3. -/
inductive Action
  | ee
  | mtgs (path : GIFPath) (size : Nat)
  | transfer (tranType : TransferType) (data : List UInt8)
  | copyGSPacketData (path : GIFPath) (data : List UInt8)
  | execute
  | csrWrite (value : UInt32)
  | imrWrite (value : UInt32)
  | hsync
  | vsync
  | clearAPATH
  | path3Idle
  | gifMode (m3r imt : Bool)
  | mskpath3 (m3p : Bool)
  | gifCtrl (pse : Bool)
  | busdir (dir : Bool)

namespace GifUnit

/-- A step of the EE thread inside the unit. -/
def resume (u : GifUnit) : Option GifUnit :=
  match u.pc with
  | .idle => none
  | .copy path data tranType => u.copyGSPacketData path data tranType
  | .memcpy path data tranType => u.memcpy path data tranType
  | .enter isPath3 isResume caller => some (u.enter isPath3 isResume caller)
  | .loop e => some (u.loop e)
  | .realign e => u.realign e
  | .arbitrate e => some (u.arbitrate e)
  | .leave e => some (u.leave e)
  | .csrTail csr => some (u.csrTail csr)

/-- What an action from outside starts. -/
def start (u : GifUnit) : Action → GifUnit
  | .ee | .mtgs _ _ => u
  | .transfer tranType data => u.transferGSPacketData tranType data
  | .copyGSPacketData path data => { u with pc := .copy path data none }
  | .execute => { u with pc := .enter false true .other }
  | .csrWrite value => u.gsCSRwrite (.ofBits value)
  | .imrWrite value => u.imrWrite value
  | .hsync => u.hsync
  | .vsync => u.vsync
  | .clearAPATH => { u with stat := { u.stat with apath := none, oph := false } }
  | .path3Idle =>
    let p := u.gifPath .path3
    u.setPath .path3 (if p.state = .wait then { p with state := .idle } else p)
  | .gifMode m3r imt => { u with stat := { u.stat with m3r := m3r, imt := imt } }
  | .mskpath3 m3p => { u with stat := { u.stat with m3p := m3p } }
  | .gifCtrl pse => { u with stat := { u.stat with pse := pse } }
  | .busdir dir => u.busdir dir

def step (u : GifUnit) : Action → Option GifUnit
  | .ee => u.resume
  | .mtgs path size => some (u.setPath path ((u.gifPath path).fetchAdd (-size)))
  | a =>
    match u.pc with
    | .idle => some (u.start a)
    | _ => none

end GifUnit

end OmegaRed.Gif
