import OmegaRed.Lib.Words
import OmegaRed.Lib.Traces

/-! GIF tags: the hardware's 128 bits and the parser's state while it is inside a
primitive. -/

namespace OmegaRed.Gif

open Lib.Memory Lib.Words

inductive GifFlg
  | packed | reglist | image | image2
  deriving DecidableEq

def GifFlg.ofBits : Nat → GifFlg
  | 0 => .packed
  | 1 => .reglist
  | 2 => .image
  | _ => .image2

/-- The fields of `HW_Gif_Tag` the GIF unit looks at. -/
structure HWGifTag where
  nloop : Nat
  eop : Bool
  flg : GifFlg
  nreg : Nat
  regs0 : UInt32
  regs1 : UInt32

/-- The tag in the 16 bytes at `pMem`. -/
def HWGifTag.read (m : Nat → UInt8) (pMem : Nat) : HWGifTag :=
  let w0 := (loadWord m pMem).toNat
  let w1 := (loadWord m (pMem + 4)).toNat
  { nloop := w0 % 2 ^ 15
    eop := w0 / 2 ^ 15 % 2 = 1
    flg := .ofBits (w1 / 2 ^ 26 % 4)
    nreg := w1 / 2 ^ 28
    regs0 := loadWord m (pMem + 8)
    regs1 := loadWord m (pMem + 12) }

theorem HWGifTag.read_congr {m m' : Nat → UInt8} {a b : Nat}
    (h : load m a 16 = load m' b 16) : HWGifTag.read m a = HWGifTag.read m' b := by
  have hword (k : Nat) (hk : k + 4 ≤ 16) : loadWord m (a + k) = loadWord m' (b + k) := by
    apply loadWord_congr
    intro i hi4
    rw [Nat.add_assoc, Nat.add_assoc]
    exact load_ext_iff.mp h (k + i) (by omega)
  have hword0 : loadWord m a = loadWord m' b := hword 0 (by omega)
  rw [HWGifTag.read, HWGifTag.read, hword0, hword 4 (by omega), hword 8 (by omega),
    hword 12 (by omega)]

def gifRegAD : UInt32 := 0x0e

structure GifTag where
  tag : HWGifTag
  nLoop : Nat
  nRegs : Nat
  nRegIdx : Nat
  len : Nat
  regs : List UInt32
  hasAD : Bool
  isValid : Bool

def HWGifTag.zero : HWGifTag := ⟨0, false, .packed, 0, 0, 0⟩

namespace GifTag

def reset : GifTag := ⟨.zero, 0, 0, 0, 0, [], false, false⟩

def curReg (t : GifTag) : UInt32 := t.regs.getD (t.nRegIdx &&& 0xf) 0

def packedStep (t : GifTag) : GifTag :=
  if t.nLoop > 0 then
    if t.nRegIdx + 1 ≥ t.nRegs then { t with nRegIdx := 0, nLoop := t.nLoop - 1 }
    else { t with nRegIdx := t.nRegIdx + 1 }
  else t

/-- The lowest `n` four-bit fields of a word. -/
def nibbles (t : UInt32) (n : Nat) : List UInt32 :=
  (List.range n).map (fun i => (t >>> UInt32.ofNat (4 * i)) &&& 0xf)

def analyzeTag (t : GifTag) : GifTag :=
  let regs := nibbles t.tag.regs0 (min t.nRegs 8) ++ nibbles t.tag.regs1 (t.nRegs - 8)
  { t with regs := regs, hasAD := regs.contains gifRegAD }

def setTag (t : GifTag) (m : Nat → UInt8) (pMem : Nat) : GifTag :=
  let tag := HWGifTag.read m pMem
  let t := { t with tag := tag, nLoop := tag.nloop, hasAD := false, nRegIdx := 0, isValid := true }
  match tag.flg with
  | .packed =>
    let nRegs := (tag.nreg + 15) % 16 + 1
    { t with nRegs := nRegs, len := nRegs * tag.nloop * 16 }.analyzeTag
  | .reglist =>
    let nRegs := (tag.nreg + 15) % 16 + 1
    { t with nRegs := nRegs, len := (nRegs * tag.nloop + 1) / 2 * 16 }
  | .image | .image2 =>
    { t with nRegs := 0, len := tag.nloop * 16, tag := { tag with flg := .image } }

@[simp] theorem isValid_setTag (t : GifTag) (m : Nat → UInt8) (pMem : Nat) :
    (t.setTag m pMem).isValid = true := by
  simp only [setTag]
  split <;> rfl

theorem len_setTag_mod (t : GifTag) (m : Nat → UInt8) (pMem : Nat) :
    16 ∣ (t.setTag m pMem).len := by
  simp only [setTag]
  split <;> exact Nat.dvd_mul_left _ _

end GifTag

end OmegaRed.Gif

/-! A GIF path outside MTVU mode: its packet buffer and the parser over it.  `σ` is the
state of the GS registers that `Gif_HandlerAD` works on. -/

namespace OmegaRed.Gif

open Lib.Memory

def _1kb : Nat := 1024

def _1mb : Nat := _1kb * 1024

def buffSize : Nat := _1mb * 9

def buffSafeZone : Nat := _1mb + _1kb

def buffLimit : Nat := buffSize - buffSafeZone

inductive GifPathState
  | idle | packed | reglist | image | wait
  deriving DecidableEq

def GifPathState.ofFlg : GifFlg → GifPathState
  | .packed => .packed
  | .reglist => .reglist
  | .image | .image2 => .image

structure GSPacket where
  offset : Nat
  size : Nat
  deriving DecidableEq

structure GifPath where
  readAmount : Int
  buffer : Nat → UInt8
  curSize : Nat
  curOffset : Nat
  dmaRewind : Nat
  gifTag : GifTag
  gsPack : GSPacket
  state : GifPathState

namespace GifPath

def reset (buffer : Nat → UInt8) : GifPath :=
  ⟨0, buffer, 0, 0, 0, .reset, ⟨0, 0⟩, .idle⟩

def hasDataRemaining (p : GifPath) : Bool := p.curOffset < p.curSize

def isDone (p : GifPath) : Bool :=
  !p.hasDataRemaining && (p.state = .idle || p.state = .wait)

/-- The start of the packet being assembled (the `offset` of the two functions below). -/
def base (p : GifPath) : Int := p.curOffset - p.gsPack.size

/-- Does the loop of `RealignPacket` break in this state? -/
def realignReady (p : GifPath) : Bool :=
  let offset := p.base
  let sizeToAdd := p.curSize - offset
  let intersect := max (sizeToAdd - offset) 0
  let frontFree := offset - p.readAmount
  frontFree ≥ sizeToAdd - intersect

/-- Does the loop of `CopyGSPacketData` break in this state? -/
def copyReady (p : GifPath) (size : Nat) : Bool :=
  let offset := p.base
  let readPos := offset - p.readAmount
  readPos ≥ 0 || buffLimit + readPos > p.curSize + size

/-- `RealignPacket` after its wait and its blank packet. -/
def moveToFront (p : GifPath) : GifPath :=
  let offset := p.base.toNat
  { p with
    buffer := store p.buffer 0 (load p.buffer offset (p.curSize - offset))
    curSize := p.curSize - offset
    curOffset := p.gsPack.size
    gsPack := { p.gsPack with offset := 0 } }

def append (p : GifPath) (data : List UInt8) : GifPath :=
  { p with buffer := store p.buffer p.curSize data, curSize := p.curSize + data.length }

def incTag (p : GifPath) (incAmount : Nat) : GifPath :=
  { p with
    curOffset := p.curOffset + incAmount
    gsPack := { p.gsPack with size := p.gsPack.size + incAmount } }

def setTag (p : GifPath) : GifPath :=
  let gifTag := p.gifTag.setTag p.buffer p.curOffset
  { p with gifTag := gifTag, state := .ofFlg gifTag.tag.flg }

/-- What `FlushToMTGS` sends. -/
def flushed (p : GifPath) : Option GSPacket :=
  if p.gsPack.size ≠ 0 && !p.gifTag.isValid then some p.gsPack else none

def afterFlush (p : GifPath) : GifPath := { p with gsPack := ⟨p.curOffset, 0⟩ }

/-- What is sent when path 3 is sliced. -/
def sliced (p : GifPath) : Option GSPacket :=
  let subOffset := if p.gifTag.isValid then 16 else 0
  if p.gsPack.size > 16 then some { p.gsPack with size := p.gsPack.size - subOffset } else none

def afterSlice (p : GifPath) : GifPath :=
  let subOffset := if p.gifTag.isValid then 16 else 0
  let curOffset := p.curOffset - subOffset
  { p with
    curOffset := curOffset, gsPack := ⟨curOffset, 0⟩
    gifTag := { p.gifTag with isValid := false } }

end GifPath

/-- How the loop over the data of an A+D tag ends. -/
inductive AdExit
  | early | stalled | finished
  deriving DecidableEq

/-- What `ExecuteGSPacket` does at the end of one round: go round again, move the packet
to the front and load the tag, or return. -/
inductive Exec (σ : Type)
  | again (p : GifPath) (g : σ)
  | realign (p : GifPath) (g : σ)
  | exit (p : GifPath) (g : σ)
  | done (p : GifPath) (g : σ) (pack : GSPacket)

/-- The two bits of `GIF_STAT` the end of a packet looks at. -/
structure Stat where
  path3 : Bool
  masked : Bool

section

variable {σ : Type} (handlerAD : List UInt8 → σ → Bool × σ)

def adLoop (p : GifPath) (g : σ) : AdExit × GifPath × σ :=
  if p.gifTag.nLoop = 0 then (.finished, p, g)
  else if p.curOffset + 16 > p.curSize then (.early, p, g)
  else
    let (dblSIGNAL, g) :=
      if p.gifTag.curReg = gifRegAD then handlerAD (load p.buffer p.curOffset 16) g else (false, g)
    let p := { p.incTag 16 with gifTag := p.gifTag.packedStep }
    if dblSIGNAL then (.stalled, p, g) else adLoop p g
termination_by p.curSize - p.curOffset
decreasing_by
  simp only [GifPath.incTag]
  omega

def endTag (stat : Stat) (p : GifPath) (g : σ) : Exec σ :=
  let p := { p with gifTag := { p.gifTag with isValid := false } }
  if p.gifTag.tag.eop then
    let t := p.gsPack
    let p := { p with dmaRewind := 0, gsPack := ⟨p.curOffset, 0⟩ }
    if stat.path3 then
      let p := { p with state := .wait }
      if p.curSize - p.curOffset > 0 && stat.masked then
        .done { p with dmaRewind := p.curSize - p.curOffset, curSize := p.curOffset } g t
      else .done p g t
    else .done { p with state := .idle } g t
  else .again p g

def processData (stat : Stat) (p : GifPath) (g : σ) : Exec σ :=
  if p.gifTag.hasAD then
    match adLoop handlerAD p g with
    | (.early, p, g) => .exit p g
    | (.stalled, p, g) =>
      if p.gifTag.tag.eop && p.gifTag.nLoop = 0 then endTag stat p g else .exit p g
    | (.finished, p, g) => endTag stat p g
  else endTag stat (p.incTag p.gifTag.len) g

/-- A round of the loop of `ExecuteGSPacket` from `gifTag.setTag` on. -/
def loadTag (stat : Stat) (p : GifPath) (g : σ) : Exec σ :=
  let p := p.setTag
  if !p.gifTag.hasAD && p.curOffset + 16 + p.gifTag.len > p.curSize then
    .exit { p with gifTag := { p.gifTag with isValid := false } } g
  else processData handlerAD stat (p.incTag 16) g

def executeGSPacket (stat : Stat) (p : GifPath) (g : σ) : Exec σ :=
  if !p.gifTag.isValid then
    if p.curOffset + 16 > p.curSize then .exit p g
    else if p.curOffset > buffLimit then .realign p g
    else loadTag handlerAD stat p g
  else processData handlerAD stat p g

end

end OmegaRed.Gif

/-! The A+D writes that the GIF unit itself has to see. -/

namespace OmegaRed.Gif

open Lib.Words

/-- The registers `Gif_HandlerAD` reads and writes; `intcGS` counts the calls of `gsIrq`. -/
structure GSRegs where
  bitbltbuf : UInt32 × UInt32
  trxreg : UInt32 × UInt32
  gsLastDownloadSize : Nat
  csrSignal : Bool
  csrFinish : Bool
  sigid : UInt32
  lblid : UInt32
  sigmsk : Bool
  signalQueued : Bool
  signalData : UInt32 × UInt32
  intcGS : Nat

def GSRegs.zero : GSRegs := ⟨(0, 0), (0, 0), 0, false, false, 0, 0, false, false, (0, 0), 0⟩

def regBITBLTBUF : UInt8 := 0x50

def regTRXREG : UInt8 := 0x52

def regTRXDIR : UInt8 := 0x53

def regSIGNAL : UInt8 := 0x60

def regFINISH : UInt8 := 0x61

def regLABEL : UInt8 := 0x62

/-- Bits per pixel of the source format; the forbidden ones count as 32. -/
def GSRegs.bpp (g : GSRegs) : Nat :=
  match g.bitbltbuf.1.toNat / 2 ^ 24 % 8 with
  | 0 => 32
  | 1 => 24
  | 2 => 16
  | 3 => 8
  | _ => 32

def GSRegs.downloadSize (g : GSRegs) : Nat :=
  (g.trxreg.1.toNat % 2 ^ 12) * (g.trxreg.2.toNat % 2 ^ 12) * g.bpp / 2 ^ 7

/-- `Gif_HandlerAD` on the 16 bytes of an A+D write; true for a stalling SIGNAL. -/
def handlerAD (pMem : List UInt8) (g : GSRegs) : Bool × GSRegs :=
  let reg := pMem.getD 8 0
  let data0 := loadWord (pMem.getD · 0) 0
  let data1 := loadWord (pMem.getD · 0) 4
  if reg = regBITBLTBUF then (false, { g with bitbltbuf := (data0, data1) })
  else if reg = regTRXREG then (false, { g with trxreg := (data0, data1) })
  else if reg = regTRXDIR then
    if pMem.getD 0 0 &&& 3 = 1 then (false, { g with gsLastDownloadSize := g.downloadSize })
    else (false, g)
  else if reg = regSIGNAL then
    if g.csrSignal then
      if g.signalQueued then (false, g)
      else (true, { g with signalQueued := true, signalData := (data0, data1) })
    else
      (false, { g with
        sigid := (g.sigid &&& ~~~data1) ||| (data0 &&& data1)
        intcGS := if g.sigmsk then g.intcGS else g.intcGS + 1
        csrSignal := true })
  else if reg = regFINISH then (false, { g with csrFinish := true })
  else if reg = regLABEL then
    (false, { g with lblid := (g.lblid &&& ~~~data1) ||| (data0 &&& data1) })
  else (false, g)

theorem handlerAD_of_ne_signal {pMem : List UInt8} (h : pMem.getD 8 0 ≠ regSIGNAL) (g : GSRegs) :
    (handlerAD pMem g).1 = false := by
  simp only [handlerAD, if_neg h]
  repeat' split
  all_goals rfl

end OmegaRed.Gif

/-! One GIF path between the EE thread, which copies, parses and queues packets, and the
MTGS thread, which reads the queued packets out of the path's buffer. -/

namespace OmegaRed.Gif

open Lib.Memory

/-- A queued packet.  `bytes` is what stood in the buffer when it was queued: history,
only its length is in the ring. -/
inductive Entry
  | gsPacket (offset : Nat) (bytes : List UInt8)
  | blank (size : Nat)

def Entry.size : Entry → Nat
  | .gsPacket _ bytes => bytes.length
  | .blank size => size

/-- What follows `RealignPacket`. -/
inductive After
  | copy (data : List UInt8)
  | tag

/-- Where the EE thread stands. -/
inductive Phase
  | idle
  | realign (k : After)
  | addBlank (k : After) (size : Nat)
  | sendBlank (k : After) (size : Nat)
  | move (k : After)
  | wait (data : List UInt8)
  | memcpy (data : List UInt8)
  | execute
  | loadTag
  | add (pack : GSPacket)
  | send (pack : GSPacket)

/-- `regs` is what `Gif_HandlerAD` works on, `done` the last call of `ExecuteGSPacket`'s
result, `gs` the packet the MTGS thread has read but not yet subtracted; `sent` is the
history of the bytes queued. -/
structure State (σ : Type) where
  path : GifPath
  regs : σ
  ee : Phase
  done : Bool
  queue : List Entry
  gs : Option Entry
  sent : List UInt8

variable {σ : Type}

def State.init (buffer : Nat → UInt8) (regs : σ) : State σ :=
  ⟨.reset buffer, regs, .idle, false, [], none, []⟩

inductive Call
  | copyGSPacketData (data : List UInt8)
  | executeGSPacket
  | flushToMTGS
  | slice

/-- The start of a call.  The packet that a flush or a slice sends is taken off the
path here, which only the EE thread sees. -/
def State.call (s : State σ) : Call → State σ
  | .copyGSPacketData data =>
    { s with
      ee := if s.path.curSize + data.length > buffSize then .realign (.copy data) else .wait data }
  | .executeGSPacket => { s with ee := .execute, done := false }
  | .flushToMTGS =>
    match s.path.flushed with
    | some pack => { s with path := s.path.afterFlush, ee := .add pack }
    | none => s
  | .slice =>
    match s.path.sliced with
    | some pack => { s with path := s.path.afterSlice, ee := .add pack }
    | none => s

def Call.Valid : Call → Prop
  | .copyGSPacketData data => 16 ∣ data.length
  | .executeGSPacket | .flushToMTGS | .slice => True

def State.afterExec (s : State σ) : Exec σ → State σ
  | .again p g => { s with path := p, regs := g, ee := .execute }
  | .realign p g => { s with path := p, regs := g, ee := .realign .tag }
  | .exit p g => { s with path := p, regs := g, ee := .idle }
  | .done p g pack => { s with path := p, regs := g, ee := .add pack, done := true }

def After.phase : After → Phase
  | .copy data => .wait data
  | .tag => .loadTag

def GifPath.fetchAdd (p : GifPath) (size : Int) : GifPath :=
  { p with readAmount := p.readAmount + size }

/-- The steps inside a call and the steps of the MTGS thread; `stats` are the values that
`GIF_STAT` may have. -/
inductive Internal (handlerAD : List UInt8 → σ → Bool × σ) (stats : Stat → Prop) :
    State σ → State σ → Prop
  | realign (s : State σ) (k : After) : s.ee = .realign k → s.path.realignReady →
      Internal handlerAD stats s { s with
        ee := if s.path.base < buffLimit then .addBlank k (buffLimit - s.path.base).toNat
          else .move k }
  | addBlank (s : State σ) (k : After) (size : Nat) : s.ee = .addBlank k size →
      Internal handlerAD stats s { s with path := s.path.fetchAdd size, ee := .sendBlank k size }
  | sendBlank (s : State σ) (k : After) (size : Nat) : s.ee = .sendBlank k size →
      Internal handlerAD stats s { s with queue := s.queue ++ [.blank size], ee := .move k }
  | move (s : State σ) (k : After) : s.ee = .move k →
      Internal handlerAD stats s { s with path := s.path.moveToFront, ee := k.phase }
  | wait (s : State σ) (data : List UInt8) : s.ee = .wait data → s.path.copyReady data.length →
      Internal handlerAD stats s { s with ee := .memcpy data }
  | memcpy (s : State σ) (data : List UInt8) : s.ee = .memcpy data →
      s.path.curSize + data.length ≤ buffSize →
      Internal handlerAD stats s { s with path := s.path.append data, ee := .idle }
  | execute (s : State σ) (stat : Stat) : s.ee = .execute → stats stat →
      Internal handlerAD stats s (s.afterExec (executeGSPacket handlerAD stat s.path s.regs))
  | loadTag (s : State σ) (stat : Stat) : s.ee = .loadTag → stats stat →
      Internal handlerAD stats s (s.afterExec (loadTag handlerAD stat s.path s.regs))
  | add (s : State σ) (pack : GSPacket) : s.ee = .add pack →
      Internal handlerAD stats s { s with path := s.path.fetchAdd pack.size, ee := .send pack }
  | send (s : State σ) (pack : GSPacket) : s.ee = .send pack →
      Internal handlerAD stats s { s with
        queue := s.queue ++ [.gsPacket pack.offset (load s.path.buffer pack.offset pack.size)]
        sent := s.sent ++ load s.path.buffer pack.offset pack.size
        ee := .idle }
  | consume (s : State σ) (e : Entry) (queue : List Entry) : s.gs = none → s.queue = e :: queue →
      Internal handlerAD stats s { s with gs := some e, queue := queue }
  | fetchSub (s : State σ) (e : Entry) : s.gs = some e →
      Internal handlerAD stats s { s with path := s.path.fetchAdd (-e.size), gs := none }

/-- Any calls, in any order. -/
inductive Step (handlerAD : List UInt8 → σ → Bool × σ) : State σ → State σ → Prop
  | call (s : State σ) (c : Call) : s.ee = .idle → c.Valid → Step handlerAD s (s.call c)
  | internal (s t : State σ) : Internal handlerAD (fun _ => True) s t → Step handlerAD s t

/-- The part of the buffer the EE thread is about to write. -/
def State.writes (s : State σ) : Option (Nat × Nat) :=
  match s.ee with
  | .memcpy data => some (s.path.curSize, s.path.curSize + data.length)
  | .move _ => some (0, s.path.curSize - s.path.base.toNat)
  | _ => none

/-- What the MTGS thread has still to read or is reading. -/
def State.unread (s : State σ) : List Entry := s.gs.toList ++ s.queue

/-- Every unread packet still has the bytes it was queued with, and no write is due in it. -/
def Stable (s : State σ) : Prop :=
  ∀ offset bytes, Entry.gsPacket offset bytes ∈ s.unread →
    load s.path.buffer offset bytes.length = bytes ∧
      ∀ lo hi, s.writes = some (lo, hi) → offset + bytes.length ≤ lo ∨ hi ≤ offset

end OmegaRed.Gif
