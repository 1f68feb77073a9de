import Mathlib.Data.Fin.Basic
import Mathlib.Data.List.FinRange

/-! Writes to the control registers of the DMAC of the EE, and the starts of its channels. -/

namespace OmegaRed.Dmac

/-- VIF0, VIF1, GIF, IPU0, IPU1, SIF0, SIF1, SIF2, SPR0 and SPR1. -/
abbrev Channel := Fin 10

abbrev U32 := BitVec 32

/-- The registers and `QueuedDMA`; `started` are the start functions that have been called. -/
structure Regs where
  chcr : Channel → U32
  ctrl : U32
  enablew : U32
  enabler : U32
  queued : BitVec 16
  started : List Channel

namespace Regs

def str (value : U32) : Bool := value.getLsbD 8

def clearStr (value : U32) : U32 := value &&& ~~~0x100

/-- `chcr.MOD` 3 is taken for 1. -/
def fixMod (value : U32) : U32 :=
  if (value >>> 2) &&& 3 = 3 then (value &&& ~~~0xc) ||| 4 else value

def dmae (s : Regs) : Bool := s.ctrl.getLsbD 0

/-- Byte 2 of `DMAC_ENABLER`. -/
def suspendByte (s : Regs) : U32 := (s.enabler >>> 16) &&& 0xff

def canRun (s : Regs) : Bool := s.dmae && s.suspendByte == 0

def start (s : Regs) (c : Channel) : Regs := { s with started := s.started ++ [c] }

/-- `QuickDmaExec`, and the bit of the queue. -/
def resume (s : Regs) (c : Channel) : Regs :=
  if s.queued.getLsbD c then
    if str (s.chcr c) && s.canRun then
      { s.start c with queued := s.queued &&& ~~~((1 : BitVec 16) <<< c.val) }
    else s
  else s

def startQueuedDMA (s : Regs) : Regs := (List.finRange 10).foldl resume s

def dmaExec (s : Regs) (c : Channel) (value : U32) : Regs :=
  if str (s.chcr c) then
    if str value then s
    else
      let queued := if c = 1 then s.queued &&& ~~~((1 : BitVec 16) <<< 10)
        else if c = 2 then s.queued &&& ~~~((1 : BitVec 16) <<< 11) else s.queued
      { s with
        chcr := Function.update s.chcr c (clearStr (s.chcr c))
        queued := queued &&& ~~~((1 : BitVec 16) <<< c.val) }
  else
    let s := { s with chcr := Function.update s.chcr c (fixMod value) }
    if str (s.chcr c) && s.canRun then s.start c
    else if str (s.chcr c) then { s with queued := s.queued ||| ((1 : BitVec 16) <<< c.val) }
    else s

/-- `dmacWrite32` of `DMAC_CTRL`. -/
def writeCtrl (s : Regs) (value : U32) : Regs :=
  let oldvalue := s.ctrl
  let s := { s with ctrl := value }
  if oldvalue &&& 1 = 0 ∧ value &&& 1 = 1 then
    if s.queued ≠ 0 then s.startQueuedDMA else s
  else s

/-- `dmacWrite32` of `DMAC_ENABLEW`. -/
def writeEnable (s : Regs) (value : U32) : Regs :=
  let oldvalue := (s.enablew >>> 16) &&& 0xff
  let s := { s with enablew := value, enabler := value }
  if oldvalue &&& 1 = 1 ∧ (value >>> 16) &&& 1 = 0 then
    if s.queued ≠ 0 then s.startQueuedDMA else s
  else s

/-- After `hwReset`. -/
def reset : Regs := ⟨fun _ => 0, 0, 0x1201, 0x1201, 0, []⟩

end Regs

end OmegaRed.Dmac

/-! Stall control: the chains of the channels GIF and VIF1, which drain what a source channel has
written below `STADR`. -/

namespace OmegaRed.Dmac

/-- `tag_id` -/
inductive TagId
  | refe
  | cnt
  | next
  | ref
  | refs
  | call
  | ret
  | end_
  deriving DecidableEq

/-- `tDMA_TAG` with the address in its second word. -/
structure Tag where
  qwc : BitVec 16
  id : TagId
  irq : Bool
  addr : U32

/-- What is read and written of `DMACh` in chain mode; `tag` is `chcr.TAG`. -/
structure DMACh where
  madr : U32
  qwc : Nat
  tadr : U32
  asr0 : U32
  asr1 : U32
  asp : BitVec 2
  tag : TagId
  deriving DecidableEq

namespace DMACh

variable (c : DMACh)

/-- `transfer`, and the address that is read with it. -/
def transfer (ptag : Tag) : DMACh := { c with tag := ptag.id, qwc := ptag.qwc.toNat, madr := ptag.addr }

def size : U32 := .ofNat 32 (16 * c.qwc)

/-- `madr + qwc * 16` -/
def packetEnd : U32 := c.madr + c.size

/-- With the answer whether the chain ends with the tag. -/
def hwDmacSrcChainWithStack (id : TagId) : DMACh × Bool :=
  match id with
  | .refe => ({ c with tadr := c.tadr + 16 }, true)
  | .cnt => ({ c with tadr := c.tadr + 16, madr := c.tadr + 16 }, false)
  | .next => ({ c with madr := c.tadr + 16, tadr := c.madr }, false)
  | .ref | .refs => ({ c with tadr := c.tadr + 16 }, false)
  | .call =>
    let temp := c.madr
    let c := { c with madr := c.tadr + 16 }
    if c.asp = 0 then ({ c with asr0 := c.packetEnd, asp := 1, tadr := temp }, false)
    else if c.asp = 1 then ({ c with asr1 := c.packetEnd, asp := 2, tadr := temp }, false)
    else (c, true)
  | .ret =>
    let c := { c with madr := c.tadr + 16 }
    if c.asp = 2 then ({ c with tadr := c.asr1, asr1 := 0, asp := 1 }, false)
    else if c.asp = 1 then ({ c with tadr := c.asr0, asr0 := 0, asp := 0 }, false)
    else (c, true)
  | .end_ => ({ c with madr := c.tadr + 16 }, true)

def hwDmacSrcTadrInc : DMACh := if c.tag = .cnt then { c with tadr := c.madr } else c

/-- `qwc` quadwords have been transferred. -/
def advance (qwc : Nat) : DMACh :=
  hwDmacSrcTadrInc { c with madr := c.madr + .ofNat 32 (16 * qwc), qwc := c.qwc - qwc }

/-- The addresses of the next `n` quadwords. -/
def quads (n : Nat) : List U32 := (List.range n).map fun i => c.madr + .ofNat 32 (16 * i)

end DMACh

/-- A quadword that has been transferred, whether it is of a `REFS` packet, and `STADR` then. -/
structure Sent where
  addr : U32
  refs : Bool
  stadr : U32

/-- What a channel has done: the quadwords it has transferred, and the `REFS` tags it has taken and
the ones it has stalled at, by their addresses and `STADR` then. -/
structure History where
  sent : List Sent
  taken : List (U32 × U32)
  stalls : List (U32 × U32)

namespace History

variable (h : History)

def send (c : DMACh) (n : Nat) (stadr : U32) : History :=
  { h with sent := h.sent ++ (c.quads n).map fun addr => ⟨addr, decide (c.tag = .refs), stadr⟩ }

def take (ptag : Tag) (tadr stadr : U32) : History :=
  if ptag.id = .refs then { h with taken := h.taken ++ [(tadr, stadr)] } else h

def stall (tadr stadr : U32) : History := { h with stalls := h.stalls ++ [(tadr, stadr)] }

def empty : History := ⟨[], [], []⟩

end History

/-- The source channel writes `dmacRegs.stadr.ADDR`, or the channel is activated. A channel then
takes up to `n` quadwords; GIF goes through less than `depth` blank tags; `tte` says that VIF1
has transferred the tag, where it has to. -/
inductive StallEvent
  | source (value : U32)
  | activate (n depth : Nat) (tte : Bool)

/-- `stadr.ADDR`, a field of 31 bits. -/
def stadrAddr (value : U32) : U32 := value &&& 0x7fffffff

section

variable (mem : U32 → Tag) (tie : Bool)

/-- The GIF channel in chain mode with `STD_GIF`, and its `gif.gspath3done` and `gif.prevcycles`. -/
structure GifDma where
  ch : DMACh
  gspath3done : Bool
  prevcycles : U32
  stadr : U32
  history : History

namespace GifDma

/-- `GIFdma` up to the transfer, with the answer whether it gets there. -/
def readTag (s : GifDma) : GifDma × Bool :=
  let gscycles := s.prevcycles
  if s.prevcycles ≠ 0 ∧ s.stadr < s.ch.packetEnd then
    ({ s with history := s.history.stall s.ch.tadr s.stadr }, false)
  else
    let s := if s.prevcycles ≠ 0 then { s with prevcycles := 0, ch := { s.ch with qwc := 0 } } else s
    if s.gspath3done = false ∧ s.ch.qwc = 0 then
      let ptag := mem s.ch.tadr
      let (ch, done) := (s.ch.transfer ptag).hwDmacSrcChainWithStack ptag.id
      if ptag.id = .refs ∧ s.stadr < ch.packetEnd then
        ({ s with
            ch := { ch with tadr := ch.tadr - 16, qwc := 0 }
            gspath3done := done
            prevcycles := gscycles + 2
            history := s.history.stall s.ch.tadr s.stadr }, false)
      else
        ({ s with
            ch := ch
            gspath3done := done || (tie && ptag.irq)
            history := s.history.take ptag s.ch.tadr s.stadr }, true)
    else (s, true)

/-- `GIFchain`, of which the GIF takes up to `n` quadwords. -/
def chain (s : GifDma) (n : Nat) : GifDma :=
  let n := min n s.ch.qwc
  { s with ch := s.ch.advance n, history := s.history.send s.ch n s.stadr }

/-- `GIFdma`, which calls itself after a blank tag. -/
def gifDma (n : Nat) : Nat → GifDma → Option GifDma
  | 0, _ => none
  | depth + 1, s =>
    match s.readTag mem tie with
    | (s, false) => some s
    | (s, true) =>
      if 0 < s.ch.qwc then some (s.chain n)
      else if s.gspath3done = false then
        (gifDma n depth s).map fun s => { s with prevcycles := 0 }
      else some { s with prevcycles := 0 }

/-- `gifInterrupt` calls `GIFdma` until the chain has ended. -/
def step (s : GifDma) : StallEvent → Option GifDma
  | .source value => some { s with stadr := stadrAddr value }
  | .activate n depth _ =>
    if 0 < s.ch.qwc ∨ s.gspath3done = false then gifDma mem tie n depth s else some s

end GifDma

/-- The VIF1 channel in chain mode with `STD_VIF1`, and its `vif1.done` and `vif1.inprogress`. -/
structure Vif1Dma where
  ch : DMACh
  done : Bool
  inprogress : Bool
  stadr : U32
  history : History

namespace Vif1Dma

def vif1SetupTransfer (tte : Bool) (s : Vif1Dma) : Vif1Dma :=
  let ptag := mem s.ch.tadr
  let tadr := s.ch.tadr
  let s := { s with ch := s.ch.transfer ptag, inprogress := false }
  if s.done = false ∧ ptag.id = .refs ∧ s.stadr ≤ s.ch.packetEnd then
    { s with history := s.history.stall tadr s.stadr }
  else if tte = false then s
  else
    let (ch, done) := s.ch.hwDmacSrcChainWithStack ptag.id
    { s with
      ch := ch
      done := s.done || done || (tie && ptag.irq)
      inprogress := decide (0 < ch.qwc)
      history := s.history.take ptag tadr s.stadr }

/-- `_VIF1chain`, of which VIF1 takes up to `n` quadwords. -/
def vif1Chain (n : Nat) (s : Vif1Dma) : Vif1Dma :=
  if s.ch.qwc = 0 then { s with inprogress := false }
  else
    let n := min n s.ch.qwc
    let ch := s.ch.advance n
    { s with
      ch := ch
      inprogress := decide (ch.qwc ≠ 0)
      history := s.history.send s.ch n s.stadr }

/-- `vif1Interrupt` -/
def step (s : Vif1Dma) : StallEvent → Option Vif1Dma
  | .source value => some { s with stadr := stadrAddr value }
  | .activate n _ tte =>
    some (if s.inprogress then s.vif1Chain n
      else if s.done = false then s.vif1SetupTransfer mem tie tte
      else s)

end Vif1Dma

end

end OmegaRed.Dmac
