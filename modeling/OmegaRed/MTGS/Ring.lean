import OmegaRed.Lib.Memory
import Mathlib.Data.UInt
import Mathlib.Logic.Function.Basic
import OmegaRed.Lib.Traces

/-! The ring buffer through which the EE thread sends packets to the MTGS thread.
A packet is a tag, one 128-bit word, and for data packets the words after it. -/

namespace OmegaRed.MTGS

open Function Lib.Memory

def ringBufferSizeFactor : Nat := 19

def ringBufferSize : Nat := 2 ^ ringBufferSizeFactor

def ringBufferMask : Nat := ringBufferSize - 1

/-- A cell of the ring.  In a tag the words are `command`, `data[0]`, `data[1]` (or
`pointer`) and `data[2]`. -/
structure U128 where
  w0 : UInt32
  w1 : UInt32
  w2 : UInt32
  w3 : UInt32

inductive RingCommand
  | p1 | p2 | p3 | vsync | frameskip | freeze | reset | softreset | modechange | crc
  | gspacket | mtvuGspacket | initReadFifo1 | initReadFifo2
  deriving DecidableEq

def RingCommand.toWord : RingCommand → UInt32
  | .p1 => 0
  | .p2 => 1
  | .p3 => 2
  | .vsync => 3
  | .frameskip => 4
  | .freeze => 5
  | .reset => 6
  | .softreset => 7
  | .modechange => 8
  | .crc => 9
  | .gspacket => 10
  | .mtvuGspacket => 11
  | .initReadFifo1 => 12
  | .initReadFifo2 => 13

def RingCommand.ofWord? (command : UInt32) : Option RingCommand :=
  [.p1, .p2, .p3, .vsync, .frameskip, .freeze, .reset, .softreset, .modechange, .crc,
    .gspacket, .mtvuGspacket, .initReadFifo1, .initReadFifo2].find? (fun c => c.toWord = command)

@[simp] theorem RingCommand.ofWord?_toWord (c : RingCommand) : ofWord? c.toWord = some c := by
  cases c <;> decide

inductive Kind
  | simple | pointer | data
  deriving DecidableEq

/-- What the MTGS thread's case for a command reads.  The three path packets are not
compiled in (`COPY_GS_PACKET_TO_MTGS` is 0). -/
def RingCommand.kind : RingCommand → Option Kind
  | .p1 | .p2 | .p3 => none
  | .vsync => some .data
  | .freeze | .initReadFifo1 | .initReadFifo2 => some .pointer
  | .frameskip | .reset | .softreset | .modechange | .crc | .gspacket | .mtvuGspacket =>
    some .simple

def Command (k : Kind) := {c : RingCommand // c.kind = some k}

def Command.toWord (c : Command k) : UInt32 := c.1.toWord

/-- A packet as the MTGS thread reads it. -/
inductive Packet
  | simple (type : Command .simple) (data0 data1 data2 : UInt32)
  | pointer (type : Command .pointer) (data0 data1 : UInt32)
  | data (cmd : Command .data) (qwords : List U128)

/-- A producer call; a data packet is prepared for `size` words and gets at most these. -/
inductive Send
  | simple (type : Command .simple) (data0 data1 data2 : UInt32)
  | pointer (type : Command .pointer) (data0 data1 : UInt32)
  | data (cmd : Command .data) (size : Nat) (qwords : List U128) (le : qwords.length ≤ size)

/-- The size each call passes to `GenericStall`. -/
def Send.stallSize : Send → Nat
  | .simple _ _ _ _ => 1
  | .pointer _ _ _ => 1
  | .data _ size _ _ => size + 1

structure SysMtgsThread where
  ringBuffer : Nat → U128
  readPos : Nat
  writePos : Nat
  packetSize : Nat
  packetStartpos : Nat
  packetWritepos : Nat

namespace SysMtgsThread

def freeroom (t : SysMtgsThread) : Nat :=
  if t.writePos < t.readPos then t.readPos - t.writePos
  else ringBufferSize - (t.writePos - t.readPos)

/-- Does `GenericStall` return in this state? -/
def genericStall (t : SysMtgsThread) (size : Nat) : Bool := size < t.freeroom

def sendSimpleTag (t : SysMtgsThread) (type : Command .simple) (data0 data1 data2 : UInt32) :
    SysMtgsThread :=
  { t with ringBuffer := update t.ringBuffer t.writePos ⟨type.toWord, data0, data1, data2⟩ }

def sendPointerTag (t : SysMtgsThread) (type : Command .pointer) (data0 data1 : UInt32) :
    SysMtgsThread :=
  let tag := { t.ringBuffer t.writePos with w0 := type.toWord, w1 := data0, w2 := data1 }
  { t with ringBuffer := update t.ringBuffer t.writePos tag }

def finishSimplePacket (t : SysMtgsThread) : SysMtgsThread :=
  { t with writePos := (t.writePos + 1) &&& ringBufferMask }

def prepDataPacket (t : SysMtgsThread) (cmd : Command .data) (size : Nat) : SysMtgsThread :=
  let tag := { t.ringBuffer t.writePos with w0 := cmd.toWord, w1 := .ofNat size }
  { t with
    ringBuffer := update t.ringBuffer t.writePos tag
    packetSize := size
    packetStartpos := t.writePos
    packetWritepos := (t.writePos + 1) &&& ringBufferMask }

/-- One word through `GetDataPacketPtr`. -/
def putData (t : SysMtgsThread) (q : U128) : SysMtgsThread :=
  { t with
    ringBuffer := update t.ringBuffer (t.packetWritepos &&& ringBufferMask) q
    packetWritepos := (t.packetWritepos + 1) &&& ringBufferMask }

def actualSize (t : SysMtgsThread) : UInt32 :=
  .ofNat (((t.packetWritepos + 2 ^ 32 - t.packetStartpos) % 2 ^ 32 &&& ringBufferMask) + 2 ^ 32 - 1)

/-- `SendDataPacket` up to its store of the write position. -/
def sendDataTag (t : SysMtgsThread) : SysMtgsThread :=
  let tag := { t.ringBuffer t.packetStartpos with w1 := t.actualSize }
  { t with ringBuffer := update t.ringBuffer t.packetStartpos tag }

def sendDataPacket (t : SysMtgsThread) : SysMtgsThread :=
  { t with writePos := t.packetWritepos, packetSize := 0 }

def advance (t : SysMtgsThread) (ringposinc : Nat) : SysMtgsThread :=
  { t with readPos := (t.readPos + ringposinc) &&& ringBufferMask }

end SysMtgsThread

theorem and_ringBufferMask (n : Nat) : n &&& ringBufferMask = n % ringBufferSize :=
  Nat.and_two_pow_sub_one_eq_mod n ringBufferSizeFactor

theorem ringBufferSize_eq : ringBufferSize = 524288 := rfl

@[simp] theorem SysMtgsThread.ringBuffer_putData (t : SysMtgsThread) (q : U128) :
    (t.putData q).ringBuffer = update t.ringBuffer (t.packetWritepos % ringBufferSize) q := by
  simp only [putData, and_ringBufferMask]

@[simp] theorem SysMtgsThread.packetWritepos_putData (t : SysMtgsThread) (q : U128) :
    (t.putData q).packetWritepos = (t.packetWritepos + 1) % ringBufferSize := by
  simp only [putData, and_ringBufferMask]

end OmegaRed.MTGS

/-! The EE thread and the MTGS thread side by side.  One step is one access to the
shared ring; `committed` and `consumed` are the history and are never read. -/

namespace OmegaRed.MTGS

open Relation

/-- Where the EE thread stands in the call at hand. -/
inductive EEPhase
  | idle
  | stall (s : Send)
  | tag (s : Send)
  | put (cmd : Command .data) (sent todo : List U128)
  | finish (p : Packet)

/-- Where the MTGS thread stands in the loop of `ExecuteTaskInThread`. -/
inductive GSPhase
  | test
  | readTag
  | readData (cmd : Command .data) (qsize : Nat) (data : List U128)
  | advance (p : Packet) (ringposinc : Nat)

/-- The `switch` on the command; a command without a case is an error. -/
def U128.switch (tag : U128) : Option GSPhase :=
  match RingCommand.ofWord? tag.w0 with
  | none => none
  | some c =>
    match h : c.kind with
    | some .simple => some (.advance (.simple ⟨c, h⟩ tag.w1 tag.w2 tag.w3) 1)
    | some .pointer => some (.advance (.pointer ⟨c, h⟩ tag.w1 tag.w2) 1)
    | some .data => some (.readData ⟨c, h⟩ tag.w1.toNat [])
    | none => none

def SysMtgsThread.finish (t : SysMtgsThread) : Packet → SysMtgsThread
  | .simple _ _ _ _ => t.finishSimplePacket
  | .pointer _ _ _ => t.finishSimplePacket
  | .data _ _ => t.sendDataPacket

structure State where
  mtgs : SysMtgsThread
  ee : EEPhase
  gs : GSPhase
  committed : List Packet
  consumed : List Packet

def State.init (ringBuffer : Nat → U128) : State :=
  ⟨⟨ringBuffer, 0, 0, 0, 0, 0⟩, .idle, .test, [], []⟩

inductive Step : State → State → Prop
  | call (s : State) (p : Send) : s.ee = .idle → p.stallSize < ringBufferSize →
      Step s { s with ee := .stall p }
  | stall (s : State) (p : Send) : s.ee = .stall p → s.mtgs.genericStall p.stallSize →
      Step s { s with ee := .tag p }
  | sendSimple (s : State) (type : Command .simple) (data0 data1 data2 : UInt32) :
      s.ee = .tag (.simple type data0 data1 data2) →
      Step s { s with
        mtgs := s.mtgs.sendSimpleTag type data0 data1 data2
        ee := .finish (.simple type data0 data1 data2) }
  | sendPointer (s : State) (type : Command .pointer) (data0 data1 : UInt32) :
      s.ee = .tag (.pointer type data0 data1) →
      Step s { s with
        mtgs := s.mtgs.sendPointerTag type data0 data1
        ee := .finish (.pointer type data0 data1) }
  | prepData (s : State) (cmd : Command .data) (size : Nat) (qwords : List U128)
      (le : qwords.length ≤ size) : s.ee = .tag (.data cmd size qwords le) →
      Step s { s with mtgs := s.mtgs.prepDataPacket cmd size, ee := .put cmd [] qwords }
  | putData (s : State) (cmd : Command .data) (sent : List U128) (q : U128) (todo : List U128) :
      s.ee = .put cmd sent (q :: todo) →
      Step s { s with mtgs := s.mtgs.putData q, ee := .put cmd (sent ++ [q]) todo }
  | sendData (s : State) (cmd : Command .data) (sent : List U128) : s.ee = .put cmd sent [] →
      Step s { s with mtgs := s.mtgs.sendDataTag, ee := .finish (.data cmd sent) }
  | finish (s : State) (p : Packet) : s.ee = .finish p →
      Step s { s with mtgs := s.mtgs.finish p, ee := .idle, committed := s.committed ++ [p] }
  | test (s : State) : s.gs = .test → s.mtgs.readPos ≠ s.mtgs.writePos →
      Step s { s with gs := .readTag }
  | readTag (s : State) (gs : GSPhase) : s.gs = .readTag →
      (s.mtgs.ringBuffer s.mtgs.readPos).switch = some gs → Step s { s with gs := gs }
  | readData (s : State) (cmd : Command .data) (qsize : Nat) (data : List U128) :
      s.gs = .readData cmd qsize data → data.length < qsize →
      Step s { s with
        gs := .readData cmd qsize (data ++
          [s.mtgs.ringBuffer ((s.mtgs.readPos + 1 + data.length) &&& ringBufferMask)]) }
  | readDone (s : State) (cmd : Command .data) (data : List U128) :
      s.gs = .readData cmd data.length data →
      Step s { s with gs := .advance (.data cmd data) (1 + data.length) }
  | advance (s : State) (p : Packet) (ringposinc : Nat) : s.gs = .advance p ringposinc →
      Step s { s with
        mtgs := s.mtgs.advance ringposinc, gs := .test, consumed := s.consumed ++ [p] }

/-- The words of the ring a packet takes. -/
def Packet.qwc : Packet → Nat
  | .simple _ _ _ _ => 1
  | .pointer _ _ _ => 1
  | .data _ qwords => 1 + qwords.length

def qwc (ps : List Packet) : Nat := (ps.map Packet.qwc).sum

def State.unread (s : State) : List Packet := s.committed.drop s.consumed.length

/-- The packets are delivered in order, each once, and equal positions mean that all are;
no step overwrites a word of a packet that is not consumed. -/
structure Delivers (s : State) : Prop where
  inOrder : s.consumed <+: s.committed
  empty : s.mtgs.readPos = s.mtgs.writePos → s.consumed = s.committed
  kept : ∀ t, Step s t → ∀ i, i < qwc s.unread →
    t.mtgs.ringBuffer ((s.mtgs.readPos + i) % ringBufferSize) =
      s.mtgs.ringBuffer ((s.mtgs.readPos + i) % ringBufferSize)

end OmegaRed.MTGS
