import OmegaRed.Lib.Words
import Mathlib.Logic.Relation
import OmegaRed.Lib.Traces

/-! The ring buffer through which the EE thread sends VU1 commands to the VU
thread.  Positions count 32-bit words; the memory itself is bytes, since a
command's data need not fill its last word. -/

namespace OmegaRed.MTVU

open Lib.Memory Lib.Words

def bufferSize : Nat := 1024 * 1024 * 16 / 4

/-- `WaitOnSize` adds this to a count of words. -/
def _4kb : Nat := 1024 * 4

/-- Rounds up a size in bytes for size in u32's; the sum is itself a `u32`. -/
def sizeU32 (x : Nat) : Nat := (x + 3) % 2 ^ 32 / 4

inductive MTVUEvent
  | vuExecute | vuWriteMicro | vuWriteData | vifWriteCol | vifWriteRow | vifUnpack
  | nullPacket | reset
  deriving DecidableEq

def MTVUEvent.toWord : MTVUEvent → UInt32
  | .vuExecute => 0
  | .vuWriteMicro => 1
  | .vuWriteData => 2
  | .vifWriteCol => 3
  | .vifWriteRow => 4
  | .vifUnpack => 5
  | .nullPacket => 6
  | .reset => 7

def MTVUEvent.ofWord? (tag : UInt32) : Option MTVUEvent :=
  [.vuExecute, .vuWriteMicro, .vuWriteData, .vifWriteCol, .vifWriteRow, .vifUnpack,
    .nullPacket, .reset].find? (fun e => e.toWord = tag)

@[simp] theorem MTVUEvent.ofWord?_toWord (e : MTVUEvent) : ofWord? e.toWord = some e := by
  cases e <;> decide

/-- A block of data; its size, rounded up to a word, is still a `u32`. -/
structure Block where
  data : List UInt8
  small : data.length + 3 < 2 ^ 32

theorem Block.ext_data {b b' : Block} (h : b.data = b'.data) : b = b' := by
  cases b
  cases b'
  cases h
  rfl

/-- `size` bytes of a struct. -/
def Bytes (size : Nat) := {l : List UInt8 // l.length = size}

def Bytes.toBlock (b : Bytes size) (h : size + 3 < 2 ^ 32) : Block := ⟨b.1, by rw [b.2]; exact h⟩

@[simp] theorem Bytes.length_toBlock (b : Bytes size) (h : size + 3 < 2 ^ 32) :
    (b.toBlock h).data.length = size := b.2

structure VIFregistersMTVU where
  cycle : UInt32
  mode : UInt32
  num : UInt32
  mask : UInt32
  itop : UInt32
  top : UInt32

def VIFregistersMTVU.toBytes (r : VIFregistersMTVU) : List UInt8 :=
  bytes r.cycle ++ bytes r.mode ++ bytes r.num ++ bytes r.mask ++ bytes r.itop ++ bytes r.top

/-- From `vif.tag` to `vif.StructEnd`. -/
def vifCopySize : Nat := 30

def sizeofVIFregistersMTVU : Nat := 24

def sizeofMask : Nat := 16

/-- What the EE thread asks of VU1, with its payload. -/
inductive Command
  | executeVU (vuAddr vifTop vifItop : UInt32)
  | vifUnpack (vif : Bytes vifCopySize) (vifRegs : VIFregistersMTVU) (data : Block)
  | writeMicroMem (vuMicroAddr : UInt32) (data : Block)
  | writeDataMem (vuDataAddr : UInt32) (data : Block)
  | writeCol (maskCol : Bytes sizeofMask)
  | writeRow (maskRow : Bytes sizeofMask)

/-- One call of `Write` or `WriteRegs`. -/
inductive Write
  | word (val : UInt32)
  | mem (src : Block)
  | regs (src : VIFregistersMTVU)

def Write.bytes : Write → List UInt8
  | .word val => Lib.Words.bytes val
  | .mem src => src.data
  | .regs src => src.toBytes

def Write.words : Write → Nat
  | .word _ => 1
  | .mem src => sizeU32 src.data.length
  | .regs _ => sizeU32 sizeofVIFregistersMTVU

def Block.sizeWord (b : Block) : UInt32 := .ofNat b.data.length

def Command.writes : Command → List Write
  | .executeVU vuAddr vifTop vifItop =>
    [.word MTVUEvent.vuExecute.toWord, .word vuAddr, .word vifTop, .word vifItop]
  | .vifUnpack vif vifRegs data =>
    [.word MTVUEvent.vifUnpack.toWord, .mem (vif.toBlock (by decide)), .regs vifRegs,
      .word data.sizeWord, .mem data]
  | .writeMicroMem vuMicroAddr data =>
    [.word MTVUEvent.vuWriteMicro.toWord, .word vuMicroAddr, .word data.sizeWord, .mem data]
  | .writeDataMem vuDataAddr data =>
    [.word MTVUEvent.vuWriteData.toWord, .word vuDataAddr, .word data.sizeWord, .mem data]
  | .writeCol maskCol =>
    [.word MTVUEvent.vifWriteCol.toWord, .mem (maskCol.toBlock (by decide))]
  | .writeRow maskRow =>
    [.word MTVUEvent.vifWriteRow.toWord, .mem (maskRow.toBlock (by decide))]

/-- The size each command passes to `ReserveSpace`. -/
def Command.reserve : Command → Nat
  | .executeVU _ _ _ => 4
  | .vifUnpack _ _ data =>
    1 + sizeU32 vifCopySize + sizeU32 sizeofVIFregistersMTVU + 1 + sizeU32 data.data.length
  | .writeMicroMem _ data => 3 + sizeU32 data.data.length
  | .writeDataMem _ data => 3 + sizeU32 data.data.length
  | .writeCol _ => 1 + sizeU32 sizeofMask
  | .writeRow _ => 1 + sizeU32 sizeofMask

structure VUThread where
  buffer : Nat → UInt8
  atoReadPos : Nat
  atoWritePos : Nat
  readPos : Nat
  writePos : Nat

namespace VUThread

def reset (buffer : Nat → UInt8) : VUThread := ⟨buffer, 0, 0, 0, 0⟩

/-- Does the loop of `WaitOnSize` break in this state? -/
def waitOnSize (t : VUThread) (size : Nat) : Bool :=
  t.atoReadPos ≤ t.writePos || t.atoReadPos > t.writePos + size + _4kb

def write (t : VUThread) (w : Write) : VUThread :=
  { t with buffer := store t.buffer (4 * t.writePos) w.bytes, writePos := t.writePos + w.words }

def commitWritePos (t : VUThread) : VUThread := { t with atoWritePos := t.writePos }

def commitReadPos (t : VUThread) : VUThread := { t with atoReadPos := t.readPos }

end VUThread

def read (buffer : Nat → UInt8) (pos : Nat) : UInt32 × Nat := (loadWord buffer (4 * pos), pos + 1)

def readRegs (buffer : Nat → UInt8) (pos : Nat) : VIFregistersMTVU × Nat :=
  (⟨loadWord buffer (4 * pos), loadWord buffer (4 * pos + 4), loadWord buffer (4 * pos + 8),
    loadWord buffer (4 * pos + 12), loadWord buffer (4 * pos + 16), loadWord buffer (4 * pos + 20)⟩,
    pos + sizeU32 sizeofVIFregistersMTVU)

/-- A block of the size that stands in the ring; a size that is no block's is an error. -/
def readBlock (buffer : Nat → UInt8) (pos : Nat) (size : UInt32) : Option (Block × Nat) :=
  if h : size.toNat + 3 < 2 ^ 32 then
    some (⟨load buffer (4 * pos) size.toNat, by simpa using h⟩, pos + sizeU32 size.toNat)
  else none

def readBytes (buffer : Nat → UInt8) (pos size : Nat) : Bytes size × Nat :=
  (⟨load buffer (4 * pos) size, length_load _ _ _⟩, pos + sizeU32 size)

/-- One round of the loop of `ExecuteRingBuffer`: the command at `pos` (none for a
null packet) and the read position after it.  Tags without a case are an error. -/
def executeRingBuffer (buffer : Nat → UInt8) (pos : Nat) : Option (Option Command × Nat) :=
  let (tag, pos) := read buffer pos
  match MTVUEvent.ofWord? tag with
  | some .vuExecute =>
    let (addr, pos) := read buffer pos
    let (top, pos) := read buffer pos
    let (itop, pos) := read buffer pos
    some (some (.executeVU addr top itop), pos)
  | some .vuWriteMicro => do
    let (vuMicroAddr, pos) := read buffer pos
    let (size, pos) := read buffer pos
    let (data, pos) ← readBlock buffer pos size
    some (some (.writeMicroMem vuMicroAddr data), pos)
  | some .vuWriteData => do
    let (vuDataAddr, pos) := read buffer pos
    let (size, pos) := read buffer pos
    let (data, pos) ← readBlock buffer pos size
    some (some (.writeDataMem vuDataAddr data), pos)
  | some .vifWriteCol =>
    let (maskCol, pos) := readBytes buffer pos sizeofMask
    some (some (.writeCol maskCol), pos)
  | some .vifWriteRow =>
    let (maskRow, pos) := readBytes buffer pos sizeofMask
    some (some (.writeRow maskRow), pos)
  | some .vifUnpack => do
    let (vif, pos) := readBytes buffer pos vifCopySize
    let (vifRegs, pos) := readRegs buffer pos
    let (size, pos) := read buffer pos
    let (data, pos) ← readBlock buffer pos size
    some (some (.vifUnpack vif vifRegs data), pos)
  | some .nullPacket => some (none, 0)
  | some .reset | none => none

end OmegaRed.MTVU

/-! Commands as they lie in the ring, and what the VU thread decodes from them. -/

namespace OmegaRed.MTVU

open Lib.Memory Lib.Words

theorem sizeU32_ge {n : Nat} (h : n + 3 < 2 ^ 32) : n ≤ 4 * sizeU32 n := by
  have := Nat.mod_eq_of_lt h
  unfold sizeU32
  omega

theorem Write.length_bytes_le (w : Write) : w.bytes.length ≤ 4 * w.words := by
  cases w with
  | word val => simp [Write.bytes, Write.words]
  | mem src => exact sizeU32_ge src.small
  | regs src => simp [Write.bytes, Write.words, VIFregistersMTVU.toBytes]; decide

/-- The bytes a write determines; the rest of its last word keeps what it held. -/
def Write.pattern (w : Write) : List (Option UInt8) :=
  w.bytes.map some ++ List.replicate (4 * w.words - w.bytes.length) none

@[simp] theorem Write.length_pattern (w : Write) : w.pattern.length = 4 * w.words := by
  have := w.length_bytes_le
  simp [Write.pattern]
  omega

def writeWords (ws : List Write) : Nat := (ws.map Write.words).sum

def writePattern (ws : List Write) : List (Option UInt8) := ws.flatMap Write.pattern

@[simp] theorem writeWords_nil : writeWords [] = 0 := rfl

@[simp] theorem writeWords_cons (w : Write) (ws : List Write) :
    writeWords (w :: ws) = w.words + writeWords ws := rfl

@[simp] theorem writeWords_append (ws vs : List Write) :
    writeWords (ws ++ vs) = writeWords ws + writeWords vs := by
  simp [writeWords]

@[simp] theorem writePattern_cons (w : Write) (ws : List Write) :
    writePattern (w :: ws) = w.pattern ++ writePattern ws := by
  simp [writePattern]

@[simp] theorem writePattern_append (ws vs : List Write) :
    writePattern (ws ++ vs) = writePattern ws ++ writePattern vs := by
  simp [writePattern]

@[simp] theorem length_writePattern (ws : List Write) :
    (writePattern ws).length = 4 * writeWords ws := by
  induction ws with
  | nil => rfl
  | cons w ws ih => simp [ih]; omega

def Command.words (c : Command) : Nat := writeWords c.writes

def Command.pattern (c : Command) : List (Option UInt8) := writePattern c.writes

theorem Command.reserve_eq_words (c : Command) : c.reserve = c.words := by
  cases c <;> simp [reserve, words, writes, writeWords, Write.words] <;> omega

theorem Command.words_pos (c : Command) : 0 < c.words := by
  cases c <;> simp [words, writes, writeWords, Write.words]

def nullPacket : Write := .word MTVUEvent.nullPacket.toWord

variable {buffer : Nat → UInt8} {pos : Nat}

theorem laid_writePattern_cons (w : Write) (ws : List Write) :
    Laid buffer (4 * pos) (writePattern (w :: ws)) ↔
      Laid buffer (4 * pos) w.pattern ∧ Laid buffer (4 * (pos + w.words)) (writePattern ws) := by
  rw [writePattern_cons, laid_append, w.length_pattern, Nat.mul_add]

theorem Write.laid_bytes {w : Write} (h : Laid buffer (4 * pos) w.pattern) :
    Laid buffer (4 * pos) (w.bytes.map some) :=
  ((laid_append _ _ _ _).mp h).1

theorem read_of_laid {val : UInt32} (h : Laid buffer (4 * pos) (Write.word val).pattern) :
    read buffer pos = (val, pos + 1) := by
  rw [read, loadWord_of_laid (Write.laid_bytes h)]

theorem readBlock_of_laid {b : Block} (h : Laid buffer (4 * pos) (Write.mem b).pattern) :
    readBlock buffer pos b.sizeWord = some (b, pos + (Write.mem b).words) := by
  have hsize : b.sizeWord.toNat = b.data.length := by
    have := b.small
    simp only [Block.sizeWord, UInt32.toNat_ofNat']
    omega
  have hload := (Write.laid_bytes h).load_eq
  simp only [Write.bytes] at hload
  simp only [readBlock, hsize, b.small, dite_true, Write.words, hload]

theorem readBytes_of_laid {size : Nat} {b : Bytes size} (hs : size + 3 < 2 ^ 32)
    (h : Laid buffer (4 * pos) (Write.mem (b.toBlock hs)).pattern) :
    readBytes buffer pos size = (b, pos + (Write.mem (b.toBlock hs)).words) := by
  have hload := (Write.laid_bytes h).load_eq
  simp only [Write.bytes, Bytes.toBlock, b.2] at hload
  have hb : (⟨load buffer (4 * pos) size, length_load _ _ _⟩ : Bytes size) = b :=
    Subtype.ext hload
  simp only [readBytes, hb, Write.words, Bytes.toBlock, b.2]

theorem readRegs_of_laid {r : VIFregistersMTVU}
    (h : Laid buffer (4 * pos) (Write.regs r).pattern) :
    readRegs buffer pos = (r, pos + (Write.regs r).words) := by
  have hr := Write.laid_bytes h
  simp only [Write.bytes, VIFregistersMTVU.toBytes, List.map_append, laid_append,
    List.length_append, List.length_map, length_bytes] at hr
  obtain ⟨⟨⟨⟨⟨hcycle, hmode⟩, hnum⟩, hmask⟩, hitop⟩, htop⟩ := hr
  simp only [readRegs, loadWord_of_laid hcycle, loadWord_of_laid hmode, loadWord_of_laid hnum,
    loadWord_of_laid hmask, loadWord_of_laid hitop, loadWord_of_laid htop, Write.words]

theorem executeRingBuffer_command {c : Command} (h : Laid buffer (4 * pos) c.pattern) :
    executeRingBuffer buffer pos = some (some c, pos + c.words) := by
  cases c with
  | executeVU vuAddr vifTop vifItop =>
    simp only [Command.pattern, Command.writes, laid_writePattern_cons, Write.words] at h
    obtain ⟨htag, haddr, htop, hitop, -⟩ := h
    simp [executeRingBuffer, read_of_laid htag, read_of_laid haddr, read_of_laid htop,
      read_of_laid hitop, Command.words, Command.writes, Write.words]
  | vifUnpack vif vifRegs data =>
    simp only [Command.pattern, Command.writes, laid_writePattern_cons] at h
    obtain ⟨htag, hvif, hregs, hsize, hdata, -⟩ := h
    have hvif := readBytes_of_laid (by decide) hvif
    have hregs := readRegs_of_laid hregs
    have hsize := read_of_laid hsize
    have hdata := readBlock_of_laid hdata
    simp only [Write.words, Bytes.length_toBlock] at hvif hregs hsize hdata
    simp only [executeRingBuffer, read_of_laid htag, MTVUEvent.ofWord?_toWord, hvif, hregs, hsize,
      hdata, Option.bind_eq_bind, Option.bind_some, Option.some.injEq, Prod.mk.injEq, true_and]
    simp [Command.words, Command.writes, Write.words]
    omega
  | writeMicroMem vuMicroAddr data =>
    simp only [Command.pattern, Command.writes, laid_writePattern_cons] at h
    obtain ⟨htag, haddr, hsize, hdata, -⟩ := h
    have haddr := read_of_laid haddr
    have hsize := read_of_laid hsize
    have hdata := readBlock_of_laid hdata
    simp only [Write.words] at haddr hsize hdata
    simp only [executeRingBuffer, read_of_laid htag, MTVUEvent.ofWord?_toWord, haddr, hsize,
      hdata, Option.bind_eq_bind, Option.bind_some, Option.some.injEq, Prod.mk.injEq, true_and]
    simp [Command.words, Command.writes, Write.words]
    omega
  | writeDataMem vuDataAddr data =>
    simp only [Command.pattern, Command.writes, laid_writePattern_cons] at h
    obtain ⟨htag, haddr, hsize, hdata, -⟩ := h
    have haddr := read_of_laid haddr
    have hsize := read_of_laid hsize
    have hdata := readBlock_of_laid hdata
    simp only [Write.words] at haddr hsize hdata
    simp only [executeRingBuffer, read_of_laid htag, MTVUEvent.ofWord?_toWord, haddr, hsize,
      hdata, Option.bind_eq_bind, Option.bind_some, Option.some.injEq, Prod.mk.injEq, true_and]
    simp [Command.words, Command.writes, Write.words]
    omega
  | writeCol maskCol =>
    simp only [Command.pattern, Command.writes, laid_writePattern_cons] at h
    obtain ⟨htag, hmask, -⟩ := h
    have hmask := readBytes_of_laid (by decide) hmask
    simp only [Write.words, Bytes.length_toBlock] at hmask
    simp [executeRingBuffer, read_of_laid htag, hmask, Command.words, Command.writes,
      Write.words, Nat.add_assoc]
  | writeRow maskRow =>
    simp only [Command.pattern, Command.writes, laid_writePattern_cons] at h
    obtain ⟨htag, hmask, -⟩ := h
    have hmask := readBytes_of_laid (by decide) hmask
    simp only [Write.words, Bytes.length_toBlock] at hmask
    simp [executeRingBuffer, read_of_laid htag, hmask, Command.words, Command.writes,
      Write.words, Nat.add_assoc]

theorem executeRingBuffer_null (h : Laid buffer (4 * pos) nullPacket.pattern) :
    executeRingBuffer buffer pos = some (none, 0) := by
  simp [executeRingBuffer, read_of_laid h]

end OmegaRed.MTVU

/-! The EE thread and the VU thread side by side.  One step is one access to the
shared ring; `committed` and `decoded` are the history and are never read. -/

namespace OmegaRed.MTVU

open Lib.Memory Relation

/-- Where the EE thread stands in `ReserveSpace`, the writes and `CommitWritePos`. -/
inductive EEPhase
  | idle
  | waitNull (c : Command)
  | writeNull (c : Command)
  | wrap (c : Command)
  | wait (c : Command)
  | write (c : Command) (todo : List Write)

/-- Where the VU thread stands in the loop of `ExecuteRingBuffer`. -/
inductive VUPhase
  | test
  | decode
  | commit (p : Option Command)

structure State where
  vu : VUThread
  ee : EEPhase
  vuPhase : VUPhase
  committed : List Command
  decoded : List Command

def State.init (buffer : Nat → UInt8) : State := ⟨.reset buffer, .idle, .test, [], []⟩

inductive Step : State → State → Prop
  | reserveSpace (s : State) (c : Command) : s.ee = .idle → 0 < c.reserve → c.reserve < bufferSize →
      Step s { s with
        ee := if s.vu.writePos + c.reserve > bufferSize - 1 then .waitNull c else .wait c }
  | waitNull (s : State) (c : Command) : s.ee = .waitNull c → s.vu.waitOnSize 1 →
      Step s { s with ee := .writeNull c }
  | writeNull (s : State) (c : Command) : s.ee = .writeNull c →
      Step s { s with vu := s.vu.write nullPacket, ee := .wrap c }
  | wrap (s : State) (c : Command) : s.ee = .wrap c →
      Step s { s with vu := { s.vu with writePos := 0 }.commitWritePos, ee := .wait c }
  | wait (s : State) (c : Command) : s.ee = .wait c → s.vu.waitOnSize c.reserve →
      Step s { s with ee := .write c c.writes }
  | write (s : State) (c : Command) (w : Write) (ws : List Write) : s.ee = .write c (w :: ws) →
      Step s { s with vu := s.vu.write w, ee := .write c ws }
  | commitWritePos (s : State) (c : Command) : s.ee = .write c [] →
      Step s { s with vu := s.vu.commitWritePos, ee := .idle, committed := s.committed ++ [c] }
  | test (s : State) : s.vuPhase = .test → s.vu.atoReadPos ≠ s.vu.atoWritePos →
      Step s { s with vuPhase := .decode }
  | decode (s : State) (p : Option Command) (pos : Nat) : s.vuPhase = .decode →
      executeRingBuffer s.vu.buffer s.vu.readPos = some (p, pos) →
      Step s { s with
        vu := { s.vu with readPos := pos }, vuPhase := .commit p, decoded := s.decoded ++ p.toList }
  | commitReadPos (s : State) (p : Option Command) : s.vuPhase = .commit p →
      Step s { s with vu := s.vu.commitReadPos, vuPhase := .test }

/-- Nothing lost, nothing out of order, and equal positions mean an empty ring. -/
def InOrder (s : State) : Prop :=
  s.decoded <+: s.committed ∧
    (s.vu.atoReadPos = s.vu.atoWritePos → s.decoded = s.committed)

/-- If the step is the wrap of `ReserveSpace`, the reader has left position 0 and
is not still ahead of the writer. -/
def WrapsBehind (s t : State) : Prop :=
  ∀ c, s.ee = .wrap c → t.ee = .wait c →
    0 < s.vu.atoReadPos ∧ s.vu.atoReadPos ≤ s.vu.atoWritePos

def SafeStep (s t : State) : Prop := Step s t ∧ WrapsBehind s t

end OmegaRed.MTVU
