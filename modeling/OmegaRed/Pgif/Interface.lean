import OmegaRed.Lib.RingFifo

/-! The interface between the IOP's bus and the driver that plays the PS1 GPU on the EE: a queue of
GP1 commands, a queue of data for both directions, and the registers. -/

namespace OmegaRed.Pgif

open Lib

universe u

abbrev U32 := BitVec 32

/-- `ringBuf_t` -/
structure RingBuf (α : Type u) where
  buf : Nat → α
  size : Nat
  count : Nat
  head : Nat
  tail : Nat

namespace RingBuf

variable {α : Type u} (rb : RingBuf α)

def empty (size : Nat) (a : α) : RingBuf α := ⟨fun _ => a, size, 0, 0, 0⟩

/-- `ringBufPut`; what finds no space is dropped. -/
def put (data : α) : RingBuf α :=
  if rb.count < rb.size then
    { rb with
      buf := Function.update rb.buf rb.head data
      head := if rb.size ≤ rb.head + 1 then 0 else rb.head + 1
      count := rb.count + 1 }
  else rb

/-- `ringBufGet`, with nothing where nothing is available. -/
def get : Option α × RingBuf α :=
  if 0 < rb.count then
    (some (rb.buf rb.tail),
      { rb with
        tail := if rb.size ≤ rb.tail + 1 then 0 else rb.tail + 1
        count := rb.count - 1 })
  else (none, rb)

/-- `ringBufClear` -/
def clear : RingBuf α := { rb with head := 0, tail := 0, count := 0 }

def fifo : RingFifo α := ⟨rb.buf, rb.tail, rb.head, rb.count⟩

def Ok : Prop := rb.fifo.Ok rb.size

def words : List α := rb.fifo.content rb.size

@[simp] theorem length_words : rb.words.length = rb.count := by
  simp [words, fifo]

variable {rb}

theorem next_eq {n i : Nat} (h : i < n) : (if n ≤ i + 1 then 0 else i + 1) = (i + 1) % n := by
  split
  · have heq : i + 1 = n := by omega
    rw [heq, Nat.mod_self]
  · rw [Nat.mod_eq_of_lt (by omega)]

theorem fifo_put (h : rb.Ok) (hroom : rb.count < rb.size) (a : α) :
    (rb.put a).fifo = rb.fifo.write rb.size [a] := by
  have hlt : rb.head < rb.size := RingFifo.Ok.writePos_lt h
  have hpart : min (rb.size - rb.head) 1 = 1 := by omega
  rw [put, if_pos hroom, next_eq hlt]
  simp only [fifo, RingFifo.write, List.length_singleton, hpart, List.take_succ_cons, List.take_zero,
    List.drop_succ_cons, List.drop_zero, Memory.store_nil, Memory.store_cons]
  rfl

theorem Ok.put (h : rb.Ok) (a : α) : (rb.put a).Ok := by
  by_cases hroom : rb.count < rb.size
  · have hsize : (rb.put a).size = rb.size := by rw [RingBuf.put, if_pos hroom]
    rw [Ok, hsize, fifo_put h hroom]
    refine RingFifo.Ok.write h ?_
    simp only [fifo, List.length_singleton]
    omega
  · rwa [RingBuf.put, if_neg hroom]

theorem words_put (h : rb.Ok) (hroom : rb.count < rb.size) (a : α) :
    (rb.put a).words = rb.words ++ [a] := by
  have hsize : (rb.put a).size = rb.size := by rw [RingBuf.put, if_pos hroom]
  rw [words, hsize, fifo_put h hroom]
  refine RingFifo.Ok.content_write h ?_
  simp only [fifo, List.length_singleton]
  omega

theorem fifo_get (h : rb.Ok) (hpos : 0 < rb.count) :
    rb.get.1 = (rb.fifo.read rb.size 1).1[0]? ∧ rb.get.2.fifo = (rb.fifo.read rb.size 1).2 := by
  have hlt : rb.tail < rb.size := RingFifo.Ok.readPos_lt h
  have hpart : min (rb.size - rb.tail) 1 = 1 := by omega
  rw [get, if_pos hpos, next_eq hlt]
  simp only [fifo, RingFifo.read, hpart, Nat.sub_self, Memory.load_zero, List.append_nil]
  refine ⟨?_, ?_⟩
  · rw [Memory.getElem?_load _ Nat.zero_lt_one, Nat.add_zero]
  · congr 1
    omega

theorem Ok.get (h : rb.Ok) : rb.get.2.Ok := by
  by_cases hpos : 0 < rb.count
  · have hsize : rb.get.2.size = rb.size := by rw [RingBuf.get, if_pos hpos]
    rw [Ok, hsize, (fifo_get h hpos).2]
    refine RingFifo.Ok.read h ?_
    simp only [fifo]
    omega
  · rwa [RingBuf.get, if_neg hpos]

theorem words_get (h : rb.Ok) (hpos : 0 < rb.count) :
    ∃ a, rb.get.1 = some a ∧ rb.words = a :: rb.get.2.words := by
  have hsize : rb.get.2.size = rb.size := by rw [RingBuf.get, if_pos hpos]
  have hread : rb.fifo.content rb.size =
      (rb.fifo.read rb.size 1).1 ++ (rb.fifo.read rb.size 1).2.content rb.size :=
    RingFifo.Ok.content_read h (by simp only [fifo]; omega)
  obtain ⟨hget, hrest⟩ := fifo_get h hpos
  obtain ⟨a, ha⟩ := List.length_eq_one_iff.mp (RingFifo.length_read rb.size rb.fifo 1)
  rw [ha] at hget hread
  refine ⟨a, hget, ?_⟩
  rw [words, words, hsize, hrest]
  exact hread

theorem ok_empty {n : Nat} (hn : 0 < n) (a : α) : (empty n a).Ok where
  readPos_lt := hn
  size_nonneg := Int.le_refl _
  size_le := by
    change ((0 : Nat) : Int) ≤ (n : Int)
    omega
  writePos_eq := by
    change 0 = (0 + 0) % n
    rw [Nat.zero_add, Nat.zero_mod]

theorem Ok.clear (h : rb.Ok) : rb.clear.Ok where
  readPos_lt := Nat.lt_of_le_of_lt (Nat.zero_le _) (RingFifo.Ok.readPos_lt h)
  size_nonneg := Int.le_refl _
  size_le := by
    change ((0 : Nat) : Int) ≤ (rb.size : Int)
    omega
  writePos_eq := rfl

@[simp] theorem words_clear (rb : RingBuf α) : rb.clear.words = [] := rfl

@[simp] theorem size_put (rb : RingBuf α) (a : α) : (rb.put a).size = rb.size := by
  rw [put]
  split <;> rfl

@[simp] theorem size_get (rb : RingBuf α) : rb.get.2.size = rb.size := by
  rw [get]
  split <;> rfl

@[simp] theorem size_clear (rb : RingBuf α) : rb.clear.size = rb.size := rfl

end RingBuf

/-- A word of the data queue; `dma` says that the transfer has put it there, and nothing reads it. -/
structure Word where
  data : U32
  dma : Bool

/-- `pgifDatRbC`, the words that have left it through a port, and the words that were dropped. -/
structure DataFifo where
  ring : RingBuf Word
  left : List Word
  lost : List Word

namespace DataFifo

variable (f : DataFifo)

def put (w : Word) : DataFifo :=
  { f with
    ring := f.ring.put w
    lost := if f.ring.count < f.ring.size then f.lost else f.lost ++ [w] }

/-- A word leaves through a port. -/
def get : Option U32 × DataFifo :=
  match f.ring.get with
  | (some w, ring) => (some w.data, { f with ring, left := f.left ++ [w] })
  | (none, ring) => (none, { f with ring })

def clear : DataFifo := { f with ring := f.ring.clear, lost := f.lost ++ f.ring.words }

end DataFifo

/-- The variables of the DMA channel. -/
structure Dma where
  pgpuDmaMadr : U32
  pgpuDmaBcr : U32
  pgpuDmaLlAct : Bool
  pgpuDmaNrActToGpu : Bool
  pgpuDmaNrActToIop : Bool
  pgpuDmaTrAddr : U32
  wCnt : Nat
  wordNr : Nat
  nextAddr : U32
  nrWordsN : Nat
  crWordN : Nat
  addrNdma : U32

/-- `stored` are the calls of `iopMemWrite32`; `psxDmaInterrupt` and `hwIntcIrq` count the calls of
these. -/
structure State where
  cmd : RingBuf U32
  dat : DataFifo
  dma : Dma
  pgpuDmaChcr : U32
  pgpuDmaTadr : U32
  pGpuStatReg : U32
  pgif1reg : U32
  pgif2reg : U32
  pgif3reg : U32
  pgif4reg : U32
  pGifCtrlReg : U32
  pGpuDataReg : U32
  stored : List (U32 × U32)
  psxDmaInterrupt : Nat
  hwIntcIrq : Nat

def pgifDatRbSz : Nat := 0x20000

def pgifDatRbLeaveFree : Nat := 1

def pgifCmdRbSz : Nat := 8

def pgpuStat : U32 := 0x1000F300
def pgif1 : U32 := 0x1000F310
def pgif2 : U32 := 0x1000F320
def pgif3 : U32 := 0x1000F330
def pgif4 : U32 := 0x1000F340
def pgifCtrl : U32 := 0x1000F380
def pgpuCmdFifo : U32 := 0x1000F3C0
def pgpuDatFifo : U32 := 0x1000F3E0

def hwPs1GpuData : U32 := 0x1F801810
def hwPs1GpuStatus : U32 := 0x1F801814

def pgpuStatIrq1 : U32 := 0x01000000
def statDirByCmdBits : U32 := 0x40000000

def pgifInit : State where
  cmd := .empty pgifCmdRbSz 0
  dat := ⟨.empty pgifDatRbSz ⟨0, false⟩, [], []⟩
  dma := ⟨0, 0, false, false, false, 0, 0, 0, 0, 0, 0, 0⟩
  pgpuDmaChcr := 0
  pgpuDmaTadr := 0
  pGpuStatReg := 0
  pgif1reg := 0
  pgif2reg := 0
  pgif3reg := 0
  pgif4reg := 0
  pGifCtrlReg := 0
  pGpuDataReg := 0
  stored := []
  psxDmaInterrupt := 0
  hwIntcIrq := 0

namespace State

variable (s : State)

def ackGpuIrq : State := { s with pGpuStatReg := s.pGpuStatReg &&& ~~~pgpuStatIrq1 }

/-- The channel goes on. -/
def pgifReset : State :=
  { s with
    dat := s.dat.clear
    cmd := s.cmd.clear
    pGpuStatReg := 0
    pgif1reg := 0
    pgif2reg := 0
    pgif3reg := 0
    pgif4reg := 0
    pGifCtrlReg := 0
    pGpuDataReg := 0 }

/-- The answer to the commands that are not sent on. -/
def immRespHndl (cmd data : U32) : U32 :=
  match (cmd &&& 0xFF).toNat with
  | 2 => s.pgif1reg &&& 0x001FFFFF
  | 3 => s.pgif2reg &&& 0x001FFFFF
  | 4 => s.pgif3reg &&& 0x001FFFFF
  | 5 => s.pgif4reg &&& 0x003FFFFF
  | 7 => 2
  | 8 => 0
  | _ => data

/-- Bit 25, from the direction in bits 29 and 30. -/
def dataRequest (reg : U32) : Bool :=
  match ((reg >>> 29) &&& 3).toNat with
  | 1 => s.dat.ring.count < s.dat.ring.size
  | 2 => reg &&& 0x10000000 ≠ 0
  | 3 => reg &&& 0x08000000 ≠ 0
  | _ => false

/-- Bits 27 and 25, and with the direction GPU to CPU also 28 and 26. -/
def getUpdPgpuStatReg : State :=
  let reg := s.pGpuStatReg &&& ~~~0x08000000#32 &&& ~~~0x02000000#32
  let reg :=
    if s.pGifCtrlReg &&& 0x10 ≠ 0 ∨ reg &&& 0x20000000 ≠ 0 then
      let reg := reg &&& ~~~0x10000000#32 &&& ~~~0x04000000#32
      if 0 < s.dat.ring.count then reg ||| 0x08000000 else reg
    else reg
  { s with pGpuStatReg := if s.dataRequest reg then reg ||| 0x02000000 else reg }

def getDatRbCCount : U32 := .ofNat 32 (min s.dat.ring.count 0x1F)

/-- The queue of data shows as empty as long as there are commands. -/
def getUpdPgifCtrlReg : State :=
  let reg := s.pGifCtrlReg &&& 0xFFFFE0FF
  let reg :=
    if s.cmd.count = 0 then reg ||| ((s.getDatRbCCount &&& 0x1F) <<< 8) &&& 0x1F00 else reg
  let reg := reg &&& 0xFFF8FFFF
  let reg := reg ||| ((BitVec.ofNat 32 s.cmd.count &&& 7) <<< 16) &&& 0x70000
  let reg := reg &&& 0x7FFFFFFF
  let reg :=
    if s.cmd.count = 0 then reg ||| ((s.getDatRbCCount &&& 0x20) <<< 26) &&& 0x80000000 else reg
  { s with pGifCtrlReg := reg }

/-- `datRingBufGet`; where the queue is empty, the register holds the last word. -/
def datRingBufGet : U32 × State :=
  match s.dat.get with
  | (some data, dat) => (data, { s with dat })
  | (none, _) => (s.pGpuDataReg, s)

end State

end OmegaRed.Pgif
