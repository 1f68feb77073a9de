import OmegaRed.Lib.Words
import OmegaRed.Sif.Dma
import Mathlib.Logic.Relation

/-! SIF1: the EE sends a source chain of blocks to the IOP through the queue. -/

namespace OmegaRed.Sif.Sif1

open Lib Lib.Memory

def bias : Nat := 2

def normalMode : Nat := 0

def chainMode : Nat := 1

/-- `sif1.ee` and the EE's channel; `tag` is `chcr.TAG`. -/
structure Ee where
  busy : Bool
  ended : Bool
  cycles : Nat
  interrupt : Option Nat
  str : Bool
  mod : Nat
  tte : Bool
  tie : Bool
  tag : DmaTag
  qwc : Nat
  madr : UInt32
  tadr : UInt32

/-- `sif1.iop` and the IOP's channel. -/
structure Iop where
  busy : Bool
  ended : Bool
  cycles : Nat
  interrupt : Option Nat
  counter : Int
  madr : UInt32

/-- `fetched` and `taken` count the tags that each side has processed, and `current` is the tag
that the EE has fetched or taken up again since its start; nothing reads them. -/
structure State where
  fifo : RingFifo UInt32
  ee : Ee
  iop : Iop
  iopMem : Nat → UInt8
  fetched : Nat
  taken : Nat
  current : Option DmaTag

/-- `hwDmacSrcTadrInc` -/
def hwDmacSrcTadrInc (e : Ee) : Ee :=
  if e.str = false then e
  else if e.mod ≠ chainMode then e
  else if e.tag.id = tagCNT then { e with tadr := e.madr } else e

/-- `hwDmacSrcChain`: the channel, and whether the transfer ends. -/
def hwDmacSrcChain (e : Ee) (id : Nat) : Ee × Bool :=
  if id = tagREFE then ({ e with tadr := e.tadr + 16 }, true)
  else if id = tagCNT then ({ e with madr := e.tadr + 16, tadr := e.tadr + 16 }, false)
  else if id = tagNEXT then ({ e with madr := e.tadr + 16, tadr := e.madr }, false)
  else if id = tagREF ∨ id = tagREFS then ({ e with tadr := e.tadr + 16 }, false)
  else if id = tagEND then ({ e with madr := e.tadr + 16 }, true)
  else (e, false)

variable (eeMem : Nat → UInt32)

def writeEEtoFifo (s : State) : State :=
  let writeSize := min s.ee.qwc (s.fifo.free fifoSifW / 4).toNat
  match dmaGetAddr s.ee.madr false with
  | none => { s with ee := { s.ee with str := false } }
  | some base =>
    let ee := hwDmacSrcTadrInc { s.ee with madr := s.ee.madr + .ofNat (16 * writeSize) }
    { s with
      fifo := s.fifo.write fifoSifW (load eeMem base (4 * writeSize))
      ee := { ee with cycles := ee.cycles + writeSize, qwc := ee.qwc - writeSize } }

def writeFifoToIOP (s : State) : State :=
  let readSize := (min s.iop.counter s.fifo.size).toNat
  let (words, fifo) := s.fifo.read fifoSifW readSize
  { s with
    fifo
    iopMem := store s.iopMem (iopPhysMem s.iop.madr) (words.flatMap Words.bytes)
    iop := { s.iop with
      madr := s.iop.madr + .ofNat (4 * readSize)
      cycles := s.iop.cycles + readSize / 4
      counter := s.iop.counter - readSize } }

def processEETag (s : State) : State :=
  match dmaGetAddr s.ee.tadr false with
  | none => { s with ee := { s.ee with str := false } }
  | some base =>
    let ptag : DmaTag := ⟨eeMem base⟩
    let fifo := if s.ee.tte then s.fifo.write fifoSifW (load eeMem (base + 2) 2) else s.fifo
    let ended := s.ee.ended || s.ee.tie && ptag.irq
    let (ee, last) := hwDmacSrcChain
      { s.ee with tag := ptag, qwc := ptag.qwc, ended, madr := eeMem (base + 1) } ptag.id
    -- the flag set above for TIE is overwritten
    { s with fifo, ee := { ee with ended := last }, fetched := s.fetched + 1, current := some ptag }

def sifIOPReadTag (s : State) : State :=
  let (tag, fifo) := s.fifo.read fifoSifW 4
  let data := tag.getD 0 0
  let words := tag.getD 1 0
  { s with
    fifo
    iop := { s.iop with
      madr := data &&& 0xffffff
      counter := (words &&& 0xffffc).toNat
      ended := s.iop.ended || (DmaTag.mk data).irq || (DmaTag.mk data).id / 4 = 1 }
    taken := s.taken + 1 }

def endEE (s : State) : State :=
  let cycles := if s.ee.cycles = 0 then 1 else s.ee.cycles
  { s with ee := { s.ee with
      ended := false, busy := false, cycles, interrupt := some (cycles * bias) } }

def endIOP (s : State) : State :=
  let cycles := if s.iop.cycles = 0 then 1 else s.iop.cycles
  { s with iop := { s.iop with ended := false, busy := false, cycles, interrupt := some cycles } }

def handleEETransfer (s : State) : State :=
  if s.ee.str = false then { s with ee := { s.ee with ended := false, busy := false } }
  else if s.ee.qwc = 0 then
    if s.ee.mod = normalMode ∨ s.ee.ended = true then endEE s else processEETag eeMem s
  else if 0 < s.fifo.free fifoSifW then writeEEtoFifo eeMem s
  else s

/-- The second half of `HandleIOPTransfer`. -/
def finishIOPTransfer (s : State) : State :=
  if s.iop.counter ≤ 0 then
    if s.iop.ended then endIOP s
    else if 4 ≤ s.fifo.size then sifIOPReadTag s
    else s
  else s

def handleIOPTransfer (s : State) : State :=
  finishIOPTransfer (if 0 < s.iop.counter ∧ 0 < s.fifo.size then writeFifoToIOP s else s)

def eeCanRun (s : State) : Bool :=
  s.ee.busy && (0 < s.fifo.free fifoSifW || s.ee.ended && s.ee.qwc = 0)

def iopCanRun (s : State) : Bool :=
  s.iop.busy && (4 ≤ s.fifo.size || s.iop.ended && s.iop.counter = 0)

def runEE (s : State) : State := if eeCanRun s then handleEETransfer eeMem s else s

def runIOP (s : State) : State := if iopCanRun s then handleIOPTransfer s else s

/-- One pass of the loop of `SIF1Dma`. -/
def round (s : State) : State := runIOP (runEE eeMem s)

def busyCheck (s : State) : Bool := eeCanRun s || iopCanRun (runEE eeMem s)

/-- The loop of `SIF1Dma`, with fuel. -/
def sif1Loop : Nat → State → Option State
  | 0, _ => none
  | fuel + 1, s =>
    if busyCheck eeMem s then sif1Loop fuel (round eeMem s) else some (round eeMem s)

def sif1Init (s : State) : State :=
  { s with ee := { s.ee with cycles := 0 }, iop := { s.iop with cycles := 0 } }

def sif1Dma (fuel : Nat) (s : State) : Option State := sif1Loop eeMem fuel (sif1Init s)

/-- The tag ends the transfer, in a channel whose TIE bit is `tie`. -/
def tagEnds (tie : Bool) (t : DmaTag) : Bool := t.id = tagREFE || t.id = tagEND || t.irq && tie

/-- `dmaSIF1` up to the loop; it asks for the TIE bit of VIF1's channel, `vif1Tie`. -/
def startEE (vif1Tie : Bool) (s : State) : State :=
  let resumed := s.ee.mod = chainMode ∧ 0 < s.ee.qwc
  { s with
    ee := { s.ee with busy := true, ended := decide resumed && tagEnds vif1Tie s.ee.tag }
    current := if resumed then some s.ee.tag else none }

def dmaSIF1 (vif1Tie : Bool) (fuel : Nat) (s : State) : Option State :=
  sif1Dma eeMem fuel (startEE vif1Tie s)

def startIOP (s : State) : State := { s with iop := { s.iop with busy := true, ended := false } }

def eesif1Interrupt (s : State) : State :=
  { s with ee := { s.ee with str := false, interrupt := none } }

end OmegaRed.Sif.Sif1

/-! Source chains for SIF1, the blocks in their data and the memory they leave. -/

namespace OmegaRed.Sif.Sif1

open Lib Lib.Memory Lib.Masks

/-- A block for the IOP: the four words of its tag, and its words padded to a quadword. -/
structure Block where
  data : UInt32
  words : UInt32
  tagLo : UInt32
  tagHi : UInt32
  payload : List UInt32

namespace Block

variable (b : Block)

def spell : List UInt32 := b.data :: b.words :: b.tagLo :: b.tagHi :: b.payload

def dest : UInt32 := b.data &&& 0xffffff

/-- The payload fills the quadwords that the word count asks for. -/
def Padded : Prop := b.payload.length = (b.words.toNat + 3) / 4 * 4

/-- The word count is one of whole quadwords that the IOP's counter can hold. -/
def Whole : Prop := b.words.toNat % 4 = 0 ∧ b.words.toNat ≤ 0xffffc

end Block

/-- `n` tags at the addresses `tadr`, whose data are the `blocks`. -/
structure Chain where
  eeMem : Nat → UInt32
  tadr : Nat → UInt32
  n : Nat
  tte : Bool
  tie : Bool
  blocks : List Block

namespace Chain

variable (c : Chain) (i : Nat)

def base : Nat := (dmaGetAddr (c.tadr i) false).getD 0

def tag : DmaTag := ⟨c.eeMem (c.base i)⟩

def addr : UInt32 := c.eeMem (c.base i + 1)

def ends : Bool := tagEnds c.tie (c.tag i)

def source : UInt32 :=
  if (c.tag i).id = tagCNT ∨ (c.tag i).id = tagNEXT ∨ (c.tag i).id = tagEND then c.tadr i + 16
  else c.addr i

/-- Where the tag after tag `i` stands. -/
def next : UInt32 :=
  if (c.tag i).id = tagCNT then c.tadr i + 16 + .ofNat (16 * (c.tag i).qwc)
  else if (c.tag i).id = tagNEXT then c.addr i
  else c.tadr i + 16

/-- The words that tag `i` puts into the queue. -/
def words : List UInt32 :=
  (if c.tte then load c.eeMem (c.base i + 2) 2 else []) ++
    load c.eeMem (destBase (c.source i)) (4 * (c.tag i).qwc)

/-- The words from tag `i` on. -/
def stream : List UInt32 := (List.range' i (c.n - i)).flatMap c.words

/-- The words of the blocks from block `k` on. -/
def blocksFrom (k : Nat) : List UInt32 := (c.blocks.drop k).flatMap Block.spell

/-- The IOP's memory after the first `k` blocks. -/
def delivered (mem : Nat → UInt8) (k : Nat) : Nat → UInt8 :=
  (c.blocks.take k).foldl (fun mem b => store mem (iopPhysMem b.dest)
    ((b.payload.take b.words.toNat).flatMap Words.bytes)) mem

/-- The tags are ones that a SIF channel knows, follow one another, and the last one ends. -/
structure Linked : Prop where
  readable : ∀ i < c.n, dmaGetAddr (c.tadr i) false ≠ none
  id_lt : ∀ i < c.n, (c.tag i).id < 5 ∨ (c.tag i).id = tagEND
  next : ∀ i, i + 1 < c.n → c.ends i = false → c.tadr (i + 1) = c.next i
  last : ∀ i, i + 1 = c.n → c.ends i = true

/-- No tag ends the transfer by its IRQ bit alone. -/
def IrqEnds : Prop := ∀ i < c.n, c.tie = true → (c.tag i).irq = true →
  (c.tag i).id = tagREFE ∨ (c.tag i).id = tagEND

/-- The data of the tags are the blocks, and lie in one memory of the EE each. -/
structure Matched : Prop where
  stream_eq : c.stream 0 = c.blocksFrom 0
  padded : ∀ b ∈ c.blocks, b.Padded
  source : ∀ i < c.n, (c.tag i).qwc = 0 ∨ InMain (c.source i) (c.tag i).qwc ∨
    InScratch (c.source i) (c.tag i).qwc

/-- What the IOP's side relies on: whole quadwords, and room for them in its memory. -/
structure Fits : Prop where
  whole : ∀ b ∈ c.blocks, b.Whole
  dest : ∀ b ∈ c.blocks, InIopMem b.dest b.words.toNat

variable {c i}

theorem Linked.base_eq (h : c.Linked) (hi : i < c.n) :
    dmaGetAddr (c.tadr i) false = some (c.base i) := by
  cases hbase : dmaGetAddr (c.tadr i) false with
  | none => exact absurd hbase (h.readable i hi)
  | some b => rw [Chain.base, hbase, Option.getD_some]

theorem Matched.resolves (h : c.Matched) (hi : i < c.n) :
    Resolves (c.source i) (c.tag i).qwc (destBase (c.source i)) := by
  rcases h.source i hi with hzero | hmain | hscratch
  · rw [hzero]
    intro k hk
    exact absurd hk (Nat.not_lt_zero k)
  · exact hmain.resolves
  · exact hscratch.resolves

theorem stream_of_lt (h : i < c.n) : c.stream i = c.words i ++ c.stream (i + 1) := by
  rw [stream, show c.n - i = c.n - (i + 1) + 1 by omega, List.range'_succ, List.flatMap_cons]
  rfl

theorem stream_of_le (h : c.n ≤ i) : c.stream i = [] := by
  rw [stream, Nat.sub_eq_zero_of_le h]
  rfl

theorem blocksFrom_of_lt {k : Nat} (h : k < c.blocks.length) :
    c.blocksFrom k = (c.blocks[k]).spell ++ c.blocksFrom (k + 1) := by
  rw [blocksFrom, List.drop_eq_getElem_cons h, List.flatMap_cons]
  rfl

theorem blocksFrom_of_le {k : Nat} (h : c.blocks.length ≤ k) : c.blocksFrom k = [] := by
  rw [blocksFrom, List.drop_eq_nil_of_le h]
  rfl

theorem delivered_succ (mem : Nat → UInt8) {k : Nat} (h : k < c.blocks.length) :
    c.delivered mem (k + 1) = store (c.delivered mem k) (iopPhysMem (c.blocks[k]).dest)
      (((c.blocks[k]).payload.take (c.blocks[k]).words.toNat).flatMap Words.bytes) := by
  rw [delivered, List.take_succ_eq_append_getElem h, List.foldl_append]
  rfl

end Chain

theorem Block.counter_eq {b : Block} (h : b.Whole) : (b.words &&& 0xffffc).toNat = b.words.toNat := by
  obtain ⟨hmod, hle⟩ := h
  rw [UInt32.toNat_and]
  have hfield := and_field b.words.toNat 2 18
  exact hfield.trans (by omega)

theorem Block.payload_length {b : Block} (hp : b.Padded) (h : b.Whole) :
    b.payload.length = b.words.toNat := by
  obtain ⟨hmod, _⟩ := h
  rw [hp]
  omega

end OmegaRed.Sif.Sif1

/-! What one pass of the loop of SIF1 does, move by move. -/

namespace OmegaRed.Sif.Sif1

open Lib Relation

inductive MoveEE (eeMem : Nat → UInt32) (s : State) : State → Prop
  | stopEE (hbusy : s.ee.busy = true) (hstr : s.ee.str = false) :
      MoveEE eeMem s { s with ee := { s.ee with ended := false, busy := false } }
  | endEE (hbusy : s.ee.busy = true) (hstr : s.ee.str = true) (hqwc : s.ee.qwc = 0)
      (hended : s.ee.mod = normalMode ∨ s.ee.ended = true) : MoveEE eeMem s (endEE s)
  | tagEE (hbusy : s.ee.busy = true) (hstr : s.ee.str = true) (hqwc : s.ee.qwc = 0)
      (hended : s.ee.ended = false) (hfree : 0 < s.fifo.free fifoSifW) :
      MoveEE eeMem s (processEETag eeMem s)
  | writeEE (hbusy : s.ee.busy = true) (hstr : s.ee.str = true) (hqwc : 0 < s.ee.qwc)
      (hfree : 0 < s.fifo.free fifoSifW) : MoveEE eeMem s (writeEEtoFifo eeMem s)

inductive MoveIOP (s : State) : State → Prop
  | writeIOP (hbusy : s.iop.busy = true) (hcounter : 0 < s.iop.counter)
      (hsize : 0 < s.fifo.size) : MoveIOP s (writeFifoToIOP s)
  | endIOP (hbusy : s.iop.busy = true) (hcounter : s.iop.counter ≤ 0)
      (hended : s.iop.ended = true) : MoveIOP s (endIOP s)
  | tagIOP (hbusy : s.iop.busy = true) (hcounter : s.iop.counter ≤ 0)
      (hended : s.iop.ended = false) (hsize : 4 ≤ s.fifo.size) : MoveIOP s (sifIOPReadTag s)

variable {eeMem : Nat → UInt32} {s : State}

theorem move_runEE (h : eeCanRun s = true) : MoveEE eeMem s (runEE eeMem s) := by
  rw [runEE, if_pos h]
  simp only [eeCanRun, Bool.and_eq_true, Bool.or_eq_true, decide_eq_true_eq] at h
  obtain ⟨hbusy, hrun⟩ := h
  rw [handleEETransfer]
  cases hstr : s.ee.str with
  | false => exact .stopEE hbusy hstr
  | true =>
    rw [if_neg Bool.false_ne_true.symm]
    by_cases hqwc : s.ee.qwc = 0
    · rw [if_pos hqwc]
      by_cases hended : s.ee.mod = normalMode ∨ s.ee.ended = true
      · rw [if_pos hended]
        exact .endEE hbusy hstr hqwc hended
      · simp only [not_or, Bool.not_eq_true] at hended
        rw [if_neg (by simp [hended])]
        exact .tagEE hbusy hstr hqwc hended.2 (by simpa [hended.2] using hrun)
    · have hfree : 0 < s.fifo.free fifoSifW := by simpa [hqwc] using hrun
      rw [if_neg hqwc, if_pos hfree]
      exact .writeEE hbusy hstr (by omega) hfree

theorem moves_finishIOPTransfer (hbusy : s.iop.busy = true) :
    ReflTransGen MoveIOP s (finishIOPTransfer s) := by
  rw [finishIOPTransfer]
  split
  · rename_i hcounter
    split
    · rename_i hended
      exact .single (.endIOP hbusy hcounter hended)
    · rename_i hended
      split
      · rename_i hsize
        exact .single (.tagIOP hbusy hcounter (Bool.eq_false_iff.mpr hended) hsize)
      · exact .refl
  · exact .refl

theorem moves_runIOP (h : iopCanRun s = true) : TransGen MoveIOP s (runIOP s) := by
  rw [runIOP, if_pos h]
  simp only [iopCanRun, Bool.and_eq_true, Bool.or_eq_true, decide_eq_true_eq] at h
  obtain ⟨hbusy, hrun⟩ := h
  rw [handleIOPTransfer]
  by_cases hwrite : 0 < s.iop.counter ∧ 0 < s.fifo.size
  · rw [if_pos hwrite]
    exact .head' (.writeIOP hbusy hwrite.1 hwrite.2) (moves_finishIOPTransfer hbusy)
  · have hcounter : s.iop.counter ≤ 0 := by omega
    rw [if_neg hwrite, finishIOPTransfer, if_pos hcounter]
    cases hended : s.iop.ended with
    | true => exact .single (.endIOP hbusy hcounter hended)
    | false =>
      rw [hended] at hrun
      have hsize : 4 ≤ s.fifo.size := by simpa using hrun
      rw [if_neg Bool.false_ne_true, if_pos hsize]
      exact .single (.tagIOP hbusy hcounter hended hsize)

theorem round_of_not_busy (h : busyCheck eeMem s = false) :
    round eeMem s = s ∧ eeCanRun s = false ∧ iopCanRun s = false := by
  rw [busyCheck, Bool.or_eq_false_iff] at h
  have hstays : runEE eeMem s = s := by rw [runEE, h.1]; rfl
  rw [hstays] at h
  refine ⟨?_, h⟩
  rw [round, hstays, runIOP, h.2]
  rfl

end OmegaRed.Sif.Sif1
