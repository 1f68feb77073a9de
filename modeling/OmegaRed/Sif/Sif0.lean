import OmegaRed.Sif.Dma
import OmegaRed.Lib.Traces

/-! SIF0: the IOP sends a chain of blocks to the EE through the queue. -/

namespace OmegaRed.Sif.Sif0

open Lib Lib.Memory

def bias : Nat := 2

/-- `sif0.ee` and the EE's channel; `interrupt` is the event that `CPU_INT` has scheduled. -/
structure Ee where
  busy : Bool
  ended : Bool
  cycles : Nat
  interrupt : Option Nat
  str : Bool
  normalMode : Bool
  tie : Bool
  qwc : Nat
  madr : UInt32

/-- `sif0.iop` and the IOP's channel. -/
structure Iop where
  busy : Bool
  ended : Bool
  cycles : Nat
  interrupt : Option Nat
  counter : Int
  madr : UInt32
  tadr : UInt32

/-- `sent` and `received` count the tags that each side has processed; nothing reads them. -/
structure State where
  fifo : RingFifo UInt32
  ee : Ee
  iop : Iop
  stallSif0 : Bool
  stadr : UInt32
  eeMem : Nat → UInt32
  sent : Nat
  received : Nat

variable (iopMem : Nat → UInt32)

def writeFifoToEE (s : State) : State :=
  let readSize := min s.ee.qwc (s.fifo.size / 4).toNat
  match dmaGetAddr s.ee.madr true with
  | none => { s with ee := { s.ee with str := false } }
  | some base =>
    let (words, fifo) := s.fifo.read fifoSifW (4 * readSize)
    { s with
      fifo
      eeMem := store s.eeMem base words
      ee := { s.ee with
        madr := s.ee.madr + .ofNat (16 * readSize)
        cycles := s.ee.cycles + readSize
        qwc := s.ee.qwc - readSize } }

def writeIOPtoFifo (s : State) : State :=
  let writeSize := (min s.iop.counter (s.fifo.free fifoSifW)).toNat
  { s with
    fifo := s.fifo.write fifoSifW (iopWords iopMem (iopPhysMem s.iop.madr) writeSize)
    iop := { s.iop with
      madr := s.iop.madr + .ofNat (4 * writeSize)
      cycles := s.iop.cycles + writeSize / 4
      counter := s.iop.counter - writeSize } }

def processEETag (s : State) : State :=
  let (tag, fifo) := s.fifo.read fifoSifW 4
  let ptag : DmaTag := ⟨tag.getD 0 0⟩
  let madr := tag.getD 1 0
  { s with
    fifo
    ee := { s.ee with
      qwc := ptag.qwc
      madr
      ended := s.ee.ended || s.ee.tie && ptag.irq || ptag.id = tagEND }
    stadr :=
      if ptag.id = tagCNTS ∧ s.stallSif0 then madr + .ofNat (ptag.qwc * 16) else s.stadr
    received := s.received + 1 }

def processIOPTag (s : State) : State :=
  let offset := iopPhysMem s.iop.tadr
  let data := iopMem offset
  -- rounded up to four words
  let words := (iopMem (offset + 4) + 3) &&& 0xfffffffc
  let tag : DmaTag := ⟨data⟩
  { s with
    fifo := (s.fifo.write fifoSifW
      (iopWords iopMem (iopPhysMem (s.iop.tadr + 8)) 2)).bump fifoSifW 2
    iop := { s.iop with
      tadr := s.iop.tadr + 16
      madr := data &&& 0xffffff
      counter := (words &&& 0xffffc).toNat
      ended := s.iop.ended || tag.irq || tag.id / 4 = 1 }
    sent := s.sent + 1 }

def endEE (s : State) : State :=
  let cycles := if s.ee.cycles = 0 then 1 else s.ee.cycles
  { s with ee := { s.ee with
      ended := false, busy := false, cycles, interrupt := some (cycles * bias) } }

def endIOP (s : State) : State :=
  let cycles := if s.iop.cycles = 0 then 1 else s.iop.cycles
  { s with iop := { s.iop with ended := false, busy := false, cycles, interrupt := some cycles } }

/-- Something is left to write, as far as the queue holds it. -/
def continueEE (s : State) : State :=
  if 0 < s.ee.qwc ∧ 0 < s.fifo.size then writeFifoToEE s else s

def handleEETransfer (s : State) : State :=
  if s.ee.str = false then { s with ee := { s.ee with ended := false, busy := false } }
  else if s.ee.qwc = 0 then
    if s.ee.normalMode || s.ee.ended then continueEE (endEE s)
    else if 4 ≤ s.fifo.size then continueEE (processEETag s)
    else continueEE s
  else continueEE s

def handleIOPTransfer (s : State) : State :=
  if s.iop.counter ≤ 0 then
    if s.iop.ended then endIOP s else processIOPTag iopMem s
  else if 0 < s.fifo.free fifoSifW then writeIOPtoFifo iopMem s
  else s

def iopCanRun (s : State) : Bool :=
  s.iop.busy && (0 < s.fifo.free fifoSifW || s.iop.ended && s.iop.counter = 0)

def eeCanRun (s : State) : Bool :=
  s.ee.busy && (4 ≤ s.fifo.size || s.ee.ended && s.ee.qwc = 0)

def runIOP (s : State) : State := if iopCanRun s then handleIOPTransfer iopMem s else s

def runEE (s : State) : State := if eeCanRun s then handleEETransfer s else s

/-- One pass of the loop of `SIF0Dma`. -/
def round (s : State) : State := runEE (runIOP iopMem s)

def busyCheck (s : State) : Bool := iopCanRun s || eeCanRun (runIOP iopMem s)

/-- The loop of `SIF0Dma`, with fuel. -/
def sif0Loop : Nat → State → Option State
  | 0, _ => none
  | fuel + 1, s =>
    if busyCheck iopMem s then sif0Loop fuel (round iopMem s) else some (round iopMem s)

def sif0Init (s : State) : State :=
  { s with ee := { s.ee with cycles := 0 }, iop := { s.iop with cycles := 0 } }

def sif0Dma (fuel : Nat) (s : State) : Option State := sif0Loop iopMem fuel (sif0Init s)

def startEE (s : State) : State := { s with ee := { s.ee with busy := true, ended := false } }

def dmaSIF0 (fuel : Nat) (s : State) : Option State := sif0Dma iopMem fuel (startEE s)

def startIOP (s : State) : State := { s with iop := { s.iop with busy := true, ended := false } }

def psxDma9 (fuel : Nat) (s : State) : Option State := sif0Dma iopMem fuel (startIOP s)

def eesif0Interrupt (s : State) : State :=
  { s with ee := { s.ee with str := false, interrupt := none } }

end OmegaRed.Sif.Sif0

/-! Chains of blocks for SIF0, the words they put into the queue and the memory they leave. -/

namespace OmegaRed.Sif.Sif0

open Lib Lib.Memory Lib.Masks

/-- `n` tags in the IOP's memory, at the addresses `tags`; `tie` is the EE channel's TIE bit. -/
structure Chain where
  iopMem : Nat → UInt32
  tags : Nat → UInt32
  n : Nat
  tie : Bool

namespace Chain

variable (c : Chain) (i : Nat)

def data : UInt32 := c.iopMem (iopPhysMem (c.tags i))

def words : UInt32 := c.iopMem (iopPhysMem (c.tags i) + 4)

def lo : UInt32 := c.iopMem (iopPhysMem (c.tags i) + 8)

def hi : UInt32 := c.iopMem (iopPhysMem (c.tags i) + 12)

def source : UInt32 := c.data i &&& 0xffffff

/-- The words sent for tag `i`: its own, rounded up to quadwords. -/
def count : Nat := (((c.words i + 3) &&& 0xfffffffc) &&& 0xffffc).toNat

def block : List UInt32 := iopWords c.iopMem (iopPhysMem (c.source i)) (c.count i)

def qwc : Nat := (DmaTag.mk (c.lo i)).qwc

/-- The tag stops the IOP's side. -/
def iopEnds : Bool := (DmaTag.mk (c.data i)).irq || (DmaTag.mk (c.data i)).id / 4 = 1

/-- The tag stops the EE's side. -/
def eeEnds : Bool := c.tie && (DmaTag.mk (c.lo i)).irq || (DmaTag.mk (c.lo i)).id = tagEND

/-- The tags of one start follow one another, and the last tag stops the IOP's side. -/
structure Linked : Prop where
  next : ∀ i, i + 1 < c.n → c.iopEnds i = false → c.tags (i + 1) = c.tags i + 16
  last : ∀ i, i + 1 = c.n → c.iopEnds i = true

/-- Every tag tells the EE the size of its block, and the last one stops the EE's side. -/
structure Matched : Prop where
  tagInMem : ∀ i < c.n, InIopMem (c.tags i) 4
  words_le : ∀ i < c.n, (c.words i).toNat ≤ 0xffffc
  qwc_eq : ∀ i < c.n, c.qwc i = ((c.words i).toNat + 3) / 4
  last : ∀ i, i + 1 = c.n → c.eeEnds i = true

/-- Every block lies in the IOP's memory and goes to the main memory or to the scratchpad. -/
structure Placed : Prop where
  source : ∀ i < c.n, InIopMem (c.source i) (c.count i)
  dest : ∀ i < c.n, c.qwc i = 0 ∨ InMain (c.hi i) (c.qwc i) ∨ InScratch (c.hi i) (c.qwc i)

/-- The EE's memory after the first blocks. -/
def delivered (mem : Nat → UInt32) : Nat → Nat → UInt32
  | 0 => mem
  | i + 1 => store (delivered mem i) (destBase (c.hi i)) (c.block i)

theorem count_eq : c.count i = ((c.words i).toNat + 3) % 2 ^ 32 / 4 % 2 ^ 18 * 4 := by
  have hmask : (0xfffffffc &&& 0xffffc : UInt32) = 0xffffc := by decide
  rw [count, UInt32.and_assoc, hmask, UInt32.toNat_and]
  exact (and_field _ 2 18).trans (by rw [UInt32.toNat_add]; rfl)

theorem count_mod : c.count i % 4 = 0 := by
  rw [count_eq]
  exact Nat.mul_mod_left _ 4

@[simp] theorem length_block : (c.block i).length = c.count i := by simp [block]

variable {c}

theorem Matched.count_eq_qwc (h : c.Matched) {i : Nat} (hi : i < c.n) :
    c.count i = 4 * c.qwc i := by
  have hle := h.words_le i hi
  rw [count_eq, h.qwc_eq i hi]
  omega

theorem Placed.resolves (h : c.Placed) {i : Nat} (hi : i < c.n) :
    Resolves (c.hi i) (c.qwc i) (destBase (c.hi i)) := by
  rcases h.dest i hi with hzero | hmain | hscratch
  · rw [hzero]
    intro k hk
    exact absurd hk (Nat.not_lt_zero k)
  · exact hmain.resolves
  · exact hscratch.resolves

end Chain

/-- The words `w` are what the tags from `i` up to `j` put into the queue. -/
inductive Spells (c : Chain) : Nat → Nat → List UInt32 → Prop
  | nil (i : Nat) : Spells c i i []
  | cons {i j : Nat} {w : List UInt32} (x y : UInt32) (_ : Spells c (i + 1) j w) :
      Spells c i j (c.lo i :: c.hi i :: x :: y :: (c.block i ++ w))

namespace Spells

variable {c : Chain} {i j : Nat} {w : List UInt32}

theorem le (h : Spells c i j w) : i ≤ j := by
  induction h with
  | nil i => exact Nat.le_refl i
  | cons x y _ ih => exact Nat.le_of_succ_le ih

theorem snoc (h : Spells c i j w) (x y : UInt32) :
    Spells c i (j + 1) (w ++ (c.lo j :: c.hi j :: x :: y :: c.block j)) := by
  induction h with
  | nil i =>
    have hcons := Spells.cons x y (Spells.nil (c := c) (i + 1))
    rwa [List.append_nil] at hcons
  | cons x' y' _ ih =>
    have hcons := Spells.cons x' y' ih
    rwa [← List.append_assoc] at hcons

theorem eq_of_length (h : Spells c i j w) (hw : w.length < 4) : i = j ∧ w = [] := by
  cases h with
  | nil => exact ⟨rfl, rfl⟩
  | cons x y h =>
    simp only [List.length_cons] at hw
    omega

theorem uncons (h : Spells c i j w) (hw : w ≠ []) : ∃ x y rest,
    w = c.lo i :: c.hi i :: x :: y :: (c.block i ++ rest) ∧ Spells c (i + 1) j rest := by
  cases h with
  | nil => exact absurd rfl hw
  | cons x y h => exact ⟨x, y, _, rfl, h⟩

theorem self (h : Spells c i i w) : w = [] := by
  cases h with
  | nil => rfl
  | cons x y h => exact absurd h.le (Nat.not_succ_le_self i)

end Spells

end OmegaRed.Sif.Sif0

/-! What one pass of the loop of SIF0 does, move by move. -/

namespace OmegaRed.Sif.Sif0

open Lib Relation

inductive Move (iopMem : Nat → UInt32) (s : State) : State → Prop
  | endIOP (hbusy : s.iop.busy = true) (hcounter : s.iop.counter ≤ 0)
      (hended : s.iop.ended = true) : Move iopMem s (endIOP s)
  | tagIOP (hbusy : s.iop.busy = true) (hcounter : s.iop.counter ≤ 0)
      (hended : s.iop.ended = false) (hfree : 0 < s.fifo.free fifoSifW) :
      Move iopMem s (processIOPTag iopMem s)
  | writeIOP (hbusy : s.iop.busy = true) (hcounter : 0 < s.iop.counter)
      (hfree : 0 < s.fifo.free fifoSifW) : Move iopMem s (writeIOPtoFifo iopMem s)
  | stopEE (hbusy : s.ee.busy = true) (hstr : s.ee.str = false) :
      Move iopMem s { s with ee := { s.ee with ended := false, busy := false } }
  | endEE (hbusy : s.ee.busy = true) (hstr : s.ee.str = true) (hqwc : s.ee.qwc = 0)
      (hended : s.ee.normalMode = true ∨ s.ee.ended = true) : Move iopMem s (endEE s)
  | tagEE (hbusy : s.ee.busy = true) (hstr : s.ee.str = true) (hqwc : s.ee.qwc = 0)
      (hmode : s.ee.normalMode = false) (hended : s.ee.ended = false)
      (hsize : 4 ≤ s.fifo.size) : Move iopMem s (processEETag s)
  | writeEE (hbusy : s.ee.busy = true) (hstr : s.ee.str = true) (hqwc : 0 < s.ee.qwc)
      (hsize : 0 < s.fifo.size) : Move iopMem s (writeFifoToEE s)

variable {iopMem : Nat → UInt32} {s : State}

theorem move_runIOP (h : iopCanRun s = true) : Move iopMem s (runIOP iopMem s) := by
  rw [runIOP, if_pos h]
  simp only [iopCanRun, Bool.and_eq_true, Bool.or_eq_true, decide_eq_true_eq] at h
  obtain ⟨hbusy, hrun⟩ := h
  rw [handleIOPTransfer]
  by_cases hcounter : s.iop.counter ≤ 0
  · rw [if_pos hcounter]
    cases hended : s.iop.ended with
    | true => exact .endIOP hbusy hcounter hended
    | false =>
      rw [hended] at hrun
      exact .tagIOP hbusy hcounter hended (by simpa using hrun)
  · have hfree : 0 < s.fifo.free fifoSifW := by
      rcases hrun with hfree | ⟨_, hzero⟩
      · exact hfree
      · omega
    rw [if_neg hcounter, if_pos hfree]
    exact .writeIOP hbusy (by omega) hfree

theorem moves_continueEE (hbusy : s.ee.busy = true) (hstr : s.ee.str = true) :
    ReflTransGen (Move iopMem) s (continueEE s) := by
  rw [continueEE]
  split
  · rename_i h
    exact .single (.writeEE hbusy hstr h.1 h.2)
  · exact .refl

theorem moves_runEE (h : eeCanRun s = true) : TransGen (Move iopMem) s (runEE s) := by
  rw [runEE, if_pos h]
  simp only [eeCanRun, Bool.and_eq_true, Bool.or_eq_true, decide_eq_true_eq] at h
  obtain ⟨hbusy, hrun⟩ := h
  rw [handleEETransfer]
  cases hstr : s.ee.str with
  | false => exact .single (.stopEE hbusy hstr)
  | true =>
    rw [if_neg Bool.false_ne_true.symm]
    by_cases hqwc : s.ee.qwc = 0
    · rw [if_pos hqwc]
      by_cases hended : s.ee.normalMode = true ∨ s.ee.ended = true
      · have hstays : continueEE (endEE s) = endEE s := by simp [continueEE, endEE, hqwc]
        rw [if_pos (by simpa using hended), hstays]
        exact .single (.endEE hbusy hstr hqwc hended)
      · simp only [not_or, Bool.not_eq_true] at hended
        have hsize : 4 ≤ s.fifo.size := by simpa [hended.2] using hrun
        rw [if_neg (by simp [hended]), if_pos hsize]
        exact .head' (.tagEE hbusy hstr hqwc hended.1 hended.2 hsize) (moves_continueEE hbusy hstr)
    · have hsize : 4 ≤ s.fifo.size := by simpa [hqwc] using hrun
      rw [if_neg hqwc, continueEE, if_pos ⟨by omega, by omega⟩]
      exact .single (.writeEE hbusy hstr (by omega) (by omega))

theorem moves_round : ReflTransGen (Move iopMem) s (round iopMem s) := by
  have hiop : ReflTransGen (Move iopMem) s (runIOP iopMem s) := by
    cases h : iopCanRun s with
    | true => exact .single (move_runIOP h)
    | false => rw [runIOP, h]; exact .refl
  have hee : ReflTransGen (Move iopMem) (runIOP iopMem s) (round iopMem s) := by
    cases h : eeCanRun (runIOP iopMem s) with
    | true => exact (moves_runEE h).to_reflTransGen
    | false => rw [round, runEE, h]; exact .refl
  exact hiop.trans hee

theorem moves_round_of_busy (h : busyCheck iopMem s = true) :
    TransGen (Move iopMem) s (round iopMem s) := by
  cases hiop : iopCanRun s with
  | true =>
    refine .head' (move_runIOP hiop) ?_
    cases hee : eeCanRun (runIOP iopMem s) with
    | true => exact (moves_runEE hee).to_reflTransGen
    | false => rw [round, runEE, hee]; exact .refl
  | false =>
    have hstays : runIOP iopMem s = s := by rw [runIOP, hiop]; rfl
    rw [busyCheck, hiop, hstays, Bool.false_or] at h
    rw [round, hstays]
    exact moves_runEE h

theorem round_of_not_busy (h : busyCheck iopMem s = false) :
    round iopMem s = s ∧ iopCanRun s = false ∧ eeCanRun s = false := by
  rw [busyCheck, Bool.or_eq_false_iff] at h
  have hstays : runIOP iopMem s = s := by rw [runIOP, h.1]; rfl
  rw [hstays] at h
  refine ⟨?_, h⟩
  rw [round, hstays, runEE, h.2]
  rfl

end OmegaRed.Sif.Sif0
