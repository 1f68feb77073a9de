import Mathlib.Data.BitVec
import Mathlib.Data.Fin.Basic
import OmegaRed.Lib.Traces

/-! The registers of COP0 that count cycles: `Count` with `Compare`, and the performance
counters. -/

namespace OmegaRed.Cop0

instance neZero_pcrs : NeZero 2 := ⟨by decide⟩

/-- `cpuRegs`, as far as the counters depend on it. -/
structure Regs where
  cycle : BitVec 32
  Count : BitVec 32
  Compare : BitVec 32
  Status : BitVec 32
  pccr : BitVec 32
  pcr : Fin 2 → BitVec 32
  s_iLastCOP0Cycle : BitVec 32
  s_iLastPERFCycle : Fin 2 → BitVec 32

/-- `Event0` and `Event1` -/
def perfEvent (pccr : BitVec 32) (i : Fin 2) : Nat := (pccr.extractLsb' (5 + 10 * i) 5).toNat

/-- `PERF_ShouldCountEvent` -/
def perfShouldCountEvent (evt : Nat) : Bool :=
  match evt with
  | 1 | 2 | 3 => true
  | 12 | 13 | 14 | 15 => true
  | _ => false

/-- The tests of `COP0_UpdatePCCR`: for the first counter the low bits, for the second `U1`. -/
def counted (pccr : BitVec 32) (i : Fin 2) : Bool :=
  (if i = 0 then pccr &&& 0xf != 0 else pccr.getLsbD 14) && perfShouldCountEvent (perfEvent pccr i)

namespace Regs

/-- The cycles since a stamp, never none. -/
def incr (r : Regs) (last : BitVec 32) : BitVec 32 :=
  if r.cycle - last = 0 then 1 else r.cycle - last

def updatePcr (r : Regs) (i : Fin 2) : Regs :=
  if counted r.pccr i then
    { r with
      pcr := Function.update r.pcr i (r.pcr i + r.incr (r.s_iLastPERFCycle i))
      s_iLastPERFCycle := Function.update r.s_iLastPERFCycle i r.cycle }
  else r

/-- `COP0_UpdatePCCR` -/
def updatePCCR (r : Regs) : Regs := (r.updatePcr 0).updatePcr 1

/-- `Count` as a read finds it. -/
def readCount (r : Regs) : Regs :=
  { r with Count := r.Count + r.incr r.s_iLastCOP0Cycle, s_iLastCOP0Cycle := r.cycle }

/-- `MFC0`, with what it leaves in a register other than zero. -/
def mfc0 (r : Regs) (Rd Rt imm : Nat) : Regs × Option (BitVec 32) :=
  if Rd ≠ 9 ∧ Rt = 0 then (r, none)
  else
    match Rd with
    | 9 => (r.readCount, if Rt = 0 then none else some r.readCount.Count)
    | 11 => (r, some r.Compare)
    | 12 => (r, some (r.Status &&& 0xf0c79c1f))
    | 25 =>
      if imm &&& 1 = 0 then (r, some r.pccr)
      else if imm &&& 2 = 0 then (r.updatePCCR, some (r.updatePCCR.pcr 0))
      else (r.updatePCCR, some (r.updatePCCR.pcr 1))
    | _ => (r, none)

/-- `MTC0` -/
def mtc0 (r : Regs) (Rd imm : Nat) (value : BitVec 32) : Regs :=
  match Rd with
  | 9 => { r with Count := value, s_iLastCOP0Cycle := r.cycle }
  | 11 => { r with Compare := value }
  | 12 => { r with Status := value }
  | 25 =>
    if imm &&& 1 = 0 then
      if imm &&& 0x3E ≠ 0 then r else { r.updatePCCR with pccr := value }
    else
      let i : Fin 2 := if imm &&& 2 = 0 then 0 else 1
      { r with
        pcr := Function.update r.pcr i value
        s_iLastPERFCycle := Function.update r.s_iLastPERFCycle i r.cycle }
  | _ => r

/-- What `cpuException` leaves of the status: a reset at error level 2 keeps it. -/
def cpuException (r : Regs) (code : BitVec 32) : Regs :=
  if r.Status.getLsbD 2 ∧ code &&& 0x38000 ≤ 0x8000 then r
  else { r with Status := r.Status ||| 2 }

/-- The interrupt of the timer is enabled. -/
def timerEnabled (r : Regs) : Bool := r.Status.getLsbD 15

/-- `_cpuTestTIMR`, with whether it raises the interrupt. -/
def cpuTestTIMR (r : Regs) : Regs × Bool :=
  let r := { r with
    Count := r.Count + (r.cycle - r.s_iLastCOP0Cycle), s_iLastCOP0Cycle := r.cycle }
  if r.timerEnabled ∧ r.Count ≥ r.Compare ∧ r.Count < r.Compare + 1000 then
    (r.cpuException 0x808000, true)
  else (r, false)

/-- The counters in `_cpuEventTest_Shared`. -/
def cpuEventTest (r : Regs) (countersDue : Bool) : Regs × Bool :=
  (if countersDue then r.updatePCCR else r).cpuTestTIMR

/-- `cpuReset` -/
def reset : Regs := ⟨0, 0, 0, 0x70400004, 0, fun _ => 0, 0, fun _ => 0⟩

end Regs

/-! ## What is expected -/

/-- The bit of `pccr` that enables a counter in the mode of the processor, by the words of
`PERFregs`. -/
def modeBit (Status : BitVec 32) (i : Fin 2) : Option Nat :=
  if Status.getLsbD 2 then none
  else if Status.getLsbD 1 then some (1 + 10 * i)
  else
    match (Status.extractLsb' 3 2).toNat with
    | 0 => some (2 + 10 * i)
    | 1 => some (3 + 10 * i)
    | 2 => some (4 + 10 * i)
    | _ => none

/-- The counter is enabled and selects processor cycles. -/
def Regs.counting (r : Regs) (i : Fin 2) : Bool :=
  r.pccr.getLsbD 31 && (modeBit r.Status i).any r.pccr.getLsbD && perfEvent r.pccr i == 1

/-- A count that goes on by `cycles` passes the value that it is compared with. -/
def passes (count compare cycles : BitVec 32) : Bool := compare - count - 1 < cycles

/-- The registers beside the counts that a program expects, the number of times the count passed
`Compare`, how often since the last test with the interrupt enabled, and the number of
interrupts. -/
structure World where
  regs : Regs
  count : BitVec 32
  pcr : Fin 2 → BitVec 32
  passed : Nat
  owed : Nat
  raised : Nat

inductive Event
  | advance (cycles : BitVec 32)
  | mfc0 (Rd Rt imm : Nat)
  | mtc0 (Rd imm : Nat) (value : BitVec 32)
  | exception (code : BitVec 32)
  | eventTest (countersDue : Bool)

namespace World

def reset : World := ⟨Regs.reset, 0, fun _ => 0, 0, 0, 0⟩

def goOn (w : World) (cycles : BitVec 32) : World :=
  let n := if passes w.count w.regs.Compare cycles then 1 else 0
  { w with count := w.count + cycles, passed := w.passed + n, owed := w.owed + n }

/-- The cycle that a read adds when none went by. -/
def extra (w : World) (last : BitVec 32) : BitVec 32 := if w.regs.cycle = last then 1 else 0

def step (w : World) : Event → World
  | .advance cycles =>
    { w.goOn cycles with
      regs := { w.regs with cycle := w.regs.cycle + cycles }
      pcr := fun i => if w.regs.counting i then w.pcr i + cycles else w.pcr i }
  | .mfc0 Rd Rt imm =>
    let regs := (w.regs.mfc0 Rd Rt imm).1
    if Rd = 9 then { w.goOn (w.extra w.regs.s_iLastCOP0Cycle) with regs := regs }
    else if Rd = 25 ∧ Rt ≠ 0 ∧ imm &&& 1 ≠ 0 then
      { w with
        regs := regs
        pcr := fun i =>
          if counted w.regs.pccr i then w.pcr i + w.extra (w.regs.s_iLastPERFCycle i)
          else w.pcr i }
    else { w with regs := regs }
  | .mtc0 Rd imm value =>
    let regs := w.regs.mtc0 Rd imm value
    if Rd = 9 then { w with regs := regs, count := value }
    else if Rd = 25 ∧ imm &&& 1 ≠ 0 then
      { w with regs := regs, pcr := Function.update w.pcr (if imm &&& 2 = 0 then 0 else 1) value }
    else { w with regs := regs }
  | .exception code => { w with regs := w.regs.cpuException code }
  | .eventTest countersDue =>
    let (regs, fired) := w.regs.cpuEventTest countersDue
    { w with
      regs := regs
      raised := w.raised + fired.toNat
      owed := if w.regs.timerEnabled then 0 else w.owed }

end World

end OmegaRed.Cop0
