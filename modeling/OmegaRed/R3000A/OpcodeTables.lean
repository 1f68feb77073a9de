import OmegaRed.Lib.Halves
import Mathlib.Logic.Function.Basic

/-! The R3000A interpreter's arithmetic instructions and `HI`/`LO` moves. -/

namespace OmegaRed.R3000A

open Lib.Halves

scoped instance neZero_gpr : NeZero 32 := ⟨by decide⟩

/-- The instruction register and its fields. -/
structure Code where
  bits : BitVec 32
  deriving DecidableEq, Repr

namespace Code

def Rs (c : Code) : Fin 32 := .ofNat 32 (c.bits >>> 21).toNat
def Rt (c : Code) : Fin 32 := .ofNat 32 (c.bits >>> 16).toNat
def Rd (c : Code) : Fin 32 := .ofNat 32 (c.bits >>> 11).toNat
def Sa (c : Code) : Fin 32 := .ofNat 32 (c.bits >>> 6).toNat

/-- The immediate, sign- and zero-extended. -/
def Imm (c : Code) : BitVec 32 := (c.bits.setWidth 16).signExtend 32
def ImmU (c : Code) : BitVec 32 := c.bits &&& 0xffff

end Code

structure PsxRegs where
  r : Fin 32 → BitVec 32
  hi : BitVec 32
  lo : BitVec 32

/-- Assigns a register, unless it is `r0`. -/
def PsxRegs.put (s : PsxRegs) (x : Fin 32) (v : BitVec 32) : PsxRegs :=
  if x = 0 then s else { s with r := Function.update s.r x v }

def truth (b : Bool) : BitVec 32 := if b then 1 else 0

section Interpreter

variable (c : Code) (s : PsxRegs)

def psxADDI : PsxRegs := s.put c.Rt (s.r c.Rs + c.Imm)
def psxADDIU : PsxRegs := s.put c.Rt (s.r c.Rs + c.Imm)
def psxANDI : PsxRegs := s.put c.Rt (s.r c.Rs &&& c.ImmU)
def psxORI : PsxRegs := s.put c.Rt (s.r c.Rs ||| c.ImmU)
def psxXORI : PsxRegs := s.put c.Rt (s.r c.Rs ^^^ c.ImmU)
def psxSLTI : PsxRegs := s.put c.Rt (truth ((s.r c.Rs).slt c.Imm))
def psxSLTIU : PsxRegs := s.put c.Rt (truth ((s.r c.Rs).ult c.Imm))

def psxADD : PsxRegs := s.put c.Rd (s.r c.Rs + s.r c.Rt)
def psxADDU : PsxRegs := s.put c.Rd (s.r c.Rs + s.r c.Rt)
def psxSUB : PsxRegs := s.put c.Rd (s.r c.Rs - s.r c.Rt)
def psxSUBU : PsxRegs := s.put c.Rd (s.r c.Rs - s.r c.Rt)
def psxAND : PsxRegs := s.put c.Rd (s.r c.Rs &&& s.r c.Rt)
def psxOR : PsxRegs := s.put c.Rd (s.r c.Rs ||| s.r c.Rt)
def psxXOR : PsxRegs := s.put c.Rd (s.r c.Rs ^^^ s.r c.Rt)
def psxNOR : PsxRegs := s.put c.Rd (~~~(s.r c.Rs ||| s.r c.Rt))
def psxSLT : PsxRegs := s.put c.Rd (truth ((s.r c.Rs).slt (s.r c.Rt)))
def psxSLTU : PsxRegs := s.put c.Rd (truth ((s.r c.Rs).ult (s.r c.Rt)))

def psxDIV : PsxRegs :=
  if s.r c.Rt = 0#32 then
    { s with lo := if (s.r c.Rs).slt 0#32 then 1#32 else 0xffffffff#32, hi := s.r c.Rs }
  else if s.r c.Rs = 0x80000000#32 ∧ s.r c.Rt = 0xffffffff#32 then
    { s with lo := 0x80000000#32, hi := 0#32 }
  else { s with lo := (s.r c.Rs).sdiv (s.r c.Rt), hi := (s.r c.Rs).srem (s.r c.Rt) }

def psxDIVU : PsxRegs :=
  if s.r c.Rt = 0#32 then { s with lo := 0xffffffff#32, hi := s.r c.Rs }
  else { s with lo := s.r c.Rs / s.r c.Rt, hi := s.r c.Rs % s.r c.Rt }

def psxMULT : PsxRegs :=
  let res := signedProduct (s.r c.Rs) (s.r c.Rt)
  { s with lo := lo res, hi := hi res }

def psxMULTU : PsxRegs :=
  let res := unsignedProduct (s.r c.Rs) (s.r c.Rt)
  { s with lo := lo res, hi := hi res }

def psxSLL : PsxRegs := s.put c.Rd (s.r c.Rt <<< c.Sa.val)
def psxSRA : PsxRegs := s.put c.Rd ((s.r c.Rt).sshiftRight c.Sa.val)
def psxSRL : PsxRegs := s.put c.Rd (s.r c.Rt >>> c.Sa.val)

/-- A shift count, of which the processor takes five bits. -/
def shiftCount (v : BitVec 32) : Nat := v.toNat % 32

def psxSLLV : PsxRegs := s.put c.Rd (s.r c.Rt <<< shiftCount (s.r c.Rs))
def psxSRAV : PsxRegs := s.put c.Rd ((s.r c.Rt).sshiftRight (shiftCount (s.r c.Rs)))
def psxSRLV : PsxRegs := s.put c.Rd (s.r c.Rt >>> shiftCount (s.r c.Rs))

def psxLUI : PsxRegs := s.put c.Rt (c.bits <<< 16)

def psxMFHI : PsxRegs := s.put c.Rd s.hi
def psxMFLO : PsxRegs := s.put c.Rd s.lo
def psxMTHI : PsxRegs := { s with hi := s.r c.Rs }
def psxMTLO : PsxRegs := { s with lo := s.r c.Rs }

end Interpreter

inductive Op
  | ADDI | ADDIU | ANDI | ORI | XORI | SLTI | SLTIU
  | ADD | ADDU | SUB | SUBU | AND | OR | XOR | NOR | SLT | SLTU
  | DIV | DIVU | MULT | MULTU
  | SLL | SRA | SRL | SLLV | SRAV | SRLV
  | LUI | MFHI | MFLO | MTHI | MTLO
  deriving DecidableEq, Repr

/-- The interpreter's function for an instruction. -/
def Op.interpret : Op → Code → PsxRegs → PsxRegs
  | ADDI => psxADDI
  | ADDIU => psxADDIU
  | ANDI => psxANDI
  | ORI => psxORI
  | XORI => psxXORI
  | SLTI => psxSLTI
  | SLTIU => psxSLTIU
  | ADD => psxADD
  | ADDU => psxADDU
  | SUB => psxSUB
  | SUBU => psxSUBU
  | AND => psxAND
  | OR => psxOR
  | XOR => psxXOR
  | NOR => psxNOR
  | SLT => psxSLT
  | SLTU => psxSLTU
  | DIV => psxDIV
  | DIVU => psxDIVU
  | MULT => psxMULT
  | MULTU => psxMULTU
  | SLL => psxSLL
  | SRA => psxSRA
  | SRL => psxSRL
  | SLLV => psxSLLV
  | SRAV => psxSRAV
  | SRLV => psxSRLV
  | LUI => psxLUI
  | MFHI => psxMFHI
  | MFLO => psxMFLO
  | MTHI => psxMTHI
  | MTLO => psxMTLO

end OmegaRed.R3000A
