import OmegaRed.Lib.Halves
import Mathlib.Logic.Function.Basic

/-! The R5900 interpreter's integer instructions. -/

namespace OmegaRed.R5900

open Lib.Halves

scoped instance neZero_words : NeZero 2 := ⟨by decide⟩
scoped instance neZero_dwords : NeZero 4 := ⟨by decide⟩
scoped instance neZero_gpr : NeZero 32 := ⟨by decide⟩

/-- The instruction register and its fields. -/
structure Code where
  bits : BitVec 32
  deriving DecidableEq, Repr

namespace Code

def Rs (c : Code) : Fin 32 := .ofNat 32 (c.bits >>> 21).toNat
def Rt (c : Code) : Fin 32 := .ofNat 32 (c.bits >>> 16).toNat
def Rd (c : Code) : Fin 32 := .ofNat 32 (c.bits >>> 11).toNat
def Sa (c : Code) : Fin 32 := .ofNat 32 (c.bits >>> 6).toNat

/-- The immediate, an `s16`. -/
def Imm (c : Code) : BitVec 16 := c.bits.setWidth 16
def ImmU (c : Code) : BitVec 32 := c.bits &&& 0xffff

end Code

/-- The registers, as pairs of 64-bit words `UD`. -/
structure CpuRegs where
  GPR : Fin 32 → Fin 2 → BitVec 64
  LO : Fin 2 → BitVec 64
  HI : Fin 2 → BitVec 64

/-- The registers left, or the code passed to `cpuException`. -/
abbrev Result := Except (BitVec 32) CpuRegs

namespace CpuRegs

variable (s : CpuRegs)

def UD (r : Fin 32) : BitVec 64 := s.GPR r 0
def UL (r : Fin 32) : BitVec 32 := lo (s.GPR r 0)

/-- Assigns the low half of a register, unless it is `r0`. -/
def put (r : Fin 32) (v : BitVec 64) : CpuRegs :=
  if r = 0 then s else { s with GPR := Function.update s.GPR r (Function.update (s.GPR r) 0 v) }

/-- Assigns the halves `i` of `LO` and `HI`. -/
def putHILO (i : Fin 2) (l h : BitVec 64) : CpuRegs :=
  { s with LO := Function.update s.LO i l, HI := Function.update s.HI i h }

end CpuRegs

def add64Overflow (x y : BitVec 64) : Except (BitVec 32) (BitVec 64) :=
  let result := x + y
  if (~~~(x ^^^ y) &&& (x ^^^ result)).slt 0 then .error 0x30 else .ok result

/-- Overflow when bit 32 of the 64-bit sum differs from bit 31. -/
def add32Overflow (x y : BitVec 32) : Except (BitVec 32) (BitVec 64) :=
  let result : BitVec 64 := x.signExtend 64 + y.signExtend 64
  if lo result >>> 31 ≠ hi result &&& 1 then .error 0x30 else .ok result

section Interpreter

variable (c : Code) (s : CpuRegs)

def ADDI : Result :=
  (add32Overflow (s.UL c.Rs) (c.Imm.signExtend 32)).map (s.put c.Rt)

def ADDIU : Result :=
  .ok (s.put c.Rt ((s.UL c.Rs + c.Imm.signExtend 32).signExtend 64))

def DADDI : Result :=
  (add64Overflow (s.UD c.Rs) (c.Imm.signExtend 64)).map (s.put c.Rt)

def DADDIU : Result := .ok (s.put c.Rt (s.UD c.Rs + c.Imm.signExtend 64))

def ANDI : Result := .ok (s.put c.Rt (s.UD c.Rs &&& c.ImmU.setWidth 64))
def ORI : Result := .ok (s.put c.Rt (s.UD c.Rs ||| c.ImmU.setWidth 64))
def XORI : Result := .ok (s.put c.Rt (s.UD c.Rs ^^^ c.ImmU.setWidth 64))

def SLTI : Result :=
  .ok (s.put c.Rt (if (s.UD c.Rs).slt (c.Imm.signExtend 64) then 1 else 0))

def SLTIU : Result :=
  .ok (s.put c.Rt (if (s.UD c.Rs).ult (c.Imm.signExtend 64) then 1 else 0))

def ADD : Result := (add32Overflow (s.UL c.Rs) (s.UL c.Rt)).map (s.put c.Rd)
def DADD : Result := (add64Overflow (s.UD c.Rs) (s.UD c.Rt)).map (s.put c.Rd)

-- the 64-bit negation is passed on, truncated to 32 bits
def SUB : Result := (add32Overflow (s.UL c.Rs) (lo (-s.UD c.Rt))).map (s.put c.Rd)
def DSUB : Result := (add64Overflow (s.UD c.Rs) (-s.UD c.Rt)).map (s.put c.Rd)

def ADDU : Result := .ok (s.put c.Rd ((s.UL c.Rs + s.UL c.Rt).signExtend 64))
def DADDU : Result := .ok (s.put c.Rd (s.UD c.Rs + s.UD c.Rt))
def SUBU : Result := .ok (s.put c.Rd ((s.UL c.Rs - s.UL c.Rt).signExtend 64))
def DSUBU : Result := .ok (s.put c.Rd (s.UD c.Rs - s.UD c.Rt))
def AND : Result := .ok (s.put c.Rd (s.UD c.Rs &&& s.UD c.Rt))
def OR : Result := .ok (s.put c.Rd (s.UD c.Rs ||| s.UD c.Rt))
def XOR : Result := .ok (s.put c.Rd (s.UD c.Rs ^^^ s.UD c.Rt))
def NOR : Result := .ok (s.put c.Rd (~~~(s.UD c.Rs ||| s.UD c.Rt)))
def SLT : Result := .ok (s.put c.Rd (if (s.UD c.Rs).slt (s.UD c.Rt) then 1 else 0))
def SLTU : Result := .ok (s.put c.Rd (if (s.UD c.Rs).ult (s.UD c.Rt) then 1 else 0))

/-- `DIV` and `DIV1`, on the halves `i` of `LO` and `HI`. -/
def div (i : Fin 2) : Result :=
  let rs := s.UL c.Rs
  let rt := s.UL c.Rt
  if rs = 0x80000000#32 ∧ rt = 0xffffffff#32 then
    .ok (s.putHILO i ((0x80000000#32).signExtend 64) 0)
  else if rt ≠ 0#32 then
    .ok (s.putHILO i ((rs.sdiv rt).signExtend 64) ((rs.srem rt).signExtend 64))
  else .ok (s.putHILO i (if rs.slt 0#32 then 1 else -1) (rs.signExtend 64))

def DIV : Result := div c s 0
def DIV1 : Result := div c s 1

def divu (i : Fin 2) : Result :=
  let rs := s.UL c.Rs
  let rt := s.UL c.Rt
  if rt ≠ 0#32 then .ok (s.putHILO i ((rs / rt).signExtend 64) ((rs % rt).signExtend 64))
  else .ok (s.putHILO i (-1) (rs.signExtend 64))

def DIVU : Result := divu c s 0
def DIVU1 : Result := divu c s 1

/-- The halves of `res`, each sign-extended, go to `LO` and `HI`, the low one to `rd` too. -/
def CpuRegs.putProduct (i : Fin 2) (res : BitVec 64) : CpuRegs :=
  (s.putHILO i ((lo res).signExtend 64) ((hi res).signExtend 64)).put c.Rd
    ((lo res).signExtend 64)

def MULT : Result := .ok (s.putProduct c 0 (signedProduct (s.UL c.Rs) (s.UL c.Rt)))
def MULT1 : Result := .ok (s.putProduct c 1 (signedProduct (s.UL c.Rs) (s.UL c.Rt)))
def MULTU : Result := .ok (s.putProduct c 0 (unsignedProduct (s.UL c.Rs) (s.UL c.Rt)))
def MULTU1 : Result := .ok (s.putProduct c 1 (unsignedProduct (s.UL c.Rs) (s.UL c.Rt)))

/-- The accumulator: the low words of the halves `i` of `HI` and `LO`. -/
def CpuRegs.acc (i : Fin 2) : BitVec 64 := join (lo (s.HI i)) (lo (s.LO i))

def MADD : Result := .ok (s.putProduct c 0 (s.acc 0 + signedProduct (s.UL c.Rs) (s.UL c.Rt)))
def MADD1 : Result := .ok (s.putProduct c 1 (s.acc 1 + signedProduct (s.UL c.Rs) (s.UL c.Rt)))
def MADDU : Result := .ok (s.putProduct c 0 (s.acc 0 + unsignedProduct (s.UL c.Rs) (s.UL c.Rt)))
def MADDU1 : Result := .ok (s.putProduct c 1 (s.acc 1 + unsignedProduct (s.UL c.Rs) (s.UL c.Rt)))

def SRA : Result := .ok (s.put c.Rd (((s.UL c.Rt).sshiftRight c.Sa.val).signExtend 64))
def SRL : Result := .ok (s.put c.Rd ((s.UL c.Rt >>> c.Sa.val).signExtend 64))
def SLL : Result := .ok (s.put c.Rd ((s.UL c.Rt <<< c.Sa.val).signExtend 64))
def DSLL : Result := .ok (s.put c.Rd (s.UD c.Rt <<< c.Sa.val))
def DSLL32 : Result := .ok (s.put c.Rd (s.UD c.Rt <<< (c.Sa.val + 32)))
def DSRA : Result := .ok (s.put c.Rd ((s.UD c.Rt).sshiftRight c.Sa.val))
def DSRA32 : Result := .ok (s.put c.Rd ((s.UD c.Rt).sshiftRight (c.Sa.val + 32)))
def DSRL : Result := .ok (s.put c.Rd (s.UD c.Rt >>> c.Sa.val))
def DSRL32 : Result := .ok (s.put c.Rd (s.UD c.Rt >>> (c.Sa.val + 32)))

/-- The counts of the variable shifts. -/
def sa5 (v : BitVec 64) : Nat := (lo v &&& 0x1f).toNat
def sa6 (v : BitVec 64) : Nat := (lo v &&& 0x3f).toNat

def SLLV : Result := .ok (s.put c.Rd ((s.UL c.Rt <<< sa5 (s.UD c.Rs)).signExtend 64))
def SRAV : Result := .ok (s.put c.Rd (((s.UL c.Rt).sshiftRight (sa5 (s.UD c.Rs))).signExtend 64))
def SRLV : Result := .ok (s.put c.Rd ((s.UL c.Rt >>> sa5 (s.UD c.Rs)).signExtend 64))
def DSLLV : Result := .ok (s.put c.Rd (s.UD c.Rt <<< sa6 (s.UD c.Rs)))
def DSRAV : Result := .ok (s.put c.Rd ((s.UD c.Rt).sshiftRight (sa6 (s.UD c.Rs))))
def DSRLV : Result := .ok (s.put c.Rd (s.UD c.Rt >>> sa6 (s.UD c.Rs)))

end Interpreter

inductive Op
  | ADDI | ADDIU | DADDI | DADDIU | ANDI | ORI | XORI | SLTI | SLTIU
  | ADD | ADDU | DADD | DADDU | SUB | SUBU | DSUB | DSUBU
  | AND | OR | XOR | NOR | SLT | SLTU
  | DIV | DIV1 | DIVU | DIVU1 | MULT | MULT1 | MULTU | MULTU1
  | MADD | MADD1 | MADDU | MADDU1
  | SRA | SRL | SLL | DSLL | DSLL32 | DSRA | DSRA32 | DSRL | DSRL32
  | SLLV | SRAV | SRLV | DSLLV | DSRAV | DSRLV
  deriving DecidableEq, Repr

/-- The interpreter's function for an instruction. -/
def Op.interpret : Op → Code → CpuRegs → Result
  | ADDI => R5900.ADDI
  | ADDIU => R5900.ADDIU
  | DADDI => R5900.DADDI
  | DADDIU => R5900.DADDIU
  | ANDI => R5900.ANDI
  | ORI => R5900.ORI
  | XORI => R5900.XORI
  | SLTI => R5900.SLTI
  | SLTIU => R5900.SLTIU
  | ADD => R5900.ADD
  | ADDU => R5900.ADDU
  | DADD => R5900.DADD
  | DADDU => R5900.DADDU
  | SUB => R5900.SUB
  | SUBU => R5900.SUBU
  | DSUB => R5900.DSUB
  | DSUBU => R5900.DSUBU
  | AND => R5900.AND
  | OR => R5900.OR
  | XOR => R5900.XOR
  | NOR => R5900.NOR
  | SLT => R5900.SLT
  | SLTU => R5900.SLTU
  | DIV => R5900.DIV
  | DIV1 => R5900.DIV1
  | DIVU => R5900.DIVU
  | DIVU1 => R5900.DIVU1
  | MULT => R5900.MULT
  | MULT1 => R5900.MULT1
  | MULTU => R5900.MULTU
  | MULTU1 => R5900.MULTU1
  | MADD => R5900.MADD
  | MADD1 => R5900.MADD1
  | MADDU => R5900.MADDU
  | MADDU1 => R5900.MADDU1
  | SRA => R5900.SRA
  | SRL => R5900.SRL
  | SLL => R5900.SLL
  | DSLL => R5900.DSLL
  | DSLL32 => R5900.DSLL32
  | DSRA => R5900.DSRA
  | DSRA32 => R5900.DSRA32
  | DSRL => R5900.DSRL
  | DSRL32 => R5900.DSRL32
  | SLLV => R5900.SLLV
  | SRAV => R5900.SRAV
  | SRLV => R5900.SRLV
  | DSLLV => R5900.DSLLV
  | DSRAV => R5900.DSRAV
  | DSRLV => R5900.DSRLV

end OmegaRed.R5900
