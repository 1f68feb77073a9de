import OmegaRed.Lib.ModRm
import Mathlib.Data.PNat.Defs

/-! The address expressions of the x86 emitter, and the bytes it writes for them. -/

namespace OmegaRed.X86

open Lib.ModRm

abbrev u8 := BitVec 8

abbrev s32 := BitVec 32

/-- `none` is `xEmptyReg`. -/
structure xAddressVoid where
  Base : Option Reg
  Index : Option Reg
  Factor : Nat
  Displacement : s32
  deriving DecidableEq

structure xIndirectVoid where
  Base : Option Reg
  Index : Option Reg
  Scale : Nat
  Displacement : s32
  deriving DecidableEq

namespace xAddressVoid

variable (v : xAddressVoid)

/-- `Add(const xAddressReg&)`; `none` is a failed assertion. -/
def AddReg (src : Option Reg) : Option xAddressVoid :=
  if src = v.Index then some { v with Factor := v.Factor + 1 }
  else if src = v.Base then
    -- `src` is not `Index`, which was tested above
    if v.Index = none then some { v with Base := none, Index := src, Factor := 2 } else none
  else if v.Base = none then some { v with Base := src }
  else if v.Index = none then some { v with Index := src }
  else none

def AddImm (imm : s32) : xAddressVoid := { v with Displacement := v.Displacement + imm }

/-- `Add(const xAddressVoid&)` -/
def AddVoid (src : xAddressVoid) : Option xAddressVoid := do
  let v ← v.AddReg src.Base
  let v := v.AddImm src.Displacement
  if src.Factor = 1 then v.AddReg src.Index
  else if v.Index = none then some { v with Index := src.Index, Factor := src.Factor }
  else if v.Index = src.Index then some { v with Factor := v.Factor + src.Factor }
  else none

end xAddressVoid

/-- What the operators build. -/
inductive Expr
  /-- `a + b` -/
  | regReg (a b : Reg)
  /-- `r + d`, and `r - (-d)` -/
  | regImm (r : Reg) (d : s32)
  /-- `r * factor`, and `r << shift` for a power of two -/
  | regMul (r : Reg) (factor : ℕ+)
  /-- `e + r` -/
  | addReg (e : Expr) (r : Reg)
  /-- `e + e'` -/
  | addVoid (e e' : Expr)
  /-- `e + d`, `d + e` and `e - (-d)` -/
  | addImm (e : Expr) (d : s32)

namespace Expr

/-- The operators in C++. -/
def build : Expr → Option xAddressVoid
  | regReg a b => some ⟨some a, some b, 1, 0⟩
  | regImm r d => some ⟨none, some r, 0, d⟩
  | regMul r factor => some ⟨none, some r, factor, 0⟩
  | addReg e r => do
    let v ← e.build
    v.AddReg (some r)
  | addVoid e e' => do
    let v ← e.build
    let src ← e'.build
    v.AddVoid src
  | addImm e d => e.build.map fun v => v.AddImm d

/-- What is written. -/
def value : Expr → Sum
  | regReg a b => ⟨fun r => (if r = a then 1 else 0) + (if r = b then 1 else 0), 0⟩
  | regImm r d => ⟨fun r' => if r' = r then 1 else 0, d⟩
  | regMul r factor => ⟨fun r' => if r' = r then factor else 0, 0⟩
  | addReg e r => ⟨fun r' => e.value.coef r' + (if r' = r then 1 else 0), e.value.disp⟩
  | addVoid e e' => ⟨fun r => e.value.coef r + e'.value.coef r, e.value.disp + e'.value.disp⟩
  | addImm e d => ⟨e.value.coef, e.value.disp + d⟩

end Expr

namespace xIndirectVoid

variable (i : xIndirectVoid)

def ofVoid (src : xAddressVoid) : xIndirectVoid :=
  ⟨src.Base, src.Index, src.Factor, src.Displacement⟩

/-- `none` is a failed assertion. -/
def Reduce : Option xIndirectVoid :=
  if i.Index = some esp then
    if i.Scale = 0 ∧ i.Base = none then some { i with Base := i.Index } else none
  else if i.Index = none then
    some { i with
      Index := i.Base
      Scale := 0
      Base := if i.Base = some esp then i.Base else none }
  else match i.Scale with
  | 0 => some i
  | 1 => some { i with Scale := 0 }
  | 2 => some { i with Scale := 1 }
  | 3 => if i.Base = none then some { i with Base := i.Index, Scale := 1 } else none
  | 4 => some { i with Scale := 2 }
  | 5 => if i.Base = none then some { i with Base := i.Index, Scale := 2 } else none
  | 8 => some { i with Scale := 3 }
  | 9 => if i.Base = none then some { i with Base := i.Index, Scale := 3 } else none
  | _ => none

def NeedsSibMagic : Bool := i.Index != none && (i.Scale != 0 || i.Base != none)

end xIndirectVoid

/-- `(s8)imm == (s32)imm` -/
def is_s8 (imm : s32) : Prop := (imm.setWidth 8).signExtend 32 = imm

instance (imm : s32) : Decidable (is_s8 imm) := inferInstanceAs (Decidable (_ = _))

def displacementSize (d : s32) : Fin 4 := if d = 0 then 0 else if is_s8 d then 1 else 2

def ModRM (mod : Fin 4) (reg rm : Reg) : u8 := pack mod reg rm

def SibSB (ss : Nat) (index base : Reg) : u8 := pack ss index base

/-- The displacement, in so many bytes. -/
def writeDisplacement (size : Fin 4) (d : s32) : List u8 :=
  if size = 0 then [] else if size = 1 then [d.setWidth 8] else bytes32 d

/-- `EmitSibMagic(uint, const void*)` -/
def EmitSibMagicDisp (regfield : Reg) (d : s32) : List u8 := ModRM 0 regfield ebp :: bytes32 d

/-- ebp cannot be named without a displacement. -/
def forced (r : Reg) (size : Fin 4) : Fin 4 := if r = ebp ∧ size = 0 then 1 else size

def EmitSibMagic (regfield : Reg) (info : xIndirectVoid) : Option (List u8) :=
  let size := displacementSize info.Displacement
  if info.Base = none ∧ info.Index = none ∧ size ≠ 2 then none
  else if info.NeedsSibMagic then
    match info.Base with
    | none =>
      some (ModRM 0 regfield esp :: SibSB info.Scale (info.Index.getD 0) ebp ::
        bytes32 info.Displacement)
    | some base =>
      some (ModRM (forced base size) regfield esp :: SibSB info.Scale (info.Index.getD 0) base ::
        writeDisplacement (forced base size) info.Displacement)
  else match info.Index with
  | none => some (EmitSibMagicDisp regfield info.Displacement)
  | some index =>
    some (ModRM (forced index size) regfield index ::
      writeDisplacement (forced index size) info.Displacement)

/-- An operand in `ptr[..]`. -/
inductive Operand
  | reg (r : Reg)
  | sum (e : Expr)

namespace Operand

def indirect : Operand → Option xIndirectVoid
  | reg r => (xIndirectVoid.mk (some r) none 0 0).Reduce
  | sum e => do
    let v ← e.build
    (xIndirectVoid.ofVoid v).Reduce

def value : Operand → Sum
  | reg r => ⟨fun r' => if r' = r then 1 else 0, 0⟩
  | sum e => e.value

/-- The bytes of an operand. -/
def emit (o : Operand) (regfield : Reg) : Option (List u8) := do
  let info ← o.indirect
  EmitSibMagic regfield info

/-- The bytes name the sum that was written. -/
def Right (o : Operand) (regfield : Reg) : Prop :=
  ∃ bytes, o.emit regfield = some bytes ∧
    ∀ rest, ∃ f, decode (bytes ++ rest) = some (regfield, f, rest) ∧ f.sum = o.value

end Operand

end OmegaRed.X86
