import OmegaRed.Lib.MulDiv
import OmegaRed.R3000A.Templates

/-! The generators of the IOP recompiler. -/

namespace OmegaRed.R3000A

open Lib.Halves Lib.X86

/-- Adds a constant to `sreg` and puts it into `dreg`. -/
def rpsxADDconst (dreg sreg : Fin 32) (off : BitVec 32) : X86Code :=
  if sreg ≠ 0 then
    if sreg = dreg then [.alu .add (.mem (.gpr dreg)) (.imm off)]
    else .mov .eax (.mem (.gpr sreg)) :: (if off ≠ 0#32 then [.alu .add .eax (.imm off)] else []) ++
      [.mov (.mem (.gpr dreg)) .eax]
  else [.mov (.mem (.gpr dreg)) (.imm off)]

def rpsxADDIU_const : ConstGen := fun c r => r.constRegs c.Rs + c.Imm
def rpsxADDIU_ : CodeGen := fun c _ => if c.Rt = 0 then [] else rpsxADDconst c.Rt c.Rs c.Imm
def rpsxADDIU : Gen := psxRecompileCodeConst1 rpsxADDIU_const rpsxADDIU_
def rpsxADDI : Gen := rpsxADDIU

/-- `dreg := sreg < imm`, by the condition `cc`. -/
def rpsxSLTsconst (cc : Cond) (dreg sreg : Fin 32) (imm : BitVec 32) : X86Code :=
  [.alu .xor .eax .eax, .cmp (.mem (.gpr sreg)) (.imm imm), .set cc, .mov (.mem (.gpr dreg)) .eax]

def rpsxSLTconst (dreg sreg : Fin 32) (imm : BitVec 32) : X86Code := rpsxSLTsconst .l dreg sreg imm
def rpsxSLTUconst (dreg sreg : Fin 32) (imm : BitVec 32) : X86Code := rpsxSLTsconst .b dreg sreg imm

def rpsxSLTI_const : ConstGen := fun c r => truth ((r.constRegs c.Rs).slt c.Imm)
def rpsxSLTI_ : CodeGen := fun c _ => rpsxSLTconst c.Rt c.Rs c.Imm
def rpsxSLTI : Gen := psxRecompileCodeConst1 rpsxSLTI_const rpsxSLTI_

def rpsxSLTIU_const : ConstGen := fun c r => truth ((r.constRegs c.Rs).ult c.Imm)
def rpsxSLTIU_ : CodeGen := fun c _ => rpsxSLTUconst c.Rt c.Rs c.Imm
def rpsxSLTIU : Gen := psxRecompileCodeConst1 rpsxSLTIU_const rpsxSLTIU_

/-- `dreg := sreg`, through `ecx`. -/
def moveReg (dreg sreg : Fin 32) : X86Code :=
  if dreg ≠ sreg then [.mov .ecx (.mem (.gpr sreg)), .mov (.mem (.gpr dreg)) .ecx] else []

/-- `dreg := sreg op imm`, for an immediate that is not zero. -/
def opImm (o : Alu) (dreg sreg : Fin 32) (imm : BitVec 32) : X86Code :=
  if sreg = dreg then [.alu o (.mem (.gpr dreg)) (.imm imm)]
  else [.mov .eax (.mem (.gpr sreg)), .alu o .eax (.imm imm), .mov (.mem (.gpr dreg)) .eax]

def rpsxANDconst (dreg sreg : Fin 32) (imm : BitVec 32) : X86Code :=
  if imm ≠ 0#32 then opImm .and dreg sreg imm else [.mov (.mem (.gpr dreg)) (.imm 0)]

def rpsxORconst (dreg sreg : Fin 32) (imm : BitVec 32) : X86Code :=
  if imm ≠ 0#32 then opImm .or dreg sreg imm else moveReg dreg sreg

/-- `dreg := ~sreg` -/
def notReg (dreg sreg : Fin 32) : X86Code :=
  if dreg = sreg then [.not (.mem (.gpr dreg))]
  else [.mov .ecx (.mem (.gpr sreg)), .not .ecx, .mov (.mem (.gpr dreg)) .ecx]

def rpsxXORconst (dreg sreg : Fin 32) (imm : BitVec 32) : X86Code :=
  if imm = 0xffffffff#32 then notReg dreg sreg
  else if imm ≠ 0#32 then opImm .xor dreg sreg imm else moveReg dreg sreg

def rpsxNORconst (dreg sreg : Fin 32) (imm : BitVec 32) : X86Code :=
  if imm ≠ 0#32 then
    if dreg = sreg then [.alu .or (.mem (.gpr dreg)) (.imm imm), .not (.mem (.gpr dreg))]
    else [.mov .ecx (.mem (.gpr sreg)), .alu .or .ecx (.imm imm), .not .ecx,
      .mov (.mem (.gpr dreg)) .ecx]
  else notReg dreg sreg

def rpsxANDI_const : ConstGen := fun c r => r.constRegs c.Rs &&& c.ImmU
def rpsxANDI_ : CodeGen := fun c _ => rpsxANDconst c.Rt c.Rs c.ImmU
def rpsxANDI : Gen := psxRecompileCodeConst1 rpsxANDI_const rpsxANDI_

def rpsxORI_const : ConstGen := fun c r => r.constRegs c.Rs ||| c.ImmU
def rpsxORI_ : CodeGen := fun c _ => rpsxORconst c.Rt c.Rs c.ImmU
def rpsxORI : Gen := psxRecompileCodeConst1 rpsxORI_const rpsxORI_

def rpsxXORI_const : ConstGen := fun c r => r.constRegs c.Rs ^^^ c.ImmU
def rpsxXORI_ : CodeGen := fun c _ => rpsxXORconst c.Rt c.Rs c.ImmU
def rpsxXORI : Gen := psxRecompileCodeConst1 rpsxXORI_const rpsxXORI_

def rpsxLUI : Gen := fun c r =>
  if c.Rt = 0 then r
  else ((r.delConst c.Rt).deleteReg c.Rt false).putConst c.Rt (c.bits <<< 16)

def rpsxADDU_const : ConstGen := fun c r => r.constRegs c.Rs + r.constRegs c.Rt
def rpsxADDU_consts : CodeGen := fun c r => rpsxADDconst c.Rd c.Rt (r.constRegs c.Rs)
def rpsxADDU_constt : CodeGen := fun c r => rpsxADDconst c.Rd c.Rs (r.constRegs c.Rt)

def rpsxADDU_ : CodeGen := fun c _ =>
  (if c.Rs ≠ 0 ∧ c.Rt ≠ 0 then
    [.mov .eax (.mem (.gpr c.Rs)), .alu .add .eax (.mem (.gpr c.Rt))]
  else if c.Rs ≠ 0 then [.mov .eax (.mem (.gpr c.Rs))]
  else if c.Rt ≠ 0 then [.mov .eax (.mem (.gpr c.Rt))]
  else [.alu .xor .eax .eax]) ++
    [.mov (.mem (.gpr c.Rd)) .eax]

def rpsxADDU : Gen :=
  psxRecompileCodeConst0 rpsxADDU_const rpsxADDU_consts rpsxADDU_constt rpsxADDU_

def rpsxADD : Gen := rpsxADDU

def rpsxSUBU_const : ConstGen := fun c r => r.constRegs c.Rs - r.constRegs c.Rt

def rpsxSUBU_consts : CodeGen := fun c r =>
  [.mov .eax (.imm (r.constRegs c.Rs)), .alu .sub .eax (.mem (.gpr c.Rt)),
    .mov (.mem (.gpr c.Rd)) .eax]

def rpsxSUBU_constt : CodeGen := fun c r => rpsxADDconst c.Rd c.Rs (-r.constRegs c.Rt)

def rpsxSUBU_ : CodeGen := fun c _ =>
  if c.Rd = 0 then []
  else if c.Rd = c.Rs then
    [.mov .eax (.mem (.gpr c.Rt)), .alu .sub (.mem (.gpr c.Rd)) .eax]
  else
    [.mov .eax (.mem (.gpr c.Rs)), .alu .sub .eax (.mem (.gpr c.Rt)), .mov (.mem (.gpr c.Rd)) .eax]

def rpsxSUBU : Gen :=
  psxRecompileCodeConst0 rpsxSUBU_const rpsxSUBU_consts rpsxSUBU_constt rpsxSUBU_

def rpsxSUB : Gen := rpsxSUBU

/-- `rd := rs op rt`, negated for `NOR`. -/
def rpsxLogicalOp (o : Alu) (negate : Bool) : CodeGen := fun c _ =>
  if c.Rd = c.Rs ∨ c.Rd = c.Rt then
    .mov .ecx (.mem (.gpr (if c.Rd = c.Rs then c.Rt else c.Rs))) ::
      .alu o (.mem (.gpr c.Rd)) .ecx :: (if negate then [.not (.mem (.gpr c.Rd))] else [])
  else
    .mov .ecx (.mem (.gpr c.Rs)) :: .alu o .ecx (.mem (.gpr c.Rt)) ::
      (if negate then [.not .ecx] else []) ++ [.mov (.mem (.gpr c.Rd)) .ecx]

def rpsxAND_const : ConstGen := fun c r => r.constRegs c.Rs &&& r.constRegs c.Rt
def rpsxAND_consts : CodeGen := fun c r => rpsxANDconst c.Rd c.Rt (r.constRegs c.Rs)
def rpsxAND_constt : CodeGen := fun c r => rpsxANDconst c.Rd c.Rs (r.constRegs c.Rt)
def rpsxAND : Gen :=
  psxRecompileCodeConst0 rpsxAND_const rpsxAND_consts rpsxAND_constt (rpsxLogicalOp .and false)

def rpsxOR_const : ConstGen := fun c r => r.constRegs c.Rs ||| r.constRegs c.Rt
def rpsxOR_consts : CodeGen := fun c r => rpsxORconst c.Rd c.Rt (r.constRegs c.Rs)
def rpsxOR_constt : CodeGen := fun c r => rpsxORconst c.Rd c.Rs (r.constRegs c.Rt)
def rpsxOR : Gen :=
  psxRecompileCodeConst0 rpsxOR_const rpsxOR_consts rpsxOR_constt (rpsxLogicalOp .or false)

def rpsxXOR_const : ConstGen := fun c r => r.constRegs c.Rs ^^^ r.constRegs c.Rt
def rpsxXOR_consts : CodeGen := fun c r => rpsxXORconst c.Rd c.Rt (r.constRegs c.Rs)
def rpsxXOR_constt : CodeGen := fun c r => rpsxXORconst c.Rd c.Rs (r.constRegs c.Rt)
def rpsxXOR : Gen :=
  psxRecompileCodeConst0 rpsxXOR_const rpsxXOR_consts rpsxXOR_constt (rpsxLogicalOp .xor false)

def rpsxNOR_const : ConstGen := fun c r => ~~~(r.constRegs c.Rs ||| r.constRegs c.Rt)
def rpsxNOR_consts : CodeGen := fun c r => rpsxNORconst c.Rd c.Rt (r.constRegs c.Rs)
def rpsxNOR_constt : CodeGen := fun c r => rpsxNORconst c.Rd c.Rs (r.constRegs c.Rt)
def rpsxNOR : Gen :=
  psxRecompileCodeConst0 rpsxNOR_const rpsxNOR_consts rpsxNOR_constt (rpsxLogicalOp .or true)

def rpsxSLT_const : ConstGen := fun c r => truth ((r.constRegs c.Rs).slt (r.constRegs c.Rt))
def rpsxSLT_consts : CodeGen := fun c r => rpsxSLTsconst .g c.Rd c.Rt (r.constRegs c.Rs)
def rpsxSLT_constt : CodeGen := fun c r => rpsxSLTconst c.Rd c.Rs (r.constRegs c.Rt)

def rpsxSLT_ : CodeGen := fun c _ =>
  [.mov .eax (.mem (.gpr c.Rs)), .cmp .eax (.mem (.gpr c.Rt)), .set .l,
    .alu .and .eax (.imm 0xff), .mov (.mem (.gpr c.Rd)) .eax]

def rpsxSLT : Gen := psxRecompileCodeConst0 rpsxSLT_const rpsxSLT_consts rpsxSLT_constt rpsxSLT_

def rpsxSLTU_const : ConstGen := fun c r => truth ((r.constRegs c.Rs).ult (r.constRegs c.Rt))
def rpsxSLTU_consts : CodeGen := fun c r => rpsxSLTsconst .a c.Rd c.Rt (r.constRegs c.Rs)
def rpsxSLTU_constt : CodeGen := fun c r => rpsxSLTUconst c.Rd c.Rs (r.constRegs c.Rt)

def rpsxSLTU_ : CodeGen := fun c _ =>
  if c.Rd = 0 then []
  else
    [.mov .eax (.mem (.gpr c.Rs)), .cmp .eax (.mem (.gpr c.Rt)), .alu .sbb .eax .eax, .neg .eax,
      .mov (.mem (.gpr c.Rd)) .eax]

def rpsxSLTU : Gen :=
  psxRecompileCodeConst0 rpsxSLTU_const rpsxSLTU_consts rpsxSLTU_constt rpsxSLTU_

/-- `hi` and `lo` of constants. -/
def constHILO (h l : BitVec 32) : X86Code := [.mov (.mem .hi) (.imm h), .mov (.mem .lo) (.imm l)]

def storeHILO : X86Code := [.mov (.mem .lo) .eax, .mov (.mem .hi) .edx]

def rpsxMULTsuperconst (sreg : Fin 32) (imm : BitVec 32) (sign : Bool) : X86Code :=
  .mov .eax (.imm imm) ::
    (if sign then .imul (.mem (.gpr sreg)) else .mul (.mem (.gpr sreg))) :: storeHILO

def rpsxMULTsuper (sign : Bool) : CodeGen := fun c _ =>
  .mov .eax (.mem (.gpr c.Rs)) ::
    (if sign then .imul (.mem (.gpr c.Rt)) else .mul (.mem (.gpr c.Rt))) :: storeHILO

def rpsxMULT_const : CodeGen := fun c r =>
  let res := signedProduct (r.constRegs c.Rs) (r.constRegs c.Rt)
  constHILO (hi res) (lo res)

def rpsxMULT : Gen := psxRecompileCodeConst3 rpsxMULT_const
  (fun c r => rpsxMULTsuperconst c.Rt (r.constRegs c.Rs) true)
  (fun c r => rpsxMULTsuperconst c.Rs (r.constRegs c.Rt) true) (rpsxMULTsuper true)

def rpsxMULTU_const : CodeGen := fun c r =>
  let res := unsignedProduct (r.constRegs c.Rs) (r.constRegs c.Rt)
  constHILO (hi res) (lo res)

def rpsxMULTU : Gen := psxRecompileCodeConst3 rpsxMULTU_const
  (fun c r => rpsxMULTsuperconst c.Rt (r.constRegs c.Rs) false)
  (fun c r => rpsxMULTsuperconst c.Rs (r.constRegs c.Rt) false) (rpsxMULTsuper false)

def rpsxDIV_const : CodeGen := fun c r =>
  let rs := r.constRegs c.Rs
  let rt := r.constRegs c.Rt
  if rs = 0x80000000#32 ∧ rt = 0xffffffff#32 then constHILO 0 0x80000000
  else if rt ≠ 0#32 then constHILO (rs.srem rt) (rs.sdiv rt)
  else constHILO rs (if rs &&& 0x80000000#32 ≠ 0#32 then 1 else 0xffffffff)

/-- Which source `rpsxDIVsuper` takes as a constant. -/
inductive Process
  | none | consts | constt
  deriving DecidableEq, Repr

def rpsxDIVsuper (sign : Bool) (process : Process) : CodeGen := fun c r =>
  .mov .ecx (if process = .constt then .imm (r.constRegs c.Rt) else .mem (.gpr c.Rt)) ::
    .mov .eax (if process = .consts then .imm (r.constRegs c.Rs) else .mem (.gpr c.Rs)) ::
      (if sign then signedDiv else unsignedDiv) ++ storeHILO

def rpsxDIV : Gen := psxRecompileCodeConst3 rpsxDIV_const (rpsxDIVsuper true .consts)
  (rpsxDIVsuper true .constt) (rpsxDIVsuper true .none)

def rpsxDIVU_const : CodeGen := fun c r =>
  let rs := r.constRegs c.Rs
  let rt := r.constRegs c.Rt
  if rt ≠ 0#32 then constHILO (rs % rt) (rs / rt) else constHILO rs 0xffffffff

def rpsxDIVU : Gen := psxRecompileCodeConst3 rpsxDIVU_const (rpsxDIVsuper false .consts)
  (rpsxDIVsuper false .constt) (rpsxDIVsuper false .none)

def rpsxShiftConst (rdreg rtreg : Fin 32) (imm : BitVec 32) (shifttype : Shift) : X86Code :=
  let imm := imm &&& 0x1f
  if imm ≠ 0#32 then
    if rdreg = rtreg then [.shift shifttype (.mem (.gpr rdreg)) imm]
    else [.mov .eax (.mem (.gpr rtreg)), .shift shifttype .eax imm, .mov (.mem (.gpr rdreg)) .eax]
  else if rdreg ≠ rtreg then [.mov .eax (.mem (.gpr rtreg)), .mov (.mem (.gpr rdreg)) .eax]
  else []

/-- `_Sa_` as an integer. -/
def Code.sa (c : Code) : BitVec 32 := .ofNat 32 c.Sa.val

def rpsxSLL_const : ConstGen := fun c r => r.constRegs c.Rt <<< c.Sa.val
def rpsxSLL_ : CodeGen := fun c _ => rpsxShiftConst c.Rd c.Rt c.sa .shl
def rpsxSLL : Gen := psxRecompileCodeConst2 rpsxSLL_const rpsxSLL_

def rpsxSRL_const : ConstGen := fun c r => r.constRegs c.Rt >>> c.Sa.val
def rpsxSRL_ : CodeGen := fun c _ => rpsxShiftConst c.Rd c.Rt c.sa .shr
def rpsxSRL : Gen := psxRecompileCodeConst2 rpsxSRL_const rpsxSRL_

def rpsxSRA_const : ConstGen := fun c r => (r.constRegs c.Rt).sshiftRight c.Sa.val
def rpsxSRA_ : CodeGen := fun c _ => rpsxShiftConst c.Rd c.Rt c.sa .sar
def rpsxSRA : Gen := psxRecompileCodeConst2 rpsxSRA_const rpsxSRA_

def rpsxShiftVconsts (shifttype : Shift) : CodeGen := fun c r =>
  rpsxShiftConst c.Rd c.Rt (r.constRegs c.Rs) shifttype

def rpsxShiftVconstt (shifttype : Shift) : CodeGen := fun c r =>
  [.mov .eax (.imm (r.constRegs c.Rt)), .mov .ecx (.mem (.gpr c.Rs)), .shiftCl shifttype .eax,
    .mov (.mem (.gpr c.Rd)) .eax]

/-- `rpsxSLLV_`, `rpsxSRLV_` and `rpsxSRAV_` -/
def rpsxShiftV_ (shifttype : Shift) : CodeGen := fun c _ =>
  [.mov .eax (.mem (.gpr c.Rt)), .mov .ecx (.mem (.gpr c.Rs)), .shiftCl shifttype .eax,
    .mov (.mem (.gpr c.Rd)) .eax]

/-- The five-bit count of a folded shift. -/
def sa5 (v : BitVec 32) : Nat := (v &&& 0x1f#32).toNat

def rpsxSLLV_const : ConstGen := fun c r => r.constRegs c.Rt <<< sa5 (r.constRegs c.Rs)
def rpsxSLLV : Gen := psxRecompileCodeConst0 rpsxSLLV_const (rpsxShiftVconsts .shl)
  (rpsxShiftVconstt .shl) (rpsxShiftV_ .shl)

def rpsxSRLV_const : ConstGen := fun c r => r.constRegs c.Rt >>> sa5 (r.constRegs c.Rs)
def rpsxSRLV : Gen := psxRecompileCodeConst0 rpsxSRLV_const (rpsxShiftVconsts .shr)
  (rpsxShiftVconstt .shr) (rpsxShiftV_ .shr)

def rpsxSRAV_const : ConstGen := fun c r =>
  (r.constRegs c.Rt).sshiftRight (sa5 (r.constRegs c.Rs))
def rpsxSRAV : Gen := psxRecompileCodeConst0 rpsxSRAV_const (rpsxShiftVconsts .sar)
  (rpsxShiftVconstt .sar) (rpsxShiftV_ .sar)

/-- `rpsxMFHI` and `rpsxMFLO` -/
def moveFrom (l : Loc) : Gen := fun c r =>
  if c.Rd = 0 then r
  else ((r.delConst c.Rd).deleteReg c.Rd false).emit
    [.mov .eax (.mem l), .mov (.mem (.gpr c.Rd)) .eax]

def rpsxMFHI : Gen := moveFrom .hi
def rpsxMFLO : Gen := moveFrom .lo

/-- `rpsxMTHI` and `rpsxMTLO` -/
def moveTo (l : Loc) : Gen := fun c r =>
  if r.hasConst c.Rs = true then r.emit [.mov (.mem l) (.imm (r.constRegs c.Rs))]
  else (r.deleteReg c.Rs true).emit [.mov .eax (.mem (.gpr c.Rs)), .mov (.mem l) .eax]

def rpsxMTHI : Gen := moveTo .hi
def rpsxMTLO : Gen := moveTo .lo

end OmegaRed.R3000A
