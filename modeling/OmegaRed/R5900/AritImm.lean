import OmegaRed.R5900.Arit

/-! Generators of the instructions with an immediate operand. -/

namespace OmegaRed.R5900

open Lib.Halves Lib.X86

/-- The immediate as the operand of a 32-bit instruction. -/
def Code.Imm32 (c : Code) : BitVec 32 := c.Imm.signExtend 32

def recADDI_const : Gen := folds Code.Rt fun c r =>
  (lo (r.constRegs c.Rs) + c.Imm32).signExtend 64

def recADDI_ : Gen := emits fun c _ =>
  if c.Rt = c.Rs then
    .alu .add (.mem (.gpr c.Rt 0)) (.imm c.Imm32) :: signExtendSFtoM (.gpr c.Rt 1)
  else
    .mov .eax (.mem (.gpr c.Rs 0)) ::
      (if c.Imm = 0#16 then [] else [.alu .add .eax (.imm c.Imm32)]) ++
      [.cdq, .mov (.mem (.gpr c.Rt 0)) .eax, .mov (.mem (.gpr c.Rt 1)) .edx]

def recADDI : Gen := eeRecompileCode1 recADDI_const recADDI_

def recADDIU : Gen := recADDI

def recDADDI_const : Gen := folds Code.Rt fun c r => r.constRegs c.Rs + c.Imm.signExtend 64

/-- `_Imm_ < 0 ? 0xffffffff : 0` -/
def Code.ImmHigh (c : Code) : BitVec 32 := if c.Imm.slt 0 then 0xffffffff else 0

def recDADDI_ : Gen := emits fun c _ =>
  if c.Rt = c.Rs then
    [.alu .add (.mem (.gpr c.Rt 0)) (.imm c.Imm32), .alu .adc (.mem (.gpr c.Rt 1)) (.imm c.ImmHigh)]
  else
    [.mov .eax (.mem (.gpr c.Rs 0)), .mov .edx (.mem (.gpr c.Rs 1))] ++
      (if c.Imm = 0#16 then []
        else [.alu .add .eax (.imm c.Imm32), .alu .adc .edx (.imm c.ImmHigh)]) ++
      [.mov (.mem (.gpr c.Rt 0)) .eax, .mov (.mem (.gpr c.Rt 1)) .edx]

def recDADDI : Gen := eeRecompileCode1 recDADDI_const recDADDI_

def recDADDIU : Gen := recDADDI

def recSLTIU_const : Gen := folds Code.Rt fun c r =>
  truth ((r.constRegs c.Rs).ult (c.Imm.signExtend 64))

/-- `recSLTI_` and `recSLTIU_`, by the jumps after the comparison of the high halves. -/
def recSLTIs_ (less greater : Cond) (c : Code) : X86Code :=
  [.mov .eax (.imm 1),
    .cmp (.mem (.gpr c.Rs 1)) (.imm c.ImmHigh),
    .jcc less 0,
    .jcc greater 2,
    .cmp (.mem (.gpr c.Rs 0)) (.imm c.Imm32),
    .jcc .b 1,
    .label 2,
    .alu .xor .eax .eax,
    .label 0,
    .label 1,
    .mov (.mem (.gpr c.Rt 0)) .eax,
    .mov (.mem (.gpr c.Rt 1)) (.imm 0)]

def recSLTIU_ : Gen := emits fun c _ => recSLTIs_ .b .a c

def recSLTIU : Gen := eeRecompileCode1 recSLTIU_const recSLTIU_

def recSLTI_const : Gen := folds Code.Rt fun c r =>
  truth ((r.constRegs c.Rs).slt (c.Imm.signExtend 64))

def recSLTI_ : Gen := emits fun c _ => recSLTIs_ .l .g c

def recSLTI : Gen := eeRecompileCode1 recSLTI_const recSLTI_

/-- `recLogicalOpI`; `op` is `and` for the source's case 0. -/
def recLogicalOpI (c : Code) (op : Alu) : X86Code :=
  if c.ImmU = 0#32 then
    if op = .and then clearReg c.Rt
    else if c.Rt = c.Rs then []
    else [.mov .eax (.mem (.gpr c.Rs 0)), .mov .edx (.mem (.gpr c.Rs 1)),
      .mov (.mem (.gpr c.Rt 0)) .eax, .mov (.mem (.gpr c.Rt 1)) .edx]
  else
    (if c.Rt = c.Rs then [.alu op (.mem (.gpr c.Rt 0)) (.imm c.ImmU)]
      else
        .mov .eax (.mem (.gpr c.Rs 0)) ::
          (if op = .and then [] else [.mov .edx (.mem (.gpr c.Rs 1))]) ++
          [.alu op .eax (.imm c.ImmU)] ++
          (if op = .and then [] else [.mov (.mem (.gpr c.Rt 1)) .edx]) ++
          [.mov (.mem (.gpr c.Rt 0)) .eax]) ++
      (if op = .and then [.mov (.mem (.gpr c.Rt 1)) (.imm 0)] else [])

def recANDI_const : Gen := folds Code.Rt fun c r => r.constRegs c.Rs &&& c.ImmU.setWidth 64
def recANDI_ : Gen := emits fun c _ => recLogicalOpI c .and
def recANDI : Gen := eeRecompileCode1 recANDI_const recANDI_

def recORI_const : Gen := folds Code.Rt fun c r => r.constRegs c.Rs ||| c.ImmU.setWidth 64
def recORI_ : Gen := emits fun c _ => recLogicalOpI c .or
def recORI : Gen := eeRecompileCode1 recORI_const recORI_

def recXORI_const : Gen := folds Code.Rt fun c r => r.constRegs c.Rs ^^^ c.ImmU.setWidth 64
def recXORI_ : Gen := emits fun c _ => recLogicalOpI c .xor
def recXORI : Gen := eeRecompileCode1 recXORI_const recXORI_

section

variable {c : Code} {r : Rec} {s : Machine}

theorem Imm_eq (c : Code) : c.Imm.signExtend 64 = join c.ImmHigh c.Imm32 := by
  have h : c.Imm.signExtend 64 = c.Imm32.signExtend 64 := by
    apply BitVec.eq_of_toInt_eq
    rw [Code.Imm32, BitVec.toInt_signExtend_of_le (by decide),
      BitVec.toInt_signExtend_of_le (by decide), BitVec.toInt_signExtend_of_le (by decide)]
  have hm : c.Imm32.msb = c.Imm.slt 0 := by
    rw [BitVec.msb_eq_toInt, Code.Imm32, BitVec.toInt_signExtend_of_le (by decide)]
    rfl
  rw [h, signExtend_eq, signWord, hm]
  rfl

theorem ImmU_eq (c : Code) : c.ImmU.setWidth 64 = join 0 c.ImmU := by
  apply BitVec.eq_of_toNat_eq
  rw [toNat_join, BitVec.toNat_setWidth]
  have h := c.ImmU.isLt
  simp
  omega

theorem recADDI_emits : Emits c.Rt r (recADDI_ c r) s
    ((lo (Home.UD s.mem c.Rs) + c.Imm32).signExtend 64) := by
  by_cases h : c.Rt = c.Rs
  · have hc : recADDI_ c r = r.emit (.alu .add (.mem (.gpr c.Rt 0)) (.imm c.Imm32) ::
        signExtendSFtoM (.gpr c.Rt 1)) := by
      simp [recADDI_, emits, h]
    rw [hc]
    apply emits_of_mem
    rw [signExtendSFtoM, exec_alu, Alu.eval, Option.map_some, Option.bind_some,
      exec_signSF _ _ rfl rfl]
    simp [Home.put, Home.UD, h, signWord, addFlags, carryIn]
  · apply emits_of_mem
    by_cases hi : c.Imm = 0#16
    · simp [Home.put, Home.UD, h, hi, Code.Imm32]
    · simp [Home.put, Home.UD, h, hi]

theorem recDADDI_emits : Emits c.Rt r (recDADDI_ c r) s
    (Home.UD s.mem c.Rs + c.Imm.signExtend 64) := by
  apply emits_of_mem
  by_cases h : c.Rt = c.Rs
  · rw [Imm_eq, Home.UD, join_add]
    simp [Home.put, h, addFlags]
  · by_cases hi : c.Imm = 0#16
    · simp [Home.put, Home.UD, h, hi]
    · rw [Imm_eq, Home.UD, join_add]
      simp [Home.put, h, hi, addFlags]

theorem recSLTIU_emits : Emits c.Rt r (recSLTIU_ c r) s
    (truth ((Home.UD s.mem c.Rs).ult (c.Imm.signExtend 64))) := by
  apply emits_of_mem
  change _ = some (Home.put s.mem c.Rt (truth (less false _ _)))
  rw [Imm_eq, Home.UD, less_join, Home.put, lo_truth, hi_truth]
  simp [recSLTIs_]
  exact branches_mem _ _ _ rfl rfl rfl rfl

theorem recSLTI_emits : Emits c.Rt r (recSLTI_ c r) s
    (truth ((Home.UD s.mem c.Rs).slt (c.Imm.signExtend 64))) := by
  apply emits_of_mem
  change _ = some (Home.put s.mem c.Rt (truth (less true _ _)))
  rw [Imm_eq, Home.UD, less_join, Home.put, lo_truth, hi_truth]
  simp [recSLTIs_]
  exact branches_mem _ _ _ rfl rfl rfl rfl

theorem recANDI_emits : Emits c.Rt r (recANDI_ c r) s
    (Home.UD s.mem c.Rs &&& c.ImmU.setWidth 64) := by
  apply emits_of_mem
  rw [ImmU_eq, Home.UD, join_and]
  by_cases hi : c.ImmU = 0#32
  · simp [recLogicalOpI, Home.put, clearReg, hi]
  · by_cases h : c.Rt = c.Rs
    · simp [recLogicalOpI, Home.put, h, hi]
    · simp [recLogicalOpI, Home.put, h, hi]

theorem recORI_emits : Emits c.Rt r (recORI_ c r) s
    (Home.UD s.mem c.Rs ||| c.ImmU.setWidth 64) := by
  apply emits_of_mem
  rw [ImmU_eq, Home.UD, join_or]
  by_cases hi : c.ImmU = 0#32 <;> by_cases h : c.Rt = c.Rs
  · simp [recLogicalOpI, Home.put, h, hi]
  · simp [recLogicalOpI, Home.put, h, hi]
  · simp [recLogicalOpI, Home.put, h, hi]
  · simp [recLogicalOpI, Home.put, h, hi, Function.update_comm]

theorem recXORI_emits : Emits c.Rt r (recXORI_ c r) s
    (Home.UD s.mem c.Rs ^^^ c.ImmU.setWidth 64) := by
  apply emits_of_mem
  rw [ImmU_eq, Home.UD, join_xor]
  by_cases hi : c.ImmU = 0#32 <;> by_cases h : c.Rt = c.Rs
  · simp [recLogicalOpI, Home.put, h, hi]
  · simp [recLogicalOpI, Home.put, h, hi]
  · simp [recLogicalOpI, Home.put, h, hi]
  · simp [recLogicalOpI, Home.put, h, hi, Function.update_comm]

variable {s₀ : Machine} {regs : CpuRegs}

theorem recADDI_represents (h : Represents r s₀ regs) : Represents (recADDI c r) s₀
    (regs.put c.Rt ((regs.UL c.Rs + c.Imm32).signExtend 64)) :=
  code1_represents (fun v => (lo v + c.Imm32).signExtend 64) h (fun _ => rfl) fun _ => recADDI_emits

theorem recDADDI_represents (h : Represents r s₀ regs) : Represents (recDADDI c r) s₀
    (regs.put c.Rt (regs.UD c.Rs + c.Imm.signExtend 64)) :=
  code1_represents (fun v => v + c.Imm.signExtend 64) h (fun _ => rfl) fun _ => recDADDI_emits

theorem recSLTIU_represents (h : Represents r s₀ regs) : Represents (recSLTIU c r) s₀
    (regs.put c.Rt (truth ((regs.UD c.Rs).ult (c.Imm.signExtend 64)))) :=
  code1_represents (fun v => truth (v.ult (c.Imm.signExtend 64))) h (fun _ => rfl) fun _ => recSLTIU_emits

theorem recSLTI_represents (h : Represents r s₀ regs) : Represents (recSLTI c r) s₀
    (regs.put c.Rt (truth ((regs.UD c.Rs).slt (c.Imm.signExtend 64)))) :=
  code1_represents (fun v => truth (v.slt (c.Imm.signExtend 64))) h (fun _ => rfl) fun _ => recSLTI_emits

theorem recANDI_represents (h : Represents r s₀ regs) : Represents (recANDI c r) s₀
    (regs.put c.Rt (regs.UD c.Rs &&& c.ImmU.setWidth 64)) :=
  code1_represents (fun v => v &&& c.ImmU.setWidth 64) h (fun _ => rfl) fun _ => recANDI_emits

theorem recORI_represents (h : Represents r s₀ regs) : Represents (recORI c r) s₀
    (regs.put c.Rt (regs.UD c.Rs ||| c.ImmU.setWidth 64)) :=
  code1_represents (fun v => v ||| c.ImmU.setWidth 64) h (fun _ => rfl) fun _ => recORI_emits

theorem recXORI_represents (h : Represents r s₀ regs) : Represents (recXORI c r) s₀
    (regs.put c.Rt (regs.UD c.Rs ^^^ c.ImmU.setWidth 64)) :=
  code1_represents (fun v => v ^^^ c.ImmU.setWidth 64) h (fun _ => rfl) fun _ => recXORI_emits

end

end OmegaRed.R5900
