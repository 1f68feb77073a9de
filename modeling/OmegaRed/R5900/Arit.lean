import OmegaRed.R5900.Templates

/-! Generators of the register arithmetic and logic instructions. -/

namespace OmegaRed.R5900

open Lib.Halves Lib.X86

/-- Assigns a folded constant. -/
def folds (x : Code → Fin 32) (f : Code → Rec → BitVec 64) : Gen :=
  fun c r => r.putConst (x c) (f c r)

/-- Only emits code. -/
def emits (p : Code → Rec → X86Code) : Gen := fun c r => r.emit (p c r)

def recADD_const : Gen := folds Code.Rd fun c r =>
  (lo (r.constRegs c.Rs) + lo (r.constRegs c.Rt)).signExtend 64

def recADD_constv (rd : Fin 32) (cval : BitVec 32) (vreg : Fin 32) : X86Code :=
  .mov .eax (.mem (.gpr vreg 0)) ::
    (if cval = 0#32 then [] else [.alu .add .eax (.imm cval)]) ++
    eeSignExtendTo rd (decide (rd = vreg ∧ cval = 0#32))

def recADD_consts : Gen := emits fun c r => recADD_constv c.Rd (lo (r.constRegs c.Rs)) c.Rt
def recADD_constt : Gen := emits fun c r => recADD_constv c.Rd (lo (r.constRegs c.Rt)) c.Rs

def recADD_ : Gen := emits fun c _ =>
  .mov .eax (.mem (.gpr c.Rs 0)) ::
    .alu .add .eax (if c.Rs = c.Rt then .eax else .mem (.gpr c.Rt 0)) ::
    eeSignExtendTo c.Rd false

def recADD : Gen := eeRecompileCode0 recADD_const recADD_consts recADD_constt recADD_ true

def recADDU : Gen := recADD

def recDADD_const : Gen := folds Code.Rd fun c r => r.constRegs c.Rs + r.constRegs c.Rt

def recDADD_constv (rd : Fin 32) (cval : BitVec 64) (vreg : Fin 32) : X86Code :=
  if rd = vreg then
    if cval = 0#64 then []
    else [.alu .add (.mem (.gpr rd 0)) (.imm (lo cval)),
      .alu .adc (.mem (.gpr rd 1)) (.imm (hi cval))]
  else
    [.mov .eax (.mem (.gpr vreg 0)), .mov .edx (.mem (.gpr vreg 1))] ++
      (if cval = 0#64 then []
        else [.alu .add .eax (.imm (lo cval)), .alu .adc .edx (.imm (hi cval))]) ++
      [.mov (.mem (.gpr rd 0)) .eax, .mov (.mem (.gpr rd 1)) .edx]

def recDADD_consts : Gen := emits fun c r => recDADD_constv c.Rd (r.constRegs c.Rs) c.Rt
def recDADD_constt : Gen := emits fun c r => recDADD_constv c.Rd (r.constRegs c.Rt) c.Rs

def recDADD_ : Gen := emits fun c _ =>
  let rs := if c.Rd = c.Rt then c.Rt else c.Rs
  let rt := if c.Rd = c.Rt then c.Rs else c.Rt
  .mov .eax (.mem (.gpr rt 0)) ::
    if c.Rd = c.Rs ∧ c.Rs = c.Rt then
      [.shld (.mem (.gpr c.Rd 1)) .eax 1, .shift .shl (.mem (.gpr c.Rd 0)) 1]
    else .mov .edx (.mem (.gpr rt 1)) ::
      if c.Rd = rs then
        [.alu .add (.mem (.gpr c.Rd 0)) .eax, .alu .adc (.mem (.gpr c.Rd 1)) .edx]
      else
        (if rs = rt then [.alu .add .eax .eax, .alu .adc .edx .edx]
          else [.alu .add .eax (.mem (.gpr rs 0)), .alu .adc .edx (.mem (.gpr rs 1))]) ++
        [.mov (.mem (.gpr c.Rd 0)) .eax, .mov (.mem (.gpr c.Rd 1)) .edx]

def recDADD : Gen := eeRecompileCode0 recDADD_const recDADD_consts recDADD_constt recDADD_ true

def recDADDU : Gen := recDADD

def recSUB_const : Gen := folds Code.Rd fun c r =>
  (lo (r.constRegs c.Rs) - lo (r.constRegs c.Rt)).signExtend 64

def recSUB_consts : Gen := emits fun c r =>
  .mov .eax (.imm (lo (r.constRegs c.Rs))) :: .alu .sub .eax (.mem (.gpr c.Rt 0)) ::
    eeSignExtendTo c.Rd false

def recSUB_constt : Gen := emits fun c r =>
  let tval := lo (r.constRegs c.Rt)
  .mov .eax (.mem (.gpr c.Rs 0)) ::
    (if tval = 0#32 then [] else [.alu .sub .eax (.imm tval)]) ++
    eeSignExtendTo c.Rd (decide (c.Rd = c.Rs ∧ tval = 0#32))

/-- `rd := 0` -/
def clearReg (rd : Fin 32) : X86Code :=
  [.mov (.mem (.gpr rd 0)) (.imm 0), .mov (.mem (.gpr rd 1)) (.imm 0)]

def recSUB_ : Gen := emits fun c _ =>
  if c.Rs = c.Rt then clearReg c.Rd
  else .mov .eax (.mem (.gpr c.Rs 0)) :: .alu .sub .eax (.mem (.gpr c.Rt 0)) ::
    eeSignExtendTo c.Rd false

def recSUB : Gen := eeRecompileCode0 recSUB_const recSUB_consts recSUB_constt recSUB_ true

def recSUBU : Gen := recSUB

def recDSUB_const : Gen := folds Code.Rd fun c r => r.constRegs c.Rs - r.constRegs c.Rt

def recDSUB_consts : Gen := emits fun c r =>
  let sval := r.constRegs c.Rs
  if sval = 0#64 ∧ c.Rd = c.Rt then
    [.neg (.mem (.gpr c.Rd 0)), .alu .adc (.mem (.gpr c.Rd 1)) (.imm 0), .neg (.mem (.gpr c.Rd 1))]
  else
    [.mov .eax (.imm (lo sval)), .mov .edx (.imm (hi sval)),
      .alu .sub .eax (.mem (.gpr c.Rt 0)), .alu .sbb .edx (.mem (.gpr c.Rt 1)),
      .mov (.mem (.gpr c.Rd 0)) .eax, .mov (.mem (.gpr c.Rd 1)) .edx]

def recDSUB_constt : Gen := emits fun c r =>
  let tval := r.constRegs c.Rt
  if c.Rd = c.Rs then
    [.alu .sub (.mem (.gpr c.Rd 0)) (.imm (lo tval)),
      .alu .sbb (.mem (.gpr c.Rd 1)) (.imm (hi tval))]
  else
    [.mov .eax (.mem (.gpr c.Rs 0)), .mov .edx (.mem (.gpr c.Rs 1))] ++
      (if tval = 0#64 then []
        else [.alu .sub .eax (.imm (lo tval)), .alu .sbb .edx (.imm (hi tval))]) ++
      [.mov (.mem (.gpr c.Rd 0)) .eax, .mov (.mem (.gpr c.Rd 1)) .edx]

def recDSUB_ : Gen := emits fun c _ =>
  if c.Rs = c.Rt then clearReg c.Rd
  else if c.Rd = c.Rs then
    [.mov .eax (.mem (.gpr c.Rt 0)), .mov .edx (.mem (.gpr c.Rt 1)),
      .alu .sub (.mem (.gpr c.Rd 0)) .eax, .alu .sbb (.mem (.gpr c.Rd 1)) .edx]
  else
    [.mov .eax (.mem (.gpr c.Rs 0)), .mov .edx (.mem (.gpr c.Rs 1)),
      .alu .sub .eax (.mem (.gpr c.Rt 0)), .alu .sbb .edx (.mem (.gpr c.Rt 1)),
      .mov (.mem (.gpr c.Rd 0)) .eax, .mov (.mem (.gpr c.Rd 1)) .edx]

def recDSUB : Gen := eeRecompileCode0 recDSUB_const recDSUB_consts recDSUB_constt recDSUB_ true

def recDSUBU : Gen := recDSUB

section

variable {c : Code} {r : Rec} {s : Machine} {rd : Fin 32}

theorem recADD_constv_emits (cval : BitVec 32) (vreg : Fin 32) :
    Emits rd r (r.emit (recADD_constv rd cval vreg)) s
      ((cval + lo (Home.UD s.mem vreg)).signExtend 64) := by
  apply emits_of_mem
  by_cases hc : cval = 0#32
  · by_cases hd : rd = vreg
    · simp [recADD_constv, eeSignExtendTo, Home.put, Home.UD, hc, hd]
    · simp [recADD_constv, eeSignExtendTo, Home.put, Home.UD, hc, hd]
  · simp [recADD_constv, eeSignExtendTo, Home.put, Home.UD, hc, BitVec.add_comm]

theorem recADD_emits : Emits c.Rd r (recADD_ c r) s
    ((lo (Home.UD s.mem c.Rs) + lo (Home.UD s.mem c.Rt)).signExtend 64) := by
  apply emits_of_mem
  by_cases h : c.Rs = c.Rt
  · simp [eeSignExtendTo, Home.put, Home.UD, h]
  · simp [eeSignExtendTo, Home.put, Home.UD, h]

theorem recDADD_constv_emits (cval : BitVec 64) (vreg : Fin 32) :
    Emits rd r (r.emit (recDADD_constv rd cval vreg)) s (cval + Home.UD s.mem vreg) := by
  apply emits_of_mem
  by_cases hc : cval = 0#64
  · rw [hc, BitVec.zero_add]
    by_cases hd : rd = vreg
    · simp [recDADD_constv, Home.put, Home.UD, hd]
    · simp [recDADD_constv, Home.put, Home.UD, hd]
  · rw [Home.UD, ← join_hi_lo cval, BitVec.add_comm, join_add]
    by_cases hd : rd = vreg
    · simp [recDADD_constv, Home.put, hc, hd, addFlags]
    · simp [recDADD_constv, Home.put, hc, hd, addFlags]

theorem recDADD_emits : Emits c.Rd r (recDADD_ c r) s
    (Home.UD s.mem c.Rs + Home.UD s.mem c.Rt) := by
  apply emits_of_mem
  by_cases h : c.Rd = c.Rs ∧ c.Rs = c.Rt
  · obtain ⟨hd, hs⟩ := h
    rw [hs, add_self, Home.UD]
    simp [Home.put, hd, hs, lo_shiftLeft_one, Shift.eval, Function.update_comm]
  · by_cases ht : c.Rd = c.Rt
    · have hs : c.Rs ≠ c.Rt := fun hs => h ⟨ht.trans hs.symm, hs⟩
      rw [Home.UD, Home.UD, BitVec.add_comm, join_add]
      simp [Home.put, ht, hs, addFlags]
    · by_cases hd : c.Rd = c.Rs
      · have hs : c.Rs ≠ c.Rt := fun hs => h ⟨hd, hs⟩
        rw [Home.UD, Home.UD, join_add]
        simp [Home.put, hd, hs, addFlags]
      · by_cases hs : c.Rs = c.Rt
        · rw [hs, Home.UD, join_add]
          simp [Home.put, ht, hs, addFlags]
        · rw [Home.UD, Home.UD, BitVec.add_comm, join_add]
          simp [Home.put, ht, hd, hs, addFlags]

theorem recSUB_consts_emits : Emits c.Rd r (recSUB_consts c r) s
    ((lo (r.constRegs c.Rs) - lo (Home.UD s.mem c.Rt)).signExtend 64) := by
  apply emits_of_mem
  simp [eeSignExtendTo, Home.put, Home.UD]

theorem recSUB_constt_emits : Emits c.Rd r (recSUB_constt c r) s
    ((lo (Home.UD s.mem c.Rs) - lo (r.constRegs c.Rt)).signExtend 64) := by
  apply emits_of_mem
  by_cases hc : lo (r.constRegs c.Rt) = 0#32
  · by_cases hd : c.Rd = c.Rs
    · simp [eeSignExtendTo, Home.put, Home.UD, hc, hd]
    · simp [eeSignExtendTo, Home.put, Home.UD, hc, hd]
  · simp [eeSignExtendTo, Home.put, Home.UD, hc]

theorem clearReg_mem (rd : Fin 32) :
    (exec (clearReg rd) s).map State.mem = some (Home.put s.mem rd 0) := by
  simp [clearReg, Home.put, lo, hi]

theorem recSUB_emits : Emits c.Rd r (recSUB_ c r) s
    ((lo (Home.UD s.mem c.Rs) - lo (Home.UD s.mem c.Rt)).signExtend 64) := by
  apply emits_of_mem
  by_cases h : c.Rs = c.Rt
  · rw [h, BitVec.sub_self]
    simpa [h] using clearReg_mem c.Rd
  · simp [eeSignExtendTo, Home.put, Home.UD, h]

theorem recDSUB_consts_emits : Emits c.Rd r (recDSUB_consts c r) s
    (r.constRegs c.Rs - Home.UD s.mem c.Rt) := by
  apply emits_of_mem
  by_cases h : r.constRegs c.Rs = 0#64 ∧ c.Rd = c.Rt
  · obtain ⟨hs, hd⟩ := h
    rw [hs, BitVec.zero_sub, Home.UD, neg_join]
    simp [Home.put, hs, hd, subFlags]
  · rw [← join_hi_lo (r.constRegs c.Rs), Home.UD, join_sub]
    simp [Home.put, h, subFlags]

theorem recDSUB_constt_emits : Emits c.Rd r (recDSUB_constt c r) s
    (Home.UD s.mem c.Rs - r.constRegs c.Rt) := by
  apply emits_of_mem
  by_cases hd : c.Rd = c.Rs
  · rw [← join_hi_lo (r.constRegs c.Rt), Home.UD, join_sub]
    simp [Home.put, hd, subFlags]
  · by_cases hc : r.constRegs c.Rt = 0#64
    · simp [Home.put, Home.UD, hc, hd]
    · rw [← join_hi_lo (r.constRegs c.Rt), Home.UD, join_sub]
      simp [Home.put, hc, hd, subFlags]

theorem recDSUB_emits : Emits c.Rd r (recDSUB_ c r) s
    (Home.UD s.mem c.Rs - Home.UD s.mem c.Rt) := by
  apply emits_of_mem
  by_cases h : c.Rs = c.Rt
  · rw [h, BitVec.sub_self]
    simpa [h] using clearReg_mem c.Rd
  · rw [Home.UD, Home.UD, join_sub]
    by_cases hd : c.Rd = c.Rs
    · simp [Home.put, h, hd, subFlags]
    · simp [Home.put, h, hd, subFlags]

variable {s₀ : Machine} {regs : CpuRegs}

theorem recADD_represents (h : Represents r s₀ regs) : Represents (recADD c r) s₀
    (regs.put c.Rd ((regs.UL c.Rs + regs.UL c.Rt).signExtend 64)) := by
  apply code0_of_emits (fun v w => (lo v + lo w).signExtend 64) h
  · exact fun _ => rfl
  · exact fun s => recADD_constv_emits (lo (r.constRegs c.Rs)) c.Rt
  · intro s
    rw [BitVec.add_comm]
    exact recADD_constv_emits (lo (r.constRegs c.Rt)) c.Rs
  · exact fun s => recADD_emits

theorem recDADD_represents (h : Represents r s₀ regs) :
    Represents (recDADD c r) s₀ (regs.put c.Rd (regs.UD c.Rs + regs.UD c.Rt)) := by
  apply code0_of_emits (fun v w => v + w) h
  · exact fun _ => rfl
  · exact fun s => recDADD_constv_emits (r.constRegs c.Rs) c.Rt
  · intro s
    rw [BitVec.add_comm]
    exact recDADD_constv_emits (r.constRegs c.Rt) c.Rs
  · exact fun s => recDADD_emits

theorem recSUB_represents (h : Represents r s₀ regs) : Represents (recSUB c r) s₀
    (regs.put c.Rd ((regs.UL c.Rs - regs.UL c.Rt).signExtend 64)) :=
  code0_of_emits (fun v w => (lo v - lo w).signExtend 64) h (fun _ => rfl)
    (fun _ => recSUB_consts_emits) (fun _ => recSUB_constt_emits) (fun _ => recSUB_emits)

theorem recDSUB_represents (h : Represents r s₀ regs) :
    Represents (recDSUB c r) s₀ (regs.put c.Rd (regs.UD c.Rs - regs.UD c.Rt)) :=
  code0_of_emits (fun v w => v - w) h (fun _ => rfl)
    (fun _ => recDSUB_consts_emits) (fun _ => recDSUB_constt_emits) (fun _ => recDSUB_emits)

end

end OmegaRed.R5900

/-! Generators of the set-on-less-than instructions. -/

namespace OmegaRed.R5900

open Lib.Halves Lib.X86

/-- The order that the instructions test. -/
def less (sign : Bool) (v w : BitVec 64) : Bool := if sign then v.slt w else v.ult w

/-- A comparison as the value of a register. -/
def truth (b : Bool) : BitVec 64 := if b then 1 else 0

def recSLT_const : Gen := folds Code.Rd fun c r =>
  truth ((r.constRegs c.Rs).slt (r.constRegs c.Rt))

/-- `st` when the second source is the constant. -/
def recSLTs_const (rd vreg : Fin 32) (cval : BitVec 64) (sign st : Bool) : X86Code :=
  [.mov .eax (.imm 1),
    .cmp (.mem (.gpr vreg 1)) (.imm (hi cval)),
    .jcc (if st then (if sign then .l else .b) else if sign then .g else .a) 1,
    .jcc (if st then (if sign then .g else .a) else if sign then .l else .b) 0,
    .cmp (.mem (.gpr vreg 0)) (.imm (lo cval)),
    .jcc (if st then .b else .a) 2,
    -- fail
    .label 0,
    .mov .eax (.imm 0),
    -- pass2, pass1
    .label 2,
    .label 1,
    .mov (.mem (.gpr rd 0)) .eax,
    .mov (.mem (.gpr rd 1)) (.imm 0)]

def recSLTs_ (rd rs rt : Fin 32) (sign : Bool) : X86Code :=
  [.mov .eax (.imm 1),
    .mov .edx (.mem (.gpr rs 1)),
    .cmp .edx (.mem (.gpr rt 1)),
    .jcc (if sign then .l else .b) 1,
    .jcc (if sign then .g else .a) 0,
    .mov .edx (.mem (.gpr rs 0)),
    .cmp .edx (.mem (.gpr rt 0)),
    .jcc .b 2,
    .label 0,
    .mov .eax (.imm 0),
    .label 2,
    .label 1,
    .mov (.mem (.gpr rd 0)) .eax,
    .mov (.mem (.gpr rd 1)) (.imm 0)]

def recSLT_consts : Gen := emits fun c r =>
  recSLTs_const c.Rd c.Rt (r.constRegs c.Rs) true false

def recSLT_constt : Gen := emits fun c r =>
  recSLTs_const c.Rd c.Rs (r.constRegs c.Rt) true true

def recSLT_ : Gen := emits fun c _ => recSLTs_ c.Rd c.Rs c.Rt true

def recSLT : Gen := eeRecompileCode0 recSLT_const recSLT_consts recSLT_constt recSLT_ true

def recSLTU_const : Gen := folds Code.Rd fun c r =>
  truth ((r.constRegs c.Rs).ult (r.constRegs c.Rt))

def recSLTU_consts : Gen := emits fun c r =>
  recSLTs_const c.Rd c.Rt (r.constRegs c.Rs) false false

def recSLTU_constt : Gen := emits fun c r =>
  recSLTs_const c.Rd c.Rs (r.constRegs c.Rt) false true

def recSLTU_ : Gen := emits fun c _ => recSLTs_ c.Rd c.Rs c.Rt false

def recSLTU : Gen := eeRecompileCode0 recSLTU_const recSLTU_consts recSLTU_constt recSLTU_ true

section

variable {c : Code} {r : Rec} {s : Machine} {rd : Fin 32}

theorem less_join (sign : Bool) (h l h' l' : BitVec 32) :
    less sign (join h l) (join h' l') =
      if (if sign then h.slt h' else h.ult h') = true then true
      else if (if sign then h'.slt h else h'.ult h) = true then false else l.ult l' := by
  cases sign
  · rw [less, if_neg (by decide), ult_join, Bool.eq_iff_iff]
    simp only [BitVec.ult, Bool.or_eq_true, Bool.and_eq_true, decide_eq_true_eq, beq_iff_eq,
      BitVec.toNat_inj.symm]
    grind
  · rw [less, if_pos rfl, slt_join, Bool.eq_iff_iff]
    simp only [BitVec.slt, BitVec.ult, Bool.or_eq_true, Bool.and_eq_true, decide_eq_true_eq,
      beq_iff_eq, BitVec.toInt_inj.symm]
    grind

theorem lo_truth (b : Bool) : lo (truth b) = if b then 1#32 else 0#32 := by cases b <;> decide
theorem hi_truth (b : Bool) : hi (truth b) = 0#32 := by cases b <;> decide

theorem branches_mem (p q t : Bool) {m : Home} {l₀ l₁ : Loc} {a₁ a₂ a₃ a₄ : Machine}
    (h₁ : a₁.mem = Function.update (Function.update m l₀ 1#32) l₁ 0#32)
    (h₂ : a₂.mem = Function.update (Function.update m l₀ 0#32) l₁ 0#32)
    (h₃ : a₃.mem = Function.update (Function.update m l₀ 1#32) l₁ 0#32)
    (h₄ : a₄.mem = Function.update (Function.update m l₀ 0#32) l₁ 0#32) :
    ∃ a, (if p = true then some a₁ else if q = true then some a₂
        else if t = true then some a₃ else some a₄) = some a ∧
      a.mem = Function.update (Function.update m l₀
        (if p = true ∨ q = false ∧ t = true then 1#32 else 0#32)) l₁ 0#32 := by
  cases p
  · cases q
    · cases t
      · exact ⟨a₄, rfl, h₄⟩
      · exact ⟨a₃, rfl, h₃⟩
    · exact ⟨a₂, rfl, h₂⟩
  · exact ⟨a₁, rfl, h₁⟩

theorem recSLTs_emits (rs rt : Fin 32) (sign : Bool) :
    Emits rd r (r.emit (recSLTs_ rd rs rt sign)) s
      (truth (less sign (Home.UD s.mem rs) (Home.UD s.mem rt))) := by
  apply emits_of_mem
  rw [Home.UD, Home.UD, less_join, Home.put, lo_truth, hi_truth, recSLTs_]
  cases sign
  all_goals
    simp
    exact branches_mem _ _ _ rfl rfl rfl rfl

theorem recSLTs_consts_emits (vreg : Fin 32) (cval : BitVec 64) (sign : Bool) :
    Emits rd r (r.emit (recSLTs_const rd vreg cval sign false)) s
      (truth (less sign cval (Home.UD s.mem vreg))) := by
  apply emits_of_mem
  rw [← join_hi_lo cval, Home.UD, less_join, Home.put, lo_truth, hi_truth, recSLTs_const]
  cases sign
  all_goals
    simp
    exact branches_mem _ _ _ rfl rfl rfl rfl

theorem recSLTs_constt_emits (vreg : Fin 32) (cval : BitVec 64) (sign : Bool) :
    Emits rd r (r.emit (recSLTs_const rd vreg cval sign true)) s
      (truth (less sign (Home.UD s.mem vreg) cval)) := by
  apply emits_of_mem
  rw [← join_hi_lo cval, Home.UD, less_join, Home.put, lo_truth, hi_truth, recSLTs_const]
  cases sign
  all_goals
    simp
    exact branches_mem _ _ _ rfl rfl rfl rfl

variable {s₀ : Machine} {regs : CpuRegs}

theorem recSLT_represents (h : Represents r s₀ regs) : Represents (recSLT c r) s₀
    (regs.put c.Rd (truth ((regs.UD c.Rs).slt (regs.UD c.Rt)))) :=
  code0_of_emits (fun v w => truth (v.slt w)) h (fun _ => rfl)
    (fun _ => recSLTs_consts_emits c.Rt (r.constRegs c.Rs) true)
    (fun _ => recSLTs_constt_emits c.Rs (r.constRegs c.Rt) true)
    (fun _ => recSLTs_emits c.Rs c.Rt true)

theorem recSLTU_represents (h : Represents r s₀ regs) : Represents (recSLTU c r) s₀
    (regs.put c.Rd (truth ((regs.UD c.Rs).ult (regs.UD c.Rt)))) :=
  code0_of_emits (fun v w => truth (v.ult w)) h (fun _ => rfl)
    (fun _ => recSLTs_consts_emits c.Rt (r.constRegs c.Rs) false)
    (fun _ => recSLTs_constt_emits c.Rs (r.constRegs c.Rt) false)
    (fun _ => recSLTs_emits c.Rs c.Rt false)

end

end OmegaRed.R5900
