import OmegaRed.R5900.Arit

/-! Generators of the shifts. -/

namespace OmegaRed.R5900

open Lib.Halves Lib.X86

/-- A 32-bit shift by a constant; `recSLLs_`, `recSRLs_` and `recSRAs_` are its cases. -/
def shifts32 (o : Shift) (rd rt : Fin 32) (sa : Nat) : X86Code :=
  .mov .eax (.mem (.gpr rt 0)) ::
    (if sa = 0 then [] else [.shift o .eax (.ofNat 32 sa)]) ++
    [.cdq, .mov (.mem (.gpr rd 0)) .eax, .mov (.mem (.gpr rd 1)) .edx]

def recSLLs_ (rd rt : Fin 32) (sa : Nat) : X86Code := shifts32 .shl rd rt sa
def recSRLs_ (rd rt : Fin 32) (sa : Nat) : X86Code := shifts32 .shr rd rt sa
def recSRAs_ (rd rt : Fin 32) (sa : Nat) : X86Code := shifts32 .sar rd rt sa

def recSLL_const : Gen := folds Code.Rd fun c r => (lo (r.constRegs c.Rt) <<< c.Sa.val).signExtend 64
def recSLL_ : Gen := emits fun c _ => recSLLs_ c.Rd c.Rt c.Sa.val
def recSLL : Gen := eeRecompileCode2 recSLL_const recSLL_

def recSRL_const : Gen := folds Code.Rd fun c r => (lo (r.constRegs c.Rt) >>> c.Sa.val).signExtend 64
def recSRL_ : Gen := emits fun c _ => recSRLs_ c.Rd c.Rt c.Sa.val
def recSRL : Gen := eeRecompileCode2 recSRL_const recSRL_

def recSRA_const : Gen := folds Code.Rd fun c r =>
  ((lo (r.constRegs c.Rt)).sshiftRight c.Sa.val).signExtend 64
def recSRA_ : Gen := emits fun c _ => recSRAs_ c.Rd c.Rt c.Sa.val
def recSRA : Gen := eeRecompileCode2 recSRA_const recSRA_

/-- Loads `rt` and makes the SSE register of `rd` a copy of it. -/
def allocShift (rd rt : Fin 32) (r : Rec) : Rec := (r.allocRead rt).allocWrite rd

def copyShift (rd rt : Fin 32) : X86Code :=
  if rt ≠ rd then [.movdqa (.gpr rd) (.gpr rt)] else []

/-- `xMOVL.PD`, which stores the low 64 bits -/
def storeLow (rd : Fin 32) : Instr Loc XmmReg := .movlpd (.gpr rd 0) (.gpr rd 1) (.gpr rd)

def recDSLLs_ (rd rt : Fin 32) (sa : Nat) (r : Rec) : Rec :=
  (allocShift rd rt r).emit (copyShift rd rt ++ [.psllq (.gpr rd) (.ofNat 8 sa), storeLow rd])

def recDSLL_const : Gen := folds Code.Rd fun c r => r.constRegs c.Rt <<< c.Sa.val
def recDSLL_ : Gen := fun c => recDSLLs_ c.Rd c.Rt c.Sa.val
def recDSLL : Gen := eeRecompileCode2 recDSLL_const recDSLL_

def recDSRLs_ (rd rt : Fin 32) (sa : Nat) (r : Rec) : Rec :=
  (allocShift rd rt r).emit (copyShift rd rt ++ [.psrlq (.gpr rd) (.ofNat 8 sa), storeLow rd])

def recDSRL_const : Gen := folds Code.Rd fun c r => r.constRegs c.Rt >>> c.Sa.val
def recDSRL_ : Gen := fun c => recDSRLs_ c.Rd c.Rt c.Sa.val
def recDSRL : Gen := eeRecompileCode2 recDSRL_const recDSRL_

def recDSRAs_ (rd rt : Fin 32) (sa : Nat) (r : Rec) : Rec :=
  (allocShift rd rt r).emit (copyShift rd rt ++
    (if sa = 0 then []
      else [.movdqa .t0 (.gpr rt), .psrad .t0 (.ofNat 32 sa), .psrlq (.gpr rd) (.ofNat 8 sa),
        -- 0x55 broadcasts dword 1
        .pshufd .t0 .t0 fun _ => 1,
        .punpckldq (.gpr rd) .t0]) ++ [storeLow rd])

def recDSRA_const : Gen := folds Code.Rd fun c r => (r.constRegs c.Rt).sshiftRight c.Sa.val
def recDSRA_ : Gen := fun c => recDSRAs_ c.Rd c.Rt c.Sa.val
def recDSRA : Gen := eeRecompileCode2 recDSRA_const recDSRA_

def recDSLL32s_ (rd rt : Fin 32) (sa : Nat) : X86Code :=
  .mov .eax (.mem (.gpr rt 0)) ::
    (if sa = 0 then [] else [.shift .shl .eax (.ofNat 32 sa)]) ++
    [.mov (.mem (.gpr rd 0)) (.imm 0), .mov (.mem (.gpr rd 1)) .eax]

def recDSLL32_const : Gen := folds Code.Rd fun c r => r.constRegs c.Rt <<< (c.Sa.val + 32)
def recDSLL32_ : Gen := emits fun c _ => recDSLL32s_ c.Rd c.Rt c.Sa.val
def recDSLL32 : Gen := eeRecompileCode2 recDSLL32_const recDSLL32_

def recDSRL32s_ (rd rt : Fin 32) (sa : Nat) : X86Code :=
  .mov .eax (.mem (.gpr rt 1)) ::
    (if sa = 0 then [] else [.shift .shr .eax (.ofNat 32 sa)]) ++
    [.mov (.mem (.gpr rd 0)) .eax, .mov (.mem (.gpr rd 1)) (.imm 0)]

def recDSRL32_const : Gen := folds Code.Rd fun c r => r.constRegs c.Rt >>> (c.Sa.val + 32)
def recDSRL32_ : Gen := emits fun c _ => recDSRL32s_ c.Rd c.Rt c.Sa.val
def recDSRL32 : Gen := eeRecompileCode2 recDSRL32_const recDSRL32_

def recDSRA32s_ (rd rt : Fin 32) (sa : Nat) : X86Code :=
  [.mov .eax (.mem (.gpr rt 1)), .cdq] ++
    (if sa = 0 then [] else [.shift .sar .eax (.ofNat 32 sa)]) ++
    [.mov (.mem (.gpr rd 0)) .eax, .mov (.mem (.gpr rd 1)) .edx]

def recDSRA32_const : Gen := folds Code.Rd fun c r => (r.constRegs c.Rt).sshiftRight (c.Sa.val + 32)
def recDSRA32_ : Gen := emits fun c _ => recDSRA32s_ c.Rd c.Rt c.Sa.val
def recDSRA32 : Gen := eeRecompileCode2 recDSRA32_const recDSRA32_

section

variable {c : Code} {r : Rec} {s : Machine} {rd : Fin 32}

theorem shifts32_emits (o : Shift) (rd rt : Fin 32) (sa : Nat) :
    Emits rd r (r.emit (shifts32 o rd rt sa)) s
      ((o.eval (lo (Home.UD s.mem rt)) (.ofNat 32 sa)).signExtend 64) := by
  apply emits_of_mem
  by_cases h : sa = 0
  · simp [shifts32, Home.put, Home.UD, h]
  · simp [shifts32, Home.put, Home.UD, h]

theorem toNat_count {sa : Nat} (hsa : sa < 32) : (BitVec.ofNat 32 sa).toNat % 32 = sa := by
  rw [BitVec.toNat_ofNat]
  omega

theorem toNat_count8 {sa : Nat} (hsa : sa < 32) : (BitVec.ofNat 8 sa).toNat = sa := by
  rw [BitVec.toNat_ofNat]
  omega

theorem recSLLs_emits (rt : Fin 32) {sa : Nat} (hsa : sa < 32) :
    Emits rd r (r.emit (recSLLs_ rd rt sa)) s
      ((lo (Home.UD s.mem rt) <<< sa).signExtend 64) := by
  have h := shifts32_emits (r := r) (s := s) .shl rd rt sa
  rwa [Shift.eval, toNat_count hsa] at h

theorem recSRLs_emits (rt : Fin 32) {sa : Nat} (hsa : sa < 32) :
    Emits rd r (r.emit (recSRLs_ rd rt sa)) s
      ((lo (Home.UD s.mem rt) >>> sa).signExtend 64) := by
  have h := shifts32_emits (r := r) (s := s) .shr rd rt sa
  rwa [Shift.eval, toNat_count hsa] at h

theorem recSRAs_emits (rt : Fin 32) {sa : Nat} (hsa : sa < 32) :
    Emits rd r (r.emit (recSRAs_ rd rt sa)) s
      (((lo (Home.UD s.mem rt)).sshiftRight sa).signExtend 64) := by
  have h := shifts32_emits (r := r) (s := s) .sar rd rt sa
  rwa [Shift.eval, toNat_count hsa] at h

/-- The code of `allocRead`. -/
def loadXmm (x : Fin 32) : X86Code :=
  if x = 0 then [.pxor (.gpr x) (.gpr x)] else [.movdqaLoad (.gpr x) (.gpr x)]

theorem allocRead_eq {x : Fin 32} (hx : r.hasConst x = false) :
    r.allocRead x = r.emit (loadXmm x) := by
  by_cases h0 : x = 0
  · simp [Rec.allocRead, loadXmm, h0]
  · simp [Rec.allocRead, loadXmm, h0, Rec.flushConstReg, hx]

theorem loadXmm_low {x : Fin 32} (hs : r.Sound s.mem) : ∃ s', exec (loadXmm x) s = some s' ∧
    s'.mem = s.mem ∧ (s'.xmm (.gpr x)).low = Home.UD s.mem x := by
  by_cases hx : x = 0
  · refine ⟨s.putX (.gpr x) fun _ => 0, by simp [loadXmm, hx], rfl, ?_⟩
    rw [hx, hs.zero_home]
    simpa [Xmm.low] using join_zero
  · refine ⟨s.putX (.gpr x) fun i => s.mem (.gpr x i), by simp [loadXmm, hx], rfl, ?_⟩
    simp [Xmm.low, Home.UD]

theorem copyShift_low (rd rt : Fin 32) : ∃ s', exec (copyShift rd rt) s = some s' ∧
    s'.mem = s.mem ∧ s'.xmm .rstemp = s.xmm .rstemp ∧ s'.xmm (.gpr rt) = s.xmm (.gpr rt) ∧
    s'.xmm (.gpr rd) = s.xmm (.gpr rt) := by
  by_cases h : rt = rd
  · exact ⟨s, by simp [copyShift, h], rfl, rfl, rfl, by rw [h]⟩
  · exact ⟨s.putX (.gpr rd) (s.xmm (.gpr rt)), by simp [copyShift, h], rfl, by simp, by simp [h],
      by simp⟩

/-- Code that follows the loading of `rt` finds its value in the SSE registers of `rt`, `rd`. -/
theorem allocShift_emits {rt : Fin 32} (ht : r.hasConst rt = false) (hs : r.Sound s.mem)
    {p : X86Code} {v : BitVec 64}
    (h : ∀ s' : Machine, s'.mem = s.mem → (s'.xmm (.gpr rt)).low = Home.UD s.mem rt →
      (s'.xmm (.gpr rd)).low = Home.UD s.mem rt →
      (exec p s').map State.mem = some (Home.put s.mem rd v)) :
    Emits rd r ((allocShift rd rt r).emit (copyShift rd rt ++ p)) s v := by
  obtain ⟨s₁, h₁, hm₁, hx₁⟩ := loadXmm_low (x := rt) hs
  obtain ⟨s₂, h₂, hm₂, -, ht₂, hd₂⟩ := copyShift_low (s := s₁) rd rt
  obtain ⟨s₃, h₃, hm₃⟩ := Option.map_eq_some_iff.mp
    (h s₂ (hm₂.trans hm₁) (ht₂ ▸ hx₁) (hd₂ ▸ hx₁))
  refine ⟨loadXmm rt ++ (copyShift rd rt ++ p), s₃, ?_, ?_, hm₃⟩
  · rw [allocShift, allocRead_eq ht]
    simp [Rec.allocWrite, Rec.delConst, Rec.emit]
  · rw [exec_append s h₁, exec_append s₁ h₂, h₃]

theorem recDSLLs_emits {rt : Fin 32} {sa : Nat} (hsa : sa < 32) (ht : r.hasConst rt = false)
    (hs : r.Sound s.mem) :
    Emits rd r (recDSLLs_ rd rt sa r) s (Home.UD s.mem rt <<< sa) := by
  apply allocShift_emits ht hs
  intro s' hm _ hd
  simp [storeLow, Home.put, hm, hd, toNat_count8 hsa]

theorem recDSRLs_emits {rt : Fin 32} {sa : Nat} (hsa : sa < 32) (ht : r.hasConst rt = false)
    (hs : r.Sound s.mem) :
    Emits rd r (recDSRLs_ rd rt sa r) s (Home.UD s.mem rt >>> sa) := by
  apply allocShift_emits ht hs
  intro s' hm _ hd
  simp [storeLow, Home.put, hm, hd, toNat_count8 hsa]

theorem recDSRAs_emits {rt : Fin 32} {sa : Nat} (hsa : sa < 32) (ht : r.hasConst rt = false)
    (hs : r.Sound s.mem) :
    Emits rd r (recDSRAs_ rd rt sa r) s ((Home.UD s.mem rt).sshiftRight sa) := by
  rw [recDSRAs_, List.append_assoc]
  apply allocShift_emits ht hs
  intro s' hm ht hd
  by_cases h : sa = 0
  · simp [h, storeLow, Home.put, hm, (s'.xmm (.gpr rd)).zero_eq, (s'.xmm (.gpr rd)).one_eq, hd]
  · rw [Home.UD, join_sshiftRight_lt _ _ hsa]
    have ht₁ : s'.xmm (.gpr rt) 1 = s.mem (.gpr rt 1) := by
      rw [(s'.xmm (.gpr rt)).one_eq, ht, Home.UD, hi_join]
    simp [h, storeLow, Home.put, hm, hd, ht₁, Home.UD, toNat_count8 hsa, Nat.mod_eq_of_lt hsa]

theorem recDSLL32s_emits (rd rt : Fin 32) {sa : Nat} (hsa : sa < 32) :
    Emits rd r (r.emit (recDSLL32s_ rd rt sa)) s (Home.UD s.mem rt <<< (sa + 32)) := by
  apply emits_of_mem
  rw [Home.UD, join_shl]
  by_cases h : sa = 0
  · simp [recDSLL32s_, Home.put, h]
  · simp [recDSLL32s_, Home.put, h, Shift.eval, Nat.mod_eq_of_lt hsa]

theorem recDSRL32s_emits (rd rt : Fin 32) {sa : Nat} (hsa : sa < 32) :
    Emits rd r (r.emit (recDSRL32s_ rd rt sa)) s (Home.UD s.mem rt >>> (sa + 32)) := by
  apply emits_of_mem
  rw [Home.UD, join_shr]
  by_cases h : sa = 0
  · simp [recDSRL32s_, Home.put, h]
  · simp [recDSRL32s_, Home.put, h, Shift.eval, Nat.mod_eq_of_lt hsa]

theorem recDSRA32s_emits (rd rt : Fin 32) {sa : Nat} (hsa : sa < 32) :
    Emits rd r (r.emit (recDSRA32s_ rd rt sa)) s ((Home.UD s.mem rt).sshiftRight (sa + 32)) := by
  apply emits_of_mem
  rw [Home.UD, join_sshiftRight]
  by_cases h : sa = 0
  · simp [recDSRA32s_, Home.put, h]
  · simp [recDSRA32s_, Home.put, h, Shift.eval, Nat.mod_eq_of_lt hsa]

variable {s₀ : Machine} {regs : CpuRegs}

theorem recSLL_represents (h : Represents r s₀ regs) : Represents (recSLL c r) s₀
    (regs.put c.Rd ((regs.UL c.Rt <<< c.Sa.val).signExtend 64)) :=
  code2_represents (fun v => (lo v <<< c.Sa.val).signExtend 64) h (fun _ => rfl)
    fun _ _ _ => recSLLs_emits c.Rt c.Sa.isLt

theorem recSRL_represents (h : Represents r s₀ regs) : Represents (recSRL c r) s₀
    (regs.put c.Rd ((regs.UL c.Rt >>> c.Sa.val).signExtend 64)) :=
  code2_represents (fun v => (lo v >>> c.Sa.val).signExtend 64) h (fun _ => rfl)
    fun _ _ _ => recSRLs_emits c.Rt c.Sa.isLt

theorem recSRA_represents (h : Represents r s₀ regs) : Represents (recSRA c r) s₀
    (regs.put c.Rd (((regs.UL c.Rt).sshiftRight c.Sa.val).signExtend 64)) :=
  code2_represents (fun v => ((lo v).sshiftRight c.Sa.val).signExtend 64) h (fun _ => rfl)
    fun _ _ _ => recSRAs_emits c.Rt c.Sa.isLt

theorem recDSLL_represents (h : Represents r s₀ regs) : Represents (recDSLL c r) s₀
    (regs.put c.Rd (regs.UD c.Rt <<< c.Sa.val)) :=
  code2_represents (fun v => v <<< c.Sa.val) h (fun _ => rfl)
    fun _ ht hs => recDSLLs_emits c.Sa.isLt ht hs

theorem recDSRL_represents (h : Represents r s₀ regs) : Represents (recDSRL c r) s₀
    (regs.put c.Rd (regs.UD c.Rt >>> c.Sa.val)) :=
  code2_represents (fun v => v >>> c.Sa.val) h (fun _ => rfl)
    fun _ ht hs => recDSRLs_emits c.Sa.isLt ht hs

theorem recDSRA_represents (h : Represents r s₀ regs) : Represents (recDSRA c r) s₀
    (regs.put c.Rd ((regs.UD c.Rt).sshiftRight c.Sa.val)) :=
  code2_represents (fun v => v.sshiftRight c.Sa.val) h (fun _ => rfl)
    fun _ ht hs => recDSRAs_emits c.Sa.isLt ht hs

theorem recDSLL32_represents (h : Represents r s₀ regs) : Represents (recDSLL32 c r) s₀
    (regs.put c.Rd (regs.UD c.Rt <<< (c.Sa.val + 32))) :=
  code2_represents (fun v => v <<< (c.Sa.val + 32)) h (fun _ => rfl)
    fun _ _ _ => recDSLL32s_emits c.Rd c.Rt c.Sa.isLt

theorem recDSRL32_represents (h : Represents r s₀ regs) : Represents (recDSRL32 c r) s₀
    (regs.put c.Rd (regs.UD c.Rt >>> (c.Sa.val + 32))) :=
  code2_represents (fun v => v >>> (c.Sa.val + 32)) h (fun _ => rfl)
    fun _ _ _ => recDSRL32s_emits c.Rd c.Rt c.Sa.isLt

theorem recDSRA32_represents (h : Represents r s₀ regs) : Represents (recDSRA32 c r) s₀
    (regs.put c.Rd ((regs.UD c.Rt).sshiftRight (c.Sa.val + 32))) :=
  code2_represents (fun v => v.sshiftRight (c.Sa.val + 32)) h (fun _ => rfl)
    fun _ _ _ => recDSRA32s_emits c.Rd c.Rt c.Sa.isLt

end

end OmegaRed.R5900
