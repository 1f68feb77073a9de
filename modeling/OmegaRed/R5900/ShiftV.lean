import OmegaRed.R5900.Shift

/-! Generators of the shifts by a register. -/

namespace OmegaRed.R5900

open Lib.Halves Lib.X86

/-- `recSLLV_constt`, `recSRLV_constt` and `recSRAV_constt` -/
def shiftV_constt (o : Shift) : Gen := emits fun c r =>
  .mov .ecx (.mem (.gpr c.Rs 0)) :: .mov .eax (.imm (lo (r.constRegs c.Rt))) ::
    .alu .and .ecx (.imm 0x1f) :: .shiftCl o .eax :: eeSignExtendTo c.Rd false

/-- `recSLLV_`, `recSRLV_` and `recSRAV_` -/
def shiftV_ (o : Shift) : Gen := emits fun c _ =>
  .mov .eax (.mem (.gpr c.Rt 0)) ::
    (if c.Rs = 0 then []
      else [.mov .ecx (.mem (.gpr c.Rs 0)), .alu .and .ecx (.imm 0x1f), .shiftCl o .eax]) ++
    [.cdq, .mov (.mem (.gpr c.Rd 0)) .eax, .mov (.mem (.gpr c.Rd 1)) .edx]

def recSLLV_const : Gen := folds Code.Rd fun c r =>
  (lo (r.constRegs c.Rt) <<< sa5 (r.constRegs c.Rs)).signExtend 64
def recSLLV_consts : Gen := emits fun c r => recSLLs_ c.Rd c.Rt (sa5 (r.constRegs c.Rs))
def recSLLV_constt : Gen := shiftV_constt .shl
def recSLLV_ : Gen := shiftV_ .shl
def recSLLV : Gen := eeRecompileCode0 recSLLV_const recSLLV_consts recSLLV_constt recSLLV_ true

def recSRLV_const : Gen := folds Code.Rd fun c r =>
  (lo (r.constRegs c.Rt) >>> sa5 (r.constRegs c.Rs)).signExtend 64
def recSRLV_consts : Gen := emits fun c r => recSRLs_ c.Rd c.Rt (sa5 (r.constRegs c.Rs))
def recSRLV_constt : Gen := shiftV_constt .shr
def recSRLV_ : Gen := shiftV_ .shr
def recSRLV : Gen := eeRecompileCode0 recSRLV_const recSRLV_consts recSRLV_constt recSRLV_ true

def recSRAV_const : Gen := folds Code.Rd fun c r =>
  ((lo (r.constRegs c.Rt)).sshiftRight (sa5 (r.constRegs c.Rs))).signExtend 64
def recSRAV_consts : Gen := emits fun c r => recSRAs_ c.Rd c.Rt (sa5 (r.constRegs c.Rs))
def recSRAV_constt : Gen := shiftV_constt .sar
def recSRAV_ : Gen := shiftV_ .sar
def recSRAV : Gen := eeRecompileCode0 recSRAV_const recSRAV_consts recSRAV_constt recSRAV_ true

/-- The count, in `rstemp`. -/
def loadCount (rs : Fin 32) : X86Code :=
  [.mov .eax (.mem (.gpr rs 0)), .alu .and .eax (.imm 0x3f), .movdzx .rstemp .eax]

/-- `recSetShiftV` followed by `p` -/
def setShiftV (p : Fin 32 → X86Code) : Gen := fun c r =>
  (allocShift c.Rd c.Rt r).emit (loadCount c.Rs ++ copyShift c.Rd c.Rt ++ p c.Rd)

/-- `recSetConstShiftV` and the load of `rt`, followed by `p` -/
def setConstShiftV (p : Fin 32 → X86Code) : Gen := fun c r =>
  ((r.flushConstReg c.Rt).allocWrite c.Rd).emit
    (loadCount c.Rs ++ .movdqaLoad (.gpr c.Rd) (.gpr c.Rt) :: p c.Rd)

def shlV (rd : Fin 32) : X86Code := [.psllqX (.gpr rd) .rstemp, storeLow rd]
def shrV (rd : Fin 32) : X86Code := [.psrlqX (.gpr rd) .rstemp, storeLow rd]

def sarV (rd : Fin 32) : X86Code :=
  [.pxor .t0 .t0,
    -- the sign in all dwords of t0
    .movdqa .t1 (.gpr rd),
    .pcmpgtd .t0 (.gpr rd),
    .pshufd .t0 .t0 fun _ => 1,
    -- the complement of the count in t1
    .mov .eax (.imm 64),
    .movdzx .t1 .eax,
    .psubd .t1 .rstemp,
    .psrlqX (.gpr rd) .rstemp,
    .psllqX .t0 .t1,
    .por (.gpr rd) .t0,
    storeLow rd]

def recDSLLV_const : Gen := folds Code.Rd fun c r => r.constRegs c.Rt <<< sa6 (r.constRegs c.Rs)

def recDSLLV_consts : Gen := fun c r =>
  let sa := sa6 (r.constRegs c.Rs)
  if sa < 32 then recDSLLs_ c.Rd c.Rt sa r else r.emit (recDSLL32s_ c.Rd c.Rt (sa - 32))

def recDSLLV_constt : Gen := setConstShiftV shlV
def recDSLLV_ : Gen := setShiftV shlV
def recDSLLV : Gen := eeRecompileCode0 recDSLLV_const recDSLLV_consts recDSLLV_constt recDSLLV_ true

def recDSRLV_const : Gen := folds Code.Rd fun c r => r.constRegs c.Rt >>> sa6 (r.constRegs c.Rs)

def recDSRLV_consts : Gen := fun c r =>
  let sa := sa6 (r.constRegs c.Rs)
  if sa < 32 then recDSRLs_ c.Rd c.Rt sa r else r.emit (recDSRL32s_ c.Rd c.Rt (sa - 32))

def recDSRLV_constt : Gen := setConstShiftV shrV
def recDSRLV_ : Gen := setShiftV shrV
def recDSRLV : Gen := eeRecompileCode0 recDSRLV_const recDSRLV_consts recDSRLV_constt recDSRLV_ true

def recDSRAV_const : Gen := folds Code.Rd fun c r =>
  (r.constRegs c.Rt).sshiftRight (sa6 (r.constRegs c.Rs))

def recDSRAV_consts : Gen := fun c r =>
  let sa := sa6 (r.constRegs c.Rs)
  if sa < 32 then recDSRAs_ c.Rd c.Rt sa r else r.emit (recDSRA32s_ c.Rd c.Rt (sa - 32))

def recDSRAV_constt : Gen := setConstShiftV sarV
def recDSRAV_ : Gen := setShiftV sarV
def recDSRAV : Gen := eeRecompileCode0 recDSRAV_const recDSRAV_consts recDSRAV_constt recDSRAV_ true

section

variable {c : Code} {r : Rec} {s : Machine}

theorem sa5_lt (v : BitVec 64) : sa5 v < 32 := by
  rw [sa5, BitVec.toNat_and]
  exact Nat.lt_of_le_of_lt Nat.and_le_right (by decide)

theorem sa6_lt (v : BitVec 64) : sa6 v < 64 := by
  rw [sa6, BitVec.toNat_and]
  exact Nat.lt_of_le_of_lt Nat.and_le_right (by decide)

theorem eval_sa5 (o : Shift) (v : BitVec 32) (w : BitVec 64) :
    o.eval v (lo w &&& 0x1f) = o.amount v (sa5 w) := by
  exact congrArg (o.amount v) (Nat.mod_eq_of_lt (sa5_lt w))

theorem shiftV_constt_emits (o : Shift) : Emits c.Rd r (shiftV_constt o c r) s
    ((o.amount (lo (r.constRegs c.Rt)) (sa5 (Home.UD s.mem c.Rs))).signExtend 64) := by
  apply emits_of_mem
  rw [← eval_sa5]
  simp [eeSignExtendTo, Home.put, Home.UD]

theorem shiftV_emits (o : Shift) (hs : r.Sound s.mem) : Emits c.Rd r (shiftV_ o c r) s
    ((o.amount (lo (Home.UD s.mem c.Rt)) (sa5 (Home.UD s.mem c.Rs))).signExtend 64) := by
  apply emits_of_mem
  rw [← eval_sa5]
  by_cases h : c.Rs = 0
  · rw [h, hs.zero_home]
    simp [Home.put, Home.UD, h]
  · simp [Home.put, Home.UD, h]

/-- Code that shifts the SSE register of `rd` by the count in `rstemp` and stores it. -/
def ShiftsBy (p : Fin 32 → X86Code) (f : BitVec 64 → Nat → BitVec 64) : Prop :=
  ∀ (rd : Fin 32) (s : Machine) (n : BitVec 32), n.toNat < 64 → s.xmm .rstemp = ![n, 0, 0, 0] →
    (exec (p rd) s).map State.mem =
      some (Home.put s.mem rd (f (s.xmm (.gpr rd)).low n.toNat))

theorem low_count {x : Xmm} {n : BitVec 32} (h : x = ![n, 0, 0, 0]) : x.low.toNat = n.toNat := by
  rw [h, Xmm.low, toNat_join]
  simp

theorem shlV_shifts : ShiftsBy shlV fun v n => v <<< n := by
  intro rd s n _ hr
  simp [shlV, storeLow, Home.put, low_count hr]

theorem shrV_shifts : ShiftsBy shrV fun v n => v >>> n := by
  intro rd s n _ hr
  simp [shrV, storeLow, Home.put, low_count hr]

theorem sarV_shifts : ShiftsBy sarV fun v n => v.sshiftRight n := by
  intro rd s n hn hr
  have hn' : n.toNat ≤ 64 := hn.le
  have h64 : (Xmm.low fun i => ![64#32, 0#32, 0#32, 0#32] i - ![n, 0#32, 0#32, 0#32] i).toNat =
      64 - n.toNat := by
    rw [Xmm.low, toNat_join]
    simp
    omega
  have hsign : (Xmm.low fun _ => if (s.xmm (.gpr rd) 1).slt 0#32 = true then 4294967295#32
      else 0#32) = join (signWord (s.xmm (.gpr rd) 1)) (signWord (s.xmm (.gpr rd) 1)) := by
    rw [Xmm.low, BitVec.slt_zero_eq_msb]
    rfl
  dsimp only
  rw [Xmm.low, sshiftRight_eq_or _ _ hn, Home.put, lo_or, hi_or, ← Xmm.low]
  have hcount := low_count hr
  rw [hr] at hcount
  simp only [BitVec.ofNat_eq_ofNat] at hcount
  simp [sarV, storeLow, hr, h64, hsign, hcount]

theorem loadCount_mem (rs : Fin 32) : ∃ s', exec (loadCount rs) s = some s' ∧ s'.mem = s.mem ∧
    (∀ x, s'.xmm (.gpr x) = s.xmm (.gpr x)) ∧
    s'.xmm .rstemp = ![lo (Home.UD s.mem rs) &&& 0x3f, 0, 0, 0] := by
  obtain ⟨s', hs', h⟩ : ∃ s', exec (loadCount rs) s = some s' ∧ s' =
      { s with
        eax := lo (Home.UD s.mem rs) &&& 0x3f
        flags := some (logicFlags (lo (Home.UD s.mem rs) &&& 0x3f))
        xmm := Function.update s.xmm .rstemp ![lo (Home.UD s.mem rs) &&& 0x3f, 0, 0, 0] } := by
    simp [loadCount, Home.UD]
  exact ⟨s', hs', by rw [h], fun x => by simp [h], by simp [h]⟩

theorem setShiftV_emits {p : Fin 32 → X86Code} {f : BitVec 64 → Nat → BitVec 64}
    (hp : ShiftsBy p f) (ht : r.hasConst c.Rt = false) (hs : r.Sound s.mem) :
    Emits c.Rd r (setShiftV p c r) s (f (Home.UD s.mem c.Rt) (sa6 (Home.UD s.mem c.Rs))) := by
  obtain ⟨s₁, h₁, hm₁, hx₁⟩ := loadXmm_low (x := c.Rt) hs
  obtain ⟨s₂, h₂, hm₂, hx₂, hr₂⟩ := loadCount_mem (s := s₁) c.Rs
  obtain ⟨s₃, h₃, hm₃, hr₃, -, hd₃⟩ := copyShift_low (s := s₂) c.Rd c.Rt
  obtain ⟨s₄, h₄, hm₄⟩ := Option.map_eq_some_iff.mp
    (hp c.Rd s₃ _ (sa6_lt (Home.UD s₁.mem c.Rs)) (hr₃.trans hr₂))
  refine ⟨loadXmm c.Rt ++ (loadCount c.Rs ++ (copyShift c.Rd c.Rt ++ p c.Rd)), s₄, ?_, ?_, ?_⟩
  · rw [setShiftV, allocShift, allocRead_eq ht]
    simp [Rec.allocWrite, Rec.delConst, Rec.emit]
  · rw [exec_append s h₁, exec_append s₁ h₂, exec_append s₂ h₃, h₄]
  · rw [hm₄, hd₃, hx₂, hx₁, hm₃, hm₂, hm₁]
    rfl

theorem setConstShiftV_puts {p : Fin 32 → X86Code} {f : BitVec 64 → Nat → BitVec 64}
    (hp : ShiftsBy p f) (hd : c.Rd ≠ 0) (hs : r.hasConst c.Rs = false)
    (ht : r.hasConst c.Rt = true) :
    Puts c.Rd c r (setConstShiftV p c r) fun v w => f w (sa6 v) := by
  intro s₀ regs h
  have hf : (r.flushConstReg c.Rt).hasConst = r.hasConst := by
    rw [Rec.flushConstReg]
    split <;> rfl
  have hflushed : (r.flushConstReg c.Rt).flushedConst c.Rt = true := by
    rw [Rec.flushConstReg]
    split
    · simp
    · next hn => simpa [ht] using hn
  refine puts_of_emits (f := fun v w => f w (sa6 v)) (r := r.flushConstReg c.Rt) hd
    (fun s hsound => ?_) s₀ regs (h.flushConstReg c.Rt)
  rw [regs_UD, regs_UD, hf, if_pos ht, if_neg (by simp [hs]),
    ← hsound.flushed c.Rt (hf ▸ ht) hflushed]
  obtain ⟨s₁, h₁, hm₁, hx₁, hr₁⟩ := loadCount_mem (s := s) c.Rs
  obtain ⟨s₂, h₂, hm₂⟩ := Option.map_eq_some_iff.mp
    (hp c.Rd (s₁.putX (.gpr c.Rd) fun i => s₁.mem (.gpr c.Rt i)) _
      (sa6_lt (Home.UD s.mem c.Rs)) (by simpa using hr₁))
  refine ⟨loadCount c.Rs ++ .movdqaLoad (.gpr c.Rd) (.gpr c.Rt) :: p c.Rd, s₂, ?_, ?_, ?_⟩
  · simp [setConstShiftV, Rec.allocWrite, Rec.delConst, Rec.emit]
  · rw [exec_append s h₁, exec_movdqaLoad, h₂]
  · rw [hm₂]
    simp [Xmm.low, Home.UD, hm₁, sa6]

variable {s₀ : Machine} {regs : CpuRegs}

theorem recSLLV_represents (h : Represents r s₀ regs) : Represents (recSLLV c r) s₀
    (regs.put c.Rd ((regs.UL c.Rt <<< sa5 (regs.UD c.Rs)).signExtend 64)) := by
  apply code0_represents (fun v w => (lo w <<< sa5 v).signExtend 64) h
  · exact fun _ => rfl
  · exact fun hd hs ht => puts_consts hd hs ht fun s _ => recSLLs_emits c.Rt (sa5_lt _)
  · exact fun hd hs ht => puts_constt hd hs ht fun s => shiftV_constt_emits .shl
  · exact fun hd hs ht => puts_noconst hd hs ht fun s hsound => shiftV_emits .shl hsound

theorem recSRLV_represents (h : Represents r s₀ regs) : Represents (recSRLV c r) s₀
    (regs.put c.Rd ((regs.UL c.Rt >>> sa5 (regs.UD c.Rs)).signExtend 64)) := by
  apply code0_represents (fun v w => (lo w >>> sa5 v).signExtend 64) h
  · exact fun _ => rfl
  · exact fun hd hs ht => puts_consts hd hs ht fun s _ => recSRLs_emits c.Rt (sa5_lt _)
  · exact fun hd hs ht => puts_constt hd hs ht fun s => shiftV_constt_emits .shr
  · exact fun hd hs ht => puts_noconst hd hs ht fun s hsound => shiftV_emits .shr hsound

theorem recSRAV_represents (h : Represents r s₀ regs) : Represents (recSRAV c r) s₀
    (regs.put c.Rd (((regs.UL c.Rt).sshiftRight (sa5 (regs.UD c.Rs))).signExtend 64)) := by
  apply code0_represents (fun v w => ((lo w).sshiftRight (sa5 v)).signExtend 64) h
  · exact fun _ => rfl
  · exact fun hd hs ht => puts_consts hd hs ht fun s _ => recSRAs_emits c.Rt (sa5_lt _)
  · exact fun hd hs ht => puts_constt hd hs ht fun s => shiftV_constt_emits .sar
  · exact fun hd hs ht => puts_noconst hd hs ht fun s hsound => shiftV_emits .sar hsound

theorem recDSLLV_represents (h : Represents r s₀ regs) : Represents (recDSLLV c r) s₀
    (regs.put c.Rd (regs.UD c.Rt <<< sa6 (regs.UD c.Rs))) := by
  apply code0_represents (fun v w => w <<< sa6 v) h
  · exact fun _ => rfl
  · intro hd hs ht
    apply puts_consts hd hs ht
    intro s hsound
    rw [recDSLLV_consts]
    by_cases hn : sa6 (r.constRegs c.Rs) < 32
    · rw [if_pos hn]
      exact recDSLLs_emits hn ht hsound
    · rw [if_neg hn]
      have hm : sa6 (r.constRegs c.Rs) - 32 + 32 = sa6 (r.constRegs c.Rs) := by omega
      have h32 := recDSLL32s_emits (r := r) (s := s) c.Rd c.Rt
        (show sa6 (r.constRegs c.Rs) - 32 < 32 by have h64 := sa6_lt (r.constRegs c.Rs); omega)
      rwa [hm] at h32
  · exact fun hd hs ht => setConstShiftV_puts shlV_shifts hd hs ht
  · exact fun hd hs ht => puts_noconst hd hs ht fun s hsound => setShiftV_emits shlV_shifts ht hsound

theorem recDSRLV_represents (h : Represents r s₀ regs) : Represents (recDSRLV c r) s₀
    (regs.put c.Rd (regs.UD c.Rt >>> sa6 (regs.UD c.Rs))) := by
  apply code0_represents (fun v w => w >>> sa6 v) h
  · exact fun _ => rfl
  · intro hd hs ht
    apply puts_consts hd hs ht
    intro s hsound
    rw [recDSRLV_consts]
    by_cases hn : sa6 (r.constRegs c.Rs) < 32
    · rw [if_pos hn]
      exact recDSRLs_emits hn ht hsound
    · rw [if_neg hn]
      have hm : sa6 (r.constRegs c.Rs) - 32 + 32 = sa6 (r.constRegs c.Rs) := by omega
      have h32 := recDSRL32s_emits (r := r) (s := s) c.Rd c.Rt
        (show sa6 (r.constRegs c.Rs) - 32 < 32 by have h64 := sa6_lt (r.constRegs c.Rs); omega)
      rwa [hm] at h32
  · exact fun hd hs ht => setConstShiftV_puts shrV_shifts hd hs ht
  · exact fun hd hs ht => puts_noconst hd hs ht fun s hsound => setShiftV_emits shrV_shifts ht hsound

theorem recDSRAV_represents (h : Represents r s₀ regs) : Represents (recDSRAV c r) s₀
    (regs.put c.Rd ((regs.UD c.Rt).sshiftRight (sa6 (regs.UD c.Rs)))) := by
  apply code0_represents (fun v w => w.sshiftRight (sa6 v)) h
  · exact fun _ => rfl
  · intro hd hs ht
    apply puts_consts hd hs ht
    intro s hsound
    rw [recDSRAV_consts]
    by_cases hn : sa6 (r.constRegs c.Rs) < 32
    · rw [if_pos hn]
      exact recDSRAs_emits hn ht hsound
    · rw [if_neg hn]
      have hm : sa6 (r.constRegs c.Rs) - 32 + 32 = sa6 (r.constRegs c.Rs) := by omega
      have h32 := recDSRA32s_emits (r := r) (s := s) c.Rd c.Rt
        (show sa6 (r.constRegs c.Rs) - 32 < 32 by have h64 := sa6_lt (r.constRegs c.Rs); omega)
      rwa [hm] at h32
  · exact fun hd hs ht => setConstShiftV_puts sarV_shifts hd hs ht
  · exact fun hd hs ht => puts_noconst hd hs ht fun s hsound => setShiftV_emits sarV_shifts ht hsound

end

end OmegaRed.R5900
