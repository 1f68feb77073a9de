import OmegaRed.Lib.X86
import OmegaRed.R5900.OpcodeImpl

/-! The recompiler's state, its code templates, and the registers they stand for. -/

namespace OmegaRed.R5900

open Lib.Halves Lib.X86

/-- The dwords of `cpuRegs`. -/
inductive Loc
  | gpr (r : Fin 32) (i : Fin 4)
  | lo (i : Fin 4)
  | hi (i : Fin 4)
  deriving DecidableEq, Repr

/-- The SSE registers by what was allocated in them. -/
inductive XmmReg
  | gpr (r : Fin 32)
  | t0 | t1 | rstemp
  deriving DecidableEq, Repr

abbrev X86Code := List (Instr Loc XmmReg)
abbrev Home := Loc → BitVec 32
abbrev Machine := State Loc XmmReg

/-- The constants known at a point of the block, and the code emitted up to it. -/
structure Rec where
  /-- `g_cpuConstRegs` -/
  constRegs : Fin 32 → BitVec 64
  /-- `g_cpuHasConstReg` -/
  hasConst : Fin 32 → Bool
  /-- `g_cpuFlushedConstReg` -/
  flushedConst : Fin 32 → Bool
  code : X86Code

/-- The dword `UL[i]` of a 64-bit constant. -/
def UL (v : BitVec 64) (i : Fin 2) : BitVec 32 := if i = 0 then lo v else hi v

/-- The dword `UL[i]` of the low half of a register. -/
def gprUL (r : Fin 32) (i : Fin 2) : Loc := .gpr r (i.castLE (by decide))

namespace Rec

variable (r : Rec)

def emit (p : X86Code) : Rec := { r with code := r.code ++ p }

/-- `GPR_SET_CONST` -/
def setConst (x : Fin 32) : Rec :=
  { r with
    hasConst := Function.update r.hasConst x true
    flushedConst := Function.update r.flushedConst x false }

/-- `GPR_DEL_CONST` -/
def delConst (x : Fin 32) : Rec := { r with hasConst := Function.update r.hasConst x false }

/-- Assigns `g_cpuConstRegs[x]`. -/
def putConst (x : Fin 32) (v : BitVec 64) : Rec :=
  { r with constRegs := Function.update r.constRegs x v }

def flushConstReg (x : Fin 32) : Rec :=
  if r.hasConst x = true ∧ r.flushedConst x = false then
    { r.emit [.mov (.mem (.gpr x 0)) (.imm (lo (r.constRegs x))),
        .mov (.mem (.gpr x 1)) (.imm (hi (r.constRegs x)))] with
      flushedConst := Function.update r.flushedConst x true }
  else r

/-- `_allocGPRtoXMMreg(-1, x, MODE_READ)`, of a register not yet allocated -/
def allocRead (x : Fin 32) : Rec :=
  if x = 0 then r.emit [.pxor (.gpr x) (.gpr x)]
  else (r.flushConstReg x).emit [.movdqaLoad (.gpr x) (.gpr x)]

/-- `_allocGPRtoXMMreg(-1, x, MODE_WRITE)` -/
def allocWrite (x : Fin 32) : Rec := r.delConst x

end Rec

/-- `eeSignExtendTo` -/
def eeSignExtendTo (gpr : Fin 32) (onlyupper : Bool) : X86Code :=
  .cdq :: (if onlyupper then [] else [.mov (.mem (.gpr gpr 0)) .eax]) ++
    [.mov (.mem (.gpr gpr 1)) .edx]

/-- `_signExtendSFtoM` -/
def signExtendSFtoM (l : Loc) : X86Code :=
  [.lahf, .sarAx 15, .cwde, .mov (.mem l) .eax]

/-- A code generator: it reads the instruction and continues a block. -/
abbrev Gen := Code → Rec → Rec

/-- `rd = rs op rt`; `writed` is the flag `XMMINFO_WRITED`. -/
def eeRecompileCode0 (constcode constscode consttcode noconstcode : Gen) (writed : Bool) : Gen :=
  fun c r =>
    let done (r : Rec) : Rec := if writed then r.delConst c.Rd else r
    if c.Rd = 0 ∧ writed = true then r
    else if r.hasConst c.Rs = true ∧ r.hasConst c.Rt = true then
      constcode c (if writed then r.setConst c.Rd else r)
    else if r.hasConst c.Rs = true then done (constscode c r)
    else if r.hasConst c.Rt = true then done (consttcode c r)
    else done (noconstcode c r)

/-- `rt = rs op imm16` -/
def eeRecompileCode1 (constcode noconstcode : Gen) : Gen := fun c r =>
  if c.Rt = 0 then r
  else if r.hasConst c.Rs = true then constcode c (r.setConst c.Rt)
  else (noconstcode c r).delConst c.Rt

/-- `rd = rt op sa` -/
def eeRecompileCode2 (constcode noconstcode : Gen) : Gen := fun c r =>
  if c.Rd = 0 then r
  else if r.hasConst c.Rt = true then constcode c (r.setConst c.Rd)
  else (noconstcode c r).delConst c.Rd

/-- The low half of a register in memory. -/
def Home.UD (m : Home) (x : Fin 32) : BitVec 64 := join (m (.gpr x 1)) (m (.gpr x 0))

/-- The home of the registers after an assignment to the low half of `x`. -/
def Home.put (m : Home) (x : Fin 32) (v : BitVec 64) : Home :=
  Function.update (Function.update m (.gpr x 0) (lo v)) (.gpr x 1) (hi v)

/-- The indices of the dwords of the half `i` of a register. -/
def lowWord (i : Fin 2) : Fin 4 := if i = 0 then 0 else 2
def highWord (i : Fin 2) : Fin 4 := if i = 0 then 1 else 3

/-- The registers that a home and the known constants stand for. -/
def Rec.regs (r : Rec) (m : Home) : CpuRegs where
  GPR x i :=
    if i = 0 ∧ r.hasConst x = true then r.constRegs x
    else join (m (.gpr x (highWord i))) (m (.gpr x (lowWord i)))
  LO i := join (m (.lo (highWord i))) (m (.lo (lowWord i)))
  HI i := join (m (.hi (highWord i))) (m (.hi (lowWord i)))

/-- `r0` is zero, and flushed constants are in memory. -/
structure Rec.Sound (r : Rec) (m : Home) : Prop where
  zero_home : m.UD 0 = 0
  zero_const : r.constRegs 0 = 0
  flushed : ∀ x, r.hasConst x = true → r.flushedConst x = true → m.UD x = r.constRegs x

/-- The code emitted so far takes `s₀` to a state that stands for the registers `regs`. -/
def Represents (r : Rec) (s₀ : Machine) (regs : CpuRegs) : Prop :=
  ∃ s, exec r.code s₀ = some s ∧ r.Sound s.mem ∧ r.regs s.mem = regs

section Regs

variable (r : Rec) (m : Home)

theorem regs_UD (x : Fin 32) :
    (r.regs m).UD x = if r.hasConst x = true then r.constRegs x else m.UD x := by
  simp [CpuRegs.UD, Rec.regs, Home.UD, highWord, lowWord]

theorem regs_put {x : Fin 32} (hx : x ≠ 0) (v : BitVec 64) :
    (r.delConst x).regs (m.put x v) = (r.regs m).put x v := by
  rw [CpuRegs.put, if_neg hx]
  simp only [Rec.regs, Rec.delConst, Home.put, CpuRegs.mk.injEq]
  refine ⟨?_, ?_, ?_⟩
  · funext y i
    by_cases hy : y = x <;> by_cases hi : i = 0
    · simp [hy, hi, highWord, lowWord]
    · simp [hy, hi, highWord, lowWord]
    · simp [hy, hi, highWord, lowWord]
    · simp [hy, hi, highWord, lowWord]
  · funext i
    simp
  · funext i
    simp

theorem regs_putConst {x : Fin 32} (hx : x ≠ 0) (v : BitVec 64) :
    ((r.setConst x).putConst x v).regs m = (r.regs m).put x v := by
  rw [CpuRegs.put, if_neg hx]
  simp only [Rec.regs, Rec.setConst, Rec.putConst, CpuRegs.mk.injEq, and_true]
  funext y i
  by_cases hy : y = x <;> by_cases hi : i = 0
  · simp [hy, hi]
  · simp [hy, hi]
  · simp [hy, hi]
  · simp [hy, hi]

theorem UD_put_self (x : Fin 32) (v : BitVec 64) : (m.put x v).UD x = v := by
  simp [Home.UD, Home.put]

theorem UD_put_of_ne {x y : Fin 32} (h : y ≠ x) (v : BitVec 64) : (m.put x v).UD y = m.UD y := by
  simp [Home.UD, Home.put, h]

variable {r m}

theorem Rec.Sound.put (h : r.Sound m) {x : Fin 32} (hx : x ≠ 0) (v : BitVec 64) :
    (r.delConst x).Sound (m.put x v) where
  zero_home := by rw [UD_put_of_ne m hx.symm, h.zero_home]
  zero_const := h.zero_const
  flushed y hc hf := by
    by_cases hy : y = x
    · simp [Rec.delConst, hy] at hc
    · rw [UD_put_of_ne m hy]
      exact h.flushed y (by simpa [Rec.delConst, hy] using hc) hf

theorem Rec.Sound.emit (h : r.Sound m) (q : X86Code) : (r.emit q).Sound m :=
  ⟨h.zero_home, h.zero_const, h.flushed⟩

theorem Rec.Sound.putConst (h : r.Sound m) {x : Fin 32} (hx : x ≠ 0) (v : BitVec 64) :
    ((r.setConst x).putConst x v).Sound m where
  zero_home := h.zero_home
  zero_const := by simpa [Rec.putConst, Rec.setConst, Function.update_apply, hx.symm] using h.zero_const
  flushed y hc hf := by
    by_cases hy : y = x
    · simp [Rec.putConst, Rec.setConst, hy] at hf
    · simp only [Rec.putConst, Rec.setConst, Function.update_of_ne hy] at hc hf ⊢
      exact h.flushed y hc hf

end Regs

/-- A generator emits code that assigns `v` to `x`; only the constant in `x` may be dropped. -/
def Emits (x : Fin 32) (r r' : Rec) (s : Machine) (v : BitVec 64) : Prop :=
  ∃ q s', r'.delConst x = (r.emit q).delConst x ∧ exec q s = some s' ∧ s'.mem = Home.put s.mem x v

theorem emits_of_mem {x : Fin 32} {r : Rec} {q : X86Code} {s : Machine} {v : BitVec 64}
    (h : (exec q s).map State.mem = some (Home.put s.mem x v)) : Emits x r (r.emit q) s v := by
  obtain ⟨s', hs, hm⟩ := Option.map_eq_some_iff.mp h
  exact ⟨q, s', rfl, hs, hm⟩

/-- A generator followed by `GPR_DEL_CONST` assigns `f` of the two sources to `x`. -/
def Puts (x : Fin 32) (c : Code) (r r' : Rec) (f : BitVec 64 → BitVec 64 → BitVec 64) : Prop :=
  ∀ s₀ regs, Represents r s₀ regs →
    Represents (r'.delConst x) s₀ (regs.put x (f (regs.UD c.Rs) (regs.UD c.Rt)))

theorem puts_of_emits {x : Fin 32} {c : Code} {r r' : Rec}
    {f : BitVec 64 → BitVec 64 → BitVec 64} (hx : x ≠ 0)
    (h : ∀ s : Machine, r.Sound s.mem →
      Emits x r r' s (f ((r.regs s.mem).UD c.Rs) ((r.regs s.mem).UD c.Rt))) :
    Puts x c r r' f := by
  rintro s₀ regs ⟨s, hrun, hsound, rfl⟩
  obtain ⟨q, s', hr, hq, hm⟩ := h s hsound
  refine ⟨s', ?_, ?_, ?_⟩
  · rw [hr]
    exact (exec_append s₀ hrun).trans hq
  · rw [hr, hm]
    exact (hsound.emit q).put hx _
  · rw [hr, hm]
    exact regs_put r s.mem hx _

theorem puts_consts {x : Fin 32} {c : Code} {r r' : Rec}
    {f : BitVec 64 → BitVec 64 → BitVec 64} (hx : x ≠ 0) (hs : r.hasConst c.Rs = true)
    (ht : r.hasConst c.Rt = false)
    (h : ∀ s : Machine, r.Sound s.mem →
      Emits x r r' s (f (r.constRegs c.Rs) (Home.UD s.mem c.Rt))) :
    Puts x c r r' f := by
  apply puts_of_emits hx
  intro s hsound
  rw [regs_UD, regs_UD, if_pos hs, if_neg (by simp [ht])]
  exact h s hsound

theorem puts_constt {x : Fin 32} {c : Code} {r r' : Rec}
    {f : BitVec 64 → BitVec 64 → BitVec 64} (hx : x ≠ 0) (hs : r.hasConst c.Rs = false)
    (ht : r.hasConst c.Rt = true)
    (h : ∀ s : Machine, Emits x r r' s (f (Home.UD s.mem c.Rs) (r.constRegs c.Rt))) :
    Puts x c r r' f := by
  apply puts_of_emits hx
  intro s _
  rw [regs_UD, regs_UD, if_neg (by simp [hs]), if_pos ht]
  exact h s

theorem puts_noconst {x : Fin 32} {c : Code} {r r' : Rec}
    {f : BitVec 64 → BitVec 64 → BitVec 64} (hx : x ≠ 0) (hs : r.hasConst c.Rs = false)
    (ht : r.hasConst c.Rt = false)
    (h : ∀ s : Machine, r.Sound s.mem →
      Emits x r r' s (f (Home.UD s.mem c.Rs) (Home.UD s.mem c.Rt))) :
    Puts x c r r' f := by
  apply puts_of_emits hx
  intro s hsound
  rw [regs_UD, regs_UD, if_neg (by simp [hs]), if_neg (by simp [ht])]
  exact h s hsound

theorem Rec.Sound.flushConstReg {r : Rec} {m : Home} (h : r.Sound m) (x : Fin 32)
    (hx : r.hasConst x = true ∧ r.flushedConst x = false) :
    (r.flushConstReg x).Sound (m.put x (r.constRegs x)) where
  zero_home := by
    by_cases h0 : (0 : Fin 32) = x
    · rw [← h0, UD_put_self, h.zero_const]
    · rw [UD_put_of_ne m h0, h.zero_home]
  zero_const := by
    rw [Rec.flushConstReg, if_pos hx]
    exact h.zero_const
  flushed y hc hf := by
    rw [Rec.flushConstReg, if_pos hx] at hc hf ⊢
    by_cases hy : y = x
    · rw [hy, UD_put_self]
      rfl
    · rw [UD_put_of_ne m hy]
      exact h.flushed y hc (by simpa [hy] using hf)

theorem Represents.flushConstReg {r : Rec} {s₀ : Machine} {regs : CpuRegs}
    (h : Represents r s₀ regs) (x : Fin 32) : Represents (r.flushConstReg x) s₀ regs := by
  by_cases hx : r.hasConst x = true ∧ r.flushedConst x = false
  · obtain ⟨s, hrun, hsound, rfl⟩ := h
    obtain ⟨s', hs', hm⟩ : ∃ s', exec (r.flushConstReg x).code s₀ = some s' ∧
        s'.mem = Home.put s.mem x (r.constRegs x) := by
      rw [Rec.flushConstReg, if_pos hx]
      refine ⟨_, (exec_append s₀ hrun).trans (by simp; rfl), ?_⟩
      simp [Home.put]
    refine ⟨s', hs', hm ▸ hsound.flushConstReg x hx, ?_⟩
    rw [hm, Rec.flushConstReg, if_pos hx]
    simp only [Rec.regs, Rec.emit, Home.put, CpuRegs.mk.injEq]
    refine ⟨?_, ?_, ?_⟩
    · funext y i
      by_cases hy : y = x <;> by_cases hi : i = 0
      · simp [hy, hi, hx]
      · simp [hy, hi, highWord, lowWord]
      · simp [hy, hi]
      · simp [hy, hi]
    · funext i
      simp
    · funext i
      simp
  · rwa [Rec.flushConstReg, if_neg hx]

theorem code0_represents {constcode constscode consttcode noconstcode : Gen} {c : Code} {r : Rec}
    (f : BitVec 64 → BitVec 64 → BitVec 64) {s₀ : Machine} {regs : CpuRegs}
    (h : Represents r s₀ regs)
    (hconst : ∀ r, constcode c r = r.putConst c.Rd (f (r.constRegs c.Rs) (r.constRegs c.Rt)))
    (hconsts : c.Rd ≠ 0 → r.hasConst c.Rs = true → r.hasConst c.Rt = false →
      Puts c.Rd c r (constscode c r) f)
    (hconstt : c.Rd ≠ 0 → r.hasConst c.Rs = false → r.hasConst c.Rt = true →
      Puts c.Rd c r (consttcode c r) f)
    (hnoconst : c.Rd ≠ 0 → r.hasConst c.Rs = false → r.hasConst c.Rt = false →
      Puts c.Rd c r (noconstcode c r) f) :
    Represents (eeRecompileCode0 constcode constscode consttcode noconstcode true c r) s₀
      (regs.put c.Rd (f (regs.UD c.Rs) (regs.UD c.Rt))) := by
  rw [eeRecompileCode0]
  by_cases hd : c.Rd = 0
  · rw [if_pos ⟨hd, rfl⟩, CpuRegs.put, if_pos hd]
    exact h
  rw [if_neg (fun hn => hd hn.1)]
  cases hs : r.hasConst c.Rs <;> cases ht : r.hasConst c.Rt
  · exact hnoconst hd hs ht s₀ regs h
  · exact hconstt hd hs ht s₀ regs h
  · exact hconsts hd hs ht s₀ regs h
  · obtain ⟨s, hrun, hsound, rfl⟩ := h
    rw [if_pos ⟨rfl, rfl⟩, if_pos rfl, hconst]
    refine ⟨s, hrun, hsound.putConst hd _, ?_⟩
    rw [regs_putConst r s.mem hd, regs_UD, regs_UD, if_pos hs, if_pos ht]
    rfl

theorem code0_of_emits {constcode constscode consttcode noconstcode : Gen} {c : Code} {r : Rec}
    (f : BitVec 64 → BitVec 64 → BitVec 64) {s₀ : Machine} {regs : CpuRegs}
    (h : Represents r s₀ regs)
    (hconst : ∀ r, constcode c r = r.putConst c.Rd (f (r.constRegs c.Rs) (r.constRegs c.Rt)))
    (hconsts : ∀ s : Machine,
      Emits c.Rd r (constscode c r) s (f (r.constRegs c.Rs) (Home.UD s.mem c.Rt)))
    (hconstt : ∀ s : Machine,
      Emits c.Rd r (consttcode c r) s (f (Home.UD s.mem c.Rs) (r.constRegs c.Rt)))
    (hnoconst : ∀ s : Machine,
      Emits c.Rd r (noconstcode c r) s (f (Home.UD s.mem c.Rs) (Home.UD s.mem c.Rt))) :
    Represents (eeRecompileCode0 constcode constscode consttcode noconstcode true c r) s₀
      (regs.put c.Rd (f (regs.UD c.Rs) (regs.UD c.Rt))) :=
  code0_represents f h hconst (fun hd hs ht => puts_consts hd hs ht fun s _ => hconsts s)
    (fun hd hs ht => puts_constt hd hs ht hconstt)
    (fun hd hs ht => puts_noconst hd hs ht fun s _ => hnoconst s)

theorem code1_represents {constcode noconstcode : Gen} {c : Code} {r : Rec}
    (f : BitVec 64 → BitVec 64) {s₀ : Machine} {regs : CpuRegs} (h : Represents r s₀ regs)
    (hconst : ∀ r, constcode c r = r.putConst c.Rt (f (r.constRegs c.Rs)))
    (hnoconst : ∀ s : Machine, Emits c.Rt r (noconstcode c r) s (f (Home.UD s.mem c.Rs))) :
    Represents (eeRecompileCode1 constcode noconstcode c r) s₀
      (regs.put c.Rt (f (regs.UD c.Rs))) := by
  rw [eeRecompileCode1]
  by_cases ht : c.Rt = 0
  · rw [if_pos ht, CpuRegs.put, if_pos ht]
    exact h
  rw [if_neg ht]
  cases hs : r.hasConst c.Rs
  · refine puts_of_emits (f := fun rs _ => f rs) ht (fun s _ => ?_) s₀ regs h
    rw [regs_UD, if_neg (by simp [hs])]
    exact hnoconst s
  · obtain ⟨s, hrun, hsound, rfl⟩ := h
    rw [if_pos rfl, hconst]
    refine ⟨s, hrun, hsound.putConst ht _, ?_⟩
    rw [regs_putConst r s.mem ht, regs_UD, if_pos hs]
    rfl

theorem code2_represents {constcode noconstcode : Gen} {c : Code} {r : Rec}
    (f : BitVec 64 → BitVec 64) {s₀ : Machine} {regs : CpuRegs} (h : Represents r s₀ regs)
    (hconst : ∀ r, constcode c r = r.putConst c.Rd (f (r.constRegs c.Rt)))
    (hnoconst : ∀ s : Machine, r.hasConst c.Rt = false → r.Sound s.mem →
      Emits c.Rd r (noconstcode c r) s (f (Home.UD s.mem c.Rt))) :
    Represents (eeRecompileCode2 constcode noconstcode c r) s₀
      (regs.put c.Rd (f (regs.UD c.Rt))) := by
  rw [eeRecompileCode2]
  by_cases hd : c.Rd = 0
  · rw [if_pos hd, CpuRegs.put, if_pos hd]
    exact h
  rw [if_neg hd]
  cases ht : r.hasConst c.Rt
  · refine puts_of_emits (f := fun _ rt => f rt) hd (fun s hsound => ?_) s₀ regs h
    rw [regs_UD r s.mem c.Rt, if_neg (by simp [ht])]
    exact hnoconst s ht hsound
  · obtain ⟨s, hrun, hsound, rfl⟩ := h
    rw [if_pos rfl, hconst]
    refine ⟨s, hrun, hsound.putConst hd _, ?_⟩
    rw [regs_putConst r s.mem hd, regs_UD, if_pos ht]
    rfl

end OmegaRed.R5900
