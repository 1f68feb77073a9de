import OmegaRed.Lib.X86
import OmegaRed.R3000A.OpcodeTables

/-! The state of the IOP recompiler, its templates, and the registers they stand for. -/

namespace OmegaRed.R3000A

open Lib.Halves Lib.X86

/-- The words of `psxRegs.GPR`. -/
inductive Loc
  | gpr (r : Fin 32)
  | hi
  | lo
  deriving DecidableEq, Repr

abbrev X86Code := List (Instr Loc Empty)
abbrev Home := Loc → BitVec 32
abbrev Machine := State Loc Empty

/-- The constants known at a point of the block, and the code emitted up to it. -/
structure Rec where
  /-- `g_psxConstRegs` -/
  constRegs : Fin 32 → BitVec 32
  /-- `g_psxHasConstReg` -/
  hasConst : Fin 32 → Bool
  /-- `g_psxFlushedConstReg` -/
  flushedConst : Fin 32 → Bool
  code : X86Code
  /-- The module imports met, whose calls are emitted apart. -/
  imports : List Code

namespace Rec

variable (r : Rec)

def emit (p : X86Code) : Rec := { r with code := r.code ++ p }

/-- `PSX_SET_CONST`, and the assignment of the constant. -/
def putConst (x : Fin 32) (v : BitVec 32) : Rec :=
  { r with
    constRegs := Function.update r.constRegs x v
    hasConst := Function.update r.hasConst x true
    flushedConst := Function.update r.flushedConst x false }

/-- `PSX_DEL_CONST` -/
def delConst (x : Fin 32) : Rec := { r with hasConst := Function.update r.hasConst x false }

def flushConstReg (x : Fin 32) : Rec :=
  if r.hasConst x = true ∧ r.flushedConst x = false then
    { r.emit [.mov (.mem (.gpr x)) (.imm (r.constRegs x))] with
      flushedConst := Function.update r.flushedConst x true }
  else r

def deleteReg (x : Fin 32) (flush : Bool) : Rec :=
  if x = 0 then r
  else if flush = true ∧ r.hasConst x = true then r.flushConstReg x
  else r.delConst x

/-- `psxRecompileIrxImport` -/
def recompileIrxImport (c : Code) : Rec := { r with imports := r.imports ++ [c] }

end Rec

/-- A code generator: it reads the instruction and continues a block. -/
abbrev Gen := Code → Rec → Rec

/-- What a generator computes from the constants: a folded value, or code. -/
abbrev ConstGen := Code → Rec → BitVec 32
abbrev CodeGen := Code → Rec → X86Code

/-- `rd = rs op rt` -/
def psxRecompileCodeConst0 (constcode : ConstGen) (constscode consttcode noconstcode : CodeGen) :
    Gen := fun c r =>
  if c.Rd = 0 then r
  else if r.hasConst c.Rs = true ∧ r.hasConst c.Rt = true then r.putConst c.Rd (constcode c r)
  else if r.hasConst c.Rs = true then (r.emit (constscode c r)).delConst c.Rd
  else if r.hasConst c.Rt = true then (r.emit (consttcode c r)).delConst c.Rd
  else (r.emit (noconstcode c r)).delConst c.Rd

/-- `rt = rs op imm16` -/
def psxRecompileCodeConst1 (constcode : ConstGen) (noconstcode : CodeGen) : Gen := fun c r =>
  if c.Rt = 0 then if c.bits >>> 16 = 0x2400#32 then r.recompileIrxImport c else r
  else if r.hasConst c.Rs = true then r.putConst c.Rt (constcode c r)
  else (r.emit (noconstcode c r)).delConst c.Rt

/-- `rd = rt op sa` -/
def psxRecompileCodeConst2 (constcode : ConstGen) (noconstcode : CodeGen) : Gen := fun c r =>
  if c.Rd = 0 then r
  else if r.hasConst c.Rt = true then r.putConst c.Rd (constcode c r)
  else (r.emit (noconstcode c r)).delConst c.Rd

/-- `lo, hi = rs op rt` -/
def psxRecompileCodeConst3 (constcode constscode consttcode noconstcode : CodeGen) : Gen :=
  fun c r =>
    if r.hasConst c.Rs = true ∧ r.hasConst c.Rt = true then r.emit (constcode c r)
    else if r.hasConst c.Rs = true then r.emit (constscode c r)
    else if r.hasConst c.Rt = true then r.emit (consttcode c r)
    else r.emit (noconstcode c r)

/-- The registers that a home and the known constants stand for. -/
def Rec.regs (r : Rec) (m : Home) : PsxRegs where
  r x := if r.hasConst x = true then r.constRegs x else m (.gpr x)
  hi := m .hi
  lo := m .lo

/-- `r0` is zero, and flushed constants are in memory. -/
structure Rec.Sound (r : Rec) (m : Home) : Prop where
  zero_home : m (.gpr 0) = 0
  zero_const : r.constRegs 0 = 0
  flushed : ∀ x, r.hasConst x = true → r.flushedConst x = true → m (.gpr x) = r.constRegs x

/-- The code emitted so far takes `s₀` to a state that stands for the registers `regs`. -/
def Represents (r : Rec) (s₀ : Machine) (regs : PsxRegs) : Prop :=
  ∃ s, exec r.code s₀ = some s ∧ r.Sound s.mem ∧ r.regs s.mem = regs

/-- Code that only changes the memory, to `m`. -/
def Leaves (q : X86Code) (s : Machine) (m : Home) : Prop := (exec q s).map State.mem = some m

section Regs

variable {r : Rec} {m : Home}

theorem regs_put {x : Fin 32} (hx : x ≠ 0) (v : BitVec 32) :
    (r.delConst x).regs (Function.update m (.gpr x) v) = (r.regs m).put x v := by
  rw [PsxRegs.put, if_neg hx]
  simp only [Rec.regs, Rec.delConst, PsxRegs.mk.injEq]
  refine ⟨?_, ?_, ?_⟩
  · funext y
    by_cases hy : y = x
    · simp [hy]
    · simp [hy]
  · simp
  · simp

theorem regs_putConst {x : Fin 32} (hx : x ≠ 0) (v : BitVec 32) :
    (r.putConst x v).regs m = (r.regs m).put x v := by
  rw [PsxRegs.put, if_neg hx]
  simp only [Rec.regs, Rec.putConst, PsxRegs.mk.injEq, and_true]
  funext y
  by_cases hy : y = x
  · simp [hy]
  · simp [hy]

theorem Rec.Sound.put (h : r.Sound m) {x : Fin 32} (hx : x ≠ 0) (v : BitVec 32) :
    (r.delConst x).Sound (Function.update m (.gpr x) v) where
  zero_home := by simpa [hx.symm] using h.zero_home
  zero_const := h.zero_const
  flushed y hc hf := by
    by_cases hy : y = x
    · simp [Rec.delConst, hy] at hc
    · rw [Function.update_of_ne (by simpa using hy)]
      exact h.flushed y (by simpa [Rec.delConst, hy] using hc) hf

theorem Rec.Sound.emit (h : r.Sound m) (q : X86Code) : (r.emit q).Sound m :=
  ⟨h.zero_home, h.zero_const, h.flushed⟩

theorem Rec.Sound.putConst (h : r.Sound m) {x : Fin 32} (hx : x ≠ 0) (v : BitVec 32) :
    (r.putConst x v).Sound m where
  zero_home := h.zero_home
  zero_const := by simpa [Rec.putConst, Function.update_apply, hx.symm] using h.zero_const
  flushed y hc hf := by
    by_cases hy : y = x
    · simp [Rec.putConst, hy] at hf
    · simp only [Rec.putConst, Function.update_of_ne hy] at hc hf ⊢
      exact h.flushed y hc hf

end Regs

section Templates

variable {c : Code} {r : Rec} {s₀ : Machine} {regs : PsxRegs}

theorem emit_represents {s : Machine} {q : X86Code} {x : Fin 32} (hx : x ≠ 0) {v : BitVec 32}
    (hrun : exec r.code s₀ = some s) (hs : r.Sound s.mem)
    (hq : Leaves q s (Function.update s.mem (.gpr x) v)) :
    Represents ((r.emit q).delConst x) s₀ ((r.regs s.mem).put x v) := by
  obtain ⟨s', hs', hm⟩ := Option.map_eq_some_iff.mp hq
  refine ⟨s', (exec_append s₀ hrun).trans hs', ?_, ?_⟩
  · rw [hm]
    exact (hs.emit q).put hx v
  · rw [hm]
    exact regs_put (r := r.emit q) hx v

theorem putConst_represents {x : Fin 32} (hx : x ≠ 0) (v : BitVec 32)
    (h : Represents r s₀ regs) : Represents (r.putConst x v) s₀ (regs.put x v) := by
  obtain ⟨s, hrun, hs, rfl⟩ := h
  exact ⟨s, hrun, hs.putConst hx v, regs_putConst hx v⟩

theorem put_zero (v : BitVec 32) : regs.put 0 v = regs := if_pos rfl

theorem const0_represents {constcode : ConstGen} {constscode consttcode noconstcode : CodeGen}
    (f : BitVec 32 → BitVec 32 → BitVec 32) (h : Represents r s₀ regs)
    (hconst : constcode c r = f (r.constRegs c.Rs) (r.constRegs c.Rt))
    (hconsts : ∀ s : Machine, s.mem (.gpr 0) = 0 → Leaves (constscode c r) s
      (Function.update s.mem (.gpr c.Rd) (f (r.constRegs c.Rs) (s.mem (.gpr c.Rt)))))
    (hconstt : ∀ s : Machine, s.mem (.gpr 0) = 0 → Leaves (consttcode c r) s
      (Function.update s.mem (.gpr c.Rd) (f (s.mem (.gpr c.Rs)) (r.constRegs c.Rt))))
    (hnoconst : c.Rd ≠ 0 → ∀ s : Machine, s.mem (.gpr 0) = 0 → Leaves (noconstcode c r) s
      (Function.update s.mem (.gpr c.Rd) (f (s.mem (.gpr c.Rs)) (s.mem (.gpr c.Rt))))) :
    Represents (psxRecompileCodeConst0 constcode constscode consttcode noconstcode c r) s₀
      (regs.put c.Rd (f (regs.r c.Rs) (regs.r c.Rt))) := by
  rw [psxRecompileCodeConst0]
  by_cases hd : c.Rd = 0
  · rw [if_pos hd, hd, put_zero]
    exact h
  rw [if_neg hd]
  obtain ⟨s, hrun, hs, rfl⟩ := h
  cases hrs : r.hasConst c.Rs <;> cases hrt : r.hasConst c.Rt
  · have he := emit_represents hd hrun hs (hnoconst hd s hs.zero_home)
    simpa [Rec.regs, hrs, hrt] using he
  · have he := emit_represents hd hrun hs (hconstt s hs.zero_home)
    simpa [Rec.regs, hrs, hrt] using he
  · have he := emit_represents hd hrun hs (hconsts s hs.zero_home)
    simpa [Rec.regs, hrs, hrt] using he
  · have he := putConst_represents hd (constcode c r) ⟨s, hrun, hs, rfl⟩
    simpa [Rec.regs, hrs, hrt, hconst] using he

theorem const1_represents {constcode : ConstGen} {noconstcode : CodeGen}
    (f : BitVec 32 → BitVec 32) (h : Represents r s₀ regs)
    (hconst : constcode c r = f (r.constRegs c.Rs))
    (hnoconst : c.Rt ≠ 0 → ∀ s : Machine, s.mem (.gpr 0) = 0 → Leaves (noconstcode c r) s
      (Function.update s.mem (.gpr c.Rt) (f (s.mem (.gpr c.Rs))))) :
    Represents (psxRecompileCodeConst1 constcode noconstcode c r) s₀
      (regs.put c.Rt (f (regs.r c.Rs))) := by
  rw [psxRecompileCodeConst1]
  obtain ⟨s, hrun, hs, rfl⟩ := h
  by_cases ht : c.Rt = 0
  · rw [if_pos ht, ht, put_zero]
    split
    · exact ⟨s, hrun, ⟨hs.zero_home, hs.zero_const, hs.flushed⟩, rfl⟩
    · exact ⟨s, hrun, hs, rfl⟩
  rw [if_neg ht]
  cases hrs : r.hasConst c.Rs
  · have he := emit_represents ht hrun hs (hnoconst ht s hs.zero_home)
    simpa [Rec.regs, hrs] using he
  · have he := putConst_represents ht (constcode c r) ⟨s, hrun, hs, rfl⟩
    simpa [Rec.regs, hrs, hconst] using he

theorem const2_represents {constcode : ConstGen} {noconstcode : CodeGen}
    (f : BitVec 32 → BitVec 32) (h : Represents r s₀ regs)
    (hconst : constcode c r = f (r.constRegs c.Rt))
    (hnoconst : ∀ s : Machine, Leaves (noconstcode c r) s
      (Function.update s.mem (.gpr c.Rd) (f (s.mem (.gpr c.Rt))))) :
    Represents (psxRecompileCodeConst2 constcode noconstcode c r) s₀
      (regs.put c.Rd (f (regs.r c.Rt))) := by
  rw [psxRecompileCodeConst2]
  obtain ⟨s, hrun, hs, rfl⟩ := h
  by_cases hd : c.Rd = 0
  · rw [if_pos hd, hd, put_zero]
    exact ⟨s, hrun, hs, rfl⟩
  rw [if_neg hd]
  cases hrt : r.hasConst c.Rt
  · have he := emit_represents hd hrun hs (hnoconst s)
    simpa [Rec.regs, hrt] using he
  · have he := putConst_represents hd (constcode c r) ⟨s, hrun, hs, rfl⟩
    simpa [Rec.regs, hrt, hconst] using he

theorem hilo_represents {s : Machine} {q : X86Code} {h l : BitVec 32}
    (hrun : exec r.code s₀ = some s) (hs : r.Sound s.mem)
    (hq : Leaves q s (Function.update (Function.update s.mem .lo l) .hi h)) :
    Represents (r.emit q) s₀ { r.regs s.mem with lo := l, hi := h } := by
  obtain ⟨s', hs', hm⟩ := Option.map_eq_some_iff.mp hq
  refine ⟨s', (exec_append s₀ hrun).trans hs', ?_, ?_⟩
  · rw [hm]
    refine ⟨by simpa using hs.zero_home, hs.zero_const, fun x hc hf => ?_⟩
    rw [Function.update_of_ne (by simp), Function.update_of_ne (by simp)]
    exact hs.flushed x hc hf
  · rw [hm]
    simp [Rec.regs, Rec.emit]

theorem const3_represents {constcode constscode consttcode noconstcode : CodeGen}
    (f : BitVec 32 → BitVec 32 → BitVec 32 × BitVec 32) (h : Represents r s₀ regs)
    (hconst : ∀ s : Machine, Leaves (constcode c r) s (Function.update (Function.update s.mem
      .lo (f (r.constRegs c.Rs) (r.constRegs c.Rt)).2)
      .hi (f (r.constRegs c.Rs) (r.constRegs c.Rt)).1))
    (hconsts : ∀ s : Machine, Leaves (constscode c r) s (Function.update (Function.update s.mem
      .lo (f (r.constRegs c.Rs) (s.mem (.gpr c.Rt))).2)
      .hi (f (r.constRegs c.Rs) (s.mem (.gpr c.Rt))).1))
    (hconstt : ∀ s : Machine, Leaves (consttcode c r) s (Function.update (Function.update s.mem
      .lo (f (s.mem (.gpr c.Rs)) (r.constRegs c.Rt)).2)
      .hi (f (s.mem (.gpr c.Rs)) (r.constRegs c.Rt)).1))
    (hnoconst : ∀ s : Machine, Leaves (noconstcode c r) s (Function.update (Function.update s.mem
      .lo (f (s.mem (.gpr c.Rs)) (s.mem (.gpr c.Rt))).2)
      .hi (f (s.mem (.gpr c.Rs)) (s.mem (.gpr c.Rt))).1)) :
    Represents (psxRecompileCodeConst3 constcode constscode consttcode noconstcode c r) s₀
      { regs with
        lo := (f (regs.r c.Rs) (regs.r c.Rt)).2
        hi := (f (regs.r c.Rs) (regs.r c.Rt)).1 } := by
  rw [psxRecompileCodeConst3]
  obtain ⟨s, hrun, hs, rfl⟩ := h
  cases hrs : r.hasConst c.Rs <;> cases hrt : r.hasConst c.Rt
  · have he := hilo_represents hrun hs (hnoconst s)
    simpa [Rec.regs, hrs, hrt] using he
  · have he := hilo_represents hrun hs (hconstt s)
    simpa [Rec.regs, hrs, hrt] using he
  · have he := hilo_represents hrun hs (hconsts s)
    simpa [Rec.regs, hrs, hrt] using he
  · have he := hilo_represents hrun hs (hconst s)
    simpa [Rec.regs, hrs, hrt] using he

end Templates

end OmegaRed.R3000A
