import OmegaRed.Lib.MulDiv
import OmegaRed.R5900.Arit

/-! Generators of the multiplications, divisions and multiply-adds. -/

namespace OmegaRed.R5900

open Lib.Halves Lib.X86

/-- Which source the generator takes as a constant. -/
inductive Process
  | none | consts | constt
  deriving DecidableEq, Repr

/-- `rd := eax`, sign-extended with `edx` -/
def storeRd (rd : Fin 32) : X86Code :=
  if rd = 0 then [] else [.mov (.mem (.gpr rd 0)) .eax, .mov (.mem (.gpr rd 1)) .edx]

/-- `_eeOnWriteReg`, for a register that is not `r0` -/
def onWriteReg (x : Fin 32) (r : Rec) : Rec := if x = 0 then r else r.delConst x

/-- Stores `eax` to `LO` (and to `rd` when `writed`), `edx` to `HI`, with all of them live. -/
def writebackHILO (rd : Fin 32) (writed : Bool) (upper : Fin 2) : X86Code :=
  [.mov .ecx .edx, .cdq, .mov (.mem (.lo (lowWord upper))) .eax,
    .mov (.mem (.lo (highWord upper))) .edx] ++
  (if writed then storeRd rd else []) ++
  [.mov (.mem (.hi (lowWord upper))) .ecx, .shift .sar .ecx 31,
    .mov (.mem (.hi (highWord upper))) .ecx]

/-- `recWritebackHILO` after the code `p` -/
def recWritebackHILO (p : X86Code) (writed : Bool) (upper : Fin 2) : Gen := fun c r =>
  let r := r.emit (p ++ writebackHILO c.Rd writed upper)
  if writed then onWriteReg c.Rd r else r

def constHILO (res : BitVec 64) (upper : Fin 2) : X86Code :=
  [.mov (.mem (.lo (lowWord upper))) (.imm (lo res)),
    .mov (.mem (.lo (highWord upper))) (.imm (if (lo res).msb then 0xffffffff else 0)),
    .mov (.mem (.hi (lowWord upper))) (.imm (hi res)),
    .mov (.mem (.hi (highWord upper))) (.imm (if res.msb then 0xffffffff else 0))]

def recWritebackConstHILO (res : BitVec 64) (writed : Bool) (upper : Fin 2) : Gen := fun c r =>
  let r := r.emit (constHILO res upper)
  if writed = false ∨ c.Rd = 0 then r else r.putConst c.Rd ((lo res).signExtend 64)

/-- `eax` and the multiplication by the other source. -/
def mulOperands (mul : Src Loc → Instr Loc XmmReg) (process : Process) (c : Code) (r : Rec) :
    X86Code :=
  match process with
  | .consts => [.mov .eax (.imm (lo (r.constRegs c.Rs))), mul (.mem (.gpr c.Rt 0))]
  | .constt => [.mov .eax (.imm (lo (r.constRegs c.Rt))), mul (.mem (.gpr c.Rs 0))]
  | .none => [.mov .eax (.mem (.gpr c.Rs 0)), mul (.mem (.gpr c.Rt 0))]

def recMULTsuper (upper : Fin 2) (process : Process) : Gen := fun c r =>
  recWritebackHILO (mulOperands .imul process c r) true upper c r

def recMULTUsuper (upper : Fin 2) (process : Process) : Gen := fun c r =>
  recWritebackHILO (mulOperands .mul process c r) true upper c r

def recMULT_const : Gen := fun c r =>
  recWritebackConstHILO (signedProduct (lo (r.constRegs c.Rs)) (lo (r.constRegs c.Rt))) true 0 c r

def recMULT : Gen := fun c => eeRecompileCode0 recMULT_const (recMULTsuper 0 .consts)
  (recMULTsuper 0 .constt) (recMULTsuper 0 .none) (decide (c.Rd ≠ 0)) c

def recMULTU_const : Gen := fun c r =>
  recWritebackConstHILO (unsignedProduct (lo (r.constRegs c.Rs)) (lo (r.constRegs c.Rt))) true 0 c r

def recMULTU : Gen := fun c => eeRecompileCode0 recMULTU_const (recMULTUsuper 0 .consts)
  (recMULTUsuper 0 .constt) (recMULTUsuper 0 .none) (decide (c.Rd ≠ 0)) c

-- the source multiplies the unsigned words here
def recMULT1_const : Gen := fun c r =>
  recWritebackConstHILO (unsignedProduct (lo (r.constRegs c.Rs)) (lo (r.constRegs c.Rt))) true 1 c r

def recMULT1 : Gen := fun c => eeRecompileCode0 recMULT1_const (recMULTsuper 1 .consts)
  (recMULTsuper 1 .constt) (recMULTsuper 1 .none) (decide (c.Rd ≠ 0)) c

def recMULTU1_const : Gen := fun c r =>
  recWritebackConstHILO (unsignedProduct (lo (r.constRegs c.Rs)) (lo (r.constRegs c.Rt))) true 1 c r

def recMULTU1 : Gen := fun c => eeRecompileCode0 recMULTU1_const (recMULTUsuper 1 .consts)
  (recMULTUsuper 1 .constt) (recMULTUsuper 1 .none) (decide (c.Rd ≠ 0)) c

/-- `(u64)quot | ((u64)rem << 32)` of two `s32` -/
def packSigned (quot rem : BitVec 32) : BitVec 64 := quot.signExtend 64 ||| rem.signExtend 64 <<< 32

def recDIVconst (upper : Fin 2) : Gen := fun c r =>
  let rs := lo (r.constRegs c.Rs)
  let rt := lo (r.constRegs c.Rt)
  if rs = 0x80000000#32 ∧ rt = 0xffffffff#32 then
    recWritebackConstHILO (packSigned 0x80000000 0) false upper c r
  else if rt ≠ 0#32 then
    recWritebackConstHILO (packSigned (rs.sdiv rt) (rs.srem rt)) false upper c r
  else recWritebackConstHILO (packSigned (if rs.slt 0 then 1 else 0xffffffff) rs) false upper c r

/-- `(u64)quot | ((u64)rem << 32)` of two `u32` -/
def packUnsigned (quot rem : BitVec 32) : BitVec 64 := quot.setWidth 64 ||| rem.setWidth 64 <<< 32

def recDIVUconst (upper : Fin 2) : Gen := fun c r =>
  let rs := lo (r.constRegs c.Rs)
  let rt := lo (r.constRegs c.Rt)
  if rt ≠ 0#32 then recWritebackConstHILO (packUnsigned (rs / rt) (rs % rt)) false upper c r
  else recWritebackConstHILO (packUnsigned 0xffffffff rs) false upper c r

def divOperands (process : Process) (c : Code) (r : Rec) : X86Code :=
  [.mov .ecx (if process = .constt then .imm (lo (r.constRegs c.Rt)) else .mem (.gpr c.Rt 0)),
    .mov .eax (if process = .consts then .imm (lo (r.constRegs c.Rs)) else .mem (.gpr c.Rs 0))]

def recDIVsuper (sign : Bool) (upper : Fin 2) (process : Process) : Gen := fun c r =>
  recWritebackHILO (divOperands process c r ++ if sign then signedDiv else unsignedDiv)
    false upper c r

def recDIV : Gen := eeRecompileCode0 (recDIVconst 0) (recDIVsuper true 0 .consts)
  (recDIVsuper true 0 .constt) (recDIVsuper true 0 .none) false

def recDIVU : Gen := eeRecompileCode0 (recDIVUconst 0) (recDIVsuper false 0 .consts)
  (recDIVsuper false 0 .constt) (recDIVsuper false 0 .none) false

def recDIV1 : Gen := eeRecompileCode0 (recDIVconst 1) (recDIVsuper true 1 .consts)
  (recDIVsuper true 1 .constt) (recDIVsuper true 1 .none) false

def recDIVU1 : Gen := eeRecompileCode0 (recDIVUconst 1) (recDIVsuper false 1 .consts)
  (recDIVsuper false 1 .constt) (recDIVsuper false 1 .none) false

/-- The end of a multiply-add: `eax` and `ecx` go to `LO`, `rd` and `HI`. -/
def storeMADD (rd : Fin 32) (upper : Fin 2) : X86Code :=
  .cdq :: storeRd rd ++
    [.mov (.mem (.lo (lowWord upper))) .eax, .mov (.mem (.lo (highWord upper))) .edx,
      .mov (.mem (.hi (lowWord upper))) .ecx, .mov .eax .ecx, .cdq,
      .mov (.mem (.hi (highWord upper))) .edx]

/-- `recMADD`, `recMADD1`, `recMADDU` and `recMADDU1`. -/
def recMADDs (product : BitVec 32 → BitVec 32 → BitVec 64)
    (mul : Src Loc → Instr Loc XmmReg) (upper : Fin 2) : Gen := fun c r =>
  let code :=
    if r.hasConst c.Rs = true ∧ r.hasConst c.Rt = true then
      let result := product (lo (r.constRegs c.Rs)) (lo (r.constRegs c.Rt))
      [.mov .eax (.mem (.lo (lowWord upper))), .mov .ecx (.mem (.hi (lowWord upper))),
        .alu .add .eax (.imm (lo result)), .alu .adc .ecx (.imm (hi result))]
    else
      let process := if r.hasConst c.Rs = true then Process.consts
        else if r.hasConst c.Rt = true then .constt else .none
      mulOperands mul process c r ++
        [.mov .ecx .edx, .alu .add .eax (.mem (.lo (lowWord upper))),
          .alu .adc .ecx (.mem (.hi (lowWord upper)))]
  onWriteReg c.Rd (r.emit (code ++ storeMADD c.Rd upper))

def recMADD : Gen := recMADDs signedProduct .imul 0
def recMADD1 : Gen := recMADDs signedProduct .imul 1
def recMADDU : Gen := recMADDs unsignedProduct .mul 0
def recMADDU1 : Gen := recMADDs unsignedProduct .mul 1

/-- The home of the registers after an assignment to the halves `i` of `LO` and `HI`. -/
def Home.putHILO (m : Home) (i : Fin 2) (l h : BitVec 64) : Home :=
  Function.update (Function.update (Function.update (Function.update m
    (.lo (lowWord i)) (lo l)) (.lo (highWord i)) (hi l)) (.hi (lowWord i)) (lo h))
    (.hi (highWord i)) (hi h)

section

variable {c : Code} {r : Rec} {s : Machine}

theorem UD_putHILO (m : Home) (i : Fin 2) (l h : BitVec 64) (x : Fin 32) :
    (m.putHILO i l h).UD x = m.UD x := by
  simp [Home.UD, Home.putHILO]

@[simp] theorem lowWord_inj (i j : Fin 2) : lowWord i = lowWord j ↔ i = j := by
  revert i j
  decide

@[simp] theorem highWord_inj (i j : Fin 2) : highWord i = highWord j ↔ i = j := by
  revert i j
  decide

@[simp] theorem lowWord_ne (i j : Fin 2) : lowWord i ≠ highWord j := by
  revert i j
  decide

@[simp] theorem highWord_ne (i j : Fin 2) : highWord i ≠ lowWord j := (lowWord_ne j i).symm

theorem regs_putHILO (m : Home) (i : Fin 2) (l h : BitVec 64) :
    r.regs (m.putHILO i l h) = (r.regs m).putHILO i l h := by
  simp only [Rec.regs, CpuRegs.putHILO, CpuRegs.mk.injEq]
  refine ⟨?_, ?_, ?_⟩
  · funext x j
    simp [Home.putHILO]
  · funext j
    by_cases hj : j = i
    · simp [Home.putHILO, hj]
    · simp [Home.putHILO, hj]
  · funext j
    by_cases hj : j = i
    · simp [Home.putHILO, hj]
    · simp [Home.putHILO, hj]

theorem Rec.Sound.putHILO {m : Home} (hs : r.Sound m) (i : Fin 2) (l h : BitVec 64) :
    r.Sound (m.putHILO i l h) where
  zero_home := by rw [UD_putHILO, hs.zero_home]
  zero_const := hs.zero_const
  flushed x hc hf := by rw [UD_putHILO, hs.flushed x hc hf]

/-- Code that assigns the halves of a product to `LO` and `HI`, and the low one to `rd`. -/
theorem product_represents {s₀ s s' : Machine} {p : X86Code} {i : Fin 2} {res : BitVec 64}
    (hrun : exec r.code s₀ = some s) (hs : r.Sound s.mem) (hp : exec p s = some s')
    (hm : s'.mem =
      let m := Home.putHILO s.mem i ((lo res).signExtend 64) ((hi res).signExtend 64)
      if c.Rd = 0 then m else m.put c.Rd ((lo res).signExtend 64)) :
    Represents (onWriteReg c.Rd (r.emit p)) s₀ ((r.regs s.mem).putProduct c i res) := by
  have hr := hs.putHILO i ((lo res).signExtend 64) ((hi res).signExtend 64)
  refine ⟨s', ?_, ?_, ?_⟩
  · rw [show (onWriteReg c.Rd (r.emit p)).code = r.code ++ p by rw [onWriteReg]; split <;> rfl]
    exact (exec_append s₀ hrun).trans hp
  · rw [hm, onWriteReg]
    split
    · exact hr.emit p
    · next hd => exact (hr.emit p).put hd _
  · rw [hm, onWriteReg, CpuRegs.putProduct, CpuRegs.put]
    split
    · next hd => exact regs_putHILO s.mem i _ _
    · next hd =>
      have h := regs_put (r.emit p) (Home.putHILO s.mem i ((lo res).signExtend 64)
        ((hi res).signExtend 64)) hd ((lo res).signExtend 64)
      rw [CpuRegs.put, if_neg hd] at h
      rw [← regs_putHILO]
      exact h

theorem writebackHILO_mem (rd : Fin 32) (upper : Fin 2) (s : Machine) :
    (exec (writebackHILO rd true upper) s).map State.mem = some
      (let m := Home.putHILO s.mem upper (s.eax.signExtend 64) (s.edx.signExtend 64)
      if rd = 0 then m else m.put rd (s.eax.signExtend 64)) := by
  by_cases hd : rd = 0
  · simp [writebackHILO, storeRd, hd, Home.putHILO, Shift.eval, sshiftRight_signWord]
  · simp [writebackHILO, storeRd, hd, Home.putHILO, Home.put, Shift.eval, sshiftRight_signWord]
    funext l
    cases l <;> simp [Function.update_apply]

theorem writebackHILO_mem_false (rd : Fin 32) (upper : Fin 2) (s : Machine) :
    (exec (writebackHILO rd false upper) s).map State.mem = some
      (Home.putHILO s.mem upper (s.eax.signExtend 64) (s.edx.signExtend 64)) := by
  simp [writebackHILO, Home.putHILO, Shift.eval, sshiftRight_signWord]

theorem regs_UL (m : Home) (x : Fin 32) : (r.regs m).UL x =
    if r.hasConst x = true then lo (r.constRegs x) else m (.gpr x 0) := by
  change lo ((r.regs m).UD x) = _
  rw [regs_UD]
  split
  · rfl
  · exact lo_join _ _

/-- The process fits the constants: at most one source is known. -/
structure Process.Fits (process : Process) (c : Code) (r : Rec) : Prop where
  rs : r.hasConst c.Rs = decide (process = .consts)
  rt : r.hasConst c.Rt = decide (process = .constt)

theorem mulOperands_exec {mul : Src Loc → Instr Loc XmmReg}
    {product : BitVec 32 → BitVec 32 → BitVec 64} (hmul : Multiplies mul product)
    {process : Process} (hp : process.Fits c r) (s : Machine) :
    ∃ s', exec (mulOperands mul process c r) s = some s' ∧ s'.mem = s.mem ∧
      s'.eax = lo (product ((r.regs s.mem).UL c.Rs) ((r.regs s.mem).UL c.Rt)) ∧
      s'.edx = hi (product ((r.regs s.mem).UL c.Rs) ((r.regs s.mem).UL c.Rt)) := by
  rw [regs_UL, regs_UL, hp.rs, hp.rt]
  cases process
  · exact ⟨_, (exec_mov s _ .eax _).trans (hmul.2 _ _), rfl, rfl, rfl⟩
  · exact ⟨_, (exec_mov s _ .eax _).trans (hmul.2 _ _), rfl, rfl, rfl⟩
  · refine ⟨_, (exec_mov s _ .eax _).trans (hmul.2 _ _), rfl, ?_, ?_⟩
    · exact congrArg lo (hmul.1 _ _)
    · exact congrArg hi (hmul.1 _ _)

theorem multiply_represents {mul : Src Loc → Instr Loc XmmReg}
    {product : BitVec 32 → BitVec 32 → BitVec 64} (hmul : Multiplies mul product)
    {process : Process} (hp : process.Fits c r) (upper : Fin 2) {s₀ : Machine} {regs : CpuRegs}
    (h : Represents r s₀ regs) :
    Represents (recWritebackHILO (mulOperands mul process c r) true upper c r) s₀
      (regs.putProduct c upper (product (regs.UL c.Rs) (regs.UL c.Rt))) := by
  obtain ⟨s, hrun, hs, rfl⟩ := h
  obtain ⟨s₁, h₁, hm₁, ha, hd⟩ := mulOperands_exec hmul hp s
  obtain ⟨s₂, h₂, hm₂⟩ := Option.map_eq_some_iff.mp (writebackHILO_mem c.Rd upper s₁)
  refine product_represents hrun hs ((exec_append s h₁).trans h₂) ?_
  rw [hm₂, hm₁, ha, hd]

theorem constHILO_mem (res : BitVec 64) (upper : Fin 2) (s : Machine) :
    (exec (constHILO res upper) s).map State.mem = some
      (Home.putHILO s.mem upper ((lo res).signExtend 64) ((hi res).signExtend 64)) := by
  have hm : res.msb = (hi res).msb := by
    conv_lhs => rw [← join_hi_lo res, msb_join]
  rw [constHILO, hm]
  simp [Home.putHILO, signWord]

theorem constHILO_represents (res : BitVec 64) (upper : Fin 2) {s₀ : Machine} {regs : CpuRegs}
    (h : Represents r s₀ regs) : Represents (r.emit (constHILO res upper)) s₀
      (regs.putHILO upper ((lo res).signExtend 64) ((hi res).signExtend 64)) := by
  obtain ⟨s, hrun, hs, rfl⟩ := h
  obtain ⟨s', hs', hm⟩ := Option.map_eq_some_iff.mp (constHILO_mem res upper s)
  refine ⟨s', (exec_append s₀ hrun).trans hs', ?_, ?_⟩
  · rw [hm]
    exact (hs.putHILO upper _ _).emit _
  · rw [hm]
    exact regs_putHILO s.mem upper _ _

theorem Represents.putConst {s₀ : Machine} {regs : CpuRegs} (h : Represents r s₀ regs)
    {x : Fin 32} (hx : x ≠ 0) (v : BitVec 64) :
    Represents ((r.setConst x).putConst x v) s₀ (regs.put x v) := by
  obtain ⟨s, hrun, hs, rfl⟩ := h
  exact ⟨s, hrun, hs.putConst hx v, regs_putConst r s.mem hx v⟩

theorem constProduct_represents (res : BitVec 64) (upper : Fin 2) {s₀ : Machine} {regs : CpuRegs}
    (h : Represents r s₀ regs) :
    Represents (recWritebackConstHILO res true upper c
      (if decide (c.Rd ≠ 0) = true then r.setConst c.Rd else r)) s₀ (regs.putProduct c upper res) := by
  have h' := constHILO_represents res upper h
  rw [CpuRegs.putProduct]
  by_cases hd : c.Rd = 0
  · have he : recWritebackConstHILO res true upper c
        (if decide (c.Rd ≠ 0) = true then r.setConst c.Rd else r) =
        r.emit (constHILO res upper) := by
      simp [recWritebackConstHILO, hd]
    rw [he, CpuRegs.put, if_pos hd]
    exact h'
  · have he : recWritebackConstHILO res true upper c
        (if decide (c.Rd ≠ 0) = true then r.setConst c.Rd else r) =
        ((r.emit (constHILO res upper)).setConst c.Rd).putConst c.Rd ((lo res).signExtend 64) := by
      simp [recWritebackConstHILO, hd]
      rfl
    rw [he]
    exact h'.putConst hd _

theorem onWriteReg_idem (x : Fin 32) (r : Rec) :
    (if decide (x ≠ 0) = true then (onWriteReg x r).delConst x else onWriteReg x r) =
      onWriteReg x r := by
  by_cases hx : x = 0
  · simp [hx]
  · simp [hx, onWriteReg, Rec.delConst]

/-- The template, for instructions that write `LO` and `HI`, from its four routines. -/
theorem code0_HILO {constcode constscode consttcode noconstcode : Gen} {writed : Bool}
    {s₀ : Machine} {regs' : CpuRegs} (hw : writed = true → c.Rd ≠ 0)
    (hconst : r.hasConst c.Rs = true → r.hasConst c.Rt = true →
      Represents (constcode c (if writed then r.setConst c.Rd else r)) s₀ regs')
    (hother : ∀ process : Process, process.Fits c r →
      let g := match process with
        | .consts => constscode c r
        | .constt => consttcode c r
        | .none => noconstcode c r
      Represents (if writed then g.delConst c.Rd else g) s₀ regs') :
    Represents (eeRecompileCode0 constcode constscode consttcode noconstcode writed c r) s₀
      regs' := by
  rw [eeRecompileCode0, if_neg (fun hn => hw hn.2 hn.1)]
  cases hs : r.hasConst c.Rs <;> cases ht : r.hasConst c.Rt
  · exact hother .none ⟨hs, ht⟩
  · exact hother .constt ⟨hs, ht⟩
  · exact hother .consts ⟨hs, ht⟩
  · exact hconst hs ht

theorem code0_multiply {mul : Src Loc → Instr Loc XmmReg}
    {product : BitVec 32 → BitVec 32 → BitVec 64} (hmul : Multiplies mul product)
    (folded : BitVec 32 → BitVec 32 → BitVec 64) (upper : Fin 2) {s₀ : Machine} {regs : CpuRegs} (h : Represents r s₀ regs) :
    Represents (eeRecompileCode0
      (fun c r => recWritebackConstHILO
        (folded (lo (r.constRegs c.Rs)) (lo (r.constRegs c.Rt))) true upper c r)
      (fun c r => recWritebackHILO (mulOperands mul .consts c r) true upper c r)
      (fun c r => recWritebackHILO (mulOperands mul .constt c r) true upper c r)
      (fun c r => recWritebackHILO (mulOperands mul .none c r) true upper c r)
      (decide (c.Rd ≠ 0)) c r) s₀
      (regs.putProduct c upper
        ((if r.hasConst c.Rs = true ∧ r.hasConst c.Rt = true then folded else product)
          (regs.UL c.Rs) (regs.UL c.Rt))) := by
  apply code0_HILO (by simp)
  · intro hs ht
    have hc : (if decide (c.Rd ≠ 0) = true then r.setConst c.Rd else r).constRegs =
        r.constRegs := by
      split <;> rfl
    obtain ⟨s, hrun, hsound, rfl⟩ := h
    rw [hc, if_pos (show r.hasConst c.Rs = true ∧ r.hasConst c.Rt = true from ⟨hs, ht⟩),
      regs_UL, regs_UL, if_pos hs, if_pos ht]
    exact constProduct_represents _ upper ⟨s, hrun, hsound, rfl⟩
  · intro process hp
    have hn : ¬(r.hasConst c.Rs = true ∧ r.hasConst c.Rt = true) := by
      rw [hp.rs, hp.rt]
      cases process <;> simp
    rw [if_neg hn]
    have hm := multiply_represents hmul hp upper h
    cases process
    all_goals
      change Represents (if decide (c.Rd ≠ 0) = true then (onWriteReg c.Rd _).delConst c.Rd
        else onWriteReg c.Rd _) s₀ _
      rw [onWriteReg_idem]
      exact hm

theorem recMULT_represents {s₀ : Machine} {regs : CpuRegs} (h : Represents r s₀ regs) :
    Represents (recMULT c r) s₀
      (regs.putProduct c 0 (signedProduct (regs.UL c.Rs) (regs.UL c.Rt))) := by
  have hr := code0_multiply (c := c) imul_multiplies signedProduct 0 h
  rwa [ite_self] at hr

theorem recMULTU_represents {s₀ : Machine} {regs : CpuRegs} (h : Represents r s₀ regs) :
    Represents (recMULTU c r) s₀
      (regs.putProduct c 0 (unsignedProduct (regs.UL c.Rs) (regs.UL c.Rt))) := by
  have hr := code0_multiply (c := c) mul_multiplies unsignedProduct 0 h
  rwa [ite_self] at hr

theorem recMULTU1_represents {s₀ : Machine} {regs : CpuRegs} (h : Represents r s₀ regs) :
    Represents (recMULTU1 c r) s₀
      (regs.putProduct c 1 (unsignedProduct (regs.UL c.Rs) (regs.UL c.Rt))) := by
  have hr := code0_multiply (c := c) mul_multiplies unsignedProduct 1 h
  rwa [ite_self] at hr

theorem recMULT1_represents {s₀ : Machine} {regs : CpuRegs} (h : Represents r s₀ regs) :
    Represents (recMULT1 c r) s₀ (regs.putProduct c 1
      ((if r.hasConst c.Rs = true ∧ r.hasConst c.Rt = true then unsignedProduct else signedProduct)
        (regs.UL c.Rs) (regs.UL c.Rt))) :=
  code0_multiply imul_multiplies unsignedProduct 1 h

end

end OmegaRed.R5900
