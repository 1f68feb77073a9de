import OmegaRed.R5900.MultDiv

/-! Divisions and multiply-adds of the recompiler. -/

namespace OmegaRed.R5900

open Lib.Halves Lib.X86

section

variable {c : Code} {r : Rec} {s : Machine}

theorem divOperands_exec {process : Process} (hp : process.Fits c r) (s : Machine) :
    ∃ s', exec (divOperands process c r) s = some s' ∧ s'.mem = s.mem ∧
      s'.eax = (r.regs s.mem).UL c.Rs ∧ s'.ecx = (r.regs s.mem).UL c.Rt := by
  rw [regs_UL, regs_UL, hp.rs, hp.rt, divOperands]
  refine ⟨_, (exec_mov s _ .ecx _).trans (exec_mov _ _ .eax _), rfl, ?_, ?_⟩
  · cases process <;> rfl
  · cases process <;> rfl

theorem putHILO_represents {s₀ s s' : Machine} {p : X86Code} {i : Fin 2} {l h : BitVec 64}
    (hrun : exec r.code s₀ = some s) (hs : r.Sound s.mem) (hp : exec p s = some s')
    (hm : s'.mem = Home.putHILO s.mem i l h) :
    Represents (r.emit p) s₀ ((r.regs s.mem).putHILO i l h) := by
  refine ⟨s', (exec_append s₀ hrun).trans hp, ?_, ?_⟩
  · rw [hm]
    exact (hs.putHILO i l h).emit p
  · rw [hm]
    exact regs_putHILO s.mem i l h

theorem divide_represents {p : X86Code} {f : BitVec 32 → BitVec 32 → BitVec 32 × BitVec 32}
    (hdiv : Divides p f) {process : Process} (hp : process.Fits c r) (upper : Fin 2)
    {s₀ : Machine} {regs : CpuRegs} (h : Represents r s₀ regs) :
    Represents (recWritebackHILO (divOperands process c r ++ p) false upper c r) s₀
      (regs.putHILO upper ((f (regs.UL c.Rs) (regs.UL c.Rt)).1.signExtend 64)
        ((f (regs.UL c.Rs) (regs.UL c.Rt)).2.signExtend 64)) := by
  obtain ⟨s, hrun, hs, rfl⟩ := h
  obtain ⟨s₁, h₁, hm₁, ha, hc⟩ := divOperands_exec hp s
  obtain ⟨s₂, h₂, hv⟩ := Option.map_eq_some_iff.mp (hdiv s₁)
  obtain ⟨s₃, h₃, hm₃⟩ := Option.map_eq_some_iff.mp (writebackHILO_mem_false c.Rd upper s₂)
  have hm₂ : s₂.mem = s₁.mem := congrArg Prod.fst hv
  have hq : f s₁.eax s₁.ecx = (s₂.eax, s₂.edx) := (congrArg Prod.snd hv).symm
  refine putHILO_represents hrun hs
    ((exec_append s ((exec_append s h₁).trans h₂)).trans h₃) ?_
  rw [hm₃, hm₂, hm₁, ← ha, ← hc, hq]

/-- What the folded division leaves: the sign of the quotient is ored into the remainder. -/
def signedFold (a b : BitVec 32) : BitVec 32 × BitVec 32 :=
  ((signedQuotient a b).1, signWord (signedQuotient a b).1 ||| (signedQuotient a b).2)

theorem signExtend_shl (m : BitVec 32) : m.signExtend 64 <<< 32 = join m 0 := by
  rw [signExtend_eq]
  exact (join_shl _ _ (n := 0)).trans (by rw [BitVec.shiftLeft_zero])

theorem setWidth_eq (q : BitVec 32) : q.setWidth 64 = join 0 q := by
  apply BitVec.eq_of_toNat_eq
  rw [toNat_join, BitVec.toNat_setWidth_of_le (by decide)]
  simp

theorem lo_packSigned (q m : BitVec 32) : lo (packSigned q m) = q := by
  rw [packSigned, signExtend_shl, lo_or, lo_signExtend, lo_join]
  exact BitVec.or_zero

theorem hi_packSigned (q m : BitVec 32) : hi (packSigned q m) = signWord q ||| m := by
  rw [packSigned, signExtend_shl, hi_or, hi_signExtend, hi_join]

theorem packUnsigned_eq (q m : BitVec 32) : packUnsigned q m = join m q := by
  have hm : m.setWidth 64 <<< 32 = join m 0 := by
    rw [setWidth_eq]
    exact (join_shl _ _ (n := 0)).trans (by rw [BitVec.shiftLeft_zero])
  rw [packUnsigned, hm, setWidth_eq, join_or]
  simp

theorem recDIVconst_eq (upper : Fin 2) (c : Code) (r : Rec) :
    recDIVconst upper c r = r.emit (constHILO
      (packSigned (signedQuotient (lo (r.constRegs c.Rs)) (lo (r.constRegs c.Rt))).1
        (signedQuotient (lo (r.constRegs c.Rs)) (lo (r.constRegs c.Rt))).2) upper) := by
  simp only [recDIVconst, signedQuotient, recWritebackConstHILO, true_or, if_true]
  split
  · rfl
  · next ho =>
    by_cases hb : lo (r.constRegs c.Rt) = 0#32
    · rw [if_neg (fun hn => hn hb), if_pos hb]
      rfl
    · rw [if_pos hb, if_neg hb]

theorem recDIVUconst_eq (upper : Fin 2) (c : Code) (r : Rec) :
    recDIVUconst upper c r = r.emit (constHILO
      (packUnsigned (unsignedQuotient (lo (r.constRegs c.Rs)) (lo (r.constRegs c.Rt))).1
        (unsignedQuotient (lo (r.constRegs c.Rs)) (lo (r.constRegs c.Rt))).2) upper) := by
  simp only [recDIVUconst, unsignedQuotient, recWritebackConstHILO, true_or, if_true]
  by_cases hb : lo (r.constRegs c.Rt) = 0#32
  · rw [if_neg (fun hn => hn hb), if_pos hb]
    rfl
  · rw [if_pos hb, if_neg hb]

theorem code0_divide {p : X86Code} {f : BitVec 32 → BitVec 32 → BitVec 32 × BitVec 32}
    (hdiv : Divides p f) (folded : BitVec 32 → BitVec 32 → BitVec 32 × BitVec 32)
    {pack : BitVec 32 → BitVec 32 → BitVec 64}
    (hlo : ∀ a b, lo (pack (f a b).1 (f a b).2) = (folded a b).1)
    (hhi : ∀ a b, hi (pack (f a b).1 (f a b).2) = (folded a b).2)
    {constcode : Gen} (upper : Fin 2)
    (hconst : constcode c r = r.emit (constHILO
      (pack (f (lo (r.constRegs c.Rs)) (lo (r.constRegs c.Rt))).1
        (f (lo (r.constRegs c.Rs)) (lo (r.constRegs c.Rt))).2) upper))
    {s₀ : Machine} {regs : CpuRegs} (h : Represents r s₀ regs) :
    let q := (if r.hasConst c.Rs = true ∧ r.hasConst c.Rt = true then folded else f)
      (regs.UL c.Rs) (regs.UL c.Rt)
    Represents (eeRecompileCode0 constcode
      (fun c r => recWritebackHILO (divOperands .consts c r ++ p) false upper c r)
      (fun c r => recWritebackHILO (divOperands .constt c r ++ p) false upper c r)
      (fun c r => recWritebackHILO (divOperands .none c r ++ p) false upper c r) false c r) s₀
      (regs.putHILO upper (q.1.signExtend 64) (q.2.signExtend 64)) := by
  apply code0_HILO (by simp)
  · intro hs ht
    obtain ⟨s, hrun, hsound, rfl⟩ := h
    rw [if_pos (show r.hasConst c.Rs = true ∧ r.hasConst c.Rt = true from ⟨hs, ht⟩), regs_UL,
      regs_UL, if_pos hs, if_pos ht, if_neg (by simp), hconst, ← hlo, ← hhi]
    exact constHILO_represents _ upper ⟨s, hrun, hsound, rfl⟩
  · intro process hp
    have hn : ¬(r.hasConst c.Rs = true ∧ r.hasConst c.Rt = true) := by
      rw [hp.rs, hp.rt]
      cases process <;> simp
    rw [if_neg hn]
    have hd := divide_represents hdiv hp upper h
    cases process <;> exact hd

/-- The registers after a division with the quotient and remainder `q`. -/
def CpuRegs.putQuotient (regs : CpuRegs) (i : Fin 2) (q : BitVec 32 × BitVec 32) : CpuRegs :=
  regs.putHILO i (q.1.signExtend 64) (q.2.signExtend 64)

/-- The signed division of the generated code, by the constants known. -/
def Rec.quotient (r : Rec) (c : Code) : BitVec 32 → BitVec 32 → BitVec 32 × BitVec 32 :=
  if r.hasConst c.Rs = true ∧ r.hasConst c.Rt = true then signedFold else signedQuotient

theorem recDIV_represents {s₀ : Machine} {regs : CpuRegs} (h : Represents r s₀ regs) :
    Represents (recDIV c r) s₀
      (regs.putQuotient 0 (r.quotient c (regs.UL c.Rs) (regs.UL c.Rt))) :=
  code0_divide signedDiv_divides signedFold (fun _ _ => lo_packSigned _ _) (fun _ _ => hi_packSigned _ _) 0
    (recDIVconst_eq 0 c r) h

theorem recDIV1_represents {s₀ : Machine} {regs : CpuRegs} (h : Represents r s₀ regs) :
    Represents (recDIV1 c r) s₀
      (regs.putQuotient 1 (r.quotient c (regs.UL c.Rs) (regs.UL c.Rt))) :=
  code0_divide signedDiv_divides signedFold (fun _ _ => lo_packSigned _ _) (fun _ _ => hi_packSigned _ _) 1
    (recDIVconst_eq 1 c r) h

theorem recDIVU_represents {s₀ : Machine} {regs : CpuRegs} (h : Represents r s₀ regs) :
    Represents (recDIVU c r) s₀
      (regs.putQuotient 0 (unsignedQuotient (regs.UL c.Rs) (regs.UL c.Rt))) := by
  have hr := code0_divide unsignedDiv_divides unsignedQuotient
    (fun _ _ => by rw [packUnsigned_eq, lo_join])
    (fun _ _ => by rw [packUnsigned_eq, hi_join]) 0
    (recDIVUconst_eq 0 c r) h
  rwa [ite_self] at hr

theorem recDIVU1_represents {s₀ : Machine} {regs : CpuRegs} (h : Represents r s₀ regs) :
    Represents (recDIVU1 c r) s₀
      (regs.putQuotient 1 (unsignedQuotient (regs.UL c.Rs) (regs.UL c.Rt))) := by
  have hr := code0_divide unsignedDiv_divides unsignedQuotient
    (fun _ _ => by rw [packUnsigned_eq, lo_join])
    (fun _ _ => by rw [packUnsigned_eq, hi_join]) 1
    (recDIVUconst_eq 1 c r) h
  rwa [ite_self] at hr

theorem storeMADD_mem (rd : Fin 32) (upper : Fin 2) (s : Machine) :
    (exec (storeMADD rd upper) s).map State.mem = some
      (let m := Home.putHILO s.mem upper (s.eax.signExtend 64) (s.ecx.signExtend 64)
      if rd = 0 then m else m.put rd (s.eax.signExtend 64)) := by
  by_cases hd : rd = 0
  · simp [storeMADD, storeRd, hd, Home.putHILO]
  · simp [storeMADD, storeRd, hd, Home.putHILO, Home.put]
    funext l
    cases l <;> simp [Function.update_apply]

theorem acc_eq (m : Home) (i : Fin 2) :
    (r.regs m).acc i = join (m (.hi (lowWord i))) (m (.lo (lowWord i))) := by
  simp [CpuRegs.acc, Rec.regs]

theorem cf_addFlags (a b : BitVec 32) :
    (addFlags a b false).cf = decide (2 ^ 32 ≤ a.toNat + b.toNat) := by
  rw [addFlags, Bool.toNat_false, Nat.add_zero]

theorem addAdc_exec (l h : Src Loc) (hh : ∀ (s : Machine) (v : BitVec 32) (f : Option Flags),
      State.val { s with eax := v, flags := f } h = s.val h) (s : Machine) :
    (exec [.alu .add .eax l, .alu .adc .ecx h] s).map (fun s' => (s'.mem, join s'.ecx s'.eax)) =
      some (s.mem, join s.ecx s.eax + join (s.val h) (s.val l)) := by
  rw [exec_alu, Alu.eval, Option.map_some, Option.bind_some, exec_alu, Alu.eval, Option.map_some,
    Option.map_some, Option.bind_some, exec_nil, Option.map_some, join_add, ← cf_addFlags,
    ← hh s (s.eax + s.val l) (some (addFlags s.eax (s.val l) false))]
  rfl

theorem accumulate_exec {mul : Src Loc → Instr Loc XmmReg}
    {product : BitVec 32 → BitVec 32 → BitVec 64} (hmul : Multiplies mul product)
    (process : Process) (hp : process.Fits c r) (upper : Fin 2) (s : Machine) :
    (exec (mulOperands mul process c r ++
      [.mov .ecx .edx, .alu .add .eax (.mem (.lo (lowWord upper))),
        .alu .adc .ecx (.mem (.hi (lowWord upper)))]) s).map
      (fun s' => (s'.mem, join s'.ecx s'.eax)) = some (s.mem, (r.regs s.mem).acc upper +
        product ((r.regs s.mem).UL c.Rs) ((r.regs s.mem).UL c.Rt)) := by
  obtain ⟨s', hs', hm, ha, hd⟩ := mulOperands_exec hmul hp s
  rw [exec_append s hs', exec_mov]
  refine (addAdc_exec _ _ (fun _ _ _ => rfl) _).trans ?_
  change some (s'.mem, join s'.edx s'.eax + join (s'.mem _) (s'.mem _)) = _
  rw [hm, ha, hd, join_hi_lo, acc_eq, BitVec.add_comm]

theorem accumulateConst_exec (product : BitVec 64) (upper : Fin 2) (s : Machine) :
    (exec [.mov .eax (.mem (.lo (lowWord upper))), .mov .ecx (.mem (.hi (lowWord upper))),
        .alu .add .eax (.imm (lo product)), .alu .adc .ecx (.imm (hi product))] s).map
      (fun s' => (s'.mem, join s'.ecx s'.eax)) = some (s.mem, (r.regs s.mem).acc upper + product) := by
  rw [exec_mov, exec_mov]
  refine (addAdc_exec _ _ (fun _ _ _ => rfl) _).trans ?_
  change some (s.mem, join _ _ + join (hi product) (lo product)) = _
  rw [join_hi_lo, acc_eq]
  rfl

theorem madd_represents {p : X86Code} (res : CpuRegs → BitVec 64) {upper : Fin 2}
    (hp : ∀ s : Machine, (exec p s).map (fun s' => (s'.mem, join s'.ecx s'.eax)) =
      some (s.mem, res (r.regs s.mem))) {s₀ : Machine} {regs : CpuRegs} (h : Represents r s₀ regs) :
    Represents (onWriteReg c.Rd (r.emit (p ++ storeMADD c.Rd upper))) s₀
      (regs.putProduct c upper (res regs)) := by
  obtain ⟨s, hrun, hs, rfl⟩ := h
  obtain ⟨s₁, h₁, hv⟩ := Option.map_eq_some_iff.mp (hp s)
  obtain ⟨s₂, h₂, hm₂⟩ := Option.map_eq_some_iff.mp (storeMADD_mem c.Rd upper s₁)
  have hm₁ : s₁.mem = s.mem := congrArg Prod.fst hv
  have hj : res (r.regs s.mem) = join s₁.ecx s₁.eax := (congrArg Prod.snd hv).symm
  refine product_represents hrun hs ((exec_append s h₁).trans h₂) ?_
  rw [hm₂, hm₁, hj, lo_join, hi_join]

theorem recMADDs_represents {mul : Src Loc → Instr Loc XmmReg}
    {product : BitVec 32 → BitVec 32 → BitVec 64} (hmul : Multiplies mul product) (upper : Fin 2)
    {s₀ : Machine} {regs : CpuRegs} (h : Represents r s₀ regs) :
    Represents (recMADDs product mul upper c r) s₀ (regs.putProduct c upper
      (regs.acc upper + product (regs.UL c.Rs) (regs.UL c.Rt))) := by
  refine madd_represents
    (fun regs => regs.acc upper + product (regs.UL c.Rs) (regs.UL c.Rt)) (fun s => ?_) h
  cases hs : r.hasConst c.Rs <;> cases ht : r.hasConst c.Rt
  · exact accumulate_exec hmul .none ⟨hs, ht⟩ upper s
  · exact accumulate_exec hmul .constt ⟨hs, ht⟩ upper s
  · exact accumulate_exec hmul .consts ⟨hs, ht⟩ upper s
  · rw [if_pos ⟨rfl, rfl⟩, regs_UL, regs_UL, if_pos hs, if_pos ht]
    exact accumulateConst_exec _ upper s

end

end OmegaRed.R5900
