import OmegaRed.R3000A.Tables

/-! The recompiled instructions of the IOP against the interpreted ones. -/

namespace OmegaRed.R3000A

open Lib.Halves Lib.X86

section Leaves

variable {s : Machine} {dreg sreg : Fin 32}

theorem leaves_of_run {q : X86Code} {s' : Machine} {m : Home} (hq : exec q s = some s')
    (hm : s'.mem = m) : Leaves q s m := by
  rw [Leaves, hq, Option.map_some, hm]

theorem rpsxADDconst_leaves (h0 : s.mem (.gpr 0) = 0) (off : BitVec 32) :
    Leaves (rpsxADDconst dreg sreg off) s
      (Function.update s.mem (.gpr dreg) (s.mem (.gpr sreg) + off)) := by
  rw [Leaves, rpsxADDconst]
  by_cases hs : sreg = 0
  · simp [hs, h0]
  rw [if_pos hs]
  by_cases hd : sreg = dreg
  · simp [hd]
  by_cases ho : off = 0#32
  · simp [hd, ho]
  · simp [hd, ho]

variable {o : Alu} {f : BitVec 32 → BitVec 32 → BitVec 32}

theorem opImm_leaves (ho : o.Computes f) (imm : BitVec 32) : Leaves (opImm o dreg sreg imm) s
    (Function.update s.mem (.gpr dreg) (f (s.mem (.gpr sreg)) imm)) := by
  rw [Leaves, opImm]
  by_cases hd : sreg = dreg
  · obtain ⟨fl, h⟩ := exec_alu_of s [] ho (.mem (.gpr dreg)) (.imm imm)
    rw [if_pos hd, h, hd]
    rfl
  · rw [if_neg hd, exec_mov]
    obtain ⟨fl, h⟩ := exec_alu_of (s.put (s.val (.mem (.gpr sreg))) .eax)
      [.mov (.mem (.gpr dreg)) .eax] ho .eax (.imm imm)
    rw [h, exec_mov]
    rfl

theorem moveReg_leaves : Leaves (moveReg dreg sreg) s
    (Function.update s.mem (.gpr dreg) (s.mem (.gpr sreg))) := by
  rw [Leaves, moveReg]
  by_cases hd : dreg = sreg
  · simp [hd]
  · simp [hd]

theorem notReg_leaves : Leaves (notReg dreg sreg) s
    (Function.update s.mem (.gpr dreg) (~~~s.mem (.gpr sreg))) := by
  rw [Leaves, notReg]
  by_cases hd : dreg = sreg
  · simp [hd]
  · simp [hd]

theorem and_computes : Alu.and.Computes (· &&& ·) := fun _ _ _ => ⟨_, rfl⟩
theorem or_computes : Alu.or.Computes (· ||| ·) := fun _ _ _ => ⟨_, rfl⟩
theorem xor_computes : Alu.xor.Computes (· ^^^ ·) := fun _ _ _ => ⟨_, rfl⟩

theorem rpsxANDconst_leaves (imm : BitVec 32) : Leaves (rpsxANDconst dreg sreg imm) s
    (Function.update s.mem (.gpr dreg) (s.mem (.gpr sreg) &&& imm)) := by
  rw [rpsxANDconst]
  by_cases hi : imm = 0#32
  · rw [if_neg (fun h => h hi), hi, BitVec.and_zero]
    exact leaves_of_run (exec_mov s [] _ _) rfl
  · rw [if_pos hi]
    exact opImm_leaves and_computes imm

theorem rpsxORconst_leaves (imm : BitVec 32) : Leaves (rpsxORconst dreg sreg imm) s
    (Function.update s.mem (.gpr dreg) (s.mem (.gpr sreg) ||| imm)) := by
  rw [rpsxORconst]
  by_cases hi : imm = 0#32
  · rw [if_neg (fun h => h hi), hi, BitVec.or_zero]
    exact moveReg_leaves
  · rw [if_pos hi]
    exact opImm_leaves or_computes imm

theorem rpsxXORconst_leaves (imm : BitVec 32) : Leaves (rpsxXORconst dreg sreg imm) s
    (Function.update s.mem (.gpr dreg) (s.mem (.gpr sreg) ^^^ imm)) := by
  rw [rpsxXORconst]
  by_cases ha : imm = 0xffffffff#32
  · rw [if_pos ha, ha, show (0xffffffff#32) = BitVec.allOnes 32 from rfl, BitVec.xor_allOnes]
    exact notReg_leaves
  rw [if_neg ha]
  by_cases hi : imm = 0#32
  · rw [if_neg (fun h => h hi), hi, BitVec.xor_zero]
    exact moveReg_leaves
  · rw [if_pos hi]
    exact opImm_leaves xor_computes imm

theorem rpsxNORconst_leaves (imm : BitVec 32) : Leaves (rpsxNORconst dreg sreg imm) s
    (Function.update s.mem (.gpr dreg) (~~~(s.mem (.gpr sreg) ||| imm))) := by
  rw [rpsxNORconst]
  by_cases hi : imm = 0#32
  · rw [if_neg (fun h => h hi), hi, BitVec.or_zero]
    exact notReg_leaves
  · rw [if_pos hi, Leaves]
    by_cases hd : dreg = sreg
    · simp [hd]
    · simp [hd]

theorem opEcx_leaves (ho : o.Computes f) (negate : Bool) (l : Loc) :
    Leaves (.alu o (.mem l) .ecx :: if negate then [.not (.mem l)] else []) s
      (Function.update s.mem l
        (if negate then ~~~f (s.mem l) s.ecx else f (s.mem l) s.ecx)) := by
  obtain ⟨fl, h⟩ := exec_alu_of s (if negate then [.not (.mem l)] else []) ho (.mem l) .ecx
  rw [Leaves, h]
  cases negate
  · rfl
  · simp

theorem rpsxLogicalOp_leaves {c : Code} {r : Rec} (ho : o.Computes f)
    (hc : ∀ a b, f a b = f b a) (negate : Bool) :
    Leaves (rpsxLogicalOp o negate c r) s (Function.update s.mem (.gpr c.Rd)
      (if negate then ~~~f (s.mem (.gpr c.Rs)) (s.mem (.gpr c.Rt))
        else f (s.mem (.gpr c.Rs)) (s.mem (.gpr c.Rt)))) := by
  rw [rpsxLogicalOp]
  by_cases hs : c.Rd = c.Rs
  · rw [if_pos (Or.inl hs), if_pos hs, Leaves, exec_mov, ← hs]
    exact opEcx_leaves ho negate _
  by_cases ht : c.Rd = c.Rt
  · rw [if_pos (Or.inr ht), if_neg hs, Leaves, exec_mov, ← ht, hc]
    exact opEcx_leaves ho negate _
  · rw [if_neg (fun h => h.elim hs ht), Leaves]
    cases negate
    · rw [List.cons_append, exec_mov]
      obtain ⟨fl, h⟩ := exec_alu_of (s.put (s.val (.mem (.gpr c.Rs))) .ecx)
        [.mov (.mem (.gpr c.Rd)) .ecx] ho .ecx (.mem (.gpr c.Rt))
      exact (congrArg _ h).trans rfl
    · rw [List.cons_append, exec_mov]
      obtain ⟨fl, h⟩ := exec_alu_of (s.put (s.val (.mem (.gpr c.Rs))) .ecx)
        [.not .ecx, .mov (.mem (.gpr c.Rd)) .ecx] ho .ecx (.mem (.gpr c.Rt))
      exact (congrArg _ h).trans rfl

theorem setcc_zero (b : Bool) :
    (0#32).extractLsb' 8 24 ++ (if b then 1#8 else 0#8) = truth b := by
  cases b <;> rfl

theorem setcc_and (v : BitVec 32) (b : Bool) :
    (v.extractLsb' 8 24 ++ (if b then 1#8 else 0#8)) &&& 0xff#32 = truth b := by
  rw [show (0xff#32) = 0#24 ++ BitVec.allOnes 8 from rfl, BitVec.and_append,
    BitVec.and_zero, BitVec.and_allOnes]
  cases b <;> rfl

theorem rpsxSLTsconst_leaves {cc : Cond} {t : BitVec 32 → BitVec 32 → Bool}
    (hc : ∀ a b, cc.eval (subFlags a b false) = t a b) (imm : BitVec 32) :
    Leaves (rpsxSLTsconst cc dreg sreg imm) s
      (Function.update s.mem (.gpr dreg) (truth (t (s.mem (.gpr sreg)) imm))) := by
  rw [Leaves, rpsxSLTsconst, exec_alu, Alu.eval, Option.map_some, Option.bind_some, exec_cmp,
    exec_set _ _ rfl, exec_mov, hc, exec_nil, Option.map_some, ← setcc_zero]
  change some (Function.update s.mem _ (BitVec.extractLsb' 8 24 (s.eax ^^^ s.eax) ++ _)) = _
  rw [BitVec.xor_self]
  rfl

theorem rpsxSLT_leaves {c : Code} {r : Rec} : Leaves (rpsxSLT_ c r) s (Function.update s.mem
    (.gpr c.Rd) (truth ((s.mem (.gpr c.Rs)).slt (s.mem (.gpr c.Rt))))) := by
  rw [Leaves, rpsxSLT_, exec_mov, exec_cmp, exec_set _ _ rfl, exec_alu, Alu.eval,
    Option.map_some, Option.bind_some, exec_mov, exec_nil, Option.map_some, eval_l,
    ← setcc_and (s.mem (.gpr c.Rs))]
  rfl

theorem rpsxSLTU_leaves {c : Code} {r : Rec} (hd : c.Rd ≠ 0) : Leaves (rpsxSLTU_ c r) s
    (Function.update s.mem (.gpr c.Rd)
      (truth ((s.mem (.gpr c.Rs)).ult (s.mem (.gpr c.Rt))))) := by
  rw [Leaves, rpsxSLTU_, if_neg hd, exec_mov, exec_cmp, exec_alu, Alu.eval, Option.map_some,
    Option.map_some, Option.bind_some, exec_neg, exec_mov, exec_nil, Option.map_some]
  change some (Function.update s.mem _ (-(s.mem (.gpr c.Rs) - s.mem (.gpr c.Rs) -
    carryIn ((s.mem (.gpr c.Rs)).ult (s.mem (.gpr c.Rt)))))) = _
  rw [BitVec.sub_self, BitVec.zero_sub, BitVec.neg_neg]
  rfl

theorem rpsxADDU_leaves {c : Code} {r : Rec} (h0 : s.mem (.gpr 0) = 0) :
    Leaves (rpsxADDU_ c r) s (Function.update s.mem (.gpr c.Rd)
      (s.mem (.gpr c.Rs) + s.mem (.gpr c.Rt))) := by
  rw [Leaves, rpsxADDU_]
  by_cases hs : c.Rs = 0 <;> by_cases ht : c.Rt = 0
  · simp [hs, ht, h0]
  · simp [hs, ht, h0]
  · simp [hs, ht, h0]
  · simp [hs, ht]

theorem rpsxSUBU_consts_leaves {c : Code} {r : Rec} : Leaves (rpsxSUBU_consts c r) s
    (Function.update s.mem (.gpr c.Rd) (r.constRegs c.Rs - s.mem (.gpr c.Rt))) := by
  simp [Leaves, rpsxSUBU_consts]

theorem rpsxSUBU_leaves {c : Code} {r : Rec} (hd : c.Rd ≠ 0) : Leaves (rpsxSUBU_ c r) s
    (Function.update s.mem (.gpr c.Rd) (s.mem (.gpr c.Rs) - s.mem (.gpr c.Rt))) := by
  rw [Leaves, rpsxSUBU_, if_neg hd]
  by_cases hs : c.Rd = c.Rs
  · simp [hs]
  · simp [hs]

theorem constHILO_leaves (h l : BitVec 32) : Leaves (constHILO h l) s
    (Function.update (Function.update s.mem .lo l) .hi h) := by
  simp [Leaves, constHILO, Function.update_comm]

theorem storeHILO_leaves : Leaves storeHILO s
    (Function.update (Function.update s.mem .lo s.eax) .hi s.edx) := by
  simp [Leaves, storeHILO]

theorem leaves_append {q q' : X86Code} {s' : Machine} {m : Home} (hq : exec q s = some s')
    (h : Leaves q' s' m) : Leaves (q ++ q') s m := by
  rw [Leaves, exec_append s hq]
  exact h

theorem multiply_leaves {mul : Src Loc → Instr Loc Empty}
    {product : BitVec 32 → BitVec 32 → BitVec 64} (hmul : Multiplies mul product)
    (a : Src Loc) (l : Loc) : Leaves (.mov .eax a :: mul (.mem l) :: storeHILO) s
      (Function.update (Function.update s.mem .lo (lo (product (s.val a) (s.mem l))))
        .hi (hi (product (s.val a) (s.mem l)))) := by
  rw [Leaves, exec_mov]
  exact leaves_append (hmul.2 (.mem l) (s.put (s.val a) .eax)) storeHILO_leaves

theorem rpsxDIVsuper_leaves {c : Code} {r : Rec} (sign : Bool)
    {f : BitVec 32 → BitVec 32 → BitVec 32 × BitVec 32}
    (hdiv : Divides (L := Loc) (X := Empty) (if sign then signedDiv else unsignedDiv) f)
    (process : Process) : Leaves (rpsxDIVsuper sign process c r) s
      (let q := f (if process = .consts then r.constRegs c.Rs else s.mem (.gpr c.Rs))
        (if process = .constt then r.constRegs c.Rt else s.mem (.gpr c.Rt))
      Function.update (Function.update s.mem .lo q.1) .hi q.2) := by
  obtain ⟨s₁, h₁, hm₁, ha, hc⟩ : ∃ s₁, exec [.mov .ecx (if process = .constt then
        .imm (r.constRegs c.Rt) else .mem (.gpr c.Rt)), .mov .eax (if process = .consts then
        .imm (r.constRegs c.Rs) else .mem (.gpr c.Rs))] s = some s₁ ∧ s₁.mem = s.mem ∧
      s₁.eax = (if process = .consts then r.constRegs c.Rs else s.mem (.gpr c.Rs)) ∧
      s₁.ecx = if process = .constt then r.constRegs c.Rt else s.mem (.gpr c.Rt) := by
    refine ⟨_, (exec_mov s _ .ecx _).trans (exec_mov _ _ .eax _), rfl, ?_, ?_⟩
    · cases process <;> rfl
    · cases process <;> rfl
  obtain ⟨s₂, h₂, hv⟩ := Option.map_eq_some_iff.mp (hdiv s₁)
  have hm₂ : s₂.mem = s₁.mem := congrArg Prod.fst hv
  have hq : f s₁.eax s₁.ecx = (s₂.eax, s₂.edx) := (congrArg Prod.snd hv).symm
  have hs := leaves_append ((exec_append s h₁).trans h₂) (storeHILO_leaves (s := s₂))
  rw [hm₂, hm₁] at hs
  rw [← ha, ← hc, hq]
  exact hs

theorem and_sign_ne_zero (v : BitVec 32) : v &&& 0x80000000#32 ≠ 0#32 ↔ v.slt 0#32 = true := by
  rw [show (0x80000000#32) = BitVec.twoPow 32 31 from rfl, BitVec.and_twoPow,
    BitVec.slt_zero_eq_msb, BitVec.msb_eq_getLsbD_last]
  cases v.getLsbD 31 <;> decide

theorem rpsxDIV_const_leaves {c : Code} {r : Rec} : Leaves (rpsxDIV_const c r) s
    (let q := signedQuotient (r.constRegs c.Rs) (r.constRegs c.Rt)
    Function.update (Function.update s.mem .lo q.1) .hi q.2) := by
  rw [rpsxDIV_const, signedQuotient]
  by_cases ho : r.constRegs c.Rs = 0x80000000#32 ∧ r.constRegs c.Rt = 0xffffffff#32
  · rw [if_pos ho, if_pos ho]
    exact constHILO_leaves _ _
  rw [if_neg ho, if_neg ho]
  by_cases hb : r.constRegs c.Rt = 0#32
  · rw [if_neg (fun h => h hb), if_pos hb]
    simp only [and_sign_ne_zero]
    exact constHILO_leaves _ _
  · rw [if_pos hb, if_neg hb]
    exact constHILO_leaves _ _

theorem rpsxDIVU_const_leaves {c : Code} {r : Rec} : Leaves (rpsxDIVU_const c r) s
    (let q := unsignedQuotient (r.constRegs c.Rs) (r.constRegs c.Rt)
    Function.update (Function.update s.mem .lo q.1) .hi q.2) := by
  rw [rpsxDIVU_const, unsignedQuotient]
  by_cases hb : r.constRegs c.Rt = 0#32
  · rw [if_neg (fun h => h hb), if_pos hb]
    exact constHILO_leaves _ _
  · rw [if_pos hb, if_neg hb]
    exact constHILO_leaves _ _

theorem toNat_and_31 (v : BitVec 32) : (v &&& 0x1f#32).toNat = v.toNat % 32 := by
  rw [BitVec.toNat_and]
  exact Nat.and_two_pow_sub_one_eq_mod v.toNat 5

theorem rpsxShiftConst_leaves (imm : BitVec 32) (o : Shift) :
    Leaves (rpsxShiftConst dreg sreg imm o) s
      (Function.update s.mem (.gpr dreg) (o.eval (s.mem (.gpr sreg)) imm)) := by
  have he (v : BitVec 32) : o.eval v imm = o.eval v (imm &&& 0x1f#32) := by
    rw [Shift.eval, Shift.eval, toNat_and_31, Nat.mod_mod]
  rw [Leaves, rpsxShiftConst, he]
  by_cases hi : imm &&& 0x1f#32 = 0#32 <;> by_cases hd : dreg = sreg
  · simp [hi, hd]
  · simp [hi, hd]
  · simp [hi, hd]
  · simp [hi, hd]

theorem rpsxShiftVconstt_leaves {c : Code} {r : Rec} (o : Shift) :
    Leaves (rpsxShiftVconstt o c r) s (Function.update s.mem (.gpr c.Rd)
      (o.eval (r.constRegs c.Rt) (s.mem (.gpr c.Rs)))) := by
  simp [Leaves, rpsxShiftVconstt]

theorem rpsxShiftV_leaves {c : Code} {r : Rec} (o : Shift) :
    Leaves (rpsxShiftV_ o c r) s (Function.update s.mem (.gpr c.Rd)
      (o.eval (s.mem (.gpr c.Rt)) (s.mem (.gpr c.Rs)))) := by
  simp [Leaves, rpsxShiftV_]

end Leaves

/-- The generator of an instruction. -/
def Op.recompile : Op → Gen
  | ADDI => rpsxADDI
  | ADDIU => rpsxADDIU
  | ANDI => rpsxANDI
  | ORI => rpsxORI
  | XORI => rpsxXORI
  | SLTI => rpsxSLTI
  | SLTIU => rpsxSLTIU
  | ADD => rpsxADD
  | ADDU => rpsxADDU
  | SUB => rpsxSUB
  | SUBU => rpsxSUBU
  | AND => rpsxAND
  | OR => rpsxOR
  | XOR => rpsxXOR
  | NOR => rpsxNOR
  | SLT => rpsxSLT
  | SLTU => rpsxSLTU
  | DIV => rpsxDIV
  | DIVU => rpsxDIVU
  | MULT => rpsxMULT
  | MULTU => rpsxMULTU
  | SLL => rpsxSLL
  | SRA => rpsxSRA
  | SRL => rpsxSRL
  | SLLV => rpsxSLLV
  | SRAV => rpsxSRAV
  | SRLV => rpsxSRLV
  | LUI => rpsxLUI
  | MFHI => rpsxMFHI
  | MFLO => rpsxMFLO
  | MTHI => rpsxMTHI
  | MTLO => rpsxMTLO

section Recompile

variable {c : Code} {r : Rec} {s₀ : Machine} {regs : PsxRegs} (h : Represents r s₀ regs)

theorem psxDIV_eq : psxDIV c regs =
    { regs with
      lo := (signedQuotient (regs.r c.Rs) (regs.r c.Rt)).1
      hi := (signedQuotient (regs.r c.Rs) (regs.r c.Rt)).2 } := by
  rw [psxDIV, signedQuotient]
  by_cases hb : regs.r c.Rt = 0#32
  · have ho : ¬(regs.r c.Rs = 0x80000000#32 ∧ regs.r c.Rt = 0xffffffff#32) :=
      fun ho => absurd (hb.symm.trans ho.2) (by decide)
    rw [if_pos hb, if_neg ho, if_pos hb]
  · rw [if_neg hb, if_neg hb]
    split <;> rfl

theorem psxDIVU_eq : psxDIVU c regs =
    { regs with
      lo := (unsignedQuotient (regs.r c.Rs) (regs.r c.Rt)).1
      hi := (unsignedQuotient (regs.r c.Rs) (regs.r c.Rt)).2 } := by
  rw [psxDIVU, unsignedQuotient]
  split <;> rfl

include h

theorem rpsxADDIU_represents : Represents (rpsxADDIU c r) s₀ (psxADDIU c regs) :=
  const1_represents (fun v => v + c.Imm) h rfl fun ht s h0 => by
    rw [rpsxADDIU_, if_neg ht]
    exact rpsxADDconst_leaves h0 c.Imm

theorem rpsxSLTI_represents : Represents (rpsxSLTI c r) s₀ (psxSLTI c regs) :=
  const1_represents (fun v => truth (v.slt c.Imm)) h rfl fun _ _ _ =>
    rpsxSLTsconst_leaves eval_l c.Imm

theorem rpsxSLTIU_represents : Represents (rpsxSLTIU c r) s₀ (psxSLTIU c regs) :=
  const1_represents (fun v => truth (v.ult c.Imm)) h rfl fun _ _ _ =>
    rpsxSLTsconst_leaves eval_b c.Imm

theorem rpsxANDI_represents : Represents (rpsxANDI c r) s₀ (psxANDI c regs) :=
  const1_represents (· &&& c.ImmU) h rfl fun _ _ _ => rpsxANDconst_leaves c.ImmU

theorem rpsxORI_represents : Represents (rpsxORI c r) s₀ (psxORI c regs) :=
  const1_represents (· ||| c.ImmU) h rfl fun _ _ _ => rpsxORconst_leaves c.ImmU

theorem rpsxXORI_represents : Represents (rpsxXORI c r) s₀ (psxXORI c regs) :=
  const1_represents (· ^^^ c.ImmU) h rfl fun _ _ _ => rpsxXORconst_leaves c.ImmU

theorem rpsxLUI_represents : Represents (rpsxLUI c r) s₀ (psxLUI c regs) := by
  rw [rpsxLUI, psxLUI]
  by_cases ht : c.Rt = 0
  · rw [if_pos ht, ht, put_zero]
    exact h
  · have he : ((r.delConst c.Rt).deleteReg c.Rt false).putConst c.Rt (c.bits <<< 16) =
        r.putConst c.Rt (c.bits <<< 16) := by
      simp [Rec.deleteReg, ht, Rec.delConst, Rec.putConst]
    rw [if_neg ht, he]
    exact putConst_represents ht _ h

theorem rpsxADDU_represents : Represents (rpsxADDU c r) s₀ (psxADDU c regs) :=
  const0_represents (· + ·) h rfl
    (fun s h0 => by
      rw [BitVec.add_comm]
      exact rpsxADDconst_leaves h0 _)
    (fun _ h0 => rpsxADDconst_leaves h0 _) (fun _ _ h0 => rpsxADDU_leaves h0)

theorem rpsxSUBU_represents : Represents (rpsxSUBU c r) s₀ (psxSUBU c regs) :=
  const0_represents (· - ·) h rfl (fun _ _ => rpsxSUBU_consts_leaves)
    (fun s h0 => by
      rw [BitVec.sub_eq_add_neg]
      exact rpsxADDconst_leaves h0 _)
    (fun hd _ _ => rpsxSUBU_leaves hd)

theorem rpsxAND_represents : Represents (rpsxAND c r) s₀ (psxAND c regs) :=
  const0_represents (· &&& ·) h rfl
    (fun s _ => by
      rw [BitVec.and_comm]
      exact rpsxANDconst_leaves _)
    (fun _ _ => rpsxANDconst_leaves _)
    (fun _ _ _ => rpsxLogicalOp_leaves and_computes BitVec.and_comm false)

theorem rpsxOR_represents : Represents (rpsxOR c r) s₀ (psxOR c regs) :=
  const0_represents (· ||| ·) h rfl
    (fun s _ => by
      rw [BitVec.or_comm]
      exact rpsxORconst_leaves _)
    (fun _ _ => rpsxORconst_leaves _)
    (fun _ _ _ => rpsxLogicalOp_leaves or_computes BitVec.or_comm false)

theorem rpsxXOR_represents : Represents (rpsxXOR c r) s₀ (psxXOR c regs) :=
  const0_represents (· ^^^ ·) h rfl
    (fun s _ => by
      rw [BitVec.xor_comm]
      exact rpsxXORconst_leaves _)
    (fun _ _ => rpsxXORconst_leaves _)
    (fun _ _ _ => rpsxLogicalOp_leaves xor_computes BitVec.xor_comm false)

theorem rpsxNOR_represents : Represents (rpsxNOR c r) s₀ (psxNOR c regs) :=
  const0_represents (fun v w => ~~~(v ||| w)) h rfl
    (fun s _ => by
      rw [BitVec.or_comm]
      exact rpsxNORconst_leaves _)
    (fun _ _ => rpsxNORconst_leaves _)
    (fun _ _ _ => rpsxLogicalOp_leaves or_computes BitVec.or_comm true)

theorem rpsxSLT_represents : Represents (rpsxSLT c r) s₀ (psxSLT c regs) :=
  const0_represents (fun v w => truth (v.slt w)) h rfl
    (fun _ _ => rpsxSLTsconst_leaves (t := fun v w => w.slt v) eval_g _)
    (fun _ _ => rpsxSLTsconst_leaves eval_l _) (fun _ _ _ => rpsxSLT_leaves)

theorem rpsxSLTU_represents : Represents (rpsxSLTU c r) s₀ (psxSLTU c regs) :=
  const0_represents (fun v w => truth (v.ult w)) h rfl
    (fun _ _ => rpsxSLTsconst_leaves (t := fun v w => w.ult v) eval_a _)
    (fun _ _ => rpsxSLTsconst_leaves eval_b _) (fun hd _ _ => rpsxSLTU_leaves hd)

theorem rpsxMULT_represents : Represents (rpsxMULT c r) s₀ (psxMULT c regs) :=
  const3_represents (fun v w => (hi (signedProduct v w), lo (signedProduct v w))) h
    (fun _ => constHILO_leaves _ _)
    (fun s => multiply_leaves imul_multiplies (.imm (r.constRegs c.Rs)) (.gpr c.Rt))
    (fun s => by
      rw [(imul_multiplies (L := Loc) (X := Empty)).1]
      exact multiply_leaves imul_multiplies (.imm (r.constRegs c.Rt)) (.gpr c.Rs))
    (fun s => multiply_leaves imul_multiplies (.mem (.gpr c.Rs)) (.gpr c.Rt))

theorem rpsxMULTU_represents : Represents (rpsxMULTU c r) s₀ (psxMULTU c regs) :=
  const3_represents (fun v w => (hi (unsignedProduct v w), lo (unsignedProduct v w))) h
    (fun _ => constHILO_leaves _ _)
    (fun s => multiply_leaves mul_multiplies (.imm (r.constRegs c.Rs)) (.gpr c.Rt))
    (fun s => by
      rw [(mul_multiplies (L := Loc) (X := Empty)).1]
      exact multiply_leaves mul_multiplies (.imm (r.constRegs c.Rt)) (.gpr c.Rs))
    (fun s => multiply_leaves mul_multiplies (.mem (.gpr c.Rs)) (.gpr c.Rt))

theorem rpsxDIV_represents : Represents (rpsxDIV c r) s₀ (psxDIV c regs) := by
  rw [psxDIV_eq]
  exact const3_represents (fun v w => (signedQuotient v w).swap) h (fun _ => rpsxDIV_const_leaves)
    (fun _ => rpsxDIVsuper_leaves true signedDiv_divides .consts)
    (fun _ => rpsxDIVsuper_leaves true signedDiv_divides .constt)
    (fun _ => rpsxDIVsuper_leaves true signedDiv_divides .none)

theorem rpsxDIVU_represents : Represents (rpsxDIVU c r) s₀ (psxDIVU c regs) := by
  rw [psxDIVU_eq]
  exact const3_represents (fun v w => (unsignedQuotient v w).swap) h
    (fun _ => rpsxDIVU_const_leaves)
    (fun _ => rpsxDIVsuper_leaves false unsignedDiv_divides .consts)
    (fun _ => rpsxDIVsuper_leaves false unsignedDiv_divides .constt)
    (fun _ => rpsxDIVsuper_leaves false unsignedDiv_divides .none)

theorem shift_represents {constcode : ConstGen} (o : Shift)
    (hconst : constcode c r = o.amount (r.constRegs c.Rt) c.Sa.val) :
    Represents (psxRecompileCodeConst2 constcode
      (fun c _ => rpsxShiftConst c.Rd c.Rt c.sa o) c r) s₀
      (regs.put c.Rd (o.amount (regs.r c.Rt) c.Sa.val)) := by
  have hsa (v : BitVec 32) : o.amount v c.Sa.val = o.eval v c.sa := by
    have hlt : c.Sa.val < 32 := c.Sa.isLt
    rw [Shift.eval, Code.sa, BitVec.toNat_ofNat, Nat.mod_eq_of_lt (by omega : c.Sa.val < 2 ^ 32),
      Nat.mod_eq_of_lt hlt]
  rw [hsa]
  exact const2_represents (fun v => o.eval v c.sa) h (hconst.trans (hsa _))
    fun _ => rpsxShiftConst_leaves c.sa o

theorem shiftV_represents {constcode : ConstGen} (o : Shift)
    (hconst : constcode c r = o.amount (r.constRegs c.Rt) (sa5 (r.constRegs c.Rs))) :
    Represents (psxRecompileCodeConst0 constcode (rpsxShiftVconsts o) (rpsxShiftVconstt o)
      (rpsxShiftV_ o) c r) s₀
      (regs.put c.Rd (o.amount (regs.r c.Rt) (shiftCount (regs.r c.Rs)))) :=
  const0_represents (fun v w => o.eval w v) h
    (by rw [hconst, sa5, toNat_and_31, Shift.eval])
    (fun _ _ => rpsxShiftConst_leaves _ o) (fun _ _ => rpsxShiftVconstt_leaves o)
    (fun _ _ _ => rpsxShiftV_leaves o)

theorem moveFrom_represents (l : Loc) (v : BitVec 32)
    (hv : ∀ m : Home, r.regs m = regs → m l = v) :
    Represents (moveFrom l c r) s₀ (regs.put c.Rd v) := by
  rw [moveFrom]
  by_cases hd : c.Rd = 0
  · rw [if_pos hd, hd, put_zero]
    exact h
  obtain ⟨s, hrun, hs, rfl⟩ := h
  have he : ((r.delConst c.Rd).deleteReg c.Rd false).emit
      [.mov .eax (.mem l), .mov (.mem (.gpr c.Rd)) .eax] =
      (r.emit [.mov .eax (.mem l), .mov (.mem (.gpr c.Rd)) .eax]).delConst c.Rd := by
    simp [Rec.deleteReg, hd, Rec.delConst, Rec.emit]
  rw [if_neg hd, he, ← hv s.mem rfl]
  exact emit_represents hd hrun hs (by simp [Leaves])

omit h in
theorem moveTo_emit (l : Loc) (s : Machine) : ∃ q, moveTo l c r = r.emit q ∧
    Leaves q s (Function.update s.mem l ((r.regs s.mem).r c.Rs)) := by
  cases hc : r.hasConst c.Rs
  · have hd : r.deleteReg c.Rs true = r := by
      rw [Rec.deleteReg]
      split
      · rfl
      · rw [if_neg (by simp [hc]), Rec.delConst, ← hc, Function.update_eq_self]
    refine ⟨[.mov .eax (.mem (.gpr c.Rs)), .mov (.mem l) .eax], ?_, ?_⟩
    · rw [moveTo, if_neg (by simp [hc]), hd]
    · simp [Leaves, Rec.regs, hc]
  · refine ⟨[.mov (.mem l) (.imm (r.constRegs c.Rs))], ?_, ?_⟩
    · rw [moveTo, if_pos hc]
    · simp [Leaves, Rec.regs, hc]

theorem rpsxMTHI_represents : Represents (rpsxMTHI c r) s₀ (psxMTHI c regs) := by
  obtain ⟨s, hrun, hs, rfl⟩ := h
  obtain ⟨q, he, hq⟩ := moveTo_emit (c := c) (r := r) .hi s
  rw [rpsxMTHI, he, psxMTHI]
  exact hilo_represents (l := s.mem .lo) hrun hs (by rwa [Function.update_eq_self])

theorem rpsxMTLO_represents : Represents (rpsxMTLO c r) s₀ (psxMTLO c regs) := by
  obtain ⟨s, hrun, hs, rfl⟩ := h
  obtain ⟨q, he, hq⟩ := moveTo_emit (c := c) (r := r) .lo s
  rw [rpsxMTLO, he, psxMTLO]
  refine hilo_represents (h := s.mem .hi) hrun hs ?_
  rwa [Function.update_comm (by decide), Function.update_eq_self]

theorem recompile_represents (o : Op) : Represents (o.recompile c r) s₀ (o.interpret c regs) := by
  cases o
  case ADDI => exact rpsxADDIU_represents h
  case ADDIU => exact rpsxADDIU_represents h
  case ANDI => exact rpsxANDI_represents h
  case ORI => exact rpsxORI_represents h
  case XORI => exact rpsxXORI_represents h
  case SLTI => exact rpsxSLTI_represents h
  case SLTIU => exact rpsxSLTIU_represents h
  case ADD => exact rpsxADDU_represents h
  case ADDU => exact rpsxADDU_represents h
  case SUB => exact rpsxSUBU_represents h
  case SUBU => exact rpsxSUBU_represents h
  case AND => exact rpsxAND_represents h
  case OR => exact rpsxOR_represents h
  case XOR => exact rpsxXOR_represents h
  case NOR => exact rpsxNOR_represents h
  case SLT => exact rpsxSLT_represents h
  case SLTU => exact rpsxSLTU_represents h
  case DIV => exact rpsxDIV_represents h
  case DIVU => exact rpsxDIVU_represents h
  case MULT => exact rpsxMULT_represents h
  case MULTU => exact rpsxMULTU_represents h
  case SLL => exact shift_represents h .shl rfl
  case SRA => exact shift_represents h .sar rfl
  case SRL => exact shift_represents h .shr rfl
  case SLLV => exact shiftV_represents h .shl rfl
  case SRAV => exact shiftV_represents h .sar rfl
  case SRLV => exact shiftV_represents h .shr rfl
  case LUI => exact rpsxLUI_represents h
  case MFHI => exact moveFrom_represents h .hi regs.hi fun m hm => congrArg PsxRegs.hi hm
  case MFLO => exact moveFrom_represents h .lo regs.lo fun m hm => congrArg PsxRegs.lo hm
  case MTHI => exact rpsxMTHI_represents h
  case MTLO => exact rpsxMTLO_represents h

end Recompile

/-- A block of instructions, recompiled and interpreted one after another. -/
def recompileBlock (p : List (Op × Code)) (r : Rec) : Rec :=
  p.foldl (fun r i => i.1.recompile i.2 r) r

def interpretBlock (p : List (Op × Code)) (regs : PsxRegs) : PsxRegs :=
  p.foldl (fun regs i => i.1.interpret i.2 regs) regs

theorem recompileBlock_represents (p : List (Op × Code)) {r : Rec} {s₀ : Machine} {regs : PsxRegs}
    (h : Represents r s₀ regs) :
    Represents (recompileBlock p r) s₀ (interpretBlock p regs) := by
  induction p generalizing r regs with
  | nil => exact h
  | cons i p ih => exact ih (recompile_represents h i.1)

/-- The code of one instruction, run on the registers at their home. -/
theorem recompiledCode_interprets (o : Op) (c : Code) {r : Rec} {s : Machine} (hcode : r.code = [])
    (hs : r.Sound s.mem) : ∃ s', exec (o.recompile c r).code s = some s' ∧
      (o.recompile c r).Sound s'.mem ∧
      (o.recompile c r).regs s'.mem = o.interpret c (r.regs s.mem) :=
  recompile_represents ⟨s, by rw [hcode, exec_nil], hs, rfl⟩ o

/-- `r1` is known to be 7, `r2` holds 2. -/
def sampleRec : Rec where
  constRegs x := if x = 1 then 7 else 0
  hasConst x := decide (x = 1)
  flushedConst _ := false
  code := []
  imports := []

def sampleMachine : Machine where
  eax := 0
  ecx := 0
  edx := 0
  flags := none
  mem l := if l = .gpr 2 then 2 else 0
  xmm x := nomatch x

theorem recompiledCode_interprets_div :
    ∃ s', exec (rpsxDIV ⟨0x0022001a⟩ sampleRec).code sampleMachine = some s' ∧
      (rpsxDIV ⟨0x0022001a⟩ sampleRec).Sound s'.mem ∧
      (rpsxDIV ⟨0x0022001a⟩ sampleRec).regs s'.mem =
        psxDIV ⟨0x0022001a⟩ (sampleRec.regs sampleMachine.mem) :=
  recompiledCode_interprets .DIV ⟨0x0022001a⟩ rfl ⟨rfl, rfl, fun _ _ hf => nomatch hf⟩

/-- The registers in memory. -/
def Home.regs (m : Home) : PsxRegs where
  r x := m (.gpr x)
  hi := m .hi
  lo := m .lo

/-- The loop of `_psxFlushConstRegs`, over the registers still to come. -/
def Rec.flushLoop : List (Fin 32) → Rec → Rec
  | [], r => r
  | x :: xs, r =>
    if r.hasConst x = true then
      let r := r.flushConstReg x
      if r.hasConst = r.flushedConst then r else flushLoop xs r
    else flushLoop xs r

/-- `_psxFlushConstRegs`; `r0` is ignored. -/
def Rec.flushConstRegs (r : Rec) : Rec := r.flushLoop (List.finRange 32).tail

section Flush

variable {r : Rec} {s₀ : Machine} {regs : PsxRegs}

@[simp] theorem hasConst_flushConstReg (r : Rec) (x : Fin 32) :
    (r.flushConstReg x).hasConst = r.hasConst := by
  rw [Rec.flushConstReg]
  split
  · rfl
  · rfl

theorem flushedConst_flushConstReg (x : Fin 32) {y : Fin 32}
    (h : y = x ∧ r.hasConst x = true ∨ r.flushedConst y = true) :
    (r.flushConstReg x).flushedConst y = true := by
  rw [Rec.flushConstReg]
  split
  · by_cases hy : y = x
    · simp [hy]
    · simpa [hy] using h
  · next hx =>
    obtain ⟨rfl, hc⟩ | hf := h
    · simpa [hc] using hx
    · exact hf

theorem flushConstReg_represents (h : Represents r s₀ regs) (x : Fin 32) :
    Represents (r.flushConstReg x) s₀ regs := by
  rw [Rec.flushConstReg]
  split
  · next hx =>
    obtain ⟨s, hrun, hs, rfl⟩ := h
    refine ⟨_, (exec_append s₀ hrun).trans (exec_mov s [] _ _), ⟨?_, hs.zero_const, ?_⟩, ?_⟩
    · by_cases h0 : x = 0
      · simpa [h0] using hs.zero_const
      · simpa [Ne.symm h0] using hs.zero_home
    · intro y hc hf
      by_cases hy : y = x
      · simp [hy, Rec.emit]
      · simpa [hy, Rec.emit] using hs.flushed y hc (by simpa [hy] using hf)
    · simp only [Rec.regs, Rec.emit, PsxRegs.mk.injEq]
      refine ⟨?_, by simp, by simp⟩
      funext y
      by_cases hy : y = x
      · simp [hy, hx.1]
      · simp [hy]
  · exact h

theorem flushLoop_represents (xs : List (Fin 32)) (h : Represents r s₀ regs) :
    Represents (r.flushLoop xs) s₀ regs := by
  induction xs generalizing r with
  | nil => exact h
  | cons x xs ih =>
    simp only [Rec.flushLoop]
    split
    · split
      · exact flushConstReg_represents h x
      · exact ih (flushConstReg_represents h x)
    · exact ih h

theorem hasConst_flushLoop (xs : List (Fin 32)) : (r.flushLoop xs).hasConst = r.hasConst := by
  induction xs generalizing r with
  | nil => rfl
  | cons x xs ih =>
    simp only [Rec.flushLoop]
    split
    · split
      · simp
      · rw [ih, hasConst_flushConstReg]
    · exact ih

theorem flushedConst_flushLoop (xs : List (Fin 32)) {y : Fin 32} (hc : r.hasConst y = true)
    (h : y ∈ xs ∨ r.flushedConst y = true) : (r.flushLoop xs).flushedConst y = true := by
  induction xs generalizing r with
  | nil => simpa [Rec.flushLoop] using h
  | cons x xs ih =>
    simp only [Rec.flushLoop]
    split
    · next hx =>
      split
      · next he => rwa [← he, hasConst_flushConstReg]
      · refine ih (by simpa using hc) ?_
        rw [List.mem_cons, or_assoc] at h
        obtain rfl | hy | hf := h
        · exact .inr (flushedConst_flushConstReg y (.inl ⟨rfl, hx⟩))
        · exact .inl hy
        · exact .inr (flushedConst_flushConstReg x (.inr hf))
    · next hx =>
      refine ih hc ?_
      rw [List.mem_cons, or_assoc] at h
      obtain rfl | h := h
      · exact absurd hc hx
      · exact h

theorem mem_tail_finRange : ∀ x : Fin 32, x ≠ 0 → x ∈ (List.finRange 32).tail := by decide

theorem flushConstRegs_leaves (h : Represents r s₀ regs) :
    ∃ s, exec r.flushConstRegs.code s₀ = some s ∧ Home.regs s.mem = regs := by
  obtain ⟨s, hrun, hs, rfl⟩ := flushLoop_represents (List.finRange 32).tail h
  refine ⟨s, hrun, ?_⟩
  simp only [Home.regs, Rec.regs, PsxRegs.mk.injEq, and_true]
  funext x
  split
  · next hc =>
    by_cases h0 : x = 0
    · rw [h0, hs.zero_home, hs.zero_const]
    · rw [hasConst_flushLoop] at hc
      exact hs.flushed x (by rwa [hasConst_flushLoop])
        (flushedConst_flushLoop _ hc (.inl (mem_tail_finRange x h0)))
  · rfl

/-- The code of a straight-line block and of the flush at its end leaves in memory the registers
that the interpreter computes. -/
theorem flushedBlock_interprets (p : List (Op × Code)) {s : Machine} (hcode : r.code = [])
    (hs : r.Sound s.mem) : ∃ s', exec (recompileBlock p r).flushConstRegs.code s = some s' ∧
      Home.regs s'.mem = interpretBlock p (r.regs s.mem) :=
  flushConstRegs_leaves
    (recompileBlock_represents p ⟨s, by rw [hcode, exec_nil], hs, rfl⟩)

theorem flushedBlock_interprets_two :
    ∃ s', exec (recompileBlock [(.ADDU, ⟨0x00221821⟩), (.ADDU, ⟨0x00612021⟩)]
        sampleRec).flushConstRegs.code sampleMachine = some s' ∧
      Home.regs s'.mem = interpretBlock [(.ADDU, ⟨0x00221821⟩), (.ADDU, ⟨0x00612021⟩)]
        (sampleRec.regs sampleMachine.mem) :=
  flushedBlock_interprets _ rfl ⟨rfl, rfl, fun _ _ hf => nomatch hf⟩

end Flush

end OmegaRed.R3000A
