import OmegaRed.Lib.X86

/-! Multiplications, and divisions guarded against the faults of the hardware ones. -/

namespace OmegaRed.Lib.X86

open Halves

universe u v

variable {L : Type u} {X : Type v}

/-- The signed division of `eax` by `ecx`, with the operands that fault taken out. -/
def signedDiv : List (Instr L X) :=
  [.cmp .eax (.imm 0x80000000#32), .jcc .ne 1,
    .cmp .ecx (.imm 0xffffffff#32), .jcc .ne 2,
    .alu .xor .edx .edx, .jmp 4,
    .label 1, .label 2,
    .cmp .ecx (.imm 0#32), .jcc .ne 3,
    .mov .edx .eax, .shift .sar .eax 31, .shift .shl .eax 1, .not .eax, .jmp 5,
    .label 3, .cdq, .idiv .ecx,
    .label 4, .label 5]

def unsignedDiv : List (Instr L X) :=
  [.cmp .ecx (.imm 0#32), .jcc .ne 3,
    .mov .edx .eax, .mov .eax (.imm 0xffffffff#32), .jmp 5,
    .label 3, .alu .xor .edx .edx, .div .ecx,
    .label 5]

/-- Quotient and remainder as the instructions define them. -/
def signedQuotient (a b : BitVec 32) : BitVec 32 × BitVec 32 :=
  if a = 0x80000000#32 ∧ b = 0xffffffff#32 then (0x80000000#32, 0#32)
  else if b = 0#32 then (if a.slt 0#32 then 1#32 else 0xffffffff#32, a)
  else (a.sdiv b, a.srem b)

def unsignedQuotient (a b : BitVec 32) : BitVec 32 × BitVec 32 :=
  if b = 0#32 then (0xffffffff#32, a) else (a / b, a % b)

section

variable [DecidableEq L] [DecidableEq X]

/-- A multiplication leaves the halves of `product` in `eax` and `edx`. -/
def Multiplies (mul : Src L → Instr L X)
    (product : BitVec 32 → BitVec 32 → BitVec 64) : Prop :=
  (∀ a b, product a b = product b a) ∧ ∀ (v : Src L) (s : State L X),
    exec [mul v] s = some { s with
      eax := lo (product s.eax (s.val v)), edx := hi (product s.eax (s.val v)), flags := none }

theorem imul_multiplies : Multiplies (L := L) (X := X) .imul signedProduct :=
  ⟨fun a b => BitVec.mul_comm (a.signExtend 64) (b.signExtend 64), fun v s => exec_imul s [] v⟩

theorem mul_multiplies : Multiplies (L := L) (X := X) .mul unsignedProduct :=
  ⟨fun a b => BitVec.mul_comm (a.setWidth 64) (b.setWidth 64), fun v s => exec_mul s [] v⟩

/-- Code that divides `eax` by `ecx`. -/
def Divides (p : List (Instr L X)) (f : BitVec 32 → BitVec 32 → BitVec 32 × BitVec 32) : Prop :=
  ∀ s : State L X, (exec p s).map (fun s' => (s'.mem, s'.eax, s'.edx)) =
    some (s.mem, f s.eax s.ecx)

theorem not_shl_sar (a : BitVec 32) :
    ~~~(a.sshiftRight 31 <<< 1) = if a.slt 0#32 then 1#32 else 0xffffffff#32 := by
  rw [sshiftRight_signWord, signWord, BitVec.slt_zero_eq_msb]
  cases a.msb <;> rfl

theorem unsignedDiv_divides : Divides (L := L) (X := X) unsignedDiv unsignedQuotient := by
  intro s
  rw [unsignedDiv, exec_cmp, exec_jcc, Option.bind_some, eval_ne, unsignedQuotient]
  by_cases hb : s.ecx = 0#32
  · rw [if_neg (by simp [hb]), exec_mov, exec_mov, exec_jmp, seek_label, if_neg (by decide),
      seek_alu, seek_div, seek_label, if_pos rfl, if_pos hb]
    rfl
  · rw [if_pos (by simp [hb]), seek_mov, seek_mov, seek_jmp, seek_label, if_pos rfl, exec_alu,
      Alu.eval, Option.map_some, Option.bind_some, exec_div, if_neg hb]
    · rfl
    · exact BitVec.xor_self
    · exact hb

/-- The code from the label 2 on. -/
def signedDivRest : List (Instr L X) :=
  [.cmp .ecx (.imm 0#32), .jcc .ne 3,
    .mov .edx .eax, .shift .sar .eax 31, .shift .shl .eax 1, .not .eax, .jmp 5,
    .label 3, .cdq, .idiv .ecx,
    .label 4, .label 5]

theorem signedDivRest_divides {s : State L X}
    (ho : ¬(s.eax = 0x80000000#32 ∧ s.ecx = 0xffffffff#32)) :
    (exec signedDivRest s).map (fun s' => (s'.mem, s'.eax, s'.edx)) =
      some (s.mem, signedQuotient s.eax s.ecx) := by
  rw [signedDivRest, exec_cmp, exec_jcc, Option.bind_some, eval_ne, signedQuotient, if_neg ho]
  by_cases hb : s.ecx = 0#32
  · rw [if_neg (by simp [hb]), exec_mov, exec_shift, exec_shift, exec_not, exec_jmp, seek_label,
      if_neg (by decide), seek_cdq, seek_idiv, seek_label, if_neg (by decide), seek_label,
      if_pos rfl, exec_nil, Option.map_some, if_pos hb, ← not_shl_sar]
    rfl
  · rw [if_pos (by simp [hb]), seek_mov, seek_shift, seek_shift, seek_not, seek_jmp, seek_label,
      if_pos rfl, exec_cdq, exec_idiv, if_neg hb]
    · rfl
    · rfl
    · exact hb
    · exact ho

theorem signedDiv_divides : Divides (L := L) (X := X) signedDiv signedQuotient := by
  intro s
  rw [signedDiv, exec_cmp, exec_jcc, Option.bind_some, eval_ne]
  by_cases ha : s.eax = 0x80000000#32
  · rw [if_neg (by simp [ha]), exec_cmp, exec_jcc, Option.bind_some, eval_ne]
    by_cases hb : s.ecx = 0xffffffff#32
    · rw [if_neg (by simp [hb]), exec_alu, Alu.eval, Option.map_some, Option.bind_some, exec_jmp,
        signedQuotient, if_pos ⟨ha, hb⟩]
      simp only [seek_label, seek_cmp, seek_jcc, seek_mov, seek_shift, seek_not, seek_jmp,
        seek_cdq, seek_idiv]
      rw [if_neg (by decide), if_neg (by decide), if_neg (by decide), if_pos trivial,
        exec_label, exec_nil, Option.map_some, ← ha]
      refine congrArg some (Prod.ext rfl (Prod.ext rfl ?_))
      exact BitVec.xor_self
    · rw [if_pos (by simp [hb]), seek_alu, seek_jmp, seek_label, if_neg (by decide), seek_label,
        if_pos rfl]
      exact signedDivRest_divides (fun ho => hb ho.2)
  · rw [if_pos (by simp [ha]), seek_cmp, seek_jcc, seek_alu, seek_jmp, seek_label, if_pos rfl,
      exec_label]
    exact signedDivRest_divides (fun ho => ha ho.1)

end

end OmegaRed.Lib.X86
