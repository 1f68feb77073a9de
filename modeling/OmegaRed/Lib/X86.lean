import OmegaRed.Lib.Halves
import Mathlib.Logic.Function.Basic
import Mathlib.Data.Fin.VecNotation

/-! A fragment of x86: three integer registers, dword memory, flags, and SSE registers. -/

namespace OmegaRed.Lib.X86

open Halves

scoped instance neZero_lanes : NeZero 4 := ⟨by decide⟩
scoped instance neZero_bits : NeZero 16 := ⟨by decide⟩

universe u v

/-- A place that an instruction can write; `L` names the dwords of memory. -/
inductive Dst (L : Type u)
  | eax | ecx | edx
  | mem (l : L)
  deriving DecidableEq, Repr

inductive Src (L : Type u)
  | dst (d : Dst L)
  | imm (v : BitVec 32)
  deriving DecidableEq, Repr

variable {L : Type u} {X : Type v}

@[match_pattern] abbrev Src.eax : Src L := .dst .eax
@[match_pattern] abbrev Src.ecx : Src L := .dst .ecx
@[match_pattern] abbrev Src.edx : Src L := .dst .edx
@[match_pattern] abbrev Src.mem (l : L) : Src L := .dst (.mem l)

/-- The status flags; logic instructions leave the auxiliary carry undefined. -/
structure Flags where
  cf : Bool
  pf : Bool
  af : Option Bool
  zf : Bool
  sf : Bool
  of : Bool
  deriving DecidableEq, Repr

/-- Even parity of the low byte. -/
def parity (r : BitVec 32) : Bool :=
  !((List.range 8).foldl (fun p i => p ^^ r.getLsbD i) false)

def addFlags (a b : BitVec 32) (c : Bool) : Flags :=
  let r := a + b + carryIn c
  { cf := decide (2 ^ 32 ≤ a.toNat + b.toNat + c.toNat)
    pf := parity r
    af := some (a.getLsbD 4 ^^ b.getLsbD 4 ^^ r.getLsbD 4)
    zf := r == 0
    sf := r.msb
    of := decide (r.toInt ≠ a.toInt + b.toInt + c.toNat) }

def subFlags (a b : BitVec 32) (c : Bool) : Flags :=
  let r := a - b - carryIn c
  { cf := decide (a.toNat < b.toNat + c.toNat)
    pf := parity r
    af := some (a.getLsbD 4 ^^ b.getLsbD 4 ^^ r.getLsbD 4)
    zf := r == 0
    sf := r.msb
    of := decide (r.toInt ≠ a.toInt - b.toInt - c.toNat) }

def logicFlags (r : BitVec 32) : Flags :=
  { cf := false, pf := parity r, af := none, zf := r == 0, sf := r.msb, of := false }

inductive Cond
  | e | ne | b | ae | be | a | l | ge | le | g
  deriving DecidableEq, Repr

def Cond.eval (f : Flags) : Cond → Bool
  | .e => f.zf
  | .ne => !f.zf
  | .b => f.cf
  | .ae => !f.cf
  | .be => f.cf || f.zf
  | .a => !(f.cf || f.zf)
  | .l => f.sf != f.of
  | .ge => f.sf == f.of
  | .le => f.zf || (f.sf != f.of)
  | .g => !(f.zf || (f.sf != f.of))

section Compare

variable (a b : BitVec 32)

@[simp] theorem eval_e : Cond.e.eval (subFlags a b false) = (a == b) := by
  have hz : (subFlags a b false).zf = (a - b - 0#32 == 0#32) := rfl
  rw [Cond.eval, hz, BitVec.sub_zero, Bool.eq_iff_iff, beq_iff_eq, beq_iff_eq,
    BitVec.toNat_inj.symm, BitVec.toNat_inj.symm, BitVec.toNat_sub, BitVec.toNat_zero]
  have ha := a.isLt
  have hb := b.isLt
  omega

@[simp] theorem eval_ne : Cond.ne.eval (subFlags a b false) = (a != b) := by
  rw [← Bool.not_inj_iff]
  simpa [Cond.eval, bne] using eval_e a b

@[simp] theorem eval_b : Cond.b.eval (subFlags a b false) = a.ult b := rfl

@[simp] theorem eval_a : Cond.a.eval (subFlags a b false) = b.ult a := by
  have he := eval_e a b
  rw [Cond.eval] at he
  rw [Cond.eval, he, Bool.eq_iff_iff]
  simp only [subFlags, BitVec.ult, Bool.toNat_false, Nat.add_zero, Bool.not_eq_true',
    Bool.or_eq_false_iff, decide_eq_false_iff_not, beq_eq_false_iff_ne, decide_eq_true_eq,
    ne_eq, BitVec.toNat_inj.symm]
  omega

/-- The sign differs from the overflow flag exactly when the signed difference is negative. -/
@[simp] theorem eval_l : Cond.l.eval (subFlags a b false) = a.slt b := by
  have ha := a.isLt
  have hb := b.isLt
  have hof : (subFlags a b false).of = decide ((a - b).toInt ≠ a.toInt - b.toInt) := by
    simp [subFlags, carryIn]
  have hsf : (subFlags a b false).sf = decide ((a - b).toInt < 0) := by
    rw [show (subFlags a b false).sf = (a - b - 0#32).msb from rfl, BitVec.sub_zero,
      BitVec.msb_eq_toInt]
  rw [show Cond.l.eval (subFlags a b false) =
      ((subFlags a b false).sf != (subFlags a b false).of) from rfl, hof, hsf, Bool.eq_iff_iff]
  simp only [BitVec.slt, bne_iff_ne, ne_eq, decide_eq_decide, decide_eq_true_eq,
    BitVec.toInt_eq_toNat_cond, BitVec.toNat_sub]
  split <;> split <;> split <;> omega

@[simp] theorem eval_g : Cond.g.eval (subFlags a b false) = b.slt a := by
  have he := eval_e a b
  have hl := eval_l a b
  have hg : Cond.g.eval (subFlags a b false) = !((a == b) || a.slt b) := by
    rw [← he, ← hl]
    rfl
  rw [hg, Bool.eq_iff_iff]
  simp only [BitVec.slt, Bool.not_eq_true', Bool.or_eq_false_iff, decide_eq_false_iff_not,
    beq_eq_false_iff_ne, decide_eq_true_eq, ne_eq, BitVec.toInt_inj.symm]
  omega

end Compare

inductive Alu
  | add | adc | sub | sbb | and | or | xor
  deriving DecidableEq, Repr

inductive Shift
  | shl | shr | sar
  deriving DecidableEq, Repr

@[simp] def Shift.amount (v : BitVec 32) (n : Nat) : Shift → BitVec 32
  | .shl => v <<< n
  | .shr => v >>> n
  | .sar => v.sshiftRight n

/-- The shifted value; the count is masked to five bits. -/
def Shift.eval (v n : BitVec 32) (o : Shift) : BitVec 32 := o.amount v (n.toNat % 32)

@[simp] theorem Shift.eval_zero (o : Shift) (v : BitVec 32) : o.eval v 0#32 = v := by
  cases o <;> simp [Shift.eval]

/-- An SSE register, as four dwords. -/
abbrev Xmm := Fin 4 → BitVec 32

def Xmm.ofQuads (q₀ q₁ : BitVec 64) : Xmm :=
  ![lo q₀, hi q₀, lo q₁, hi q₁]

def Xmm.low (x : Xmm) : BitVec 64 := join (x 1) (x 0)
def Xmm.high (x : Xmm) : BitVec 64 := join (x 3) (x 2)

/-- Shifts of both quadwords; counts above 63 give zero. -/
def Xmm.shlQ (x : Xmm) (n : Nat) : Xmm := .ofQuads (x.low <<< n) (x.high <<< n)
def Xmm.shrQ (x : Xmm) (n : Nat) : Xmm := .ofQuads (x.low >>> n) (x.high >>> n)

theorem Xmm.zero_eq (x : Xmm) : x 0 = lo x.low := (lo_join (x 1) (x 0)).symm
theorem Xmm.one_eq (x : Xmm) : x 1 = hi x.low := (hi_join (x 1) (x 0)).symm

@[simp] theorem Xmm.shlQ_zero (x : Xmm) (n : Nat) : x.shlQ n 0 = lo (x.low <<< n) := rfl
@[simp] theorem Xmm.shlQ_one (x : Xmm) (n : Nat) : x.shlQ n 1 = hi (x.low <<< n) := rfl
@[simp] theorem Xmm.shrQ_zero (x : Xmm) (n : Nat) : x.shrQ n 0 = lo (x.low >>> n) := rfl
@[simp] theorem Xmm.shrQ_one (x : Xmm) (n : Nat) : x.shrQ n 1 = hi (x.low >>> n) := rfl

inductive Instr (L : Type u) (X : Type v)
  | mov (d : Dst L) (s : Src L)
  | alu (o : Alu) (d : Dst L) (s : Src L)
  | cmp (d : Dst L) (s : Src L)
  | not (d : Dst L)
  | neg (d : Dst L)
  | shift (o : Shift) (d : Dst L) (n : BitVec 32)
  /-- shift by `cl` -/
  | shiftCl (o : Shift) (d : Dst L)
  | shld (d : Dst L) (s : Src L) (n : Fin 32)
  | cdq
  | lahf
  | sarAx (n : Fin 16)
  | cwde
  /-- `edx:eax := eax * s`, unsigned and signed -/
  | mul (s : Src L)
  | imul (s : Src L)
  /-- `edx:eax` divided by `s`, unsigned and signed; faults when the quotient does not fit -/
  | div (s : Src L)
  | idiv (s : Src L)
  /-- sets `al` -/
  | set (c : Cond)
  | jcc (c : Cond) (n : Nat)
  | jmp (n : Nat)
  /-- the target of the jumps to `n` -/
  | label (n : Nat)
  | movdqaLoad (x : X) (a : Fin 4 → L)
  | movdqa (x y : X)
  | pxor (x y : X)
  | por (x y : X)
  | psllq (x : X) (n : BitVec 8)
  | psrlq (x : X) (n : BitVec 8)
  | psllqX (x y : X)
  | psrlqX (x y : X)
  | psrad (x : X) (n : Fin 32)
  | pshufd (x y : X) (o : Fin 4 → Fin 4)
  | punpckldq (x y : X)
  | pcmpgtd (x y : X)
  | psubd (x y : X)
  | movdzx (x : X) (s : Src L)
  /-- stores the low quadword -/
  | movlpd (l₀ l₁ : L) (x : X)

def Instr.jumps : Instr L X → Bool
  | .jcc _ _ | .jmp _ => true
  | _ => false

structure State (L : Type u) (X : Type v) where
  eax : BitVec 32
  ecx : BitVec 32
  edx : BitVec 32
  /-- `none` when the last instruction leaves them undefined -/
  flags : Option Flags
  mem : L → BitVec 32
  xmm : X → Xmm

section

variable [DecidableEq L] [DecidableEq X]

@[simp] def State.get (s : State L X) : Dst L → BitVec 32
  | .eax => s.eax
  | .ecx => s.ecx
  | .edx => s.edx
  | .mem l => s.mem l

@[simp] def State.val (s : State L X) : Src L → BitVec 32
  | .dst d => s.get d
  | .imm v => v

@[simp] def State.put (s : State L X) (v : BitVec 32) : Dst L → State L X
  | .eax => { s with eax := v }
  | .ecx => { s with ecx := v }
  | .edx => { s with edx := v }
  | .mem l => { s with mem := Function.update s.mem l v }

@[simp] def State.putX (s : State L X) (x : X) (v : Xmm) : State L X :=
  { s with xmm := Function.update s.xmm x v }

/-- The result and the flags; `adc` and `sbb` need defined flags. -/
@[simp] def Alu.eval (f : Option Flags) (a b : BitVec 32) : Alu → Option (BitVec 32 × Flags)
  | .add => some (a + b, addFlags a b false)
  | .adc => f.map fun f => (a + b + carryIn f.cf, addFlags a b f.cf)
  | .sub => some (a - b, subFlags a b false)
  | .sbb => f.map fun f => (a - b - carryIn f.cf, subFlags a b f.cf)
  | .and => some (a &&& b, logicFlags (a &&& b))
  | .or => some (a ||| b, logicFlags (a ||| b))
  | .xor => some (a ^^^ b, logicFlags (a ^^^ b))

/-- What `lahf` puts into `ah`. -/
def Flags.ah (f : Flags) (af : Bool) : BitVec 8 :=
  BitVec.ofBool f.sf ++ BitVec.ofBool f.zf ++ 0#1 ++ BitVec.ofBool af ++ 0#1 ++
    BitVec.ofBool f.pf ++ 1#1 ++ BitVec.ofBool f.cf

/-- Instructions that do not jump. -/
def State.step (s : State L X) : Instr L X → Option (State L X)
  | .mov d v => some (s.put (s.val v) d)
  | .alu o d v =>
    (o.eval s.flags (s.get d) (s.val v)).map fun r => { s.put r.1 d with flags := some r.2 }
  | .cmp d v => some { s with flags := some (subFlags (s.get d) (s.val v) false) }
  | .not d => some (s.put (~~~ s.get d) d)
  | .neg d => some { s.put (-s.get d) d with flags := some (subFlags 0 (s.get d) false) }
  | .shift o d n => some { s.put (o.eval (s.get d) n) d with flags := none }
  | .shiftCl o d => some { s.put (o.eval (s.get d) s.ecx) d with flags := none }
  | .shld d v n =>
    some { s.put (hi (join (s.get d) (s.val v) <<< n.val)) d with flags := none }
  | .cdq => some { s with edx := signWord s.eax }
  | .lahf => s.flags.bind fun f => f.af.map fun af =>
    { s with eax := s.eax.extractLsb' 16 16 ++ f.ah af ++ s.eax.extractLsb' 0 8 }
  | .sarAx n =>
    some { s with
      eax := s.eax.extractLsb' 16 16 ++ (s.eax.extractLsb' 0 16).sshiftRight n.val
      flags := none }
  | .cwde => some { s with eax := (s.eax.extractLsb' 0 16).signExtend 32 }
  | .mul v =>
    let r := s.eax.setWidth 64 * (s.val v).setWidth 64
    some { s with eax := lo r, edx := hi r, flags := none }
  | .imul v =>
    let r := s.eax.signExtend 64 * (s.val v).signExtend 64
    some { s with eax := lo r, edx := hi r, flags := none }
  | .div v =>
    let n := (join s.edx s.eax).toNat
    let m := (s.val v).toNat
    if m = 0 ∨ 2 ^ 32 ≤ n / m then none
    else some { s with eax := .ofNat 32 (n / m), edx := .ofNat 32 (n % m), flags := none }
  | .idiv v =>
    let n := (join s.edx s.eax).toInt
    let m := (s.val v).toInt
    if m = 0 ∨ n.tdiv m < -2 ^ 31 ∨ 2 ^ 31 ≤ n.tdiv m then none
    else some { s with eax := .ofInt 32 (n.tdiv m), edx := .ofInt 32 (n.tmod m), flags := none }
  | .set c => s.flags.map fun f =>
    { s with eax := s.eax.extractLsb' 8 24 ++ (if c.eval f then 1#8 else 0#8) }
  | .jcc _ _ | .jmp _ => none
  | .label _ => some s
  | .movdqaLoad x a => some (s.putX x fun i => s.mem (a i))
  | .movdqa x y => some (s.putX x (s.xmm y))
  | .pxor x y => some (s.putX x fun i => s.xmm x i ^^^ s.xmm y i)
  | .por x y => some (s.putX x fun i => s.xmm x i ||| s.xmm y i)
  | .psllq x n => some (s.putX x ((s.xmm x).shlQ n.toNat))
  | .psrlq x n => some (s.putX x ((s.xmm x).shrQ n.toNat))
  | .psllqX x y => some (s.putX x ((s.xmm x).shlQ (s.xmm y).low.toNat))
  | .psrlqX x y => some (s.putX x ((s.xmm x).shrQ (s.xmm y).low.toNat))
  | .psrad x n => some (s.putX x fun i => (s.xmm x i).sshiftRight n.val)
  | .pshufd x y o => some (s.putX x fun i => s.xmm y (o i))
  | .punpckldq x y => some (s.putX x ![s.xmm x 0, s.xmm y 0, s.xmm x 1, s.xmm y 1])
  | .pcmpgtd x y => some (s.putX x fun i => if (s.xmm y i).slt (s.xmm x i) then -1 else 0)
  | .psubd x y => some (s.putX x fun i => s.xmm x i - s.xmm y i)
  | .movdzx x v => some (s.putX x ![s.val v, 0, 0, 0])
  | .movlpd l₀ l₁ x =>
    some { s with mem := Function.update (Function.update s.mem l₀ (s.xmm x 0)) l₁ (s.xmm x 1) }

mutual

/-- Runs code with forward jumps; `none` for a fault, undefined flags or a missing label. -/
def exec : List (Instr L X) → State L X → Option (State L X)
  | [], s => some s
  | .jcc c n :: p, s =>
    s.flags.bind fun f => if c.eval f then seek n p s else exec p s
  | .jmp n :: p, s => seek n p s
  | i :: p, s => (s.step i).bind (exec p)

/-- Runs what follows the label `n`. -/
def seek (n : Nat) : List (Instr L X) → State L X → Option (State L X)
  | [], _ => none
  | .label m :: p, s => if n = m then exec p s else seek n p s
  | _ :: p, s => seek n p s

end

section Exec

variable (s : State L X) (p : List (Instr L X))

theorem exec_cons {i : Instr L X} (hi : i.jumps = false) :
    exec (i :: p) s = (s.step i).bind (exec p) := by
  cases i
  case jcc => exact absurd hi (by simp [Instr.jumps])
  case jmp => exact absurd hi (by simp [Instr.jumps])
  all_goals rfl

@[simp] theorem exec_nil : exec [] s = some s := rfl

@[simp] theorem exec_mov (d : Dst L) (v : Src L) :
    exec (.mov d v :: p) s = exec p (s.put (s.val v) d) := by
  rw [exec_cons s p rfl]
  rfl

@[simp] theorem exec_alu (o : Alu) (d : Dst L) (v : Src L) :
    exec (.alu o d v :: p) s = ((o.eval s.flags (s.get d) (s.val v)).map fun r =>
      { s.put r.1 d with flags := some r.2 }).bind (exec p) := by
  rw [exec_cons s p rfl]
  rfl

@[simp] theorem exec_cmp (d : Dst L) (v : Src L) : exec (.cmp d v :: p) s =
    exec p { s with flags := some (subFlags (s.get d) (s.val v) false) } := by
  rw [exec_cons s p rfl]
  rfl

@[simp] theorem exec_not (d : Dst L) :
    exec (.not d :: p) s = exec p (s.put (~~~ s.get d) d) := by
  rw [exec_cons s p rfl]
  rfl

@[simp] theorem exec_neg (d : Dst L) : exec (.neg d :: p) s =
    exec p { s.put (-s.get d) d with flags := some (subFlags 0 (s.get d) false) } := by
  rw [exec_cons s p rfl]
  rfl

@[simp] theorem exec_shift (o : Shift) (d : Dst L) (n : BitVec 32) :
    exec (.shift o d n :: p) s = exec p { s.put (o.eval (s.get d) n) d with flags := none } := by
  rw [exec_cons s p rfl]
  rfl

@[simp] theorem exec_shiftCl (o : Shift) (d : Dst L) : exec (.shiftCl o d :: p) s =
    exec p { s.put (o.eval (s.get d) s.ecx) d with flags := none } := by
  rw [exec_cons s p rfl]
  rfl

@[simp] theorem exec_shld (d : Dst L) (v : Src L) (n : Fin 32) : exec (.shld d v n :: p) s =
    exec p { s.put (hi (join (s.get d) (s.val v) <<< n.val)) d with flags := none } := by
  rw [exec_cons s p rfl]
  rfl

@[simp] theorem exec_cdq :
    exec (.cdq :: p) s = exec p { s with edx := signWord s.eax } := by
  rw [exec_cons s p rfl]
  rfl

@[simp] theorem exec_movdqaLoad (x : X) (a : Fin 4 → L) :
    exec (.movdqaLoad x a :: p) s = exec p (s.putX x fun i => s.mem (a i)) := by
  rw [exec_cons s p rfl]
  rfl

@[simp] theorem exec_movdqa (x y : X) :
    exec (.movdqa x y :: p) s = exec p (s.putX x (s.xmm y)) := by
  rw [exec_cons s p rfl]
  rfl

@[simp] theorem exec_pxor (x y : X) :
    exec (.pxor x y :: p) s = exec p (s.putX x fun i => s.xmm x i ^^^ s.xmm y i) := by
  rw [exec_cons s p rfl]
  rfl

@[simp] theorem exec_por (x y : X) :
    exec (.por x y :: p) s = exec p (s.putX x fun i => s.xmm x i ||| s.xmm y i) := by
  rw [exec_cons s p rfl]
  rfl

@[simp] theorem exec_psllq (x : X) (n : BitVec 8) :
    exec (.psllq x n :: p) s = exec p (s.putX x ((s.xmm x).shlQ n.toNat)) := by
  rw [exec_cons s p rfl]
  rfl

@[simp] theorem exec_psrlq (x : X) (n : BitVec 8) :
    exec (.psrlq x n :: p) s = exec p (s.putX x ((s.xmm x).shrQ n.toNat)) := by
  rw [exec_cons s p rfl]
  rfl

@[simp] theorem exec_psllqX (x y : X) :
    exec (.psllqX x y :: p) s = exec p (s.putX x ((s.xmm x).shlQ (s.xmm y).low.toNat)) := by
  rw [exec_cons s p rfl]
  rfl

@[simp] theorem exec_psrlqX (x y : X) :
    exec (.psrlqX x y :: p) s = exec p (s.putX x ((s.xmm x).shrQ (s.xmm y).low.toNat)) := by
  rw [exec_cons s p rfl]
  rfl

@[simp] theorem exec_psrad (x : X) (n : Fin 32) :
    exec (.psrad x n :: p) s = exec p (s.putX x fun i => (s.xmm x i).sshiftRight n.val) := by
  rw [exec_cons s p rfl]
  rfl

@[simp] theorem exec_pshufd (x y : X) (o : Fin 4 → Fin 4) :
    exec (.pshufd x y o :: p) s = exec p (s.putX x fun i => s.xmm y (o i)) := by
  rw [exec_cons s p rfl]
  rfl

@[simp] theorem exec_punpckldq (x y : X) : exec (.punpckldq x y :: p) s =
    exec p (s.putX x ![s.xmm x 0, s.xmm y 0, s.xmm x 1, s.xmm y 1]) := by
  rw [exec_cons s p rfl]
  rfl

@[simp] theorem exec_pcmpgtd (x y : X) : exec (.pcmpgtd x y :: p) s =
    exec p (s.putX x fun i => if (s.xmm y i).slt (s.xmm x i) then -1 else 0) := by
  rw [exec_cons s p rfl]
  rfl

@[simp] theorem exec_psubd (x y : X) :
    exec (.psubd x y :: p) s = exec p (s.putX x fun i => s.xmm x i - s.xmm y i) := by
  rw [exec_cons s p rfl]
  rfl

@[simp] theorem exec_movdzx (x : X) (v : Src L) :
    exec (.movdzx x v :: p) s = exec p (s.putX x ![s.val v, 0, 0, 0]) := by
  rw [exec_cons s p rfl]
  rfl

@[simp] theorem exec_movlpd (l₀ l₁ : L) (x : X) : exec (.movlpd l₀ l₁ x :: p) s =
    exec p { s with
      mem := Function.update (Function.update s.mem l₀ (s.xmm x 0)) l₁ (s.xmm x 1) } := by
  rw [exec_cons s p rfl]
  rfl

@[simp] theorem exec_mul (v : Src L) : exec (.mul v :: p) s =
    exec p { s with
      eax := lo (s.eax.setWidth 64 * (s.val v).setWidth 64)
      edx := hi (s.eax.setWidth 64 * (s.val v).setWidth 64)
      flags := none } := by
  rw [exec_cons s p rfl]
  rfl

@[simp] theorem exec_imul (v : Src L) : exec (.imul v :: p) s =
    exec p { s with
      eax := lo (s.eax.signExtend 64 * (s.val v).signExtend 64)
      edx := hi (s.eax.signExtend 64 * (s.val v).signExtend 64)
      flags := none } := by
  rw [exec_cons s p rfl]
  rfl

/-- Dividing a zero-extended word by a word does not fault. -/
theorem exec_div {v : Src L} (he : s.edx = 0#32) (hv : s.val v ≠ 0#32) :
    exec (.div v :: p) s =
      exec p { s with eax := s.eax / s.val v, edx := s.eax % s.val v, flags := none } := by
  have hn : (join s.edx s.eax).toNat = s.eax.toNat := by
    rw [he, toNat_join]
    simp
  have hm : (s.val v).toNat ≠ 0 := fun e => hv (BitVec.eq_of_toNat_eq e)
  have hq : s.eax.toNat / (s.val v).toNat < 2 ^ 32 :=
    Nat.lt_of_le_of_lt (Nat.div_le_self _ _) s.eax.isLt
  have hstep : s.step (.div v) =
      some { s with eax := s.eax / s.val v, edx := s.eax % s.val v, flags := none } := by
    simp only [State.step, hn]
    rw [if_neg (by omega), ← BitVec.toNat_udiv, ← BitVec.toNat_umod, BitVec.ofNat_toNat,
      BitVec.ofNat_toNat, BitVec.setWidth_eq, BitVec.setWidth_eq]
  rw [exec_cons s p rfl, hstep, Option.bind_some]

/-- Dividing a sign-extended word by a word faults only when the quotient is no word. -/
theorem exec_idiv {v : Src L} (he : s.edx = signWord s.eax) (hv : s.val v ≠ 0#32)
    (ho : ¬ (s.eax = 0x80000000#32 ∧ s.val v = 0xffffffff#32)) : exec (.idiv v :: p) s =
      exec p { s with eax := s.eax.sdiv (s.val v), edx := s.eax.srem (s.val v), flags := none } := by
  have hn : (join s.edx s.eax).toInt = s.eax.toInt := by
    rw [he, ← signExtend_eq, BitVec.toInt_signExtend_of_le (by decide)]
  have hm : (s.val v).toInt ≠ 0 := fun e => hv (BitVec.eq_of_toInt_eq e)
  obtain ⟨hl, hu⟩ := tdiv_fits s.eax (s.val v) hv ho
  have hstep : s.step (.idiv v) = some
      { s with eax := s.eax.sdiv (s.val v), edx := s.eax.srem (s.val v), flags := none } := by
    simp only [State.step, hn]
    rw [if_neg (by omega), ofInt_tdiv, ofInt_tmod]
  rw [exec_cons s p rfl, hstep, Option.bind_some]

/-- The operation computes `f`, whatever the flags. -/
def Alu.Computes (o : Alu) (f : BitVec 32 → BitVec 32 → BitVec 32) : Prop :=
  ∀ fl a b, ∃ fl', o.eval fl a b = some (f a b, fl')

theorem exec_alu_of {o : Alu} {f : BitVec 32 → BitVec 32 → BitVec 32} (ho : o.Computes f)
    (d : Dst L) (v : Src L) : ∃ fl, exec (.alu o d v :: p) s =
      exec p { s.put (f (s.get d) (s.val v)) d with flags := some fl } := by
  obtain ⟨fl, h⟩ := ho s.flags (s.get d) (s.val v)
  exact ⟨fl, by rw [exec_alu, h, Option.map_some, Option.bind_some]⟩

theorem exec_set {c : Cond} {f : Flags} (hf : s.flags = some f) : exec (.set c :: p) s =
    exec p { s with eax := s.eax.extractLsb' 8 24 ++ (if c.eval f then 1#8 else 0#8) } := by
  have hstep : s.step (.set c) = some
      { s with eax := s.eax.extractLsb' 8 24 ++ (if c.eval f then 1#8 else 0#8) } := by
    rw [State.step, hf, Option.map_some]
  rw [exec_cons s p rfl, hstep, Option.bind_some]

theorem msb_ah (f : Flags) (af : Bool) : (f.ah af).msb = f.sf := by
  have h : ∀ sf zf af pf cf : Bool, (BitVec.ofBool sf ++ BitVec.ofBool zf ++ 0#1 ++
      BitVec.ofBool af ++ 0#1 ++ BitVec.ofBool pf ++ 1#1 ++ BitVec.ofBool cf : BitVec 8).msb = sf := by
    decide
  exact h f.sf f.zf af f.pf f.cf

theorem sshiftRight_fifteen (v : BitVec 16) :
    (v.sshiftRight 15).signExtend 32 = if v.msb then -1 else 0 := by
  apply BitVec.eq_of_toInt_eq
  rw [BitVec.toInt_signExtend_of_le (by decide), BitVec.toInt_sshiftRight, BitVec.msb_eq_toInt,
    Int.shiftRight_eq_div_pow]
  have hl := BitVec.le_toInt v
  have hu := BitVec.toInt_lt (x := v)
  by_cases h : v.toInt < 0
  · rw [if_pos (by simpa using h), show ((-1 : BitVec 32)).toInt = -1 from by decide]
    omega
  · rw [if_neg (by simpa using h), show ((0 : BitVec 32)).toInt = 0 from by decide]
    omega

theorem extract_low (x y : BitVec 16) : (x ++ y : BitVec 32).extractLsb' 0 16 = y := by
  apply BitVec.eq_of_getLsbD_eq
  intro i hi
  simp
  grind

theorem extract_ax (x : BitVec 16) (y a : BitVec 8) :
    (x ++ y ++ a : BitVec 32).extractLsb' 0 16 = y ++ a := by
  apply BitVec.eq_of_getLsbD_eq
  intro i hi
  simp
  grind

/-- `lahf; sar ax, 15; cwde` fills `eax` with the sign flag. -/
theorem exec_signSF {f : Flags} {af : Bool} (hf : s.flags = some f) (ha : f.af = some af) :
    exec (.lahf :: .sarAx 15 :: .cwde :: p) s =
      exec p { s with eax := if f.sf then -1 else 0, flags := none } := by
  have hlahf : s.step .lahf = some
      { s with eax := s.eax.extractLsb' 16 16 ++ f.ah af ++ s.eax.extractLsb' 0 8 } := by
    simp [State.step, hf, ha]
  have hm : (f.ah af ++ s.eax.extractLsb' 0 8 : BitVec 16).msb = f.sf := by
    rw [BitVec.msb_append, if_neg (by decide), msb_ah]
  rw [show exec (.lahf :: .sarAx 15 :: .cwde :: p) s =
    (s.step .lahf).bind (exec (.sarAx 15 :: .cwde :: p)) from rfl, hlahf]
  change exec p { s with
    eax := BitVec.signExtend 32 (BitVec.extractLsb' 0 16 (_ ++ BitVec.sshiftRight _ 15))
    flags := none } = _
  rw [extract_low, extract_ax, sshiftRight_fifteen, hm]

@[simp] theorem exec_jcc (c : Cond) (n : Nat) : exec (.jcc c n :: p) s =
    s.flags.bind fun f => if c.eval f then seek n p s else exec p s := rfl

@[simp] theorem exec_jmp (n : Nat) : exec (.jmp n :: p) s = seek n p s := rfl

@[simp] theorem exec_label (n : Nat) : exec (.label n :: p) s = exec p s := by
  rw [exec_cons s p rfl]
  rfl

@[simp] theorem seek_label (n m : Nat) :
    seek n (.label m :: p) s = if n = m then exec p s else seek n p s := by
  rw [seek]

@[simp] theorem seek_mov (n : Nat) (d : Dst L) (v : Src L) :
    seek n (.mov d v :: p) s = seek n p s := rfl

@[simp] theorem seek_alu (n : Nat) (o : Alu) (d : Dst L) (v : Src L) :
    seek n (.alu o d v :: p) s = seek n p s := rfl

@[simp] theorem seek_cmp (n : Nat) (d : Dst L) (v : Src L) :
    seek n (.cmp d v :: p) s = seek n p s := rfl

@[simp] theorem seek_shift (n : Nat) (o : Shift) (d : Dst L) (v : BitVec 32) :
    seek n (.shift o d v :: p) s = seek n p s := rfl

@[simp] theorem seek_not (n : Nat) (d : Dst L) : seek n (.not d :: p) s = seek n p s := rfl

@[simp] theorem seek_cdq (n : Nat) : seek n (.cdq :: p) s = seek n p s := rfl

@[simp] theorem seek_div (n : Nat) (v : Src L) : seek n (.div v :: p) s = seek n p s := rfl

@[simp] theorem seek_idiv (n : Nat) (v : Src L) : seek n (.idiv v :: p) s = seek n p s := rfl

@[simp] theorem seek_jcc (n m : Nat) (c : Cond) :
    seek n (.jcc c m :: p) s = seek n p s := rfl

@[simp] theorem seek_jmp (n m : Nat) : seek n (.jmp m :: p) s = seek n p s := rfl

theorem exec_append_aux (q : List (Instr L X)) :
    (∀ s s' : State L X, exec p s = some s' → exec (p ++ q) s = exec q s') ∧
      ∀ (n : Nat) (s s' : State L X), seek n p s = some s' → seek n (p ++ q) s = exec q s' := by
  induction p with
  | nil => simp [seek]
  | cons i p ih =>
    obtain ⟨ihe, ihs⟩ := ih
    constructor
    · intro s s' h
      cases i
      case jcc c n =>
        cases hf : s.flags with
        | none => simp [hf] at h
        | some f =>
          simp only [List.cons_append, exec_jcc, hf, Option.bind_some] at h ⊢
          split at h
          · next hc => rw [if_pos hc, ihs n s s' h]
          · next hc => rw [if_neg hc, ihe s s' h]
      case jmp n => exact ihs n s s' h
      all_goals
        obtain ⟨t, ht, h⟩ := Option.bind_eq_some_iff.mp h
        exact (congrArg (Option.bind · (exec (p ++ q))) ht).trans (ihe t s' h)
    · intro n s s' h
      cases i
      case label m =>
        simp only [List.cons_append, seek] at h ⊢
        split at h
        · next hm => rw [if_pos hm, ihe s s' h]
        · next hm => rw [if_neg hm, ihs n s s' h]
      all_goals exact ihs n s s' h

/-- Code that runs to its end is followed by what is appended to it. -/
theorem exec_append {s' : State L X} {p q : List (Instr L X)} (h : exec p s = some s') :
    exec (p ++ q) s = exec q s' :=
  (exec_append_aux p q).1 s s' h

end Exec

end

end OmegaRed.Lib.X86
