import OmegaRed.X86.Address
import Mathlib.Tactic.Push

/-! Which address expressions are written as they stand. -/

namespace OmegaRed.X86

open Lib.ModRm

/-- A factor of 0 stands for 1. -/
def eff (factor : Nat) : Nat := if factor = 0 then 1 else factor

/-- What a value says of a register. -/
def xAddressVoid.coef (v : xAddressVoid) (r : Reg) : Nat :=
  (if v.Base = some r then 1 else 0) + (if v.Index = some r then eff v.Factor else 0)

/-- The index counts from 1 on, or there is room for a base. -/
def xAddressVoid.AddFits (v : xAddressVoid) (src : Reg) : Prop :=
  (v.Index = some src → v.Factor ≠ 0) ∧ (v.Index ≠ some src → v.Base = none)

/-- Both sides count from 1 on; the right side has a base, and each of its registers has a place in
the left side. -/
def xAddressVoid.VoidFits (v src : xAddressVoid) : Prop :=
  v.Factor ≠ 0 ∧ src.Factor ≠ 0 ∧ ∃ b, src.Base = some b ∧
    ((src.Index = v.Index ∧ (v.Index = some b ∨ v.Base = none)) ∨
      (v.Index = some b ∧ src.Factor = 1 ∧ v.Base = none))

/-- esp is alone, and a register that is base and index has a scale. -/
def xAddressVoid.EndFits (v : xAddressVoid) : Prop :=
  (v.Index = some esp → v.Base = none ∧ v.Factor = 0) ∧
    (v.Base = v.Index → v.Factor ≠ 3 ∧ v.Factor ≠ 7)

/-- Each addition of an expression fits. -/
def Expr.Fits : Expr → Prop
  | .regReg _ _ => True
  | .regImm _ _ => True
  | .regMul _ _ => True
  | .addReg e r => e.Fits ∧ ∀ v, e.build = some v → v.AddFits r
  | .addVoid e e' => e.Fits ∧ e'.Fits ∧
      ∀ v src, e.build = some v → e'.build = some src → v.VoidFits src
  | .addImm e _ => e.Fits

def Operand.Fits : Operand → Prop
  | .reg _ => True
  | .sum e => e.Fits ∧ ∀ v, e.build = some v → v.EndFits

section

variable {v w src : xAddressVoid} {r i : Reg}

@[simp] theorem AddImm_coef (d : s32) (x : Reg) : (v.AddImm d).coef x = v.coef x := rfl

theorem eff_succ {factor : Nat} (h : factor ≠ 0) : eff (factor + 1) = eff factor + 1 := by
  rw [eff, eff, if_neg (Nat.succ_ne_zero _), if_neg h]

theorem eff_add_le (a b : Nat) : eff (a + b) ≤ eff a + eff b := by
  unfold eff
  split <;> split <;> split <;> omega

theorem eff_add_lt {a b : Nat} (h : a = 0 ∨ b = 0) : eff (a + b) < eff a + eff b := by
  unfold eff
  split <;> split <;> split <;> omega

theorem eff_add {a b : Nat} (ha : a ≠ 0) (hb : b ≠ 0) : eff (a + b) = eff a + eff b := by
  rw [eff, eff, eff, if_neg ha, if_neg hb, if_neg (by omega)]

theorem AddReg_cases (hi : v.Index = some i) (h : v.AddReg (some r) = some w) :
    (i = r ∧ w = ⟨v.Base, some i, v.Factor + 1, v.Displacement⟩) ∨
      (i ≠ r ∧ v.Base = none ∧ w = ⟨some r, some i, v.Factor, v.Displacement⟩) := by
  unfold xAddressVoid.AddReg at h
  rw [hi] at h
  by_cases hr : i = r
  · rw [if_pos (by rw [hr])] at h
    exact .inl ⟨hr, (Option.some.inj h).symm⟩
  · rw [if_neg (by simpa using Ne.symm hr), if_neg (Option.some_ne_none i),
      if_neg (Option.some_ne_none i)] at h
    split at h
    · cases h
    · split at h
      · rename_i hnone
        exact .inr ⟨hr, hnone, (Option.some.inj h).symm⟩
      · cases h

theorem AddReg_index (hi : v.Index = some i) (hir : i = r) :
    v.AddReg (some r) = some ⟨v.Base, some i, v.Factor + 1, v.Displacement⟩ := by
  rw [xAddressVoid.AddReg, if_pos (by rw [hi, hir]), hi]

theorem AddReg_base (hi : v.Index = some i) (hir : i ≠ r) (hbase : v.Base = none) :
    v.AddReg (some r) = some ⟨some r, some i, v.Factor, v.Displacement⟩ := by
  rw [xAddressVoid.AddReg, if_neg (by rw [hi]; simpa using Ne.symm hir), if_neg (by simp [hbase]),
    if_pos hbase, hi]

theorem AddReg_none (hi : v.Index = some i) : v.AddReg none = none := by
  unfold xAddressVoid.AddReg
  by_cases hbase : v.Base = none
  · simp [hi, hbase]
  · simp [hi, hbase, Ne.symm hbase]

/-- One more of a register. -/
def unit (r x : Reg) : Nat := if x = r then 1 else 0

theorem coef_eq (hi : v.Index = some i) (x : Reg) :
    v.coef x = (if v.Base = some x then 1 else 0) + eff v.Factor * unit i x := by
  rw [xAddressVoid.coef, hi, unit]
  by_cases hx : x = i
  · simp [hx]
  · simp [hx, Ne.symm hx]

theorem coef_base {b : Reg} (hi : v.Index = some i) (hb : v.Base = some b) (x : Reg) :
    v.coef x = unit b x + eff v.Factor * unit i x := by
  rw [coef_eq hi, hb, unit, unit]
  by_cases hx : x = b
  · simp [hx]
  · simp [hx, Ne.symm hx]

theorem coef_no_base (hi : v.Index = some i) (hb : v.Base = none) (x : Reg) :
    v.coef x = eff v.Factor * unit i x := by
  rw [coef_eq hi, hb, if_neg (by simp), Nat.zero_add]

/-- An addition never says more than what was added, and less when it does not fit. -/
theorem AddReg_le (hi : v.Index = some i) (h : v.AddReg (some r) = some w) :
    w.Index = some i ∧ w.Displacement = v.Displacement ∧
      (∀ x, w.coef x ≤ v.coef x + unit r x) ∧ (¬v.AddFits r → w.coef r < v.coef r + 1) := by
  rcases AddReg_cases hi h with ⟨rfl, rfl⟩ | ⟨hir, hbase, rfl⟩
  · have hle := eff_add_le v.Factor 1
    refine ⟨rfl, rfl, fun x => ?_, fun hfit => ?_⟩
    · rw [coef_eq rfl, coef_eq hi]
      have hmul := Nat.mul_le_mul_right (unit i x) hle
      rw [Nat.add_mul, show eff 1 = 1 from rfl, Nat.one_mul] at hmul
      dsimp only
      omega
    · have hzero : v.Factor = 0 := by
        by_contra hne
        exact hfit ⟨fun _ => hne, fun hno => absurd hi hno⟩
      rw [coef_eq rfl, coef_eq hi, hzero, unit, if_pos rfl, show eff (0 + 1) = 1 from rfl,
        show eff 0 = 1 from rfl]
      dsimp only
      omega
  · refine ⟨rfl, rfl, fun x => ?_, fun hfit => ?_⟩
    · rw [coef_base rfl rfl, coef_no_base hi hbase]
      dsimp only
      omega
    · refine absurd ⟨fun heq => ?_, fun _ => hbase⟩ hfit
      exact absurd (Option.some.inj (hi.symm.trans heq)) hir

theorem AddReg_of_fits (hi : v.Index = some i) (hfit : v.AddFits r) :
    ∃ w, v.AddReg (some r) = some w ∧ w.Index = some i ∧ ∀ x, w.coef x = v.coef x + unit r x := by
  by_cases hir : i = r
  · have hne := hfit.1 (by rw [hi, hir])
    refine ⟨_, AddReg_index hi hir, rfl, fun x => ?_⟩
    rw [coef_eq rfl, coef_eq hi, eff_succ hne, ← hir, Nat.add_mul, Nat.one_mul]
    dsimp only
    omega
  · have hbase := hfit.2 (by rw [hi]; simpa using hir)
    refine ⟨_, AddReg_base hi hir hbase, rfl, fun x => ?_⟩
    rw [coef_base rfl rfl, coef_no_base hi hbase, Nat.add_comm]

end

section

variable {v u src : xAddressVoid} {i j : Reg}

theorem AddVoid_cases (hi : v.Index = some i) (hj : src.Index = some j)
    (h : v.AddVoid src = some u) : ∃ b w, src.Base = some b ∧ v.AddReg (some b) = some w ∧
      ((src.Factor = 1 ∧ (w.AddImm src.Displacement).AddReg (some j) = some u) ∨
        (src.Factor ≠ 1 ∧ i = j ∧
          u = ⟨w.Base, some i, w.Factor + src.Factor, w.Displacement + src.Displacement⟩)) := by
  unfold xAddressVoid.AddVoid at h
  obtain ⟨w, hw, hu⟩ := Option.bind_eq_some_iff.1 h
  cases hb : src.Base with
  | none =>
    rw [hb, AddReg_none hi] at hw
    cases hw
  | some b =>
    rw [hb] at hw
    obtain ⟨hwi, -, -⟩ := AddReg_le hi hw
    refine ⟨b, w, rfl, hw, ?_⟩
    dsimp only at hu
    by_cases hone : src.Factor = 1
    · rw [if_pos hone, hj] at hu
      exact .inl ⟨hone, hu⟩
    · rw [if_neg hone, if_neg (by simp [xAddressVoid.AddImm, hwi])] at hu
      split at hu
      · rename_i heq
        have hij : i = j := by
          have heq' : w.Index = src.Index := heq
          rw [hwi, hj] at heq'
          exact Option.some.inj heq'
        refine .inr ⟨hone, hij, ?_⟩
        rw [← Option.some.inj hu]
        simp [xAddressVoid.AddImm, hwi]
      · cases hu

theorem AddVoid_le (hi : v.Index = some i) (hj : src.Index = some j)
    (h : v.AddVoid src = some u) : u.Index = some i ∧
      u.Displacement = v.Displacement + src.Displacement ∧
      (∀ x, u.coef x ≤ v.coef x + src.coef x) ∧
      (¬v.VoidFits src → ∃ x, u.coef x < v.coef x + src.coef x) := by
  obtain ⟨b, w, hb, hw, hcase⟩ := AddVoid_cases hi hj h
  obtain ⟨hwi, hwd, hwle, hwlt⟩ := AddReg_le hi hw
  have hsrc := coef_base hj hb
  rcases hcase with ⟨hone, hu⟩ | ⟨hone, rfl, rfl⟩
  · obtain ⟨hui, hud, hule, hult⟩ := AddReg_le (v := w.AddImm src.Displacement) hwi hu
    simp only [AddImm_coef, hone, show eff 1 = 1 from rfl, Nat.one_mul] at hule hult hsrc
    refine ⟨hui, ?_, fun x => ?_, fun hfit => ?_⟩
    · rw [hud, xAddressVoid.AddImm, hwd]
    · have hx := hwle x
      have hx' := hule x
      rw [hsrc]
      omega
    · by_cases hbase : v.AddFits b
      · have hindex : ¬(w.AddImm src.Displacement).AddFits j := by
          intro hindex
          refine hfit ?_
          rcases AddReg_cases hi hw with ⟨rfl, rfl⟩ | ⟨hib, hnone, rfl⟩
          · refine ⟨hbase.1 hi, by rw [hone]; decide, i, hb, ?_⟩
            by_cases hij : i = j
            · exact .inl ⟨by rw [hi, hj, hij], .inl hi⟩
            · exact .inr ⟨hi, hone, hindex.2 fun heq => hij (Option.some.inj heq)⟩
          · have hij : i = j := by
              by_contra hij
              cases hindex.2 fun heq => hij (Option.some.inj heq)
            refine ⟨hindex.1 (congrArg some hij), by rw [hone]; decide, b, hb, ?_⟩
            exact .inl ⟨by rw [hi, hj, hij], .inr hnone⟩
        have hlt := hult hindex
        have hle := hwle j
        refine ⟨j, ?_⟩
        rw [hsrc, unit, unit, if_pos rfl]
        rw [unit] at hle
        omega
      · have hlt := hwlt hbase
        have hle := hule b
        refine ⟨b, ?_⟩
        rw [hsrc, unit, if_pos rfl]
        omega
  · refine ⟨rfl, by rw [hwd], fun x => ?_, fun hfit => ?_⟩
    · have hx := hwle x
      have hmul := Nat.mul_le_mul_right (unit i x) (eff_add_le w.Factor src.Factor)
      rw [coef_eq hwi] at hx
      rw [Nat.add_mul] at hmul
      rw [coef_eq rfl, hsrc]
      dsimp only
      omega
    · by_cases hbase : v.AddFits b
      · have hzero : w.Factor = 0 ∨ src.Factor = 0 := by
          by_contra hne
          push Not at hne
          refine hfit ?_
          rcases AddReg_cases hi hw with ⟨rfl, rfl⟩ | ⟨hib, hnone, rfl⟩
          · exact ⟨hbase.1 hi, hne.2, i, hb, .inl ⟨by rw [hi, hj], .inl hi⟩⟩
          · exact ⟨hne.1, hne.2, b, hb, .inl ⟨by rw [hi, hj], .inr hnone⟩⟩
        have hlt := eff_add_lt hzero
        have hle := hwle i
        refine ⟨i, ?_⟩
        rw [coef_eq hwi] at hle
        rw [coef_eq rfl, hsrc, show unit i i = 1 from if_pos rfl]
        rw [show unit i i = 1 from if_pos rfl] at hle
        dsimp only
        omega
      · have hlt := hwlt hbase
        have hmul := Nat.mul_le_mul_right (unit i b) (eff_add_le w.Factor src.Factor)
        refine ⟨b, ?_⟩
        rw [coef_eq hwi] at hlt
        rw [Nat.add_mul] at hmul
        rw [coef_eq rfl, hsrc, show unit b b = 1 from if_pos rfl]
        dsimp only
        omega

theorem AddVoid_of_fits (hi : v.Index = some i) (hj : src.Index = some j)
    (hfit : v.VoidFits src) : ∃ u, v.AddVoid src = some u ∧ u.Index = some i ∧
      ∀ x, u.coef x = v.coef x + src.coef x := by
  obtain ⟨hv, hs, b, hb, hplace⟩ := hfit
  have hsrc := coef_base hj hb
  have hbase : v.AddFits b := by
    refine ⟨fun _ => hv, fun hno => ?_⟩
    rcases hplace with ⟨-, hyes | hnone⟩ | ⟨hyes, -, -⟩
    · exact absurd hyes hno
    · exact hnone
    · exact absurd hyes hno
  obtain ⟨w, hw, hwi, hwc⟩ := AddReg_of_fits hi hbase
  have hwf : w.Factor ≠ 0 := by
    rcases AddReg_cases hi hw with ⟨rfl, rfl⟩ | ⟨-, -, rfl⟩
    · exact Nat.succ_ne_zero _
    · exact hv
  rw [xAddressVoid.AddVoid, hb, hw, Option.bind_eq_bind, Option.bind_some]
  dsimp only
  by_cases hone : src.Factor = 1
  · rw [if_pos hone, hj]
    have hindex : (w.AddImm src.Displacement).AddFits j := by
      refine ⟨fun _ => hwf, fun hno => ?_⟩
      have hij : i ≠ j := fun heq => hno (by rw [← heq]; exact hwi)
      rcases hplace with ⟨heq, -⟩ | ⟨hyes, -, hnone⟩
      · rw [hi, hj] at heq
        exact absurd (Option.some.inj heq).symm hij
      · rcases AddReg_cases hi hw with ⟨-, rfl⟩ | ⟨hib, -, -⟩
        · exact hnone
        · exact absurd (Option.some.inj (hi.symm.trans hyes)) hib
    obtain ⟨u, hu, hui, huc⟩ := AddReg_of_fits (v := w.AddImm src.Displacement) hwi hindex
    refine ⟨u, hu, hui, fun x => ?_⟩
    rw [huc, AddImm_coef, hwc, hsrc, hone, show eff 1 = 1 from rfl, Nat.one_mul, Nat.add_assoc]
  · have hij : i = j := by
      rcases hplace with ⟨heq, -⟩ | ⟨-, hyes, -⟩
      · rw [hi, hj] at heq
        exact (Option.some.inj heq).symm
      · exact absurd hyes hone
    subst hij
    obtain ⟨B, I, F, D⟩ := w
    cases hwi
    refine ⟨⟨B, some i, F + src.Factor, D + src.Displacement⟩, ?_, rfl, fun x => ?_⟩
    · rw [if_neg hone, hj]
      exact (if_neg (Option.some_ne_none i)).trans (if_pos rfl)
    · have hx := hwc x
      rw [coef_eq rfl] at hx ⊢
      rw [hsrc]
      dsimp only at hx hwf ⊢
      rw [eff_add hwf hs, Nat.add_mul]
      omega

theorem regReg_coef (a b x : Reg) :
    (xAddressVoid.mk (some a) (some b) 1 0).coef x = (Expr.regReg a b).value.coef x := by
  rw [coef_base rfl rfl, show eff 1 = 1 from rfl, Nat.one_mul]
  rfl

theorem regImm_coef (r : Reg) (d : s32) (x : Reg) :
    (xAddressVoid.mk none (some r) 0 d).coef x = (Expr.regImm r d).value.coef x := by
  rw [coef_no_base rfl rfl, show eff 0 = 1 from rfl, Nat.one_mul]
  rfl

theorem regMul_coef (r : Reg) (factor : ℕ+) (x : Reg) :
    (xAddressVoid.mk none (some r) factor 0).coef x = (Expr.regMul r factor).value.coef x := by
  rw [coef_no_base rfl rfl, eff, if_neg factor.ne_zero, unit]
  by_cases hx : x = r
  · simp [Expr.value, hx]
  · simp [Expr.value, hx]

/-- An expression never says more than what was written, and less when an addition does not
fit. -/
theorem build_le (e : Expr) {v : xAddressVoid} (h : e.build = some v) :
    (∃ i, v.Index = some i) ∧ v.Displacement = e.value.disp ∧
      (∀ x, v.coef x ≤ e.value.coef x) ∧ (¬e.Fits → ∃ x, v.coef x < e.value.coef x) := by
  induction e generalizing v with
  | regReg a b =>
    cases h
    exact ⟨⟨b, rfl⟩, rfl, fun x => (regReg_coef a b x).le, fun hfit => absurd trivial hfit⟩
  | regImm r d =>
    cases h
    exact ⟨⟨r, rfl⟩, rfl, fun x => (regImm_coef r d x).le, fun hfit => absurd trivial hfit⟩
  | regMul r factor =>
    cases h
    exact ⟨⟨r, rfl⟩, rfl, fun x => (regMul_coef r factor x).le, fun hfit => absurd trivial hfit⟩
  | addReg e r ih =>
    obtain ⟨v', hv', hadd⟩ := Option.bind_eq_some_iff.1 h
    obtain ⟨⟨i, hi⟩, hd, hle, hlt⟩ := ih hv'
    obtain ⟨hvi, hvd, hvle, hvlt⟩ := AddReg_le hi hadd
    refine ⟨⟨i, hvi⟩, hvd.trans hd, fun x => ?_, fun hfit => ?_⟩
    · exact (hvle x).trans (Nat.add_le_add_right (hle x) _)
    · by_cases hsub : e.Fits
      · have hno : ¬v'.AddFits r := fun hadds => hfit ⟨hsub, fun v'' hv'' => by
          rw [hv'] at hv''
          exact Option.some.inj hv'' ▸ hadds⟩
        refine ⟨r, (hvlt hno).trans_le ?_⟩
        simpa [Expr.value] using hle r
      · obtain ⟨x, hx⟩ := hlt hsub
        exact ⟨x, (hvle x).trans_lt (Nat.add_lt_add_right hx _)⟩
  | addVoid e e' ih ih' =>
    obtain ⟨v', hv', hrest⟩ := Option.bind_eq_some_iff.1 h
    obtain ⟨src, hsrc, hadd⟩ := Option.bind_eq_some_iff.1 hrest
    obtain ⟨⟨i, hi⟩, hd, hle, hlt⟩ := ih hv'
    obtain ⟨⟨j, hj⟩, hd', hle', hlt'⟩ := ih' hsrc
    obtain ⟨hvi, hvd, hvle, hvlt⟩ := AddVoid_le hi hj hadd
    refine ⟨⟨i, hvi⟩, by rw [hvd, hd, hd']; rfl, fun x => ?_, fun hfit => ?_⟩
    · exact (hvle x).trans (Nat.add_le_add (hle x) (hle' x))
    · by_cases hsub : e.Fits
      · by_cases hsub' : e'.Fits
        · have hno : ¬v'.VoidFits src := fun hadds => hfit ⟨hsub, hsub', fun v'' src' hv'' hs' => by
            rw [hv'] at hv''
            rw [hsrc] at hs'
            exact Option.some.inj hv'' ▸ Option.some.inj hs' ▸ hadds⟩
          obtain ⟨x, hx⟩ := hvlt hno
          exact ⟨x, hx.trans_le (Nat.add_le_add (hle x) (hle' x))⟩
        · obtain ⟨x, hx⟩ := hlt' hsub'
          exact ⟨x, (hvle x).trans_lt (Nat.add_lt_add_of_le_of_lt (hle x) hx)⟩
      · obtain ⟨x, hx⟩ := hlt hsub
        exact ⟨x, (hvle x).trans_lt (Nat.add_lt_add_of_lt_of_le hx (hle' x))⟩
  | addImm e d ih =>
    obtain ⟨v', hv', rfl⟩ := Option.map_eq_some_iff.1 h
    obtain ⟨⟨i, hi⟩, hd, hle, hlt⟩ := ih hv'
    exact ⟨⟨i, hi⟩, congrArg (· + d) hd, hle, hlt⟩

theorem build_of_fits (e : Expr) (h : e.Fits) :
    ∃ v, e.build = some v ∧ ∀ x, v.coef x = e.value.coef x := by
  induction e with
  | regReg a b => exact ⟨_, rfl, regReg_coef a b⟩
  | regImm r d => exact ⟨_, rfl, regImm_coef r d⟩
  | regMul r factor => exact ⟨_, rfl, regMul_coef r factor⟩
  | addReg e r ih =>
    obtain ⟨v, hv, hc⟩ := ih h.1
    obtain ⟨⟨i, hi⟩, -⟩ := build_le e hv
    obtain ⟨w, hw, -, hwc⟩ := AddReg_of_fits hi (h.2 v hv)
    refine ⟨w, by rw [Expr.build, hv]; exact hw, fun x => ?_⟩
    rw [hwc, hc]
    rfl
  | addVoid e e' ih ih' =>
    obtain ⟨v, hv, hc⟩ := ih h.1
    obtain ⟨src, hsrc, hc'⟩ := ih' h.2.1
    obtain ⟨⟨i, hi⟩, -⟩ := build_le e hv
    obtain ⟨⟨j, hj⟩, -⟩ := build_le e' hsrc
    obtain ⟨w, hw, -, hwc⟩ := AddVoid_of_fits hi hj (h.2.2 v src hv hsrc)
    refine ⟨w, by rw [Expr.build, hv, hsrc]; exact hw, fun x => ?_⟩
    rw [hwc, hc, hc']
    rfl
  | addImm e d ih =>
    obtain ⟨v, hv, hc⟩ := ih h
    exact ⟨v.AddImm d, by rw [Expr.build, hv]; rfl, hc⟩

end

end OmegaRed.X86
