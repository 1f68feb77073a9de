import Mathlib.Algebra.Order.Group.Nat
import Mathlib.Data.List.Basic
import Mathlib.Tactic.Common

/-! Intervals of coordinates on a grid: the cells that one touches, walks over them, and grids that
refine each other. -/

namespace OmegaRed.Lib.Grid

variable {a b k l h lo hi n c x q : Nat}

/-- `n & ~(a - 1)` where `a` is a power of two. -/
def alignDown (a n : Nat) : Nat := n / a * a

/-- `(n + (a - 1)) & ~(a - 1)` where `a` is a power of two. -/
def alignUp (a n : Nat) : Nat := (n + (a - 1)) / a * a

/-- The values of `i` in `for(i = lo; i < hi; i += a)`. -/
def steps (lo hi a : Nat) : List Nat := List.range' lo ((hi - lo + (a - 1)) / a) a

/-- The number of cells below `n`, the last of them perhaps in part. -/
def ceil (a n : Nat) : Nat := (n + (a - 1)) / a

theorem alignDown_eq : alignDown a n = a * (n / a) := Nat.mul_comm ..

theorem alignUp_eq : alignUp a n = a * ceil a n := Nat.mul_comm ..

theorem ceil_le_iff (ha : 0 < a) : ceil a n ≤ c ↔ n ≤ a * c := by
  rw [ceil, Nat.div_le_iff_le_mul_add_pred ha]
  omega

theorem lt_ceil_iff (ha : 0 < a) : c < ceil a n ↔ a * c < n := by
  rw [← Nat.not_le, ceil_le_iff ha, Nat.not_le]

theorem le_mul_ceil (ha : 0 < a) : n ≤ a * ceil a n := (ceil_le_iff ha).1 (Nat.le_refl _)

/-- A walk from cell to cell. -/
theorem steps_mul (hk : 0 < k) : steps (k * l) (k * h) k = (List.range' l (h - l)).map (k * ·) := by
  have hlength : (k * h - k * l + (k - 1)) / k = h - l := by
    rw [← Nat.mul_sub, Nat.mul_add_div hk, Nat.div_eq_of_lt (Nat.sub_lt hk Nat.one_pos),
      Nat.add_zero]
  rw [steps, hlength]
  apply List.ext_getElem
  · rw [List.length_map, List.length_range', List.length_range']
  · intro i _ _
    rw [List.getElem_range', List.getElem_map, List.getElem_range', Nat.one_mul, Nat.mul_add]

/-- A walk in units of `c` over what is aligned to cells of `c * k`. -/
theorem steps_div (hc : 0 < c) (hk : 0 < k) :
    steps (alignDown (c * k) lo / c) (alignUp (c * k) hi / c) (c * k / c) =
      (List.range' (lo / (c * k)) (ceil (c * k) hi - lo / (c * k))).map (k * ·) := by
  rw [alignDown_eq, alignUp_eq, Nat.mul_assoc, Nat.mul_assoc, Nat.mul_div_cancel_left _ hc,
    Nat.mul_div_cancel_left _ hc, Nat.mul_div_cancel_left _ hc, steps_mul hk]

theorem range'_split (hab : a ≤ b) (hbc : b ≤ c) :
    List.range' a (c - a) = List.range' a (b - a) ++ List.range' b (c - b) := by
  have happ := @List.range'_append a (b - a) (c - b) 1
  rw [Nat.one_mul, Nat.add_sub_cancel' hab] at happ
  rw [happ]
  congr 1
  omega

theorem mem_cells_iff : q ∈ List.range' l (h - l) ↔ l ≤ q ∧ q < h := by
  rw [List.mem_range'_1]
  omega

/-- Where the cells of `b` are made of cells of `a`: an interval that touches a cell of `a` touches
a cell of `b` exactly if one of its points, with those of its cells of `a`, lies there. -/
theorem touches_iff (ha : 0 < a) (hb : 0 < b) (hab : a ∣ b) (hne : lo / a < ceil a hi) :
    (lo / b ≤ q ∧ q < ceil b hi) ↔
      ∃ x, alignDown a lo ≤ x ∧ x < alignUp a hi ∧ x / b = q := by
  rw [alignDown_eq, alignUp_eq]
  constructor
  · rintro ⟨hlo, hhi⟩
    have hleft : a * (lo / a) < b * (q + 1) :=
      Nat.lt_of_le_of_lt (Nat.mul_div_le lo a)
        (Nat.lt_of_lt_of_le (Nat.lt_mul_div_succ lo hb) (Nat.mul_le_mul_left b (by omega)))
    refine ⟨max (b * q) (a * (lo / a)), Nat.le_max_right .., Nat.max_lt.2 ⟨?_, ?_⟩, ?_⟩
    · exact Nat.lt_of_lt_of_le ((lt_ceil_iff hb).1 hhi) (le_mul_ceil ha)
    · exact Nat.mul_lt_mul_of_pos_left hne ha
    · apply Nat.div_eq_of_lt_le
      · rw [Nat.mul_comm q b]
        exact Nat.le_max_left ..
      · rw [Nat.mul_comm (q + 1) b]
        exact Nat.max_lt.2 ⟨Nat.mul_lt_mul_of_pos_left (Nat.lt_succ_self q) hb, hleft⟩
  · rintro ⟨x, hlo, hhi, rfl⟩
    obtain ⟨m, rfl⟩ := hab
    constructor
    · calc lo / (a * m)
        _ = a * (lo / a) / (a * m) := by
          rw [Nat.mul_div_mul_left _ _ ha, Nat.div_div_eq_div_mul]
        _ ≤ x / (a * m) := Nat.div_le_div_right hlo
    · apply Nat.div_lt_of_lt_mul
      refine Nat.lt_of_lt_of_le hhi ?_
      rw [Nat.mul_assoc, Nat.mul_le_mul_left_iff ha, ceil_le_iff ha, ← Nat.mul_assoc]
      exact le_mul_ceil hb

/-- A coarser grid has cells where a finer one does. -/
theorem ceil_le_of_dvd (ha : 0 < a) (hb : 0 < b) (hab : a ∣ b) (h : ceil b hi ≤ lo / b) :
    ceil a hi ≤ lo / a := by
  rw [ceil_le_iff hb] at h
  rw [ceil_le_iff ha]
  obtain ⟨m, rfl⟩ := hab
  refine Nat.le_trans h ?_
  rw [Nat.mul_assoc, Nat.mul_le_mul_left_iff ha, ← Nat.div_div_eq_div_mul]
  exact Nat.mul_div_le ..

section Loops

universe u v

variable {α : Type u} {σ : Type v} {s : σ}

/-- A loop whose rounds succeed. -/
theorem foldlM_eq_some {step : σ → α → Option σ} {f : σ → α → σ} {xs : List α}
    (hstep : ∀ x ∈ xs, ∀ s, step s x = some (f s x)) : xs.foldlM step s = some (xs.foldl f s) := by
  induction xs generalizing s with
  | nil => rfl
  | cons x xs ih =>
    rw [List.foldlM_cons, hstep x (List.mem_cons_self ..), List.foldl_cons]
    exact ih fun y hy => hstep y (List.mem_cons_of_mem x hy)

/-- A loop with a round that fails. -/
theorem foldlM_eq_none {step : σ → α → Option σ} {xs : List α} {x : α} (hx : x ∈ xs)
    (hstep : ∀ s, step s x = none) : xs.foldlM step s = none := by
  induction xs generalizing s with
  | nil => cases hx
  | cons y xs ih =>
    rw [List.foldlM_cons]
    rcases List.mem_cons.1 hx with rfl | hx
    · rw [hstep]
      rfl
    · cases step s y with
      | none => rfl
      | some s' => exact ih hx

end Loops

end OmegaRed.Lib.Grid
