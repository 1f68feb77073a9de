import Mathlib.Algebra.Order.Group.Nat
import Mathlib.Tactic.Common
import Mathlib.Data.List.Basic

/-! Going through a range in pieces of `step` that never cross a multiple of `size`. -/

namespace OmegaRed.Lib.Pieces

variable {size step start stop x y t : Nat}

/-- The end of the piece that begins at `x`. -/
def next (size step x : Nat) : Nat := x + min step (size - x % size)

/-- A place where a piece may end, when the first one begins at `start`. -/
def Cut (size step start x : Nat) : Prop :=
  if x / size = start / size then (x - start) % step = 0 else x % size % step = 0

instance : Decidable (Cut size step start x) :=
  inferInstanceAs
    (Decidable (if x / size = start / size then (x - start) % step = 0 else x % size % step = 0))

/-- The end of the first piece that reaches `stop`. -/
def last (size step stop x : Nat) : Nat :=
  if _ : x < stop ∧ x < next size step x then last size step stop (next size step x) else x
termination_by stop - x

theorem lt_next (hsize : 0 < size) (hstep : 0 < step) (x : Nat) : x < next size step x := by
  have := Nat.mod_lt x hsize
  rw [next]
  omega

theorem last_of_le (h : stop ≤ x) : last size step stop x = x := by
  rw [last, dif_neg (by omega)]

theorem last_of_lt (hsize : 0 < size) (hstep : 0 < step) (h : x < stop) :
    last size step stop x = last size step stop (next size step x) := by
  rw [last, dif_pos ⟨h, lt_next hsize hstep x⟩]

theorem cut_start : Cut size step start start := by
  rw [Cut, if_pos rfl, Nat.sub_self, Nat.zero_mod]

/-- Inside the block of `x` the pieces go on in steps from `x`. -/
theorem cut_add_iff (hsize : 0 < size) (hstart : start ≤ x) (hx : Cut size step start x) {d : Nat}
    (hd : x % size + d < size) : Cut size step start (x + d) ↔ d % step = 0 := by
  have hdiv : (x + d) / size = x / size := by
    rw [← Nat.div_add_mod x size, Nat.add_assoc, Nat.mul_add_div hsize, Nat.mul_add_div hsize,
      Nat.div_eq_of_lt hd, Nat.div_eq_of_lt (Nat.mod_lt x hsize)]
  have hmod : (x + d) % size = x % size + d := by
    rw [← Nat.div_add_mod x size, Nat.add_assoc, Nat.mul_add_mod, Nat.mod_eq_of_lt hd,
      Nat.mul_add_mod, Nat.mod_mod]
  rw [Cut] at hx ⊢
  rw [hdiv, hmod]
  split at hx
  · rw [if_pos (by assumption), Nat.sub_add_comm hstart, Nat.add_mod, hx, Nat.zero_add, Nat.mod_mod]
  · rw [if_neg (by assumption), Nat.add_mod, hx, Nat.zero_add, Nat.mod_mod]

theorem cut_next (hsize : 0 < size) (hstart : start ≤ x) (hx : Cut size step start x) :
    Cut size step start (next size step x) := by
  have hlt := Nat.mod_lt x hsize
  by_cases hstep : step < size - x % size
  · rw [next, Nat.min_eq_left (by omega), cut_add_iff hsize hstart hx (by omega), Nat.mod_self]
  · have hnext : next size step x = size * (x / size + 1) := by
      rw [next, Nat.min_eq_right (by omega), Nat.mul_add, Nat.mul_one]
      have := Nat.div_add_mod x size
      omega
    rw [hnext, Cut, if_neg, Nat.mul_mod_right, Nat.zero_mod]
    rw [Nat.mul_div_cancel_left _ hsize]
    have := Nat.div_le_div_right (c := size) hstart
    omega

theorem not_cut_of_lt_next (hsize : 0 < size) (hstart : start ≤ x) (hx : Cut size step start x)
    (hxy : x < y) (hy : y < next size step x) : ¬ Cut size step start y := by
  obtain ⟨d, rfl⟩ := Nat.exists_eq_add_of_le (Nat.le_of_lt hxy)
  rw [next] at hy
  rw [cut_add_iff hsize hstart hx (by omega), Nat.mod_eq_of_lt (by omega)]
  omega

/-- The last piece ends at the first cut that is not before `stop`. -/
theorem last_spec (stop : Nat) {x : Nat} (hsize : 0 < size) (hstep : 0 < step) (hstart : start ≤ x)
    (hx : Cut size step start x) :
    x ≤ last size step stop x ∧ stop ≤ last size step stop x ∧
      Cut size step start (last size step stop x) ∧
      ∀ y, stop ≤ y → x < y → y < last size step stop x → ¬ Cut size step start y := by
  by_cases hstop : x < stop
  · have hlt := lt_next hsize hstep x
    rw [last_of_lt hsize hstep hstop]
    obtain ⟨hle, hreach, hcut, hmin⟩ :=
      last_spec stop hsize hstep (hstart.trans hlt.le) (cut_next hsize hstart hx)
    refine ⟨hlt.le.trans hle, hreach, hcut, fun y hy hxy hlast => ?_⟩
    rcases Nat.lt_trichotomy y (next size step x) with h | rfl | h
    · exact not_cut_of_lt_next hsize hstart hx hxy h
    · rw [last_of_le hy] at hlast
      exact absurd hlast (Nat.lt_irrefl _)
    · exact hmin y hy h hlast
  · rw [last_of_le (by omega)]
    exact ⟨Nat.le_refl _, by omega, hx, fun y _ hxy hy => absurd hxy (by omega)⟩
termination_by stop - x

theorem last_eq_iff (hsize : 0 < size) (hstep : 0 < step) (hstop : start < stop) (ht : stop ≤ t) :
    last size step stop start = t ↔
      Cut size step start t ∧ ∀ y, stop ≤ y → y < t → ¬ Cut size step start y := by
  obtain ⟨-, hreach, hcut, hmin⟩ := last_spec stop hsize hstep (Nat.le_refl start) cut_start
  constructor
  · rintro rfl
    exact ⟨hcut, fun y hy hlt => hmin y hy (by omega) hlt⟩
  · rintro ⟨hcut', hmin'⟩
    rcases Nat.lt_trichotomy (last size step stop start) t with h | h | h
    · exact absurd hcut (hmin' _ hreach h)
    · exact h
    · exact absurd hcut' (hmin t ht (by omega) h)

theorem last_lt (hsize : 0 < size) (hstep : 0 < step) {x : Nat} (h : x < stop) :
    last size step stop x < stop + step := by
  have hlt := lt_next hsize hstep x
  rw [last_of_lt hsize hstep h]
  by_cases hnext : next size step x < stop
  · exact last_lt hsize hstep hnext
  · rw [last_of_le (by omega), next]
    omega
termination_by stop - x

end OmegaRed.Lib.Pieces

/-! Lists cut into blocks of one length. -/

namespace OmegaRed.Lib.Blocks

universe u

variable {α : Type u} {L : List (List α)} {n k : Nat} {l : List α}

theorem length_flatten (h : ∀ l ∈ L, l.length = n) : L.flatten.length = L.length * n := by
  induction L with
  | nil => simp
  | cons l L ih =>
    rw [List.flatten_cons, List.length_append, h l List.mem_cons_self,
      ih fun l hl => h l (List.mem_cons_of_mem _ hl), List.length_cons, Nat.succ_mul, Nat.add_comm]

theorem drop_flatten (h : ∀ l ∈ L, l.length = n) (k : Nat) :
    L.flatten.drop (k * n) = (L.drop k).flatten := by
  induction k generalizing L with
  | zero => simp
  | succ k ih =>
    cases L with
    | nil => simp
    | cons l L =>
      have hl := h l List.mem_cons_self
      rw [List.flatten_cons, Nat.succ_mul, Nat.add_comm, ← hl, ← List.drop_drop,
        List.drop_left, hl, ih fun l hl => h l (List.mem_cons_of_mem _ hl), List.drop_succ_cons]

/-- A slice that stays inside one block is a slice of that block. -/
theorem slice_flatten (h : ∀ l ∈ L, l.length = n) (hk : L[k]? = some l) {o b : Nat}
    (hb : o + b ≤ n) : (L.flatten.drop (k * n + o)).take b = (l.drop o).take b := by
  obtain ⟨hlt, hl⟩ := List.getElem?_eq_some_iff.mp hk
  have hlen : l.length = n := h l (List.mem_of_getElem? hk)
  rw [← List.drop_drop, drop_flatten h, List.drop_eq_getElem_cons hlt, hl, List.flatten_cons,
    List.drop_append_of_le_length (by omega), List.take_append_of_le_length]
  rw [List.length_drop]
  omega

end OmegaRed.Lib.Blocks
