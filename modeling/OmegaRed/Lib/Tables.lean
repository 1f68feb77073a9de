import Mathlib.Algebra.Order.Group.Nat
import Mathlib.Data.List.Nodup
import Mathlib.Data.List.Basic

/-! Tables of numbers whose sides are powers of two, looked up with masked coordinates. -/

namespace OmegaRed.Lib

theorem get_ofFn {α : Type} {n : Nat} (f : Fin n → α) (i : Fin n) : (Vector.ofFn f).get i = f i :=
  Vector.getElem_ofFn i.isLt

/-- `2 ^ n` rows of `2 ^ m` entries. -/
abbrev Table (m n : Nat) := Vector (Vector Nat (2 ^ m)) (2 ^ n)

namespace Table

variable {m n : Nat}

/-- `t[i & (2 ^ n - 1)]` -/
def row (t : Table m n) (i : Nat) : Vector Nat (2 ^ m) :=
  Vector.get t ⟨i % 2 ^ n, Nat.mod_lt _ (Nat.two_pow_pos n)⟩

/-- `t[i & (2 ^ n - 1)][j & (2 ^ m - 1)]` -/
def get (t : Table m n) (i j : Nat) : Nat :=
  (t.row i).get ⟨j % 2 ^ m, Nat.mod_lt _ (Nat.two_pow_pos m)⟩

def entries (t : Table m n) : List Nat := t.toList.flatMap Vector.toList

theorem row_mod (t : Table m n) (i : Nat) : t.row (i % 2 ^ n) = t.row i := by
  simp only [row, Nat.mod_mod]

theorem get_mod_row (t : Table m n) (i j : Nat) : t.get (i % 2 ^ n) j = t.get i j := by
  rw [get, row_mod, get]

theorem get_mod_column (t : Table m n) (i j : Nat) : t.get i (j % 2 ^ m) = t.get i j := by
  simp only [get, Nat.mod_mod]

theorem row_mem (t : Table m n) (i : Nat) : t.row i ∈ t.toList :=
  Vector.mem_toList_iff.mpr (Vector.getElem_mem _)

theorem get_mem_row (t : Table m n) (i j : Nat) : t.get i j ∈ (t.row i).toList :=
  Vector.mem_toList_iff.mpr (Vector.getElem_mem _)

theorem get_mem (t : Table m n) (i j : Nat) : t.get i j ∈ t.entries :=
  List.mem_flatMap.mpr ⟨t.row i, t.row_mem i, t.get_mem_row i j⟩

end Table

/-- No entry twice, with the entries seen so far as the bits of a number: one pass, where
comparing all pairs is too long for the tables this is for. -/
def distinct : List Nat → Nat → Bool
  | [], _ => true
  | v :: vs, seen => !seen.testBit v && distinct vs (seen ||| 1 <<< v)

theorem not_mem_of_distinct {vs : List Nat} {seen v : Nat} (h : distinct vs seen = true)
    (hv : seen.testBit v = true) : v ∉ vs := by
  induction vs generalizing seen with
  | nil => exact List.not_mem_nil
  | cons w vs ih =>
    rw [distinct, Bool.and_eq_true, Bool.not_eq_true'] at h
    rw [List.mem_cons, not_or]
    constructor
    · rintro rfl
      rw [hv] at h
      exact Bool.noConfusion h.1
    · exact ih h.2 (by rw [Nat.testBit_or, hv, Bool.true_or])

theorem nodup_of_distinct_seen {vs : List Nat} {seen : Nat} (h : distinct vs seen = true) :
    vs.Nodup := by
  induction vs generalizing seen with
  | nil => exact List.nodup_nil
  | cons v vs ih =>
    rw [distinct, Bool.and_eq_true] at h
    refine List.nodup_cons.mpr ⟨not_mem_of_distinct h.2 ?_, ih h.2⟩
    rw [Nat.testBit_or, Nat.one_shiftLeft, Nat.testBit_two_pow_self, Bool.or_true]

theorem nodup_of_distinct {vs : List Nat} (h : distinct vs 0 = true) : vs.Nodup :=
  nodup_of_distinct_seen h

namespace Table

variable {m n : Nat}

theorem disjoint_of_lt {t : Table m n} (h : t.entries.Nodup) {i i' : Nat}
    (hlt : i % 2 ^ n < i' % 2 ^ n) : (t.row i).toList.Disjoint (t.row i').toList := by
  have hrows := List.pairwise_iff_getElem.mp (List.nodup_flatMap.mp h).2
  have hi : i % 2 ^ n < t.toList.length := by
    rw [Vector.length_toList]
    exact Nat.mod_lt _ (Nat.two_pow_pos n)
  have hi' : i' % 2 ^ n < t.toList.length := by
    rw [Vector.length_toList]
    exact Nat.mod_lt _ (Nat.two_pow_pos n)
  exact hrows _ _ hi hi' hlt

theorem row_nodup {t : Table m n} (h : t.entries.Nodup) (i : Nat) : (t.row i).toList.Nodup :=
  (List.nodup_flatMap.mp h).1 _ (t.row_mem i)

/-- A table without repetitions is a one-to-one map. -/
theorem get_inj {t : Table m n} (h : t.entries.Nodup) {i j i' j' : Nat}
    (heq : t.get i j = t.get i' j') : i % 2 ^ n = i' % 2 ^ n ∧ j % 2 ^ m = j' % 2 ^ m := by
  have hi : i % 2 ^ n = i' % 2 ^ n := by
    rcases Nat.lt_trichotomy (i % 2 ^ n) (i' % 2 ^ n) with hlt | heq' | hgt
    · exact absurd (heq ▸ t.get_mem_row i' j') (disjoint_of_lt h hlt (t.get_mem_row i j))
    · exact heq'
    · exact absurd (heq ▸ t.get_mem_row i j) (disjoint_of_lt h hgt (t.get_mem_row i' j'))
  have hrow : t.row i = t.row i' := by rw [← row_mod t i, hi, row_mod]
  rw [get, get, hrow] at heq
  have hlen (k : Nat) : k % 2 ^ m < (t.row i').toList.length := by
    rw [Vector.length_toList]
    exact Nat.mod_lt _ (Nat.two_pow_pos m)
  have hinj := List.nodup_iff_injective_getElem.mp (row_nodup h i')
  have hj := @hinj ⟨j % 2 ^ m, hlen j⟩ ⟨j' % 2 ^ m, hlen j'⟩ heq
  exact ⟨hi, Fin.val_eq_of_eq hj⟩

end Table

end OmegaRed.Lib
