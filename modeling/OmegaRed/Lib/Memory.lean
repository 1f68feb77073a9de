import Mathlib.Data.List.Basic
import Mathlib.Logic.Function.Basic
import Mathlib.Tactic.Common

/-! Flat memories, block copies between them, and patterns laid out in them. -/

namespace OmegaRed.Lib.Memory

universe u

variable {α : Type u}

/-- Copy the block `l` to address `a`. -/
def store (m : Nat → α) (a : Nat) (l : List α) : Nat → α :=
  fun i => if i < a then m i else l.getD (i - a) (m i)

/-- The `n` cells from address `a` on. -/
def load (m : Nat → α) (a n : Nat) : List α :=
  (List.range n).map (fun i => m (a + i))

@[simp] theorem length_load (m : Nat → α) (a n : Nat) : (load m a n).length = n := by
  simp [load]

theorem getElem?_load (m : Nat → α) {a n i : Nat} (h : i < n) :
    (load m a n)[i]? = some (m (a + i)) := by
  simp [load, h]

theorem load_congr {m m' : Nat → α} {a n : Nat}
    (h : ∀ i, i < n → m (a + i) = m' (a + i)) : load m a n = load m' a n := by
  apply List.map_congr_left
  intro i hi
  exact h i (List.mem_range.mp hi)

theorem load_add (m : Nat → α) (a n k : Nat) :
    load m a (n + k) = load m a n ++ load m (a + n) k := by
  simp [load, List.range_add, Nat.add_assoc]

@[simp] theorem load_zero (m : Nat → α) (a : Nat) : load m a 0 = [] := rfl

theorem store_of_lt (m : Nat → α) (l : List α) {a i : Nat} (h : i < a) :
    store m a l i = m i := by
  simp [store, h]

theorem store_of_ge (m : Nat → α) (l : List α) {a i : Nat} (h : a + l.length ≤ i) :
    store m a l i = m i := by
  have hi : ¬ i < a := by omega
  have hl : l[i - a]? = none := List.getElem?_eq_none (by omega)
  simp [store, hi, List.getD, hl]

theorem store_of_mem (m : Nat → α) {l : List α} {a i : Nat} {v : α} (h : l[i]? = some v) :
    store m a l (a + i) = v := by
  have hi : ¬ a + i < a := by omega
  simp [store, hi, List.getD, h]

theorem load_ext_iff {m m' : Nat → α} {a b n : Nat} :
    load m a n = load m' b n ↔ ∀ i, i < n → m (a + i) = m' (b + i) := by
  constructor
  · intro h i hi
    have hl := getElem?_load m (a := a) hi
    rw [h, getElem?_load m' hi] at hl
    exact (Option.some.inj hl).symm
  · intro h
    apply List.map_congr_left
    intro i hi
    exact h i (List.mem_range.mp hi)

/-- Memories that agree on a block agree on every part of it. -/
theorem load_part {m m' : Nat → α} {a b n : Nat} (h : load m a n = load m' b n) {k j : Nat}
    (hk : k + j ≤ n) : load m (a + k) j = load m' (b + k) j := by
  rw [load_ext_iff] at h ⊢
  intro i hi
  rw [Nat.add_assoc, Nat.add_assoc]
  exact h (k + i) (by omega)

@[simp] theorem store_nil (m : Nat → α) (a : Nat) : store m a [] = m := by
  funext i
  simp [store]

theorem store_cons (m : Nat → α) (a : Nat) (x : α) (l : List α) :
    store m a (x :: l) = store (Function.update m a x) (a + 1) l := by
  funext i
  rcases Nat.lt_trichotomy i a with h | rfl | h
  · rw [store_of_lt _ _ h, store_of_lt _ _ (by omega), Function.update_of_ne (by omega)]
  · rw [store_of_lt _ _ (Nat.lt_succ_self i), Function.update_self]
    simp [store]
  · obtain ⟨j, rfl⟩ := Nat.exists_eq_add_of_lt h
    have hj : ¬ a + j + 1 < a + 1 := by omega
    simp [store, hj, show ¬ a + j + 1 < a by omega, show a + j + 1 - a = j + 1 by omega,
      show a + j + 1 - (a + 1) = j by omega, Function.update_of_ne (show a + j + 1 ≠ a by omega)]

theorem load_store_self (m : Nat → α) (a : Nat) (l : List α) :
    load (store m a l) a l.length = l := by
  apply List.ext_getElem?
  intro i
  by_cases hi : i < l.length
  · rw [getElem?_load _ hi, store_of_mem m (List.getElem?_eq_getElem hi)]
    exact (List.getElem?_eq_getElem hi).symm
  · simp [Nat.le_of_not_lt hi]

theorem load_store_disjoint (m : Nat → α) (l : List α) {a b n : Nat}
    (h : b + n ≤ a ∨ a + l.length ≤ b) : load (store m a l) b n = load m b n := by
  apply load_congr
  intro i hi
  rcases h with h | h
  · exact store_of_lt m l (by omega)
  · exact store_of_ge m l (by omega)

/-- A copy right behind a block extends it. -/
theorem load_store_append (m : Nat → α) (a n : Nat) (l : List α) :
    load (store m (a + n) l) a (n + l.length) = load m a n ++ l := by
  rw [load_add, load_store_self, load_store_disjoint _ _ (.inl (Nat.le_refl _))]

/-- Two copies right behind one another are one. -/
theorem store_append (m : Nat → α) (a : Nat) (l l' : List α) :
    store (store m a l) (a + l.length) l' = store m a (l ++ l') := by
  funext i
  by_cases hi : i < a + l.length
  · rw [store_of_lt _ _ hi]
    by_cases ha : i < a
    · rw [store_of_lt _ _ ha, store_of_lt _ _ ha]
    · obtain ⟨j, rfl⟩ := Nat.exists_eq_add_of_le (Nat.le_of_not_lt ha)
      have hj : l[j]? = some l[j] := List.getElem?_eq_getElem (by omega)
      rw [store_of_mem m hj, store_of_mem m (v := l[j])]
      rw [List.getElem?_append_left (by omega), hj]
  · obtain ⟨j, rfl⟩ := Nat.exists_eq_add_of_le (Nat.le_of_not_lt hi)
    by_cases hj : j < l'.length
    · have hj' : l'[j]? = some l'[j] := List.getElem?_eq_getElem hj
      rw [store_of_mem _ hj', Nat.add_assoc, store_of_mem m (v := l'[j])]
      rw [List.getElem?_append_right (by omega), Nat.add_sub_cancel_left, hj']
    · rw [store_of_ge _ _ (by omega), store_of_ge _ _ (by omega), store_of_ge _ _]
      rw [List.length_append]
      omega

/-- A copy of a block is the copy of its two parts. -/
theorem store_load_add (m f : Nat → α) (a b n k : Nat) :
    store m a (load f b (n + k)) = store (store m a (load f b n)) (a + n) (load f (b + n) k) := by
  have happend := store_append m a (load f b n) (load f (b + n) k)
  rw [length_load] at happend
  rw [happend, load_add]

theorem store_congr {m m' : Nat → α} {i : Nat} (h : m i = m' i) (a : Nat) (l : List α) :
    store m a l i = store m' a l i := by
  simp only [store, h]

/-- The two parts of a block can be copied in either order. -/
theorem store_load_add' (m f : Nat → α) (a b n k : Nat) :
    store m a (load f b (n + k)) = store (store m (a + n) (load f (b + n) k)) a (load f b n) := by
  rw [store_load_add]
  funext i
  by_cases hi : i < a + n
  · rw [store_of_lt _ _ hi]
    exact store_congr (store_of_lt _ _ hi).symm _ _
  · have hge : a + (load f b n).length ≤ i := by
      rw [length_load]
      omega
    rw [store_of_ge _ _ hge]
    exact store_congr (store_of_ge _ _ hge) _ _

/-- A copy hides what stood in its place. -/
theorem store_store_of_le (m : Nat → α) (a : Nat) {l l' : List α} (h : l.length ≤ l'.length) :
    store (store m a l) a l' = store m a l' := by
  funext i
  by_cases hi : i < a
  · rw [store_of_lt _ _ hi, store_of_lt _ _ hi, store_of_lt _ _ hi]
  · obtain ⟨j, rfl⟩ := Nat.exists_eq_add_of_le (Nat.le_of_not_lt hi)
    by_cases hj : j < l'.length
    · have hv : l'[j]? = some l'[j] := List.getElem?_eq_getElem hj
      rw [store_of_mem _ hv, store_of_mem _ hv]
    · rw [store_of_ge _ _ (by omega), store_of_ge _ _ (by omega), store_of_ge _ _ (by omega)]

theorem take_drop_load (m : Nat → α) (a : Nat) {n k j : Nat} (h : k + j ≤ n) :
    ((load m a n).drop k).take j = load m (a + k) j := by
  obtain ⟨d, rfl⟩ := Nat.exists_eq_add_of_le h
  have hk : (load m a k).length = k := length_load m a k
  have hj : (load m (a + k) j).length = j := length_load m (a + k) j
  rw [Nat.add_assoc, load_add, load_add, List.drop_left' hk, List.take_left' hj]

/-- The pattern `p` stands at address `a`; a `none` in it is a cell nobody relies on. -/
def Laid (m : Nat → α) (a : Nat) (p : List (Option α)) : Prop :=
  ∀ i v, p[i]? = some (some v) → m (a + i) = v

@[simp] theorem laid_nil (m : Nat → α) (a : Nat) : Laid m a [] := by
  intro i v h
  simp at h

theorem laid_replicate_none (m : Nat → α) (a n : Nat) : Laid m a (List.replicate n none) := by
  intro i v h
  simp [List.getElem?_replicate] at h

theorem laid_append (m : Nat → α) (a : Nat) (p q : List (Option α)) :
    Laid m a (p ++ q) ↔ Laid m a p ∧ Laid m (a + p.length) q := by
  constructor
  · intro h
    refine ⟨fun i v hi => ?_, fun i v hi => ?_⟩
    · have hlt : i < p.length := by
        by_contra hge
        simp [List.getElem?_eq_none (Nat.le_of_not_lt hge)] at hi
      exact h i v (by rw [List.getElem?_append_left hlt, hi])
    · have := h (p.length + i) v (by rw [List.getElem?_append_right (by omega)]; simpa using hi)
      rwa [← Nat.add_assoc] at this
  · rintro ⟨hp, hq⟩ i v hi
    by_cases hlt : i < p.length
    · exact hp i v (by rwa [List.getElem?_append_left hlt] at hi)
    · have hge : p.length ≤ i := Nat.le_of_not_lt hlt
      rw [List.getElem?_append_right hge] at hi
      have := hq (i - p.length) v hi
      rwa [show a + p.length + (i - p.length) = a + i by omega] at this

theorem Laid.of_eqOn {m m' : Nat → α} {a : Nat} {p : List (Option α)} (h : Laid m a p)
    (heq : ∀ i, i < p.length → m' (a + i) = m (a + i)) : Laid m' a p := by
  intro i v hi
  have hlt : i < p.length := by
    by_contra hge
    simp [List.getElem?_eq_none (Nat.le_of_not_lt hge)] at hi
  rw [heq i hlt]
  exact h i v hi

/-- A copy that misses a laid pattern leaves it laid. -/
theorem Laid.store_disjoint {m : Nat → α} {a b : Nat} {p : List (Option α)} (h : Laid m a p)
    (l : List α) (hd : a + p.length ≤ b ∨ b + l.length ≤ a) : Laid (store m b l) a p := by
  apply h.of_eqOn
  intro i hi
  rcases hd with hd | hd
  · exact store_of_lt m l (by omega)
  · exact store_of_ge m l (by omega)

theorem laid_store_self (m : Nat → α) (a : Nat) (l : List α) :
    Laid (store m a l) a (l.map some) := by
  intro i v hi
  simp only [List.getElem?_map, Option.map_eq_some_iff] at hi
  obtain ⟨w, hw, hv⟩ := hi
  cases hv
  exact store_of_mem m hw

theorem Laid.load_eq {m : Nat → α} {a : Nat} {l : List α} (h : Laid m a (l.map some)) :
    load m a l.length = l := by
  apply List.ext_getElem?
  intro i
  by_cases hi : i < l.length
  · rw [getElem?_load _ hi, List.getElem?_eq_getElem hi]
    congr 1
    exact h i _ (by simp [hi])
  · simp [Nat.le_of_not_lt hi]

end OmegaRed.Lib.Memory
