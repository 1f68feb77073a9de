import Mathlib.Tactic.Common
import Mathlib.Data.List.Basic

/-! Maps with a lawful order of the keys, and maps that are filled from a list. -/

namespace OmegaRed.Lib.OrderedMaps

open Std (TreeMap TransCmp LawfulEqCmp)

universe u v w

variable {κ : Type u} {α : Type v} {β : Type w} [DecidableEq κ] {cmp : κ → κ → Ordering}
  [TransCmp cmp] [LawfulEqCmp cmp] {m : TreeMap κ α cmp} {k j : κ} {x y : α}

theorem getElem?_insert : (m.insert k x)[j]? = if k = j then some x else m[j]? := by
  simp only [TreeMap.getElem?_insert, LawfulEqCmp.compare_eq_iff_eq]

theorem getElem?_insertIfNew :
    (m.insertIfNew k x)[j]? = if k = j ∧ m[k]? = none then some x else m[j]? := by
  simp only [TreeMap.getElem?_insertIfNew, LawfulEqCmp.compare_eq_iff_eq,
    TreeMap.mem_iff_isSome_getElem?, Bool.not_eq_true, Option.isSome_eq_false_iff,
    Option.isNone_iff_eq_none]

theorem getElem?_erase : (m.erase k)[j]? = if k = j then none else m[j]? := by
  simp only [TreeMap.getElem?_erase, LawfulEqCmp.compare_eq_iff_eq]

theorem getElem?_modify (f : α → α) :
    (m.modify k f)[j]? = if k = j then m[j]?.map f else m[j]? := by
  rw [TreeMap.getElem?_modify]
  simp only [LawfulEqCmp.compare_eq_iff_eq]
  split_ifs with hk
  · rw [hk]
  · rfl

omit [DecidableEq κ] [LawfulEqCmp cmp] in
theorem mem_iff : k ∈ m ↔ ∃ x, m[k]? = some x := by
  rw [TreeMap.mem_iff_isSome_getElem?, Option.isSome_iff_exists]

/-- The elements under the keys that they have; the first one of a key stays. -/
def collect (cmp : κ → κ → Ordering) (key : α → Option κ) (l : List α) : TreeMap κ α cmp :=
  l.foldl (fun m x =>
    match key x with
    | some k => m.insertIfNew k x
    | none => m) ∅

theorem getElem?_collect_eq (key : α → Option κ) (l : List α) :
    (collect cmp key l)[k]? = l.find? fun x => key x = some k := by
  have hfold (m : TreeMap κ α cmp) : (l.foldl (fun m x =>
      match key x with
      | some k => m.insertIfNew k x
      | none => m) m)[k]? = m[k]?.or (l.find? fun x => key x = some k) := by
    induction l generalizing m with
    | nil => rw [List.foldl_nil, List.find?_nil, Option.or_none]
    | cons y l ih =>
      rw [List.foldl_cons, ih, List.find?_cons]
      cases hy : key y with
      | none => rfl
      | some i =>
        dsimp only
        rw [getElem?_insertIfNew]
        by_cases hi : i = k
        · subst hi
          cases hm : m[i]? <;> simp
        · simp [hi]
  rw [collect, hfold, TreeMap.getElem?_emptyc, Option.none_or]

/-- A map from the list's keys to its values, the last one of a key. -/
theorem getElem?_foldl_insert (f : β → κ) (g : β → α) (l : List β) (m : TreeMap κ α cmp) :
    (l.foldl (fun m b => m.insert (f b) (g b)) m)[k]? =
      ((l.reverse.find? fun b => f b = k).map g).or m[k]? := by
  induction l generalizing m with
  | nil => rfl
  | cons b l ih =>
    rw [List.foldl_cons, ih, getElem?_insert, List.reverse_cons, List.find?_append]
    cases l.reverse.find? fun b => f b = k with
    | some c => rfl
    | none =>
      by_cases hb : f b = k
      · simp [hb]
      · simp [hb]

/-- All the values are there, where they are a function of the keys. -/
theorem getElem?_foldl_insert_iff {f : β → κ} {g : β → α} {l : List β}
    (hfun : ∀ b ∈ l, ∀ c ∈ l, f b = f c → g b = g c) :
    (l.foldl (fun m b => m.insert (f b) (g b)) (∅ : TreeMap κ α cmp))[k]? = some x ↔
      ∃ b ∈ l, f b = k ∧ g b = x := by
  rw [getElem?_foldl_insert, TreeMap.getElem?_emptyc, Option.or_none, Option.map_eq_some_iff]
  refine ⟨fun ⟨b, hfind, hb⟩ => ⟨b, ?_, ?_, hb⟩, fun ⟨b, hmem, hk, hb⟩ => ?_⟩
  · exact List.mem_reverse.mp (List.mem_of_find?_eq_some hfind)
  · simpa using List.find?_some hfind
  · cases hfind : l.reverse.find? fun b => f b = k with
    | none =>
      exact absurd hk (by simpa using List.find?_eq_none.mp hfind b (List.mem_reverse.mpr hmem))
    | some c =>
      have hc : f c = k := by simpa using List.find?_some hfind
      refine ⟨c, rfl, ?_⟩
      rw [← hb]
      exact hfun c (List.mem_reverse.mp (List.mem_of_find?_eq_some hfind)) b hmem (hc.trans hk.symm)

end OmegaRed.Lib.OrderedMaps

/-! Binary searches for the index from which on a predicate holds. -/

namespace OmegaRed.Lib.Bisect

variable {p : Nat → Bool} {k rounds lo hi : Nat}

/-- The first index of `[lo, hi)` at which `p` holds, and `hi` if there is none. -/
def first (p : Nat → Bool) : Nat → Nat → Nat → Nat
  | 0, lo, _ => lo
  | rounds + 1, lo, hi =>
    if lo < hi then
      let mid := (lo + hi) / 2
      if p mid then first p rounds lo mid else first p rounds (mid + 1) hi
    else lo

/-- The last index of `[lo, hi]` before `p` holds, and `lo` if there is none. -/
def last (p : Nat → Bool) : Nat → Nat → Nat → Nat
  | 0, lo, _ => lo
  | rounds + 1, lo, hi =>
    if lo ≠ hi then
      let mid := (lo + hi + 1) / 2
      if p mid then last p rounds lo (mid - 1) else last p rounds mid hi
    else lo

theorem first_eq (hlo : lo ≤ k) (hhi : k ≤ hi) (hp : ∀ i, lo ≤ i → i < hi → (p i = true ↔ k ≤ i))
    (hrounds : hi ≤ lo + rounds) : first p rounds lo hi = k := by
  induction rounds generalizing lo hi with
  | zero =>
    rw [first]
    omega
  | succ rounds ih =>
    rw [first]
    by_cases hlt : lo < hi
    · have hmid := hp ((lo + hi) / 2) (by omega) (by omega)
      simp only [if_pos hlt]
      by_cases h : k ≤ (lo + hi) / 2
      · rw [if_pos (hmid.mpr h)]
        exact ih hlo h (fun i hi hi' => hp i hi (by omega)) (by omega)
      · rw [if_neg (mt hmid.mp h)]
        exact ih (by omega) hhi (fun i hi hi' => hp i (by omega) hi') (by omega)
    · rw [if_neg hlt]
      omega

theorem last_eq (hlo : lo ≤ k) (hhi : k ≤ hi) (hp : ∀ i, lo < i → i ≤ hi → (p i = true ↔ k < i))
    (hrounds : hi ≤ lo + rounds) : last p rounds lo hi = k := by
  induction rounds generalizing lo hi with
  | zero =>
    rw [last]
    omega
  | succ rounds ih =>
    rw [last]
    by_cases hne : lo ≠ hi
    · have hmid := hp ((lo + hi + 1) / 2) (by omega) (by omega)
      simp only [if_pos hne]
      by_cases h : k < (lo + hi + 1) / 2
      · rw [if_pos (hmid.mpr h)]
        exact ih hlo (by omega) (fun i hi hi' => hp i hi (by omega)) (by omega)
      · rw [if_neg (mt hmid.mp h)]
        exact ih (by omega) hhi (fun i hi hi' => hp i (by omega) hi') (by omega)
    · rw [if_neg hne]
      omega

/-- A predicate that stays true has an index from which on it holds. -/
theorem exists_first {n : Nat} (hp : ∀ i j, i ≤ j → j < n → p i = true → p j = true) :
    ∃ k ≤ n, ∀ i < n, (p i = true ↔ k ≤ i) := by
  induction n with
  | zero => exact ⟨0, Nat.le_refl 0, fun i hi => absurd hi (Nat.not_lt_zero i)⟩
  | succ n ih =>
    obtain ⟨k, hk, hiff⟩ := ih fun i j hij hj => hp i j hij (by omega)
    by_cases h : k = n ∧ p n = false
    · obtain ⟨rfl, hn⟩ := h
      refine ⟨k + 1, Nat.le_refl _, fun i hi => ?_⟩
      rcases Nat.lt_succ_iff_lt_or_eq.mp hi with hlt | rfl
      · rw [hiff i hlt]
        omega
      · rw [hn]
        exact iff_of_false Bool.false_ne_true (Nat.not_succ_le_self i)
    · refine ⟨k, by omega, fun i hi => ?_⟩
      rcases Nat.lt_succ_iff_lt_or_eq.mp hi with hlt | rfl
      · exact hiff i hlt
      · refine iff_of_true ?_ hk
        by_cases hki : k = i
        · exact Bool.of_not_eq_false fun hfalse => h ⟨hki, hfalse⟩
        · exact hp k i hk (Nat.lt_succ_self i) ((hiff k (by omega)).mpr (Nat.le_refl k))

end OmegaRed.Lib.Bisect
