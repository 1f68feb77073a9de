import Mathlib.Data.List.Basic
import Mathlib.Data.List.Nodup

/-! Checksums: what a list of parts comes to under an operation, and what changing a part does. -/

namespace OmegaRed.Lib.Checksums

universe u v

variable {ι : Type u} {α : Type v} (op : α → α → α)

/-- The parts of the list on top of a start. -/
def checksum (g : ι → α) (s : α) (l : List ι) : α := l.foldl (fun a i => op a (g i)) s

variable {op} {g g' : ι → α}

theorem checksum_congr {l : List ι} (h : ∀ i ∈ l, g' i = g i) (s : α) :
    checksum op g' s l = checksum op g s l :=
  List.foldl_ext _ _ s fun a i hi => congrArg (op a) (h i hi)

theorem checksum_append (s : α) (l l' : List ι) :
    checksum op g s (l ++ l') = checksum op g (checksum op g s l) l' :=
  List.foldl_append

/-- Parts that add nothing. -/
theorem checksum_unit {l : List ι} (h : ∀ i ∈ l, ∀ a, op a (g i) = a) (s : α) :
    checksum op g s l = s := by
  induction l generalizing s with
  | nil => rfl
  | cons i l ih =>
    change checksum op g (op s (g i)) l = s
    rw [h i List.mem_cons_self s]
    exact ih (fun j hj => h j (List.mem_cons_of_mem i hj)) s

theorem checksum_map {κ : Type u} (f : κ → ι) (s : α) (l : List κ) :
    checksum op g s (l.map f) = checksum op (fun k => g (f k)) s l :=
  List.foldl_map

variable [Std.Associative op] [Std.Commutative op]

theorem checksum_start (s d : α) (l : List ι) :
    checksum op g (op s d) l = op (checksum op g s l) d := by
  have hassoc : ∀ a b c, op (op a b) c = op a (op b c) := Std.Associative.assoc
  have hcomm : ∀ a b, op a b = op b a := Std.Commutative.comm
  induction l generalizing s with
  | nil => rfl
  | cons i l ih =>
    have hswap : op (op s d) (g i) = op (op s (g i)) d := by
      rw [hassoc, hcomm d, ← hassoc]
    calc checksum op g (op s d) (i :: l)
        = checksum op g (op (op s d) (g i)) l := rfl
      _ = checksum op g (op (op s (g i)) d) l := by rw [hswap]
      _ = op (checksum op g (op s (g i)) l) d := ih _

/-- A part that changes by `d` changes the checksum by `d`. -/
theorem checksum_change {j : ι} {d : α} {l : List ι} (hnodup : l.Nodup) (hj : j ∈ l)
    (hd : g' j = op (g j) d) (h : ∀ i, i ≠ j → g' i = g i) (s : α) :
    checksum op g' s l = op (checksum op g s l) d := by
  have hassoc : ∀ a b c, op (op a b) c = op a (op b c) := Std.Associative.assoc
  obtain ⟨as, bs, rfl⟩ := List.append_of_mem hj
  have has : ∀ i ∈ as, i ≠ j := by
    rintro i hi rfl
    exact (List.nodup_append.mp hnodup).2.2 i hi i List.mem_cons_self rfl
  have hbs : ∀ i ∈ bs, i ≠ j := by
    rintro i hi rfl
    exact (List.nodup_cons.mp (List.nodup_append.mp hnodup).2.1).1 hi
  rw [checksum_append, checksum_append, checksum_congr fun i hi => h i (has i hi)]
  calc checksum op g' (checksum op g s as) (j :: bs)
      = checksum op g' (op (checksum op g s as) (g' j)) bs := rfl
    _ = checksum op g (op (op (checksum op g s as) (g j)) d) bs := by
        rw [checksum_congr fun i hi => h i (hbs i hi), hd, hassoc]
    _ = op (checksum op g (op (checksum op g s as) (g j)) bs) d := checksum_start _ d bs

/-- Parts in a row that change by `d` change the checksum by all of `d`. -/
theorem checksum_change_range {g g' d : Nat → α} {len p n : Nat} (h : p + n ≤ len)
    (hin : ∀ i < n, g' (p + i) = op (g (p + i)) (d i))
    (hout : ∀ k, k < p ∨ p + n ≤ k → g' k = g k) (s : α) :
    checksum op g' s (List.range len) =
      checksum op d (checksum op g s (List.range len)) (List.range n) := by
  induction n generalizing g' with
  | zero => exact checksum_congr (fun k _ => hout k (by omega)) s
  | succ n ih =>
    -- all but the last of them have changed
    have hlast := @ih (Function.update g' (p + n) (g (p + n))) (by omega)
      (fun i hi => by rw [Function.update_of_ne (by omega)]; exact hin i (by omega))
      fun k hk => by
        by_cases hk' : k = p + n
        · rw [hk', Function.update_self]
        · rw [Function.update_of_ne hk']
          exact hout k (by omega)
    have hchange := @checksum_change _ _ op (Function.update g' (p + n) (g (p + n))) g' _ _ (p + n)
      (d n) (List.range len) List.nodup_range (List.mem_range.mpr (by omega))
      (by rw [Function.update_self]; exact hin n (Nat.lt_succ_self n))
      (fun k hk => (Function.update_of_ne hk _ _).symm) s
    rw [hchange, hlast, List.range_succ, checksum_append]
    rfl

end OmegaRed.Lib.Checksums
