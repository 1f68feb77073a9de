import Mathlib.Data.List.FinRange
import Mathlib.Logic.Function.Basic
import Mathlib.Tactic.Common

/-! Maps that are a base map overridden by a family of partial maps. -/

namespace OmegaRed.Lib.Overlay

universe u v w

variable {α : Type u} {β : Type v} {ι : Type w}

def lay (m : α → β) (g : α → Option β) : α → β := fun a => (g a).getD (m a)

theorem lay_of_some {m : α → β} {g : α → Option β} {a : α} {b : β} (h : g a = some b) :
    lay m g a = b := by
  simp [lay, h]

theorem lay_of_none {m : α → β} {g : α → Option β} {a : α} (h : g a = none) :
    lay m g a = m a := by
  simp [lay, h]

/-- `m` is `base` overridden by the layers `f`. -/
def Overlaid (base : α → β) (f : ι → α → Option β) (m : α → β) : Prop :=
  ∀ a, (∀ i b, f i a = some b → m a = b) ∧ ((∀ i, f i a = none) → m a = base a)

/-- No two layers say something about one place. -/
def Apart (f : ι → α → Option β) : Prop :=
  ∀ i j a, (f i a).isSome → (f j a).isSome → i = j

theorem Apart.eq_none {f : ι → α → Option β} (h : Apart f) {i j : ι} (hij : j ≠ i) {a : α}
    (hi : (f i a).isSome) : f j a = none := by
  rw [← Option.not_isSome_iff_eq_none]
  intro hj
  exact hij (h j i a hj hi)

theorem overlaid_base (base : α → β) {f : ι → α → Option β} (h : ∀ i a, f i a = none) :
    Overlaid base f base := by
  intro a
  constructor
  · intro i b hb
    rw [h] at hb
    contradiction
  · intro _
    rfl

/-- One layer is undone and another laid in its place. -/
theorem Overlaid.replace [DecidableEq ι] {base m undone : α → β} {f : ι → α → Option β}
    (h : Overlaid base f m) (hf : Apart f) {i : ι} {g : α → Option β}
    (hg : Apart (Function.update f i g))
    (hin : ∀ a, (f i a).isSome → g a = none → undone a = base a)
    (hout : ∀ a, f i a = none → g a = none → undone a = m a) :
    Overlaid base (Function.update f i g) (lay undone g) := by
  have hself : Function.update f i g i = g := Function.update_self ..
  have hother : ∀ j, j ≠ i → Function.update f i g j = f j :=
    fun j hj => Function.update_of_ne hj ..
  intro a
  constructor
  · intro j b hb
    by_cases hj : j = i
    · subst hj
      rw [hself] at hb
      exact lay_of_some hb
    · have hga : g a = none := by
        have hga := hg.eq_none (Ne.symm hj) (i := j) (a := a) (by simp [hb])
        rwa [hself] at hga
      rw [hother j hj] at hb
      have hfa : f i a = none := hf.eq_none (Ne.symm hj) (by simp [hb])
      rw [lay_of_none hga, hout a hfa hga]
      exact (h a).1 j b hb
  · intro hnone
    have hga : g a = none := by
      have hga := hnone i
      rwa [hself] at hga
    rw [lay_of_none hga]
    cases hfa : f i a with
    | some b => exact hin a (by simp [hfa]) hga
    | none =>
      rw [hout a hfa hga]
      apply (h a).2
      intro j
      by_cases hj : j = i
      · rw [hj, hfa]
      · have hja := hnone j
        rwa [hother j hj] at hja

theorem foldl_lay_of_none {f : ι → α → Option β} {a : α} {l : List ι} (m : α → β)
    (h : ∀ i ∈ l, f i a = none) : l.foldl (fun m i => lay m (f i)) m a = m a := by
  induction l generalizing m with
  | nil => rfl
  | cons i l ih =>
    rw [List.foldl_cons, ih _ (fun j hj => h j (List.mem_cons_of_mem _ hj))]
    exact lay_of_none (h i List.mem_cons_self)

theorem foldl_lay_of_some {f : ι → α → Option β} (hf : Apart f) {a : α} {i : ι} {b : β}
    (hb : f i a = some b) {l : List ι} (hi : i ∈ l) (m : α → β) :
    l.foldl (fun m i => lay m (f i)) m a = b := by
  induction l generalizing m with
  | nil => contradiction
  | cons j l ih =>
    rw [List.foldl_cons]
    by_cases hl : i ∈ l
    · exact ih hl _
    · have hij : i = j := (List.mem_cons.mp hi).resolve_right hl
      subst hij
      have hrest : ∀ k ∈ l, f k a = none := by
        intro k hk
        have hki : k ≠ i := fun h => hl (h ▸ hk)
        exact hf.eq_none hki (by simp [hb])
      rw [foldl_lay_of_none _ hrest]
      exact lay_of_some hb

/-- New layers are laid over the old ones and hide them. -/
theorem Overlaid.reload {base m : α → β} {f f' : ι → α → Option β} (h : Overlaid base f m)
    (hf' : Apart f') {l : List ι} (hl : ∀ i, i ∈ l)
    (hhide : ∀ i a, (f i a).isSome → ∃ j, (f' j a).isSome) :
    Overlaid base f' (l.foldl (fun m i => lay m (f' i)) m) := by
  intro a
  constructor
  · intro i b hb
    exact foldl_lay_of_some hf' hb (hl i) m
  · intro hnone
    rw [foldl_lay_of_none m (fun i _ => hnone i)]
    apply (h a).2
    intro i
    cases hfa : f i a with
    | none => rfl
    | some b =>
      obtain ⟨j, hj⟩ := hhide i a (by simp [hfa])
      rw [hnone j] at hj
      contradiction

section Writes

variable [DecidableEq α] {key : Nat → α} {c : Nat → Prop} [DecidablePred c] (val : Nat → β)

/-- The writes of a loop with a test in its body. -/
def writes (key : Nat → α) (c : Nat → Prop) [DecidablePred c] (val : Nat → β) (n : Nat)
    (m : α → β) : α → β :=
  (List.range n).foldl (fun m i => if c i then Function.update m (key i) (val i) else m) m

theorem writes_succ (n : Nat) (m : α → β) :
    writes key c val (n + 1) m =
      if c n then Function.update (writes key c val n m) (key n) (val n)
      else writes key c val n m := by
  simp only [writes, List.range_succ, List.foldl_append, List.foldl_cons, List.foldl_nil]

theorem writes_of_ne {n : Nat} {a : α} (h : ∀ i, i < n → c i → key i ≠ a) (m : α → β) :
    writes key c val n m a = m a := by
  induction n with
  | zero => rfl
  | succ n ih =>
    have hn := ih (fun i hi => h i (Nat.lt_succ_of_lt hi))
    rw [writes_succ]
    split
    · rename_i hc
      rw [Function.update_of_ne (h n (Nat.lt_succ_self n) hc).symm, hn]
    · exact hn

theorem writes_of_eq {n : Nat} (hkey : ∀ i j, i < n → j < n → key i = key j → i = j) {i : Nat}
    (hi : i < n) (hc : c i) (m : α → β) : writes key c val n m (key i) = val i := by
  induction n with
  | zero => contradiction
  | succ n ih =>
    rw [writes_succ]
    by_cases hin : i = n
    · subst hin
      rw [if_pos hc, Function.update_self]
    · have hlt : i < n := by omega
      have hne : key i ≠ key n := fun h => hin (hkey i n hi (Nat.lt_succ_self n) h)
      have hrec := ih (fun i j hi hj => hkey i j (Nat.lt_succ_of_lt hi) (Nat.lt_succ_of_lt hj)) hlt
      split
      · rw [Function.update_of_ne hne, hrec]
      · exact hrec

end Writes

end OmegaRed.Lib.Overlay
