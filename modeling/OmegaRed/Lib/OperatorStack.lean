import Mathlib.Data.List.Basic
import Mathlib.Tactic.Common

/-! The stack of pending operators of an operator-precedence parser. -/

namespace OmegaRed.Lib.OperatorStack

universe u

variable {τ : Type u} (priority : τ → Nat) (fence : τ → Bool)

/-- The operators an operator of priority `p` takes from the stack, and the stack that stays. -/
def popPending (p : Nat) : List τ → List τ × List τ
  | [] => ([], [])
  | t :: stack =>
    if fence t then ([], t :: stack)
    else if p ≤ priority t then
      (t :: (popPending p stack).1, (popPending p stack).2)
    else ([], t :: stack)

/-- Everything above the nearest fence, and the stack below it. -/
def popToFence : List τ → Option (List τ × List τ)
  | [] => none
  | t :: stack =>
    if fence t then some ([], stack)
    else (popToFence stack).map fun popped => (t :: popped.1, popped.2)

/-- No operator of priority `p` or more takes anything from the stack. -/
def Blocked (p : Nat) : List τ → Prop
  | [] => True
  | t :: _ => fence t ∨ priority t < p

/-- The operators that an operator of priority `p` or less takes. -/
def Pending (p : Nat) (stack : List τ) : Prop := ∀ t ∈ stack, fence t = false ∧ p ≤ priority t

variable {priority fence}

theorem blocked_of_lt {p : Nat} {t : τ} (h : priority t < p) (stack : List τ) :
    Blocked priority fence p (t :: stack) := .inr h

theorem blocked_of_fence {t : τ} (h : fence t = true) (p : Nat) (stack : List τ) :
    Blocked priority fence p (t :: stack) := .inl h

theorem Blocked.mono {p q : Nat} (h : p ≤ q) {stack : List τ}
    (hb : Blocked priority fence p stack) : Blocked priority fence q stack := by
  cases stack with
  | nil => exact hb
  | cons t stack => exact hb.imp_right fun hlt => Nat.lt_of_lt_of_le hlt h

theorem Blocked.popPending {p : Nat} {stack : List τ} (h : Blocked priority fence p stack) :
    popPending priority fence p stack = ([], stack) := by
  cases stack with
  | nil => rfl
  | cons t stack =>
    rw [OperatorStack.popPending]
    split
    · rfl
    · next hf => rw [if_neg (Nat.not_le.mpr (h.resolve_left hf))]

theorem pending_nil (p : Nat) : Pending priority fence p [] := by
  intro t ht
  simp at ht

theorem pending_singleton {p : Nat} {t : τ} (hf : fence t = false) (h : p ≤ priority t) :
    Pending priority fence p [t] := by
  intro t' ht
  rw [List.mem_singleton] at ht
  subst ht
  exact ⟨hf, h⟩

theorem Pending.append {p : Nat} {a b : List τ} (ha : Pending priority fence p a)
    (hb : Pending priority fence p b) : Pending priority fence p (a ++ b) := by
  intro t ht
  exact (List.mem_append.mp ht).elim (ha t) (hb t)

theorem Pending.mono {p q : Nat} (h : p ≤ q) {stack : List τ}
    (hp : Pending priority fence q stack) : Pending priority fence p stack :=
  fun t ht => ⟨(hp t ht).1, Nat.le_trans h (hp t ht).2⟩

/-- What is pending is taken, and nothing below a blocked stack. -/
theorem Pending.popPending_append {p : Nat} {pend stack : List τ}
    (hp : Pending priority fence p pend) (hb : Blocked priority fence p stack) :
    popPending priority fence p (pend ++ stack) = (pend, stack) := by
  induction pend with
  | nil => exact hb.popPending
  | cons t pend ih =>
    obtain ⟨hf, hle⟩ := hp t List.mem_cons_self
    rw [List.cons_append, OperatorStack.popPending, hf, if_neg Bool.false_ne_true, if_pos hle,
      ih fun t ht => hp t (List.mem_cons_of_mem _ ht)]

theorem popToFence_append {pend stack : List τ} {t : τ} (hp : ∀ a ∈ pend, fence a = false)
    (ht : fence t = true) : popToFence fence (pend ++ t :: stack) = some (pend, stack) := by
  induction pend with
  | nil => rw [List.nil_append, popToFence, if_pos ht]
  | cons a pend ih =>
    rw [List.cons_append, popToFence, hp a List.mem_cons_self, if_neg Bool.false_ne_true,
      ih fun t ht => hp t (List.mem_cons_of_mem _ ht), Option.map_some]

theorem popToFence_of_none {stack : List τ} (h : ∀ a ∈ stack, fence a = false) :
    popToFence fence stack = none := by
  induction stack with
  | nil => rfl
  | cons a stack ih =>
    rw [popToFence, h a List.mem_cons_self, if_neg Bool.false_ne_true,
      ih fun b hb => h b (List.mem_cons_of_mem _ hb), Option.map_none]

theorem popToFence_ne_none {stack : List τ} {t : τ} (ht : t ∈ stack) (hfence : fence t = true) :
    popToFence fence stack ≠ none := by
  induction stack with
  | nil => cases ht
  | cons a stack ih =>
    rw [popToFence]
    split
    · nofun
    next ha =>
      rcases List.mem_cons.mp ht with rfl | ht
      · exact absurd hfence ha
      · exact fun hnone => ih ht (Option.map_eq_none_iff.mp hnone)

variable {υ : Type u} {f : τ → Option υ}

/-- What is read off a stack of which no operator takes it stays. -/
theorem filterMap_popPending (hf : ∀ t, fence t = false → f t = none) (p : Nat) (stack : List τ) :
    (popPending priority fence p stack).2.filterMap f = stack.filterMap f := by
  induction stack with
  | nil => rfl
  | cons t stack ih =>
    rw [popPending]
    split
    · rfl
    next hfence =>
      split
      · rw [List.filterMap_cons_none (hf t (Bool.eq_false_iff.mpr hfence))]
        exact ih
      · rfl

/-- A fence that can be read off the stack is found there as well. -/
theorem popToFence_filterMap {fence' : υ → Bool} (hf : ∀ t, (f t).any fence' = fence t)
    (stack : List τ) :
    (popToFence fence' (stack.filterMap f)).map (·.2) =
      (popToFence fence stack).map fun popped => popped.2.filterMap f := by
  induction stack with
  | nil => rfl
  | cons t stack ih =>
    have ht := hf t
    cases hft : f t with
    | none =>
      rw [hft, Option.any_none] at ht
      rw [List.filterMap_cons_none hft, ih, popToFence, ← ht, if_neg Bool.false_ne_true,
        Option.map_map]
      rfl
    | some u =>
      rw [hft, Option.any_some] at ht
      rw [List.filterMap_cons_some hft, popToFence, popToFence, ht]
      split
      · rfl
      · rw [Option.map_map, Option.map_map]
        exact ih

end OmegaRed.Lib.OperatorStack
