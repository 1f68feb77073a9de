import Mathlib.Data.List.Nodup
import Mathlib.Logic.Function.Basic
import Mathlib.Tactic.Common

/-! Doubly linked rings through a sentinel, in arrays of links. -/

namespace OmegaRed.Lib.LinkedRing

variable {ι : Type*}

/-- The links lead from `a` through the list to `b`, and back. -/
def Linked (next prev : ι → ι) (b : ι) : ι → List ι → Prop
  | a, [] => next a = b ∧ prev b = a
  | a, x :: l => next a = x ∧ prev x = a ∧ Linked next prev b x l

/-- The places that are passed on the way to `stop`. -/
def follow [DecidableEq ι] (next : ι → ι) (stop : ι) : Nat → ι → List ι
  | 0, _ => []
  | n + 1, a => if a = stop then [] else a :: follow next stop n (next a)

variable {next prev next' prev' : ι → ι} {a b i x : ι} {l l₁ l₂ : List ι}

theorem Linked.congr (h : Linked next prev b a l) (hnext : ∀ x ∈ a :: l, next' x = next x)
    (hprev : ∀ x ∈ b :: l, prev' x = prev x) : Linked next' prev' b a l := by
  induction l generalizing a with
  | nil => exact ⟨(hnext a (by simp)).trans h.1, (hprev b (by simp)).trans h.2⟩
  | cons y l ih =>
    refine ⟨(hnext a (by simp)).trans h.1, (hprev y (by simp)).trans h.2.1, ih h.2.2 ?_ ?_⟩
    · exact fun x hx => hnext x (List.mem_cons_of_mem a hx)
    · intro x hx
      apply hprev
      rcases List.mem_cons.1 hx with rfl | hx
      · exact List.mem_cons_self
      · exact List.mem_cons_of_mem b (List.mem_cons_of_mem y hx)

theorem linked_append :
    Linked next prev b a (l₁ ++ x :: l₂) ↔ Linked next prev x a l₁ ∧ Linked next prev b x l₂ := by
  induction l₁ generalizing a with
  | nil => exact ⟨fun h => ⟨⟨h.1, h.2.1⟩, h.2.2⟩, fun h => ⟨h.1.1, h.1.2, h.2⟩⟩
  | cons y l₁ ih =>
    simp only [List.cons_append, Linked, ih]
    exact ⟨fun h => ⟨⟨h.1, h.2.1, h.2.2.1⟩, h.2.2.2⟩, fun h => ⟨h.1.1, h.1.2.1, h.1.2.2, h.2⟩⟩

theorem linked_reverse : Linked prev next a b l.reverse ↔ Linked next prev b a l := by
  induction l generalizing a with
  | nil => exact and_comm
  | cons x l ih =>
    rw [List.reverse_cons, linked_append, ih]
    exact ⟨fun h => ⟨h.2.2, h.2.1, h.1⟩, fun h => ⟨h.2.2, h.2.1, h.1⟩⟩

/-- What comes after `a`, and before `b`. -/
theorem Linked.next_mem (h : Linked next prev b a l) : next a ∈ b :: l := by
  cases l with
  | nil => exact h.1 ▸ List.mem_cons_self
  | cons x l => exact h.1 ▸ List.mem_cons_of_mem b List.mem_cons_self

theorem Linked.prev_mem (h : Linked next prev b a l) : prev b ∈ a :: l := by
  have hback := Linked.next_mem (linked_reverse.2 h)
  simpa using hback

section

variable [DecidableEq ι]

/-- The links of a ring after `i` is put behind the sentinel. -/
theorem Linked.insert (h : Linked next prev a a l) (hi : i ∉ a :: l) (hl : (a :: l).Nodup) :
    Linked (Function.update (Function.update next i (next a)) a i)
      (Function.update (Function.update prev i a) (next a) i) a a (i :: l) := by
  have hia : i ≠ a := fun heq => hi (heq ▸ List.mem_cons_self)
  have hne (x : ι) (hx : x ∈ a :: l) : x ≠ i := fun heq => hi (heq ▸ hx)
  refine ⟨Function.update_self .., ?_, ?_⟩
  · rw [Function.update_of_ne (hne _ h.next_mem).symm, Function.update_self]
  cases l with
  | nil =>
    refine ⟨?_, ?_⟩
    · rw [Function.update_of_ne hia, Function.update_self, h.1]
    · rw [h.1, Function.update_self]
  | cons y l =>
    have hya : y ≠ a := fun heq => (List.nodup_cons.1 hl).1 (heq ▸ List.mem_cons_self)
    have hyl := (List.nodup_cons.1 (List.nodup_cons.1 hl).2).1
    have hal : a ∉ y :: l := (List.nodup_cons.1 hl).1
    refine ⟨?_, ?_, h.2.2.congr ?_ ?_⟩
    · rw [Function.update_of_ne hia, Function.update_self, h.1]
    · rw [h.1, Function.update_self]
    · intro x hx
      have hxa : x ≠ a := fun heq => hal (heq ▸ hx)
      rw [Function.update_of_ne hxa, Function.update_of_ne (hne x (List.mem_cons_of_mem a hx))]
    · intro x hx
      have hxy : x ≠ next a := by
        rw [h.1]
        rintro rfl
        rcases List.mem_cons.1 hx with heq | hx
        · exact hya heq
        · exact hyl hx
      have hxi : x ≠ i := by
        apply hne
        rcases List.mem_cons.1 hx with rfl | hx
        · exact List.mem_cons_self
        · exact List.mem_cons_of_mem a (List.mem_cons_of_mem y hx)
      rw [Function.update_of_ne hxy, Function.update_of_ne hxi]

/-- The links after `i` is taken out. -/
theorem Linked.remove (h : Linked next prev b a (l₁ ++ i :: l₂)) (hb : b ∉ l₁ ++ i :: l₂)
    (hl : (a :: (l₁ ++ i :: l₂)).Nodup) :
    Linked (Function.update next (prev i) (next i)) (Function.update prev (next i) (prev i)) b a
      (l₁ ++ l₂) := by
  obtain ⟨h₁, h₂⟩ := linked_append.1 h
  induction l₁ generalizing a with
  | nil =>
    have hal : a ∉ i :: l₂ := (List.nodup_cons.1 hl).1
    rw [h₁.2]
    cases l₂ with
    | nil =>
      rw [h₂.1]
      exact ⟨Function.update_self .., Function.update_self ..⟩
    | cons y l₂ =>
      have hyl : y ∉ l₂ := (List.nodup_cons.1 (List.nodup_cons.1 (List.nodup_cons.1 hl).2).2).1
      have hby : b ≠ y := fun heq => hb (by simp [heq])
      rw [h₂.1]
      refine ⟨Function.update_self .., Function.update_self .., h₂.2.2.congr ?_ ?_⟩
      · intro x hx
        have hxa : x ≠ a := fun heq => hal (List.mem_cons_of_mem i (heq ▸ hx))
        rw [Function.update_of_ne hxa]
      · intro x hx
        have hxy : x ≠ y := by
          rintro rfl
          rcases List.mem_cons.1 hx with heq | hx
          · exact hby heq.symm
          · exact hyl hx
        rw [Function.update_of_ne hxy]
  | cons y l₁ ih =>
    have hl' : (y :: (l₁ ++ i :: l₂)).Nodup := (List.nodup_cons.1 hl).2
    have hal : a ∉ y :: (l₁ ++ i :: l₂) := (List.nodup_cons.1 hl).1
    have hyl : y ∉ l₁ ++ i :: l₂ := (List.nodup_cons.1 hl').1
    have hb' : b ∉ l₁ ++ i :: l₂ := fun hmem => hb (List.mem_cons_of_mem y hmem)
    have hprev : a ≠ prev i := by
      intro heq
      have hmem := h₁.2.2.prev_mem
      rw [← heq] at hmem
      apply hal
      rcases List.mem_cons.1 hmem with rfl | hmem
      · exact List.mem_cons_self
      · exact List.mem_cons_of_mem y (List.mem_append_left _ hmem)
    have hnext : y ≠ next i := by
      intro heq
      have hmem := h₂.next_mem
      rw [← heq] at hmem
      rcases List.mem_cons.1 hmem with rfl | hmem
      · exact hb List.mem_cons_self
      · exact hyl (List.mem_append_right _ (List.mem_cons_of_mem i hmem))
    refine ⟨?_, ?_, ih h.2.2 hb' hl' h₁.2.2 ⟩
    · rw [Function.update_of_ne hprev]
      exact h.1
    · rw [Function.update_of_ne hnext]
      exact h.2.1

theorem Linked.follow_eq (h : Linked next prev b a l) (hb : b ∉ l) {n : Nat} (hn : l.length < n) :
    follow next b n (next a) = l := by
  induction l generalizing a n with
  | nil =>
    cases n with
    | zero => exact absurd hn (Nat.not_lt_zero _)
    | succ n => rw [h.1, follow, if_pos rfl]
  | cons x l ih =>
    obtain ⟨n, rfl⟩ := Nat.exists_eq_add_of_le' (Nat.one_le_of_lt hn)
    have hxb : x ≠ b := fun heq => hb (heq ▸ List.mem_cons_self)
    rw [h.1, follow, if_neg hxb,
      ih h.2.2 (fun hmem => hb (List.mem_cons_of_mem x hmem)) (Nat.lt_of_succ_lt_succ hn)]

theorem Linked.follow_back (h : Linked next prev b a l) (ha : a ∉ l) {n : Nat}
    (hn : l.length < n) : follow prev a n (prev b) = l.reverse := by
  apply (linked_reverse.2 h).follow_eq
  · simpa using ha
  · simpa using hn

end

end OmegaRed.Lib.LinkedRing
