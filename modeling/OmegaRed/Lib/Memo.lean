import Mathlib.Data.List.Basic
import Mathlib.Logic.Function.Basic

/-! A cache that computes an object for the first request with a key and returns it for every
later one.  Objects are referred to by their place in a heap that only grows. -/

namespace OmegaRed.Lib.Memo

universe u v w t

variable {ι : Type u} {κ : Type v} {α : Type w} {β : Type t}

structure Cache (κ : Type v) (α : Type w) where
  index : κ → Option Nat
  heap : List α

namespace Cache

def empty : Cache κ α := ⟨fun _ => none, []⟩

section

variable [DecidableEq κ] (key : ι → κ) (compute : ι → α)

/-- A request, with the place of the object that it gets. -/
def request (c : Cache κ α) (r : ι) : Cache κ α × Nat :=
  match c.index (key r) with
  | some i => (c, i)
  | none =>
    (⟨Function.update c.index (key r) (some c.heap.length), c.heap ++ [compute r]⟩, c.heap.length)

def serve (c : Cache κ α) (rs : List ι) : Cache κ α :=
  rs.foldl (fun c r => (c.request key compute r).1) c

/-- The keys of the requests so far are indexed, each with the object of the first request. -/
def Holds (rs : List ι) (c : Cache κ α) : Prop :=
  ∀ k, match c.index k with
    | none => rs.find? (key · = k) = none
    | some i => ∃ q, rs.find? (key · = k) = some q ∧ c.heap[i]? = some (compute q)

end

variable [DecidableEq κ] {key : ι → κ} {compute : ι → α} {c : Cache κ α}

theorem heap_request (c : Cache κ α) (r : ι) : c.heap <+: (c.request key compute r).1.heap := by
  unfold request
  split
  · exact List.prefix_refl _
  · exact List.prefix_append ..

theorem heap_serve (c : Cache κ α) (rs : List ι) : c.heap <+: (c.serve key compute rs).heap := by
  induction rs generalizing c with
  | nil => exact List.prefix_refl _
  | cons r rs ih => exact (heap_request c r).trans (ih _)

/-- An object stays where it is. -/
theorem getElem?_serve {i : Nat} {a : α} (h : c.heap[i]? = some a) (rs : List ι) :
    (c.serve key compute rs).heap[i]? = some a := by
  obtain ⟨l, hl⟩ : c.heap <+: (c.serve key compute rs).heap := heap_serve c rs
  rw [← hl, List.getElem?_append_left (List.getElem?_eq_some_iff.1 h).1, h]

theorem holds_empty : Holds key compute [] (empty : Cache κ α) := fun _ => rfl

theorem find?_append_singleton (rs : List ι) (r : ι) (k : κ) :
    (rs ++ [r]).find? (key · = k) =
      (rs.find? (key · = k)).or (if key r = k then some r else none) := by
  rw [List.find?_append, List.find?_singleton]
  simp only [decide_eq_true_eq]

/-- The object of a request is the one computed for the first request with its key. -/
theorem Holds.request {rs : List ι} (h : Holds key compute rs c) (r : ι) :
    Holds key compute (rs ++ [r]) (c.request key compute r).1 ∧
      (c.request key compute r).1.heap[(c.request key compute r).2]? =
        ((rs ++ [r]).find? (key · = key r)).map compute := by
  have hr := h (key r)
  unfold Cache.request
  split at hr
  · rename_i hnone
    rw [hnone]
    dsimp only
    constructor
    · intro k
      by_cases hk : k = key r
      · subst hk
        dsimp only
        rw [Function.update_self]
        refine ⟨r, ?_, ?_⟩
        · rw [find?_append_singleton, hr, if_pos rfl]
          rfl
        · exact List.getElem?_concat_length
      · dsimp only
        rw [Function.update_of_ne hk, find?_append_singleton, if_neg fun h => hk h.symm,
          Option.or_none]
        have hother := h k
        split at hother
        · exact hother
        · obtain ⟨q, hq, hheap⟩ := hother
          refine ⟨q, hq, ?_⟩
          rw [List.getElem?_append_left (List.getElem?_eq_some_iff.1 hheap).1, hheap]
    · rw [find?_append_singleton, hr, if_pos rfl]
      exact List.getElem?_concat_length
  · rename_i i hsome
    rw [hsome]
    obtain ⟨q, hq, hheap⟩ := hr
    constructor
    · intro k
      rw [find?_append_singleton]
      have hother := h k
      split at hother
      · rename_i hi
        rw [hi, hother]
        have hne : key r ≠ k := fun hk => by
          rw [hk, hi] at hsome
          cases hsome
        rw [if_neg hne]
        rfl
      · rename_i hi
        rw [hi]
        obtain ⟨q', hq', hheap'⟩ := hother
        exact ⟨q', by rw [hq']; rfl, hheap'⟩
    · rw [find?_append_singleton, hq]
      exact hheap

theorem Holds.serve {rs : List ι} (h : Holds key compute rs c) (rs' : List ι) :
    Holds key compute (rs ++ rs') (c.serve key compute rs') := by
  induction rs' generalizing c rs with
  | nil =>
    rw [List.append_nil]
    exact h
  | cons r rs' ih =>
    have hrest := ih (h.request r).1
    rwa [List.append_assoc] at hrest

theorem serve_append (rs rs' : List ι) :
    c.serve key compute (rs ++ rs') = (c.serve key compute rs).serve key compute rs' :=
  List.foldl_append ..

/-- What a request of a history refers to at the end of it. -/
theorem getElem?_answer (rs : List ι) (r : ι) (rs' : List ι) :
    (serve key compute (empty : Cache κ α) (rs ++ r :: rs')).heap[
      ((serve key compute empty rs).request key compute r).2]? =
        ((rs ++ [r]).find? (key · = key r)).map compute := by
  have hempty : Holds key compute [] (empty : Cache κ α) := holds_empty
  have hanswer := ((hempty.serve rs).request r).2
  rw [List.nil_append] at hanswer
  obtain ⟨q, hq⟩ : ∃ q, (rs ++ [r]).find? (key · = key r) = some q := by
    rw [← Option.isSome_iff_exists, List.find?_isSome]
    exact ⟨r, List.mem_append_right _ (List.mem_singleton_self r), decide_eq_true rfl⟩
  rw [hq] at hanswer ⊢
  rw [serve_append]
  exact getElem?_serve hanswer rs'

/-- All requests of a history get what is computed for them exactly if requests with the same key
ask for the same. -/
theorem answers_iff (key : ι → κ) (compute : ι → α) (view : α → β) (rs : List ι) :
    (∀ rs₁ r rs₂, rs = rs₁ ++ r :: rs₂ →
      (serve key compute (empty : Cache κ α) rs).heap[
        ((serve key compute empty rs₁).request key compute r).2]?.map view =
          some (view (compute r))) ↔
    ∀ r ∈ rs, ∀ r' ∈ rs, key r = key r' → view (compute r) = view (compute r') := by
  constructor
  · intro h
    have hfirst : ∀ r ∈ rs, ∃ q, rs.find? (key · = key r) = some q ∧
        view (compute q) = view (compute r) := by
      intro r hr
      obtain ⟨rs₁, rs₂, rfl⟩ := List.append_of_mem hr
      have hanswer := h rs₁ r rs₂ rfl
      rw [getElem?_answer] at hanswer
      obtain ⟨_, hmap, hview⟩ := Option.map_eq_some_iff.1 hanswer
      obtain ⟨q, hq, rfl⟩ := Option.map_eq_some_iff.1 hmap
      refine ⟨q, ?_, hview⟩
      rw [List.append_cons, List.find?_append, hq]
      rfl
    intro r hr r' hr' hkey
    obtain ⟨q, hq, hview⟩ := hfirst r hr
    obtain ⟨q', hq', hview'⟩ := hfirst r' hr'
    rw [hkey, hq'] at hq
    obtain rfl := Option.some.inj hq
    exact hview.symm.trans hview'
  · rintro h rs₁ r rs₂ rfl
    rw [getElem?_answer]
    obtain ⟨q, hq⟩ : ∃ q, (rs₁ ++ [r]).find? (key · = key r) = some q := by
      rw [← Option.isSome_iff_exists, List.find?_isSome]
      exact ⟨r, List.mem_append_right _ (List.mem_singleton_self r), decide_eq_true rfl⟩
    rw [hq]
    have hmem : q ∈ rs₁ ++ r :: rs₂ := by
      rw [List.append_cons]
      exact List.mem_append_left _ (List.mem_of_find?_eq_some hq)
    have hkey : key q = key r := by simpa using List.find?_some hq
    exact congrArg some (h q hmem r (List.mem_append_right _ (List.mem_cons_self ..)) hkey)

end Cache

/-- The requests of one kind in a mixed history. -/
theorem forall_split_iff {γ : Type t} {f : γ → Option ι} {mk : ι → γ}
    (hf : ∀ q r, f q = some r ↔ q = mk r) (P : List ι → ι → Prop) (qs : List γ) :
    (∀ before r after, qs = before ++ mk r :: after → P (before.filterMap f) r) ↔
      ∀ rs₁ r rs₂, qs.filterMap f = rs₁ ++ r :: rs₂ → P rs₁ r := by
  constructor
  · intro h rs₁ r rs₂ heq
    obtain ⟨l₁, l₂, rfl, rfl, hl₂⟩ := List.filterMap_eq_append_iff.1 heq
    obtain ⟨l₂, q, l₃, rfl, hnone, hq, rfl⟩ := List.filterMap_eq_cons_iff.1 hl₂
    obtain rfl := (hf q r).1 hq
    have hP := h (l₁ ++ l₂) r l₃ (by rw [List.append_assoc])
    rwa [List.filterMap_append, List.filterMap_eq_nil_iff.2 hnone, List.append_nil] at hP
  · rintro h before r after rfl
    apply h _ r (after.filterMap f)
    rw [List.filterMap_append, List.filterMap_cons_some ((hf _ r).2 rfl)]

end OmegaRed.Lib.Memo
