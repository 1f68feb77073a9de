import Mathlib.Data.Fintype.Card
import Mathlib.Data.Set.Finite.Basic
import Mathlib.Logic.Relation

/-! Recursions over a graph that is given: when they end, and what they come to. -/

namespace OmegaRed.Lib.Walks

open Relation

variable {α τ ι : Type*}

/-- One place calls another. -/
def Calls (children : α → List α) (a b : α) : Prop := b ∈ children a

/-- The places that a recursion comes to. -/
abbrev Reaches (children : α → List α) : α → α → Prop := ReflTransGen (Calls children)

/-- The recursion comes back to a place. -/
def Cyclic (children : α → List α) (a : α) : Prop := TransGen (Calls children) a a

/-- The calls to come are finitely many deep. -/
abbrev Ends (children : α → List α) (a : α) : Prop := Acc (fun b a => Calls children a b) a

/-- A recursion that has a result as soon as all its calls have one. -/
structure Recursion (children : α → List α) (f : Nat → α → Option τ) : Prop where
  zero : ∀ a, f 0 a = none
  succ : ∀ n a, (f (n + 1) a).isSome ↔ ∀ b ∈ children a, (f n b).isSome

/-- The result of a recursion has on record what is found at its places. -/
structure Records (children : α → List α) (f : Nat → α → Option τ) (record : τ → List ι)
    (found : α → List ι) : Prop extends Recursion children f where
  mem : ∀ n a t, f (n + 1) a = some t → ∀ i, i ∈ record t ↔
    i ∈ found a ∨ ∃ b ∈ children a, ∃ u, f n b = some u ∧ i ∈ record u

/-- With enough fuel a recursion comes to a result. -/
def Eventually {τ : Type*} (f : Nat → Option τ) (t : τ) : Prop := ∃ n, ∀ m, n ≤ m → f m = some t

theorem Eventually.of_succ {f : Nat → Option τ} {t : τ} (h : Eventually (fun n => f (n + 1)) t) :
    Eventually f t := by
  obtain ⟨n, hn⟩ := h
  refine ⟨n + 1, fun m hm => ?_⟩
  obtain ⟨k, rfl⟩ := Nat.exists_eq_add_of_le' (Nat.one_le_of_lt hm)
  exact hn k (Nat.le_of_succ_le_succ hm)

theorem eventually_const {t : τ} : Eventually (fun _ => some t) t := ⟨0, fun _ _ => rfl⟩

theorem Eventually.map {σ : Type*} {f : Nat → Option τ} {t : τ} (h : Eventually f t) (g : τ → σ) :
    Eventually (fun n => (f n).map g) (g t) := by
  obtain ⟨n, hn⟩ := h
  exact ⟨n, fun m hm => congrArg (Option.map g) (hn m hm)⟩

theorem Eventually.bind {σ : Type*} {f : Nat → Option τ} {t : τ} {g : Nat → τ → Option σ} {u : σ}
    (h : Eventually f t) (hg : Eventually (fun n => g n t) u) :
    Eventually (fun n => (f n).bind (g n)) u := by
  obtain ⟨n, hn⟩ := h
  obtain ⟨k, hk⟩ := hg
  refine ⟨max n k, fun m hm => ?_⟩
  change (f m).bind (g m) = some u
  rw [hn m (Nat.le_trans (Nat.le_max_left n k) hm)]
  exact hk m (Nat.le_trans (Nat.le_max_right n k) hm)

/-- A fold comes to a result with a property that each of its steps comes to and keeps. -/
theorem Eventually.foldlM {σ : Type*} {f : Nat → τ → σ → Option τ} {l : List σ} {P : τ → Prop}
    (h : ∀ t, P t → ∀ x ∈ l, ∃ u, Eventually (fun n => f n t x) u ∧ P u) {t : τ} (ht : P t) :
    ∃ u, Eventually (fun n => l.foldlM (f n) t) u ∧ P u := by
  induction l generalizing t with
  | nil => exact ⟨t, eventually_const, ht⟩
  | cons x l ih =>
    obtain ⟨u, hu, hPu⟩ := h t ht x List.mem_cons_self
    obtain ⟨v, hv, hPv⟩ := ih (fun t ht y hy => h t ht y (List.mem_cons_of_mem x hy)) hPu
    exact ⟨v, hu.bind (g := fun n t => l.foldlM (f n) t) hv, hPv⟩

variable {children : α → List α} {f : Nat → α → Option τ} {record : τ → List ι}
  {found : α → List ι} {a b : α}

theorem Recursion.mono (h : Recursion children f) {n m : Nat} (hn : (f n a).isSome) (hm : n ≤ m) :
    (f m a).isSome := by
  induction n generalizing a m with
  | zero => exact absurd hn (by rw [h.zero]; exact Bool.false_ne_true)
  | succ n ih =>
    obtain ⟨k, rfl⟩ := Nat.exists_eq_add_of_le hm
    rw [Nat.add_right_comm, h.succ]
    exact fun b hb => ih ((h.succ n a).mp hn b hb) (Nat.le_add_right n k)

theorem Recursion.ends (h : Recursion children f) {n : Nat} (hn : (f n a).isSome) :
    Ends children a := by
  induction n generalizing a with
  | zero => exact absurd hn (by rw [h.zero]; exact Bool.false_ne_true)
  | succ n ih => exact .intro a fun b hb => ih ((h.succ n a).mp hn b hb)

/-- Enough fuel for each of some places is enough for all of them. -/
theorem Recursion.exists_fuel (h : Recursion children f) (l : List α)
    (hl : ∀ b ∈ l, ∃ n, (f n b).isSome) : ∃ n, ∀ b ∈ l, (f n b).isSome := by
  induction l with
  | nil => exact ⟨0, fun b hb => absurd hb List.not_mem_nil⟩
  | cons c l ih =>
    obtain ⟨n, hn⟩ := hl c List.mem_cons_self
    obtain ⟨m, hm⟩ := ih fun b hb => hl b (List.mem_cons_of_mem c hb)
    refine ⟨max n m, fun b hb => ?_⟩
    rcases List.mem_cons.mp hb with rfl | hb
    · exact h.mono hn (Nat.le_max_left n m)
    · exact h.mono (hm b hb) (Nat.le_max_right n m)

theorem Recursion.exists_isSome_iff (h : Recursion children f) :
    (∃ n, (f n a).isSome) ↔ Ends children a := by
  refine ⟨fun ⟨n, hn⟩ => h.ends hn, fun hacc => ?_⟩
  induction hacc with
  | intro a _ ih =>
    obtain ⟨n, hn⟩ := h.exists_fuel (children a) ih
    exact ⟨n + 1, (h.succ n a).mpr hn⟩

theorem Records.mem_iff (h : Records children f record found) {n : Nat} {t : τ}
    (ht : f n a = some t) (i : ι) :
    i ∈ record t ↔ ∃ b, Reaches children a b ∧ i ∈ found b := by
  induction n generalizing a t with
  | zero => exact absurd ht (by rw [h.zero]; nofun)
  | succ n ih =>
    rw [h.mem n a t ht]
    constructor
    · rintro (hi | ⟨b, hb, u, hu, hi⟩)
      · exact ⟨a, .refl, hi⟩
      · obtain ⟨c, hc, hi⟩ := (ih hu).mp hi
        exact ⟨c, .head hb hc, hi⟩
    · rintro ⟨c, hc, hi⟩
      rcases hc.cases_head with rfl | ⟨b, hb, hc⟩
      · exact Or.inl hi
      · have hsome := (h.succ n a).mp (ht ▸ rfl) b hb
        obtain ⟨u, hu⟩ := Option.isSome_iff_exists.mp hsome
        exact Or.inr ⟨b, hb, u, hu, (ih hu).mpr ⟨c, hc, hi⟩⟩

theorem not_cyclic_of_ends (h : Ends children a) (hb : Reaches children a b) :
    ¬ Cyclic children b := by
  induction h generalizing b with
  | intro a _ ih =>
    intro hcyc
    rcases hb.cases_head with rfl | ⟨c, hc, hb⟩
    · -- the cycle goes through a child, which reaches the place again
      obtain ⟨c, hc, hca⟩ := TransGen.head'_iff.mp hcyc
      exact ih c hc hca hcyc
    · exact ih c hc hb hcyc

/-- A recursion over finitely many places ends unless it comes back to one of them. -/
theorem ends_iff_not_cyclic (hfin : {b | Reaches children a b}.Finite) :
    Ends children a ↔ ∀ b, Reaches children a b → ¬ Cyclic children b := by
  refine ⟨fun h b => not_cyclic_of_ends h, fun h => ?_⟩
  have : Finite {b // Reaches children a b} := hfin
  let r (c b : {b // Reaches children a b}) : Prop := TransGen (Calls children) b.1 c.1
  have hwf : WellFounded r := by
    have : Std.Irrefl r := ⟨fun b => h b.1 b.2⟩
    have : IsTrans _ r := ⟨fun _ _ _ hcb hdc => hdc.trans hcb⟩
    exact Finite.wellFounded_of_trans_of_irrefl r
  have hall (b : {b // Reaches children a b}) : Ends children b.1 := by
    induction b using hwf.induction with
    | _ b ih => exact .intro b.1 fun c hc => ih ⟨c, b.2.tail hc⟩ (.single hc)
  exact hall ⟨a, .refl⟩

/-- A recursion gives a result with nothing but allowed findings on record exactly when it ends and
comes to no other findings. -/
theorem Records.inside_iff (h : Records children f record found) (ok : ι → Prop) :
    (∃ n t, f n a = some t ∧ ∀ i ∈ record t, ok i) ↔
      Ends children a ∧ ∀ b, Reaches children a b → ∀ i ∈ found b, ok i := by
  constructor
  · rintro ⟨n, t, ht, hok⟩
    exact ⟨h.ends (n := n) (ht ▸ rfl), fun b hb i hi => hok i ((h.mem_iff ht i).mpr ⟨b, hb, hi⟩)⟩
  · rintro ⟨hends, hok⟩
    obtain ⟨n, hn⟩ := h.exists_isSome_iff.mpr hends
    obtain ⟨t, ht⟩ := Option.isSome_iff_exists.mp hn
    refine ⟨n, t, ht, fun i hi => ?_⟩
    obtain ⟨b, hb, hi⟩ := (h.mem_iff ht i).mp hi
    exact hok b hb i hi

section Projection

variable {β : Type*} {children' : β → List β} {p : α → β}

/-- Places that are told apart by more than what decides their calls. -/
def Projects (children : α → List α) (children' : β → List β) (p : α → β) : Prop :=
  ∀ a, (children a).map p = children' (p a)

theorem Projects.calls_iff (h : Projects children children' p) {c : β} :
    Calls children' (p a) c ↔ ∃ b, Calls children a b ∧ p b = c := by
  rw [Calls, ← h a, List.mem_map]
  rfl

theorem Projects.ends_iff (h : Projects children children' p) :
    Ends children' (p a) ↔ Ends children a := by
  constructor
  · intro hends
    generalize hc : p a = c at hends
    induction hends generalizing a with
    | intro c _ ih =>
      subst hc
      exact .intro a fun b hb => ih (p b) (h.calls_iff.mpr ⟨b, hb, rfl⟩) rfl
  · intro hends
    induction hends with
    | intro a _ ih =>
      refine .intro _ fun c hc => ?_
      obtain ⟨b, hb, rfl⟩ := h.calls_iff.mp hc
      exact ih b hb

theorem Projects.reaches_iff (h : Projects children children' p) {c : β} :
    Reaches children' (p a) c ↔ ∃ b, Reaches children a b ∧ p b = c := by
  constructor
  · intro hc
    induction hc with
    | refl => exact ⟨a, .refl, rfl⟩
    | tail _ hcall ih =>
      obtain ⟨b, hb, rfl⟩ := ih
      obtain ⟨d, hd, rfl⟩ := h.calls_iff.mp hcall
      exact ⟨d, hb.tail hd, rfl⟩
  · rintro ⟨b, hb, rfl⟩
    exact hb.lift p fun x y hxy => h.calls_iff.mpr ⟨y, hxy, rfl⟩

end Projection

end OmegaRed.Lib.Walks
