import Mathlib.Data.List.Basic
import Mathlib.Tactic.Common
import Mathlib.Logic.Relation

/-! Runs of a machine that takes labelled steps and may refuse some.  A monitor of such runs,
which reads what they have written, is a machine of the same kind. -/

namespace OmegaRed.Lib.Traces

universe u v

variable {σ : Type u} {α : Type v} {step : σ → α → Option σ} {ok : σ → α → Prop}

def run (step : σ → α → Option σ) : σ → List α → Option σ
  | s, [] => some s
  | s, a :: as => (step s a).bind fun t => run step t as

/-- Every step of the run from here on meets `ok`. -/
def Meets (step : σ → α → Option σ) (ok : σ → α → Prop) : σ → List α → Prop
  | _, [] => True
  | s, a :: as => ok s a ∧ ∀ t, step s a = some t → Meets step ok t as

instance [∀ s a, Decidable (ok s a)] : ∀ s as, Decidable (Meets step ok s as)
  | _, [] => isTrue trivial
  | s, a :: as =>
    have : Decidable (∀ t, step s a = some t → Meets step ok t as) :=
      match step s a with
      | none => isTrue nofun
      | some t =>
        have := instDecidableMeets t as
        decidable_of_iff (Meets step ok t as) ⟨fun h _ heq => Option.some.inj heq ▸ h, fun h => h t rfl⟩
    inferInstanceAs (Decidable (_ ∧ _))

theorem run_append (s : σ) (as bs : List α) :
    run step s (as ++ bs) = (run step s as).bind fun t => run step t bs := by
  induction as generalizing s with
  | nil => rfl
  | cons a as ih =>
    simp only [List.cons_append, run, Option.bind_assoc]
    congr 1
    funext t
    exact ih t

/-- A run that has come to `t` goes on from there. -/
theorem run_append_of_eq {s t : σ} {as : List α} (h : run step s as = some t) (bs : List α) :
    run step s (as ++ bs) = run step t bs := by
  rw [run_append, h, Option.bind_some]

/-- What every step that meets `ok` preserves, every run of such steps preserves. -/
theorem invariant {Inv : σ → Prop}
    (hstep : ∀ s a t, Inv s → ok s a → step s a = some t → Inv t) {as : List α} {s t : σ}
    (hmeets : Meets step ok s as) (hrun : run step s as = some t) (hs : Inv s) : Inv t := by
  induction as generalizing s with
  | nil =>
    cases hrun
    exact hs
  | cons a as ih =>
    obtain ⟨r, hr, hrest⟩ := Option.bind_eq_some_iff.mp hrun
    exact ih (hmeets.2 r hr) hrest (hstep s a r hs hmeets.1 hr)

/-- Where every step that meets `ok` is taken, every run of such steps comes to its end. -/
theorem total {Inv : σ → Prop}
    (hstep : ∀ s a, Inv s → ok s a → ∃ t, step s a = some t ∧ Inv t) {as : List α} {s : σ}
    (hmeets : Meets step ok s as) (hs : Inv s) : ∃ t, run step s as = some t ∧ Inv t := by
  induction as generalizing s with
  | nil => exact ⟨s, rfl, hs⟩
  | cons a as ih =>
    obtain ⟨r, hr, hinv⟩ := hstep s a hs hmeets.1
    obtain ⟨t, hrun, ht⟩ := ih (hmeets.2 r hr) hinv
    exact ⟨t, by rw [run, hr, Option.bind_some, hrun], ht⟩

/-- Where exactly the steps that meet `ok` are taken, so are the runs. -/
theorem isSome_run_iff (hstep : ∀ s a, (step s a).isSome ↔ ok s a) (s : σ) (as : List α) :
    (run step s as).isSome ↔ Meets step ok s as := by
  induction as generalizing s with
  | nil => exact iff_of_true rfl trivial
  | cons a as ih =>
    rw [run, Meets, ← hstep]
    cases step s a with
    | none => exact iff_of_false Bool.false_ne_true fun h => absurd h.1 Bool.false_ne_true
    | some t =>
      rw [Option.bind_some, ih]
      exact ⟨fun h => ⟨rfl, fun _ ht => Option.some.inj ht ▸ h⟩, fun h => h.2 t rfl⟩

theorem Meets.mono {ok' : σ → α → Prop} (h : ∀ s a, ok s a → ok' s a) {s : σ} {as : List α}
    (hmeets : Meets step ok s as) : Meets step ok' s as := by
  induction as generalizing s with
  | nil => trivial
  | cons a as ih => exact ⟨h s a hmeets.1, fun t ht => ih (hmeets.2 t ht)⟩

theorem Meets.of_mem {s : σ} {as : List α} (h : ∀ a ∈ as, ∀ s, ok s a) : Meets step ok s as := by
  induction as generalizing s with
  | nil => trivial
  | cons a as ih =>
    obtain ⟨ha, has⟩ := List.forall_mem_cons.mp h
    exact ⟨ha s, fun t _ => ih has⟩

theorem Meets.and {ok' : σ → α → Prop} {s : σ} {as : List α} (h : Meets step ok s as)
    (h' : Meets step ok' s as) : Meets step (fun s a => ok s a ∧ ok' s a) s as := by
  induction as generalizing s with
  | nil => trivial
  | cons a as ih => exact ⟨⟨h.1, h'.1⟩, fun t ht => ih (h.2 t ht) (h'.2 t ht)⟩

end OmegaRed.Lib.Traces

/-! Runs of a step relation. -/

namespace OmegaRed.Lib.Run

universe u

variable {σ : Type u} {Step : σ → σ → Prop} {Inv : σ → Prop}

/-- What one step preserves, every run preserves. -/
theorem invariant (hstep : ∀ s t, Inv s → Step s t → Inv t) {s t : σ}
    (h : Relation.ReflTransGen Step s t) (hs : Inv s) : Inv t := by
  induction h with
  | refl => exact hs
  | tail _ hst ih => exact hstep _ _ ih hst

/-- What a run from the next state comes to, a run from this one comes to. -/
theorem reaches_of_step {P : σ → Prop} {s t : σ} (h : Step s t)
    (ht : ∃ u, Relation.ReflTransGen Step t u ∧ P u) :
    ∃ u, Relation.ReflTransGen Step s u ∧ P u := by
  obtain ⟨u, hrun, hu⟩ := ht
  exact ⟨u, hrun.head h, hu⟩

end OmegaRed.Lib.Run

/-! Loops that check what they do, against loops that do not. -/

namespace OmegaRed.Lib

variable {α σ : Type} {f : σ → α → Option σ} {g : σ → α → σ}

/-- A loop none of whose checks fails is the loop without them. -/
theorem foldlM_eq_foldl (inv : σ → Prop) {l : List α}
    (h : ∀ s a, a ∈ l → inv s → f s a = some (g s a)) (hinv : ∀ s a, inv s → inv (g s a)) {s : σ}
    (hs : inv s) : l.foldlM f s = some (l.foldl g s) := by
  induction l generalizing s with
  | nil => rfl
  | cons a l ih =>
    rw [List.foldlM_cons, h s a List.mem_cons_self hs, List.foldl_cons]
    exact ih (fun s b hb => h s b (List.mem_cons_of_mem a hb)) (hinv s a hs)

theorem foldlM_isSome {l : List α} (h : ∀ s a, a ∈ l → (f s a).isSome) (s : σ) :
    (l.foldlM f s).isSome := by
  induction l generalizing s with
  | nil => rfl
  | cons a l ih =>
    obtain ⟨s', hs'⟩ := Option.isSome_iff_exists.mp (h s a List.mem_cons_self)
    rw [List.foldlM_cons, hs']
    exact ih (fun s b hb => h s b (List.mem_cons_of_mem a hb)) s'

/-- Where exactly the rounds on elements that meet `ok` are taken, so is the loop over them. -/
theorem foldlM_isSome_iff {ok : α → Prop} {l : List α} (h : ∀ s, ∀ a ∈ l, (f s a).isSome ↔ ok a)
    (s : σ) : (l.foldlM f s).isSome ↔ ∀ a ∈ l, ok a := by
  induction l generalizing s with
  | nil => exact iff_of_true rfl fun _ ha => absurd ha List.not_mem_nil
  | cons a l ih =>
    have hhead := h s a List.mem_cons_self
    rw [List.foldlM_cons, List.forall_mem_cons, ← hhead]
    cases f s a with
    | none => exact iff_of_false Bool.false_ne_true fun hall => absurd hall.1 Bool.false_ne_true
    | some s' =>
      have htail := ih (fun s b hb => h s b (List.mem_cons_of_mem a hb)) s'
      exact htail.trans (iff_and_self.mpr fun _ => rfl)

theorem mapM_isSome_iff {β : Type} {g : α → Option β} (l : List α) :
    (l.mapM g).isSome ↔ ∀ a ∈ l, (g a).isSome := by
  induction l with
  | nil => exact iff_of_true rfl fun _ ha => absurd ha List.not_mem_nil
  | cons a l ih =>
    rw [List.mapM_cons, List.forall_mem_cons, ← ih]
    cases g a with
    | none => exact iff_of_false Bool.false_ne_true fun hall => absurd hall.1 Bool.false_ne_true
    | some b =>
      cases l.mapM g with
      | none => exact iff_of_false Bool.false_ne_true fun hall => absurd hall.2 Bool.false_ne_true
      | some bs => exact iff_of_true rfl ⟨rfl, rfl⟩

end OmegaRed.Lib
