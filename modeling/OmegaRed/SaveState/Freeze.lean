import Mathlib.Data.List.Basic
import Mathlib.Tactic.Ring

/-! Loading a savestate: the primitives of `memLoadingState` and the routines built on them. -/

namespace OmegaRed.SaveState

universe u v

/-- A copy of `size` bytes from `pos` in the buffer to an object of `room` bytes. -/
structure Access where
  pos : Int
  size : Int
  room : Int
  deriving DecidableEq

/-- The copy reads in the buffer only and writes in its object only. -/
def Access.Inside (length : Nat) (a : Access) : Prop :=
  a.size ≠ 0 → 0 ≤ a.pos ∧ a.pos + a.size ≤ length ∧ 0 ≤ a.size ∧ a.size ≤ a.room

instance (length : Nat) (a : Access) : Decidable (a.Inside length) :=
  inferInstanceAs (Decidable (_ → _))

def Access.Proper (a : Access) : Prop := 0 ≤ a.size ∧ a.size ≤ a.room

/-- The state buffer. Its first `length` bytes are the file's, the others what lies around it. -/
structure StateBuffer where
  memory : Int → UInt8
  length : Nat
  length_lt : length < 2 ^ 31

def StateBuffer.read (b : StateBuffer) (pos size : Int) : List UInt8 :=
  (List.range size.toNat).map fun i : Nat => b.memory (pos + i)

@[simp] theorem StateBuffer.length_read (b : StateBuffer) (pos size : Int) :
    (b.read pos size).length = size.toNat := by
  simp [read]

/-- A routine of freezes. What has been read decides how it goes on. -/
inductive Routine (α : Type u) : Type u
  | done (a : α)
  | freezeMem (room : Nat) (size : Int) (k : List UInt8 → Routine α)
  | freezeTag (src : List UInt8) (k : Routine α)
  /-- `PrepBlock`, the reading of the block by its owner, `CommitBlock`. -/
  | block (size : Int) (k : List UInt8 → Routine α)

inductive LoadError
  | saveStateLoadError
  deriving DecidableEq

/-- A run: its result, where `m_idx` stands, and the copies made. -/
structure Run (α : Type u) where
  result : Except LoadError α
  idx : Int
  accesses : List Access

def Run.after {α : Type u} (r : Run α) (a : Access) : Run α :=
  { r with accesses := a :: r.accesses }

/-- `strcmp(m_tagspace, src) == 0` -/
def sameTag (tagspace src : List UInt8) : Bool :=
  tagspace.take (src.length + 1) = src ++ [0]

namespace Routine

variable {α : Type u} {β : Type v}

def bind : Routine α → (α → Routine β) → Routine β
  | done a, f => f a
  | freezeMem room size k, f => freezeMem room size fun bytes => (k bytes).bind f
  | freezeTag src k, f => freezeTag src (k.bind f)
  | block size k, f => block size fun bytes => (k bytes).bind f

variable (b : StateBuffer)

def run : Routine α → Int → Run α
  | done a, idx => ⟨.ok a, idx, []⟩
  | freezeMem room size k, idx =>
    (run (k (b.read idx size)) (idx + size)).after ⟨idx, size, room⟩
  | freezeTag src k, idx =>
    let rest :=
      if sameTag (b.read idx 32) src then run k (idx + 32)
      else ⟨.error .saveStateLoadError, idx + 32, []⟩
    rest.after ⟨idx, 32, 32⟩
  | block size k, idx =>
    let blockEnd := (idx + size).bmod (2 ^ 32)
    if b.length < blockEnd then ⟨.error .saveStateLoadError, idx, []⟩
    else (run (k (b.read idx size)) (idx + size)).after ⟨idx, size, size⟩

/-- Every copy of the run is inside. -/
def Safe (r : Routine α) (idx : Int) : Prop := ∀ a ∈ (r.run b idx).accesses, a.Inside b.length

/-- The sizes are those of the objects, and the run has asked for no more than there is. -/
def Fits (r : Routine α) (idx : Int) : Prop :=
  (∀ a ∈ (r.run b idx).accesses, a.Proper) ∧ (r.run b idx).idx ≤ b.length

end Routine

theorem Run.forall_after {α : Type u} {r : Run α} {a : Access} {p : Access → Prop} :
    (∀ x ∈ (r.after a).accesses, p x) ↔ p a ∧ ∀ x ∈ r.accesses, p x :=
  List.forall_mem_cons

@[simp] theorem Run.idx_after {α : Type u} (r : Run α) (a : Access) : (r.after a).idx = r.idx := rfl

@[simp] theorem Run.result_after {α : Type u} (r : Run α) (a : Access) :
    (r.after a).result = r.result := rfl

theorem Run.safe_after_iff {α : Type u} {r : Run α} {length : Nat} {idx size room : Int}
    (h0 : 0 ≤ idx) (hle : idx ≤ length) (hroom : size = 0 → 0 ≤ room)
    (hmono : (∀ a ∈ r.accesses, a.Proper) → idx + size ≤ r.idx)
    (ih : 0 ≤ idx + size → idx + size ≤ length →
      ((∀ a ∈ r.accesses, a.Inside length) ↔ (∀ a ∈ r.accesses, a.Proper) ∧ r.idx ≤ length)) :
    (∀ a ∈ (r.after ⟨idx, size, room⟩).accesses, a.Inside length) ↔
      (∀ a ∈ (r.after ⟨idx, size, room⟩).accesses, a.Proper) ∧ r.idx ≤ length := by
  rw [Run.forall_after, Run.forall_after]
  constructor
  · rintro ⟨ha, hrest⟩
    have hin : 0 ≤ size ∧ size ≤ room ∧ idx + size ≤ length := by
      by_cases hsize : size = 0
      · have hroom := hroom hsize
        omega
      · obtain ⟨-, hend, hpos, hfit⟩ := ha hsize
        exact ⟨hpos, hfit, hend⟩
    obtain ⟨hpos, hfit, hend⟩ := hin
    obtain ⟨hproper, hidx⟩ := (ih (by omega) hend).mp hrest
    exact ⟨⟨⟨hpos, hfit⟩, hproper⟩, hidx⟩
  · rintro ⟨⟨ha, hproper⟩, hidx⟩
    obtain ⟨hpos, hfit⟩ : 0 ≤ size ∧ size ≤ room := ha
    have hend := hmono hproper
    have hend' : idx + size ≤ length := by omega
    exact ⟨fun _ => ⟨h0, hend', hpos, hfit⟩, (ih (by omega) hend').mpr ⟨hproper, hidx⟩⟩

theorem Run.safe_nil_iff {length : Nat} {idx : Int} (hle : idx ≤ length) :
    (∀ a ∈ ([] : List Access), a.Inside length) ↔
      (∀ a ∈ ([] : List Access), a.Proper) ∧ idx ≤ length := by
  simp [hle]

namespace Routine

variable {α : Type u} (b : StateBuffer)

theorem le_idx_run (r : Routine α) (idx : Int) (h : ∀ a ∈ (r.run b idx).accesses, a.Proper) :
    idx ≤ (r.run b idx).idx := by
  induction r generalizing idx with
  | done a => exact Int.le_refl _
  | freezeMem room size k ih =>
    obtain ⟨ha, hrest⟩ := Run.forall_after.mp h
    have hle := ih _ _ hrest
    have hpos : 0 ≤ size := ha.1
    simp only [run, Run.idx_after]
    omega
  | freezeTag src k ih =>
    obtain ⟨-, hrest⟩ := Run.forall_after.mp h
    simp only [run, Run.idx_after]
    split
    · rename_i htag
      rw [if_pos htag] at hrest
      have hle := ih _ hrest
      omega
    · simp only
      omega
  | block size k ih =>
    simp only [run] at h ⊢
    split
    · exact Int.le_refl _
    · rename_i hle
      rw [if_neg hle] at h
      obtain ⟨ha, hrest⟩ := Run.forall_after.mp h
      have hle := ih _ _ hrest
      have hpos : 0 ≤ size := ha.1
      simp only [Run.idx_after]
      omega

/-- A routine stays inside exactly when the sizes are proper and the buffer holds what it asks
for. -/
theorem safe_iff (r : Routine α) {idx : Int} (h0 : 0 ≤ idx) (hle : idx ≤ b.length) :
    r.Safe b idx ↔ r.Fits b idx := by
  induction r generalizing idx with
  | done a => exact Run.safe_nil_iff hle
  | freezeMem room size k ih =>
    exact Run.safe_after_iff h0 hle (fun _ => Int.natCast_nonneg room) (le_idx_run b _ _) (ih _)
  | freezeTag src k ih =>
    refine Run.safe_after_iff h0 hle (fun h => absurd h (by decide)) ?_ ?_
    · split
      · exact le_idx_run b _ _
      · exact fun _ => Int.le_refl _
    · intro h0 hle
      split
      · exact ih h0 hle
      · exact Run.safe_nil_iff hle
  | block size k ih =>
    simp only [Safe, Fits, run]
    split
    · exact Run.safe_nil_iff hle
    · exact Run.safe_after_iff h0 hle (fun h => Int.le_of_eq h.symm) (le_idx_run b _ _) (ih _)

end Routine

end OmegaRed.SaveState
