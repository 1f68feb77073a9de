import Mathlib.Data.List.Induction
import Mathlib.Data.List.Nodup
import Mathlib.Tactic.Common

/-! The debugger's list of breakpoints. -/

namespace OmegaRed.DebugTools

def standardizeBreakpointAddress (addr : UInt32) : UInt32 :=
  if addr ≥ 0xffff8000 then addr
  else
    let addr := if addr ≥ 0xbfc00000 ∧ addr ≤ 0xbfffffff then addr &&& 0x1fffffff else addr
    let addr := addr &&& 0x7fffffff
    if addr >>> 28 = 2 ∨ addr >>> 28 = 3 then addr &&& ~~~((0xf : UInt32) <<< 28) else addr

/-- Without the condition itself, which no operation here looks at. -/
structure BreakPoint where
  addr : UInt32
  enabled : Bool
  temporary : Bool
  hasCond : Bool
  deriving DecidableEq

/-- Does the breakpoint stand at the same standardized address? -/
def BreakPoint.isAt (addr : UInt32) (b : BreakPoint) : Bool :=
  standardizeBreakpointAddress b.addr == standardizeBreakpointAddress addr

namespace CBreakPoints

variable (breakPoints : List BreakPoint)

def findBreakpoint (addr : UInt32) (matchTemp temp : Bool) : Option Nat :=
  breakPoints.findIdx? fun b => b.isAt addr && (!matchTemp || b.temporary == temp)

def isEnabled (bp : Option Nat) : Bool := (bp.bind (breakPoints[·]?)).any BreakPoint.enabled

def isAddressBreakPoint (addr : UInt32) : Bool :=
  isEnabled breakPoints (findBreakpoint breakPoints addr false false) ||
    isEnabled breakPoints (findBreakpoint breakPoints addr true true)

def addBreakPoint (addr : UInt32) (temp : Bool) : List BreakPoint :=
  match findBreakpoint breakPoints addr true temp with
  | none => breakPoints ++ [⟨addr, true, temp, false⟩]
  | some bp => breakPoints.modify bp fun b =>
    if b.enabled then b else { b with enabled := true, hasCond := false }

def eraseFirst (addr : UInt32) : List BreakPoint :=
  match findBreakpoint breakPoints addr false false with
  | none => breakPoints
  | some bp => breakPoints.eraseIdx bp

/-- The second time for an overlapping temporary breakpoint. -/
def removeBreakPoint (addr : UInt32) : List BreakPoint :=
  match findBreakpoint breakPoints addr false false with
  | none => breakPoints
  | some bp => eraseFirst (breakPoints.eraseIdx bp) addr

def changeBreakPoint (addr : UInt32) (status : Bool) : List BreakPoint :=
  match findBreakpoint breakPoints addr false false with
  | none => breakPoints
  | some bp => breakPoints.modify bp fun b => { b with enabled := status }

/-- The loop of `ClearTemporaryBreakPoints` over the indices below the given one, downwards. -/
def eraseTemporary (breakPoints : List BreakPoint) : Nat → List BreakPoint
  | 0 => breakPoints
  | i + 1 =>
    if breakPoints[i]?.any BreakPoint.temporary then eraseTemporary (breakPoints.eraseIdx i) i
    else eraseTemporary breakPoints i

def clearTemporaryBreakPoints : List BreakPoint := eraseTemporary breakPoints breakPoints.length

inductive Op
  | addBreakPoint (addr : UInt32) (temp : Bool)
  | removeBreakPoint (addr : UInt32)
  | changeBreakPoint (addr : UInt32) (status : Bool)
  | clearTemporaryBreakPoints
  | clearAllBreakPoints

def step : Op → List BreakPoint
  | .addBreakPoint addr temp => addBreakPoint breakPoints addr temp
  | .removeBreakPoint addr => removeBreakPoint breakPoints addr
  | .changeBreakPoint addr status => changeBreakPoint breakPoints addr status
  | .clearTemporaryBreakPoints => clearTemporaryBreakPoints breakPoints
  | .clearAllBreakPoints => []

/-- The list after the operations, from the empty one. -/
def run (ops : List Op) : List BreakPoint := ops.foldl step []

/-- What the list is for: at most one breakpoint of either kind at an address, the address being
one exactly when one of them is enabled, and none once it is removed. -/
structure Sound (addr : UInt32) : Prop where
  single : ∀ temp, (breakPoints.filter fun b => b.isAt addr && b.temporary == temp).length ≤ 1
  query : isAddressBreakPoint breakPoints addr = true ↔
    ∃ b ∈ breakPoints, b.isAt addr = true ∧ b.enabled = true
  removed : ∀ b ∈ removeBreakPoint breakPoints addr, b.isAt addr = false

/-- The breakpoints at the address are a disabled temporary one and, behind it, an enabled one. -/
def Shadowed (addr : UInt32) : Prop :=
  ∃ t p, breakPoints.filter (·.isAt addr) = [t, p] ∧ t.temporary = true ∧ t.enabled = false ∧
    p.enabled = true

/-! ## One breakpoint of either kind at an address -/

/-- What the list is to hold at most once. -/
def key (b : BreakPoint) : UInt32 × Bool := (standardizeBreakpointAddress b.addr, b.temporary)

def Unique : Prop := (breakPoints.map key).Nodup

variable {breakPoints}

theorem isAt_and_kind (addr : UInt32) (temp : Bool) (b : BreakPoint) :
    (b.isAt addr && b.temporary == temp) = (key b == (standardizeBreakpointAddress addr, temp)) := by
  simp [BreakPoint.isAt, key, Bool.beq_eq_decide_eq, Prod.ext_iff]

theorem Unique.sublist {l : List BreakPoint} (h : Unique breakPoints)
    (hs : l.Sublist breakPoints) : Unique l :=
  List.Nodup.sublist (hs.map key) h

theorem Unique.modify (h : Unique breakPoints) (i : Nat) {f : BreakPoint → BreakPoint}
    (hf : ∀ b, key (f b) = key b) : Unique (breakPoints.modify i f) := by
  have hk : (breakPoints.modify i f).map key = breakPoints.map key := by
    apply List.ext_getElem?
    intro j
    rw [List.getElem?_map, List.getElem?_map, List.getElem?_modify]
    cases breakPoints[j]? with
    | none => rfl
    | some b => by_cases hj : i = j <;> simp [hj, hf]
  rw [Unique, hk]
  exact h

theorem Unique.addBreakPoint (h : Unique breakPoints) (addr : UInt32) (temp : Bool) :
    Unique (addBreakPoint breakPoints addr temp) := by
  unfold CBreakPoints.addBreakPoint
  split
  next hn =>
    simp only [findBreakpoint, Bool.not_true, Bool.false_or, List.findIdx?_eq_none_iff,
      isAt_and_kind, beq_eq_false_iff_ne] at hn
    unfold Unique
    rw [List.map_append, List.nodup_append]
    refine ⟨h, by simp, ?_⟩
    intro k hk k' hk' he
    obtain ⟨b, hb, rfl⟩ := List.mem_map.1 hk
    simp only [List.map_cons, List.map_nil, List.mem_singleton] at hk'
    exact hn b hb (he.trans hk')
  next bp _ => exact h.modify bp fun b => by split <;> rfl

theorem eraseFirst_eq (addr : UInt32) :
    eraseFirst breakPoints addr = breakPoints.eraseP (·.isAt addr) := by
  unfold eraseFirst findBreakpoint
  rw [List.eraseP_eq_eraseIdx]
  simp only [Bool.not_false, Bool.true_or, Bool.and_true]
  cases breakPoints.findIdx? (·.isAt addr) <;> rfl

theorem removeBreakPoint_eq (addr : UInt32) :
    removeBreakPoint breakPoints addr = (breakPoints.eraseP (·.isAt addr)).eraseP (·.isAt addr) := by
  rw [← eraseFirst_eq, ← eraseFirst_eq]
  unfold removeBreakPoint
  cases h : findBreakpoint breakPoints addr false false with
  | none => simp only [eraseFirst, h]
  | some bp => rw [eraseFirst.eq_def breakPoints, h]

theorem eraseTemporary_append (l k : List BreakPoint) :
    eraseTemporary (l ++ k) l.length = l.filter (!·.temporary) ++ k := by
  induction l using List.reverseRecOn generalizing k with
  | nil => rfl
  | append_singleton l b ih =>
    have hb : (l ++ b :: k)[l.length]? = some b := by simp
    have he : (l ++ b :: k).eraseIdx l.length = l ++ k := by
      rw [List.eraseIdx_append_of_length_le (Nat.le_refl _), Nat.sub_self]
      rfl
    rw [List.append_assoc, List.length_append, List.length_singleton, eraseTemporary,
      List.singleton_append, hb, he, ih, ih]
    cases ht : b.temporary <;> simp [ht]

theorem clearTemporaryBreakPoints_eq :
    clearTemporaryBreakPoints breakPoints = breakPoints.filter (!·.temporary) := by
  simpa [clearTemporaryBreakPoints] using eraseTemporary_append breakPoints []

theorem Unique.step (h : Unique breakPoints) (op : Op) : Unique (step breakPoints op) := by
  cases op with
  | addBreakPoint addr temp => exact h.addBreakPoint addr temp
  | removeBreakPoint addr =>
    rw [CBreakPoints.step, removeBreakPoint_eq]
    exact h.sublist ((List.eraseP_sublist).trans List.eraseP_sublist)
  | changeBreakPoint addr status =>
    rw [CBreakPoints.step, changeBreakPoint]
    split
    · exact h
    · exact h.modify _ fun _ => rfl
  | clearTemporaryBreakPoints =>
    rw [CBreakPoints.step, clearTemporaryBreakPoints_eq]
    exact h.sublist List.filter_sublist
  | clearAllBreakPoints => exact List.nodup_nil

theorem Unique.foldl (h : Unique breakPoints) (ops : List Op) :
    Unique (ops.foldl CBreakPoints.step breakPoints) := by
  induction ops generalizing breakPoints with
  | nil => exact h
  | cons op ops ih => exact ih (h.step op)

theorem unique_run (ops : List Op) : Unique (run ops) :=
  Unique.foldl (show Unique [] from List.nodup_nil) ops

theorem Unique.single (h : Unique breakPoints) (addr : UInt32) (temp : Bool) :
    (breakPoints.filter fun b => b.isAt addr && b.temporary == temp).length ≤ 1 := by
  simp only [isAt_and_kind, ← List.countP_eq_length_filter]
  have hc := List.nodup_iff_count.1 h (standardizeBreakpointAddress addr, temp)
  rwa [List.count, List.countP_map] at hc

/-! ## The breakpoints at one address -/

theorem Unique.filter_isAt (h : Unique breakPoints) (addr : UInt32) :
    breakPoints.filter (·.isAt addr) = [] ∨ (∃ b, breakPoints.filter (·.isAt addr) = [b]) ∨
      ∃ b c, breakPoints.filter (·.isAt addr) = [b, c] ∧ c.temporary = !b.temporary := by
  have hu : Unique (breakPoints.filter (·.isAt addr)) := h.sublist List.filter_sublist
  have hat : ∀ b ∈ breakPoints.filter (·.isAt addr),
      standardizeBreakpointAddress b.addr = standardizeBreakpointAddress addr := by
    intro b hb
    simpa [BreakPoint.isAt] using (List.mem_filter.1 hb).2
  have hne : ∀ b ∈ breakPoints.filter (·.isAt addr), ∀ c ∈ breakPoints.filter (·.isAt addr),
      key b ≠ key c → c.temporary = !b.temporary := by
    intro b hb c hc hk
    simp only [key, hat b hb, hat c hc, ne_eq, Prod.mk.injEq, true_and] at hk
    cases hb' : b.temporary <;> cases hc' : c.temporary <;> simp_all
  generalize breakPoints.filter (·.isAt addr) = l at hu hne
  rcases l with _ | ⟨b, _ | ⟨c, _ | ⟨d, l⟩⟩⟩
  · exact .inl rfl
  · exact .inr (.inl ⟨b, rfl⟩)
  · refine .inr (.inr ⟨b, c, rfl, hne b (by simp) c (by simp) fun hk => ?_⟩)
    simp [Unique, hk] at hu
  · exfalso
    have hbc := hne b (by simp) c (by simp) fun hk => by simp [Unique, hk] at hu
    have hbd := hne b (by simp) d (by simp) fun hk => by simp [Unique, hk] at hu
    have hcd := hne c (by simp) d (by simp) fun hk => by simp [Unique, hk] at hu
    simp [hbc, hbd] at hcd

theorem isEnabled_findIdx? (p : BreakPoint → Bool) :
    isEnabled breakPoints (breakPoints.findIdx? p) =
      (breakPoints.find? p).any BreakPoint.enabled := by
  rw [isEnabled, List.find?_eq_bind_findIdx?_getElem?]

theorem isAddressBreakPoint_eq (addr : UInt32) :
    isAddressBreakPoint breakPoints addr =
      ((breakPoints.filter (·.isAt addr)).head?.any BreakPoint.enabled ||
        ((breakPoints.filter (·.isAt addr)).find? BreakPoint.temporary).any
          BreakPoint.enabled) := by
  rw [isAddressBreakPoint, findBreakpoint, findBreakpoint, isEnabled_findIdx?,
    isEnabled_findIdx?, List.head?_filter, List.find?_filter]
  simp

theorem Unique.query_iff (h : Unique breakPoints) (addr : UInt32) :
    (isAddressBreakPoint breakPoints addr = true ↔
      ∃ b ∈ breakPoints, b.isAt addr = true ∧ b.enabled = true) ↔ ¬Shadowed breakPoints addr := by
  have hex : (∃ b ∈ breakPoints, b.isAt addr = true ∧ b.enabled = true) ↔
      ∃ b ∈ breakPoints.filter (·.isAt addr), b.enabled = true := by
    simp only [List.mem_filter, and_assoc]
  rw [isAddressBreakPoint_eq, hex, Shadowed]
  rcases h.filter_isAt addr with hl | ⟨b, hl⟩ | ⟨b, c, hl, hk⟩
  · simp [hl]
  · rw [hl]
    cases hb : b.temporary <;> cases hbe : b.enabled <;> simp_all
  · rw [hl]
    cases hb : b.temporary <;> cases hbe : b.enabled <;> cases hce : c.enabled <;>
      simp_all

theorem countP_eraseP (p : BreakPoint → Bool) (l : List BreakPoint) :
    (l.eraseP p).countP p = l.countP p - 1 := by
  induction l with
  | nil => rfl
  | cons b l ih =>
    cases hb : p b with
    | true => simp [hb]
    | false => simp [hb, ih]

theorem Unique.removed (h : Unique breakPoints) (addr : UInt32) :
    ∀ b ∈ removeBreakPoint breakPoints addr, b.isAt addr = false := by
  have hlen : breakPoints.countP (·.isAt addr) ≤ 2 := by
    rw [List.countP_eq_length_filter]
    rcases h.filter_isAt addr with hl | ⟨b, hl⟩ | ⟨b, c, hl, -⟩ <;> simp [hl]
  have hz : (removeBreakPoint breakPoints addr).countP (·.isAt addr) = 0 := by
    rw [removeBreakPoint_eq, countP_eraseP, countP_eraseP]
    omega
  intro b hb
  simpa using List.countP_eq_zero.1 hz b hb

/-- The list keeps its purpose at an address exactly while no disabled temporary breakpoint
stands there before an enabled one. -/
theorem sound_run_iff (ops : List Op) (addr : UInt32) :
    Sound (run ops) addr ↔ ¬Shadowed (run ops) addr := by
  have h := unique_run ops
  constructor
  · intro hs
    exact (h.query_iff addr).1 hs.query
  · intro hs
    exact ⟨h.single addr, (h.query_iff addr).2 hs, h.removed addr⟩

/-- A temporary breakpoint, then one that stays, then the first of them is switched off. -/
theorem not_sound_run :
    ¬Sound (run [.addBreakPoint 0x100000 true, .addBreakPoint 0x100000 false,
      .changeBreakPoint 0x100000 false]) 0x100000 := by
  intro h
  have hq := h.query.2 ⟨⟨0x100000, true, false, false⟩, by decide, by decide, rfl⟩
  exact absurd hq (by decide)

end CBreakPoints

end OmegaRed.DebugTools
