import OmegaRed.Lib.Grid
import OmegaRed.Lib.LinkedRing
import Mathlib.Data.List.Range

/-! `FastList`: a list in an array, with stable indices. -/

namespace OmegaRed.GSdx

open Lib.Grid Lib.LinkedRing

structure Element (T : Type) where
  data : T
  next_index : Nat
  prev_index : Nat

/-- Memory that is not written holds anything. -/
structure FastList (T : Type) where
  m_buffer : Nat → Element T
  m_capacity : Nat
  m_free_indexes_stack_top : Nat
  m_free_indexes_stack : Nat → Nat

namespace FastList

def USHRT_MAX : Nat := 65535

def u16 (n : Nat) : Nat := n % 65536

variable {T : Type}

/-- `for (uint16 i = first; i < last; i++) m_free_indexes_stack[i] = i + 1` -/
def fill (stack : Nat → Nat) (first last : Nat) : Nat → Nat :=
  (List.range' first (last - first)).foldl (fun st i => Function.update st i (u16 (i + 1))) stack

variable (s : FastList T)

def clear [Inhabited T] : FastList T where
  m_buffer := Function.update s.m_buffer 0 ⟨default, 0, 0⟩
  m_capacity := 4
  m_free_indexes_stack_top := 0
  m_free_indexes_stack := fill s.m_free_indexes_stack 0 (4 - 1)

def Data (index : Nat) : T := (s.m_buffer index).data
def NextIndex (index : Nat) : Nat := (s.m_buffer index).next_index
def PrevIndex (index : Nat) : Nat := (s.m_buffer index).prev_index
def FirstIndex : Nat := s.NextIndex 0
def LastIndex : Nat := s.PrevIndex 0
def size : Nat := s.m_free_indexes_stack_top
def Full : Prop := s.size = s.m_capacity - 1

instance : Decidable s.Full := inferInstanceAs (Decidable (_ = _))

def setNext (index v : Nat) : FastList T :=
  { s with m_buffer := Function.update s.m_buffer index { s.m_buffer index with next_index := v } }

def setPrev (index v : Nat) : FastList T :=
  { s with m_buffer := Function.update s.m_buffer index { s.m_buffer index with prev_index := v } }

def setData (index : Nat) (v : T) : FastList T :=
  { s with m_buffer := Function.update s.m_buffer index { s.m_buffer index with data := v } }

def ListInsertFront (index : Nat) : FastList T :=
  let s := s.setPrev index 0
  let s := s.setNext index (s.NextIndex 0)
  let s := s.setPrev (s.NextIndex 0) index
  s.setNext 0 index

def ListRemove (index : Nat) : FastList T :=
  let s := s.setNext (s.PrevIndex index) (s.NextIndex index)
  s.setPrev (s.NextIndex index) (s.PrevIndex index)

/-- `Grow`, which throws at the greatest capacity. -/
def Grow : Option (FastList T) :=
  if s.m_capacity = USHRT_MAX then none
  else
    let new_capacity := if s.m_capacity ≤ USHRT_MAX / 2 then u16 (s.m_capacity * 2) else USHRT_MAX
    some
      { s with
        m_capacity := new_capacity
        m_free_indexes_stack :=
          fill s.m_free_indexes_stack (s.m_capacity - 1) (new_capacity - 1) }

/-- The index, and the list with the element. -/
def InsertFront (data : T) : Option (Nat × FastList T) := do
  let s ← if s.Full then s.Grow else some s
  let free_index := s.m_free_indexes_stack s.m_free_indexes_stack_top
  let s := { s with m_free_indexes_stack_top := u16 (s.m_free_indexes_stack_top + 1) }
  pure (free_index, (s.setData free_index data).ListInsertFront free_index)

def EraseIndex (index : Nat) : FastList T :=
  let s := s.ListRemove index
  let top := u16 (s.m_free_indexes_stack_top + 65535)
  { s with
    m_free_indexes_stack_top := top
    m_free_indexes_stack := Function.update s.m_free_indexes_stack top index }

def pop_back : FastList T := s.EraseIndex s.LastIndex

def MoveFront (index : Nat) : FastList T :=
  if s.FirstIndex ≠ index then (s.ListRemove index).ListInsertFront index else s

/-- The indices that an iterator passes from `begin()` to `end()`. -/
def forward (n : Nat) : List Nat := follow s.NextIndex 0 n s.FirstIndex

def backward (n : Nat) : List Nat := follow s.PrevIndex 0 n s.LastIndex

/-- The indices on the stack. -/
def free : List Nat :=
  (List.range' s.m_free_indexes_stack_top (s.m_capacity - 1 - s.m_free_indexes_stack_top)).map
    s.m_free_indexes_stack

end FastList

open FastList

section

variable {T : Type} [Inhabited T]

/-- Runs of the operations; beside the list, what is in it: the elements with their indices, the
last one that was inserted or moved first. -/
inductive Reachable : FastList T → List (Nat × T) → Prop
  | init (s : FastList T) : Reachable s.clear []
  | InsertFront {s s' l i} (v : T) (h : Reachable s l) (hi : s.InsertFront v = some (i, s')) :
    Reachable s' ((i, v) :: l)
  | EraseIndex {s l i v} (h : Reachable s l) (hi : (i, v) ∈ l) :
    Reachable (s.EraseIndex i) (l.filter fun p => p.1 ≠ i)
  | pop_back {s l} (h : Reachable s l) (hl : l ≠ []) : Reachable s.pop_back l.dropLast
  | MoveFront {s l i v} (h : Reachable s l) (hi : (i, v) ∈ l) :
    Reachable (s.MoveFront i) ((i, v) :: l.filter fun p => p.1 ≠ i)
  | Grow {s s' l} (h : Reachable s l) (hg : s.Grow = some s') : Reachable s' l
  | clear {s l} (h : Reachable s l) : Reachable s.clear []

/-- The list has just these elements, and every index but theirs is free. -/
structure Exact (s : FastList T) (l : List (Nat × T)) : Prop where
  forward : ∀ n, l.length < n → s.forward n = l.map Prod.fst ∧
    (s.forward n).map s.Data = l.map Prod.snd
  backward : ∀ n, l.length < n → s.backward n = (l.map Prod.fst).reverse ∧
    (s.backward n).map s.Data = (l.map Prod.snd).reverse
  data : ∀ i v, (i, v) ∈ l → s.Data i = v
  size : s.size = l.length
  indexes : (l.map Prod.fst ++ s.free).Perm (List.range' 1 (s.m_capacity - 1))
  inserts : ∀ v, s.InsertFront v = none ↔ l.length = USHRT_MAX - 1

end

variable {T : Type} {s s' : FastList T} {l : List (Nat × T)} {i : Nat} {v : T}

namespace FastList

@[simp] theorem NextIndex_setNext (i v : Nat) :
    (s.setNext i v).NextIndex = Function.update s.NextIndex i v := by
  funext x
  by_cases hx : x = i
  · subst hx
    simp [NextIndex, setNext]
  · simp [NextIndex, setNext, hx]

@[simp] theorem PrevIndex_setNext (i v : Nat) : (s.setNext i v).PrevIndex = s.PrevIndex := by
  funext x
  by_cases hx : x = i
  · subst hx
    simp [PrevIndex, setNext]
  · simp [PrevIndex, setNext, hx]

@[simp] theorem NextIndex_setPrev (i v : Nat) : (s.setPrev i v).NextIndex = s.NextIndex := by
  funext x
  by_cases hx : x = i
  · subst hx
    simp [NextIndex, setPrev]
  · simp [NextIndex, setPrev, hx]

@[simp] theorem PrevIndex_setPrev (i v : Nat) :
    (s.setPrev i v).PrevIndex = Function.update s.PrevIndex i v := by
  funext x
  by_cases hx : x = i
  · subst hx
    simp [PrevIndex, setPrev]
  · simp [PrevIndex, setPrev, hx]

@[simp] theorem Data_setNext (i v : Nat) : (s.setNext i v).Data = s.Data := by
  funext x
  by_cases hx : x = i
  · subst hx
    simp [Data, setNext]
  · simp [Data, setNext, hx]

@[simp] theorem Data_setPrev (i v : Nat) : (s.setPrev i v).Data = s.Data := by
  funext x
  by_cases hx : x = i
  · subst hx
    simp [Data, setPrev]
  · simp [Data, setPrev, hx]

@[simp] theorem NextIndex_setData (i : Nat) (v : T) : (s.setData i v).NextIndex = s.NextIndex := by
  funext x
  by_cases hx : x = i
  · subst hx
    simp [NextIndex, setData]
  · simp [NextIndex, setData, hx]

@[simp] theorem PrevIndex_setData (i : Nat) (v : T) : (s.setData i v).PrevIndex = s.PrevIndex := by
  funext x
  by_cases hx : x = i
  · subst hx
    simp [PrevIndex, setData]
  · simp [PrevIndex, setData, hx]

@[simp] theorem Data_setData (i : Nat) (v : T) :
    (s.setData i v).Data = Function.update s.Data i v := by
  funext x
  by_cases hx : x = i
  · subst hx
    simp [Data, setData]
  · simp [Data, setData, hx]

theorem NextIndex_ListInsertFront : (s.ListInsertFront i).NextIndex =
    Function.update (Function.update s.NextIndex i (s.NextIndex 0)) 0 i := by
  simp [ListInsertFront]

theorem PrevIndex_ListInsertFront (hi : i ≠ 0) : (s.ListInsertFront i).PrevIndex =
    Function.update (Function.update s.PrevIndex i 0) (s.NextIndex 0) i := by
  simp [ListInsertFront, Function.update_of_ne hi.symm]

theorem NextIndex_ListRemove : (s.ListRemove i).NextIndex =
    Function.update s.NextIndex (s.PrevIndex i) (s.NextIndex i) := by
  simp [ListRemove]

theorem PrevIndex_ListRemove : (s.ListRemove i).PrevIndex =
    Function.update s.PrevIndex (s.NextIndex i) (s.PrevIndex i) := by
  have hnext : (Function.update s.NextIndex (s.PrevIndex i) (s.NextIndex i)) i = s.NextIndex i := by
    by_cases hi : i = s.PrevIndex i
    · rw [← hi, Function.update_self]
    · rw [Function.update_of_ne hi]
  simp [ListRemove, hnext]

@[simp] theorem Data_ListInsertFront : (s.ListInsertFront i).Data = s.Data := by
  simp [ListInsertFront]

@[simp] theorem Data_ListRemove : (s.ListRemove i).Data = s.Data := by simp [ListRemove]

theorem fill_apply (stack : Nat → Nat) {first last : Nat} (hlast : last ≤ 65535) (i : Nat) :
    fill stack first last i = if first ≤ i ∧ i < last then i + 1 else stack i := by
  have hrun (n : Nat) (hn : first + n ≤ 65535) :
      (List.range' first n).foldl (fun st i => Function.update st i (u16 (i + 1))) stack i =
        if first ≤ i ∧ i < first + n then i + 1 else stack i := by
    induction n with
    | zero => simp
    | succ n ih =>
      rw [List.range'_concat, List.foldl_append, List.foldl_cons, List.foldl_nil, Nat.one_mul]
      by_cases hi : i = first + n
      · rw [hi, Function.update_self, if_pos (by omega), u16, Nat.mod_eq_of_lt (by omega)]
      · rw [Function.update_of_ne hi, ih (by omega)]
        by_cases hin : first ≤ i ∧ i < first + n
        · rw [if_pos hin, if_pos (by omega)]
        · rw [if_neg hin, if_neg (by omega)]
  by_cases hle : first ≤ last
  · rw [fill, hrun _ (by omega), Nat.add_sub_cancel' hle]
  · rw [fill, Nat.sub_eq_zero_of_le (by omega), List.range'_zero, List.foldl_nil, if_neg (by omega)]

end FastList

/-- The ring has the elements; the stack, from its top, has the other indices. -/
structure Represents (s : FastList T) (l : List (Nat × T)) : Prop where
  ring : Linked s.NextIndex s.PrevIndex 0 0 (l.map Prod.fst)
  data : ∀ p ∈ l, s.Data p.1 = p.2
  size : s.m_free_indexes_stack_top = l.length
  indexes : (l.map Prod.fst ++ s.free).Perm (List.range' 1 (s.m_capacity - 1))
  pos : 1 ≤ s.m_capacity
  le : s.m_capacity ≤ 65535

namespace FastList

theorem Grow_eq (hpos : 1 ≤ s.m_capacity) (hle : s.m_capacity ≤ 65535) (hg : s.Grow = some s') :
    ∃ c, s.m_capacity < c ∧ c ≤ 65535 ∧ s' = { s with
      m_capacity := c
      m_free_indexes_stack := fill s.m_free_indexes_stack (s.m_capacity - 1) (c - 1) } := by
  by_cases hmax : s.m_capacity = USHRT_MAX
  · simp [Grow, hmax] at hg
  rw [Grow, if_neg hmax, Option.some_inj] at hg
  refine ⟨_, ?_, ?_, hg.symm⟩
  · unfold USHRT_MAX u16 at *
    split <;> omega
  · unfold USHRT_MAX u16
    split <;> omega

theorem free_eq_cons (hlt : s.m_free_indexes_stack_top < s.m_capacity - 1) :
    s.free = s.m_free_indexes_stack s.m_free_indexes_stack_top ::
      (List.range' (s.m_free_indexes_stack_top + 1)
        (s.m_capacity - 1 - (s.m_free_indexes_stack_top + 1))).map s.m_free_indexes_stack := by
  obtain ⟨n, hn⟩ := Nat.exists_eq_add_of_lt hlt
  have hleft : s.m_capacity - 1 - s.m_free_indexes_stack_top = n + 1 := by omega
  have hrest : s.m_capacity - 1 - (s.m_free_indexes_stack_top + 1) = n := by omega
  rw [free, hleft, hrest, List.range'_succ, List.map_cons]

@[simp] theorem top_ListRemove :
    (s.ListRemove i).m_free_indexes_stack_top = s.m_free_indexes_stack_top := rfl

@[simp] theorem stack_ListRemove :
    (s.ListRemove i).m_free_indexes_stack = s.m_free_indexes_stack := rfl

@[simp] theorem capacity_ListRemove : (s.ListRemove i).m_capacity = s.m_capacity := rfl

theorem EraseIndex_eq (hpos : 1 ≤ s.m_free_indexes_stack_top)
    (hle : s.m_free_indexes_stack_top ≤ 65535) : s.EraseIndex i = { s.ListRemove i with
      m_free_indexes_stack_top := s.m_free_indexes_stack_top - 1
      m_free_indexes_stack :=
        Function.update s.m_free_indexes_stack (s.m_free_indexes_stack_top - 1) i } := by
  have htop : u16 (s.m_free_indexes_stack_top + 65535) = s.m_free_indexes_stack_top - 1 := by
    unfold u16
    omega
  simp only [EraseIndex, top_ListRemove, stack_ListRemove, htop]

theorem free_EraseIndex (hpos : 1 ≤ s.m_free_indexes_stack_top)
    (hlt : s.m_free_indexes_stack_top ≤ s.m_capacity - 1) (hle : s.m_capacity ≤ 65535) :
    (s.EraseIndex i).free = i :: s.free := by
  obtain ⟨k, hk⟩ := Nat.exists_eq_add_of_le' hpos
  rw [EraseIndex_eq hpos (by omega), free_eq_cons (by simp; omega)]
  simp only [hk, Nat.add_sub_cancel, Function.update_self, capacity_ListRemove, free]
  refine congrArg _ (List.map_congr_left fun x hx => ?_)
  rw [List.mem_range'_1] at hx
  exact Function.update_of_ne (by omega) ..

end FastList

namespace Represents

theorem nodup (h : Represents s l) : (0 :: l.map Prod.fst).Nodup := by
  have hall : (l.map Prod.fst ++ s.free).Nodup := h.indexes.nodup_iff.2 List.nodup_range'
  refine List.nodup_cons.2 ⟨fun hmem => ?_, (List.nodup_append.1 hall).1⟩
  have hrange := h.indexes.mem_iff.1 (List.mem_append_left s.free hmem)
  rw [List.mem_range'_1] at hrange
  omega

theorem length_le (h : Represents s l) : l.length ≤ s.m_capacity - 1 := by
  have hlen := h.indexes.length_eq
  rw [List.length_append, List.length_map, List.length_range'] at hlen
  omega

theorem split (h : Represents s l) (hi : (i, v) ∈ l) : ∃ l₁ l₂, l = l₁ ++ (i, v) :: l₂ ∧
    (l.filter fun p => p.1 ≠ i) = l₁ ++ l₂ := by
  obtain ⟨l₁, l₂, rfl⟩ := List.append_of_mem hi
  refine ⟨l₁, l₂, rfl, ?_⟩
  have hnodup := (List.nodup_cons.1 h.nodup).2
  rw [List.map_append, List.map_cons, List.nodup_append] at hnodup
  obtain ⟨-, h₂, hdisj⟩ := hnodup
  have hkeep (m : List (Nat × T)) (hm : i ∉ m.map Prod.fst) :
      (m.filter fun p => p.1 ≠ i) = m := by
    rw [List.filter_eq_self]
    intro p hp
    exact decide_eq_true fun heq => hm (heq ▸ List.mem_map_of_mem hp)
  have h₁ : i ∉ l₁.map Prod.fst := fun hmem => hdisj i hmem i List.mem_cons_self rfl
  rw [List.filter_append, List.filter_cons, if_neg (by simp), hkeep l₁ h₁,
    hkeep l₂ (List.nodup_cons.1 h₂).1]

theorem clear [Inhabited T] (s : FastList T) : Represents s.clear [] where
  ring := ⟨rfl, rfl⟩
  data := by simp
  size := rfl
  indexes := by
    have hfree : s.clear.free = [1, 2, 3] := by
      simp [FastList.free, FastList.clear, List.range', fill_apply]
    rw [hfree]
    exact List.Perm.refl _
  pos := Nat.le_add_left 1 3
  le := by
    change 4 ≤ 65535
    decide

theorem Grow (h : Represents s l) (hg : s.Grow = some s') : Represents s' l := by
  obtain ⟨c, hlt, hc, rfl⟩ := Grow_eq h.pos h.le hg
  have hpos := h.pos
  have hlen := h.length_le
  refine ⟨h.ring, h.data, h.size, ?_, hpos.trans hlt.le, hc⟩
  have hold : (List.range' l.length (s.m_capacity - 1 - l.length)).map
      (fill s.m_free_indexes_stack (s.m_capacity - 1) (c - 1)) = s.free := by
    rw [FastList.free, h.size]
    refine List.map_congr_left fun i hi => ?_
    rw [List.mem_range'_1] at hi
    rw [fill_apply _ (by omega), if_neg (by omega)]
  have hnew : (List.range' (s.m_capacity - 1) (c - 1 - (s.m_capacity - 1))).map
      (fill s.m_free_indexes_stack (s.m_capacity - 1) (c - 1)) =
        List.range' s.m_capacity (c - s.m_capacity) := by
    have hsucc := @List.map_add_range' 1 (s.m_capacity - 1) (c - s.m_capacity) 1
    rw [Nat.add_sub_cancel' hpos] at hsucc
    rw [show c - 1 - (s.m_capacity - 1) = c - s.m_capacity by omega, ← hsucc]
    refine List.map_congr_left fun i hi => ?_
    rw [List.mem_range'_1] at hi
    rw [fill_apply _ (by omega), if_pos (by omega), Nat.add_comm]
  have hfree : FastList.free { s with
      m_capacity := c
      m_free_indexes_stack := fill s.m_free_indexes_stack (s.m_capacity - 1) (c - 1) } =
        s.free ++ List.range' s.m_capacity (c - s.m_capacity) := by
    change List.map _ (List.range' s.m_free_indexes_stack_top
      (c - 1 - s.m_free_indexes_stack_top)) = _
    rw [h.size, range'_split hlen (by omega), List.map_append, hold, hnew]
  rw [hfree, ← List.append_assoc, range'_split hpos hlt.le]
  exact h.indexes.append_right _

theorem push (h : Represents s l) (hlt : s.m_free_indexes_stack_top < s.m_capacity - 1)
    (hi : s.m_free_indexes_stack s.m_free_indexes_stack_top = i) :
    Represents
      (FastList.ListInsertFront (FastList.setData
        { s with m_free_indexes_stack_top := u16 (s.m_free_indexes_stack_top + 1) } i v) i)
      ((i, v) :: l) := by
  have hle := h.le
  have htop : u16 (s.m_free_indexes_stack_top + 1) = s.m_free_indexes_stack_top + 1 :=
    Nat.mod_eq_of_lt (by omega)
  have hindexes := h.indexes
  rw [free_eq_cons hlt, hi] at hindexes
  have hnodup := hindexes.nodup_iff.2 List.nodup_range'
  have hnot : i ∉ l.map Prod.fst := fun hmem =>
    (List.nodup_append.1 hnodup).2.2 i hmem i List.mem_cons_self rfl
  have hne : i ≠ 0 := by
    have hmem := hindexes.mem_iff.1 (List.mem_append_right _ List.mem_cons_self)
    rw [List.mem_range'_1] at hmem
    omega
  refine ⟨?_, ?_, ?_, ?_, h.pos, h.le⟩
  · rw [NextIndex_ListInsertFront, PrevIndex_ListInsertFront hne, NextIndex_setData,
      PrevIndex_setData]
    refine h.ring.insert ?_ h.nodup
    exact fun hmem => (List.mem_cons.1 hmem).elim hne hnot
  · rw [Data_ListInsertFront, Data_setData]
    intro p hp
    rcases List.mem_cons.1 hp with rfl | hp
    · exact Function.update_self ..
    · have hpi : p.1 ≠ i := fun heq => hnot (heq ▸ List.mem_map_of_mem hp)
      rw [Function.update_of_ne hpi]
      exact h.data p hp
  · change u16 (s.m_free_indexes_stack_top + 1) = l.length + 1
    rw [htop, h.size]
  · refine List.Perm.trans ?_ hindexes
    rw [List.map_cons, List.cons_append]
    refine List.perm_middle.symm.trans (List.Perm.append_left _ (List.Perm.cons _ ?_))
    change (List.map s.m_free_indexes_stack (List.range' (u16 (s.m_free_indexes_stack_top + 1))
      (s.m_capacity - 1 - u16 (s.m_free_indexes_stack_top + 1)))).Perm _
    rw [htop]

theorem InsertFront (h : Represents s l) (hi : s.InsertFront v = some (i, s')) :
    Represents s' ((i, v) :: l) := by
  have hlen := h.length_le
  unfold FastList.InsertFront at hi
  by_cases hfull : s.Full
  · rw [if_pos hfull] at hi
    cases hgrow : s.Grow with
    | none => simp [hgrow] at hi
    | some t =>
      rw [hgrow] at hi
      obtain ⟨rfl, rfl⟩ := Prod.mk.inj (Option.some_inj.1 hi)
      obtain ⟨c, hlt, hc, rfl⟩ := Grow_eq h.pos h.le hgrow
      refine (h.Grow hgrow).push ?_ rfl
      change s.m_free_indexes_stack_top < c - 1
      have hsize := h.size
      have hpos := h.pos
      omega
  · rw [if_neg hfull] at hi
    obtain ⟨rfl, rfl⟩ := Prod.mk.inj (Option.some_inj.1 hi)
    refine h.push ?_ rfl
    have hsize := h.size
    unfold FastList.Full FastList.size at hfull
    omega

theorem ListRemove {l₁ l₂ : List (Nat × T)} (h : Represents s (l₁ ++ (i, v) :: l₂)) :
    Linked (s.ListRemove i).NextIndex (s.ListRemove i).PrevIndex 0 0
      ((l₁ ++ l₂).map Prod.fst) := by
  have hring := h.ring
  have hnodup := h.nodup
  rw [List.map_append, List.map_cons] at hring hnodup
  rw [NextIndex_ListRemove, PrevIndex_ListRemove, List.map_append]
  exact hring.remove (List.nodup_cons.1 hnodup).1 hnodup

theorem EraseIndex {l₁ l₂ : List (Nat × T)} (h : Represents s (l₁ ++ (i, v) :: l₂)) :
    Represents (s.EraseIndex i) (l₁ ++ l₂) := by
  have hle := h.le
  have hlen := h.length_le
  have hsize := h.size
  rw [List.length_append, List.length_cons] at hsize hlen
  have hpos : 1 ≤ s.m_free_indexes_stack_top := by omega
  have hfree := free_EraseIndex (i := i) hpos (by omega) hle
  rw [EraseIndex_eq hpos (by omega)] at hfree ⊢
  refine ⟨h.ListRemove, ?_, ?_, ?_, h.pos, hle⟩
  · intro p hp
    change (s.ListRemove i).Data p.1 = p.2
    rw [Data_ListRemove]
    apply h.data
    rcases List.mem_append.1 hp with hp | hp
    · exact List.mem_append_left _ hp
    · exact List.mem_append_right _ (List.mem_cons_of_mem _ hp)
  · rw [List.length_append]
    change s.m_free_indexes_stack_top - 1 = _
    omega
  · rw [hfree]
    refine List.Perm.trans ?_ h.indexes
    rw [List.map_append, List.map_append, List.map_cons, List.append_assoc, List.append_assoc,
      List.cons_append]
    exact List.Perm.append_left _ List.perm_middle

theorem pop_back (h : Represents s l) (hl : l ≠ []) : Represents s.pop_back l.dropLast := by
  obtain ⟨l, p, rfl⟩ := (List.eq_nil_or_concat l).resolve_left hl
  rw [List.concat_eq_append] at h ⊢
  have hring := h.ring
  rw [List.map_append, List.map_cons, List.map_nil, linked_append] at hring
  have hlast : s.LastIndex = p.1 := hring.2.2
  rw [FastList.pop_back, hlast, List.dropLast_concat]
  simpa using h.EraseIndex

theorem MoveFront {l₁ l₂ : List (Nat × T)} (h : Represents s (l₁ ++ (i, v) :: l₂)) :
    Represents (s.MoveFront i) ((i, v) :: (l₁ ++ l₂)) := by
  have hring := h.ring
  have hnodup := h.nodup
  cases l₁ with
  | nil =>
    have hfirst : s.FirstIndex = i := hring.1
    rw [FastList.MoveFront, if_neg (by simpa using hfirst)]
    exact h
  | cons p l₁ =>
    have hfirst : s.FirstIndex = p.1 := hring.1
    have hne : s.FirstIndex ≠ i := by
      rw [hfirst]
      intro heq
      simp [heq] at hnodup
    rw [FastList.MoveFront, if_pos hne]
    have hmem : i ∉ 0 :: ((p :: l₁ ++ l₂).map Prod.fst) ∧
        (0 :: ((p :: l₁ ++ l₂).map Prod.fst)).Nodup := by
      rw [← List.nodup_cons]
      refine (List.Perm.nodup_iff ?_).1 hnodup
      rw [List.map_append, List.map_append, List.map_cons, ← List.cons_append, ← List.cons_append]
      exact List.perm_middle
    have hi : i ≠ 0 := fun heq => hmem.1 (heq ▸ List.mem_cons_self)
    refine ⟨?_, ?_, ?_, ?_, h.pos, h.le⟩
    · rw [NextIndex_ListInsertFront, PrevIndex_ListInsertFront hi]
      exact h.ListRemove.insert hmem.1 hmem.2
    · rw [Data_ListInsertFront, Data_ListRemove]
      intro q hq
      apply h.data
      exact List.perm_middle.mem_iff.2 hq
    · exact h.size.trans (List.perm_middle.length_eq)
    · refine List.Perm.trans ?_ h.indexes
      refine List.Perm.append_right _ ?_
      exact (List.perm_middle.symm.map Prod.fst)

end Represents

theorem Reachable.represents [Inhabited T] (h : Reachable s l) : Represents s l := by
  induction h with
  | init s => exact .clear s
  | InsertFront v _ hi ih => exact ih.InsertFront hi
  | EraseIndex _ hi ih =>
    obtain ⟨l₁, l₂, rfl, hfilter⟩ := ih.split hi
    rw [hfilter]
    exact ih.EraseIndex
  | pop_back _ hl ih => exact ih.pop_back hl
  | MoveFront _ hi ih =>
    obtain ⟨l₁, l₂, rfl, hfilter⟩ := ih.split hi
    rw [hfilter]
    exact ih.MoveFront
  | Grow _ hg ih => exact ih.Grow hg
  | clear _ _ => exact .clear _

theorem Represents.inserts (h : Represents s l) (v : T) :
    s.InsertFront v = none ↔ l.length = USHRT_MAX - 1 := by
  have hlen := h.length_le
  have hpos := h.pos
  have hle := h.le
  have hsize := h.size
  unfold FastList.InsertFront
  by_cases hfull : s.Full
  · have hcap : l.length = s.m_capacity - 1 := hsize.symm.trans hfull
    rw [if_pos hfull, hcap]
    unfold FastList.Grow
    by_cases hmax : s.m_capacity = USHRT_MAX
    · simp [hmax]
    · rw [if_neg hmax]
      refine iff_of_false (fun hnone => ?_) ?_
      · cases hnone
      · unfold USHRT_MAX at *
        omega
  · rw [if_neg hfull]
    refine iff_of_false (fun hnone => ?_) ?_
    · cases hnone
    · intro heq
      apply hfull
      unfold FastList.Full FastList.size
      unfold USHRT_MAX at heq
      omega

theorem Represents.exact (h : Represents s l) : Exact s l where
  forward n hn := by
    have h0 := (List.nodup_cons.1 h.nodup).1
    have hforward : s.forward n = l.map Prod.fst := by
      refine h.ring.follow_eq h0 ?_
      simpa using hn
    rw [hforward, List.map_map]
    exact ⟨rfl, List.map_congr_left h.data⟩
  backward n hn := by
    have h0 := (List.nodup_cons.1 h.nodup).1
    have hbackward : s.backward n = (l.map Prod.fst).reverse := by
      refine h.ring.follow_back h0 ?_
      simpa using hn
    rw [hbackward, List.map_reverse, List.map_map]
    exact ⟨rfl, congrArg _ (List.map_congr_left h.data)⟩
  data i v hi := h.data (i, v) hi
  size := h.size
  indexes := h.indexes
  inserts := h.inserts

/-- After any run. -/
theorem exact_of_reachable [Inhabited T] (h : Reachable s l) : Exact s l := h.represents.exact

theorem exact_of_reachable_moved : ∃ s : FastList Nat, Reachable s [(1, 5), (2, 7)] ∧
    Exact s [(1, 5), (2, 7)] := by
  have hinit := Reachable.init (T := Nat) ⟨fun _ => ⟨0, 0, 0⟩, 0, 0, fun _ => 0⟩
  have hfirst := Reachable.InsertFront (i := 1) 5 hinit rfl
  have hsecond := Reachable.InsertFront (i := 2) 7 hfirst rfl
  have hmoved := Reachable.MoveFront (i := 1) (v := 5) hsecond (by decide)
  exact ⟨_, hmoved, exact_of_reachable hmoved⟩

end OmegaRed.GSdx
