import Mathlib.Algebra.Order.Group.Nat
import OmegaRed.DebugTools.SymbolMap

/-! The modules of the debugger and the addresses in them. -/

namespace OmegaRed.DebugTools.SymbolMap

open Lib OrderedMaps

variable {s t : SymbolMap} {mod mod' : ModuleEntry} {a key : U32}

/-- The module is active. -/
def Loaded (s : SymbolMap) (mod : ModuleEntry) : Prop :=
  ∃ key : U32, s.activeModuleEnds[key]? = some mod

/-- The modules have their numbers, and the active ones are modules that end where they say. -/
structure ModulesOk (s : SymbolMap) : Prop where
  index : ∀ (i : Nat) mod, s.modules[i]? = some mod → mod.index = i + 1
  ends : ∀ (key : U32) mod, s.activeModuleEnds[key]? = some mod →
    mod ∈ s.modules ∧ key = mod.start + mod.size

namespace ModulesOk

theorem empty : ModulesOk empty where
  index i mod hmod := by simp [SymbolMap.empty] at hmod
  ends key mod hmod := by simp [SymbolMap.empty] at hmod

theorem index_pos (h : ModulesOk s) (hmod : mod ∈ s.modules) : 0 < mod.index := by
  obtain ⟨i, hi⟩ := List.mem_iff_getElem?.mp hmod
  have hindex := h.index i mod hi
  omega

theorem eq_of_index (h : ModulesOk s) (hmod : mod ∈ s.modules) (hmod' : mod' ∈ s.modules)
    (heq : mod.index = mod'.index) : mod = mod' := by
  obtain ⟨i, hi⟩ := List.mem_iff_getElem?.mp hmod
  obtain ⟨j, hj⟩ := List.mem_iff_getElem?.mp hmod'
  have hindex := h.index i mod hi
  have hindex' := h.index j mod' hj
  obtain rfl : i = j := by omega
  exact Option.some.inj (hi.symm.trans hj)

theorem find?_index (h : ModulesOk s) (hmod : mod ∈ s.modules) :
    (s.modules.find? fun m => m.index = mod.index) = some mod := by
  cases hfind : s.modules.find? fun m => m.index = mod.index with
  | none =>
    have hnot := List.find?_eq_none.mp hfind mod hmod
    simp at hnot
  | some m =>
    have hindex : m.index = mod.index := by simpa using List.find?_some hfind
    rw [h.eq_of_index (List.mem_of_find?_eq_some hfind) hmod hindex]

theorem find?_index_zero (h : ModulesOk s) {i : Int} (hi : i ≤ 0) :
    (s.modules.find? fun m => m.index = i) = none := by
  refine List.find?_eq_none.mpr fun m hm => ?_
  have hpos := h.index_pos hm
  simp only [decide_eq_true_eq]
  omega

theorem mem_of_loaded (h : ModulesOk s) (hmod : s.Loaded mod) : mod ∈ s.modules := by
  obtain ⟨key, hkey⟩ := hmod
  exact (h.ends key mod hkey).1

theorem congr (h : ModulesOk s) (hmodules : t.modules = s.modules)
    (hends : t.activeModuleEnds = s.activeModuleEnds) : ModulesOk t where
  index := by
    rw [hmodules]
    exact h.index
  ends := by
    rw [hmodules, hends]
    exact h.ends

end ModulesOk

theorem isModuleActive_iff {i : Int} :
    s.IsModuleActive i = true ↔ i = 0 ∨ ∃ mod, s.Loaded mod ∧ mod.index = i := by
  simp only [IsModuleActive, Bool.or_eq_true, decide_eq_true_eq, List.any_eq_true, Prod.exists,
    Std.TreeMap.mem_toList_iff_getElem?_eq_some, Loaded]
  refine or_congr_right ⟨fun ⟨key, mod, hmod, hi⟩ => ⟨mod, ⟨key, hmod⟩, hi⟩, ?_⟩
  rintro ⟨mod, ⟨key, hmod⟩, hi⟩
  exact ⟨key, mod, hmod, hi⟩

/-! ## Addresses in a module -/

theorem getModuleAbsoluteAddr_eq (h : ModulesOk s) (hmod : mod ∈ s.modules) (relative : U32) :
    s.GetModuleAbsoluteAddr relative mod.index = mod.start + relative := by
  rw [GetModuleAbsoluteAddr, h.find?_index hmod]

theorem getModuleAbsoluteAddr_zero (h : ModulesOk s) (relative : U32) :
    s.GetModuleAbsoluteAddr relative 0 = relative := by
  rw [GetModuleAbsoluteAddr, h.find?_index_zero (Int.le_refl 0)]

theorem moduleAt_moduleAt (a : U32) (i : Int) :
    s.moduleAt a (s.moduleAt a i) = s.moduleAt a i := by
  unfold moduleAt
  split_ifs <;> rfl

theorem absolute_relative (a : U32) (i : Int) :
    s.GetModuleAbsoluteAddr (s.GetModuleRelativeAddr a (s.moduleAt a i)) (s.moduleAt a i) = a := by
  have hagain : (if s.moduleAt a i = -1 then s.GetModuleIndex a else s.moduleAt a i) =
      s.moduleAt a i := moduleAt_moduleAt a i
  rw [GetModuleRelativeAddr, hagain, GetModuleAbsoluteAddr]
  cases s.modules.find? fun mod => mod.index = s.moduleAt a i with
  | none => rfl
  | some mod =>
    dsimp only
    rw [BitVec.add_comm, BitVec.sub_add_cancel]

theorem activeKey_eq (h : ModulesOk s) {i : Int} (hi : 0 ≤ i) (start : U32) :
    activeKey s.activeModuleIndexes i start =
      if s.IsModuleActive i then some (s.GetModuleAbsoluteAddr start i) else none := by
  obtain rfl | hi : 0 = i ∨ 0 < i := by omega
  · have hactive : s.IsModuleActive 0 = true := isModuleActive_iff.mpr (.inl rfl)
    rw [activeKey, if_pos (Int.le_refl 0), if_pos hactive, getModuleAbsoluteAddr_zero h]
  have hindexes (x : U32) : s.activeModuleIndexes[i]? = some x ↔
      ∃ mod, s.Loaded mod ∧ mod.index = i ∧ mod.start = x := by
    rw [activeModuleIndexes, getElem?_foldl_insert_iff]
    · simp only [Prod.exists, Std.TreeMap.mem_toList_iff_getElem?_eq_some, Loaded]
      exact ⟨fun ⟨key, mod, hmod, hx⟩ => ⟨mod, ⟨key, hmod⟩, hx⟩,
        fun ⟨mod, ⟨key, hmod⟩, hx⟩ => ⟨key, mod, hmod, hx⟩⟩
    · intro b hb c hc hbc
      have hb := Std.TreeMap.mem_toList_iff_getElem?_eq_some.mp hb
      have hc := Std.TreeMap.mem_toList_iff_getElem?_eq_some.mp hc
      rw [h.eq_of_index (h.ends _ _ hb).1 (h.ends _ _ hc).1 hbc]
  rw [activeKey, if_neg (by omega)]
  by_cases hactive : s.IsModuleActive i = true
  · rw [if_pos hactive]
    obtain hzero | ⟨mod, hmod, rfl⟩ := isModuleActive_iff.mp hactive
    · omega
    · rw [(hindexes mod.start).mpr ⟨mod, hmod, rfl, rfl⟩,
        getModuleAbsoluteAddr_eq h (h.mem_of_loaded hmod)]
      rfl
  · rw [if_neg hactive]
    cases hx : s.activeModuleIndexes[i]? with
    | none => rfl
    | some x =>
      obtain ⟨mod, hmod, hindex, -⟩ := (hindexes x).mp hx
      exact absurd (isModuleActive_iff.mpr (.inr ⟨mod, hmod, hindex⟩)) hactive

/-! ## The module at an address -/

/-- The address is in the module. -/
def Contains (mod : ModuleEntry) (a : U32) : Prop :=
  mod.start ≤ a ∧ a.toNat < mod.start.toNat + mod.size.toNat

/-- `GetModuleIndex` tells an active module that the address is in, or that there is none. -/
def Located (s : SymbolMap) (a : U32) : Prop :=
  (∃ mod, s.Loaded mod ∧ Contains mod a ∧ s.GetModuleIndex a = mod.index) ∨
    (∀ mod, s.Loaded mod → ¬ Contains mod a) ∧ s.GetModuleIndex a = -1

/-- The module of the next end starts at or below the address; where no end is above the address,
no module goes on to the end of memory. -/
structure Locatable (s : SymbolMap) (a : U32) : Prop where
  below : ∀ (key : U32) mod, s.activeModuleEnds[key]? = some mod → a < key →
    (∀ j : U32, j ∈ s.activeModuleEnds → a < j → key ≤ j) → mod.start ≤ a
  fits : (∀ key : U32, key ∈ s.activeModuleEnds → key ≤ a) → ∀ mod, s.Loaded mod → mod.start ≤ a →
    mod.start.toNat + mod.size.toNat < 2 ^ 32

theorem upperBound_some (h : s.upperBound a = some mod) :
    ∃ key : U32, s.activeModuleEnds[key]? = some mod ∧ a < key ∧
      ∀ j : U32, j ∈ s.activeModuleEnds → a < j → key ≤ j := by
  obtain ⟨⟨key, m⟩, hfind, rfl⟩ := Option.map_eq_some_iff.mp h
  obtain ⟨hkey, as, bs, hlist, has⟩ := List.find?_eq_some_iff_append.mp hfind
  have hmem : (key, m) ∈ s.activeModuleEnds.toList := by
    rw [hlist]
    simp
  refine ⟨key, Std.TreeMap.mem_toList_iff_getElem?_eq_some.mp hmem, by simpa using hkey, ?_⟩
  intro j hj haj
  obtain ⟨x, hx⟩ := mem_iff.mp hj
  have hjmem := Std.TreeMap.mem_toList_iff_getElem?_eq_some.mpr hx
  have hsorted := Std.TreeMap.ordered_keys_toList (t := s.activeModuleEnds)
  rw [hlist, List.pairwise_append, List.pairwise_cons] at hsorted
  rw [hlist, List.mem_append, List.mem_cons] at hjmem
  rcases hjmem with hbefore | hhere | hafter
  · have hnot := has _ hbefore
    simp only [Bool.not_eq_true', decide_eq_false_iff_not] at hnot
    exact absurd haj hnot
  · rw [(Prod.mk.inj hhere).1]
    exact BitVec.le_refl key
  · exact BitVec.le_of_lt (compareOfLessAndEq_eq_lt.mp (hsorted.2.1.1 _ hafter))

theorem upperBound_none (h : s.upperBound a = none) (hkey : key ∈ s.activeModuleEnds) :
    key ≤ a := by
  obtain ⟨x, hx⟩ := mem_iff.mp hkey
  have hall := List.find?_eq_none.mp (Option.map_eq_none_iff.mp h) (key, x)
    (Std.TreeMap.mem_toList_iff_getElem?_eq_some.mpr hx)
  simpa using hall

theorem located_iff (h : ModulesOk s) : s.Located a ↔ s.Locatable a := by
  cases hfound : s.upperBound a with
  | none =>
    have hall {key : U32} (hkey : key ∈ s.activeModuleEnds) := upperBound_none hfound hkey
    have hindex : s.GetModuleIndex a = -1 := by rw [GetModuleIndex, hfound]
    constructor
    · rintro (⟨mod, hmod, -, heq⟩ | ⟨hnone, -⟩)
      · have hpos := h.index_pos (h.mem_of_loaded hmod)
        omega
      · refine ⟨fun key mod hkey hlt => absurd (hall (mem_iff.mpr ⟨mod, hkey⟩)) (by simpa using hlt),
          fun _ mod hmod hstart => ?_⟩
        have hend : ¬ a.toNat < mod.start.toNat + mod.size.toNat := fun hlt =>
          hnone mod hmod ⟨hstart, hlt⟩
        have ha := a.isLt
        omega
    · intro hloc
      refine .inr ⟨?_, hindex⟩
      rintro mod ⟨key, hkey⟩ ⟨hstart, hlt⟩
      have hfits := hloc.fits (fun _ => hall) mod ⟨key, hkey⟩ hstart
      have hle := hall (mem_iff.mpr ⟨mod, hkey⟩)
      rw [(h.ends key mod hkey).2, BitVec.le_def, BitVec.toNat_add, Nat.mod_eq_of_lt hfits] at hle
      omega
  | some mod =>
    obtain ⟨key, hkey, hlt, hleast⟩ := upperBound_some hfound
    have hindex : s.GetModuleIndex a = mod.index := by rw [GetModuleIndex, hfound]
    have hmod := (h.ends key mod hkey).1
    constructor
    · rintro (⟨mod', hmod', hcontains, heq⟩ | ⟨-, heq⟩)
      · obtain rfl := h.eq_of_index hmod (h.mem_of_loaded hmod') (hindex.symm.trans heq)
        refine ⟨fun key' m hkey' hlt' hleast' => ?_, fun hall => ?_⟩
        · have heq := BitVec.le_antisymm (hleast key' (mem_iff.mpr ⟨m, hkey'⟩) hlt')
            (hleast' key (mem_iff.mpr ⟨mod, hkey⟩) hlt)
          rw [← heq, hkey] at hkey'
          cases hkey'
          exact hcontains.1
        · exact absurd hlt (by simpa using hall key (mem_iff.mpr ⟨mod, hkey⟩))
      · have hpos := h.index_pos hmod
        omega
    · intro hloc
      refine .inl ⟨mod, ⟨key, hkey⟩, ⟨hloc.below key mod hkey hlt hleast, ?_⟩, hindex⟩
      rw [(h.ends key mod hkey).2, BitVec.lt_def, BitVec.toNat_add] at hlt
      exact Nat.lt_of_lt_of_le hlt (Nat.mod_le _ _)

end OmegaRed.DebugTools.SymbolMap
