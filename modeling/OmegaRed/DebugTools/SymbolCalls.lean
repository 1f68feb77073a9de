import OmegaRed.DebugTools.SymbolModules
import OmegaRed.DebugTools.SymbolViews

/-! What the calls do to the symbols. -/

namespace OmegaRed.DebugTools

open Lib OrderedMaps

def FunctionEntry.unnumbered (func : FunctionEntry) : FunctionEntry := { func with index := 0 }

def LabelEntry.place (label : LabelEntry) : Int × U32 := (label.module, label.addr)

theorem places_id {E : Type} {module : E → Int} {start : E → U32} : Places module start id :=
  fun _ _ h => ⟨congrArg module h, congrArg start h⟩

theorem places_unnumbered :
    Places FunctionEntry.module FunctionEntry.start FunctionEntry.unnumbered :=
  fun _ _ h => ⟨(congrArg FunctionEntry.module h :), (congrArg FunctionEntry.start h :)⟩

theorem places_place : Places LabelEntry.module LabelEntry.addr LabelEntry.place :=
  fun _ _ h => Prod.mk.inj h

namespace SymbolMap

variable {F : Type} {s : SymbolMap} {address : U32} {moduleIndex : Int} {name : List UInt8}

def ShowsFunctions (view : FunctionEntry → F) (s : SymbolMap) : Prop :=
  Mirrors FunctionEntry.module FunctionEntry.start view s.IsModuleActive s.GetModuleAbsoluteAddr
    s.functions s.activeFunctions

def ShowsLabels (view : LabelEntry → F) (s : SymbolMap) : Prop :=
  Mirrors LabelEntry.module LabelEntry.addr view s.IsModuleActive s.GetModuleAbsoluteAddr
    s.labels s.activeLabels

def ShowsData (s : SymbolMap) : Prop :=
  Mirrors DataEntry.module DataEntry.start id s.IsModuleActive s.GetModuleAbsoluteAddr
    s.data s.activeData

/-- The entries are under their keys. -/
structure AllKeyed (s : SymbolMap) : Prop where
  functions : Keyed FunctionEntry.module FunctionEntry.start s.functions
  labels : Keyed LabelEntry.module LabelEntry.addr s.labels
  data : Keyed DataEntry.module DataEntry.start s.data

/-! ## Updates -/

/-- No entry is in a module of a negative number. -/
structure Updatable (s : SymbolMap) : Prop where
  functions : ∀ x ∈ s.functions.toList, 0 ≤ x.2.module
  labels : ∀ x ∈ s.labels.toList, 0 ≤ x.2.module
  data : ∀ x ∈ s.data.toList, 0 ≤ x.2.module

/-- The functions have the numbers that an update gives them. -/
def KeepsNumbers (s : SymbolMap) : Prop :=
  s.AssignFunctionIndices.functions.toList = s.functions.toList

theorem getElem?_assignModule (x : Symbols FunctionEntry × Nat) (moduleIndex : Int)
    (key : SymbolKey) : (assignModule x moduleIndex).1[key]?.map FunctionEntry.unnumbered =
      x.1[key]?.map FunctionEntry.unnumbered := by
  rw [assignModule]
  generalize x.1.keys.filter _ = keys
  induction keys generalizing x with
  | nil => rfl
  | cons k keys ih =>
    rw [List.foldl_cons, ih]
    exact map_view_modify (g := fun func : FunctionEntry => { func with index := x.2 })
      (fun _ => rfl) k key

theorem getElem?_assignFunctionIndices (key : SymbolKey) :
    s.AssignFunctionIndices.functions[key]?.map FunctionEntry.unnumbered =
      s.functions[key]?.map FunctionEntry.unnumbered := by
  rw [AssignFunctionIndices]
  dsimp only
  generalize s.activeModuleEnds.toList = ends
  generalize hx : (s.functions, 0) = x
  have hfold : (ends.foldl (fun x mod => assignModule x mod.2.index) x).1[key]?.map
      FunctionEntry.unnumbered = x.1[key]?.map FunctionEntry.unnumbered := by
    clear hx
    induction ends generalizing x with
    | nil => rfl
    | cons mod ends ih => rw [List.foldl_cons, ih, getElem?_assignModule]
  rw [hfold, ← hx]

theorem KeepsNumbers.getElem? (h : KeepsNumbers s) (key : SymbolKey) :
    s.AssignFunctionIndices.functions[key]? = s.functions[key]? := by
  refine Option.ext fun func => ?_
  rw [← Std.TreeMap.mem_toList_iff_getElem?_eq_some, h,
    Std.TreeMap.mem_toList_iff_getElem?_eq_some]

theorem AllKeyed.update (h : AllKeyed s) : AllKeyed s.UpdateActiveSymbols :=
  ⟨h.functions.congr places_unnumbered getElem?_assignFunctionIndices, h.labels, h.data⟩

theorem ModulesOk.update (h : ModulesOk s) : ModulesOk s.UpdateActiveSymbols := h.congr rfl rfl

theorem activeKey_of_mem {E : Type} {module : E → Int} {start : E → U32} {m : Symbols E}
    (h : ModulesOk s) (hm : ∀ x ∈ m.toList, 0 ≤ module x.2) (key : SymbolKey) (e : E)
    (he : m[key]? = some e) :
    activeKey s.activeModuleIndexes (module e) (start e) =
      if s.IsModuleActive (module e) then some (s.GetModuleAbsoluteAddr (start e) (module e))
      else none :=
  activeKey_eq h (hm (key, e) (Std.TreeMap.mem_toList_iff_getElem?_eq_some.mpr he)) (start e)

theorem showsLabels_update (h : ModulesOk s) (hs : Updatable s) :
    s.UpdateActiveSymbols.ShowsLabels id :=
  mirrors_activate (activeKey_of_mem h hs.labels)

theorem showsData_update (h : ModulesOk s) (hs : Updatable s) : s.UpdateActiveSymbols.ShowsData :=
  mirrors_activate (activeKey_of_mem h hs.data)

theorem showsFunctions_update (h : ModulesOk s) (hs : Updatable s)
    {view : FunctionEntry → F} (hplaces : Places FunctionEntry.module FunctionEntry.start view)
    (hview : ∀ key : SymbolKey,
      s.AssignFunctionIndices.functions[key]?.map view = s.functions[key]?.map view) :
    s.UpdateActiveSymbols.ShowsFunctions view :=
  ((mirrors_activate (activeKey_of_mem h hs.functions)).weaken view).congr hplaces hview

/-! ## Modules -/

/-- A module that is active is placed where it is. -/
def Replaces (s : SymbolMap) (name : List UInt8) (address size : U32) : Prop :=
  ∀ mod ∈ s.modules.find? fun mod => mod.name = name,
    s.IsModuleActive mod.index = true → mod.start = address ∧ mod.size = size

theorem ModulesOk.insertIfNew (h : ModulesOk s) {mod : ModuleEntry} (hmod : mod ∈ s.modules) :
    ModulesOk { s with
      activeModuleEnds := s.activeModuleEnds.insertIfNew (mod.start + mod.size) mod } where
  index := h.index
  ends key m hm := by
    rw [getElem?_insertIfNew] at hm
    split_ifs at hm with hnew
    · cases hm
      exact ⟨hmod, hnew.1.symm⟩
    · exact h.ends key m hm

theorem ModulesOk.append (h : ModulesOk s) {mod : ModuleEntry}
    (hindex : mod.index = s.modules.length + 1) :
    ModulesOk { s with modules := s.modules ++ [mod] } where
  index i m hm := by
    rw [List.getElem?_append] at hm
    split_ifs at hm with hi
    · exact h.index i m hm
    · obtain ⟨hlt, rfl⟩ := List.getElem?_eq_some_iff.mp hm
      rw [List.length_singleton] at hlt
      rw [List.getElem_singleton, hindex]
      omega
  ends key m hm := ⟨List.mem_append_left _ (h.ends key m hm).1, (h.ends key m hm).2⟩

theorem ModulesOk.modify (h : ModulesOk s) {i : Nat} {mod : ModuleEntry} {size : U32}
    (hmod : s.modules[i]? = some mod)
    (hplace : s.IsModuleActive mod.index = true → mod.start = address ∧ mod.size = size) :
    ModulesOk { s with
      modules := s.modules.modify i fun mod => { mod with start := address, size := size } } where
  index j m hm := by
    obtain ⟨m', hm', hindex⟩ : ∃ m', s.modules[j]? = some m' ∧ m.index = m'.index := by
      rw [List.getElem?_modify] at hm
      obtain ⟨m', hm', heq⟩ := Option.map_eq_some_iff.mp hm
      refine ⟨m', hm', ?_⟩
      rw [← heq]
      split_ifs <;> rfl
    rw [hindex]
    exact h.index j m' hm'
  ends key m hm := by
    obtain ⟨hmem, hkey⟩ := h.ends key m hm
    refine ⟨?_, hkey⟩
    obtain ⟨j, hj⟩ := List.mem_iff_getElem?.mp hmem
    refine List.mem_iff_getElem?.mpr ⟨j, ?_⟩
    rw [List.getElem?_modify, hj]
    by_cases hij : i = j
    · subst hij
      rw [hmod] at hj
      cases hj
      obtain ⟨rfl, rfl⟩ := hplace (isModuleActive_iff.mpr (.inr ⟨mod, ⟨key, hm⟩, rfl⟩))
      simp
    · simp [hij]

theorem ModulesOk.placeModule (h : ModulesOk s) {size : U32}
    (hplace : s.Replaces name address size) : ModulesOk (s.placeModule name address size) := by
  rw [SymbolMap.placeModule.eq_def]
  cases hfind : s.modules.findIdx? fun mod => mod.name = name with
  | none =>
    have hmod : (⟨s.modules.length + 1, address, size, strncpy name⟩ : ModuleEntry) ∈
        s.modules ++ [⟨s.modules.length + 1, address, size, strncpy name⟩] :=
      List.mem_append_right _ (List.mem_singleton_self _)
    exact (h.append rfl).insertIfNew hmod
  | some i =>
    obtain ⟨hi, hname, hbefore⟩ := List.findIdx?_eq_some_iff_getElem.mp hfind
    have hmod : s.modules[i]? = some s.modules[i] := List.getElem?_eq_getElem hi
    have hfirst : (s.modules.find? fun mod => mod.name = name) = some s.modules[i] := by
      rw [List.find?_eq_some_iff_getElem]
      exact ⟨hname, i, hi, rfl, fun j hj => by simpa using hbefore j hj⟩
    have hmodified := h.modify hmod (hplace _ hfirst)
    have hplaced : (s.modules.modify i fun mod => { mod with start := address, size := size })[i]? =
        some { s.modules[i] with start := address, size := size } := by
      simp [hmod]
    dsimp only
    rw [hplaced]
    exact hmodified.insertIfNew (List.mem_iff_getElem?.mpr ⟨i, hplaced⟩)

theorem ModulesOk.erase (h : ModulesOk s) (key : U32) :
    ModulesOk { s with activeModuleEnds := s.activeModuleEnds.erase key } where
  index := h.index
  ends j mod hmod := by
    rw [getElem?_erase] at hmod
    split_ifs at hmod
    exact h.ends j mod hmod

theorem placeModule_symbols (name : List UInt8) (address size : U32) :
    (s.placeModule name address size).functions = s.functions ∧
      (s.placeModule name address size).labels = s.labels ∧
      (s.placeModule name address size).data = s.data := by
  rw [placeModule.eq_def]
  cases s.modules.findIdx? fun mod => mod.name = name <;> exact ⟨rfl, rfl, rfl⟩

theorem AllKeyed.placeModule (h : AllKeyed s) (name : List UInt8) (address size : U32) :
    AllKeyed (s.placeModule name address size) := by
  obtain ⟨hfunctions, hlabels, hdata⟩ := placeModule_symbols (s := s) name address size
  constructor
  · rw [hfunctions]
    exact h.functions
  · rw [hlabels]
    exact h.labels
  · rw [hdata]
    exact h.data

/-! ## Symbols -/

/-- Where an entry of the module is at the address. -/
def keyAt (s : SymbolMap) (address : U32) (moduleIndex : Int) : SymbolKey :=
  (s.moduleAt address moduleIndex, s.GetModuleRelativeAddr address (s.moduleAt address moduleIndex))

/-- No entry is at the address in no module, where the module has none there. -/
def Fits {E : Type} (m : Symbols E) (s : SymbolMap) (address : U32) (moduleIndex : Int) : Prop :=
  (0, address) ∈ m → s.keyAt address moduleIndex ∈ m

theorem existingKey_eq {E : Type} {m : Symbols E} (h : Fits m s address moduleIndex) :
    existingKey m (s.keyAt address moduleIndex) address =
      if s.keyAt address moduleIndex ∈ m then some (s.keyAt address moduleIndex) else none := by
  rw [existingKey]
  by_cases hmem : s.keyAt address moduleIndex ∈ m
  · rw [if_pos hmem, if_pos hmem]
  · rw [if_neg hmem, if_neg hmem, if_neg fun hzero => hmem (h hzero)]

theorem keyAt_moduleAt (address : U32) (moduleIndex : Int) :
    s.keyAt address (s.moduleAt address moduleIndex) = s.keyAt address moduleIndex := by
  rw [keyAt, moduleAt_moduleAt, keyAt]

theorem absolute_keyAt (address : U32) (moduleIndex : Int) :
    s.GetModuleAbsoluteAddr (s.keyAt address moduleIndex).2 (s.keyAt address moduleIndex).1 =
      address := absolute_relative address moduleIndex

theorem putFunction_eq (h : AllKeyed s) (hfits : Fits s.functions s address moduleIndex)
    (size : U32) : ∃ functions activeFunctions,
    s.putFunction address size (s.moduleAt address moduleIndex) =
      { s with functions := functions, activeFunctions := activeFunctions } ∧
    Puts FunctionEntry.module FunctionEntry.start s.IsModuleActive address
      (s.keyAt address moduleIndex) s.functions s.activeFunctions functions activeFunctions := by
  have hput := putFunction.eq_def s address size (s.moduleAt address moduleIndex)
  have hkey : existingKey s.functions (s.moduleAt address moduleIndex,
      s.GetModuleRelativeAddr address (s.moduleAt address moduleIndex)) address = _ :=
    existingKey_eq hfits
  dsimp only at hput
  rw [hkey] at hput
  cases hfound : s.functions[s.keyAt address moduleIndex]? with
  | some func =>
    have hmodule : func.module = s.moduleAt address moduleIndex :=
      ((Prod.mk.inj (h.functions _ _ hfound)).1).symm
    rw [if_pos (mem_iff.mpr ⟨func, hfound⟩)] at hput
    dsimp only at hput
    rw [hfound] at hput
    dsimp only at hput
    rw [if_neg (not_not_intro hmodule), ← hmodule] at hput
    rw [← hmodule]
    exact ⟨_, _, hput, .changed hfound ⟨rfl, rfl⟩⟩
  | none =>
    rw [if_neg fun hmem => by simp [mem_iff, hfound] at hmem] at hput
    exact ⟨_, _, hput, .made hfound rfl⟩

theorem addLabel_eq (h : AllKeyed s) (hfits : Fits s.labels s address moduleIndex)
    (name : List UInt8) : ∃ labels activeLabels,
    s.AddLabel name address moduleIndex =
      { s with labels := labels, activeLabels := activeLabels } ∧
    Puts LabelEntry.module LabelEntry.addr s.IsModuleActive address
      (s.keyAt address moduleIndex) s.labels s.activeLabels labels activeLabels := by
  have hput := AddLabel.eq_def s name address moduleIndex
  have hkey : existingKey s.labels (s.moduleAt address moduleIndex,
      s.GetModuleRelativeAddr address (s.moduleAt address moduleIndex)) address = _ :=
    existingKey_eq hfits
  dsimp only at hput
  rw [hkey] at hput
  cases hfound : s.labels[s.keyAt address moduleIndex]? with
  | some label =>
    have hmodule : label.module = s.moduleAt address moduleIndex :=
      ((Prod.mk.inj (h.labels _ _ hfound)).1).symm
    rw [if_pos (mem_iff.mpr ⟨label, hfound⟩)] at hput
    dsimp only at hput
    rw [hfound] at hput
    dsimp only at hput
    rw [if_neg (not_not_intro hmodule)] at hput
    exact ⟨_, _, hput, .kept⟩
  | none =>
    rw [if_neg fun hmem => by simp [mem_iff, hfound] at hmem] at hput
    exact ⟨_, _, hput, .made hfound rfl⟩

theorem addData_eq (h : AllKeyed s) (hfits : Fits s.data s address moduleIndex)
    (size : U32) (type : DataType) : ∃ data activeData,
    s.AddData address size type moduleIndex =
      { s with data := data, activeData := activeData } ∧
    Puts DataEntry.module DataEntry.start s.IsModuleActive address
      (s.keyAt address moduleIndex) s.data s.activeData data activeData := by
  have hput := AddData.eq_def s address size type moduleIndex
  have hkey : existingKey s.data (s.moduleAt address moduleIndex,
      s.GetModuleRelativeAddr address (s.moduleAt address moduleIndex)) address = _ :=
    existingKey_eq hfits
  dsimp only at hput
  rw [hkey] at hput
  cases hfound : s.data[s.keyAt address moduleIndex]? with
  | some entry =>
    have hmodule : entry.module = s.moduleAt address moduleIndex :=
      ((Prod.mk.inj (h.data _ _ hfound)).1).symm
    rw [if_pos (mem_iff.mpr ⟨entry, hfound⟩)] at hput
    dsimp only at hput
    rw [hfound] at hput
    dsimp only at hput
    rw [if_neg (not_not_intro hmodule), ← hmodule] at hput
    exact ⟨_, _, hput, .changed hfound ⟨rfl, rfl⟩⟩
  | none =>
    rw [if_neg fun hmem => by simp [mem_iff, hfound] at hmem] at hput
    exact ⟨_, _, hput, .made hfound rfl⟩

end SymbolMap

end OmegaRed.DebugTools
