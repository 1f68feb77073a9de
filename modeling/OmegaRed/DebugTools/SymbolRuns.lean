import OmegaRed.DebugTools.SymbolCalls
import OmegaRed.Lib.Traces

/-! Runs of calls on the symbols. -/

namespace OmegaRed.DebugTools

open Lib OrderedMaps Traces

namespace SymbolMap

inductive Call
  | addModule (name : List UInt8) (address size : U32)
  | unloadModule (address size : U32)
  | addFunction (name : List UInt8) (address size : U32) (moduleIndex : Int)
  | addLabel (name : List UInt8) (address : U32) (moduleIndex : Int)
  | addData (address size : U32) (type : DataType) (moduleIndex : Int)
  | setFunctionSize (startAddress newSize : U32)
  | removeFunction (startAddress : U32) (removeName : Bool)
  | setLabelName (name : List UInt8) (address : U32) (updateImmediately : Bool)
  | updateActiveSymbols

def apply (s : SymbolMap) : Call → SymbolMap
  | .addModule name address size => s.AddModule name address size
  | .unloadModule address size => s.UnloadModule address size
  | .addFunction name address size moduleIndex => s.AddFunction name address size moduleIndex
  | .addLabel name address moduleIndex => s.AddLabel name address moduleIndex
  | .addData address size type moduleIndex => s.AddData address size type moduleIndex
  | .setFunctionSize startAddress newSize => s.SetFunctionSize startAddress newSize
  | .removeFunction startAddress removeName => s.RemoveFunction startAddress removeName
  | .setLabelName name address updateImmediately => s.SetLabelName name address updateImmediately
  | .updateActiveSymbols => s.UpdateActiveSymbols

/-- The symbols that a call updates, where it does. -/
def toUpdate (s : SymbolMap) : Call → Option SymbolMap
  | .addModule name address size => some (s.placeModule name address size)
  | .unloadModule address size =>
    some { s with activeModuleEnds := s.activeModuleEnds.erase (address + size) }
  | .setFunctionSize startAddress newSize =>
    if (s.resize startAddress newSize).2 then some (s.resize startAddress newSize).1 else none
  | .setLabelName name address updateImmediately =>
    s.activeLabels[address]?.bind fun label =>
      if (s.rename name label).2 && updateImmediately then some (s.rename name label).1 else none
  | .updateActiveSymbols => some s
  | _ => none

/-- A name that is not shown before the next update. -/
def renames (s : SymbolMap) : Call → Bool
  | .setLabelName name address _ =>
    s.activeLabels[address]?.any fun label => (s.rename name label).2
  | _ => false

/-- The symbols, and whether a name waits for an update. -/
def step (x : SymbolMap × Bool) (call : Call) : Option (SymbolMap × Bool) :=
  some (x.1.apply call, (x.1.toUpdate call).isNone && (x.2 || x.1.renames call))

/-- The entries are under their keys and are shown where they are active. -/
structure Kept {F : Type} (view : FunctionEntry → F) (waiting : Bool) (s : SymbolMap) : Prop where
  modules : s.ModulesOk
  keyed : s.AllKeyed
  functions : s.ShowsFunctions view
  places : s.ShowsLabels LabelEntry.place
  labels : waiting = false → s.ShowsLabels id
  data : s.ShowsData

/-- The function or label that is removed is alone at its address. -/
def Removes (s : SymbolMap) (address : U32) (removeName : Bool) : Prop :=
  (∀ func ∈ s.activeFunctions[address]?,
    Alone FunctionEntry.module FunctionEntry.start s.IsModuleActive s.GetModuleAbsoluteAddr
      s.functions address (func.module, func.start)) ∧
  (removeName = true → s.activeFunctions[address]?.isSome = true →
    ∀ label ∈ s.activeLabels[address]?,
      Alone LabelEntry.module LabelEntry.addr s.IsModuleActive s.GetModuleAbsoluteAddr
        s.labels address label.place)

/-- No function or label at the address is one of no module that the call would have to move. -/
def Allows (s : SymbolMap) : Call → Prop
  | .addModule name address size => s.Replaces name address size
  | .addFunction _ address _ moduleIndex =>
    Fits s.functions s address moduleIndex ∧ Fits s.labels s address moduleIndex
  | .addLabel _ address moduleIndex => Fits s.labels s address moduleIndex
  | .addData address _ _ moduleIndex => Fits s.data s address moduleIndex
  | .removeFunction address removeName => s.Removes address removeName
  | .setLabelName _ address _ => s.activeLabels[address]? = none → Fits s.labels s address (-1)
  | _ => True

def Legal (x : SymbolMap × Bool) (call : Call) : Prop :=
  x.1.Allows call ∧ ∀ s ∈ x.1.toUpdate call, s.Updatable

def Numbered (x : SymbolMap × Bool) (call : Call) : Prop := ∀ s ∈ x.1.toUpdate call, s.KeepsNumbers

instance (s : SymbolMap) : Decidable s.Updatable :=
  have : Decidable (∀ x ∈ s.functions.toList, 0 ≤ x.2.module) := List.decidableBAll _ _
  have : Decidable (∀ x ∈ s.labels.toList, 0 ≤ x.2.module) := List.decidableBAll _ _
  have : Decidable (∀ x ∈ s.data.toList, 0 ≤ x.2.module) := List.decidableBAll _ _
  decidable_of_iff ((∀ x ∈ s.functions.toList, 0 ≤ x.2.module) ∧
    (∀ x ∈ s.labels.toList, 0 ≤ x.2.module) ∧ ∀ x ∈ s.data.toList, 0 ≤ x.2.module)
    ⟨fun h => ⟨h.1, h.2.1, h.2.2⟩, fun h => ⟨h.functions, h.labels, h.data⟩⟩

instance (s : SymbolMap) : Decidable s.KeepsNumbers := inferInstanceAs (Decidable (_ = _))

instance (s : SymbolMap) (name : List UInt8) (address size : U32) :
    Decidable (s.Replaces name address size) := Option.decidableForallMem _

instance {E : Type} (m : Symbols E) (s : SymbolMap) (address : U32) (moduleIndex : Int) :
    Decidable (Fits m s address moduleIndex) := inferInstanceAs (Decidable (_ → _))

instance {E : Type} {module : E → Int} {start : E → U32} {isActive : Int → Bool}
    {absolute : U32 → Int → U32} {m : Symbols E} {key : SymbolKey} :
    Decidable (Alone module start isActive absolute m address key) := List.decidableBAll _ _

instance (s : SymbolMap) (address : U32) (removeName : Bool) : Decidable (s.Removes address removeName) :=
  have : Decidable (∀ func ∈ s.activeFunctions[address]?,
      Alone FunctionEntry.module FunctionEntry.start s.IsModuleActive s.GetModuleAbsoluteAddr
        s.functions address (func.module, func.start)) := Option.decidableForallMem _
  have : Decidable (∀ label ∈ s.activeLabels[address]?,
      Alone LabelEntry.module LabelEntry.addr s.IsModuleActive s.GetModuleAbsoluteAddr
        s.labels address label.place) := Option.decidableForallMem _
  inferInstanceAs (Decidable (_ ∧ _))

instance (s : SymbolMap) : (call : Call) → Decidable (s.Allows call)
  | .addModule name address size => inferInstanceAs (Decidable (s.Replaces name address size))
  | .addFunction _ address _ i =>
    inferInstanceAs (Decidable (Fits s.functions s address i ∧ Fits s.labels s address i))
  | .addLabel _ address i => inferInstanceAs (Decidable (Fits s.labels s address i))
  | .addData address _ _ i => inferInstanceAs (Decidable (Fits s.data s address i))
  | .removeFunction address removeName =>
    inferInstanceAs (Decidable (s.Removes address removeName))
  | .setLabelName _ address _ =>
    have := s.activeLabels[address]?.decidableEqNone
    inferInstanceAs (Decidable (s.activeLabels[address]? = none → Fits s.labels s address (-1)))
  | .unloadModule _ _ | .setFunctionSize _ _ | .updateActiveSymbols => isTrue trivial

instance (x : SymbolMap × Bool) (call : Call) : Decidable (Legal x call) :=
  have : Decidable (∀ s ∈ x.1.toUpdate call, s.Updatable) := Option.decidableForallMem _
  inferInstanceAs (Decidable (_ ∧ _))

instance (x : SymbolMap × Bool) (call : Call) : Decidable (Numbered x call) :=
  Option.decidableForallMem _

variable {F : Type} {view : FunctionEntry → F} {waiting : Bool} {s t : SymbolMap} {call : Call}
  {address : U32} {moduleIndex : Int} {key : SymbolKey}

theorem kept_empty (view : FunctionEntry → F) : Kept view false empty where
  modules := .empty
  keyed := ⟨fun key e he => by simp [empty] at he, fun key e he => by simp [empty] at he,
    fun key e he => by simp [empty] at he⟩
  functions := ⟨fun a f hf => by simp [empty] at hf, fun key e a he => by simp [empty] at he⟩
  places := ⟨fun a f hf => by simp [empty] at hf, fun key e a he => by simp [empty] at he⟩
  labels _ := ⟨fun a f hf => by simp [empty] at hf, fun key e a he => by simp [empty] at he⟩
  data := ⟨fun a f hf => by simp [empty] at hf, fun key e a he => by simp [empty] at he⟩

/-! ## One call -/

theorem kept_update (hmodules : s.ModulesOk) (hkeyed : s.AllKeyed) (hs : s.Updatable)
    (hplaces : Places FunctionEntry.module FunctionEntry.start view)
    (hview : ∀ key : SymbolKey,
      s.AssignFunctionIndices.functions[key]?.map view = s.functions[key]?.map view) :
    Kept view waiting s.UpdateActiveSymbols where
  modules := hmodules.update
  keyed := hkeyed.update
  functions := showsFunctions_update hmodules hs hplaces hview
  places := (showsLabels_update hmodules hs).weaken LabelEntry.place
  labels _ := showsLabels_update hmodules hs
  data := showsData_update hmodules hs

theorem Kept.putFunction (h : Kept view waiting s)
    (hplaces : Places FunctionEntry.module FunctionEntry.start view)
    (hfits : Fits s.functions s address moduleIndex) (size : U32) :
    Kept view waiting (s.putFunction address size (s.moduleAt address moduleIndex)) := by
  obtain ⟨functions, activeFunctions, heq, hputs⟩ := putFunction_eq h.keyed hfits size
  rw [heq]
  exact
    { modules := h.modules.congr rfl rfl
      keyed := ⟨h.keyed.functions.puts hputs, h.keyed.labels, h.keyed.data⟩
      functions := h.functions.puts hplaces h.keyed.functions
        (absolute_keyAt address moduleIndex) hputs
      places := h.places
      labels := h.labels
      data := h.data }

theorem Kept.addLabel (h : Kept view waiting s) (hfits : Fits s.labels s address moduleIndex)
    (name : List UInt8) : Kept view waiting (s.AddLabel name address moduleIndex) := by
  obtain ⟨labels, activeLabels, heq, hputs⟩ := addLabel_eq h.keyed hfits name
  rw [heq]
  exact
    { modules := h.modules.congr rfl rfl
      keyed := ⟨h.keyed.functions, h.keyed.labels.puts hputs, h.keyed.data⟩
      functions := h.functions
      places := h.places.puts places_place h.keyed.labels (absolute_keyAt address moduleIndex) hputs
      labels := fun hwaiting => (h.labels hwaiting).puts places_id h.keyed.labels
        (absolute_keyAt address moduleIndex) hputs
      data := h.data }

theorem Kept.addData (h : Kept view waiting s) (hfits : Fits s.data s address moduleIndex)
    (size : U32) (type : DataType) :
    Kept view waiting (s.AddData address size type moduleIndex) := by
  obtain ⟨data, activeData, heq, hputs⟩ := addData_eq h.keyed hfits size type
  rw [heq]
  exact
    { modules := h.modules.congr rfl rfl
      keyed := ⟨h.keyed.functions, h.keyed.labels, h.keyed.data.puts hputs⟩
      functions := h.functions
      places := h.places
      labels := h.labels
      data := h.data.puts places_id h.keyed.data (absolute_keyAt address moduleIndex) hputs }

theorem Kept.addFunction (h : Kept view waiting s)
    (hplaces : Places FunctionEntry.module FunctionEntry.start view)
    (hfunctions : Fits s.functions s address moduleIndex)
    (hlabels : Fits s.labels s address moduleIndex) (name : List UInt8) (size : U32) :
    Kept view waiting (s.AddFunction name address size moduleIndex) := by
  refine (h.putFunction hplaces hfunctions size).addLabel ?_ name
  obtain ⟨functions, activeFunctions, heq, -⟩ := putFunction_eq h.keyed hfunctions size
  -- the label is put where the function is, in a table of the same modules
  rw [heq, Fits]
  have hkey : s.keyAt address (s.moduleAt address moduleIndex) ∈ s.labels ↔
      s.keyAt address moduleIndex ∈ s.labels := by rw [keyAt_moduleAt]
  exact fun hmem => hkey.mpr (hlabels hmem)

theorem Kept.removeFunction (h : Kept view waiting s)
    (hplaces : Places FunctionEntry.module FunctionEntry.start view) {removeName : Bool}
    (hremoves : s.Removes address removeName) :
    Kept view waiting (s.RemoveFunction address removeName) := by
  rw [RemoveFunction.eq_def]
  cases hfunc : s.activeFunctions[address]? with
  | none => exact h
  | some func =>
    have hremoved : Kept view waiting { s with
        functions := s.functions.erase (func.module, func.start)
        activeFunctions := s.activeFunctions.erase address } :=
      { modules := h.modules.congr rfl rfl
        keyed := ⟨h.keyed.functions.erase _, h.keyed.labels, h.keyed.data⟩
        functions := h.functions.erase hplaces h.keyed.functions hfunc (hremoves.1 func hfunc)
        places := h.places
        labels := h.labels
        data := h.data }
    dsimp only
    cases removeName with
    | false => exact hremoved
    | true =>
      rw [if_pos rfl]
      cases hlabel : s.activeLabels[address]? with
      | none => exact hremoved
      | some label =>
        have halone := hremoves.2 rfl (by rw [hfunc]; rfl) label hlabel
        exact
          { hremoved with
            modules := hremoved.modules.congr rfl rfl
            keyed := ⟨hremoved.keyed.functions, h.keyed.labels.erase _, h.keyed.data⟩
            places := h.places.erase places_place h.keyed.labels hlabel halone
            labels := fun hwaiting =>
              (h.labels hwaiting).erase places_id h.keyed.labels hlabel halone }

/-! ## Symbols on the way to an update -/

theorem resize_frame (address size : U32) :
    (s.resize address size).1.modules = s.modules ∧
      (s.resize address size).1.activeModuleEnds = s.activeModuleEnds := by
  rw [resize.eq_def]
  split
  · split_ifs <;> exact ⟨rfl, rfl⟩
  · exact ⟨rfl, rfl⟩

theorem AllKeyed.resize (h : AllKeyed s) (address size : U32) :
    AllKeyed (s.resize address size).1 := by
  rw [SymbolMap.resize.eq_def]
  split
  · split_ifs
    · have hplaces : Places FunctionEntry.module FunctionEntry.start fun func : FunctionEntry =>
          (func.module, func.start) := fun _ _ heq => Prod.mk.inj heq
      exact ⟨h.functions.congr hplaces (map_view_modify
        (g := fun func : FunctionEntry => { func with size := size }) (fun _ => rfl) _),
        h.labels, h.data⟩
    · exact h
  · exact h

theorem rename_frame (name : List UInt8) (label : LabelEntry) :
    (s.rename name label).1.modules = s.modules ∧
      (s.rename name label).1.activeModuleEnds = s.activeModuleEnds := by
  rw [rename.eq_def]
  split_ifs <;> exact ⟨rfl, rfl⟩

theorem map_place_modify (name : List UInt8) (key j : SymbolKey) :
    (s.labels.modify key fun label => { label with name := strncpy name })[j]?.map
      LabelEntry.place = s.labels[j]?.map LabelEntry.place :=
  map_view_modify (g := fun label : LabelEntry => { label with name := strncpy name })
    (fun _ => rfl) key j

theorem AllKeyed.rename (h : AllKeyed s) (name : List UInt8) (label : LabelEntry) :
    AllKeyed (s.rename name label).1 := by
  rw [SymbolMap.rename.eq_def]
  split_ifs
  · exact ⟨h.functions, h.labels.congr places_place (map_place_modify name _), h.data⟩
  · exact h

theorem Kept.rename (h : Kept view waiting s) (name : List UInt8) (label : LabelEntry) :
    Kept view (waiting || (s.rename name label).2) (s.rename name label).1 := by
  have hkeyed := h.keyed.rename name label
  rw [SymbolMap.rename.eq_def] at hkeyed ⊢
  split_ifs at hkeyed ⊢
  · rw [Bool.or_true]
    exact
      { modules := h.modules.congr rfl rfl
        keyed := hkeyed
        functions := h.functions
        places := h.places.congr places_place (map_place_modify name _)
        labels := fun hwaiting => by cases hwaiting
        data := h.data }
  · rw [Bool.or_false]
    exact h

theorem apply_toUpdate (ht : s.toUpdate call = some t) :
    s.apply call = t.UpdateActiveSymbols := by
  cases call with
  | addModule => cases ht; rfl
  | unloadModule => cases ht; rfl
  | updateActiveSymbols => cases ht; rfl
  | setFunctionSize address size =>
    rw [toUpdate] at ht
    split_ifs at ht with hresize
    cases ht
    rw [apply, SetFunctionSize.eq_def]
    rcases hr : s.resize address size with ⟨r, b⟩
    rw [hr] at hresize
    subst hresize
    rfl
  | setLabelName name address updateImmediately =>
    rw [toUpdate] at ht
    obtain ⟨label, hlabel, ht⟩ := Option.bind_eq_some_iff.mp ht
    split_ifs at ht with hrename
    cases ht
    rw [Bool.and_eq_true] at hrename
    rw [apply, SetLabelName.eq_def, hlabel]
    dsimp only
    rcases hr : s.rename name label with ⟨r, b⟩
    rw [hr] at hrename
    obtain ⟨rfl, rfl⟩ := hrename
    rfl
  | _ => cases ht

theorem toUpdate_ok (hmodules : s.ModulesOk) (hkeyed : s.AllKeyed) (hallows : s.Allows call)
    (ht : s.toUpdate call = some t) : t.ModulesOk ∧ t.AllKeyed := by
  cases call with
  | addModule name address size =>
    cases ht
    exact ⟨hmodules.placeModule hallows, hkeyed.placeModule name address size⟩
  | unloadModule address size =>
    cases ht
    exact ⟨hmodules.erase _, hkeyed.functions, hkeyed.labels, hkeyed.data⟩
  | updateActiveSymbols =>
    cases ht
    exact ⟨hmodules, hkeyed⟩
  | setFunctionSize address size =>
    rw [toUpdate] at ht
    split_ifs at ht
    cases ht
    obtain ⟨hm, he⟩ := resize_frame (s := s) address size
    exact ⟨hmodules.congr hm he, hkeyed.resize address size⟩
  | setLabelName name address updateImmediately =>
    obtain ⟨label, -, ht⟩ := Option.bind_eq_some_iff.mp ht
    split_ifs at ht
    cases ht
    obtain ⟨hm, he⟩ := rename_frame (s := s) name label
    exact ⟨hmodules.congr hm he, hkeyed.rename name label⟩
  | _ => cases ht

/-! ## All calls -/

theorem Kept.quiet (h : Kept view waiting s)
    (hplaces : Places FunctionEntry.module FunctionEntry.start view) (hallows : s.Allows call)
    (hnone : s.toUpdate call = none) :
    Kept view (waiting || s.renames call) (s.apply call) := by
  have hother (hkept : Kept view waiting (s.apply call)) (hrenames : s.renames call = false) :
      Kept view (waiting || s.renames call) (s.apply call) := by
    rwa [hrenames, Bool.or_false]
  cases call with
  | addModule => cases hnone
  | unloadModule => cases hnone
  | updateActiveSymbols => cases hnone
  | addFunction name address size moduleIndex =>
    exact hother (h.addFunction hplaces hallows.1 hallows.2 name size) rfl
  | addLabel name address moduleIndex =>
    exact hother (h.addLabel hallows name) rfl
  | addData address size type moduleIndex =>
    exact hother (h.addData hallows size type) rfl
  | removeFunction address removeName =>
    exact hother (h.removeFunction hplaces hallows) rfl
  | setFunctionSize address size =>
    refine hother ?_ rfl
    rw [toUpdate, ite_eq_right_iff] at hnone
    rw [apply, SetFunctionSize.eq_def]
    have hsame (hfalse : (s.resize address size).2 = false) : (s.resize address size).1 = s := by
      rw [resize.eq_def] at hfalse ⊢
      split at hfalse
      · split_ifs at hfalse with hmem
        rw [if_neg hmem]
      · rfl
    rcases hr : s.resize address size with ⟨r, b⟩
    rw [hr] at hnone hsame
    cases b with
    | false =>
      obtain rfl := hsame rfl
      exact h
    | true => cases hnone rfl
  | setLabelName name address updateImmediately =>
    rw [renames, apply, SetLabelName.eq_def]
    cases hlabel : s.activeLabels[address]? with
    | none =>
      rw [Option.any_none, Bool.or_false]
      exact h.addLabel (hallows hlabel) name
    | some label =>
      have hrename := h.rename name label
      rw [toUpdate, hlabel, Option.bind_some] at hnone
      rw [Option.any_some]
      dsimp only
      rcases hr : s.rename name label with ⟨r, b⟩
      rw [hr] at hrename hnone
      cases b with
      | false => exact hrename
      | true =>
        cases updateImmediately with
        | false => exact hrename
        | true => cases hnone

theorem Kept.step (h : Kept view waiting s)
    (hplaces : Places FunctionEntry.module FunctionEntry.start view)
    (hlegal : Legal (s, waiting) call)
    (hview : ∀ t ∈ s.toUpdate call, ∀ key : SymbolKey,
      t.AssignFunctionIndices.functions[key]?.map view = t.functions[key]?.map view) :
    Kept view ((s.toUpdate call).isNone && (waiting || s.renames call)) (s.apply call) := by
  cases ht : s.toUpdate call with
  | none => exact h.quiet hplaces hlegal.1 ht
  | some t =>
    obtain ⟨hmodules, hkeyed⟩ := toUpdate_ok h.modules h.keyed hlegal.1 ht
    rw [apply_toUpdate ht]
    exact kept_update hmodules hkeyed (hlegal.2 t ht) hplaces (hview t ht)

theorem kept_of_run {calls : List Call} {x y : SymbolMap × Bool}
    (hmeets : Meets SymbolMap.step Legal x calls) (hrun : run SymbolMap.step x calls = some y)
    (hx : Kept FunctionEntry.unnumbered x.2 x.1) : Kept FunctionEntry.unnumbered y.2 y.1 := by
  have hstep (x call y) (hx : Kept FunctionEntry.unnumbered x.2 x.1) (hlegal : Legal x call)
      (hy : SymbolMap.step x call = some y) : Kept FunctionEntry.unnumbered y.2 y.1 := by
    cases hy
    exact hx.step places_unnumbered hlegal fun _ _ => getElem?_assignFunctionIndices
  exact invariant hstep hmeets hrun hx

theorem kept_of_run_numbered {calls : List Call} {x y : SymbolMap × Bool}
    (hmeets : Meets SymbolMap.step Legal x calls) (hnumbered : Meets SymbolMap.step Numbered x calls)
    (hrun : run SymbolMap.step x calls = some y) (hx : Kept id x.2 x.1) : Kept id y.2 y.1 := by
  have hstep (x call y) (hx : Kept id x.2 x.1) (hlegal : Legal x call ∧ Numbered x call)
      (hy : SymbolMap.step x call = some y) : Kept id y.2 y.1 := by
    cases hy
    refine hx.step places_id hlegal.1 fun t ht key => ?_
    rw [Option.map_id, id, id, (hlegal.2 t ht).getElem?]
  exact invariant hstep (hmeets.and hnumbered) hrun hx

/-! ## Functions that are removed -/

/-- The call may make a function under the key. -/
def Adds (key : SymbolKey) (s : SymbolMap) : Call → Prop
  | .addFunction _ address _ moduleIndex => s.keyAt address moduleIndex = key
  | _ => False

theorem getElem?_resize_none (hnone : s.functions[key]? = none) (address size : U32) :
    (s.resize address size).1.functions[key]? = none := by
  rw [resize.eq_def]
  split
  · split_ifs
    · dsimp only
      rw [getElem?_modify, hnone]
      exact ite_self _
    · exact hnone
  · exact hnone

theorem rename_functions (name : List UInt8) (label : LabelEntry) :
    (s.rename name label).1.functions = s.functions := by
  rw [rename.eq_def]
  split_ifs <;> rfl

theorem getElem?_toUpdate_none (hnone : s.functions[key]? = none)
    (ht : s.toUpdate call = some t) : t.functions[key]? = none := by
  cases call with
  | addModule name address size =>
    cases ht
    rwa [(placeModule_symbols name address size).1]
  | unloadModule => cases ht; exact hnone
  | updateActiveSymbols => cases ht; exact hnone
  | setFunctionSize address size =>
    rw [toUpdate] at ht
    split_ifs at ht
    cases ht
    exact getElem?_resize_none hnone address size
  | setLabelName name address updateImmediately =>
    obtain ⟨label, -, ht⟩ := Option.bind_eq_some_iff.mp ht
    split_ifs at ht
    cases ht
    rwa [rename_functions]
  | _ => cases ht

theorem addLabel_functions (name : List UInt8) (address : U32) (moduleIndex : Int) :
    (s.AddLabel name address moduleIndex).functions = s.functions := by
  rw [AddLabel.eq_def]
  dsimp only
  split
  · split
    · split_ifs <;> rfl
    · rfl
  · rfl

theorem getElem?_removeFunction_none (hnone : s.functions[key]? = none) (address : U32)
    (removeName : Bool) : (s.RemoveFunction address removeName).functions[key]? = none := by
  have herase (k : SymbolKey) : (s.functions.erase k)[key]? = none := by
    rw [getElem?_erase, hnone]
    exact ite_self _
  rw [RemoveFunction.eq_def]
  split
  · exact hnone
  · dsimp only
    split_ifs
    · split <;> exact herase _
    · exact herase _

theorem getElem?_apply_none (hkeyed : s.AllKeyed) (hallows : s.Allows call)
    (hadds : ¬ s.Adds key call) (hnone : s.functions[key]? = none) :
    (s.apply call).functions[key]? = none := by
  cases ht : s.toUpdate call with
  | some t =>
    have hkept := getElem?_assignFunctionIndices (s := t) key
    rw [getElem?_toUpdate_none hnone ht, Option.map_none, Option.map_eq_none_iff] at hkept
    rw [apply_toUpdate ht]
    exact hkept
  | none =>
    cases call with
    | addModule => cases ht
    | unloadModule => cases ht
    | updateActiveSymbols => cases ht
    | addFunction name address size moduleIndex =>
      obtain ⟨functions, activeFunctions, heq, hputs⟩ := putFunction_eq hkeyed hallows.1 size
      rw [apply, AddFunction, addLabel_functions, heq]
      exact hputs.none hnone fun hkey => hadds hkey.symm
    | addLabel name address moduleIndex => rwa [apply, addLabel_functions]
    | addData address size type moduleIndex =>
      obtain ⟨data, activeData, heq, -⟩ := addData_eq hkeyed hallows size type
      rwa [apply, heq]
    | removeFunction address removeName => exact getElem?_removeFunction_none hnone address removeName
    | setFunctionSize address size =>
      have hresize := getElem?_resize_none hnone address size
      rw [toUpdate, ite_eq_right_iff] at ht
      rw [apply, SetFunctionSize.eq_def]
      rcases hr : s.resize address size with ⟨r, b⟩
      rw [hr] at ht hresize
      cases b with
      | false => exact hresize
      | true => cases ht rfl
    | setLabelName name address updateImmediately =>
      rw [apply, SetLabelName.eq_def]
      rw [toUpdate] at ht
      cases hlabel : s.activeLabels[address]? with
      | none => rwa [addLabel_functions]
      | some label =>
        have hrename := rename_functions (s := s) name label
        rw [hlabel, Option.bind_some] at ht
        dsimp only
        rcases hr : s.rename name label with ⟨r, b⟩
        rw [hr] at hrename ht
        have hkept : r.functions[key]? = none := by rwa [hrename]
        cases b with
        | false => exact hkept
        | true =>
          cases updateImmediately with
          | false => exact hkept
          | true => cases ht

end SymbolMap

end OmegaRed.DebugTools

/-! What runs of calls show of the symbols. -/

namespace OmegaRed.DebugTools

open Lib OrderedMaps Traces

namespace SymbolMap

variable {s t : SymbolMap} {waiting : Bool} {address size : U32} {func : FunctionEntry}

/-- The function is alone at the address. -/
def AloneAt (s : SymbolMap) (address : U32) (func : FunctionEntry) : Prop :=
  Alone FunctionEntry.module FunctionEntry.start s.IsModuleActive s.GetModuleAbsoluteAddr
    s.functions address (func.module, func.start)

/-! ## Sizes -/

theorem Kept.exists_function (h : Kept FunctionEntry.unnumbered waiting s)
    (hshown : s.activeFunctions[address]? = some func) :
    ∃ e, s.functions[(func.module, func.start)]? = some e ∧
      ActiveAt FunctionEntry.module FunctionEntry.start s.IsModuleActive s.GetModuleAbsoluteAddr
        address e := by
  obtain ⟨key, e, he, hview, hat⟩ := h.functions.sound address func hshown
  obtain ⟨hmodule, hstart⟩ := places_unnumbered _ _ hview
  refine ⟨e, ?_, hat⟩
  rw [← hmodule, ← hstart, ← h.keyed.functions key e he, he]

theorem resize_eq (hshown : s.activeFunctions[address]? = some func)
    (hmem : (func.module, func.start) ∈ s.functions) (size : U32) :
    s.resize address size = ({ s with
      functions := s.functions.modify (func.module, func.start) fun func =>
        { func with size := size } }, true) := by
  rw [resize.eq_def, hshown]
  exact if_pos hmem

theorem Kept.getFunctionSize (h : Kept FunctionEntry.unnumbered waiting s)
    (hshown : s.activeFunctions[address]? = some func) (halone : s.AloneAt address func)
    (hlegal : Legal (s, waiting) (.setFunctionSize address size)) :
    (s.SetFunctionSize address size).GetFunctionSize address = size := by
  obtain ⟨e, he, hat⟩ := h.exists_function hshown
  have hresize := resize_eq hshown (mem_iff.mpr ⟨e, he⟩) size
  have hset : s.SetFunctionSize address size = (s.resize address size).1.UpdateActiveSymbols := by
    rw [SetFunctionSize.eq_def, hresize]
  have hafter := h.step places_unnumbered hlegal fun _ _ => getElem?_assignFunctionIndices
  rw [apply, hset, hresize] at hafter
  rw [hset, hresize]
  -- the entries after the update, but for their numbers
  have hentries (j : SymbolKey) := getElem?_assignFunctionIndices (s := { s with
    functions := s.functions.modify (func.module, func.start) fun func =>
      { func with size := size } }) j
  simp only [getElem?_modify] at hentries
  have hhere := hentries (func.module, func.start)
  rw [if_pos rfl, he, Option.map_some, Option.map_some] at hhere
  obtain ⟨e', he', hview⟩ := Option.map_eq_some_iff.mp hhere
  have hplace : e'.module = e.module ∧ e'.start = e.start := (places_unnumbered _ _ hview :)
  obtain ⟨f, hf⟩ := hafter.functions.complete _ e' address he' ((activeAt_congr hplace).mpr hat)
  obtain ⟨j, x, hx, hxf, hxat⟩ := hafter.functions.sound address f hf
  have hj : j = (func.module, func.start) := by
    by_contra hne
    have hold := hentries j
    rw [if_neg (Ne.symm hne)] at hold
    have hsome : s.functions[j]?.map FunctionEntry.unnumbered = some x.unnumbered := by
      rw [← hold]
      exact congrArg (Option.map FunctionEntry.unnumbered) hx
    obtain ⟨x', hx', hview'⟩ := Option.map_eq_some_iff.mp hsome
    exact hne (halone.eq hx' ((activeAt_congr (places_unnumbered _ _ hview')).mpr hxat))
  subst hj
  obtain rfl : x = e' := Option.some.inj (hx.symm.trans he')
  rw [GetFunctionSize, hf]
  have hsize : f.size = x.size := (congrArg FunctionEntry.size hxf.symm :)
  exact hsize.trans (congrArg FunctionEntry.size hview)

/-! ## Functions that are removed -/

/-- After the function is removed it is not found until it may be added again. -/
def Forgets (x : SymbolMap × Bool) (address : U32) (removeName : Bool) : Prop :=
  ∀ func, x.1.activeFunctions[address]? = some func →
    (x.1.RemoveFunction address removeName).activeFunctions[address]? = none ∧
    ∀ (calls : List Call) y,
      Meets step (fun x call => Legal x call ∧ ¬ x.1.Adds (func.module, func.start) call) x
        (.removeFunction address removeName :: calls) →
      run step x (.removeFunction address removeName :: calls) = some y →
      y.1.functions[(func.module, func.start)]? = none ∧
        ∀ (a : U32) f, y.1.activeFunctions[a]? = some f →
          (f.module, f.start) ≠ (func.module, func.start)

theorem removeFunction_none (hshown : s.activeFunctions[address]? = some func)
    (removeName : Bool) :
    (s.RemoveFunction address removeName).activeFunctions[address]? = none ∧
      (s.RemoveFunction address removeName).functions[(func.module, func.start)]? = none := by
  have herased : (s.activeFunctions.erase address)[address]? = none ∧
      (s.functions.erase (func.module, func.start))[(func.module, func.start)]? = none := by
    rw [getElem?_erase, getElem?_erase, if_pos rfl, if_pos rfl]
    exact ⟨rfl, rfl⟩
  rw [RemoveFunction.eq_def, hshown]
  dsimp only
  split_ifs
  · split <;> exact herased
  · exact herased

theorem Kept.forgets (h : Kept FunctionEntry.unnumbered waiting s) (address : U32)
    (removeName : Bool) : Forgets (s, waiting) address removeName := by
  intro func hshown
  obtain ⟨hactive, hfunctions⟩ := removeFunction_none hshown removeName
  refine ⟨hactive, fun calls y hmeets hrun => ?_⟩
  have hkept := kept_of_run (hmeets.mono fun _ _ h => h.1) hrun h
  obtain ⟨z, hz, hrest⟩ := Option.bind_eq_some_iff.mp hrun
  have hz' := hz
  cases hz'
  have hnone : y.1.functions[(func.module, func.start)]? = none := by
    have hstep (x call y) (hx : Kept FunctionEntry.unnumbered x.2 x.1 ∧
          x.1.functions[(func.module, func.start)]? = none)
        (hok : Legal x call ∧ ¬ x.1.Adds (func.module, func.start) call)
        (hy : SymbolMap.step x call = some y) : Kept FunctionEntry.unnumbered y.2 y.1 ∧
          y.1.functions[(func.module, func.start)]? = none := by
      cases hy
      exact ⟨hx.1.step places_unnumbered hok.1 fun _ _ => getElem?_assignFunctionIndices,
        getElem?_apply_none hx.1.keyed hok.1.1 hok.2 hx.2⟩
    have hfirst := h.step places_unnumbered hmeets.1.1 fun _ _ => getElem?_assignFunctionIndices
    exact (invariant hstep (hmeets.2 _ hz) hrest ⟨hfirst, hfunctions⟩).2
  refine ⟨hnone, fun a f hf heq => ?_⟩
  obtain ⟨e, he, -⟩ := hkept.exists_function hf
  rw [heq, hnone] at he
  cases he

/-! ## Runs -/

end SymbolMap

end OmegaRed.DebugTools
