import OmegaRed.DebugTools.SymbolMap

/-! The symbols by address show the symbols by module. -/

namespace OmegaRed.DebugTools

open Lib OrderedMaps

section Entries

variable {E F : Type} {module : E → Int} {start : E → U32} {view : E → F} {isActive : Int → Bool}
  {absolute : U32 → Int → U32} {m m' : Symbols E} {active : ByAddress E} {e old : E}
  {key : SymbolKey} {address : U32}

/-- Every entry is under its own key. -/
def Keyed (module : E → Int) (start : E → U32) (m : Symbols E) : Prop :=
  ∀ key e, m[key]? = some e → key = (module e, start e)

/-- The entry is active at the address. -/
def ActiveAt (module : E → Int) (start : E → U32) (isActive : Int → Bool)
    (absolute : U32 → Int → U32) (address : U32) (e : E) : Prop :=
  isActive (module e) = true ∧ absolute (start e) (module e) = address

instance : Decidable (ActiveAt module start isActive absolute address e) :=
  inferInstanceAs (Decidable (_ ∧ _))

/-- The entries of active modules are shown, one at each address, as far as `view` can see. -/
structure Mirrors (module : E → Int) (start : E → U32) (view : E → F) (isActive : Int → Bool)
    (absolute : U32 → Int → U32) (m : Symbols E) (active : ByAddress E) : Prop where
  sound : ∀ address f, active[address]? = some f → ∃ (key : SymbolKey) (e : E),
    m[key]? = some e ∧ view e = view f ∧ ActiveAt module start isActive absolute address e
  complete : ∀ (key : SymbolKey) e address, m[key]? = some e →
    ActiveAt module start isActive absolute address e → ∃ f, active[address]? = some f

/-- The view shows where an entry is. -/
def Places (module : E → Int) (start : E → U32) (view : E → F) : Prop :=
  ∀ e e', view e = view e' → module e = module e' ∧ start e = start e'

/-- The entry under the key is the only one that is active at the address. -/
def Alone (module : E → Int) (start : E → U32) (isActive : Int → Bool)
    (absolute : U32 → Int → U32) (m : Symbols E) (address : U32) (key : SymbolKey) : Prop :=
  ∀ x ∈ m.toList, ActiveAt module start isActive absolute address x.2 → x.1 = key

theorem Alone.eq {j : SymbolKey} (h : Alone module start isActive absolute m address key)
    (he : m[j]? = some e) (hat : ActiveAt module start isActive absolute address e) : j = key :=
  h (j, e) (Std.TreeMap.mem_toList_iff_getElem?_eq_some.mpr he) hat

theorem activeAt_congr (hplace : module e = module old ∧ start e = start old) :
    ActiveAt module start isActive absolute address e ↔
      ActiveAt module start isActive absolute address old := by
  rw [ActiveAt, ActiveAt, hplace.1, hplace.2]

theorem Mirrors.insert (h : Mirrors module start view isActive absolute m active)
    (hnew : m[key]? = none) :
    Mirrors module start view isActive absolute (m.insert key e)
      (if isActive (module e) then active.insertIfNew (absolute (start e) (module e)) e
        else active) where
  sound address f hf := by
    by_cases hadded : isActive (module e) = true ∧ absolute (start e) (module e) = address ∧
        active[absolute (start e) (module e)]? = none
    · rw [if_pos hadded.1, getElem?_insertIfNew, if_pos hadded.2] at hf
      cases hf
      exact ⟨key, e, by rw [getElem?_insert, if_pos rfl], rfl, hadded.1, hadded.2.1⟩
    · have hold : active[address]? = some f := by
        split_ifs at hf with hactive
        · rwa [getElem?_insertIfNew, if_neg fun hboth => hadded ⟨hactive, hboth⟩] at hf
        · exact hf
      obtain ⟨j, x, hx, hview, hat⟩ := h.sound address f hold
      refine ⟨j, x, ?_, hview, hat⟩
      rw [getElem?_insert, if_neg, hx]
      rintro rfl
      rw [hnew] at hx
      cases hx
  complete j x address hx hat := by
    rw [getElem?_insert] at hx
    split_ifs at hx with hj
    · cases hx
      rw [if_pos hat.1, getElem?_insertIfNew, hat.2]
      cases hold : active[address]? with
      | none => exact ⟨e, by simp⟩
      | some f => exact ⟨f, by simp⟩
    · obtain ⟨f, hf⟩ := h.complete j x address hx hat
      refine ⟨f, ?_⟩
      split_ifs
      · rw [getElem?_insertIfNew, if_neg, hf]
        rintro ⟨rfl, hnone⟩
        rw [hf] at hnone
        cases hnone
      · exact hf

theorem getElem?_refresh {moduleIndex : Int} (a : U32) :
    (SymbolMap.refresh module active address moduleIndex e)[a]? =
      if a = address ∧ active[address]?.any (module · = moduleIndex) = true then some e
      else active[a]? := by
  rw [SymbolMap.refresh]
  cases hx : active[address]? with
  | none => simp
  | some x =>
    dsimp only
    by_cases hmodule : module x = moduleIndex
    · rw [if_pos hmodule, getElem?_insertIfNew, getElem?_erase, getElem?_erase]
      by_cases ha : address = a
      · simp [ha, hmodule]
      · simp [ha, Ne.symm ha]
    · simp [hmodule]

theorem Mirrors.replace (h : Mirrors module start view isActive absolute m active)
    (hplaces : Places module start view) (hold : m[key]? = some old)
    (hplace : module e = module old ∧ start e = start old)
    (haddress : absolute (start e) (module e) = address) :
    Mirrors module start view isActive absolute (m.insert key e)
      (SymbolMap.refresh module active address (module e) e) where
  sound a f hf := by
    rw [getElem?_refresh] at hf
    by_cases hshown : a = address ∧ active[address]?.any (module · = module e) = true
    · rw [if_pos hshown] at hf
      cases hf
      obtain ⟨x, hx, hmodule⟩ := (Option.any_eq_true _ _).mp hshown.2
      obtain ⟨j, y, -, hview, hat⟩ := h.sound address x hx
      have hactive : isActive (module e) = true := by
        rw [← of_decide_eq_true hmodule, ← (hplaces _ _ hview).1]
        exact hat.1
      exact ⟨key, e, by rw [getElem?_insert, if_pos rfl], rfl, hactive,
        haddress.trans hshown.1.symm⟩
    · rw [if_neg hshown] at hf
      obtain ⟨j, x, hx, hview, hat⟩ := h.sound a f hf
      refine ⟨j, x, ?_, hview, hat⟩
      rw [getElem?_insert, if_neg, hx]
      rintro rfl
      rw [hold] at hx
      cases hx
      -- the old entry would be shown at the address
      refine hshown ⟨?_, ?_⟩
      · rw [← hat.2, ← hplace.1, ← hplace.2, haddress]
      · have ha : a = address := by rw [← hat.2, ← hplace.1, ← hplace.2, haddress]
        rw [← ha, hf, Option.any_some, decide_eq_true_eq, hplace.1, (hplaces _ _ hview).1]
  complete j x a hx hat := by
    have hfound : ∃ f, active[a]? = some f := by
      rw [getElem?_insert] at hx
      split_ifs at hx with hj
      · cases hx
        exact h.complete key old a hold ((activeAt_congr hplace).mp hat)
      · exact h.complete j x a hx hat
    obtain ⟨f, hf⟩ := hfound
    rw [getElem?_refresh]
    split_ifs
    · exact ⟨e, rfl⟩
    · exact ⟨f, hf⟩

theorem Mirrors.erase (h : Mirrors module start view isActive absolute m active)
    (hplaces : Places module start view) (hkeyed : Keyed module start m) {x : E}
    (hx : active[address]? = some x)
    (halone : Alone module start isActive absolute m address (module x, start x)) :
    Mirrors module start view isActive absolute (m.erase (module x, start x))
      (active.erase address) where
  sound a f hf := by
    rw [getElem?_erase] at hf
    split_ifs at hf with ha
    obtain ⟨j, y, hy, hview, hat⟩ := h.sound a f hf
    refine ⟨j, y, ?_, hview, hat⟩
    rw [getElem?_erase, if_neg, hy]
    intro hj
    obtain ⟨k, z, -, hviewz, hatz⟩ := h.sound address x hx
    have hplace : module y = module z ∧ start y = start z := by
      rw [(hplaces _ _ hviewz).1, (hplaces _ _ hviewz).2]
      exact Prod.mk.inj ((hkeyed j y hy).symm.trans hj.symm)
    exact ha (hatz.2.symm.trans ((activeAt_congr hplace).mp hat).2)
  complete j y a hy hat := by
    rw [getElem?_erase] at hy
    split_ifs at hy with hj
    obtain ⟨f, hf⟩ := h.complete j y a hy hat
    refine ⟨f, ?_⟩
    rw [getElem?_erase, if_neg, hf]
    rintro rfl
    exact hj (halone.eq hy hat).symm

theorem Mirrors.congr (h : Mirrors module start view isActive absolute m active)
    (hplaces : Places module start view)
    (hm : ∀ key : SymbolKey, m'[key]?.map view = m[key]?.map view) :
    Mirrors module start view isActive absolute m' active where
  sound address f hf := by
    obtain ⟨key, e, he, hview, hat⟩ := h.sound address f hf
    have hsome : m'[key]?.map view = some (view e) := by rw [hm, he, Option.map_some]
    obtain ⟨e', he', hview'⟩ := Option.map_eq_some_iff.mp hsome
    exact ⟨key, e', he', hview'.trans hview, (activeAt_congr (hplaces _ _ hview')).mpr hat⟩
  complete key e address he hat := by
    have hsome : m[key]?.map view = some (view e) := by rw [← hm, he, Option.map_some]
    obtain ⟨e', he', hview'⟩ := Option.map_eq_some_iff.mp hsome
    exact h.complete key e' address he' ((activeAt_congr (hplaces _ _ hview')).mpr hat)

theorem Mirrors.weaken (h : Mirrors module start id isActive absolute m active) (view : E → F) :
    Mirrors module start view isActive absolute m active where
  sound address f hf := by
    obtain ⟨key, e, he, rfl, hat⟩ := h.sound address f hf
    exact ⟨key, _, he, rfl, hat⟩
  complete := h.complete

theorem mirrors_activate {indexes : Std.TreeMap Int U32}
    (hindexes : ∀ (key : SymbolKey) e, m[key]? = some e →
      SymbolMap.activeKey indexes (module e) (start e) =
        if isActive (module e) then some (absolute (start e) (module e)) else none) :
    Mirrors module start id isActive absolute m (SymbolMap.activate module start indexes m) := by
  have hmem (e : E) : e ∈ m.toList.map (·.2) ↔ ∃ key : SymbolKey, m[key]? = some e := by
    simp only [List.mem_map, Prod.exists, Std.TreeMap.mem_toList_iff_getElem?_eq_some]
    simp
  have hkey {key : SymbolKey} {e : E} (he : m[key]? = some e) (address : U32) :
      SymbolMap.activeKey indexes (module e) (start e) = some address ↔
        ActiveAt module start isActive absolute address e := by
    rw [hindexes key e he, ActiveAt]
    split_ifs with hactive <;> simp [hactive]
  constructor
  · intro address f hf
    rw [SymbolMap.activate, getElem?_collect_eq] at hf
    obtain ⟨key, he⟩ := (hmem f).mp (List.mem_of_find?_eq_some hf)
    exact ⟨key, f, he, rfl, (hkey he address).mp (by simpa using List.find?_some hf)⟩
  · intro key e address he hat
    rw [SymbolMap.activate, getElem?_collect_eq, ← Option.isSome_iff_exists, List.find?_isSome]
    exact ⟨e, (hmem e).mpr ⟨key, he⟩, by simpa using (hkey he address).mpr hat⟩

theorem Keyed.insert (h : Keyed module start m) (he : key = (module e, start e)) :
    Keyed module start (m.insert key e) := by
  intro j x hx
  rw [getElem?_insert] at hx
  split_ifs at hx with hj
  · cases hx
    rw [← hj, he]
  · exact h j x hx

theorem Keyed.erase (h : Keyed module start m) (key : SymbolKey) :
    Keyed module start (m.erase key) := by
  intro j x hx
  rw [getElem?_erase] at hx
  split_ifs at hx
  exact h j x hx

theorem Keyed.congr (h : Keyed module start m) (hplaces : Places module start view)
    (hm : ∀ key : SymbolKey, m'[key]?.map view = m[key]?.map view) : Keyed module start m' := by
  intro key e he
  have hsome : m[key]?.map view = some (view e) := by rw [← hm, he, Option.map_some]
  obtain ⟨e', he', hview⟩ := Option.map_eq_some_iff.mp hsome
  rw [h key e' he', (hplaces _ _ hview).1, (hplaces _ _ hview).2]

/-- An entry is put under its key: the one that is there is changed, one is made, or all stays. -/
inductive Puts (module : E → Int) (start : E → U32) (isActive : Int → Bool) (address : U32)
    (key : SymbolKey) (m : Symbols E) (active : ByAddress E) : Symbols E → ByAddress E → Prop
  | changed {x y : E} (hold : m[key]? = some x) (hplace : module y = module x ∧ start y = start x) :
      Puts module start isActive address key m active (m.insert key y)
        (SymbolMap.refresh module active address (module y) y)
  | made {y : E} (hnew : m[key]? = none) (hkey : key = (module y, start y)) :
      Puts module start isActive address key m active (m.insert key y)
        (if isActive (module y) then active.insertIfNew address y else active)
  | kept : Puts module start isActive address key m active m active

variable {active' : ByAddress E}

theorem Keyed.puts (h : Keyed module start m)
    (hputs : Puts module start isActive address key m active m' active') :
    Keyed module start m' := by
  cases hputs with
  | changed hold hplace =>
    refine h.insert ?_
    rw [h _ _ hold, hplace.1, hplace.2]
  | made _ hkey => exact h.insert hkey
  | kept => exact h

theorem Mirrors.puts (h : Mirrors module start view isActive absolute m active)
    (hplaces : Places module start view) (hkeyed : Keyed module start m)
    (haddress : absolute key.2 key.1 = address)
    (hputs : Puts module start isActive address key m active m' active') :
    Mirrors module start view isActive absolute m' active' := by
  cases hputs with
  | changed hold hplace =>
    refine h.replace hplaces hold hplace ?_
    rw [hplace.1, hplace.2, ← haddress, hkeyed _ _ hold]
  | made hnew hkey =>
    subst hkey
    rw [← haddress]
    exact h.insert hnew
  | kept => exact h

theorem Puts.none (hputs : Puts module start isActive address key m active m' active')
    {j : SymbolKey} (hj : m[j]? = none) (hkey : j ≠ key) : m'[j]? = none := by
  cases hputs with
  | kept => exact hj
  | _ => rw [getElem?_insert, if_neg hkey.symm, hj]

theorem map_view_modify {g : E → E} (hg : ∀ e, view (g e) = view e) (key j : SymbolKey) :
    (m.modify key g)[j]?.map view = m[j]?.map view := by
  rw [getElem?_modify]
  split_ifs
  · rw [Option.map_map]
    exact congrFun (congrArg Option.map (funext hg)) _
  · rfl

end Entries

end OmegaRed.DebugTools
