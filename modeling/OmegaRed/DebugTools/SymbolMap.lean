import OmegaRed.Lib.OrderedMaps

/-! The symbols of the debugger, by module and by address. -/

namespace OmegaRed.DebugTools

open Lib

abbrev U32 := BitVec 32

abbrev SymbolKey := Int × U32

/-- A `std::map` over `SymbolKey`. -/
abbrev Symbols (E : Type) := Std.TreeMap SymbolKey E lexOrd.compare

/-- A `std::map` over `u32`. -/
abbrev ByAddress (E : Type) := Std.TreeMap U32 E

structure FunctionEntry where
  start : U32
  size : U32
  index : Nat
  module : Int
deriving DecidableEq

structure LabelEntry where
  addr : U32
  module : Int
  name : List UInt8
deriving DecidableEq

inductive DataType
  | DATATYPE_NONE
  | DATATYPE_BYTE
  | DATATYPE_HALFWORD
  | DATATYPE_WORD
  | DATATYPE_ASCII
deriving DecidableEq

structure DataEntry where
  type : DataType
  start : U32
  size : U32
  module : Int
deriving DecidableEq

structure ModuleEntry where
  index : Int
  start : U32
  size : U32
  name : List UInt8
deriving DecidableEq

structure SymbolMap where
  activeFunctions : ByAddress FunctionEntry
  activeLabels : ByAddress LabelEntry
  activeData : ByAddress DataEntry
  activeModuleEnds : ByAddress ModuleEntry
  functions : Symbols FunctionEntry
  labels : Symbols LabelEntry
  data : Symbols DataEntry
  modules : List ModuleEntry

/-- `strncpy` to 128 bytes, the last one 0. -/
def strncpy (name : List UInt8) : List UInt8 := name.take 127

namespace SymbolMap

def empty : SymbolMap := ⟨∅, ∅, ∅, ∅, ∅, ∅, ∅, []⟩

/-! ## Modules -/

/-- `upper_bound` of the ends. -/
def upperBound (s : SymbolMap) (address : U32) : Option ModuleEntry :=
  (s.activeModuleEnds.toList.find? fun m => address < m.1).map (·.2)

def GetModuleIndex (s : SymbolMap) (address : U32) : Int :=
  match s.upperBound address with
  | none => -1
  | some mod => mod.index

def GetModuleRelativeAddr (s : SymbolMap) (address : U32) (moduleIndex : Int) : U32 :=
  let moduleIndex := if moduleIndex = -1 then s.GetModuleIndex address else moduleIndex
  match s.modules.find? fun mod => mod.index = moduleIndex with
  | some mod => address - mod.start
  | none => address

def GetModuleAbsoluteAddr (s : SymbolMap) (relative : U32) (moduleIndex : Int) : U32 :=
  match s.modules.find? fun mod => mod.index = moduleIndex with
  | some mod => mod.start + relative
  | none => relative

def IsModuleActive (s : SymbolMap) (moduleIndex : Int) : Bool :=
  moduleIndex = 0 || s.activeModuleEnds.toList.any fun m => m.2.index = moduleIndex

/-! ## The active symbols -/

/-- The next numbers for the functions of one module. -/
def assignModule (x : Symbols FunctionEntry × Nat) (moduleIndex : Int) :
    Symbols FunctionEntry × Nat :=
  (x.1.keys.filter fun key => key.1 = moduleIndex).foldl
    (fun x key => (x.1.modify key fun func => { func with index := x.2 }, x.2 + 1)) x

def AssignFunctionIndices (s : SymbolMap) : SymbolMap :=
  { s with functions :=
    (s.activeModuleEnds.toList.foldl (fun x mod => assignModule x mod.2.index) (s.functions, 0)).1 }

/-- `activeModuleIndexes` -/
def activeModuleIndexes (s : SymbolMap) : Std.TreeMap Int U32 :=
  s.activeModuleEnds.toList.foldl (fun indexes mod => indexes.insert mod.2.index mod.2.start) ∅

/-- Where an entry of the module is active. -/
def activeKey (indexes : Std.TreeMap Int U32) (module : Int) (start : U32) : Option U32 :=
  if module ≤ 0 then some start else indexes[module]?.map (· + start)

/-- One of the three loops of `UpdateActiveSymbols`. -/
def activate {E : Type} (module : E → Int) (start : E → U32) (indexes : Std.TreeMap Int U32)
    (entries : Symbols E) : ByAddress E :=
  OrderedMaps.collect compare (fun e => activeKey indexes (module e) (start e))
    (entries.toList.map (·.2))

def UpdateActiveSymbols (s : SymbolMap) : SymbolMap :=
  AssignFunctionIndices { s with
    activeFunctions :=
      activate FunctionEntry.module FunctionEntry.start s.activeModuleIndexes s.functions
    activeLabels :=
      activate LabelEntry.module LabelEntry.addr s.activeModuleIndexes s.labels
    activeData := activate DataEntry.module DataEntry.start s.activeModuleIndexes s.data }

/-- `AddModule` up to the update: a module of the name is placed again, or a new one is made. -/
def placeModule (s : SymbolMap) (name : List UInt8) (address size : U32) : SymbolMap :=
  match s.modules.findIdx? fun mod => mod.name = name with
  | some i =>
    let modules := s.modules.modify i fun mod => { mod with start := address, size := size }
    { s with
      modules
      activeModuleEnds :=
        match modules[i]? with
        | some mod => s.activeModuleEnds.insertIfNew (address + size) mod
        | none => s.activeModuleEnds }
  | none =>
    let mod := ⟨s.modules.length + 1, address, size, strncpy name⟩
    { s with
      modules := s.modules ++ [mod]
      activeModuleEnds := s.activeModuleEnds.insertIfNew (address + size) mod }

def AddModule (s : SymbolMap) (name : List UInt8) (address size : U32) : SymbolMap :=
  UpdateActiveSymbols (s.placeModule name address size)

def UnloadModule (s : SymbolMap) (address size : U32) : SymbolMap :=
  UpdateActiveSymbols { s with activeModuleEnds := s.activeModuleEnds.erase (address + size) }

/-! ## Symbols -/

/-- The module that is meant by -1. -/
def moduleAt (s : SymbolMap) (address : U32) (moduleIndex : Int) : Int :=
  if moduleIndex = -1 then s.GetModuleIndex address else moduleIndex

/-- The key of an entry at the address, in the module or else in none. -/
def existingKey {E : Type} (m : Symbols E) (symbolKey : SymbolKey) (address : U32) :
    Option SymbolKey :=
  if symbolKey ∈ m then some symbolKey else if (0, address) ∈ m then some (0, address) else none

/-- An active entry of the module is replaced. -/
def refresh {E : Type} (module : E → Int) (active : ByAddress E) (address : U32)
    (moduleIndex : Int) (entry : E) : ByAddress E :=
  match active[address]? with
  | some old =>
    if module old = moduleIndex then (active.erase address).insertIfNew address entry else active
  | none => active

def AddLabel (s : SymbolMap) (name : List UInt8) (address : U32) (moduleIndex : Int) : SymbolMap :=
  let moduleIndex := s.moduleAt address moduleIndex
  let relAddress := s.GetModuleRelativeAddr address moduleIndex
  match existingKey s.labels (moduleIndex, relAddress) address with
  | some key =>
    match s.labels[key]? with
    | some existing =>
      if existing.module ≠ moduleIndex then
        let label := { existing with addr := relAddress, module := moduleIndex }
        { s with
          labels := s.labels.insert key label
          activeLabels := refresh LabelEntry.module s.activeLabels address moduleIndex label }
      else s
    | none => s
  | none =>
    let label := ⟨relAddress, moduleIndex, strncpy name⟩
    { s with
      labels := s.labels.insert (moduleIndex, relAddress) label
      activeLabels :=
        if s.IsModuleActive moduleIndex then s.activeLabels.insertIfNew address label
        else s.activeLabels }

/-- `AddFunction` without its label. -/
def putFunction (s : SymbolMap) (address size : U32) (moduleIndex : Int) : SymbolMap :=
  let relAddress := s.GetModuleRelativeAddr address moduleIndex
  match existingKey s.functions (moduleIndex, relAddress) address with
  | some key =>
    match s.functions[key]? with
    | some existing =>
      let func := if existing.module ≠ moduleIndex then
          { existing with size := size, start := relAddress, module := moduleIndex }
        else { existing with size := size }
      { s with
        functions := s.functions.insert key func
        activeFunctions :=
          refresh FunctionEntry.module s.activeFunctions address moduleIndex func }
    | none => s
  | none =>
    let func := ⟨relAddress, size, s.functions.size, moduleIndex⟩
    { s with
      functions := s.functions.insert (moduleIndex, relAddress) func
      activeFunctions :=
        if s.IsModuleActive moduleIndex then s.activeFunctions.insertIfNew address func
        else s.activeFunctions }

def AddFunction (s : SymbolMap) (name : List UInt8) (address size : U32) (moduleIndex : Int) :
    SymbolMap :=
  let moduleIndex := s.moduleAt address moduleIndex
  (s.putFunction address size moduleIndex).AddLabel name address moduleIndex

def AddData (s : SymbolMap) (address size : U32) (type : DataType) (moduleIndex : Int) :
    SymbolMap :=
  let moduleIndex := s.moduleAt address moduleIndex
  let relAddress := s.GetModuleRelativeAddr address moduleIndex
  match existingKey s.data (moduleIndex, relAddress) address with
  | some key =>
    match s.data[key]? with
    | some existing =>
      let entry := if existing.module ≠ moduleIndex then
          { existing with size := size, type := type, module := moduleIndex, start := relAddress }
        else { existing with size := size, type := type }
      { s with
        data := s.data.insert key entry
        activeData := refresh DataEntry.module s.activeData address moduleIndex entry }
    | none => s
  | none =>
    let entry := ⟨type, relAddress, size, moduleIndex⟩
    { s with
      data := s.data.insert (moduleIndex, relAddress) entry
      activeData :=
        if s.IsModuleActive moduleIndex then s.activeData.insertIfNew address entry
        else s.activeData }

def GetFunctionSize (s : SymbolMap) (startAddress : U32) : U32 :=
  match s.activeFunctions[startAddress]? with
  | none => -1
  | some func => func.size

/-- `SetFunctionSize` up to the update, and whether there is one. -/
def resize (s : SymbolMap) (startAddress newSize : U32) : SymbolMap × Bool :=
  match s.activeFunctions[startAddress]? with
  | some funcInfo =>
    if (funcInfo.module, funcInfo.start) ∈ s.functions then
      ({ s with
        functions := s.functions.modify (funcInfo.module, funcInfo.start) fun func =>
          { func with size := newSize } }, true)
    else (s, false)
  | none => (s, false)

def SetFunctionSize (s : SymbolMap) (startAddress newSize : U32) : SymbolMap :=
  match s.resize startAddress newSize with
  | (s, true) => s.UpdateActiveSymbols
  | (s, false) => s

def RemoveFunction (s : SymbolMap) (startAddress : U32) (removeName : Bool) : SymbolMap :=
  match s.activeFunctions[startAddress]? with
  | none => s
  | some func =>
    let s := { s with
      functions := s.functions.erase (func.module, func.start)
      activeFunctions := s.activeFunctions.erase startAddress }
    if removeName then
      match s.activeLabels[startAddress]? with
      | none => s
      | some label =>
        { s with
          labels := s.labels.erase (label.module, label.addr)
          activeLabels := s.activeLabels.erase startAddress }
    else s

/-- `SetLabelName` for a label that is active, up to the update, and whether it is there. -/
def rename (s : SymbolMap) (name : List UInt8) (label : LabelEntry) : SymbolMap × Bool :=
  if (label.module, label.addr) ∈ s.labels then
    ({ s with
      labels := s.labels.modify (label.module, label.addr) fun label =>
        { label with name := strncpy name } }, true)
  else (s, false)

def SetLabelName (s : SymbolMap) (name : List UInt8) (address : U32) (updateImmediately : Bool) :
    SymbolMap :=
  match s.activeLabels[address]? with
  | none => s.AddLabel name address (-1)
  | some label =>
    match s.rename name label with
    | (s, true) => if updateImmediately then s.UpdateActiveSymbols else s
    | (s, false) => s

end SymbolMap

end OmegaRed.DebugTools
