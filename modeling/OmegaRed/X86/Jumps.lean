import OmegaRed.X86.AddressExact

/-! The jumps of the x86 emitter, and where they lead. -/

namespace OmegaRed.X86

open Lib.ModRm

abbrev Memory := BitVec 32 → u8

/-- Memory with some bytes from an address on. -/
def patch (mem : Memory) (p : BitVec 32) (bytes : List u8) : Memory := fun a =>
  if h : (a - p).toNat < bytes.length then bytes.get ⟨(a - p).toNat, h⟩ else mem a

/-- The memory, and `x86Ptr`. -/
structure Emitter where
  mem : Memory
  ptr : BitVec 32

/-- `none` is `Jcc_Unconditional`. -/
abbrev JccComparisonType := Option (Fin 16)

namespace Emitter

variable (e : Emitter)

def xWrite (bytes : List u8) : Emitter :=
  ⟨patch e.mem e.ptr bytes, e.ptr + BitVec.ofNat 32 bytes.length⟩

def xAdvancePtr (IsDevBuild : Bool) (bytes : Nat) : Emitter :=
  if IsDevBuild then e.xWrite (List.replicate bytes 0xcc)
  else { e with ptr := e.ptr + BitVec.ofNat 32 bytes }

end Emitter

def opcode8 : JccComparisonType → u8
  | none => 0xeb
  | some cc => 0x70#8 ||| BitVec.ofNat 8 cc

def opcode32 : JccComparisonType → List u8
  | none => [0xe9]
  | some cc => [0x0f, 0x80#8 ||| BitVec.ofNat 8 cc]

namespace Emitter

variable (e : Emitter) (cc : JccComparisonType)

def xJcc8 (displacement : u8) : Emitter := e.xWrite [opcode8 cc, displacement]

def xJcc32 (displacement : s32) : Emitter := e.xWrite (opcode32 cc ++ bytes32 displacement)

def slideVal (slideForward : Bool) : BitVec 32 :=
  if slideForward then if cc = none then 3 else 4 else 0

/-- `none` is a failed assertion. -/
def xJccKnownTarget (target : BitVec 32) (slideForward : Bool) : Option Emitter :=
  let displacement8 := target - (e.ptr + 2) - slideVal cc slideForward
  if slideForward ∧ displacement8.toInt < 0 then none
  else if is_s8 displacement8 then some (e.xJcc8 cc (displacement8.setWidth 8))
  else
    let e := e.xJcc32 cc 0
    let distance := target - e.ptr
    some { e with mem := patch e.mem (e.ptr - 4) (bytes32 distance) }

def GetMaxInstructionSize : Nat := if cc = none then 5 else 6

end Emitter

/-- The copy takes the bytes as they were. -/
def memcpy (mem : Memory) (dest src : BitVec 32) (n : Nat) : Memory := fun a =>
  if (a - dest).toNat < n then mem (src + (a - dest)) else mem a

structure xSmartJump where
  m_baseptr : BitVec 32
  m_cc : JccComparisonType

namespace xSmartJump

def new (IsDevBuild : Bool) (e : Emitter) (cc : JccComparisonType) : xSmartJump × Emitter :=
  (⟨e.ptr, cc⟩, e.xAdvancePtr IsDevBuild (Emitter.GetMaxInstructionSize cc))

def SetTarget (j : xSmartJump) (e : Emitter) : Option Emitter := do
  let target := e.ptr
  if j.m_baseptr = 0 then return e
  let saveme := j.m_baseptr + BitVec.ofNat 32 (Emitter.GetMaxInstructionSize j.m_cc)
  let e ← Emitter.xJccKnownTarget { e with ptr := j.m_baseptr } j.m_cc target true
  let spacer := saveme - e.ptr
  if spacer ≠ 0 then
    some ⟨memcpy e.mem e.ptr saveme (target - saveme).toNat, target - spacer⟩
  else some e

end xSmartJump

structure xForwardJump where
  BasePtr : BitVec 32
  short : Bool

namespace xForwardJump

def new (IsDevBuild : Bool) (e : Emitter) (short : Bool) (cc : JccComparisonType) :
    xForwardJump × Emitter :=
  (⟨e.ptr + if short then 2 else if cc = none then 5 else 6, short⟩,
    (e.xWrite (if short then [opcode8 cc] else opcode32 cc)).xAdvancePtr IsDevBuild
      (if short then 1 else 4))

/-- `none` is a failed assertion. -/
def SetTarget (j : xForwardJump) (e : Emitter) : Option Emitter :=
  let displacement := e.ptr - j.BasePtr
  if j.short then
    if is_s8 displacement then
      some { e with mem := patch e.mem (j.BasePtr - 1) [displacement.setWidth 8] }
    else none
  else some { e with mem := patch e.mem (j.BasePtr - 4) (bytes32 displacement) }

end xForwardJump

/-- The four bytes at an address. -/
def word (mem : Memory) (a : BitVec 32) : BitVec 32 :=
  BitVec.ofNat 32 ((mem a).toNat + 256 * (mem (a + 1)).toNat + 65536 * (mem (a + 2)).toNat +
    16777216 * (mem (a + 3)).toNat)

local instance neZero_conditions : NeZero 16 := ⟨by decide⟩

/-- The jump at an address, as the processor takes it: its condition, its target, and the
instruction after it. -/
def decodeJump (mem : Memory) (a : BitVec 32) :
    Option (JccComparisonType × BitVec 32 × BitVec 32) :=
  let op := mem a
  if op = 0xeb then some (none, a + 2 + (mem (a + 1)).signExtend 32, a + 2)
  else if op = 0xe9 then some (none, a + 5 + word mem (a + 1), a + 5)
  else if op.toNat / 16 = 7 then
    some (some (Fin.ofNat 16 op.toNat), a + 2 + (mem (a + 1)).signExtend 32, a + 2)
  else if op = 0x0f ∧ (mem (a + 1)).toNat / 16 = 8 then
    some (some (Fin.ofNat 16 (mem (a + 1)).toNat), a + 6 + word mem (a + 2), a + 6)
  else none

/-- These bytes are at an address. -/
def Holds (mem : Memory) (a : BitVec 32) (bytes : List u8) : Prop :=
  ∀ k (hk : k < bytes.length), mem (a + BitVec.ofNat 32 k) = bytes[k]

/-- A jump to a known target leads there. -/
def KnownRight (e : Emitter) (cc : JccComparisonType) (target : BitVec 32) : Prop :=
  ∃ e', e.xJccKnownTarget cc target false = some e' ∧
    decodeJump e'.mem e.ptr = some (cc, target, e'.ptr)

/-- A jump over some code leads to its end, and the code is as it was written. -/
def Over (mem : Memory) (a : BitVec 32) (cc : JccComparisonType) (code : List u8)
    (e : Emitter) : Prop :=
  ∃ next, decodeJump mem a = some (cc, e.ptr, next) ∧ Holds mem next code ∧
    e.ptr = next + BitVec.ofNat 32 code.length

def ForwardRight (IsDevBuild : Bool) (e : Emitter) (short : Bool) (cc : JccComparisonType)
    (code : List u8) : Prop :=
  ∃ e', (xForwardJump.new IsDevBuild e short cc).1.SetTarget
    ((xForwardJump.new IsDevBuild e short cc).2.xWrite code) = some e' ∧
      Over e'.mem e.ptr cc code e'

def SmartRight (IsDevBuild : Bool) (e : Emitter) (cc : JccComparisonType) (code : List u8) :
    Prop :=
  ∃ e', (xSmartJump.new IsDevBuild e cc).1.SetTarget
    ((xSmartJump.new IsDevBuild e cc).2.xWrite code) = some e' ∧ Over e'.mem e.ptr cc code e'

/-- What a recompiler asks the emitter for. -/
inductive Emission
  | address (o : Operand) (regfield : Reg)
  | known (e : Emitter) (cc : JccComparisonType) (target : BitVec 32)
  | forward (IsDevBuild : Bool) (e : Emitter) (short : Bool) (cc : JccComparisonType)
    (code : List u8)
  | smart (IsDevBuild : Bool) (e : Emitter) (cc : JccComparisonType) (code : List u8)

namespace Emission

/-- The sum has a form, and the code has an address and less than 2 GB. -/
def Valid : Emission → Prop
  | address o _ => o.value.HasForm
  | known _ _ _ => True
  | forward _ _ _ _ code => code.length < 2 ^ 31
  | smart _ e _ code => e.ptr ≠ 0 ∧ code.length < 2 ^ 31

/-- What is written decodes to what was asked for. -/
def Right : Emission → Prop
  | address o regfield => o.Right regfield
  | known e cc target => KnownRight e cc target
  | forward IsDevBuild e short cc code => ForwardRight IsDevBuild e short cc code
  | smart IsDevBuild e cc code => SmartRight IsDevBuild e cc code

def Fits : Emission → Prop
  | address o _ => o.Fits
  | known _ _ _ => True
  | forward _ _ short _ code => short = true → code.length ≤ 127
  | smart _ _ _ code => code.length ≤ 127

end Emission

end OmegaRed.X86
