import Mathlib

/-! The 32-bit addressing forms of x86, and how an instruction names them. -/

namespace OmegaRed.Lib.ModRm

scoped instance neZero_modes : NeZero 4 := ⟨by decide⟩
scoped instance neZero_regs : NeZero 8 := ⟨by decide⟩

/-- eax, ecx, edx, ebx, esp, ebp, esi, edi -/
abbrev Reg := Fin 8

abbrev esp : Reg := 4

abbrev ebp : Reg := 5

/-- Registers with coefficients, and a displacement. -/
@[ext] structure Sum where
  coef : Reg → Nat
  disp : BitVec 32

/-- A base, and an index with a scale. -/
structure Form where
  base : Option Reg
  index : Option (Reg × Fin 4)
  disp : BitVec 32

namespace Form

/-- How often a register counts as the index. -/
def indexed (f : Form) (r : Reg) : Nat :=
  match f.index with
  | none => 0
  | some (i, s) => if i = r then 2 ^ s.val else 0

def sum (f : Form) : Sum := ⟨fun r => (if f.base = some r then 1 else 0) + f.indexed r, f.disp⟩

end Form

/-- A sum that an instruction can name: esp is no index. -/
def Sum.HasForm (σ : Sum) : Prop :=
  ∃ f : Form, (∀ s, f.index ≠ some (esp, s)) ∧ f.sum = σ

/-! The bytes: fields of 2, 3 and 3 bits, and a displacement. -/

def field2 (b : BitVec 8) : Fin 4 := ⟨b.toNat / 64 % 4, Nat.mod_lt _ (by decide)⟩

def field1 (b : BitVec 8) : Reg := ⟨b.toNat / 8 % 8, Nat.mod_lt _ (by decide)⟩

def field0 (b : BitVec 8) : Reg := ⟨b.toNat % 8, Nat.mod_lt _ (by decide)⟩

def decodeDisp32 : List (BitVec 8) → Option (BitVec 32 × List (BitVec 8))
  | a :: b :: c :: d :: rest =>
    some (BitVec.ofNat 32 (a.toNat + 256 * b.toNat + 65536 * c.toNat + 16777216 * d.toNat), rest)
  | _ => none

def decodeDisp8 : List (BitVec 8) → Option (BitVec 32 × List (BitVec 8))
  | a :: rest => some (a.signExtend 32, rest)
  | _ => none

/-- The displacement after a ModRM byte with this `mod`. -/
def decodeDisp (mod : Fin 4) (bytes : List (BitVec 8)) : Option (BitVec 32 × List (BitVec 8)) :=
  if mod = 0 then some (0, bytes) else if mod = 1 then decodeDisp8 bytes else decodeDisp32 bytes

def decodeSib (mod : Fin 4) (reg : Reg) :
    List (BitVec 8) → Option (Reg × Form × List (BitVec 8))
  | sib :: rest =>
    let index := if field1 sib = esp then none else some (field1 sib, field2 sib)
    if field0 sib = ebp ∧ mod = 0 then
      (decodeDisp32 rest).map fun d => (reg, ⟨none, index, d.1⟩, d.2)
    else (decodeDisp mod rest).map fun d => (reg, ⟨some (field0 sib), index, d.1⟩, d.2)
  | [] => none

/-- The register field and the address of an instruction, and what follows them. -/
def decode : List (BitVec 8) → Option (Reg × Form × List (BitVec 8))
  | m :: rest =>
    if field2 m = 3 then none
    else if field0 m = esp then decodeSib (field2 m) (field1 m) rest
    else if field0 m = ebp ∧ field2 m = 0 then
      (decodeDisp32 rest).map fun d => (field1 m, ⟨none, none, d.1⟩, d.2)
    else (decodeDisp (field2 m) rest).map fun d => (field1 m, ⟨some (field0 m), none, d.1⟩, d.2)
  | [] => none

/-- Three fields in a byte. -/
def pack (a : Nat) (b c : Reg) : BitVec 8 := BitVec.ofNat 8 (a <<< 6 ||| b.val <<< 3 ||| c.val)

theorem pack_fields : ∀ (a : Fin 4) (b c : Reg), field2 (pack a b c) = a ∧
    field1 (pack a b c) = b ∧ field0 (pack a b c) = c := by
  decide +kernel

@[simp] theorem field2_pack (a : Fin 4) (b c : Reg) : field2 (pack a b c) = a :=
  (pack_fields a b c).1

@[simp] theorem field1_pack (a : Fin 4) (b c : Reg) : field1 (pack a b c) = b :=
  (pack_fields a b c).2.1

@[simp] theorem field0_pack (a : Fin 4) (b c : Reg) : field0 (pack a b c) = c :=
  (pack_fields a b c).2.2

/-- The low byte comes first. -/
def bytes32 (d : BitVec 32) : List (BitVec 8) :=
  [BitVec.ofNat 8 d.toNat, BitVec.ofNat 8 (d.toNat / 256), BitVec.ofNat 8 (d.toNat / 65536),
    BitVec.ofNat 8 (d.toNat / 16777216)]

theorem decodeDisp32_bytes32 (d : BitVec 32) (rest : List (BitVec 8)) :
    decodeDisp32 (bytes32 d ++ rest) = some (d, rest) := by
  have hlt := d.isLt
  simp only [bytes32, List.cons_append, List.nil_append, decodeDisp32, Option.some.injEq,
    Prod.mk.injEq, and_true, BitVec.toNat_ofNat]
  refine BitVec.eq_of_toNat_eq ?_
  rw [BitVec.toNat_ofNat]
  omega

end OmegaRed.Lib.ModRm
