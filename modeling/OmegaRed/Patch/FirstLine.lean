import OmegaRed.Lib.Words
import OmegaRed.Patch.CodeBreaker

/-! The first line of a code does what its decoding says, unless it is taken for a condition. -/

namespace OmegaRed.Patch

open Lib.Masks

universe u

theorem and_f0000000_eq_iff (a c : UInt32) (hc : c.toNat % 2 ^ 28 = 0) :
    a &&& 0xf0000000 = c ↔ a.toNat / 2 ^ 28 = c.toNat / 2 ^ 28 := by
  have hlt := a.toNat_lt
  rw [← UInt32.toNat_inj, UInt32.toNat_and, show (0xf0000000 : UInt32).toNat = (2 ^ 4 - 1) * 2 ^ 28 from rfl,
    and_field a.toNat 28 4]
  omega

theorem and_ffff0000_eq_iff (a c : UInt32) (hc : c.toNat % 2 ^ 16 = 0) :
    a &&& 0xffff0000 = c ↔ a.toNat / 2 ^ 16 = c.toNat / 2 ^ 16 := by
  have hlt := a.toNat_lt
  rw [← UInt32.toNat_inj, UInt32.toNat_and,
    show (0xffff0000 : UInt32).toNat = (2 ^ 16 - 1) * 2 ^ 16 from rfl, and_field a.toNat 16 16]
  omega

theorem and_00f00000_eq_iff (a c : UInt64) (hc : c.toNat % 2 ^ 20 = 0) :
    a &&& 0x00f00000 = c ↔ a.toNat / 2 ^ 20 % 16 = c.toNat / 2 ^ 20 := by
  rw [← UInt64.toNat_inj, UInt64.toNat_and,
    show (0x00f00000 : UInt64).toNat = (2 ^ 4 - 1) * 2 ^ 20 from rfl, and_field a.toNat 20 4]
  omega

theorem and_ffff0000_div (a : UInt32) : (a &&& (0xffff0000 : UInt32)) / (0x10000 : UInt32) = a >>> 16 := by
  have hlt := a.toNat_lt
  rw [← UInt32.toNat_inj, UInt32.toNat_div, UInt32.toNat_and, UInt32.toNat_shiftRight,
    show (0xffff0000 : UInt32).toNat = (2 ^ 16 - 1) * 2 ^ 16 from rfl, and_field a.toNat 16 16]
  simp only [UInt32.reduceToNat, Nat.reduceMod, Nat.shiftRight_eq_div_pow]
  omega

theorem and_0f000000_div_eq_iff (a c : UInt32) :
    (a &&& (0x0f000000 : UInt32)) / (0x01000000 : UInt32) = c ↔ a.toNat / 2 ^ 24 % 16 = c.toNat := by
  rw [← UInt32.toNat_inj, UInt32.toNat_div, UInt32.toNat_and,
    show (0x0f000000 : UInt32).toNat = (2 ^ 4 - 1) * 2 ^ 24 from rfl, and_field a.toNat 24 4]
  simp only [UInt32.reduceToNat]
  omega

theorem and_00ff0000_div (a : UInt32) :
    (a &&& (0x00ff0000 : UInt32)) / (0x10000 : UInt32) = UInt32.ofNat (a.toNat / 2 ^ 16 % 256) := by
  rw [← UInt32.toNat_inj, UInt32.toNat_div, UInt32.toNat_and, UInt32.toNat_ofNat',
    show (0x00ff0000 : UInt32).toNat = (2 ^ 8 - 1) * 2 ^ 16 from rfl, and_field a.toNat 16 8]
  simp only [UInt32.reduceToNat]
  omega

theorem and_000f0000_shift_eq_iff (a c : UInt32) :
    (a &&& (0x000f0000 : UInt32)) >>> 16 = c ↔ a.toNat / 2 ^ 16 % 16 = c.toNat := by
  rw [← UInt32.toNat_inj, UInt32.toNat_shiftRight, UInt32.toNat_and,
    show (0x000f0000 : UInt32).toNat = (2 ^ 4 - 1) * 2 ^ 16 from rfl, and_field a.toNat 16 4]
  simp only [UInt32.reduceToNat, Nat.reduceMod, Nat.shiftRight_eq_div_pow]
  omega

theorem toNat_and_ffff (a : UInt32) : (a &&& 0x0000ffff).toNat = a.toNat % 2 ^ 16 := by
  rw [UInt32.toNat_and]
  exact Nat.and_two_pow_sub_one_eq_mod a.toNat 16

theorem toUInt8_and_ff (x : UInt8) : x &&& 0xff = x := UInt8.and_neg_one

theorem toUInt16_and_ffff (x : UInt16) : x &&& 0xffff = x := UInt16.and_neg_one

@[simp] theorem IniPatch.toUInt8_data32 (p : IniPatch) : p.data32.toUInt8 = p.data.toUInt8 := by
  simp [IniPatch.data32]

@[simp] theorem IniPatch.toUInt16_data32 (p : IniPatch) :
    p.data32.toUInt16 = p.data.toUInt16 := by
  simp [IniPatch.data32]

variable {M : Type u} (io : MemOps M) (p : IniPatch) {s : Globals} (m : M)

/-- Between codes nothing is skipped and no line is awaited. -/
structure Globals.Clean (s : Globals) : Prop where
  skipCount_eq : s.skipCount = 0
  prevCheatType_eq : s.prevCheatType = 0

theorem Globals.Clean.clear (h : s.Clean) : { s with prevCheatType := 0 } = s := by
  rw [← h.prevCheatType_eq]

theorem Globals.Clean.skip_eq (h : s.Clean) (fails : Prop) [Decidable fails] (lines : UInt32) :
    s.skip fails lines = { s with skipCount := if fails then lines else 0 } := by
  rw [Globals.skip, h.skipCount_eq, ← h.prevCheatType_eq]

/-- What the first line of a code leaves: the effect of a code of one line, and what the other
lines need of a longer one. -/
def Code.begin (s : Globals) (m : M) : Code → Globals × M
  | .write w a v => (s, io.write w m a v)
  | .modify w op a v => (s, io.write w m a (op.apply (io.read w m a) v))
  | .cond w c a v lines =>
    ({ s with skipCount := if c.Holds (io.read w m a) v then 0 else .ofNat lines }, m)
  | .none => (s, m)
  | .modifyWord op a =>
    ({ s with prevCheatType := if op = .add then 0x3040 else 0x3050, prevCheatAddr := a }, m)
  | .slide a n step =>
    ({ s with
      iterationCount := n, iterationIncrement := step, prevCheatAddr := a
      prevCheatType := 0x4000 }, m)
  | .copy a n => ({ s with prevCheatAddr := a, iterationCount := n, prevCheatType := 0x5000 }, m)
  | .pointer a v =>
    ({ s with
      prevCheatAddr := a, iterationIncrement := v, iterationCount := 0
      prevCheatType := 0x6000 }, m)

theorem firstLine_write (h : s.Clean) (hn : p.nibble < 3) :
    firstLine io p s m = p.decode.begin io s m := by
  have hcases : p.nibble = 0 ∨ p.nibble = 1 ∨ p.nibble = 2 := by omega
  simp only [firstLine, and_f0000000_eq_iff _ 0x00000000 (by decide),
    and_f0000000_eq_iff _ 0x10000000 (by decide), and_f0000000_eq_iff _ 0x20000000 (by decide),
    UInt32.reduceToNat, Nat.reducePow, Nat.reduceDiv, h.clear]
  rcases hcases with hn | hn | hn
  · rw [IniPatch.decode, hn]
    simp only [IniPatch.nibble, Nat.reducePow] at hn
    rw [if_pos hn, toUInt8_and_ff]
    simp [Code.begin, MemOps.write, IniPatch.address]
  · rw [IniPatch.decode, hn]
    simp only [IniPatch.nibble, Nat.reducePow] at hn
    rw [if_neg (by omega), if_pos hn, toUInt16_and_ffff]
    simp [Code.begin, MemOps.write, IniPatch.address]
  · rw [IniPatch.decode, hn]
    simp only [IniPatch.nibble, Nat.reducePow] at hn
    rw [if_neg (by omega), if_neg (by omega), if_pos hn]
    simp [Code.begin, MemOps.write, IniPatch.address]

/-- A line of no opcode, which the chain of tests takes for a condition. -/
def IniPatch.Stray : Prop :=
  (p.nibble = 3 ∧ p.addr.toNat / 2 ^ 16 ∉ [0x3000, 0x3010, 0x3020, 0x3030, 0x3040, 0x3050]) ∨
    8 ≤ p.nibble ∧ p.nibble ≤ 12

instance : Decidable p.Stray := inferInstanceAs (Decidable (_ ∨ _))

theorem firstLine_three (h : s.Clean) (hn : p.nibble = 3) (hstray : ¬p.Stray) :
    firstLine io p s m = p.decode.begin io s m := by
  have hcases : p.addr.toNat / 2 ^ 16 ∈ [0x3000, 0x3010, 0x3020, 0x3030, 0x3040, 0x3050] := by
    by_contra hother
    exact hstray (.inl ⟨hn, hother⟩)
  simp only [firstLine, and_f0000000_eq_iff _ 0x00000000 (by decide),
    and_f0000000_eq_iff _ 0x10000000 (by decide), and_f0000000_eq_iff _ 0x20000000 (by decide),
    and_ffff0000_eq_iff _ 0x30000000 (by decide), and_ffff0000_eq_iff _ 0x30100000 (by decide),
    and_ffff0000_eq_iff _ 0x30200000 (by decide), and_ffff0000_eq_iff _ 0x30300000 (by decide),
    and_ffff0000_eq_iff _ 0x30400000 (by decide), and_ffff0000_eq_iff _ 0x30500000 (by decide),
    UInt32.reduceToNat, Nat.reducePow, Nat.reduceDiv, h.clear]
  simp only [List.mem_cons, List.not_mem_nil, or_false, Nat.reducePow] at hcases
  simp only [IniPatch.nibble, Nat.reducePow] at hn
  rw [if_neg (by omega), if_neg (by omega), if_neg (by omega)]
  have hdecode : p.decode = p.decode3 := by simp [IniPatch.decode, IniPatch.nibble, hn]
  rw [hdecode, IniPatch.decode3]
  rcases hcases with h3 | h3 | h3 | h3 | h3 | h3 <;> simp only [Nat.reducePow, h3] <;>
    simp [Code.begin, MemOps.write, MemOps.read, Op.apply]

theorem firstLine_longer (hn : 4 ≤ p.nibble ∧ p.nibble < 7) :
    firstLine io p s m = p.decode.begin io s m := by
  have hcases : p.nibble = 4 ∨ p.nibble = 5 ∨ p.nibble = 6 := by omega
  simp only [firstLine, and_f0000000_eq_iff _ 0x00000000 (by decide),
    and_f0000000_eq_iff _ 0x10000000 (by decide), and_f0000000_eq_iff _ 0x20000000 (by decide),
    and_ffff0000_eq_iff _ 0x30000000 (by decide), and_ffff0000_eq_iff _ 0x30100000 (by decide),
    and_ffff0000_eq_iff _ 0x30200000 (by decide), and_ffff0000_eq_iff _ 0x30300000 (by decide),
    and_ffff0000_eq_iff _ 0x30400000 (by decide), and_ffff0000_eq_iff _ 0x30500000 (by decide),
    and_f0000000_eq_iff _ 0x40000000 (by decide), and_f0000000_eq_iff _ 0x50000000 (by decide),
    and_f0000000_eq_iff _ 0x60000000 (by decide), UInt32.reduceToNat, Nat.reducePow, Nat.reduceDiv]
  rcases hcases with hn | hn | hn
  · rw [IniPatch.decode, hn]
    simp only [IniPatch.nibble, Nat.reducePow] at hn
    iterate 9 rw [if_neg (by omega)]
    rw [if_pos hn, and_ffff0000_div]
    simp only [Code.begin, IniPatch.address]
  · rw [IniPatch.decode, hn]
    simp only [IniPatch.nibble, Nat.reducePow] at hn
    iterate 10 rw [if_neg (by omega)]
    rw [if_pos hn]
    rfl
  · rw [IniPatch.decode, hn]
    simp only [IniPatch.nibble, Nat.reducePow] at hn
    iterate 11 rw [if_neg (by omega)]
    rw [if_pos hn]
    rfl

theorem bitOperation_eq (s : Globals) :
    (s, bitOperation io p m) = p.decode7.begin io s m := by
  simp only [bitOperation, IniPatch.decode7, and_00f00000_eq_iff _ 0x00000000 (by decide),
    and_00f00000_eq_iff _ 0x00100000 (by decide), and_00f00000_eq_iff _ 0x00200000 (by decide),
    and_00f00000_eq_iff _ 0x00300000 (by decide), and_00f00000_eq_iff _ 0x00400000 (by decide),
    and_00f00000_eq_iff _ 0x00500000 (by decide), UInt64.reduceToNat, Nat.reducePow, Nat.reduceDiv]
  generalize hkind : p.data.toNat / 1048576 % 16 = kind
  by_cases hlt : kind < 6
  · have hcases : kind = 0 ∨ kind = 1 ∨ kind = 2 ∨ kind = 3 ∨ kind = 4 ∨ kind = 5 := by omega
    rcases hcases with rfl | rfl | rfl | rfl | rfl | rfl <;>
      simp [Code.begin, MemOps.write, MemOps.read, Op.apply, IniPatch.address]
  · iterate 6 rw [if_neg (by omega)]
    split <;> first | omega | rfl

theorem firstLine_bits (hn : p.nibble = 7) :
    firstLine io p s m = p.decode.begin io s m := by
  have hdecode : p.decode = p.decode7 := by simp [IniPatch.decode, hn]
  rw [hdecode, ← bitOperation_eq]
  simp only [IniPatch.nibble, Nat.reducePow] at hn
  simp only [firstLine, and_f0000000_eq_iff _ 0x00000000 (by decide),
    and_f0000000_eq_iff _ 0x10000000 (by decide), and_f0000000_eq_iff _ 0x20000000 (by decide),
    and_ffff0000_eq_iff _ 0x30000000 (by decide), and_ffff0000_eq_iff _ 0x30100000 (by decide),
    and_ffff0000_eq_iff _ 0x30200000 (by decide), and_ffff0000_eq_iff _ 0x30300000 (by decide),
    and_ffff0000_eq_iff _ 0x30400000 (by decide), and_ffff0000_eq_iff _ 0x30500000 (by decide),
    and_f0000000_eq_iff _ 0x40000000 (by decide), and_f0000000_eq_iff _ 0x50000000 (by decide),
    and_f0000000_eq_iff _ 0x60000000 (by decide), and_f0000000_eq_iff _ 0x70000000 (by decide),
    UInt32.reduceToNat, Nat.reducePow, Nat.reduceDiv]
  iterate 12 rw [if_neg (by omega)]
  rw [if_pos hn]

theorem firstLine_condition (hn : p.Stray ∨ 13 ≤ p.nibble) :
    firstLine io p s m =
      if p.nibble < 14 then (conditionD io p s m, m)
      else if p.nibble < 15 then (conditionE io p s m, m) else (s, m) := by
  simp only [firstLine, and_f0000000_eq_iff _ 0x00000000 (by decide),
    and_f0000000_eq_iff _ 0x10000000 (by decide), and_f0000000_eq_iff _ 0x20000000 (by decide),
    and_ffff0000_eq_iff _ 0x30000000 (by decide), and_ffff0000_eq_iff _ 0x30100000 (by decide),
    and_ffff0000_eq_iff _ 0x30200000 (by decide), and_ffff0000_eq_iff _ 0x30300000 (by decide),
    and_ffff0000_eq_iff _ 0x30400000 (by decide), and_ffff0000_eq_iff _ 0x30500000 (by decide),
    and_f0000000_eq_iff _ 0x40000000 (by decide), and_f0000000_eq_iff _ 0x50000000 (by decide),
    and_f0000000_eq_iff _ 0x60000000 (by decide), and_f0000000_eq_iff _ 0x70000000 (by decide),
    UInt32.lt_iff_toNat_lt, UInt32.reduceToNat, Nat.reducePow, Nat.reduceDiv]
  simp only [IniPatch.Stray, IniPatch.nibble, List.mem_cons, List.not_mem_nil, or_false, not_or,
    Nat.reducePow] at hn ⊢
  iterate 13 rw [if_neg (by omega)]
  congr 1
  · apply propext
    omega
  · congr 1
    apply propext
    omega

theorem and_value (x : UInt32) : 0x0000ffff &&& x = x &&& 0xffff := UInt32.and_comm ..

theorem and_value8 (x : UInt32) : 0x000000ff &&& x = x &&& 0xff := UInt32.and_comm ..

theorem conditionD_eq (h : s.Clean) : (conditionD io p s m, m) = p.decodeD.begin io s m := by
  simp only [conditionD, IniPatch.decodeD, and_ffff0000_eq_iff _ 0x00000000 (by decide),
    and_ffff0000_eq_iff _ 0x00100000 (by decide), and_ffff0000_eq_iff _ 0x00200000 (by decide),
    and_ffff0000_eq_iff _ 0x00300000 (by decide), UInt32.reduceToNat, Nat.reducePow,
    Nat.reduceDiv, h.skip_eq, and_value]
  generalize p.data32.toNat / 65536 = z
  by_cases hz : z = 0 ∨ z = 16 ∨ z = 32 ∨ z = 48
  · rcases hz with rfl | rfl | rfl | rfl <;>
      simp [Code.begin, Cmp.ofKind, Cmp.Holds, MemOps.read, IniPatch.address, ← UInt32.not_lt]
  · iterate 4 rw [if_neg (by omega)]
    by_cases hlow : z % 16 = 0
    · have hkind : 4 ≤ z / 16 := by omega
      rw [if_pos hlow]
      generalize z / 16 = k at hkind
      rcases k with _ | _ | _ | _ | k <;> first | omega | rfl
    · rw [if_neg hlow]
      rfl

theorem conditionZ_eq (h : s.Clean) {c : Cmp} {fails : UInt32 → UInt32 → Bool}
    (hfails : ∀ x y, fails x y = true ↔ ¬c.Holds x y)
    (hc : Cmp.ofKind (p.data32.toNat / 2 ^ 28) = some c) :
    (conditionZ io p fails s m, m) = p.decodeE.begin io s m := by
  simp only [conditionZ, IniPatch.decodeE, hc, and_0f000000_div_eq_iff, and_00ff0000_div,
    h.skip_eq, hfails, ite_not, and_value, and_value8, UInt32.reduceToNat]
  generalize p.addr.toNat / 2 ^ 24 % 16 = z
  rcases z with _ | _ | z
  · simp [Code.begin, MemOps.read, IniPatch.address]
    congr
  · simp [Code.begin, MemOps.read, IniPatch.address]
    congr
  · simp [Code.begin]

theorem conditionE_eq (h : s.Clean) : (conditionE io p s m, m) = p.decodeE.begin io s m := by
  simp only [conditionE, and_f0000000_eq_iff _ 0x00000000 (by decide),
    and_f0000000_eq_iff _ 0x10000000 (by decide), and_f0000000_eq_iff _ 0x20000000 (by decide),
    and_f0000000_eq_iff _ 0x30000000 (by decide), UInt32.reduceToNat]
  split
  · rename_i hk
    exact conditionZ_eq io p m (c := .eq) h (by simp [Cmp.Holds]) (by rw [hk]; rfl)
  split
  · rename_i hk
    exact conditionZ_eq io p m (c := .ne) h (by simp [Cmp.Holds]) (by rw [hk]; rfl)
  split
  · rename_i hk
    exact conditionZ_eq io p m (c := .lt) h (by simp [Cmp.Holds]) (by rw [hk]; rfl)
  split
  · rename_i hk
    exact conditionZ_eq io p m (c := .gt) h (by simp [Cmp.Holds]) (by rw [hk]; rfl)
  · have hkind : 4 ≤ p.data32.toNat / 2 ^ 28 := by omega
    rw [IniPatch.decodeE]
    generalize p.data32.toNat / 2 ^ 28 = k at hkind
    rcases k with _ | _ | _ | _ | k <;> first | omega | rfl

theorem IniPatch.Stray.decode_eq {p : IniPatch} (h : p.Stray) : p.decode = .none := by
  rcases h with ⟨hn, hother⟩ | ⟨hge, hle⟩
  · simp only [List.mem_cons, List.not_mem_nil, or_false, not_or] at hother
    obtain ⟨h0, h1, h2, h3, h4, h5⟩ := hother
    simp only [decode, hn, decode3]
  · have hcases : p.nibble = 8 ∨ p.nibble = 9 ∨ p.nibble = 10 ∨ p.nibble = 11 ∨ p.nibble = 12 := by
      omega
    rcases hcases with hn | hn | hn | hn | hn <;> simp only [decode, hn]

theorem firstLine_eq (h : s.Clean) (hstray : p.Stray → conditionD io p s m = s) :
    firstLine io p s m = p.decode.begin io s m := by
  have hlt : p.nibble < 16 := by
    have hlt := p.addr.toNat_lt
    simp only [IniPatch.nibble]
    omega
  by_cases hs : p.Stray
  · rw [firstLine_condition io p m (.inl hs), hstray hs, hs.decode_eq, if_pos]
    · rfl
    · rcases hs with ⟨hn, -⟩ | ⟨-, hn⟩ <;> omega
  by_cases hw : p.nibble < 3
  · exact firstLine_write io p m h hw
  have hhigh : ¬(8 ≤ p.nibble ∧ p.nibble ≤ 12) := fun hn => hs (.inr hn)
  have hcases : p.nibble = 3 ∨ 4 ≤ p.nibble ∧ p.nibble < 7 ∨ p.nibble = 7 ∨ p.nibble = 13 ∨
      p.nibble = 14 ∨ p.nibble = 15 := by omega
  rcases hcases with hn | hn | hn | hn | hn | hn
  · exact firstLine_three io p m h hn hs
  · exact firstLine_longer io p m hn
  · exact firstLine_bits io p m hn
  · rw [firstLine_condition io p m (.inr (by omega)), if_pos (by omega), conditionD_eq io p m h]
    simp [IniPatch.decode, hn]
  · rw [firstLine_condition io p m (.inr (by omega)), if_neg (by omega), if_pos (by omega),
      conditionE_eq io p m h]
    simp [IniPatch.decode, hn]
  · rw [firstLine_condition io p m (.inr (by omega)), if_neg (by omega), if_neg (by omega)]
    simp [IniPatch.decode, hn, Code.begin]

theorem decode_cond_lt {w : Width} {c : Cmp} {a v : UInt32} {lines : Nat}
    (h : p.decode = .cond w c a v lines) : lines < 2 ^ 32 := by
  simp only [IniPatch.decode, IniPatch.decode3, IniPatch.decode7, IniPatch.decodeD,
    IniPatch.decodeE] at h
  split at h <;> try contradiction
  · split at h <;> contradiction
  · split at h <;> contradiction
  · split at h <;> cases h
    decide
  · split at h <;> cases h
    · omega
    · omega

theorem decode_modifyWord {op : Op} {a : UInt32} (h : p.decode = .modifyWord op a) :
    op = .add ∨ op = .sub := by
  simp only [IniPatch.decode, IniPatch.decode3, IniPatch.decode7, IniPatch.decodeD,
    IniPatch.decodeE] at h
  split at h <;> try contradiction
  · split at h <;> cases h
    · exact .inl rfl
    · exact .inr rfl
  · split at h <;> contradiction
  · split at h <;> contradiction
  · split at h <;> contradiction

end OmegaRed.Patch
