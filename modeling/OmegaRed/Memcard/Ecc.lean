import OmegaRed.Memcard.Folder
import OmegaRed.Lib.Checksums

/-! What the ECC of 128 bytes tells about flipped bits. -/

namespace OmegaRed.Memcard

open Lib.Checksums

/-- The exclusive or of three bytes each. -/
def xor3 (a b : UInt8 × UInt8 × UInt8) : UInt8 × UInt8 × UInt8 :=
  (a.1 ^^^ b.1, a.2.1 ^^^ b.2.1, a.2.2 ^^^ b.2.2)

instance : Std.Associative xor3 where
  assoc _ _ _ := by simp only [xor3, UInt8.xor_assoc]

instance : Std.Commutative xor3 where
  comm a b := by simp only [xor3, UInt8.xor_comm b.1, UInt8.xor_comm b.2.1, UInt8.xor_comm b.2.2]

/-- What a byte puts into the three sums. -/
def eccTerm (x : UInt8) (i : Nat) : UInt8 × UInt8 × UInt8 :=
  let c := table.getD x.toNat 0
  if c &&& 0x80 ≠ 0 then (c, ~~~(.ofNat i), .ofNat i) else (c, 0, 0)

theorem eccStep_eq (data : Nat → UInt8) (ecc : UInt8 × UInt8 × UInt8) (i : Nat) :
    eccStep data ecc i = xor3 ecc (eccTerm (data i) i) := by
  rw [eccStep, eccTerm]
  split
  · rfl
  · simp only [xor3, UInt8.xor_zero]

/-- The sums as they are masked. -/
def eccBytes (s : UInt8 × UInt8 × UInt8) : List UInt8 :=
  [~~~s.1 &&& 0x77, ~~~s.2.1 &&& 0x7f, ~~~s.2.2 &&& 0x7f]

theorem calculateECC_eq (data : Nat → UInt8) : calculateECC data =
    eccBytes (checksum xor3 (fun i => eccTerm (data i) i) (0, 0, 0) (List.range 0x80)) := by
  rw [calculateECC, checksum, show eccStep data = fun a i => xor3 a (eccTerm (data i) i) from
    funext fun a => funext fun i => eccStep_eq data a i]
  rfl

/-- The byte of a bit, and the bit's place in it. -/
abbrev BitPos := Fin 0x80 × Fin 8

def bit (b : Fin 8) : UInt8 := 1 <<< UInt8.ofNat b

/-- The data with one bit flipped. -/
def flip (data : Nat → UInt8) (p : BitPos) : Nat → UInt8 :=
  Function.update data p.1 (data p.1 ^^^ bit p.2)

/-- The entries of the table for the single bits. -/
def column (b : Fin 8) : UInt8 :=
  [0x87, 0x96, 0xa5, 0xb4, 0xc3, 0xd2, 0xe1, 0xf0].getD b 0

/-- The part of a bit in the entry of a byte. -/
def columnOf (x : UInt8) (b : Fin 8) : UInt8 := if x.toBitVec.getLsbD b then column b else 0

theorem table_eq (x : UInt8) : table.getD x.toNat 0 =
    checksum (· ^^^ ·) (columnOf x) 0 (List.finRange 8) := by
  have hall : table = (List.range 256).map fun n =>
      checksum (· ^^^ ·) (columnOf (UInt8.ofNat n)) 0 (List.finRange 8) := by decide +kernel
  rw [hall, List.getD_eq_getElem?_getD, List.getElem?_map, List.getElem?_range x.toNat_lt,
    Option.map_some, Option.getD_some, UInt8.ofNat_toNat]

theorem getLsbD_bit (b i : Fin 8) : (bit b).toBitVec.getLsbD i = decide (i = b) := by
  revert b i
  decide

theorem columnOf_flip_of_ne (x : UInt8) {b i : Fin 8} (h : i ≠ b) :
    columnOf (x ^^^ bit b) i = columnOf x i := by
  rw [columnOf, columnOf, UInt8.toBitVec_xor, BitVec.getLsbD_xor, getLsbD_bit, decide_eq_false h,
    Bool.xor_false]

theorem columnOf_flip (x : UInt8) (b : Fin 8) :
    columnOf (x ^^^ bit b) b = columnOf x b ^^^ column b := by
  rw [columnOf, columnOf, UInt8.toBitVec_xor, BitVec.getLsbD_xor, getLsbD_bit, decide_eq_true rfl]
  cases x.toBitVec.getLsbD b
  · exact UInt8.zero_xor.symm
  · exact UInt8.xor_self.symm

theorem table_flip (x : UInt8) (b : Fin 8) :
    table.getD (x ^^^ bit b).toNat 0 = table.getD x.toNat 0 ^^^ column b := by
  rw [table_eq, table_eq]
  exact checksum_change (List.nodup_finRange 8) (List.mem_finRange b) (columnOf_flip x b)
    (fun i hi => columnOf_flip_of_ne x hi) 0

theorem and_0x80_ne_zero (x : UInt8) : x &&& 0x80 ≠ 0 ↔ x.toBitVec.getLsbD 7 = true := by
  have hall : ∀ n < 256, UInt8.ofNat n &&& 0x80 ≠ 0 ↔
      (UInt8.ofNat n).toBitVec.getLsbD 7 = true := by decide +kernel
  have hx := hall x.toNat x.toNat_lt
  rwa [UInt8.ofNat_toNat] at hx

theorem xor_column_ne_zero (c : UInt8) (b : Fin 8) :
    (c ^^^ column b) &&& 0x80 ≠ 0 ↔ ¬c &&& 0x80 ≠ 0 := by
  have hcol : (column b).toBitVec.getLsbD 7 = true :=
    (by decide : ∀ b, (column b).toBitVec.getLsbD 7 = true) b
  rw [and_0x80_ne_zero, and_0x80_ne_zero, UInt8.toBitVec_xor, BitVec.getLsbD_xor, hcol,
    Bool.xor_true, Bool.not_eq_true', Bool.not_eq_true]

/-- What a flipped bit adds to the three sums. -/
def flipTerm (p : BitPos) : UInt8 × UInt8 × UInt8 := (column p.2, ~~~(.ofNat p.1), .ofNat p.1)

theorem eccTerm_flip (x : UInt8) (p : BitPos) :
    eccTerm (x ^^^ bit p.2) p.1 = xor3 (eccTerm x p.1) (flipTerm p) := by
  have hpar := xor_column_ne_zero (table.getD x.toNat 0) p.2
  rw [eccTerm, eccTerm, table_flip]
  by_cases hx : table.getD x.toNat 0 &&& 0x80 ≠ 0
  · rw [if_pos hx, if_neg fun h => hpar.mp h hx]
    simp only [xor3, flipTerm, UInt8.xor_self]
  · rw [if_neg hx, if_pos (hpar.mpr hx)]
    simp only [xor3, flipTerm, UInt8.zero_xor]

/-- What a flipped bit changes in the ECC. -/
def flipDiff (p : BitPos) : List UInt8 :=
  [column p.2 &&& 0x77, ~~~(.ofNat p.1) &&& 0x7f, .ofNat p.1 &&& 0x7f]

/-- The exclusive or of two ECCs. -/
def eccDiff (e e' : List UInt8) : List UInt8 := List.zipWith (· ^^^ ·) e e'

theorem not_xor_and (a t m : UInt8) : ~~~(a ^^^ t) &&& m = (~~~a &&& m) ^^^ (t &&& m) := by
  rw [← UInt8.toBitVec_inj]
  ext i hi
  simp only [UInt8.toBitVec_xor, UInt8.toBitVec_and, UInt8.toBitVec_not, BitVec.getElem_xor,
    BitVec.getElem_and, BitVec.getElem_not]
  cases a.toBitVec[i] <;> cases t.toBitVec[i] <;> cases m.toBitVec[i] <;> rfl

theorem calculateECC_flip (data : Nat → UInt8) (p : BitPos) :
    calculateECC (flip data p) = eccDiff (calculateECC data) (flipDiff p) := by
  have hterm : eccTerm (flip data p p.1) p.1 = xor3 (eccTerm (data p.1) p.1) (flipTerm p) := by
    rw [flip, Function.update_self]
    exact eccTerm_flip _ p
  have hchange : checksum xor3 (fun i => eccTerm (flip data p i) i) (0, 0, 0) (List.range 0x80) =
      xor3 (checksum xor3 (fun i => eccTerm (data i) i) (0, 0, 0) (List.range 0x80)) (flipTerm p) :=
    @checksum_change _ _ xor3 (fun i => eccTerm (data i) i) (fun i => eccTerm (flip data p i) i)
      _ _ p.1 (flipTerm p) _ List.nodup_range (List.mem_range.mpr p.1.isLt) hterm
      (fun i hi => by simp only [flip, Function.update_of_ne hi]) _
  rw [calculateECC_eq, calculateECC_eq, hchange]
  simp only [eccDiff, eccBytes, xor3, List.zipWith_cons_cons, List.zipWith_nil_left, not_xor_and,
    flipDiff, flipTerm]

theorem flipDiff_injective : Function.Injective flipDiff := by
  have hcol : ∀ b b' : Fin 8, column b &&& 0x77 = column b' &&& 0x77 → b = b' := by decide
  have hline : ∀ i : Fin 0x80, (UInt8.ofNat i &&& 0x7f).toNat = i := by decide +kernel
  intro p q h
  simp only [flipDiff, List.cons.injEq, and_true] at h
  have hbyte : p.1.val = q.1.val := by
    rw [← hline p.1, h.2.2, hline]
  exact Prod.ext (Fin.ext hbyte) (hcol _ _ h.1)

theorem xor_xor_self (a t : UInt8) : a ^^^ t ^^^ a = t := by
  rw [UInt8.xor_comm a, UInt8.xor_assoc, UInt8.xor_self, UInt8.xor_zero]

theorem eccDiff_self (data : Nat → UInt8) :
    eccDiff (calculateECC data) (calculateECC data) = [0, 0, 0] := by
  simp only [calculateECC, eccDiff, List.zipWith_cons_cons, List.zipWith_nil_left, UInt8.xor_self]

theorem eccDiff_flip (data : Nat → UInt8) (p : BitPos) :
    eccDiff (calculateECC (flip data p)) (calculateECC data) = flipDiff p := by
  rw [calculateECC_flip]
  simp only [calculateECC, eccDiff, flipDiff, List.zipWith_cons_cons, List.zipWith_nil_left,
    xor_xor_self]

theorem eccDiff_flip_flip (data : Nat → UInt8) (p q : BitPos) :
    eccDiff (calculateECC (flip (flip data p) q)) (calculateECC data) =
      eccDiff (flipDiff p) (flipDiff q) := by
  have hboth : ∀ a t u : UInt8, a ^^^ t ^^^ u ^^^ a = t ^^^ u := fun a t u => by
    rw [UInt8.xor_assoc a, xor_xor_self]
  rw [calculateECC_flip, calculateECC_flip]
  simp only [calculateECC, eccDiff, flipDiff, List.zipWith_cons_cons, List.zipWith_nil_left, hboth]

theorem flipDiff_ne_zero (p : BitPos) : flipDiff p ≠ [0, 0, 0] := by
  have hcol : ∀ b, column b &&& 0x77 ≠ 0 := by decide
  intro h
  simp only [flipDiff, List.cons.injEq] at h
  exact hcol p.2 h.1

theorem eccDiff_flipDiff_ne_zero {p q : BitPos} (h : p ≠ q) :
    eccDiff (flipDiff p) (flipDiff q) ≠ [0, 0, 0] := by
  intro hzero
  simp only [eccDiff, flipDiff, List.zipWith_cons_cons, List.zipWith_nil_left, List.cons.injEq,
    UInt8.xor_eq_zero_iff, and_true] at hzero
  refine h (flipDiff_injective ?_)
  rw [flipDiff, flipDiff, hzero.1, hzero.2.1, hzero.2.2]

/-- The two line parities change together under two flips, and opposite under one. -/
theorem eccDiff_flipDiff_ne (p q r : BitPos) :
    eccDiff (flipDiff p) (flipDiff q) ≠ flipDiff r := by
  have hopp : ∀ i : Fin 0x80, ~~~(UInt8.ofNat i) &&& 0x7f ≠ UInt8.ofNat i &&& 0x7f := by
    decide +kernel
  have hsame : ∀ a b m : UInt8, (~~~a &&& m) ^^^ (~~~b &&& m) = (a &&& m) ^^^ (b &&& m) := by
    intro a b m
    rw [← UInt8.toBitVec_inj]
    ext i hi
    simp only [UInt8.toBitVec_xor, UInt8.toBitVec_and, UInt8.toBitVec_not, BitVec.getElem_xor,
      BitVec.getElem_and, BitVec.getElem_not]
    cases a.toBitVec[i] <;> cases b.toBitVec[i] <;> cases m.toBitVec[i] <;> rfl
  intro h
  simp only [eccDiff, flipDiff, List.zipWith_cons_cons, List.zipWith_nil_left, List.cons.injEq,
    and_true, hsame] at h
  exact hopp r.1 (h.2.1.symm.trans h.2.2)

/-- A flipped bit changes the ECC, by a difference that tells which bit it is; two flipped bits
change it by a difference that no single one makes. -/
theorem calculateECC_flips : ∃ diff : BitPos → List UInt8, Function.Injective diff ∧
    (∀ data p, calculateECC (flip data p) ≠ calculateECC data ∧
      eccDiff (calculateECC (flip data p)) (calculateECC data) = diff p) ∧
    ∀ data p q, p ≠ q → calculateECC (flip (flip data p) q) ≠ calculateECC data ∧
      ∀ r, eccDiff (calculateECC (flip (flip data p) q)) (calculateECC data) ≠ diff r := by
  refine ⟨flipDiff, flipDiff_injective, fun data p => ⟨fun h => ?_, eccDiff_flip data p⟩,
    fun data p q hne => ⟨fun h => ?_, fun r => ?_⟩⟩
  · have hdiff := eccDiff_flip data p
    rw [h, eccDiff_self] at hdiff
    exact flipDiff_ne_zero p hdiff.symm
  · have hdiff := eccDiff_flip_flip data p q
    rw [h, eccDiff_self] at hdiff
    exact eccDiff_flipDiff_ne_zero hne hdiff.symm
  · rw [eccDiff_flip_flip]
    exact eccDiff_flipDiff_ne p q r

theorem calculateECC_flips_zeros :
    calculateECC (flip (flip (fun _ => 0) (0, 1)) (3, 1)) ≠ calculateECC fun _ => 0 := by
  obtain ⟨_, -, -, htwo⟩ := calculateECC_flips
  exact (htwo (fun _ => 0) (0, 1) (3, 1) (by decide)).1

end OmegaRed.Memcard
