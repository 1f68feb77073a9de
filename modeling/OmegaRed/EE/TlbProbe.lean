import OmegaRed.EE.TlbRun

/-! Reading entries of the TLB back and probing for them. -/

namespace OmegaRed.EE

namespace TlbState

/-- `TLBR`; `none` when the entry lies outside of `tlb[]`. -/
def tlbR (r : CP0) (s : TlbState) : Option CP0 :=
  let i := r.index &&& 0x3f
  if hi : i.toNat < 48 then
    let e := s.tlb ⟨i.toNat, hi⟩
    some { r with
      pageMask := e.pageMask
      entryHi := e.entryHi &&& ~~~(e.pageMask ||| 0x1f00)
      entryLo0 := (e.entryLo0 &&& ~~~(1 : UInt32)) ||| ((e.entryHi >>> 12) &&& 1)
      entryLo1 := (e.entryLo1 &&& ~~~(1 : UInt32)) ||| ((e.entryHi >>> 12) &&& 1) }
  else none

end TlbState

namespace Tlbs

/-- The test of `TLBP`, with the bit fields of `EntryHi32` from the lowest bit on. -/
def Probed (e : Tlbs) (entryHi : UInt32) : Prop :=
  e.vpn2 = ~~~e.mask &&& (entryHi &&& (0x7ffff : UInt32)) ∧
    (e.g &&& 1 ≠ 0 ∨ e.asid &&& (0xff : UInt32) = entryHi >>> 24)

instance (e : Tlbs) (entryHi : UInt32) : Decidable (e.Probed entryHi) :=
  inferInstanceAs (Decidable (_ ∧ _))

/-- The entry is of the page pair and, unless it is global, of the address space. -/
def Matches (e : Tlbs) (entryHi : UInt32) : Prop :=
  e.vpn2 = ((entryHi >>> 13) &&& ~~~e.mask) <<< 13 ∧
    (e.g &&& 1 ≠ 0 ∨ e.asid &&& 0xff = entryHi &&& 0xff)

instance (e : Tlbs) (entryHi : UInt32) : Decidable (e.Matches entryHi) :=
  inferInstanceAs (Decidable (_ ∧ _))

end Tlbs

namespace TlbState

/-- `TLBP`: what `Index` becomes. -/
def tlbP (entryHi : UInt32) (s : TlbState) : UInt32 :=
  match (List.finRange 48).find? fun i => (s.tlb i).Probed entryHi with
  | some i => .ofNat i
  | none => 0x80000000

end TlbState

/-- What `TLBR` gives for the registers `r` that were written. -/
structure ReadsBack (r r' : CP0) : Prop where
  pageMask : r'.pageMask = r.pageMask
  vpn2 : r'.entryHi &&& ~~~(r.pageMask ||| 0x1fff) = r.entryHi &&& ~~~(r.pageMask ||| 0x1fff)
  asid : r'.entryHi &&& 0xff = r.entryHi &&& 0xff
  entryLo0 : r'.entryLo0 = (r.entryLo0 &&& ~~~(1 : UInt32)) ||| (r.entryLo0 &&& r.entryLo1 &&& 1)
  entryLo1 : r'.entryLo1 = (r.entryLo1 &&& ~~~(1 : UInt32)) ||| (r.entryLo0 &&& r.entryLo1 &&& 1)

/-- `TLBP` finds the first entry that matches, and fails when there is none. -/
structure Probes (entryHi : UInt32) (s : TlbState) : Prop where
  found : ∀ i, (s.tlb i).Matches entryHi → (∀ j < i, ¬ (s.tlb j).Matches entryHi) →
    s.tlbP entryHi = .ofNat i
  missed : (∀ i, ¬ (s.tlb i).Matches entryHi) → s.tlbP entryHi = 0x80000000

/-- Outside of the mask, the low bits of `EntryHi` are its page number, and the address space of
the entry is in the high bits. -/
def Tlbs.FieldsAgree (e : Tlbs) (entryHi : UInt32) : Prop :=
  ~~~e.mask &&& (entryHi &&& (0x7ffff : UInt32)) = ((entryHi >>> 13) &&& ~~~e.mask) <<< 13 ∧
    (e.g &&& 1 ≠ 0 ∨ e.asid &&& (0xff : UInt32) = entryHi >>> 24)

/-! ## Bits of the registers -/

theorem bits_ext {a b : UInt32}
    (h : ∀ i < 32, a.toBitVec.getLsbD i = b.toBitVec.getLsbD i) : a = b :=
  UInt32.toBitVec_inj.mp (BitVec.eq_of_getLsbD_eq h)

theorem getLsbD_const : ∀ i < 32,
    (0x1f00#32).getLsbD i = (decide (8 ≤ i) && decide (i < 13)) ∧
    (0x1fff#32).getLsbD i = decide (i < 13) ∧ (0xff#32).getLsbD i = decide (i < 8) ∧
    (1#32).getLsbD i = decide (i = 0) := by
  decide

theorem vpn2_readBack (entryHi pageMask : UInt32) :
    entryHi &&& ~~~(pageMask ||| 0x1f00) &&& ~~~(pageMask ||| 0x1fff) =
      entryHi &&& ~~~(pageMask ||| 0x1fff) := by
  refine bits_ext fun i hi => ?_
  obtain ⟨hclear, hlow, -⟩ := getLsbD_const i hi
  simp only [UInt32.toBitVec_and, UInt32.toBitVec_not, UInt32.toBitVec_or, BitVec.getLsbD_and,
    BitVec.getLsbD_not, BitVec.getLsbD_or, UInt32.toBitVec_ofNat, hclear, hlow]
  cases entryHi.toBitVec.getLsbD i <;> cases pageMask.toBitVec.getLsbD i <;> simp
  omega

theorem asid_readBack_iff (entryHi pageMask : UInt32) :
    entryHi &&& ~~~(pageMask ||| 0x1f00) &&& 0xff = entryHi &&& 0xff ↔
      entryHi &&& pageMask &&& 0xff = 0 := by
  have hbits : ∀ i < 32,
      ((entryHi &&& ~~~(pageMask ||| 0x1f00) &&& 0xff).toBitVec.getLsbD i =
        (entryHi &&& 0xff).toBitVec.getLsbD i ↔
      (entryHi &&& pageMask &&& 0xff).toBitVec.getLsbD i = (0 : UInt32).toBitVec.getLsbD i) := by
    intro i hi
    obtain ⟨hclear, -, hlow, -⟩ := getLsbD_const i hi
    simp only [UInt32.toBitVec_and, UInt32.toBitVec_not, UInt32.toBitVec_or, BitVec.getLsbD_and,
      BitVec.getLsbD_not, BitVec.getLsbD_or, UInt32.toBitVec_ofNat, hclear, hlow]
    cases entryHi.toBitVec.getLsbD i <;> cases pageMask.toBitVec.getLsbD i <;> simp
    omega
  constructor
  · intro h
    exact bits_ext fun i hi => (hbits i hi).mp (by rw [h])
  · intro h
    exact bits_ext fun i hi => (hbits i hi).mpr (by rw [h])

theorem lowBit_eq_iff (x a b : UInt32) :
    (x &&& ~~~(1 : UInt32)) ||| (a &&& 1) = (x &&& ~~~(1 : UInt32)) ||| (b &&& 1) ↔
      a &&& 1 = b &&& 1 := by
  refine ⟨fun h => bits_ext fun i hi => ?_, fun h => by rw [h]⟩
  obtain ⟨-, -, -, hone⟩ := getLsbD_const i hi
  have hbit : (((x &&& ~~~(1 : UInt32)) ||| (a &&& 1)).toBitVec.getLsbD i) =
      (((x &&& ~~~(1 : UInt32)) ||| (b &&& 1)).toBitVec.getLsbD i) := by rw [h]
  simp only [UInt32.toBitVec_and, UInt32.toBitVec_not, UInt32.toBitVec_or, BitVec.getLsbD_and,
    BitVec.getLsbD_not, BitVec.getLsbD_or, UInt32.toBitVec_ofNat, hone] at hbit ⊢
  by_cases hzero : i = 0
  · simpa [hzero] using hbit
  · simp [hzero]

/-! ## Reading back -/

variable {h : MapData} {r q r' : CP0} {s t : TlbState} {i : Fin 48} {entryHi : UInt32}

theorem toNat_index (i : Fin 48) : ((UInt32.ofNat i &&& 0x3f) : UInt32).toNat = i.val := by
  have hall : ∀ i : Fin 48, ((UInt32.ofNat i &&& 0x3f) : UInt32).toNat = i.val := by decide
  exact hall i

theorem tlbWI_eq (h : MapData) (r : CP0) (i : Fin 48) (s : TlbState) :
    ∃ t, TlbState.tlbWI h { r with index := .ofNat i } s = some t ∧
      t.tlb = Function.update s.tlb i r.writeTLB := by
  rw [TlbState.tlbWI, TlbState.write, dif_pos (by rw [toNat_index]; exact i.isLt)]
  have hi : (⟨((UInt32.ofNat i &&& 0x3f) : UInt32).toNat, by rw [toNat_index]; exact i.isLt⟩ : Fin 48) =
      i := Fin.ext (toNat_index i)
  exact ⟨_, rfl, by rw [hi]; rfl⟩

theorem tlbR_eq (q : CP0) (i : Fin 48) (t : TlbState) :
    t.tlbR { q with index := .ofNat i } = some { q with
      index := .ofNat i
      pageMask := (t.tlb i).pageMask
      entryHi := (t.tlb i).entryHi &&& ~~~((t.tlb i).pageMask ||| 0x1f00)
      entryLo0 := ((t.tlb i).entryLo0 &&& ~~~(1 : UInt32)) ||| (((t.tlb i).entryHi >>> 12) &&& 1)
      entryLo1 := ((t.tlb i).entryLo1 &&& ~~~(1 : UInt32)) ||| (((t.tlb i).entryHi >>> 12) &&& 1) }
    := by
  have hi : (⟨((UInt32.ofNat i &&& 0x3f) : UInt32).toNat, by rw [toNat_index]; exact i.isLt⟩ : Fin 48) =
      i := Fin.ext (toNat_index i)
  rw [TlbState.tlbR]
  dsimp only
  rw [dif_pos (by rw [toNat_index]; exact i.isLt), hi]

theorem readsBack_iff (ht : t.tlb i = r.writeTLB)
    (hr : t.tlbR { q with index := .ofNat i } = some r') :
    ReadsBack r r' ↔ (r.entryHi >>> 12) &&& 1 = r.entryLo0 &&& r.entryLo1 &&& 1 ∧
      r.entryHi &&& r.pageMask &&& 0xff = 0 := by
  rw [tlbR_eq, ht] at hr
  cases hr
  constructor
  · intro hback
    exact ⟨(lowBit_eq_iff _ _ _).mp hback.entryLo0, (asid_readBack_iff _ _).mp hback.asid⟩
  · rintro ⟨hglobal, hasid⟩
    exact ⟨rfl, vpn2_readBack _ _, (asid_readBack_iff _ _).mpr hasid,
      (lowBit_eq_iff _ _ _).mpr hglobal, (lowBit_eq_iff _ _ _).mpr hglobal⟩

/-! ## Probing -/

theorem Tlbs.Matches.probed_iff {e : Tlbs} (he : e.Matches entryHi) :
    e.Probed entryHi ↔ e.FieldsAgree entryHi := by
  rw [Probed, FieldsAgree, he.1]
  exact and_congr_left' eq_comm

theorem find?_finRange_eq_some_iff {n : Nat} {p : Fin n → Bool} {i : Fin n} :
    (List.finRange n).find? p = some i ↔ p i = true ∧ ∀ j < i, ¬ p j = true := by
  rw [List.find?_eq_some_iff_getElem]
  constructor
  · rintro ⟨hp, k, hk, rfl, hbefore⟩
    refine ⟨hp, fun j hj hpj => ?_⟩
    rw [List.getElem_finRange, Fin.lt_def] at hj
    have hnot := hbefore j.val hj
    rw [List.getElem_finRange] at hnot
    simp [hpj] at hnot
  · rintro ⟨hp, hbefore⟩
    refine ⟨hp, i.val, by rw [List.length_finRange]; exact i.isLt, by simp, fun j hj => ?_⟩
    have hnot := hbefore ⟨j, hj.trans i.isLt⟩ hj
    simpa using hnot

theorem ofNat_ne_failure (i : Fin 48) : UInt32.ofNat i ≠ 0x80000000 := by
  revert i
  decide

theorem ofNat_inj {i j : Fin 48} (hij : UInt32.ofNat i = UInt32.ofNat j) : i = j := by
  revert i j
  decide

theorem tlbP_eq_iff : s.tlbP entryHi = .ofNat i ↔
    (s.tlb i).Probed entryHi ∧ ∀ j < i, ¬ (s.tlb j).Probed entryHi := by
  have hfind := find?_finRange_eq_some_iff (p := fun i => decide ((s.tlb i).Probed entryHi)) (i := i)
  simp only [decide_eq_true_eq] at hfind
  rw [← hfind, TlbState.tlbP]
  cases (List.finRange 48).find? fun i => (s.tlb i).Probed entryHi with
  | none => exact iff_of_false (ofNat_ne_failure i).symm (by simp)
  | some k => exact ⟨fun heq => congrArg some (ofNat_inj heq), fun heq => by cases heq; rfl⟩

theorem tlbP_eq_failure_iff : s.tlbP entryHi = 0x80000000 ↔ ∀ j, ¬ (s.tlb j).Probed entryHi := by
  rw [TlbState.tlbP]
  cases hfind : (List.finRange 48).find? fun i => (s.tlb i).Probed entryHi with
  | none => exact iff_of_true rfl fun j => by simpa using List.find?_eq_none.mp hfind j
  | some k =>
    refine iff_of_false (ofNat_ne_failure k) fun hnone => hnone k ?_
    simpa using List.find?_some hfind

/-- The first entry that matches has its fields where `TLBP` looks, and no entry is found before
one matches. -/
structure Probable (entryHi : UInt32) (tlb : Fin 48 → Tlbs) : Prop where
  agree : ∀ i, (tlb i).Matches entryHi → (∀ j < i, ¬ (tlb j).Matches entryHi) →
    (tlb i).FieldsAgree entryHi
  first : ∀ j, (tlb j).Probed entryHi → ∃ i ≤ j, (tlb i).Matches entryHi

theorem exists_first {P : Fin 48 → Prop} (hP : ∃ i, P i) : ∃ i, P i ∧ ∀ j < i, ¬ P j := by
  obtain ⟨i, hi, hfirst⟩ := wellFounded_lt.has_min {i | P i} hP
  exact ⟨i, hi, fun j hj hPj => hfirst j hPj hj⟩

theorem probes_iff : Probes entryHi s ↔ Probable entryHi s.tlb := by
  constructor
  · intro hs
    constructor
    · intro i hi hfirst
      exact hi.probed_iff.mp (tlbP_eq_iff.mp (hs.found i hi hfirst)).1
    · intro j hj
      by_cases hany : ∃ i, (s.tlb i).Matches entryHi
      · obtain ⟨i, hi, hfirst⟩ := exists_first hany
        refine ⟨i, ?_, hi⟩
        by_contra hlt
        exact (tlbP_eq_iff.mp (hs.found i hi hfirst)).2 j (not_le.mp hlt) hj
      · exact absurd hj (tlbP_eq_failure_iff.mp (hs.missed (not_exists.mp hany)) j)
  · intro htlb
    constructor
    · intro i hi hfirst
      refine tlbP_eq_iff.mpr ⟨hi.probed_iff.mpr (htlb.agree i hi hfirst), fun j hj hprobed => ?_⟩
      obtain ⟨k, hk, hmatch⟩ := htlb.first j hprobed
      exact hfirst k (lt_of_le_of_lt hk hj) hmatch
    · intro hnone
      refine tlbP_eq_failure_iff.mpr fun j hj => ?_
      obtain ⟨k, -, hmatch⟩ := htlb.first j hj
      exact hnone k hmatch

/-- `TLBR` and `TLBP` undo a write of entry `i`. -/
theorem tlb_undone_iff (h : MapData) (r q : CP0) (i : Fin 48) (s : TlbState) (entryHi : UInt32) :
    (∃ t r', TlbState.tlbWI h { r with index := .ofNat i } s = some t ∧
      t.tlbR { q with index := .ofNat i } = some r' ∧ ReadsBack r r' ∧ Probes entryHi t) ↔
    ((r.entryHi >>> 12) &&& 1 = r.entryLo0 &&& r.entryLo1 &&& 1 ∧
      r.entryHi &&& r.pageMask &&& 0xff = 0) ∧
    Probable entryHi (Function.update s.tlb i r.writeTLB) := by
  obtain ⟨t, ht, htlb⟩ := tlbWI_eq h r i s
  have hentry : t.tlb i = r.writeTLB := by rw [htlb, Function.update_self]
  rw [← htlb, ← probes_iff, ← readsBack_iff hentry (tlbR_eq q i t)]
  constructor
  · rintro ⟨t', r', ht', hr', hback, hprobes⟩
    rw [ht] at ht'
    cases ht'
    rw [tlbR_eq] at hr'
    cases hr'
    exact ⟨hback, hprobes⟩
  · rintro ⟨hback, hprobes⟩
    exact ⟨t, _, ht, tlbR_eq q i t, hback, hprobes⟩

/-- The entry of page 1 in address space 1 is not found. -/
theorem not_tlb_undone : ¬ ∃ t r',
      TlbState.tlbWI TlbState.sampleHost ⟨.ofNat 0, 0, 0, 0x2001, 0, 0⟩ TlbState.sampleReset =
        some t ∧ t.tlbR ⟨.ofNat 0, 0, 0, 0, 0, 0⟩ = some r' ∧
      ReadsBack ⟨0, 0, 0, 0x2001, 0, 0⟩ r' ∧ Probes 0x2001 t := by
  rintro ⟨t, r', ht, -, -, hprobes⟩
  obtain ⟨t', ht', htlb⟩ := tlbWI_eq TlbState.sampleHost ⟨0, 0, 0, 0x2001, 0, 0⟩ 0
    TlbState.sampleReset
  cases ht.symm.trans ht'
  have hentry : t.tlb 0 = CP0.writeTLB ⟨0, 0, 0, 0x2001, 0, 0⟩ := by
    rw [htlb, Function.update_self]
  have hfound := hprobes.found 0 (by rw [hentry]; decide) fun j hj => absurd hj (Fin.not_lt_zero j)
  have hprobed := (tlbP_eq_iff.mp hfound).1
  rw [hentry] at hprobed
  exact absurd hprobed (by decide)

end OmegaRed.EE
