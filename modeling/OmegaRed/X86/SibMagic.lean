import OmegaRed.X86.AddressExact

/-! The bytes of an address decode to what it says. -/

namespace OmegaRed.X86

open Lib.ModRm

section

variable {d : s32} {size : Fin 4} {r regfield : Reg}

theorem decodeDisp_write (h0 : size = 0 → d = 0) (h1 : size = 1 → is_s8 d) (rest : List u8) :
    decodeDisp size (writeDisplacement size d ++ rest) = some (d, rest) := by
  unfold decodeDisp writeDisplacement
  by_cases hzero : size = 0
  · rw [if_pos hzero, if_pos hzero, h0 hzero]
    rfl
  rw [if_neg hzero, if_neg hzero]
  by_cases hone : size = 1
  · rw [if_pos hone, if_pos hone]
    exact congrArg (fun d => some (d, rest)) (h1 hone)
  · rw [if_neg hone, if_neg hone]
    exact decodeDisp32_bytes32 d rest

theorem forced_spec (r : Reg) (d : s32) : (forced r (displacementSize d) = 0 → d = 0) ∧
    (forced r (displacementSize d) = 1 → is_s8 d) ∧ forced r (displacementSize d) ≠ 3 ∧
      ¬(r = ebp ∧ forced r (displacementSize d) = 0) := by
  unfold forced displacementSize
  by_cases hzero : d = 0
  · subst hzero
    rw [if_pos rfl]
    by_cases hr : r = ebp
    · rw [if_pos ⟨hr, rfl⟩]
      exact ⟨fun _ => rfl, fun _ => by decide, by decide, fun h => absurd h.2 (by decide)⟩
    · rw [if_neg fun h => hr h.1]
      exact ⟨fun _ => rfl, fun h => absurd h (by decide), by decide, fun h => hr h.1⟩
  · rw [if_neg hzero]
    by_cases hbyte : is_s8 d
    · rw [if_pos hbyte, if_neg fun h => absurd h.2 (by decide)]
      exact ⟨fun h => absurd h (by decide), fun _ => hbyte, by decide,
        fun h => absurd h.2 (by decide)⟩
    · rw [if_neg hbyte, if_neg fun h => absurd h.2 (by decide)]
      exact ⟨fun h => absurd h (by decide), fun h => absurd h (by decide), by decide,
        fun h => absurd h.2 (by decide)⟩

theorem decode_rm (hr : r ≠ esp) (rest : List u8) :
    decode (ModRM (forced r (displacementSize d)) regfield r ::
      writeDisplacement (forced r (displacementSize d)) d ++ rest) =
        some (regfield, ⟨some r, none, d⟩, rest) := by
  obtain ⟨h0, h1, h3, hebp⟩ := forced_spec r d
  simp only [List.cons_append, decode, ModRM, field2_pack, field1_pack, field0_pack]
  rw [if_neg h3, if_neg hr, if_neg hebp, decodeDisp_write h0 h1]
  rfl

theorem decode_sib {base index : Reg} (ss : Fin 4) (rest : List u8) :
    decode (ModRM (forced base (displacementSize d)) regfield esp :: SibSB ss index base ::
      writeDisplacement (forced base (displacementSize d)) d ++ rest) = some (regfield,
        ⟨some base, if index = esp then none else some (index, ss), d⟩, rest) := by
  obtain ⟨h0, h1, h3, hebp⟩ := forced_spec base d
  simp only [List.cons_append, decode, decodeSib, ModRM, SibSB, field2_pack, field1_pack,
    field0_pack]
  rw [if_neg h3, if_pos trivial, if_neg hebp, decodeDisp_write h0 h1]
  rfl

theorem decode_index {index : Reg} (ss : Fin 4) (rest : List u8) :
    decode (ModRM 0 regfield esp :: SibSB ss index ebp :: bytes32 d ++ rest) = some (regfield,
      ⟨none, if index = esp then none else some (index, ss), d⟩, rest) := by
  simp only [List.cons_append, decode, decodeSib, ModRM, SibSB, field2_pack, field1_pack,
    field0_pack]
  rw [if_neg (by decide), if_pos trivial, if_pos ⟨trivial, trivial⟩, decodeDisp32_bytes32]
  rfl

end

theorem indexed_eq {base : Option Reg} {index : Reg} {s : Fin 4} {d : s32} (hesp : index ≠ esp)
    (r : Reg) : Form.indexed ⟨base, if index = esp then none else some (index, s), d⟩ r =
      2 ^ s.val * unit index r := by
  rw [if_neg hesp, Form.indexed, unit]
  by_cases hr : r = index
  · simp [hr]
  · simp [hr, Ne.symm hr]

theorem EmitSibMagic_decode (regfield : Reg) (base : Option Reg) {index : Reg} (s : Fin 4)
    (d : s32) (hesp : index ≠ esp) :
    ∃ bytes, EmitSibMagic regfield ⟨base, some index, s, d⟩ = some bytes ∧
      ∀ rest, ∃ f, decode (bytes ++ rest) = some (regfield, f, rest) ∧ f.sum =
        ⟨fun r => (if base = some r then 1 else 0) + 2 ^ s.val * unit index r, d⟩ := by
  have hsome : ¬((base = none) ∧ (some index = none) ∧ displacementSize d ≠ 2) := by simp
  unfold EmitSibMagic
  dsimp only
  rw [if_neg hsome]
  cases base with
  | some b =>
    have hneeds : xIndirectVoid.NeedsSibMagic ⟨some b, some index, s, d⟩ := by
      simp [xIndirectVoid.NeedsSibMagic]
    rw [if_pos hneeds]
    refine ⟨_, rfl, fun rest => ⟨_, decode_sib s rest, ?_⟩⟩
    exact Sum.ext (funext fun r => congrArg _ (indexed_eq hesp r)) rfl
  | none =>
    by_cases hs : s = 0
    · subst hs
      have hneeds : ¬xIndirectVoid.NeedsSibMagic ⟨none, some index, (0 : Fin 4), d⟩ := by
        simp [xIndirectVoid.NeedsSibMagic]
      rw [if_neg hneeds]
      refine ⟨_, rfl, fun rest => ⟨_, decode_rm hesp rest, Sum.ext (funext fun r => ?_) rfl⟩⟩
      simp [Form.sum, Form.indexed, unit, eq_comm (a := r)]
    · have hneeds : xIndirectVoid.NeedsSibMagic ⟨none, some index, s, d⟩ := by
        have hval : s.val ≠ 0 := fun h => hs (Fin.ext h)
        simp [xIndirectVoid.NeedsSibMagic, hval]
      rw [if_pos hneeds]
      refine ⟨_, rfl, fun rest => ⟨_, decode_index s rest, ?_⟩⟩
      exact Sum.ext (funext fun r => congrArg _ (indexed_eq hesp r)) rfl

theorem EmitSibMagic_esp (regfield : Reg) (d : s32) :
    ∃ bytes, EmitSibMagic regfield ⟨some esp, some esp, 0, d⟩ = some bytes ∧
      ∀ rest, ∃ f, decode (bytes ++ rest) = some (regfield, f, rest) ∧
        f.sum = ⟨fun r => unit esp r, d⟩ := by
  refine ⟨_, rfl, fun rest => ⟨_, decode_sib 0 rest, Sum.ext (funext fun r => ?_) rfl⟩⟩
  simp [Form.sum, Form.indexed, unit, eq_comm (a := r)]

theorem Reduce_decode {v : xAddressVoid} {i : Reg} (hi : v.Index = some i) {info : xIndirectVoid}
    (h : (xIndirectVoid.ofVoid v).Reduce = some info) (regfield : Reg) :
    ∃ bytes, EmitSibMagic regfield info = some bytes ∧
      ∀ rest, ∃ f, decode (bytes ++ rest) = some (regfield, f, rest) ∧
        f.sum = ⟨v.coef, v.Displacement⟩ := by
  obtain ⟨B, I, F, D⟩ := v
  cases hi
  have hcoef (x : Reg) : xAddressVoid.coef ⟨B, some i, F, D⟩ x =
      (if B = some x then 1 else 0) + eff F * unit i x := coef_eq rfl x
  rw [show xAddressVoid.coef ⟨B, some i, F, D⟩ = _ from funext hcoef]
  unfold xIndirectVoid.Reduce xIndirectVoid.ofVoid at h
  dsimp only at h
  by_cases hesp : some i = some esp
  · rw [if_pos hesp] at h
    split at h
    · rename_i halone
      obtain ⟨rfl, rfl⟩ := halone
      cases hesp
      cases h
      simpa [eff] using EmitSibMagic_esp regfield D
    · cases h
  rw [if_neg hesp, if_neg (Option.some_ne_none i)] at h
  have hne : i ≠ esp := fun heq => hesp (by rw [heq])
  -- an index with base `b` and scale `s`
  have hplain (b : Option Reg) (s : Fin 4) (hb : ∀ x : Reg,
      (if b = some x then 1 else 0) + 2 ^ s.val * unit i x =
        (if B = some x then 1 else 0) + eff F * unit i x) :
      ∃ bytes, EmitSibMagic regfield ⟨b, some i, s, D⟩ = some bytes ∧
        ∀ rest, ∃ f, decode (bytes ++ rest) = some (regfield, f, rest) ∧
          f.sum = ⟨fun x => (if B = some x then 1 else 0) + eff F * unit i x, D⟩ := by
    rw [← funext hb]
    exact EmitSibMagic_decode regfield b s D hne
  -- a register that is its own base
  have hself (s : Fin 4) (hnone : B = none) (hF : F = 2 ^ s.val + 1) (x : Reg) :
      (if some i = some x then 1 else 0) + 2 ^ s.val * unit i x =
        (if B = some x then 1 else 0) + eff F * unit i x := by
    have hpos : F ≠ 0 := by
      rw [hF]
      exact Nat.succ_ne_zero _
    rw [eff, if_neg hpos, hF, hnone, unit]
    by_cases hx : x = i
    · simp [hx, Nat.add_comm]
    · simp [hx, Ne.symm hx]
  split at h
  case h_1 => exact Option.some.inj h ▸ hplain B 0 fun x => rfl
  case h_2 => exact Option.some.inj h ▸ hplain B 0 fun x => rfl
  case h_3 => exact Option.some.inj h ▸ hplain B 1 fun x => rfl
  case h_5 => exact Option.some.inj h ▸ hplain B 2 fun x => rfl
  case h_7 => exact Option.some.inj h ▸ hplain B 3 fun x => rfl
  case h_4 =>
    split at h
    · rename_i hnone
      exact Option.some.inj h ▸ hplain (some i) 1 (hself 1 hnone rfl)
    · cases h
  case h_6 =>
    split at h
    · rename_i hnone
      exact Option.some.inj h ▸ hplain (some i) 2 (hself 2 hnone rfl)
    · cases h
  case h_8 =>
    split at h
    · rename_i hnone
      exact Option.some.inj h ▸ hplain (some i) 3 (hself 3 hnone rfl)
    · cases h
  case h_9 => cases h

theorem reg_decode (r regfield : Reg) : (Operand.reg r).Right regfield := by
  by_cases hr : r = esp
  · subst hr
    obtain ⟨bytes, hbytes, hdecode⟩ := EmitSibMagic_esp regfield 0
    exact ⟨bytes, hbytes, hdecode⟩
  · obtain ⟨bytes, hbytes, hdecode⟩ := EmitSibMagic_decode regfield none 0 0 hr
    refine ⟨bytes, ?_, fun rest => ?_⟩
    · have hreduce : (Operand.reg r).indirect = some ⟨none, some r, 0, 0⟩ := by
        simp [Operand.indirect, xIndirectVoid.Reduce, hr]
      rw [Operand.emit, hreduce]
      exact hbytes
    · obtain ⟨f, hf, hsum⟩ := hdecode rest
      refine ⟨f, hf, hsum.trans (Sum.ext (funext fun x => ?_) rfl)⟩
      simp [Operand.value, unit]

theorem indexed_cases (f : Form) (r : Reg) : f.indexed r = 0 ∨
    (∃ s, f.index = some (r, s)) ∧
      (f.indexed r = 1 ∨ f.indexed r = 2 ∨ f.indexed r = 4 ∨ f.indexed r = 8) := by
  unfold Form.indexed
  cases hf : f.index with
  | none => exact .inl rfl
  | some p =>
    obtain ⟨j, s⟩ := p
    dsimp only
    by_cases hj : j = r
    · subst hj
      rw [if_pos rfl]
      refine .inr ⟨⟨s, rfl⟩, ?_⟩
      have hscale : ∀ s : Fin 4, 2 ^ s.val = 1 ∨ 2 ^ s.val = 2 ∨ 2 ^ s.val = 4 ∨ 2 ^ s.val = 8 := by
        decide
      exact hscale s
    · rw [if_neg hj]
      exact .inl rfl

theorem indexed_of_ne {f : Form} {r r' : Reg} {s : Fin 4} (h : f.index = some (r, s))
    (hne : r ≠ r') : f.indexed r' = 0 := by
  rw [Form.indexed, h]
  exact if_neg hne

theorem factor_of_eff {F n : Nat} (h : eff F = n) : F = n ∨ F = 0 ∧ n = 1 := by
  unfold eff at h
  split at h
  · exact .inr ⟨‹_›, h.symm⟩
  · exact .inl h

theorem factor_of_form {v : xAddressVoid} {i : Reg} (hi : v.Index = some i) (hend : v.EndFits)
    (hform : Sum.HasForm ⟨v.coef, v.Displacement⟩) :
    v.Factor ∈ [0, 1, 2, 4, 8] ∨ v.Base = none ∧ v.Factor ∈ [3, 5, 9] := by
  obtain ⟨f, -, hsum⟩ := hform
  have hcoef (x : Reg) : (if f.base = some x then 1 else 0) + f.indexed x = v.coef x :=
    congrFun (congrArg Sum.coef hsum) x
  have hone : unit i i = 1 := if_pos rfl
  have hci := hcoef i
  have hbase : (if f.base = some i then 1 else 0) = 0 ∨ (if f.base = some i then 1 else 0) = 1 := by
    split <;> simp
  rcases hB : v.Base with _ | b
  · rw [coef_no_base hi hB, hone, Nat.mul_one] at hci
    have hF := factor_of_eff hci.symm
    rcases hbase with hb | hb <;> rcases indexed_cases f i with h | ⟨-, h | h | h | h⟩
    all_goals
      rw [hb, h] at hF
      rcases hF with hF | ⟨hF, -⟩ <;> simp [hF]
  · refine .inl ?_
    by_cases hbi : b = i
    · subst hbi
      have hends := hend.2 (by rw [hB, hi])
      rw [coef_base hi hB, hone, Nat.mul_one] at hci
      have hF := factor_of_eff (Nat.eq_sub_of_add_eq' hci.symm)
      rcases hbase with hb | hb <;> rcases indexed_cases f b with h | ⟨-, h | h | h | h⟩
      all_goals
        rw [hb, h] at hF
        rcases hF with hF | ⟨hF, -⟩ <;> simp [hF] at hends ⊢
    · have hcb := hcoef b
      rw [coef_base hi hB, show unit b b = 1 from if_pos rfl,
        show unit i b = 0 from if_neg hbi, Nat.mul_zero] at hcb
      rw [coef_base hi hB, hone, show unit b i = 0 from if_neg fun h => hbi h.symm,
        Nat.mul_one, Nat.zero_add] at hci
      have hF := factor_of_eff hci.symm
      rcases indexed_cases f i with hzero | ⟨⟨s, hs⟩, hval⟩
      · rcases hbase with hb | hb
        all_goals
          rw [hb, hzero] at hF
          rcases hF with hF | ⟨hF, -⟩ <;> simp [hF]
      · -- the index is `i`, so that the base is `b`
        have hother := indexed_of_ne hs (Ne.symm hbi)
        have hbaseb : f.base = some b := by
          by_contra hno
          rw [if_neg hno, hother] at hcb
          omega
        rw [hbaseb, if_neg (by simpa using hbi), Nat.zero_add] at hF
        rcases hval with h | h | h | h
        all_goals
          rw [h] at hF
          rcases hF with hF | ⟨hF, -⟩ <;> simp [hF]

theorem Reduce_isSome {v : xAddressVoid} {i : Reg} (hi : v.Index = some i) (hend : v.EndFits)
    (hform : Sum.HasForm ⟨v.coef, v.Displacement⟩) :
    ∃ info, (xIndirectVoid.ofVoid v).Reduce = some info := by
  have hfactor := factor_of_form hi hend hform
  unfold xIndirectVoid.Reduce xIndirectVoid.ofVoid
  dsimp only
  by_cases hesp : v.Index = some esp
  · obtain ⟨hbase, hzero⟩ := hend.1 hesp
    rw [if_pos hesp, if_pos ⟨hzero, hbase⟩]
    exact ⟨_, rfl⟩
  · rw [if_neg hesp, if_neg (by simp [hi])]
    simp only [List.mem_cons, List.not_mem_nil, or_false] at hfactor
    rcases hfactor with (h | h | h | h | h) | ⟨hnone, h | h | h⟩
    all_goals rw [h]
    · exact ⟨_, rfl⟩
    · exact ⟨_, rfl⟩
    · exact ⟨_, rfl⟩
    · exact ⟨_, rfl⟩
    · exact ⟨_, rfl⟩
    · exact ⟨_, if_pos hnone⟩
    · exact ⟨_, if_pos hnone⟩
    · exact ⟨_, if_pos hnone⟩

theorem EndFits_of_Reduce {v : xAddressVoid} {i : Reg} (hi : v.Index = some i)
    {info : xIndirectVoid} (h : (xIndirectVoid.ofVoid v).Reduce = some info) : v.EndFits := by
  unfold xIndirectVoid.Reduce xIndirectVoid.ofVoid at h
  dsimp only at h
  by_cases hesp : v.Index = some esp
  · rw [if_pos hesp] at h
    split at h
    · rename_i halone
      refine ⟨fun _ => ⟨halone.2, halone.1⟩, fun _ => ?_⟩
      rw [halone.1]
      decide
    · cases h
  · rw [if_neg hesp, if_neg (by simp [hi])] at h
    refine ⟨fun heq => absurd heq hesp, fun hsame => ⟨fun h3 => ?_, fun h7 => ?_⟩⟩
    · rw [h3, hsame, hi] at h
      cases h
    · rw [h7] at h
      cases h

/-- An operand whose sum has a form is written as it stands exactly when its additions fit. -/
theorem Operand.right_iff_form (o : Operand) (regfield : Reg) (hform : o.value.HasForm) :
    o.Right regfield ↔ o.Fits := by
  cases o with
  | reg r => exact iff_of_true (reg_decode r regfield) trivial
  | sum e =>
    refine ⟨?_, ?_⟩
    · rintro ⟨bytes, hemit, hdecode⟩
      obtain ⟨info, hinfo, hbytes⟩ := Option.bind_eq_some_iff.1 hemit
      obtain ⟨v, hv, hreduce⟩ := Option.bind_eq_some_iff.1 hinfo
      obtain ⟨⟨i, hi⟩, -, -, hlt⟩ := build_le e hv
      obtain ⟨bytes', hbytes', hdecode'⟩ := Reduce_decode hi hreduce regfield
      rw [hbytes, Option.some.injEq] at hbytes'
      subst hbytes'
      obtain ⟨f, hf, hsum⟩ := hdecode []
      obtain ⟨f', hf', hsum'⟩ := hdecode' []
      rw [hf, Option.some.injEq, Prod.mk.injEq, Prod.mk.injEq] at hf'
      rw [← hf'.2.1, hsum] at hsum'
      refine ⟨?_, fun v' hv' => ?_⟩
      · by_contra hno
        obtain ⟨x, hx⟩ := hlt hno
        have heq : e.value.coef x = v.coef x := congrFun (congrArg Sum.coef hsum') x
        omega
      · rw [hv] at hv'
        exact Option.some.inj hv' ▸ EndFits_of_Reduce hi hreduce
    · rintro ⟨hfits, hend⟩
      obtain ⟨v, hv, hcoef⟩ := build_of_fits e hfits
      obtain ⟨⟨i, hi⟩, hdisp, -⟩ := build_le e hv
      have hvalue : (⟨v.coef, v.Displacement⟩ : Sum) = e.value := Sum.ext (funext hcoef) hdisp
      obtain ⟨info, hreduce⟩ := Reduce_isSome hi (hend v hv) (hvalue ▸ hform)
      obtain ⟨bytes, hbytes, hdecode⟩ := Reduce_decode hi hreduce regfield
      refine ⟨bytes, ?_, fun rest => ?_⟩
      · have hindirect : (Operand.sum e).indirect = some info := by
          rw [Operand.indirect, hv]
          exact hreduce
        rw [Operand.emit, hindirect]
        exact hbytes
      · obtain ⟨f, hf, hsum⟩ := hdecode rest
        exact ⟨f, hf, hsum.trans hvalue⟩

end OmegaRed.X86
