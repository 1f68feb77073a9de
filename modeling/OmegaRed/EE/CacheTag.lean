import OmegaRed.EE.Cache
import Mathlib.Tactic.IntervalCases

/-! Tags: a page of the host in the high bits, flags in the low ones. -/

namespace OmegaRed.EE

theorem eq_of_bits {x y : UInt32}
    (h : ∀ i, i < 32 → x.toBitVec.getLsbD i = y.toBitVec.getLsbD i) : x = y :=
  UInt32.toBitVec_inj.mp (BitVec.eq_of_getLsbD_eq h)

/-- The line is in use. -/
def Valid (tag : UInt32) : Prop := tag &&& validFlag ≠ 0

/-- The line is to be written back. -/
def Dirty (tag : UInt32) : Prop :=
  tag &&& (dirtyFlag ||| validFlag) = dirtyFlag ||| validFlag

instance (tag : UInt32) : Decidable (Valid tag) := inferInstanceAs (Decidable (_ ≠ _))

instance (tag : UInt32) : Decidable (Dirty tag) := inferInstanceAs (Decidable (_ = _))

/-- The page a tag is about, as `getFreeCache` compares it. -/
def page (tag : UInt32) : UInt32 := tag &&& ~~~0xfff

/-- The same page as a host address. -/
def hostPage (tag : UInt32) : Nat := (tag &&& ~~~0x80000fff).toNat

section Bits

variable (tag paddr : UInt32)

theorem valid_iff : Valid tag ↔ tag.toBitVec.getLsbD 5 = true := by
  rw [Valid, ← not_iff_not, not_not, Bool.not_eq_true]
  constructor
  · intro h
    have hbit := congrArg (fun x : UInt32 => x.toBitVec.getLsbD 5) h
    simpa [validFlag] using hbit
  · intro h
    apply eq_of_bits
    intro i hi
    simp only [validFlag, UInt32.toBitVec_and, BitVec.getLsbD_and]
    rw [BitVec.getLsbD_eq_getElem (by decide)] at h
    interval_cases i <;> simp [h]

theorem dirty_iff : Dirty tag ↔ Valid tag ∧ tag.toBitVec.getLsbD 6 = true := by
  rw [valid_iff, Dirty]
  constructor
  · intro h
    have hvalid := congrArg (fun x : UInt32 => x.toBitVec.getLsbD 5) h
    have hdirty := congrArg (fun x : UInt32 => x.toBitVec.getLsbD 6) h
    exact ⟨by simpa [dirtyFlag, validFlag] using hvalid,
      by simpa [dirtyFlag, validFlag] using hdirty⟩
  · rintro ⟨hvalid, hdirty⟩
    apply eq_of_bits
    intro i hi
    simp only [dirtyFlag, validFlag, UInt32.toBitVec_and, BitVec.getLsbD_and]
    interval_cases i <;> simp [hvalid, hdirty]

@[simp] theorem page_or_dirtyFlag : page (tag ||| dirtyFlag) = page tag := by
  apply eq_of_bits
  intro i hi
  simp only [page, dirtyFlag, UInt32.toBitVec_and, UInt32.toBitVec_or, BitVec.getLsbD_and,
    BitVec.getLsbD_or]
  interval_cases i <;> simp

@[simp] theorem page_and_not_dirtyFlag : page (tag &&& ~~~dirtyFlag) = page tag := by
  apply eq_of_bits
  intro i hi
  simp only [page, dirtyFlag, UInt32.toBitVec_and, BitVec.getLsbD_and]
  interval_cases i <;> simp

@[simp] theorem valid_or_dirtyFlag : Valid (tag ||| dirtyFlag) ↔ Valid tag := by
  simp [valid_iff, dirtyFlag]

@[simp] theorem valid_and_not_dirtyFlag : Valid (tag &&& ~~~dirtyFlag) ↔ Valid tag := by
  simp [valid_iff, dirtyFlag]

theorem dirty_or_dirtyFlag : Dirty (tag ||| dirtyFlag) ↔ Valid tag := by
  rw [dirty_iff, valid_or_dirtyFlag]
  simp [dirtyFlag]

theorem not_dirty_and_not_dirtyFlag : ¬ Dirty (tag &&& ~~~dirtyFlag) := by
  simp [dirty_iff, dirtyFlag]

theorem bit_filledTag {i : Nat} (hi : i ≠ 4) (hlt : i < 32) :
    (filledTag tag paddr).toBitVec.getLsbD i =
      (((tag ||| validFlag) &&& 0xfff) ||| (paddr &&& ~~~0xfff)).toBitVec.getLsbD i := by
  rw [filledTag]
  split
  · simp only [lrfFlag, UInt32.toBitVec_and, BitVec.getLsbD_and]
    interval_cases i <;> simp at hi ⊢
  · simp only [lrfFlag, UInt32.toBitVec_or, BitVec.getLsbD_or]
    interval_cases i <;> simp at hi ⊢

@[simp] theorem page_filledTag : page (filledTag tag paddr) = page paddr := by
  apply eq_of_bits
  intro i hi
  by_cases hflag : i = 4
  · subst hflag
    simp [page]
  · simp only [page, UInt32.toBitVec_and, BitVec.getLsbD_and, bit_filledTag tag paddr hflag hi,
      UInt32.toBitVec_or, BitVec.getLsbD_or]
    interval_cases i <;> simp

theorem valid_filledTag : Valid (filledTag tag paddr) := by
  rw [valid_iff, bit_filledTag _ _ (by decide) (by decide)]
  simp [validFlag]

theorem toNat_page : (page tag).toNat = tag.toNat / 4096 * 4096 := by
  have hshift : page tag = (tag >>> 12) <<< 12 := by
    apply eq_of_bits
    intro i hi
    simp only [page, UInt32.toBitVec_and, BitVec.getLsbD_and]
    interval_cases i <;> simp
  have hlt := tag.toNat_lt
  rw [hshift]
  simp only [UInt32.toNat_shiftLeft, UInt32.toNat_shiftRight, UInt32.reduceToNat, Nat.reduceMod,
    Nat.shiftRight_eq_div_pow, Nat.shiftLeft_eq]
  omega

theorem hostPage_eq : hostPage tag = (page tag).toNat % 2 ^ 31 := by
  have hshift : tag &&& (~~~0x80000fff : UInt32) = (page tag <<< 1) >>> 1 := by
    apply eq_of_bits
    intro i hi
    simp only [page, UInt32.toBitVec_and, BitVec.getLsbD_and]
    interval_cases i <;> simp
  have hlt := (page tag).toNat_lt
  rw [hostPage, hshift]
  simp only [UInt32.toNat_shiftLeft, UInt32.toNat_shiftRight, UInt32.reduceToNat, Nat.reduceMod,
    Nat.shiftRight_eq_div_pow, Nat.shiftLeft_eq]
  omega

end Bits

theorem index_eq (mem : UInt32) : index mem = mem.toNat / 64 % 64 := by
  simp only [index, UInt32.toNat_and, UInt32.toNat_shiftRight, UInt32.reduceToNat, Nat.reduceMod,
    Nat.shiftRight_eq_div_pow]
  exact Nat.and_two_pow_sub_one_eq_mod _ 6

theorem oldppf_toNat (tag mem : UInt32) :
    (oldppf tag mem).toNat = hostPage tag + 64 * index mem := by
  have hoffset : mem &&& (0xfc0 : UInt32) = (mem >>> 6 &&& (0x3f : UInt32)) <<< 6 := by
    apply eq_of_bits
    intro i hi
    simp only [UInt32.toBitVec_and, BitVec.getLsbD_and]
    interval_cases i <;> simp
  have hindex : (mem >>> 6 &&& 0x3f).toNat = index mem := rfl
  have hlt : index mem < 64 := index_eq mem ▸ Nat.mod_lt _ (by decide)
  have hpage := hostPage_eq tag
  have hhost := toNat_page tag
  rw [oldppf, UInt32.toNat_add, hoffset, UInt32.toNat_shiftLeft, hindex, ← hostPage]
  simp only [UInt32.reduceToNat, Nat.reduceMod, Nat.shiftLeft_eq]
  omega

namespace Machine

theorem place_eq {k : Nat} (hk : k ≤ 3) {mem : UInt32} (h : 2 ^ k ∣ mem.toNat) :
    place k mem = mem.toNat % 64 := by
  have hquad : (mem >>> 4 &&& 3).toNat = mem.toNat / 16 % 4 := by
    simp only [UInt32.toNat_and, UInt32.toNat_shiftRight, UInt32.reduceToNat, Nat.reduceMod,
      Nat.shiftRight_eq_div_pow]
    exact Nat.and_two_pow_sub_one_eq_mod _ 2
  have hbyte : (mem &&& 0xf).toNat = mem.toNat % 16 := by
    rw [UInt32.toNat_and]
    exact Nat.and_two_pow_sub_one_eq_mod _ 4
  rw [place, hquad, hbyte, Nat.shiftRight_eq_div_pow]
  interval_cases k <;> omega

end Machine

/-- The address is in a page of the host. -/
structure OnHost (vmap : VMap) (mem : UInt32) : Prop where
  page : 4096 ∣ (vmap (mem >>> 12)).toNat
  host : (vmap.ppf mem).toNat < 2 ^ 31

namespace OnHost

variable {vmap : VMap} {mem : UInt32}

theorem ppf_mod (h : OnHost vmap mem) : (vmap.ppf mem).toNat % 4096 = mem.toNat % 4096 := by
  have hpage := h.page
  rw [VMap.ppf, UInt32.toNat_add]
  omega

theorem paddr_toNat (h : OnHost vmap mem) :
    (vmap.paddr mem).toNat = (vmap.ppf mem).toNat + 2 ^ 31 := by
  have hhand : vmap.hand mem = 0 := by
    apply UInt32.toNat.inj
    have hpage := h.page
    have hlow : (vmap (mem >>> 12)).toNat &&& 255 = (vmap (mem >>> 12)).toNat % 256 :=
      Nat.and_two_pow_sub_one_eq_mod _ 8
    rw [VMap.hand, UInt32.toNat_and]
    exact hlow.trans (Nat.mod_eq_zero_of_dvd (Nat.dvd_trans (by decide) hpage))
  have hhost := h.host
  rw [VMap.paddr, hhand, UInt32.sub_zero, UInt32.toNat_add]
  simp only [UInt32.reduceToNat]
  omega

theorem index_eq (h : OnHost vmap mem) : index mem = (vmap.ppf mem).toNat / 64 % 64 := by
  have hmod := h.ppf_mod
  rw [EE.index_eq]
  omega

end OnHost

end OmegaRed.EE

/-! What memory looks like through the cache. -/

namespace OmegaRed.EE

open Lib.Memory

/-- A line with this tag, in the set of address `a`, is the line of `a`. -/
def Holds (tag : UInt32) (a : Nat) : Prop := Valid tag ∧ hostPage tag = a / 4096 * 4096

instance (tag : UInt32) (a : Nat) : Decidable (Holds tag a) := instDecidableAnd

namespace Machine

def setOf (s : Machine) (a : Nat) : CacheS := s.pCache (a / 64 % 64)

/-- Memory as a program sees it. -/
def view (s : Machine) (a : Nat) : UInt8 :=
  if Holds ((s.setOf a).tag 0) a then (s.setOf a).data 0 (a % 64)
  else if Holds ((s.setOf a).tag 1) a then (s.setOf a).data 1 (a % 64)
  else s.mem a

/-- Tags are about pages of the host, no line is in both ways, and what is not dirty is as it is
in memory. -/
structure Ok (s : Machine) : Prop where
  host : ∀ i way, i < 64 → Valid ((s.pCache i).tag way) → 2 ^ 31 ≤ ((s.pCache i).tag way).toNat
  once : ∀ i way way', i < 64 → Valid ((s.pCache i).tag way) → Valid ((s.pCache i).tag way') →
    page ((s.pCache i).tag way) = page ((s.pCache i).tag way') → way = way'
  clean : ∀ a way, Holds ((s.setOf a).tag way) a → ¬ Dirty ((s.setOf a).tag way) →
    (s.setOf a).data way (a % 64) = s.mem a

end Machine

theorem page_eq_iff {tag tag' : UInt32} (h : 2 ^ 31 ≤ tag.toNat) (h' : 2 ^ 31 ≤ tag'.toNat) :
    page tag = page tag' ↔ hostPage tag = hostPage tag' := by
  have hlt := tag.toNat_lt
  have hlt' := tag'.toNat_lt
  rw [hostPage_eq, hostPage_eq, ← UInt32.toNat_inj, toNat_page, toNat_page]
  omega

namespace Machine

variable {s : Machine} {i a : Nat} {way : Fin 2} {tag : UInt32} {data : Nat → UInt8}

@[simp] theorem mem_setLine : (s.setLine i way tag data).mem = s.mem := rfl

theorem tag_setLine (j : Nat) (way' : Fin 2) : ((s.setLine i way tag data).pCache j).tag way' =
    if j = i ∧ way' = way then tag else (s.pCache j).tag way' := by
  by_cases hj : j = i
  · subst hj
    simp [setLine, Function.update_apply]
  · simp [setLine, hj]

theorem data_setLine (j : Nat) (way' : Fin 2) : ((s.setLine i way tag data).pCache j).data way' =
    if j = i ∧ way' = way then data else (s.pCache j).data way' := by
  by_cases hj : j = i
  · subst hj
    simp [setLine, Function.update_apply]
  · simp [setLine, hj]

theorem Ok.way_unique (h : s.Ok) {way way' : Fin 2} (hway : Holds ((s.setOf a).tag way) a)
    (hway' : Holds ((s.setOf a).tag way') a) : way = way' := by
  have hi : a / 64 % 64 < 64 := Nat.mod_lt _ (by decide)
  refine h.once _ _ _ hi hway.1 hway'.1 ?_
  exact (page_eq_iff (h.host _ _ hi hway.1) (h.host _ _ hi hway'.1)).mpr
    (hway.2.trans hway'.2.symm)

theorem Ok.view_of_holds (h : s.Ok) (hway : Holds ((s.setOf a).tag way) a) :
    s.view a = (s.setOf a).data way (a % 64) := by
  rw [view]
  match way, hway with
  | 0, hway => rw [if_pos hway]
  | 1, hway =>
    rw [if_neg fun h0 => absurd (h.way_unique h0 hway) (by decide), if_pos hway]

theorem view_of_not_holds (h : ∀ way, ¬ Holds ((s.setOf a).tag way) a) : s.view a = s.mem a := by
  rw [view, if_neg (h 0), if_neg (h 1)]

theorem setOf_setLine_of_ne (h : a / 64 % 64 ≠ i) : (s.setLine i way tag data).setOf a = s.setOf a :=
  Function.update_of_ne h ..

theorem tag_setLine_self (h : a / 64 % 64 = i) :
    ((s.setLine i way tag data).setOf a).tag way = tag := by
  rw [setOf, tag_setLine, if_pos ⟨h, rfl⟩]

theorem data_setLine_self (h : a / 64 % 64 = i) :
    ((s.setLine i way tag data).setOf a).data way = data := by
  rw [setOf, data_setLine, if_pos ⟨h, rfl⟩]

theorem tag_setLine_of_ne {way' : Fin 2} (h : way' ≠ way) :
    ((s.setLine i way tag data).setOf a).tag way' = (s.setOf a).tag way' := by
  rw [setOf, tag_setLine, if_neg fun hboth => h hboth.2, setOf]

theorem data_setLine_of_ne {way' : Fin 2} (h : way' ≠ way) :
    ((s.setLine i way tag data).setOf a).data way' = (s.setOf a).data way' := by
  rw [setOf, data_setLine, if_neg fun hboth => h hboth.2, setOf]

theorem Ok.view_setLine_self (h : (s.setLine i way tag data).Ok) (hset : a / 64 % 64 = i)
    (hholds : Holds tag a) : (s.setLine i way tag data).view a = data (a % 64) := by
  have hnew : Holds (((s.setLine i way tag data).setOf a).tag way) a := by
    rw [tag_setLine_self hset]
    exact hholds
  rw [h.view_of_holds hnew, data_setLine_self hset]

theorem Ok.setLine (h : s.Ok) (hhost : Valid tag → 2 ^ 31 ≤ tag.toNat)
    (honce : ∀ way', way' ≠ way → Valid ((s.pCache i).tag way') → Valid tag →
      page ((s.pCache i).tag way') ≠ page tag)
    (hclean : ∀ a, a / 64 % 64 = i → Holds tag a → ¬ Dirty tag → data (a % 64) = s.mem a) :
    (s.setLine i way tag data).Ok := by
  refine ⟨fun j way' hj hvalid => ?_, fun j w w' hj hw hw' hpage => ?_, fun a way' hholds hdirty => ?_⟩
  · rw [tag_setLine] at hvalid ⊢
    by_cases hsame : j = i ∧ way' = way
    · rw [if_pos hsame] at hvalid ⊢
      exact hhost hvalid
    · rw [if_neg hsame] at hvalid ⊢
      exact h.host j way' hj hvalid
  · rw [tag_setLine] at hw hw' hpage
    rw [tag_setLine] at hpage
    split at hw <;> split at hw'
    · rename_i hsame hsame'
      exact hsame.2.trans hsame'.2.symm
    · rename_i hsame hother
      rw [if_pos hsame, if_neg hother] at hpage
      obtain ⟨rfl, rfl⟩ := hsame
      by_contra hne
      exact honce w' (Ne.symm hne) hw' hw hpage.symm
    · rename_i hother hsame
      rw [if_neg hother, if_pos hsame] at hpage
      obtain ⟨rfl, rfl⟩ := hsame
      by_contra hne
      exact honce w hne hw hw' hpage
    · rename_i hother hother'
      rw [if_neg hother, if_neg hother'] at hpage
      exact h.once j w w' hj hw hw' hpage
  · by_cases hi : a / 64 % 64 = i
    · by_cases hway : way' = way
      · subst hway
        rw [tag_setLine_self hi] at hholds hdirty
        rw [data_setLine_self hi]
        exact hclean a hi hholds hdirty
      · rw [tag_setLine_of_ne hway] at hholds hdirty
        rw [data_setLine_of_ne hway]
        exact h.clean a way' hholds hdirty
    · rw [setOf_setLine_of_ne hi] at hholds hdirty ⊢
      exact h.clean a way' hholds hdirty

theorem view_setLine_of_not_holds (hold : a / 64 % 64 = i → ¬ Holds ((s.pCache i).tag way) a)
    (hnew : a / 64 % 64 = i → ¬ Holds tag a) : (s.setLine i way tag data).view a = s.view a := by
  by_cases hi : a / 64 % 64 = i
  · have hother : ∀ way', way' ≠ way →
        ((s.setLine i way tag data).setOf a).tag way' = (s.setOf a).tag way' ∧
        ((s.setLine i way tag data).setOf a).data way' = (s.setOf a).data way' :=
      fun way' hne => ⟨tag_setLine_of_ne hne, data_setLine_of_ne hne⟩
    have hself : ((s.setLine i way tag data).setOf a).tag way = tag := tag_setLine_self hi
    have hold : ¬ Holds ((s.setOf a).tag way) a := by
      rw [setOf, hi]
      exact hold hi
    rw [view, view]
    match way, hother, hself, hold with
    | 0, hother, hself, hold =>
      rw [hself, (hother 1 (by decide)).1, (hother 1 (by decide)).2, if_neg (hnew hi), if_neg hold]
      rfl
    | 1, hother, hself, hold =>
      rw [hself, (hother 0 (by decide)).1, (hother 0 (by decide)).2, if_neg (hnew hi), if_neg hold]
      rfl
  · rw [view, view, setOf_setLine_of_ne hi]
    rfl

theorem Ok.setMem (h : s.Ok) {m : Nat → UInt8}
    (hm : ∀ a, m a ≠ s.mem a → ∃ way, Holds ((s.setOf a).tag way) a ∧ Dirty ((s.setOf a).tag way)) :
    Ok { s with mem := m } ∧ view { s with mem := m } = s.view := by
  have hok : Ok { s with mem := m } := by
    refine ⟨h.host, h.once, fun a way hholds hdirty => (h.clean a way hholds hdirty).trans ?_⟩
    by_contra hne
    obtain ⟨way', hholds', hdirty'⟩ := hm a (Ne.symm hne)
    exact hdirty (h.way_unique hholds' hholds ▸ hdirty')
  refine ⟨hok, funext fun a => ?_⟩
  by_cases hsame : m a = s.mem a
  · rw [view, view]
    change (if _ then _ else if _ then _ else m a) = _
    rw [hsame]
    rfl
  · obtain ⟨way, hholds, -⟩ := hm a hsame
    exact (hok.view_of_holds hholds).trans (h.view_of_holds hholds).symm

theorem store_line (hi : i < 64) (m : Nat → UInt8) (tag : UInt32) (data : Nat → UInt8) (a : Nat) :
    store m (hostPage tag + 64 * i) (load data 0 64) a =
      if a / 64 % 64 = i ∧ hostPage tag = a / 4096 * 4096 then data (a % 64) else m a := by
  have hpage := hostPage_eq tag
  have hhost := toNat_page tag
  split
  · rename_i hin
    have ha : a = hostPage tag + 64 * i + a % 64 := by omega
    have hbyte := getElem?_load data (a := 0) (Nat.mod_lt a (by decide : 0 < 64))
    rw [Nat.zero_add] at hbyte
    conv_lhs => rw [ha]
    exact store_of_mem m hbyte
  · rename_i hout
    by_cases hlt : a < hostPage tag + 64 * i
    · exact store_of_lt m _ hlt
    · exact store_of_ge m _ (by rw [length_load]; omega)

end Machine

end OmegaRed.EE
