import OmegaRed.EE.CacheTag

/-! What each step of an access does to memory as it is seen through the cache. -/

namespace OmegaRed.EE

open Lib.Memory

theorem isHit_iff (tag paddr : UInt32) : IsHit tag paddr ↔ Valid tag ∧ page tag = page paddr :=
  and_comm

theorem index_lt (mem : UInt32) : index mem < 64 := by
  rw [index_eq]
  exact Nat.mod_lt _ (by decide)

section OnHost

variable {vmap : VMap} {mem : UInt32}

theorem OnHost.le_paddr (h : OnHost vmap mem) : 2 ^ 31 ≤ (vmap.paddr mem).toNat := by
  rw [h.paddr_toNat]
  exact Nat.le_add_left ..

theorem OnHost.hostPage_paddr (h : OnHost vmap mem) :
    hostPage (vmap.paddr mem) = (vmap.ppf mem).toNat / 4096 * 4096 := by
  have hhost := h.host
  rw [hostPage_eq, toNat_page, h.paddr_toNat]
  omega

theorem toNat_line (x : UInt32) : (x &&& ~~~0x3f).toNat = x.toNat / 64 * 64 := by
  have hshift : x &&& (~~~0x3f : UInt32) = (x >>> 6) <<< 6 := by
    apply eq_of_bits
    intro i hi
    simp only [UInt32.toBitVec_and, BitVec.getLsbD_and]
    interval_cases i <;> simp
  have hlt := x.toNat_lt
  rw [hshift]
  simp only [UInt32.toNat_shiftLeft, UInt32.toNat_shiftRight, UInt32.reduceToNat, Nat.reduceMod,
    Nat.shiftRight_eq_div_pow, Nat.shiftLeft_eq]
  omega

end OnHost

namespace Machine

variable {vmap : VMap} {s : Machine} {mem : UInt32} {number : Fin 2}

theorem writeBack_of_dirty (h : Dirty ((s.pCache (index mem)).tag number)) :
    s.writeBack mem number = Machine.setLine
      ⟨s.pCache, store s.mem (hostPage ((s.pCache (index mem)).tag number) + 64 * index mem)
        (load ((s.pCache (index mem)).data number) 0 64)⟩
      (index mem) number ((s.pCache (index mem)).tag number &&& ~~~dirtyFlag)
      ((s.pCache (index mem)).data number) := by
  rw [← oldppf_toNat]
  exact if_pos h

theorem writeBack_of_not_dirty (h : ¬ Dirty ((s.pCache (index mem)).tag number)) :
    s.writeBack mem number = s := if_neg h

theorem holds_and_not_dirtyFlag (tag : UInt32) (a : Nat) :
    Holds (tag &&& ~~~dirtyFlag) a ↔ Holds tag a := by
  rw [Holds, Holds, hostPage_eq, hostPage_eq, page_and_not_dirtyFlag, valid_and_not_dirtyFlag]

theorem Ok.writeBack (h : s.Ok) (mem : UInt32) (number : Fin 2) :
    (s.writeBack mem number).Ok ∧ (s.writeBack mem number).view = s.view := by
  by_cases hdirty : Dirty ((s.pCache (index mem)).tag number)
  · rw [writeBack_of_dirty hdirty]
    have hi := index_lt mem
    have hvalid := ((dirty_iff _).mp hdirty).1
    have hwritten := store_line hi s.mem ((s.pCache (index mem)).tag number)
      ((s.pCache (index mem)).data number)
    generalize store s.mem (hostPage ((s.pCache (index mem)).tag number) + 64 * index mem)
      (load ((s.pCache (index mem)).data number) 0 64) = m at hwritten
    obtain ⟨hok, hview⟩ := h.setMem (m := m) fun a hne => by
      have hin : a / 64 % 64 = index mem ∧
          hostPage ((s.pCache (index mem)).tag number) = a / 4096 * 4096 := by
        by_contra hout
        exact hne ((hwritten a).trans (if_neg hout))
      refine ⟨number, ?_⟩
      rw [setOf, hin.1]
      exact ⟨⟨hvalid, hin.2⟩, hdirty⟩
    have hnew : (Machine.setLine ⟨s.pCache, m⟩ (index mem) number
        ((s.pCache (index mem)).tag number &&& ~~~dirtyFlag)
        ((s.pCache (index mem)).data number)).Ok := by
      refine hok.setLine (fun _ => ?_) (fun way' hne hvalid' _ hpage => ?_) fun a hset hholds _ => ?_
      · have hhost := h.host _ number hi hvalid
        have hpage := congrArg UInt32.toNat
          (page_and_not_dirtyFlag ((s.pCache (index mem)).tag number))
        rw [toNat_page, toNat_page] at hpage
        omega
      · rw [page_and_not_dirtyFlag] at hpage
        exact hne (h.once _ _ _ hi hvalid' hvalid hpage)
      · rw [holds_and_not_dirtyFlag] at hholds
        exact ((hwritten a).trans (if_pos ⟨hset, hholds.2⟩)).symm
    refine ⟨hnew, (funext fun a => ?_ : _ = _).trans hview⟩
    by_cases hin : a / 64 % 64 = index mem ∧ Holds ((s.pCache (index mem)).tag number) a
    · obtain ⟨hset, hholds⟩ := hin
      have hold : Holds ((Machine.setOf ⟨s.pCache, m⟩ a).tag number) a := by
        rw [setOf, hset]
        exact hholds
      rw [hok.view_of_holds hold, setOf, hset]
      exact hnew.view_setLine_self hset ((holds_and_not_dirtyFlag _ _).mpr hholds)
    · have hout (hset : a / 64 % 64 = index mem) :
          ¬ Holds ((s.pCache (index mem)).tag number) a := fun hholds => hin ⟨hset, hholds⟩
      refine view_setLine_of_not_holds hout fun hset => ?_
      rw [holds_and_not_dirtyFlag]
      exact hout hset
  · rw [writeBack_of_not_dirty hdirty]
    exact ⟨h, rfl⟩

theorem not_dirty_writeBack (s : Machine) (mem : UInt32) (number : Fin 2) :
    ¬ Dirty (((s.writeBack mem number).pCache (index mem)).tag number) := by
  by_cases hdirty : Dirty ((s.pCache (index mem)).tag number)
  · rw [writeBack_of_dirty hdirty, tag_setLine, if_pos ⟨rfl, rfl⟩]
    exact not_dirty_and_not_dirtyFlag _
  · rwa [writeBack_of_not_dirty hdirty]

theorem isHit_writeBack (s : Machine) (mem : UInt32) (number way : Fin 2) (i : Nat)
    (paddr : UInt32) :
    IsHit (((s.writeBack mem number).pCache i).tag way) paddr ↔
      IsHit ((s.pCache i).tag way) paddr := by
  by_cases hdirty : Dirty ((s.pCache (index mem)).tag number)
  · rw [writeBack_of_dirty hdirty, tag_setLine]
    split
    · rename_i hsame
      rw [isHit_iff, isHit_iff, page_and_not_dirtyFlag, valid_and_not_dirtyFlag, hsame.1, hsame.2]
    · rfl
  · rw [writeBack_of_not_dirty hdirty]

theorem Ok.fill (h : s.Ok) (hhost : OnHost vmap mem)
    (hmiss : ∀ way, ¬ IsHit ((s.pCache (index mem)).tag way) (vmap.paddr mem))
    (hclean : ¬ Dirty ((s.pCache (index mem)).tag number)) :
    (s.fill vmap mem number).Ok ∧ (s.fill vmap mem number).view = s.view ∧
      Holds (((s.fill vmap mem number).pCache (index mem)).tag number) (vmap.ppf mem).toNat := by
  have hi := index_lt mem
  rw [Machine.fill, toNat_line]
  have htag (a : Nat) : Holds (filledTag ((s.pCache (index mem)).tag number) (vmap.paddr mem)) a ↔
      (vmap.ppf mem).toNat / 4096 * 4096 = a / 4096 * 4096 := by
    rw [Holds, hostPage_eq, page_filledTag, ← hostPage_eq, hhost.hostPage_paddr]
    exact and_iff_right (valid_filledTag _ _)
  generalize htagged : filledTag ((s.pCache (index mem)).tag number) (vmap.paddr mem) = tag at htag
  have hpage : page tag = page (vmap.paddr mem) := by rw [← htagged, page_filledTag]
  -- what is filled in is memory
  have hfilled (a : Nat) (hset : a / 64 % 64 = index mem) (hholds : Holds tag a) :
      (vmap.ppf mem).toNat / 64 * 64 + a % 64 = a := by
    have hindex := hhost.index_eq
    have hsame := (htag a).mp hholds
    omega
  have hnew : (s.setLine (index mem) number tag
      fun k => s.mem ((vmap.ppf mem).toNat / 64 * 64 + k)).Ok := by
    refine h.setLine (fun _ => ?_) (fun way' _ hvalid' _ hpage' => ?_) fun a hset hholds _ => ?_
    · have hle := hhost.le_paddr
      have hnat := congrArg UInt32.toNat hpage
      rw [toNat_page, toNat_page] at hnat
      omega
    · exact hmiss way' ((isHit_iff _ _).mpr ⟨hvalid', hpage'.trans hpage⟩)
    · rw [hfilled a hset hholds]
  refine ⟨hnew, funext fun a => ?_, ?_⟩
  · by_cases hset : a / 64 % 64 = index mem
    · by_cases hin : Holds tag a
      · have hnot (way : Fin 2) : ¬ Holds ((s.setOf a).tag way) a := by
          intro hway
          refine hmiss way ((isHit_iff _ _).mpr ?_)
          rw [setOf, hset] at hway
          refine ⟨hway.1, (page_eq_iff (h.host _ _ hi hway.1) hhost.le_paddr).mpr ?_⟩
          rw [hhost.hostPage_paddr, hway.2]
          exact ((htag a).mp hin).symm
        rw [view_of_not_holds hnot, hnew.view_setLine_self hset hin, hfilled a hset hin]
      · by_cases hold : Holds ((s.pCache (index mem)).tag number) a
        · have hold' : Holds ((s.setOf a).tag number) a := by
            rw [setOf, hset]
            exact hold
          have hnot (way : Fin 2) : ¬ Holds (((s.setLine (index mem) number tag
              fun k => s.mem ((vmap.ppf mem).toNat / 64 * 64 + k)).setOf a).tag way) a := by
            by_cases hway : way = number
            · rw [hway, tag_setLine_self hset]
              exact hin
            · rw [tag_setLine_of_ne hway]
              exact fun hother => hway (h.way_unique hother hold')
          rw [view_of_not_holds hnot, h.view_of_holds hold', h.clean a number hold']
          · rfl
          · rwa [setOf, hset]
        · exact view_setLine_of_not_holds (fun _ => hold) fun _ => hin
    · exact view_setLine_of_not_holds (fun hset' => absurd hset' hset) fun hset' => absurd hset' hset
  · rw [tag_setLine, if_pos ⟨rfl, rfl⟩, htag]

/-- After `getFreeCache` nothing looks different, and the line of the address is in the way that
is returned. -/
theorem Ok.getFreeCache (h : s.Ok) (hhost : OnHost vmap mem) :
    (s.getFreeCache vmap mem).1.Ok ∧ (s.getFreeCache vmap mem).1.view = s.view ∧
      Holds (((s.getFreeCache vmap mem).1.pCache (index mem)).tag (s.getFreeCache vmap mem).2)
        (vmap.ppf mem).toNat := by
  have hhit (way : Fin 2) (hway : IsHit ((s.pCache (index mem)).tag way) (vmap.paddr mem)) :
      Holds ((s.pCache (index mem)).tag way) (vmap.ppf mem).toNat := by
    obtain ⟨hvalid, hpage⟩ := (isHit_iff _ _).mp hway
    rw [Holds, hostPage_eq, hpage, ← hostPage_eq]
    exact ⟨hvalid, hhost.hostPage_paddr⟩
  rw [Machine.getFreeCache]
  dsimp only
  split
  · rename_i h0
    exact ⟨h, rfl, hhit 0 h0⟩
  · split
    · rename_i h0 h1
      exact ⟨h, rfl, hhit 1 h1⟩
    · rename_i h0 h1
      obtain ⟨hok, hview⟩ := h.writeBack mem (s.victim mem)
      have hmiss (way : Fin 2) : ¬ IsHit (((s.writeBack mem (s.victim mem)).pCache (index mem)).tag
          way) (vmap.paddr mem) := by
        rw [isHit_writeBack]
        match way with
        | 0 => exact h0
        | 1 => exact h1
      obtain ⟨hok', hview', hholds⟩ := hok.fill hhost hmiss (not_dirty_writeBack s mem _)
      exact ⟨hok', hview'.trans hview, hholds⟩

theorem same_line {p a n : Nat} (hle : p ≤ a) (hlt : a < p + n) (hin : p % 64 + n ≤ 64) :
    a / 64 % 64 = p / 64 % 64 ∧ a / 4096 = p / 4096 := by
  have hline : a / 64 = p / 64 := by omega
  have hpage (b : Nat) : b / 4096 = b / 64 / 64 := (Nat.div_div_eq_div_mul b 64 64).symm
  rw [hpage, hpage, hline]
  exact ⟨rfl, rfl⟩

theorem Ok.write (h : s.Ok) {p : Nat} (hset : p / 64 % 64 = index mem)
    (hholds : Holds ((s.pCache (index mem)).tag number) p) (value : List UInt8)
    (hin : p % 64 + value.length ≤ 64) :
    (s.setLine (index mem) number ((s.pCache (index mem)).tag number ||| dirtyFlag)
      (store ((s.pCache (index mem)).data number) (p % 64) value)).Ok ∧
    (s.setLine (index mem) number ((s.pCache (index mem)).tag number ||| dirtyFlag)
      (store ((s.pCache (index mem)).data number) (p % 64) value)).view = store s.view p value := by
  have hi := index_lt mem
  have htag (a : Nat) : Holds ((s.pCache (index mem)).tag number ||| dirtyFlag) a ↔
      Holds ((s.pCache (index mem)).tag number) a := by
    rw [Holds, Holds, hostPage_eq, hostPage_eq, page_or_dirtyFlag, valid_or_dirtyFlag]
  have hnew : (s.setLine (index mem) number ((s.pCache (index mem)).tag number ||| dirtyFlag)
      (store ((s.pCache (index mem)).data number) (p % 64) value)).Ok := by
    refine h.setLine (fun _ => ?_) (fun way' hne hvalid' hvalid hpage => ?_) fun a _ _ hclean => ?_
    · have hhost := h.host _ number hi hholds.1
      have hpage := congrArg UInt32.toNat (page_or_dirtyFlag ((s.pCache (index mem)).tag number))
      rw [toNat_page, toNat_page] at hpage
      omega
    · rw [page_or_dirtyFlag] at hpage
      exact hne (h.once _ _ _ hi hvalid' hholds.1 hpage)
    · exact absurd ((dirty_or_dirtyFlag _).mpr hholds.1) hclean
  refine ⟨hnew, funext fun a => ?_⟩
  by_cases hline : a / 64 % 64 = index mem ∧ Holds ((s.pCache (index mem)).tag number) a
  · obtain ⟨hseta, ha⟩ := hline
    have hpages := ha.2.symm.trans hholds.2
    have hold : Holds ((s.setOf a).tag number) a := by
      rw [setOf, hseta]
      exact ha
    have hsub : a % 64 - p % 64 = a - p := by omega
    have hlt : a % 64 < p % 64 ↔ a < p := by omega
    rw [hnew.view_setLine_self hseta ((htag a).mpr ha), store, store, h.view_of_holds hold, setOf,
      hseta, hsub, if_congr hlt rfl rfl]
  · rw [view_setLine_of_not_holds]
    · by_cases hlt : a < p
      · rw [store_of_lt _ _ hlt]
      · refine (store_of_ge _ _ ?_).symm
        by_contra hge
        obtain ⟨hseta, hpagea⟩ := same_line (not_lt.mp hlt) (not_le.mp hge) hin
        exact hline ⟨hseta.trans hset, hholds.1, hpagea ▸ hholds.2⟩
    · exact fun hseta ha => hline ⟨hseta, ha⟩
    · rw [htag]
      exact fun hseta ha => hline ⟨hseta, ha⟩

theorem Ok.load_view (h : s.Ok) {p : Nat} (hset : p / 64 % 64 = index mem)
    (hholds : Holds ((s.pCache (index mem)).tag number) p) {n : Nat} (hin : p % 64 + n ≤ 64) :
    load ((s.pCache (index mem)).data number) (p % 64) n = load s.view p n := by
  rw [load_ext_iff]
  intro k hk
  obtain ⟨hseta, hpage⟩ := same_line (Nat.le_add_right p k) (Nat.add_lt_add_left hk p) hin
  rw [hset] at hseta
  have hold : Holds ((s.setOf (p + k)).tag number) (p + k) := by
    rw [setOf, hseta]
    exact ⟨hholds.1, hpage ▸ hholds.2⟩
  have hmod : p % 64 + k = (p + k) % 64 := by omega
  rw [h.view_of_holds hold, setOf, hseta, hmod]

theorem place_ppf {k : Nat} (hk : k ≤ 3) (hhost : OnHost vmap mem) (h : 2 ^ k ∣ mem.toNat) :
    place k mem = (vmap.ppf mem).toNat % 64 ∧ (vmap.ppf mem).toNat % 64 + 2 ^ k ≤ 64 := by
  have hmod := hhost.ppf_mod
  rw [place_eq hk h]
  interval_cases k <;> omega

theorem Ok.readCache {k : Nat} (h : s.Ok) (hk : k ≤ 3) (hhost : OnHost vmap mem)
    (haligned : 2 ^ k ∣ mem.toNat) :
    (s.readCache k vmap mem).1.Ok ∧ (s.readCache k vmap mem).1.view = s.view ∧
      (s.readCache k vmap mem).2 = load s.view (vmap.ppf mem).toNat (2 ^ k) := by
  obtain ⟨hok, hview, hholds⟩ := h.getFreeCache hhost
  obtain ⟨hplace, hin⟩ := place_ppf hk hhost haligned
  refine ⟨hok, hview, ?_⟩
  rw [Machine.readCache, hplace]
  rw [← hview]
  exact hok.load_view hhost.index_eq.symm hholds hin

theorem Ok.writeCache {k : Nat} (h : s.Ok) (hk : k ≤ 3) (hhost : OnHost vmap mem)
    (haligned : 2 ^ k ∣ mem.toNat) {value : List UInt8} (hvalue : value.length = 2 ^ k) :
    (s.writeCache k vmap mem value).Ok ∧
      (s.writeCache k vmap mem value).view = store s.view (vmap.ppf mem).toNat value := by
  obtain ⟨hok, hview, hholds⟩ := h.getFreeCache hhost
  obtain ⟨hplace, hin⟩ := place_ppf hk hhost haligned
  rw [Machine.writeCache, hplace]
  rw [← hview]
  exact hok.write hhost.index_eq.symm hholds value (hvalue ▸ hin)

theorem quad_eq (mem : UInt32) : 16 * (mem >>> 4 &&& 3).toNat = mem.toNat / 16 % 4 * 16 := by
  rw [Nat.mul_comm, UInt32.toNat_and, UInt32.toNat_shiftRight]
  simp only [UInt32.reduceToNat, Nat.reduceMod, Nat.shiftRight_eq_div_pow]
  rw [show (3 : Nat) = 2 ^ 2 - 1 from rfl, Nat.and_two_pow_sub_one_eq_mod]

theorem Ok.writeCache128 (h : s.Ok) (hhost : OnHost vmap mem) (haligned : 16 ∣ mem.toNat)
    (lo hi : Vector UInt8 8) :
    (s.writeCache128 vmap mem lo hi).Ok ∧ (s.writeCache128 vmap mem lo hi).view =
      store s.view (vmap.ppf mem).toNat (lo.toList ++ hi.toList) := by
  obtain ⟨hok, hview, hholds⟩ := h.getFreeCache hhost
  have hmod := hhost.ppf_mod
  have hplace : mem.toNat / 16 % 4 * 16 = (vmap.ppf mem).toNat % 64 := by omega
  have hlo : (vmap.ppf mem).toNat % 64 + 8 = (vmap.ppf mem).toNat % 64 + lo.toList.length := by
    rw [Vector.length_toList]
  have hlen : (lo.toList ++ hi.toList).length = 16 := by
    rw [List.length_append, Vector.length_toList, Vector.length_toList]
  have hwrite := hok.write hhost.index_eq.symm hholds (lo.toList ++ hi.toList) (by omega)
  rw [← store_append, ← hlo, hview] at hwrite
  rw [Machine.writeCache128, quad_eq, hplace]
  exact hwrite

end Machine

end OmegaRed.EE
