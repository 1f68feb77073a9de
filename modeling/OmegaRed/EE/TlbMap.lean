import OmegaRed.EE.Tlb

/-! Which pages an entry describes, and what mapping and unmapping it do to the page map. -/

namespace OmegaRed.EE

open Lib.Overlay

/-- How many pages `p` lies behind `first`, in the circle of the pages. -/
def behind (first p : UInt32) : Nat := ((p - first) &&& 0xfffff).toNat

theorem toNat_and_fffff (x : UInt32) : (x &&& 0xfffff).toNat = x.toNat % 2 ^ 20 := by
  rw [UInt32.toNat_and]
  exact Nat.and_two_pow_sub_one_eq_mod x.toNat 20

theorem toNat_shiftLeft_12 (x : UInt32) : (x <<< 12).toNat = x.toNat * 4096 % 2 ^ 32 := by
  rw [UInt32.toNat_shiftLeft, Nat.shiftLeft_eq]
  rfl

theorem toNat_shiftRight_12 (x : UInt32) : (x >>> 12).toNat = x.toNat / 4096 := by
  rw [UInt32.toNat_shiftRight, Nat.shiftRight_eq_div_pow]
  rfl

theorem toNat_add_ofNat (x : UInt32) (i : Nat) :
    (x + .ofNat i).toNat = (x.toNat + i) % 2 ^ 32 := by
  rw [UInt32.toNat_add, UInt32.toNat_ofNat']
  omega

theorem shiftLeft_shiftRight_12 (x : UInt32) : (x <<< 12) >>> 12 = x &&& 0xfffff := by
  rw [← UInt32.toNat_inj, toNat_shiftRight_12, toNat_shiftLeft_12, toNat_and_fffff]
  omega

theorem page_add (vaddr : UInt32) (i : Nat) :
    (vaddr + .ofNat i * 0x1000) >>> 12 = ((vaddr >>> 12) + .ofNat i) &&& 0xfffff := by
  rw [← UInt32.toNat_inj, toNat_shiftRight_12, toNat_and_fffff, toNat_add_ofNat,
    toNat_shiftRight_12, UInt32.toNat_add, UInt32.toNat_mul, UInt32.toNat_ofNat']
  have h : (0x1000 : UInt32).toNat = 4096 := rfl
  rw [h]
  omega

theorem page_add_eq_iff {first p : UInt32} (hp : p.toNat < 2 ^ 20) {i : Nat} (hi : i < 2 ^ 20) :
    (first + .ofNat i) &&& 0xfffff = p ↔ i = behind first p := by
  rw [← UInt32.toNat_inj, behind, toNat_and_fffff, toNat_add_ofNat, toNat_and_fffff,
    UInt32.toNat_sub]
  have hf := first.toNat_lt
  omega

theorem page_lt (x : UInt32) : (x &&& 0xfffff).toNat < 2 ^ 20 := by
  rw [toNat_and_fffff]
  exact Nat.mod_lt _ (by decide)

theorem shiftLeft_of_page {x p : UInt32} (h : x &&& 0xfffff = p) : x <<< 12 = p <<< 12 := by
  rw [← UInt32.toNat_inj] at h ⊢
  rw [toNat_and_fffff] at h
  rw [toNat_shiftLeft_12, toNat_shiftLeft_12]
  omega

theorem first_add_behind (first : UInt32) {p : UInt32} (hp : p.toNat < 2 ^ 20) :
    (first + UInt32.ofNat (behind first p)) <<< 12 = p <<< 12 :=
  shiftLeft_of_page ((page_add_eq_iff hp (page_lt _)).mpr rfl)

theorem add_behind {vaddr : UInt32} (h : vaddr.toNat % 0x1000 = 0) {p : UInt32}
    (hp : p.toNat < 2 ^ 20) :
    vaddr + UInt32.ofNat (behind (vaddr >>> 12) p) * (0x1000 : UInt32) = p <<< 12 := by
  rw [← first_add_behind (vaddr >>> 12) hp, ← UInt32.toNat_inj, toNat_shiftLeft_12,
    toNat_add_ofNat, toNat_shiftRight_12, UInt32.toNat_add, UInt32.toNat_mul, UInt32.toNat_ofNat']
  have hsize : (0x1000 : UInt32).toNat = 4096 := rfl
  rw [hsize]
  omega

theorem writes_pages (first : UInt32) {key : Nat → UInt32} {c : Nat → Prop} [DecidablePred c]
    (val : Nat → UInt32) {n : Nat} (hn : n ≤ 2 ^ 20)
    (hkey : ∀ i, key i = (first + .ofNat i) &&& 0xfffff) (m : VMap) {p : UInt32}
    (hp : p.toNat < 2 ^ 20) :
    writes key c val n m p =
      if behind first p < n ∧ c (behind first p) then val (behind first p) else m p := by
  split
  · rename_i h
    obtain ⟨hlt, hc⟩ := h
    have hself : key (behind first p) = p := by
      rw [hkey, page_add_eq_iff hp (by omega)]
    have hinj : ∀ i j, i < n → j < n → key i = key j → i = j := by
      intro i j hi hj hij
      rw [hkey, hkey] at hij
      have hlt' := page_lt (first + .ofNat j)
      have hi' := (page_add_eq_iff hlt' (show i < 2 ^ 20 by omega)).mp hij
      have hj' := (page_add_eq_iff hlt' (show j < 2 ^ 20 by omega)).mp rfl
      exact hi'.trans hj'.symm
    have hw := writes_of_eq (c := c) val hinj hlt hc m
    rwa [hself] at hw
  · rename_i h
    apply writes_of_ne
    intro i hi hc hkp
    rw [hkey, page_add_eq_iff hp (by omega)] at hkp
    exact h ⟨hkp ▸ hi, hkp ▸ hc⟩

namespace MapData

variable (h : MapData)

theorem forSize_eq_writes (size : UInt32) (key val : UInt32 → UInt32) (vmap : VMap) :
    forSize size (fun vmap off => Function.update vmap (key off) (val off)) vmap =
      writes (fun i => key (.ofNat i * 0x1000)) (fun _ => True)
        (fun i => val (.ofNat i * 0x1000)) (size.toNat / 0x1000) vmap := by
  simp only [forSize, writes, if_true]

theorem forSize_apply {size : UInt32} (vaddr : UInt32) (val : UInt32 → UInt32) (vmap : VMap)
    {p : UInt32} (hp : p.toNat < 2 ^ 20) :
    forSize size (fun vmap off => Function.update vmap ((vaddr + off) >>> 12) (val off)) vmap p =
      if behind (vaddr >>> 12) p < size.toNat / 0x1000 then
        val (.ofNat (behind (vaddr >>> 12) p) * 0x1000)
      else vmap p := by
  have hn : size.toNat / 0x1000 ≤ 2 ^ 20 := by
    have hs := size.toNat_lt
    omega
  rw [forSize_eq_writes, writes_pages _ _ hn (fun i => page_add vaddr i) vmap hp]
  simp only [and_true]

theorem memSetPageAddr_eq (vaddr paddr : UInt32) (vmap : VMap) :
    h.memSetPageAddr vaddr paddr vmap =
      Function.update vmap (vaddr >>> 12) (h.pme paddr - vaddr) := by
  have hoff : UInt32.ofNat 0 * 0x1000 = 0 := rfl
  change Function.update vmap ((vaddr + .ofNat 0 * 0x1000) >>> 12) _ = _
  rw [hoff, UInt32.add_zero, UInt32.add_zero]

theorem memClearPageAddr_eq (vaddr : UInt32) (vmap : VMap) :
    h.memClearPageAddr vaddr vmap = Function.update vmap (vaddr >>> 12) (h.unmapped vaddr) := by
  have hoff : UInt32.ofNat 0 * 0x1000 = 0 := rfl
  change Function.update vmap ((vaddr + .ofNat 0 * 0x1000) >>> 12) _ = _
  rw [hoff, UInt32.add_zero]

end MapData

namespace Tlbs

variable (h : MapData) (e : Tlbs)

/-- What `WriteTLB` leaves in every entry. -/
structure Wf : Prop where
  mask_lt : e.mask.toNat < 0x1000
  vpn2_mod : e.vpn2.toNat % 0x1000 = 0

/-- `p` is one of the pages of the half that begins at `first`. -/
def InHalf (first p : UInt32) : Prop := behind first p < e.mask.toNat + 1 ∧ e.Matched p

def InScratch (p : UInt32) : Prop := e.s ≠ 0 ∧ behind e.saddr0 p < 4

instance (first p : UInt32) : Decidable (e.InHalf first p) := instDecidableAnd

instance (p : UInt32) : Decidable (e.InScratch p) := instDecidableAnd

/-- The map's content for page `p` when it is mapped to the half's page frame. -/
def frame (first pfn p : UInt32) : UInt32 :=
  h.pme (pfn + (UInt32.ofNat (behind first p) <<< 12)) - (p <<< 12)

/-- The map's content for a page of the scratchpad's range. -/
def scratchPage (p : UInt32) : UInt32 :=
  let off : UInt32 := .ofNat (behind e.saddr0 p) * 0x1000
  h.scratch + off - (p <<< 12)

/-- What the entry says about page `p`: the scratchpad's range if `S` is set, the even page if
`EntryLo0.V` and the odd page if `EntryLo1.V`, except that the scratchpad's own entry has its range
only. -/
def describes (p : UInt32) : Option UInt32 :=
  let scratch := if e.InScratch p then some (scratchPage h e p) else none
  if 2 ^ 20 ≤ p.toNat then none
  else if e.s ≠ 0 ∧ e.vpn2 = 0x70000000 then scratch
  else if e.Valid1 ∧ e.InHalf e.saddr1 p then some (frame h e.saddr1 e.pfn1 p)
  else if e.Valid0 ∧ e.InHalf e.saddr0 p then some (frame h e.saddr0 e.pfn0 p)
  else scratch

/-- `MapTLB` maps nothing but the scratchpad at the scratchpad's address. -/
def Mappable : Prop := e.vpn2 = 0x70000000 → e.s ≠ 0 ∨ ¬ e.Valid0 ∧ ¬ e.Valid1

variable {e}

theorem matched_page (e : Tlbs) (addr : UInt32) : e.Matched (addr &&& 0xfffff) ↔ e.Matched addr := by
  have h : (addr &&& 0xfffff) &&& e.loopMask = addr &&& e.loopMask := by
    rw [loopMask, UInt32.and_assoc]
    congr 1
    rw [UInt32.and_comm, UInt32.and_assoc, UInt32.and_self]
  rw [Matched, Matched, h]

theorem saddr0_lt (e : Tlbs) : e.saddr0.toNat < 2 ^ 20 := by
  rw [saddr0, toNat_shiftRight_12]
  have hv := e.vpn2.toNat_lt
  omega

theorem saddr1_toNat (he : e.Wf) : e.saddr1.toNat = e.saddr0.toNat + e.mask.toNat + 1 := by
  have hone : (1 : UInt32).toNat = 1 := rfl
  have hm := he.mask_lt
  have h0 := e.saddr0_lt
  rw [saddr1, ← saddr0, UInt32.toNat_add, UInt32.toNat_add, hone]
  omega

theorem forPages_apply (he : e.Wf) {first : UInt32} (hf : first.toNat < 2 ^ 20 + 2 ^ 13)
    (val : UInt32 → UInt32) (vmap : VMap) {p : UInt32} (hp : p.toNat < 2 ^ 20) :
    e.forPages first (fun vmap addr => Function.update vmap ((addr <<< 12) >>> 12) (val addr))
        vmap p =
      if e.InHalf first p then val (first + .ofNat (behind first p)) else vmap p := by
  have hone : (1 : UInt32).toNat = 1 := rfl
  have hm := he.mask_lt
  have hn : (first + e.mask + 1).toNat - first.toNat = e.mask.toNat + 1 := by
    rw [UInt32.toNat_add, UInt32.toNat_add, hone]
    omega
  have hw := writes_pages first (fun i => val (first + .ofNat i))
    (c := fun i => e.Matched (first + .ofNat i)) (show e.mask.toNat + 1 ≤ 2 ^ 20 by omega)
    (fun i => shiftLeft_shiftRight_12 _) vmap hp
  have hpage (hlt : behind first p < 2 ^ 20) :
      e.Matched (first + .ofNat (behind first p)) ↔ e.Matched p := by
    rw [← matched_page, (page_add_eq_iff hp hlt).mpr rfl]
  have hlt : behind first p < 2 ^ 20 := page_lt _
  simp only [hpage hlt] at hw
  simp only [forPages, hn, InHalf]
  exact hw

theorem mapPages_apply (he : e.Wf) {first : UInt32} (hf : first.toNat < 2 ^ 20 + 2 ^ 13)
    (pfn : UInt32) (vmap : VMap) {p : UInt32} (hp : p.toNat < 2 ^ 20) :
    e.mapPages h first pfn vmap p = if e.InHalf first p then frame h first pfn p else vmap p := by
  have happly := forPages_apply he hf
    (fun addr => h.pme (pfn + ((addr - first) <<< 12)) - (addr <<< 12)) vmap hp
  have hi : first + .ofNat (behind first p) - first = .ofNat (behind first p) := by
    rw [UInt32.add_comm, UInt32.add_sub_cancel]
  simp only [mapPages, MapData.memSetPageAddr_eq, happly, hi, first_add_behind first hp, frame]

theorem unmapPages_apply (he : e.Wf) {first : UInt32} (hf : first.toNat < 2 ^ 20 + 2 ^ 13)
    (vmap : VMap) {p : UInt32} (hp : p.toNat < 2 ^ 20) :
    e.unmapPages h first vmap p = if e.InHalf first p then h.unmapped (p <<< 12) else vmap p := by
  have happly := forPages_apply he hf (fun addr => h.unmapped (addr <<< 12)) vmap hp
  simp only [unmapPages, MapData.memClearPageAddr_eq, happly, first_add_behind first hp]

theorem vpn2_add (he : e.Wf) {p : UInt32} (hp : p.toNat < 2 ^ 20) :
    e.vpn2 + UInt32.ofNat (behind e.saddr0 p) * (0x1000 : UInt32) = p <<< 12 :=
  add_behind he.vpn2_mod hp

theorem mapScratch_apply (he : e.Wf) (vmap : VMap) {p : UInt32} (hp : p.toNat < 2 ^ 20) :
    MapData.vtlbVMapBuffer e.vpn2 h.scratch 0x4000 vmap p =
      if behind e.saddr0 p < 4 then scratchPage h e p else vmap p := by
  rw [scratchPage, ← vpn2_add he hp]
  exact MapData.forSize_apply e.vpn2 _ vmap hp

theorem unmapScratch_apply (he : e.Wf) (vmap : VMap) {p : UInt32} (hp : p.toNat < 2 ^ 20) :
    h.vtlbVMapUnmap e.vpn2 0x4000 vmap p =
      if behind e.saddr0 p < 4 then h.unmapped (p <<< 12) else vmap p := by
  rw [← vpn2_add he hp]
  exact MapData.forSize_apply e.vpn2 _ vmap hp

theorem ite_mapPages_apply (he : e.Wf) (c : Prop) [Decidable c] {first : UInt32}
    (hf : first.toNat < 2 ^ 20 + 2 ^ 13) (pfn : UInt32) (vmap : VMap) {p : UInt32}
    (hp : p.toNat < 2 ^ 20) :
    (if c then e.mapPages h first pfn vmap else vmap) p =
      if c ∧ e.InHalf first p then frame h first pfn p else vmap p := by
  by_cases hc : c
  · rw [if_pos hc, mapPages_apply h he hf pfn vmap hp]
    simp only [hc, true_and]
  · rw [if_neg hc, if_neg (fun hand => hc hand.1)]

theorem ite_unmapPages_apply (he : e.Wf) (c : Prop) [Decidable c] {first : UInt32}
    (hf : first.toNat < 2 ^ 20 + 2 ^ 13) (vmap : VMap) {p : UInt32} (hp : p.toNat < 2 ^ 20) :
    (if c then e.unmapPages h first vmap else vmap) p =
      if c ∧ e.InHalf first p then h.unmapped (p <<< 12) else vmap p := by
  by_cases hc : c
  · rw [if_pos hc, unmapPages_apply h he hf vmap hp]
    simp only [hc, true_and]
  · rw [if_neg hc, if_neg (fun hand => hc hand.1)]

theorem ite_mapScratch_apply (he : e.Wf) (vmap : VMap) {p : UInt32} (hp : p.toNat < 2 ^ 20) :
    (if e.s ≠ 0 then MapData.vtlbVMapBuffer e.vpn2 h.scratch 0x4000 vmap else vmap) p =
      (if e.InScratch p then some (scratchPage h e p) else none).getD (vmap p) := by
  by_cases hs : e.s ≠ 0
  · rw [if_pos hs, mapScratch_apply h he vmap hp]
    by_cases hin : behind e.saddr0 p < 4
    · rw [if_pos hin, if_pos (show e.InScratch p from ⟨hs, hin⟩)]
      rfl
    · rw [if_neg hin, if_neg (fun hand : e.InScratch p => hin hand.2)]
      rfl
  · rw [if_neg hs, if_neg (fun hand : e.InScratch p => hs hand.1)]
    rfl

theorem saddr1_lt (he : e.Wf) : e.saddr1.toNat < 2 ^ 20 + 2 ^ 13 := by
  have hlt := he.mask_lt
  have h0 := e.saddr0_lt
  rw [saddr1_toNat he]
  omega

theorem saddr0_lt' (e : Tlbs) : e.saddr0.toNat < 2 ^ 20 + 2 ^ 13 :=
  Nat.lt_add_right _ e.saddr0_lt

theorem mapTLB_apply (he : e.Wf) (hm : e.Mappable) (vmap : VMap) {p : UInt32}
    (hp : p.toNat < 2 ^ 20) : e.mapTLB h vmap p = lay vmap (e.describes h) p := by
  simp only [lay, describes, if_neg (Nat.not_le.mpr hp), mapTLB]
  by_cases hv : e.vpn2 = 0x70000000
  · rw [if_pos hv, ite_mapScratch_apply h he vmap hp]
    by_cases hs : e.s ≠ 0
    · rw [if_pos (⟨hs, hv⟩ : e.s ≠ 0 ∧ e.vpn2 = 0x70000000)]
    · obtain ⟨hv0, hv1⟩ := (hm hv).resolve_left hs
      simp only [hs, hv0, hv1, false_and, if_false]
  · rw [if_neg hv, ite_mapPages_apply h he _ (saddr1_lt he) _ _ hp,
      ite_mapPages_apply h he _ e.saddr0_lt' _ _ hp, ite_mapScratch_apply h he vmap hp]
    simp only [hv, and_false, if_false]
    split
    · rfl
    · split <;> rfl

/-- The pages that `UnmapTLB` clears: an entry with `S` loses its 16 KiB only. -/
def Cleared (e : Tlbs) (p : UInt32) : Prop :=
  if e.s ≠ 0 then behind e.saddr0 p < 4
  else e.Valid1 ∧ e.InHalf e.saddr1 p ∨ e.Valid0 ∧ e.InHalf e.saddr0 p

instance (p : UInt32) : Decidable (e.Cleared p) := by
  unfold Cleared
  infer_instance

theorem unmapTLB_apply (he : e.Wf) (vmap : VMap) {p : UInt32} (hp : p.toNat < 2 ^ 20) :
    e.unmapTLB h vmap p = if e.Cleared p then h.unmapped (p <<< 12) else vmap p := by
  by_cases hs : e.s ≠ 0
  · simp only [unmapTLB, Cleared, if_pos hs]
    exact unmapScratch_apply h he vmap hp
  · simp only [unmapTLB, Cleared, if_neg hs]
    rw [ite_unmapPages_apply h he _ (saddr1_lt he) _ hp,
      ite_unmapPages_apply h he _ e.saddr0_lt' _ hp]
    by_cases hc1 : e.Valid1 ∧ e.InHalf e.saddr1 p
    · rw [if_pos hc1, if_pos (Or.inl hc1)]
    · simp only [hc1, if_false, false_or]

end Tlbs

end OmegaRed.EE
