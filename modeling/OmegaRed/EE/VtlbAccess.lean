import OmegaRed.EE.VtlbView

/-! The accessors of the vtlb reach what an address was mapped to last. -/

namespace OmegaRed.EE

open Lib

/-- The top bit of an address is in the handler of a page that is not mapped, and no handler puts it
back; the last bytes before it are past the sign bit with the handler's number. -/
def Reach.Told : Reach → Prop
  | .miss a => a.toNat < 0x80000000
  | .busError p => p.toNat < 0x7ffffffe
  | _ => True

instance : (r : Reach) → Decidable r.Told
  | .miss _ | .busError _ => inferInstanceAs (Decidable (_ < _))
  | .host _ | .cache _ | .handler .. => isTrue trivial

namespace Vtlb

variable {s : Vtlb} {v : View} {cached : Bool} {a : UInt32}

/-- The entry of an address's page with the page added back. -/
def entry (s : Vtlb) (a : UInt32) : UInt32 := s.vmap (a >>> 12) + pageOf a

theorem ppf_eq (s : Vtlb) (a : UInt32) :
    (s.vmap.ppf a).toNat = ((s.entry a).toNat + (a &&& 0xfff).toNat) % 2 ^ 32 := by
  have hsplit : a = pageOf a + (a &&& 0xfff) := by rw [pageOf, UInt32.sub_add_cancel]
  have hppf : s.vmap.ppf a = s.entry a + (a &&& 0xfff) := by
    rw [VMap.ppf, entry, UInt32.add_assoc, ← hsplit, UInt32.add_comm]
  rw [hppf, UInt32.toNat_add]

theorem hand_eq (s : Vtlb) (a : UInt32) : (s.vmap.hand a).toNat = (s.entry a).toNat % 256 := by
  rw [VMap.hand, toNat_and_ff, entry, UInt32.toNat_add, toNat_pageOf]
  omega

theorem paddr_eq (s : Vtlb) (a : UInt32) : (s.vmap.paddr a).toNat =
    (2 ^ 32 - (s.vmap.hand a).toNat + (s.vmap.ppf a).toNat + 0x80000000) % 2 ^ 32 := by
  rw [VMap.paddr, UInt32.toNat_add, UInt32.toNat_sub]
  change (_ + 0x80000000) % _ = _
  omega

theorem access_of_lt (h : (s.vmap.ppf a).toNat < 0x80000000) :
    s.access cached a = (Reach.host (s.vmap.ppf a)).through cached a := by
  rw [access, if_pos (UInt32.lt_iff_toNat_lt.mpr h)]
  rfl

theorem access_of_ge (h : 0x80000000 ≤ (s.vmap.ppf a).toNat) :
    s.access cached a = s.data.rwft (s.vmap.hand a) (s.vmap.paddr a) := by
  rw [access, if_neg fun hlt => Nat.not_lt.mpr h (UInt32.lt_iff_toNat_lt.mp hlt)]

theorem through_host_ne {p : UInt32} {r : Reach} (hhost : ∀ x, r ≠ .host x)
    (hcache : ∀ x, r ≠ .cache x) : (Reach.host p).through cached a ≠ r := by
  cases cached with
  | true => exact (hcache a).symm
  | false => exact (hhost p).symm

theorem Shows.rwft (h : s.Shows v) (paddr : UInt32) :
    s.data.rwft 0 paddr = .miss paddr ∧ s.data.rwft 1 paddr = .miss paddr ∧
      s.data.rwft 2 paddr = .busError paddr ∧ s.data.rwft 3 paddr = .busError paddr ∧
      ∀ hand : UInt32, 4 ≤ hand.toNat → s.data.rwft hand paddr = .handler hand paddr := by
  simp only [MapData.rwft, h.virtHandler0, h.virtHandler1, h.phyHandler0, h.phyHandler1]
  refine ⟨?_, ?_, ?_, ?_, fun hand hhand => ?_⟩
  · exact congrArg Reach.miss UInt32.or_zero
  · exact congrArg Reach.miss UInt32.or_zero
  · exact congrArg Reach.busError UInt32.or_zero
  · exact congrArg Reach.busError UInt32.or_zero
  · have hne (n : UInt32) (hn : n.toNat < 4) : hand ≠ n := by
      intro heq
      rw [heq] at hhand
      omega
    rw [if_neg (hne 0 (by decide)), if_neg (hne 1 (by decide)), if_neg (hne 2 (by decide)),
      if_neg (hne 3 (by decide))]

theorem Shows.access_iff (h : s.Shows v) (cached : Bool) (a : UInt32) :
    s.access cached a = (v.virt a).through cached a ↔ (v.virt a).Told := by
  have hentry : (v.virt a).In (s.entry a) (a &&& 0xfff) := h.virt a
  have hppf := s.ppf_eq a
  have hhand := s.hand_eq a
  have hpaddr := s.paddr_eq a
  have hrwft := h.rwft (s.vmap.paddr a)
  generalize v.virt a = r at hentry ⊢
  cases r with
  | host p =>
    have hp : s.vmap.ppf a = p := by
      have hlt := p.toNat_lt
      rw [← UInt32.toNat_inj, hppf, hentry.1, Nat.mod_eq_of_lt hlt]
    rw [access_of_lt (hp ▸ hentry.2), hp]
    exact iff_of_true rfl trivial
  | cache => exact hentry.elim
  | handler hand p =>
    obtain ⟨hsum, hlow, hmin, hmax, hp⟩ := hentry
    have hnumber : s.vmap.hand a = hand := by
      rw [← UInt32.toNat_inj]
      omega
    have haddr : s.vmap.paddr a = p := by
      rw [← UInt32.toNat_inj]
      omega
    rw [access_of_ge (by omega), hnumber, hrwft.2.2.2.2 hand hmin, haddr]
    exact iff_of_true rfl trivial
  | miss b =>
    have hb := b.toNat_lt
    dsimp only [Reach.In] at hentry
    dsimp only [Reach.Told, Reach.through]
    split_ifs at hentry with hhalf
    · obtain ⟨hsum, hlow⟩ := hentry
      have hnumber : s.vmap.hand a = 0 := by
        rw [← UInt32.toNat_inj, hhand]
        exact (by omega : (s.entry a).toNat % 256 = 0)
      have haddr : s.vmap.paddr a = b := by
        rw [hnumber] at hpaddr
        rw [← UInt32.toNat_inj, hpaddr]
        change (2 ^ 32 - 0 + _ + _) % _ = _
        omega
      rw [access_of_ge (by omega), hnumber, hrwft.1, haddr]
      exact iff_of_true rfl hhalf
    · obtain ⟨hsum, hlow⟩ := hentry
      refine iff_of_false (fun heq => ?_) hhalf
      by_cases hlast : b.toNat + 1 < 2 ^ 32
      · have hnumber : s.vmap.hand a = 1 := by
          rw [← UInt32.toNat_inj, hhand]
          exact (by omega : (s.entry a).toNat % 256 = 1)
        rw [access_of_ge (by omega), hnumber, hrwft.2.1] at heq
        rw [hnumber, Reach.miss.inj heq] at hpaddr
        change _ = (2 ^ 32 - 1 + _ + _) % _ at hpaddr
        omega
      · rw [access_of_lt (by omega)] at heq
        exact through_host_ne (fun x hx => by cases hx) (fun x hx => by cases hx) heq
  | busError p =>
    have hb := p.toNat_lt
    dsimp only [Reach.In] at hentry
    dsimp only [Reach.Told, Reach.through]
    split_ifs at hentry with hhalf
    · obtain ⟨hsum, hlow⟩ := hentry
      by_cases hlast : p.toNat < 0x7ffffffe
      · have hnumber : s.vmap.hand a = 2 := by
          rw [← UInt32.toNat_inj, hhand]
          exact (by omega : (s.entry a).toNat % 256 = 2)
        have haddr : s.vmap.paddr a = p := by
          rw [hnumber] at hpaddr
          rw [← UInt32.toNat_inj, hpaddr]
          change (2 ^ 32 - 2 + _ + _) % _ = _
          omega
        rw [access_of_ge (by omega), hnumber, hrwft.2.2.1, haddr]
        exact iff_of_true rfl hlast
      · refine iff_of_false (fun heq => ?_) hlast
        rw [access_of_lt (by omega)] at heq
        exact through_host_ne (fun x hx => by cases hx) (fun x hx => by cases hx) heq
    · obtain ⟨hsum, hlow⟩ := hentry
      refine iff_of_false (fun heq => ?_) (by omega)
      by_cases hlast : p.toNat + 3 < 2 ^ 32
      · have hnumber : s.vmap.hand a = 3 := by
          rw [← UInt32.toNat_inj, hhand]
          exact (by omega : (s.entry a).toNat % 256 = 3)
        rw [access_of_ge (by omega), hnumber, hrwft.2.2.2.1] at heq
        rw [hnumber, Reach.busError.inj heq] at hpaddr
        change _ = (2 ^ 32 - 3 + _ + _) % _ at hpaddr
        omega
      · rw [access_of_lt (by omega)] at heq
        exact through_host_ne (fun x hx => by cases hx) (fun x hx => by cases hx) heq

/-- After any calls an accessor reaches what the address was mapped to last, or tells the handler the
whole address where it is not mapped, just where that address fits beside the sign bit. -/
theorem mapped_reached_iff {pmap vmap : VMap} {scratch : UInt32} {calls : List Call}
    (hrun : Traces.run step (vtlbInit pmap vmap scratch) calls = some s) (cached : Bool)
    (a : UInt32) : s.access cached a = ((View.after calls).virt a).through cached a ↔
      ((View.after calls).virt a).Told :=
  ((shows_vtlbInit pmap vmap scratch).run hrun).access_iff cached a

theorem mapped_reached_ram : ∃ s, Traces.run step (vtlbInit (fun _ => 0) (fun _ => 0) 0)
    [.mapBlock 0x10000000 0 0x2000 0, .vMap 0x80000000 0x1000 0x1000] = some s ∧
    s.access false 0x80000123 = .host 0x10001123 := by
  obtain ⟨s, hrun⟩ : ∃ s, Traces.run step (vtlbInit (fun _ => 0) (fun _ => 0) 0)
      [.mapBlock 0x10000000 0 0x2000 0, .vMap 0x80000000 0x1000 0x1000] = some s := by
    have hblock : (Call.mapBlock 0x10000000 0 0x2000 0).Legal := by decide
    have hmap : (Call.vMap 0x80000000 0x1000 0x1000).Legal := by decide
    rw [Traces.run, step, if_pos hblock, Option.bind_some, Traces.run, step, if_pos hmap,
      Option.bind_some, Traces.run]
    exact ⟨_, rfl⟩
  exact ⟨s, hrun, (mapped_reached_iff hrun false 0x80000123).mpr trivial⟩

/-- The exception of an unmapped address in the upper half names one in the lower half. -/
theorem not_whole_address :
    (vtlbInit (fun _ => 0) (fun _ => 0) 0).access false 0x80000000 ≠ .miss 0x80000000 :=
  fun h => absurd (((shows_vtlbInit _ _ _).access_iff false 0x80000000).mp h) (by decide)

end Vtlb

end OmegaRed.EE
