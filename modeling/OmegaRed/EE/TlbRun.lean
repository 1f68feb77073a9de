import OmegaRed.EE.TlbMap
import OmegaRed.Lib.Traces

/-! The page map mirrors the TLB through every run of TLB writes and savestate loads. -/

namespace OmegaRed.EE

open Lib.Overlay

abbrev Page := {p : UInt32 // p.toNat < 2 ^ 20}

theorem CP0.writeTLB_wf (r : CP0) : r.writeTLB.Wf where
  mask_lt := by
    change ((r.pageMask >>> 13) &&& 0xfff).toNat < 0x1000
    rw [UInt32.toNat_and]
    exact Nat.lt_succ_of_le Nat.and_le_right
  vpn2_mod := by
    change ((r.entryHi >>> 13 &&& ~~~(r.pageMask >>> 13 &&& 0xfff)) <<< 13).toNat % 0x1000 = 0
    rw [UInt32.toNat_shiftLeft, Nat.shiftLeft_eq]
    change _ * 2 ^ 13 % 2 ^ 32 % 0x1000 = 0
    omega

namespace Tlbs

variable (h : MapData) {e : Tlbs}

theorem describes_of_cleared {p : UInt32} (hp : p.toNat < 2 ^ 20) (hc : e.Cleared p) :
    (e.describes h p).isSome := by
  simp only [describes, if_neg (Nat.not_le.mpr hp)]
  by_cases hs : e.s ≠ 0
  · have hin : e.InScratch p := by
      rw [Cleared, if_pos hs] at hc
      exact ⟨hs, hc⟩
    rw [if_pos hin]
    split
    · rfl
    · split
      · rfl
      · split <;> rfl
  · rw [Cleared, if_neg hs] at hc
    rw [if_neg (fun hand => hs hand.1)]
    rcases hc with hc | hc
    · rw [if_pos hc]
      rfl
    · split
      · rfl
      · rfl

theorem describes_eq_none (hs : e.s = 0) (h0 : ¬ e.Valid0) (h1 : ¬ e.Valid1) (p : UInt32) :
    e.describes h p = none := by
  have hin : ¬ e.InScratch p := fun hin => hin.1 hs
  simp only [describes, h0, h1, hin, false_and, if_false, ite_self]

end Tlbs

namespace MapData

variable (h : MapData)

theorem vtlbVMap_of_ge {vaddr paddr size : UInt32} {p : UInt32} (hp : p.toNat < 2 ^ 20)
    (hge : size.toNat / 0x1000 ≤ behind (vaddr >>> 12) p) (vmap : VMap) :
    h.vtlbVMap vaddr paddr size vmap p = vmap p := by
  rw [vtlbVMap, forSize_apply _ _ _ hp, if_neg (Nat.not_lt.mpr hge)]

theorem vtlbVMapUnmap_apply {vaddr : UInt32} (hv : vaddr.toNat % 0x1000 = 0) (size : UInt32)
    {p : UInt32} (hp : p.toNat < 2 ^ 20) (vmap : VMap) :
    h.vtlbVMapUnmap vaddr size vmap p =
      if behind (vaddr >>> 12) p < size.toNat / 0x1000 then h.unmapped (p <<< 12) else vmap p := by
  rw [← add_behind hv hp]
  exact forSize_apply vaddr (fun off => h.unmapped (vaddr + off)) vmap hp

theorem behind_of_eq {first p : UInt32} {k : Nat} (hk : first.toNat = k) (h : k ≤ p.toNat)
    (hp : p.toNat < 2 ^ 20) : behind first p = p.toNat - k := by
  rw [behind, toNat_and_fffff, UInt32.toNat_sub, hk]
  omega

/-- The fixed map leaves pages unmapped between the lower 512 MiB and the kernel's two mirrors of
them, and behind the mirrors. -/
theorem memReset_unmapped {p : UInt32} (hp : p.toNat < 2 ^ 20) (hlow : 0x20000 ≤ p.toNat)
    (hkernel : p.toNat < 0x80000 ∨ 0xc0000 ≤ p.toNat) (vmap : VMap) :
    h.memReset vmap p = h.unmapped (p <<< 12) := by
  have hbehind (vaddr : UInt32) {k : Nat} (hk : (vaddr >>> 12).toNat = k) (hle : k ≤ p.toNat) :
      behind (vaddr >>> 12) p = p.toNat - k := behind_of_eq hk hle hp
  have hsize : (0x20000000 : UInt32).toNat / 0x1000 = 0x20000 := by decide
  have hfar : (0x60000000 : UInt32).toNat / 0x1000 = 0x60000 := by decide
  have hlast : (0xfffff000 : UInt32).toNat / 0x1000 = 0xfffff := by decide
  rw [memReset, h.vtlbVMapUnmap_apply (by decide) _ hp, hbehind 0x20000000 (by decide) hlow, hfar]
  by_cases hmid : p.toNat - 0x20000 < 0x60000
  · rw [if_pos hmid]
  · rw [if_neg hmid,
      h.vtlbVMap_of_ge hp (by rw [hsize, hbehind 0 (by decide) (Nat.zero_le _)]; omega),
      h.vtlbVMap_of_ge hp (by rw [hsize, hbehind 0xa0000000 (k := 0xa0000) (by decide)] <;> omega),
      h.vtlbVMap_of_ge hp (by rw [hsize, hbehind 0x80000000 (k := 0x80000) (by decide)] <;> omega),
      h.vtlbVMapUnmap_apply (by decide) _ hp, h.vtlbVMapUnmap_apply (by decide) _ hp,
      hbehind 0 (by decide) (Nat.zero_le _), hlast]
    by_cases hp' : p.toNat < 0xfffff
    · rw [if_pos (show p.toNat - 0 < 0xfffff from hp'), ite_self]
    · have hz : behind ((0xfffff000 : UInt32) >>> 12) p < (0x1000 : UInt32).toNat / 0x1000 := by
        have h1 : (0x1000 : UInt32).toNat / 0x1000 = 1 := by decide
        rw [h1, hbehind 0xfffff000 (k := 0xfffff) (by decide)] <;> omega
      rw [if_pos hz]

end MapData

namespace TlbState

variable (h : MapData)

def layers (tlb : Fin 48 → Tlbs) (i : Fin 48) (p : Page) : Option UInt32 := (tlb i).describes h p.1

/-- The page map is the fixed map overridden by what the entries describe. -/
def Mirrors (fixed : VMap) (s : TlbState) : Prop :=
  Overlaid (fun p : Page => fixed p.1) (layers h s.tlb) (fun p : Page => s.vmap p.1)

/-- Entries overlap neither each other nor the kernel's mirrors. -/
structure Admissible (tlb : Fin 48 → Tlbs) : Prop where
  apart : Apart (layers h tlb)
  kernel : ∀ i (p : Page), (layers h tlb i p).isSome → p.1.toNat < 0x80000 ∨ 0xc0000 ≤ p.1.toNat

inductive Event
  | tlbwi (r : CP0)
  | tlbwr (r : CP0)
  | load (tlb : Fin 48 → Tlbs) (goemon : List GoemonTlb)

def step : Event → TlbState → Option TlbState
  | .tlbwi r => tlbWI h r
  | .tlbwr r => tlbWR h r
  | .load tlb goemon => fun s => some (load h tlb goemon s)

/-- Pages that the old entry described and the new one does not are cleared and belong to no
fixed mapping. -/
structure MeetsWrite (s : TlbState) (j : UInt32) (r : CP0) : Prop where
  inTable : j.toNat < 48
  mappable : r.writeTLB.Mappable
  released : ∀ p : Page, ((s.tlb ⟨j.toNat, inTable⟩).describes h p.1).isSome →
    r.writeTLB.describes h p.1 = none →
      (s.tlb ⟨j.toNat, inTable⟩).Cleared p.1 ∧ 0x20000 ≤ p.1.toNat

/-- A savestate holds entries as TLB writes store them, and they describe all pages that the
entries before did. -/
structure MeetsLoad (s : TlbState) (tlb : Fin 48 → Tlbs) (goemon : List GoemonTlb) : Prop where
  wf : ∀ i, (tlb i).Wf
  mappable : ∀ i, (tlb i).Mappable
  hidden : ∀ i p, (layers h s.tlb i p).isSome → ∃ j, (layers h tlb j p).isSome
  goemon_eq : goemon = []

def Meets (s : TlbState) : Event → Prop
  | .tlbwi r => MeetsWrite h s (r.index &&& 0x3f) r
  | .tlbwr r => MeetsWrite h s (r.random &&& 0x3f) r
  | .load tlb goemon => MeetsLoad h s tlb goemon

/-- A step that meets the condition, to entries without overlap. -/
def GoodStep (s t : TlbState) : Prop :=
  ∃ ev, Meets h s ev ∧ step h ev s = some t ∧ Admissible h t.tlb

structure Inv (fixed : VMap) (s : TlbState) : Prop where
  wf : ∀ i, (s.tlb i).Wf
  mappable : ∀ i, (s.tlb i).Mappable
  admissible : Admissible h s.tlb
  mirrors : Mirrors h fixed s

theorem tlb_reset (vmap : VMap) (i : Fin 48) : (reset h vmap).tlb i = zeroed := rfl

theorem vmap_reset (vmap : VMap) : (reset h vmap).vmap = h.memReset vmap := by
  rw [reset]

theorem zeroed_wf : zeroed.Wf := ⟨by decide, by decide⟩

theorem layers_reset (vmap : VMap) (i : Fin 48) (p : Page) :
    layers h (reset h vmap).tlb i p = none := by
  rw [layers, tlb_reset]
  exact Tlbs.describes_eq_none h rfl (by decide) (by decide) p.1

theorem Inv.reset (vmap : VMap) : Inv h (h.memReset vmap) (reset h vmap) := by
  refine ⟨?_, ?_, ⟨?_, ?_⟩, ?_⟩
  · intro i
    rw [tlb_reset]
    exact zeroed_wf
  · intro i
    rw [tlb_reset]
    intro hv
    exact absurd hv (by decide)
  · intro i j p hi
    rw [layers_reset] at hi
    contradiction
  · intro i p hi
    rw [layers_reset] at hi
    contradiction
  · rw [Mirrors, vmap_reset]
    exact overlaid_base _ (layers_reset h vmap)

theorem forall_update {P : Tlbs → Prop} {tlb : Fin 48 → Tlbs} (h : ∀ i, P (tlb i)) {e : Tlbs}
    (he : P e) (j i : Fin 48) : P (Function.update tlb j e i) := by
  by_cases hi : i = j
  · rwa [hi, Function.update_self]
  · rw [Function.update_of_ne hi]
    exact h i

theorem layers_update (tlb : Fin 48 → Tlbs) (i : Fin 48) (e : Tlbs) :
    layers h (Function.update tlb i e) =
      Function.update (layers h tlb) i (fun p => e.describes h p.1) := by
  funext j p
  by_cases hj : j = i
  · subst hj
    rw [layers, Function.update_self, Function.update_self]
  · rw [layers, Function.update_of_ne hj, Function.update_of_ne hj, layers]

theorem step_write {vmap : VMap} {s t : TlbState} (hinv : Inv h (h.memReset vmap) s) {j : UInt32}
    {r : CP0} (hmeet : MeetsWrite h s j r) (hstep : write h j r s = some t)
    (hadm : Admissible h t.tlb) : Inv h (h.memReset vmap) t := by
  have hj := hmeet.inTable
  rw [write, dif_pos hj, Option.some.injEq] at hstep
  subst hstep
  have hwf := r.writeTLB_wf
  have hold := hinv.wf ⟨j.toNat, hj⟩
  refine ⟨forall_update hinv.wf hwf _, forall_update hinv.mappable hmeet.mappable _, hadm, ?_⟩
  · have hmap : (fun p : Page => r.writeTLB.mapTLB h ((s.tlb ⟨j.toNat, hj⟩).unmapTLB h s.vmap) p.1) =
        lay (fun p : Page => (s.tlb ⟨j.toNat, hj⟩).unmapTLB h s.vmap p.1)
          (fun p : Page => r.writeTLB.describes h p.1) := by
      funext p
      exact Tlbs.mapTLB_apply h hwf hmeet.mappable _ p.2
    have hapart := hadm.apart
    simp only [layers_update] at hapart
    simp only [Mirrors, layers_update, hmap]
    apply hinv.mirrors.replace hinv.admissible.apart hapart
    · intro p hp hnone
      obtain ⟨hc, hlow⟩ := hmeet.released p hp hnone
      have hkernel := hinv.admissible.kernel _ p hp
      rw [Tlbs.unmapTLB_apply h hold _ p.2, if_pos hc,
        h.memReset_unmapped p.2 hlow hkernel]
    · intro p hp _
      rw [Tlbs.unmapTLB_apply h hold _ p.2, if_neg]
      intro hc
      have hsome := Tlbs.describes_of_cleared h p.2 hc
      rw [show (s.tlb ⟨j.toNat, hj⟩).describes h p.1 = none from hp] at hsome
      contradiction

theorem foldl_mapTLB {tlb : Fin 48 → Tlbs} (hwf : ∀ i, (tlb i).Wf) (hm : ∀ i, (tlb i).Mappable)
    (l : List (Fin 48)) (vmap : VMap) :
    (fun p : Page => l.foldl (fun vmap i => (tlb i).mapTLB h vmap) vmap p.1) =
      l.foldl (fun m i => lay m (layers h tlb i)) (fun p : Page => vmap p.1) := by
  induction l generalizing vmap with
  | nil => rfl
  | cons i l ih =>
    have hmap : (fun p : Page => (tlb i).mapTLB h vmap p.1) =
        lay (fun p : Page => vmap p.1) (layers h tlb i) := by
      funext p
      exact Tlbs.mapTLB_apply h (hwf i) (hm i) vmap p.2
    rw [List.foldl_cons, List.foldl_cons, ih, hmap]

theorem step_load {vmap : VMap} {s : TlbState} (hinv : Inv h (h.memReset vmap) s)
    {tlb : Fin 48 → Tlbs} {goemon : List GoemonTlb} (hmeet : MeetsLoad h s tlb goemon)
    (hadm : Admissible h tlb) : Inv h (h.memReset vmap) (load h tlb goemon s) := by
  obtain ⟨hwf, hm, hhidden, rfl⟩ := hmeet
  refine ⟨hwf, hm, hadm, ?_⟩
  simp only [Mirrors, load, List.foldl_nil, foldl_mapTLB h hwf hm]
  exact hinv.mirrors.reload hadm.apart (List.mem_finRange ·) hhidden

theorem Inv.step {vmap : VMap} {s t : TlbState} (hinv : Inv h (h.memReset vmap) s)
    (hst : GoodStep h s t) : Inv h (h.memReset vmap) t := by
  obtain ⟨ev, hmeet, hstep, hadm⟩ := hst
  cases ev with
  | tlbwi r => exact step_write h hinv hmeet hstep hadm
  | tlbwr r => exact step_write h hinv hmeet hstep hadm
  | load tlb goemon =>
    rw [TlbState.step, Option.some.injEq] at hstep
    subst hstep
    exact step_load h hinv hmeet hadm

theorem isSome_of_meets {s : TlbState} {ev : Event} (h' : Meets h s ev) : (step h ev s).isSome := by
  cases ev with
  | tlbwi r =>
    simp only [step, tlbWI, write, dif_pos h'.inTable, Option.isSome_some]
  | tlbwr r =>
    simp only [step, tlbWR, write, dif_pos h'.inTable, Option.isSome_some]
  | load tlb goemon => rfl

/-- In every run from reset whose steps meet the condition the page map mirrors the TLB in every
state reached, and no step there that meets the condition leaves `tlb[]`. -/
theorem mirrors_of_run (h : MapData) (vmap : VMap) (s : TlbState)
    (hrun : Relation.ReflTransGen (GoodStep h) (reset h vmap) s) :
    Mirrors h (h.memReset vmap) s ∧ ∀ ev, Meets h s ev → (step h ev s).isSome := by
  have hinv := @Lib.Run.invariant _ _ (Inv h (h.memReset vmap)) (fun _ _ => Inv.step h) _ _ hrun
    (Inv.reset h vmap)
  exact ⟨hinv.mirrors, fun _ => isSome_of_meets h⟩

/-- A host whose physical pages are all one page. -/
def sampleHost : MapData := ⟨fun _ => 0x1000, 0, 1, 2, 3, 0x4000⟩

/-- A write of entry 0: one even page at 0x20000000. -/
def sampleCP0 : CP0 := ⟨0, 0, 0, 0x20000000, 0x2, 0⟩

def sampleReset : TlbState := reset sampleHost fun _ => 0

def sampleTlb : Fin 48 → Tlbs := Function.update (fun _ => zeroed) 0 sampleCP0.writeTLB

def sampleState : TlbState :=
  ⟨sampleCP0.writeTLB.mapTLB sampleHost (zeroed.unmapTLB sampleHost sampleReset.vmap), sampleTlb⟩

theorem tlbWI_sample : tlbWI sampleHost sampleCP0 sampleReset = some sampleState := by
  rw [tlbWI, write, dif_pos (by decide)]
  rfl

theorem describes_sample {p : Page} (h : (sampleCP0.writeTLB.describes sampleHost p.1).isSome) :
    p.1.toNat = 0x20000 := by
  have hs : ¬ (sampleCP0.writeTLB.s ≠ 0 ∧ sampleCP0.writeTLB.vpn2 = 0x70000000) := by decide
  have h1 : ¬ sampleCP0.writeTLB.Valid1 := by decide
  have hscratch : ¬ sampleCP0.writeTLB.InScratch p.1 := fun hin => absurd hin.1 (by decide)
  simp only [Tlbs.describes, if_neg (Nat.not_le.mpr p.2), hs, h1, hscratch, false_and,
    if_false] at h
  split at h
  · rename_i hin
    have hlt : behind 0x20000 p.1 < 1 := hin.2.1
    rw [behind, toNat_and_fffff, UInt32.toNat_sub] at hlt
    have h20 : (0x20000 : UInt32).toNat = 0x20000 := rfl
    have hp := p.2
    omega
  · contradiction

theorem layers_zeroed (i : Fin 48) (p : Page) : layers h (fun _ => zeroed) i p = none := by
  have h0 : ¬ zeroed.Valid0 := by decide
  have h1 : ¬ zeroed.Valid1 := by decide
  exact Tlbs.describes_eq_none h rfl h0 h1 p.1

theorem admissible_sample : Admissible sampleHost sampleTlb := by
  have hzero : ∀ i (p : Page), (layers sampleHost sampleTlb i p).isSome → i = 0 := by
    intro i p h
    by_contra hi
    rw [layers, sampleTlb, Function.update_of_ne hi,
      Tlbs.describes_eq_none sampleHost rfl (by decide) (by decide)] at h
    contradiction
  constructor
  · intro i j p hi hj
    rw [hzero i p hi, hzero j p hj]
  · intro i p hi
    have hi0 := hzero i p hi
    rw [layers, sampleTlb, hi0, Function.update_self] at hi
    have h20 := describes_sample hi
    omega

theorem goodStep_sample : GoodStep sampleHost sampleReset sampleState := by
  refine ⟨.tlbwi sampleCP0, ⟨by decide, ?_, ?_⟩, tlbWI_sample, admissible_sample⟩
  · intro hv
    exact absurd hv (by decide)
  · intro p hp
    have hnone : zeroed.describes sampleHost p.1 = none := layers_zeroed sampleHost 0 p
    have hp : (zeroed.describes sampleHost p.1).isSome := hp
    rw [hnone] at hp
    contradiction

theorem mirrors_sample :
    Mirrors sampleHost (sampleHost.memReset fun _ => 0) sampleState ∧
      ∀ ev, Meets sampleHost sampleState ev → (step sampleHost ev sampleState).isSome :=
  mirrors_of_run sampleHost (fun _ => 0) sampleState (.single goodStep_sample)

theorem vmap_load_zeroed (s : TlbState) (p : Page) :
    (load h (fun _ => zeroed) [] s).vmap p.1 = s.vmap p.1 := by
  have hmappable : zeroed.Mappable := fun hv => absurd hv (by decide)
  have hload := congrFun
    (foldl_mapTLB h (fun _ => zeroed_wf) (fun _ => hmappable) (List.finRange 48) s.vmap) p
  rw [foldl_lay_of_none _ (fun i _ => layers_zeroed h i p)] at hload
  rw [load]
  simp only [List.foldl_nil]
  exact hload

def samplePage : Page := ⟨0x20000, by decide⟩

theorem vmap_sample : sampleState.vmap samplePage.1 = 0x1000 - 0x20000000 := by
  have hmappable : sampleCP0.writeTLB.Mappable := fun hv => absurd hv (by decide)
  have hdescribes : sampleCP0.writeTLB.describes sampleHost samplePage.1 =
      some (0x1000 - 0x20000000) := by decide
  have hvmap : sampleState.vmap =
      sampleCP0.writeTLB.mapTLB sampleHost (zeroed.unmapTLB sampleHost sampleReset.vmap) := by
    rw [sampleState]
  rw [hvmap, Tlbs.mapTLB_apply sampleHost sampleCP0.writeTLB_wf hmappable _ samplePage.2]
  exact lay_of_some hdescribes

/-- Entry 48 lies outside of `tlb[]`, and a savestate without entries leaves the page that was
mapped before mapped. -/
theorem not_mirrors_load :
    tlbWI sampleHost { sampleCP0 with index := 48 } sampleReset = none ∧
      Relation.ReflTransGen
        (fun s t => ∃ ev, step sampleHost ev s = some t ∧ Admissible sampleHost t.tlb)
        sampleReset (load sampleHost (fun _ => zeroed) [] sampleState) ∧
      ¬ Mirrors sampleHost (sampleHost.memReset fun _ => 0)
        (load sampleHost (fun _ => zeroed) [] sampleState) := by
  have hadm : Admissible sampleHost fun _ => zeroed := by
    have hadm := (Inv.reset sampleHost fun _ => 0).admissible
    exact hadm
  refine ⟨by rw [tlbWI, write, dif_neg (by decide)], ?_, ?_⟩
  · exact (Relation.ReflTransGen.single ⟨.tlbwi sampleCP0, tlbWI_sample, admissible_sample⟩).tail
      ⟨.load _ [], rfl, hadm⟩
  · intro hm
    have hbase := (hm samplePage).2 (fun i => layers_zeroed sampleHost i samplePage)
    have hload := vmap_load_zeroed sampleHost sampleState samplePage
    have hfixed := sampleHost.memReset_unmapped samplePage.2 (by decide) (Or.inl (by decide))
      fun _ => 0
    exact absurd (vmap_sample.symm.trans (hload.symm.trans (hbase.trans hfixed))) (by decide)

end TlbState

end OmegaRed.EE
