import OmegaRed.EE.CacheAccess

/-! The `CACHE` instruction's hit operations. -/

namespace OmegaRed.EE

open Lib.Memory

namespace VMap

variable (vmap : VMap) (mem : UInt32)

/-- `ppf` of the line of the address. -/
def ppfLine : UInt32 := vmap.ppf mem &&& ~~~0x3f

def paddrLine : UInt32 := vmap.ppfLine mem - vmap.hand mem + 0x80000000

end VMap

namespace Machine

/-- The way of the line that is valid for the page. -/
def hit (s : Machine) (i : Nat) (paddr : UInt32) : Option (Fin 2) :=
  if IsHit ((s.pCache i).tag 0) paddr then some 0
  else if IsHit ((s.pCache i).tag 1) paddr then some 1
  else none

def invalidate (s : Machine) (i : Nat) (way : Fin 2) : Machine :=
  let c := s.pCache i
  s.setLine i way (c.tag way &&& lrfFlag) (store (c.data way) 0 (List.replicate 64 0))

/-- The line's bytes go to `ppf`. -/
def storeLine (s : Machine) (i : Nat) (way : Fin 2) (ppf : Nat) : Machine :=
  { s with mem := store s.mem ppf (load ((s.pCache i).data way) 0 64) }

def cleanLine (s : Machine) (i : Nat) (way : Fin 2) : Machine :=
  let c := s.pCache i
  s.setLine i way (c.tag way &&& ~~~dirtyFlag) (c.data way)

/-- Data Cache Hit Invalidate -/
def dhin (vmap : VMap) (s : Machine) (addr : UInt32) : Machine :=
  let i := index addr
  match s.hit i (vmap.paddr addr) with
  | none => s
  | some way => s.invalidate i way

/-- Data Cache Hit WriteBack with Invalidate -/
def dhwbin (vmap : VMap) (s : Machine) (addr : UInt32) : Machine :=
  let i := index addr
  match s.hit i (vmap.paddrLine addr) with
  | none => s
  | some way =>
    let s := if Dirty ((s.pCache i).tag way) then s.storeLine i way (vmap.ppfLine addr).toNat else s
    s.invalidate i way

/-- The address that `DHWOIN` goes by, made from the tag of way 0. -/
def pfnaddr (s : Machine) (addr : UInt32) : UInt32 :=
  ((s.pCache (index addr)).tag 0 &&& ~~~0x80000fff) ||| (addr &&& 0xfc0)

/-- Data Cache Hit WriteBack Without Invalidate -/
def dhwoin (vmap : VMap) (s : Machine) (addr : UInt32) : Machine :=
  let i := index addr
  let pfnaddr := s.pfnaddr addr
  match s.hit i (vmap.paddrLine pfnaddr) with
  | none => s
  | some way =>
    if Dirty ((s.pCache i).tag way) then
      (s.storeLine i way (vmap.ppfLine pfnaddr).toNat).cleanLine i way
    else s

end Machine

inductive HitOp
  | dhin | dhwbin | dhwoin

namespace HitOp

def exec (vmap : VMap) (s : Machine) (addr : UInt32) : HitOp → Machine
  | dhin => s.dhin vmap addr
  | dhwbin => s.dhwbin vmap addr
  | dhwoin => s.dhwoin vmap addr

/-- What an operation is to make of the line it hits. -/
def onLine (s : Machine) (i : Nat) (way : Fin 2) : HitOp → Machine
  | dhin => s.invalidate i way
  | dhwbin =>
    let tag := (s.pCache i).tag way
    (if Dirty tag then s.storeLine i way (hostPage tag + 64 * i) else s).invalidate i way
  | dhwoin =>
    let tag := (s.pCache i).tag way
    if Dirty tag then (s.storeLine i way (hostPage tag + 64 * i)).cleanLine i way else s

/-- The operation acts on the line of the address, in the way that holds it, and on nothing
else. -/
structure OnLine (vmap : VMap) (s : Machine) (addr : UInt32) (op : HitOp) : Prop where
  miss : (∀ way, ¬IsHit ((s.pCache (index addr)).tag way) (vmap.paddr addr)) →
    op.exec vmap s addr = s
  hit : ∀ way, IsHit ((s.pCache (index addr)).tag way) (vmap.paddr addr) →
    op.exec vmap s addr = op.onLine s (index addr) way

end HitOp

/-- The pages of `vmap` are pages of the host or handlers, whose physical pages are below the
host's. -/
def VMap.WellFormed (vmap : VMap) : Prop :=
  ∀ mem, OnHost vmap mem ∨ (vmap.paddr mem).toNat < 2 ^ 31

/-- Valid lines are of pages of the host, which ends before its last page below 2 GiB, and no page
is in both ways. -/
structure Machine.Tagged (s : Machine) : Prop where
  host : ∀ i way, i < 64 → Valid ((s.pCache i).tag way) →
    2 ^ 31 ≤ ((s.pCache i).tag way).toNat ∧ ((s.pCache i).tag way).toNat < 2 ^ 32 - 4096
  once : ∀ i way way', i < 64 → Valid ((s.pCache i).tag way) → Valid ((s.pCache i).tag way') →
    page ((s.pCache i).tag way) = page ((s.pCache i).tag way') → way = way'

namespace VMap

variable {vmap : VMap} {mem : UInt32}

theorem page_eq_page_iff (x y : UInt32) : page x = page y ↔ x.toNat / 4096 = y.toNat / 4096 := by
  rw [← UInt32.toNat_inj, toNat_page, toNat_page]
  omega

theorem paddr_sub_line (vmap : VMap) (mem : UInt32) :
    vmap.paddrLine mem + (vmap.ppf mem - vmap.ppfLine mem) = vmap.paddr mem := by
  rw [paddrLine, paddr]
  grind

theorem ppfLine_toNat (vmap : VMap) (mem : UInt32) :
    (vmap.ppfLine mem).toNat = (vmap.ppf mem).toNat / 64 * 64 := toNat_line _

theorem isHit_paddrLine (hv : vmap.WellFormed) {tag : UInt32}
    (hhost : Valid tag → 2 ^ 31 ≤ tag.toNat ∧ tag.toNat < 2 ^ 32 - 4096) :
    IsHit tag (vmap.paddrLine mem) ↔ IsHit tag (vmap.paddr mem) := by
  have hline := vmap.ppfLine_toNat mem
  have hsub : (vmap.ppf mem - vmap.ppfLine mem).toNat = (vmap.ppf mem).toNat % 64 := by
    rw [UInt32.toNat_sub_of_le _ _ (UInt32.le_iff_toNat_le.mpr (by omega))]
    omega
  have hsum := congrArg UInt32.toNat (vmap.paddr_sub_line mem)
  have hlt := (vmap.paddrLine mem).toNat_lt
  rw [UInt32.toNat_add, hsub] at hsum
  rw [isHit_iff, isHit_iff, page_eq_page_iff, page_eq_page_iff]
  rcases hv mem with hon | hhandler
  · have hppf := hon.paddr_toNat
    have hhost' := hon.host
    have hpage : (vmap.paddrLine mem).toNat / 4096 = (vmap.paddr mem).toNat / 4096 := by omega
    rw [hpage]
  · constructor
    · rintro ⟨hvalid, heq⟩
      have := hhost hvalid
      omega
    · rintro ⟨hvalid, heq⟩
      have := hhost hvalid
      omega

end VMap

namespace Machine

variable {vmap : VMap} {s : Machine} {i : Nat} {addr mem : UInt32} {way : Fin 2}

theorem Tagged.hit_unique (h : s.Tagged) (hi : i < 64) {way way' : Fin 2} {paddr : UInt32}
    (hway : IsHit ((s.pCache i).tag way) paddr) (hway' : IsHit ((s.pCache i).tag way') paddr) :
    way = way' := by
  obtain ⟨hvalid, hpage⟩ := (isHit_iff _ _).mp hway
  obtain ⟨hvalid', hpage'⟩ := (isHit_iff _ _).mp hway'
  exact h.once i way way' hi hvalid hvalid' (hpage.trans hpage'.symm)

theorem hit_of_none {paddr : UInt32} (h : s.hit i paddr = none) (way : Fin 2) :
    ¬IsHit ((s.pCache i).tag way) paddr := by
  unfold hit at h
  split at h
  · cases h
  next h0 =>
    split at h
    · cases h
    next h1 =>
      match way with
      | 0 => exact h0
      | 1 => exact h1

theorem hit_of_some {paddr : UInt32} (h : s.hit i paddr = some way) :
    IsHit ((s.pCache i).tag way) paddr := by
  unfold hit at h
  split at h
  next h0 =>
    cases h
    exact h0
  · split at h
    next h1 =>
      cases h
      exact h1
    · cases h

theorem hit_eq_none {paddr : UInt32} (h : ∀ way, ¬IsHit ((s.pCache i).tag way) paddr) :
    s.hit i paddr = none := by
  rw [hit, if_neg (h 0), if_neg (h 1)]

theorem Tagged.hit_eq_some (h : s.Tagged) (hi : i < 64) {paddr : UInt32}
    (hway : IsHit ((s.pCache i).tag way) paddr) : s.hit i paddr = some way := by
  cases hhit : s.hit i paddr with
  | none => exact absurd hway (hit_of_none hhit way)
  | some way' => rw [h.hit_unique hi hway (hit_of_some hhit)]

theorem Tagged.hit_paddrLine (h : s.Tagged) (hv : vmap.WellFormed) (hi : i < 64) (mem : UInt32) :
    s.hit i (vmap.paddrLine mem) = s.hit i (vmap.paddr mem) := by
  simp only [hit, VMap.isHit_paddrLine hv (h.host i _ hi)]

theorem Tagged.ppfLine_eq (h : s.Tagged) (hv : vmap.WellFormed)
    (hway : IsHit ((s.pCache (index mem)).tag way) (vmap.paddr mem)) :
    (vmap.ppfLine mem).toNat = hostPage ((s.pCache (index mem)).tag way) + 64 * index mem := by
  obtain ⟨hvalid, hpage⟩ := (isHit_iff _ _).mp hway
  have hhost := h.host _ way (index_lt mem) hvalid
  have hnat := (VMap.page_eq_page_iff _ _).mp hpage
  rcases hv mem with hon | hhandler
  · have hindex := hon.index_eq
    rw [hostPage_eq, hpage, ← hostPage_eq, hon.hostPage_paddr, VMap.ppfLine_toNat, hindex]
    omega
  · omega

theorem index_pfnaddr (s : Machine) (addr : UInt32) : index (s.pfnaddr addr) = index addr := by
  have heq : s.pfnaddr addr >>> 6 &&& (0x3f : UInt32) = addr >>> 6 &&& (0x3f : UInt32) := by
    apply eq_of_bits
    intro i hi
    simp only [pfnaddr, UInt32.toBitVec_and, UInt32.toBitVec_or, UInt32.toBitVec_shiftRight,
      BitVec.getLsbD_and]
    interval_cases i <;> simp
  rw [index, heq, index]

theorem dhin_eq (vmap : VMap) (s : Machine) (addr : UInt32) :
    s.dhin vmap addr = match s.hit (index addr) (vmap.paddr addr) with
      | none => s
      | some way => HitOp.dhin.onLine s (index addr) way := rfl

theorem Tagged.dhwbin_eq (h : s.Tagged) (hv : vmap.WellFormed) (addr : UInt32) :
    s.dhwbin vmap addr = match s.hit (index addr) (vmap.paddr addr) with
      | none => s
      | some way => HitOp.dhwbin.onLine s (index addr) way := by
  unfold dhwbin
  simp only [h.hit_paddrLine hv (index_lt addr)]
  cases hhit : s.hit (index addr) (vmap.paddr addr) with
  | none => rfl
  | some way =>
    simp only [HitOp.onLine, h.ppfLine_eq hv (hit_of_some hhit)]

theorem Tagged.dhwoin_eq (h : s.Tagged) (hv : vmap.WellFormed) (addr : UInt32) :
    s.dhwoin vmap addr = match s.hit (index addr) (vmap.paddr (s.pfnaddr addr)) with
      | none => s
      | some way => HitOp.dhwoin.onLine s (index addr) way := by
  unfold dhwoin
  simp only [h.hit_paddrLine hv (index_lt addr)]
  cases hhit : s.hit (index addr) (vmap.paddr (s.pfnaddr addr)) with
  | none => rfl
  | some way =>
    have hway : IsHit ((s.pCache (index (s.pfnaddr addr))).tag way)
        (vmap.paddr (s.pfnaddr addr)) := by
      rw [index_pfnaddr]
      exact hit_of_some hhit
    have hppf := h.ppfLine_eq hv hway
    rw [index_pfnaddr] at hppf
    simp only [HitOp.onLine, hppf]

theorem dirty_onLine_dhwoin {way' : Fin 2} :
    Dirty (((HitOp.dhwoin.onLine s i way).pCache i).tag way') ↔
      Dirty ((s.pCache i).tag way') ∧ way' ≠ way := by
  rw [HitOp.onLine]
  by_cases hdirty : Dirty ((s.pCache i).tag way)
  · rw [if_pos hdirty, cleanLine, tag_setLine]
    by_cases hsame : way' = way
    · subst hsame
      rw [if_pos ⟨rfl, rfl⟩]
      exact iff_of_false (not_dirty_and_not_dirtyFlag _) fun hboth => hboth.2 rfl
    · rw [if_neg fun hboth => hsame hboth.2]
      exact (and_iff_left hsame).symm
  · rw [if_neg hdirty]
    refine ⟨fun hd => ⟨hd, ?_⟩, And.left⟩
    rintro rfl
    exact hdirty hd

/-- `DHWOIN` as it goes by a physical address. -/
def dhwoinAt (s : Machine) (i : Nat) (paddr : UInt32) : Machine :=
  match s.hit i paddr with
  | none => s
  | some way => HitOp.dhwoin.onLine s i way

theorem Tagged.dirty_dhwoinAt (h : s.Tagged) (hi : i < 64) (paddr : UInt32) :
    Dirty (((s.dhwoinAt i paddr).pCache i).tag way) ↔
      Dirty ((s.pCache i).tag way) ∧ ¬IsHit ((s.pCache i).tag way) paddr := by
  rw [dhwoinAt]
  cases hhit : s.hit i paddr with
  | none => exact (and_iff_left (hit_of_none hhit way)).symm
  | some way' =>
    have hway' := hit_of_some hhit
    rw [dirty_onLine_dhwoin]
    refine and_congr_right fun _ => not_congr ⟨?_, fun hway => h.hit_unique hi hway hway'⟩
    rintro rfl
    exact hway'

theorem dhwoinAt_of_clean {paddr : UInt32}
    (h : ∀ way, Dirty ((s.pCache i).tag way) → ¬IsHit ((s.pCache i).tag way) paddr) :
    s.dhwoinAt i paddr = s := by
  rw [dhwoinAt]
  cases hhit : s.hit i paddr with
  | none => rfl
  | some way => exact if_neg fun hdirty => h way hdirty (hit_of_some hhit)

end Machine

namespace HitOp

open Machine

variable {vmap : VMap} {s : Machine}

theorem onLine_of_eq (h : s.Tagged) {addr : UInt32} {op : HitOp}
    (heq : op.exec vmap s addr = match s.hit (index addr) (vmap.paddr addr) with
      | none => s
      | some way => op.onLine s (index addr) way) : OnLine vmap s addr op := by
  constructor
  · intro hmiss
    rw [heq, hit_eq_none hmiss]
  · intro way hway
    rw [heq, h.hit_eq_some (index_lt addr) hway]

/-- `DHIN` and `DHWBIN` act on the line that is addressed.  `DHWOIN` does exactly when the
address it makes from the tag of way 0 hits the same dirty lines. -/
theorem onLine_iff (hv : vmap.WellFormed) (h : s.Tagged) (addr : UInt32) (op : HitOp) :
    OnLine vmap s addr op ↔
      (op = dhwoin → ∀ way, Dirty ((s.pCache (index addr)).tag way) →
        (IsHit ((s.pCache (index addr)).tag way) (vmap.paddr (s.pfnaddr addr)) ↔
          IsHit ((s.pCache (index addr)).tag way) (vmap.paddr addr))) := by
  cases op with
  | dhin => exact iff_of_true (onLine_of_eq h (dhin_eq vmap s addr)) nofun
  | dhwbin => exact iff_of_true (onLine_of_eq h (h.dhwbin_eq hv addr)) nofun
  | dhwoin =>
    have heq := h.dhwoin_eq hv addr
    have hi := index_lt addr
    change _ = s.dhwoinAt (index addr) (vmap.paddr (s.pfnaddr addr)) at heq
    constructor
    · intro hon _ way hdirty
      have hsame : s.dhwoinAt (index addr) (vmap.paddr (s.pfnaddr addr)) =
          s.dhwoinAt (index addr) (vmap.paddr addr) := by
        rw [← heq, dhwoinAt]
        cases hhit : s.hit (index addr) (vmap.paddr addr) with
        | none => exact hon.miss (hit_of_none hhit)
        | some way => exact hon.hit way (hit_of_some hhit)
      have hiff : Dirty (((s.dhwoinAt (index addr) (vmap.paddr (s.pfnaddr addr))).pCache
          (index addr)).tag way) ↔ _ := h.dirty_dhwoinAt hi _
      rw [hsame, h.dirty_dhwoinAt hi] at hiff
      simp only [hdirty, true_and, not_iff_not] at hiff
      exact hiff.symm
    · intro hsame
      have hsame := hsame rfl
      refine onLine_of_eq h (heq.trans ?_)
      change _ = s.dhwoinAt (index addr) (vmap.paddr addr)
      by_cases hex : ∃ way, Dirty ((s.pCache (index addr)).tag way) ∧
          IsHit ((s.pCache (index addr)).tag way) (vmap.paddr addr)
      · obtain ⟨way, hdirty, hway⟩ := hex
        rw [dhwoinAt, dhwoinAt, h.hit_eq_some hi hway,
          h.hit_eq_some hi ((hsame way hdirty).mpr hway)]
      · have hclean : ∀ way, Dirty ((s.pCache (index addr)).tag way) →
            ¬IsHit ((s.pCache (index addr)).tag way) (vmap.paddr addr) :=
          fun way hdirty hway => hex ⟨way, hdirty, hway⟩
        rw [dhwoinAt_of_clean hclean,
          dhwoinAt_of_clean fun way hdirty hway => hclean way hdirty ((hsame way hdirty).mp hway)]

/-- A cache with one dirty line, of the guest's page 1, in way 1 of set 0, where the pages of the
guest are at their own addresses on the host. -/
def oneDirty : Machine where
  pCache i := ⟨fun way => if i = 0 ∧ way = 1 then 0x80001060 else 0, fun _ _ => 7⟩
  mem _ := 0

theorem wellFormed_zero : VMap.WellFormed fun _ => 0 := by
  intro mem
  have hppf : VMap.ppf (fun _ => 0) mem = mem := UInt32.add_zero mem
  by_cases h : mem.toNat < 2 ^ 31
  · exact .inl ⟨Nat.dvd_zero _, by rwa [hppf]⟩
  · refine .inr ?_
    have hlt := mem.toNat_lt
    have hhand : VMap.hand (fun _ => 0) mem = 0 := show (0 : UInt32) &&& 0xff = 0 by decide
    rw [VMap.paddr, hppf, hhand, UInt32.sub_zero, UInt32.toNat_add]
    simp only [UInt32.reduceToNat]
    omega

theorem tagged_oneDirty : oneDirty.Tagged := by
  have hvalid (i : Nat) (way : Fin 2) (h : Valid ((oneDirty.pCache i).tag way)) :
      i = 0 ∧ way = 1 := by
    by_contra hne
    rw [oneDirty] at h
    simp only [if_neg hne] at h
    exact h rfl
  refine ⟨fun i way _ h => ?_, fun i way way' _ h h' _ => ?_⟩
  · obtain ⟨rfl, rfl⟩ := hvalid i way h
    decide
  · exact (hvalid i way h).2.trans (hvalid i way' h').2.symm

theorem onLine_iff_oneDirty :
    OnLine (fun _ => 0) oneDirty 0x1000 dhwoin ↔
      (dhwoin = dhwoin → ∀ way, Dirty ((oneDirty.pCache (index 0x1000)).tag way) →
        (IsHit ((oneDirty.pCache (index 0x1000)).tag way)
            (VMap.paddr (fun _ => 0) (oneDirty.pfnaddr 0x1000)) ↔
          IsHit ((oneDirty.pCache (index 0x1000)).tag way) (VMap.paddr (fun _ => 0) 0x1000))) :=
  onLine_iff wellFormed_zero tagged_oneDirty 0x1000 dhwoin

/-- `DHWOIN` of the page in way 1 looks for the page 0 that the empty way 0 stands for, and leaves
the dirty line. -/
theorem not_onLine_dhwoin :
    oneDirty.Tagged ∧ VMap.WellFormed (fun _ => 0) ∧
      ¬OnLine (fun _ => 0) oneDirty 0x1000 dhwoin := by
  refine ⟨tagged_oneDirty, wellFormed_zero, fun h => ?_⟩
  have hhit := h.hit 1 (by decide)
  have htag := congrArg (fun s : Machine => (s.pCache 0).tag 1) hhit
  exact absurd htag (by decide)

end HitOp

end OmegaRed.EE
