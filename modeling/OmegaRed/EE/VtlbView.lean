import OmegaRed.EE.TlbMap
import OmegaRed.EE.Tlb
import OmegaRed.Lib.Traces

/-! The functions of the vtlb that map, and the accessors that look up what they have mapped. -/

namespace OmegaRed.EE

/-- What an access comes to: a byte of the host, the data cache, a registered handler, `vtlb_Miss`
or `vtlb_BusError`. -/
inductive Reach
  | host (p : UInt32)
  | cache (addr : UInt32)
  | handler (hand paddr : UInt32)
  | miss (addr : UInt32)
  | busError (addr : UInt32)
  deriving DecidableEq

/-- `vtlbUnmappedV…<…, saddr>` -/
def vtlbUnmappedV (saddr addr : UInt32) : Reach := .miss (addr ||| saddr)

/-- `vtlbUnmappedP…<…, saddr>` -/
def vtlbUnmappedP (saddr addr : UInt32) : Reach := .busError (addr ||| saddr)

/-- `VTLB_BuildUnmappedHandler`, whose expansion does not use `highBit`. -/
def buildUnmappedHandler (baseName : UInt32 → UInt32 → Reach) (_highBit : UInt32) :
    UInt32 → Reach :=
  baseName 0

namespace MapData

variable (h : MapData)

/-- `vtlbdata.RWFT`, which has one column for each size, of reads and of writes. -/
def rwft (hand : UInt32) : UInt32 → Reach :=
  if hand = h.unmappedVirtHandler0 then buildUnmappedHandler vtlbUnmappedV 0
  else if hand = h.unmappedVirtHandler1 then buildUnmappedHandler vtlbUnmappedV 0x80000000
  else if hand = h.unmappedPhyHandler0 then buildUnmappedHandler vtlbUnmappedP 0
  else if hand = h.unmappedPhyHandler1 then buildUnmappedHandler vtlbUnmappedP 0x80000000
  else .handler hand

/-- A loop over whole pages that ends when `start` has passed `end`. -/
def whileLe (start size : UInt32) (body : VMap → VMap) : MapData :=
  if start ≤ start + (size - 0x1000) then { h with pmap := body h.pmap } else h

def vtlbMapHandler (handler start size : UInt32) : MapData :=
  h.whileLe start size (forSize size fun pmap off =>
    Function.update pmap ((start + off) >>> 12) (handler ||| 0x80000000))

def vtlbMapBlock (base start size blocksize : UInt32) : MapData :=
  let blocksize := if blocksize = 0 then size else blocksize
  h.whileLe start size fun pmap =>
    (List.range (size.toNat / blocksize.toNat)).foldl (fun pmap i =>
      let start := start + .ofNat i * blocksize
      forSize blocksize (fun pmap off =>
        Function.update pmap ((start + off) >>> 12) (base + off)) pmap) pmap

def vtlbMirror (newRegion start size : UInt32) : MapData :=
  h.whileLe start size (forSize size fun pmap off =>
    Function.update pmap ((start + off) >>> 12) (pmap ((newRegion + off) >>> 12)))

end MapData

structure Vtlb where
  data : MapData
  vmap : VMap

namespace Vtlb

/-- The calls that map. -/
inductive Call
  | mapHandler (handler start size : UInt32)
  | mapBlock (base start size blocksize : UInt32)
  | mirror (newRegion start size : UInt32)
  | vMap (vaddr paddr size : UInt32)
  | vMapBuffer (vaddr buffer size : UInt32)
  | vMapUnmap (vaddr size : UInt32)

def Aligned (x : UInt32) : Prop := x &&& 0xfff = 0

instance (x : UInt32) : Decidable (Aligned x) := instDecidableEqUInt32 ..

/-- `end` is a page of `pmap`. -/
def InPmap (start size : UInt32) : Prop := (start + (size - 0x1000)) >>> 12 < 0x20000

instance (start size : UInt32) : Decidable (InPmap start size) := inferInstanceAs (Decidable (_ < _))

/-- The arguments pass the `verify`s; what is mapped lies in the lower half of the host's addresses,
as `VTLB_AllocUpperBounds` has it, and a handler is `DefaultPhyHandler` or was registered later. -/
def Call.Legal : Call → Prop
  | .mapHandler handler start size =>
    (4 ≤ handler ∧ handler < 128) ∧ Aligned start ∧ Aligned size ∧ 0 < size ∧ InPmap start size
  | .mapBlock base start size blocksize =>
    let blocksize := if blocksize = 0 then size else blocksize
    Aligned start ∧ Aligned size ∧ 0 < size ∧ Aligned blocksize ∧ 0 < blocksize ∧
      size % blocksize = 0 ∧ InPmap start size ∧ base.toNat + blocksize.toNat ≤ 0x80000000
  | .mirror newRegion start size =>
    Aligned newRegion ∧ Aligned start ∧ Aligned size ∧ 0 < size ∧ InPmap start size ∧
      newRegion.toNat + size.toNat ≤ 0x20000000
  | .vMap vaddr paddr size => Aligned vaddr ∧ Aligned paddr ∧ Aligned size ∧ 0 < size
  | .vMapBuffer vaddr buffer size =>
    Aligned vaddr ∧ Aligned size ∧ 0 < size ∧ buffer.toNat + size.toNat ≤ 0x80000000
  | .vMapUnmap vaddr size => Aligned vaddr ∧ Aligned size ∧ 0 < size

instance : (call : Call) → Decidable call.Legal
  | .mapHandler .. | .mapBlock .. | .mirror .. | .vMap .. | .vMapBuffer .. | .vMapUnmap .. =>
    inferInstanceAs (Decidable (_ ∧ _))

def call (s : Vtlb) : Call → Vtlb
  | .mapHandler handler start size => { s with data := s.data.vtlbMapHandler handler start size }
  | .mapBlock base start size blocksize =>
    { s with data := s.data.vtlbMapBlock base start size blocksize }
  | .mirror newRegion start size => { s with data := s.data.vtlbMirror newRegion start size }
  | .vMap vaddr paddr size => { s with vmap := s.data.vtlbVMap vaddr paddr size s.vmap }
  | .vMapBuffer vaddr buffer size =>
    { s with vmap := MapData.vtlbVMapBuffer vaddr buffer size s.vmap }
  | .vMapUnmap vaddr size => { s with vmap := s.data.vtlbVMapUnmap vaddr size s.vmap }

def step (s : Vtlb) (c : Call) : Option Vtlb := if c.Legal then some (s.call c) else none

/-- `vtlb_Init`, which registers the handlers 0 to 3 for what is not mapped and 4 for the pages of
`pmap`. -/
def vtlbInit (pmap vmap : VMap) (scratch : UInt32) : Vtlb :=
  let data : MapData := ⟨pmap, 0, 1, 2, 3, scratch⟩
  let data := data.vtlbMapHandler 4 0 0x20000000
  let vmap := data.vtlbVMapUnmap 0 0xfffff000 vmap
  ⟨data, data.vtlbVMapUnmap 0xfffff000 0x1000 vmap⟩

/-- `vtlb_memRead` and `vtlb_memWrite`, which differ in nothing but the size and the column of
`RWFT`. `cached` is what the interpreters ask `CHECK_CACHE` and `CheckCache`. -/
def access (s : Vtlb) (cached : Bool) (addr : UInt32) : Reach :=
  let ppf := s.vmap.ppf addr
  if ppf < 0x80000000 then
    if cached then .cache addr else .host ppf
  else s.data.rwft (s.vmap.hand addr) (s.vmap.paddr addr)

end Vtlb

end OmegaRed.EE

/-! What the addresses of the EE and of its physical space were mapped to last. -/

namespace OmegaRed.EE

/-- What a physical address is mapped to: a byte of the host or a handler. -/
inductive Mapped
  | ram (p : UInt32)
  | handler (hand : UInt32)

structure View where
  phys : UInt32 → Mapped
  virt : UInt32 → Reach

namespace View

open Vtlb

variable (v : View)

/-- What a virtual address comes to when it is mapped to a physical one. -/
def reach (paddr : UInt32) : Reach :=
  if paddr < 0x20000000 then
    match v.phys paddr with
    | .ram p => .host p
    | .handler hand => .handler hand paddr
  else .busError paddr

/-- `a` is one of `size` addresses from `start` on, none of which is past the last one. -/
def Between (start size a : UInt32) : Prop := start ≤ a ∧ a ≤ start + (size - 1)

instance (start size a : UInt32) : Decidable (Between start size a) := instDecidableAnd

/-- The page at `start` becomes what the one at `newRegion` is. -/
def mirrorPage (newRegion start : UInt32) (phys : UInt32 → Mapped) (a : UInt32) : Mapped :=
  if a >>> 12 = start >>> 12 then phys (newRegion + (a &&& 0xfff)) else phys a

def call : Call → View
  | .mapHandler handler start size =>
    { v with phys := fun a => if Between start size a then .handler handler else v.phys a }
  | .mapBlock base start size blocksize =>
    let blocksize := if blocksize = 0 then size else blocksize
    { v with phys := fun a =>
        if Between start size a then .ram (base + (a - start) % blocksize) else v.phys a }
  | .mirror newRegion start size =>
    if start ≤ start + (size - 0x1000) then
      { v with phys := (List.range (size.toNat / 0x1000)).foldl (fun phys i =>
          mirrorPage (newRegion + .ofNat i * 0x1000) (start + .ofNat i * 0x1000) phys) v.phys }
    else v
  | .vMap vaddr paddr size =>
    { v with virt := fun a => if a - vaddr < size then v.reach (paddr + (a - vaddr)) else v.virt a }
  | .vMapBuffer vaddr buffer size =>
    { v with virt := fun a => if a - vaddr < size then .host (buffer + (a - vaddr)) else v.virt a }
  | .vMapUnmap vaddr size =>
    { v with virt := fun a => if a - vaddr < size then .miss a else v.virt a }

/-- Nothing is mapped. -/
def init : View := ⟨fun _ => .handler 4, .miss⟩

/-- What was mapped last, after the calls. -/
def after (calls : List Call) : View := calls.foldl call init

end View

/-- What an accessor comes to where the address is known to be mapped to `r`. -/
def Reach.through (cached : Bool) (addr : UInt32) : Reach → Reach
  | .host p => if cached then .cache addr else .host p
  | r => r

/-! ## Words -/

theorem toNat_and_fff (x : UInt32) : (x &&& 0xfff).toNat = x.toNat % 4096 := by
  rw [UInt32.toNat_and]
  exact Nat.and_two_pow_sub_one_eq_mod x.toNat 12

theorem toNat_and_ff (x : UInt32) : (x &&& 0xff).toNat = x.toNat % 256 := by
  rw [UInt32.toNat_and]
  exact Nat.and_two_pow_sub_one_eq_mod x.toNat 8

theorem Vtlb.Aligned.mod {x : UInt32} (h : Vtlb.Aligned x) : x.toNat % 4096 = 0 := by
  rw [← toNat_and_fff, h]
  rfl

/-- The page of an address. -/
def pageOf (a : UInt32) : UInt32 := a - (a &&& 0xfff)

theorem toNat_pageOf (a : UInt32) : (pageOf a).toNat = a.toNat / 4096 * 4096 := by
  rw [pageOf, UInt32.toNat_sub_of_le _ _ (UInt32.le_iff_toNat_le.mpr ?_), toNat_and_fff]
  · omega
  · rw [toNat_and_fff]
    omega

theorem or_page {hand page : UInt32} (hhand : hand.toNat < 128) (hpage : page.toNat % 4096 = 0) :
    (hand ||| page).toNat = hand.toNat + page.toNat := by
  obtain ⟨k, hk⟩ : ∃ k, page.toNat = 2 ^ 12 * k := ⟨page.toNat / 4096, by omega⟩
  rw [UInt32.toNat_or, Nat.or_comm, hk, ← Nat.two_pow_add_eq_or_of_lt (by omega), Nat.add_comm]

theorem or_sign (x : UInt32) :
    (x ||| 0x80000000).toNat = if x.toNat < 0x80000000 then x.toNat + 0x80000000 else x.toNat := by
  have hx := x.toNat_lt
  have hsign : (0x80000000 : UInt32).toNat = 2 ^ 31 * 1 := rfl
  rw [UInt32.toNat_or, Nat.or_comm, hsign]
  split_ifs with hlt
  · rw [← Nat.two_pow_add_eq_or_of_lt (by omega)]
    omega
  · obtain ⟨y, hy⟩ : ∃ y, x.toNat = 2 ^ 31 * 1 + y := ⟨x.toNat - 2 ^ 31, by omega⟩
    rw [hy, Nat.two_pow_add_eq_or_of_lt (by omega), ← Nat.or_assoc, Nat.or_self]

theorem and_sign_ne_zero_iff (x : UInt32) : x &&& 0x80000000 ≠ 0 ↔ 0x80000000 ≤ x.toNat := by
  have hx := x.toNat_lt
  have hsign : (0x80000000 : UInt32).toNat = 2 ^ 31 := rfl
  rw [← not_iff_not, not_not, ← UInt32.toNat_inj, UInt32.toNat_and, hsign, Nat.and_two_pow,
    Nat.testBit_eq_decide_div_mod_eq]
  change _ * _ = 0 ↔ _
  by_cases hlt : x.toNat < 2 ^ 31
  · rw [Nat.div_eq_of_lt hlt]
    simpa using hlt
  · rw [show x.toNat / 2 ^ 31 = 1 by omega]
    simpa using hlt

theorem or_page_or_sign {hand page : UInt32} (hhand : hand.toNat < 128)
    (hpage : page.toNat % 4096 = 0) : (hand ||| page ||| 0x80000000).toNat =
      if page.toNat < 0x80000000 then 0x80000000 + hand.toNat + page.toNat
      else hand.toNat + page.toNat := by
  rw [or_sign, or_page hhand hpage]
  split_ifs <;> omega

/-! ## One page -/

/-- The page entry that maps a physical address, `off` behind the start of its page. -/
def Mapped.In (pme off : UInt32) : Mapped → Prop
  | .ram p => pme.toNat + off.toNat = p.toNat ∧ p.toNat < 0x80000000
  | .handler hand => pme = hand ||| 0x80000000 ∧ 4 ≤ hand.toNat ∧ hand.toNat < 128

/-- The entry of a page, before its address is taken away from it. -/
def Reach.In (pme off : UInt32) : Reach → Prop
  | .host p => pme.toNat + off.toNat = p.toNat ∧ p.toNat < 0x80000000
  | .cache _ => False
  | .handler hand p => pme.toNat + off.toNat = 0x80000000 + hand.toNat + p.toNat ∧
    pme.toNat % 4096 = hand.toNat ∧ 4 ≤ hand.toNat ∧ hand.toNat < 128 ∧ p.toNat < 0x20000000
  | .miss a => if a.toNat < 0x80000000
    then pme.toNat + off.toNat = 0x80000000 + a.toNat ∧ pme.toNat % 4096 = 0
    else pme.toNat + off.toNat = a.toNat + 1 ∧ pme.toNat % 4096 = 1
  | .busError p => if p.toNat < 0x80000000
    then pme.toNat + off.toNat = 0x80000000 + p.toNat + 2 ∧ pme.toNat % 4096 = 2
    else pme.toNat + off.toNat = p.toNat + 3 ∧ pme.toNat % 4096 = 3

theorem pageOf_add {x : UInt32} (hx : Vtlb.Aligned x) (y : UInt32) :
    pageOf (x + y) = x + pageOf y := by
  have hmod := hx.mod
  have hlt := x.toNat_lt
  rw [← UInt32.toNat_inj, toNat_pageOf, UInt32.toNat_add, UInt32.toNat_add, toNat_pageOf]
  omega

theorem add_and_fff {x : UInt32} (hx : Vtlb.Aligned x) (y : UInt32) :
    (x + y) &&& 0xfff = y &&& 0xfff := by
  have hmod := hx.mod
  rw [← UInt32.toNat_inj, toNat_and_fff, toNat_and_fff, UInt32.toNat_add]
  omega

theorem aligned_pageOf (a : UInt32) : Vtlb.Aligned (pageOf a) := by
  rw [Vtlb.Aligned, ← UInt32.toNat_inj, toNat_and_fff, toNat_pageOf]
  exact Nat.mul_mod_left _ _

theorem pageOf_shiftRight (a : UInt32) : pageOf a >>> 12 = a >>> 12 := by
  rw [← UInt32.toNat_inj, toNat_shiftRight_12, toNat_shiftRight_12, toNat_pageOf]
  omega

theorem add_sub_self (a b : UInt32) : b + (a - b) = a := by
  rw [UInt32.add_comm, UInt32.sub_add_cancel]

namespace MapData

theorem forSize_at {vaddr size : UInt32} (hv : Vtlb.Aligned vaddr) (hs : Vtlb.Aligned size)
    (val : UInt32 → UInt32) (vmap : VMap) (a : UInt32) :
    forSize size (fun vmap off => Function.update vmap ((vaddr + off) >>> 12) (val off)) vmap
      (a >>> 12) = if a - vaddr < size then val (pageOf (a - vaddr)) else vmap (a >>> 12) := by
  have hvmod := hv.mod
  have hsmod := hs.mod
  have hslt := size.toNat_lt
  have hvlt := vaddr.toNat_lt
  have halt := a.toNat_lt
  have hp : (a >>> 12).toNat < 2 ^ 20 := by
    rw [toNat_shiftRight_12]
    omega
  have hbehind : behind (vaddr >>> 12) (a >>> 12) = (a - vaddr).toNat / 4096 := by
    rw [behind, toNat_and_fffff, UInt32.toNat_sub, toNat_shiftRight_12, toNat_shiftRight_12,
      UInt32.toNat_sub]
    omega
  have hval : UInt32.ofNat (behind (vaddr >>> 12) (a >>> 12)) * 0x1000 = pageOf (a - vaddr) := by
    have hpage : (0x1000 : UInt32).toNat = 4096 := rfl
    have hd := (a - vaddr).toNat_lt
    rw [hbehind, ← UInt32.toNat_inj, toNat_pageOf, UInt32.toNat_mul, UInt32.toNat_ofNat', hpage]
    omega
  have hiff : behind (vaddr >>> 12) (a >>> 12) < size.toNat / 0x1000 ↔ a - vaddr < size := by
    rw [hbehind, UInt32.lt_iff_toNat_lt]
    omega
  rw [forSize_apply vaddr val vmap hp, hval]
  exact if_congr hiff rfl rfl

end MapData

/-- The maps hold what was mapped last. -/
structure Vtlb.Shows (s : Vtlb) (v : View) : Prop where
  virtHandler0 : s.data.unmappedVirtHandler0 = 0
  virtHandler1 : s.data.unmappedVirtHandler1 = 1
  phyHandler0 : s.data.unmappedPhyHandler0 = 2
  phyHandler1 : s.data.unmappedPhyHandler1 = 3
  phys : ∀ p, p.toNat < 0x20000000 → (v.phys p).In (s.data.pmap (p >>> 12)) (p &&& 0xfff)
  virt : ∀ a, (v.virt a).In (s.vmap (a >>> 12) + pageOf a) (a &&& 0xfff)

namespace Vtlb

variable {s : Vtlb} {v : View}

theorem Shows.pme (h : s.Shows v) (p : UInt32) :
    (v.reach p).In (s.data.pme (pageOf p)) (p &&& 0xfff) := by
  have hp := p.toNat_lt
  have hpage := toNat_pageOf p
  have hoff := toNat_and_fff p
  have hlarge : pageOf p ≥ 0x20000000 ↔ ¬ p < 0x20000000 := by
    rw [ge_iff_le, UInt32.le_iff_toNat_le, UInt32.lt_iff_toNat_lt, hpage]
    change 0x20000000 ≤ _ ↔ ¬ _ < 0x20000000
    omega
  rw [MapData.pme, View.reach]
  by_cases hlt : p < 0x20000000
  · have hphys := h.phys p (UInt32.lt_iff_toNat_lt.mp hlt)
    rw [if_neg (fun hge => hlarge.mp hge hlt), if_pos hlt, pageOf_shiftRight]
    cases hmapped : v.phys p with
    | ram x =>
      rw [hmapped] at hphys
      have hpos : ¬ s.data.pmap (p >>> 12) ≥ signBit := by
        rw [ge_iff_le, UInt32.le_iff_toNat_le]
        change ¬ 0x80000000 ≤ _
        have hsum := hphys.1
        have hx := hphys.2
        omega
      dsimp only
      rw [if_neg hpos]
      exact hphys
    | handler hand =>
      rw [hmapped] at hphys
      obtain ⟨hpme, hlow, hhigh⟩ := hphys
      have hsign := or_sign hand
      rw [if_pos (by omega)] at hsign
      have hneg : s.data.pmap (p >>> 12) ≥ signBit := by
        rw [hpme, ge_iff_le, UInt32.le_iff_toNat_le, hsign]
        change 0x80000000 ≤ _
        omega
      have hltNat : p.toNat < 0x20000000 := UInt32.lt_iff_toNat_lt.mp hlt
      have hvalue : (hand ||| 0x80000000 ||| pageOf p).toNat =
          0x80000000 + hand.toNat + (pageOf p).toNat := by
        rw [UInt32.or_assoc, UInt32.or_comm 0x80000000, ← UInt32.or_assoc,
          or_page_or_sign hhigh (aligned_pageOf p).mod, if_pos (by omega)]
      dsimp only
      rw [if_pos hneg, hpme]
      refine ⟨?_, ?_, hlow, hhigh, hltNat⟩
      · omega
      · omega
  · have hge : pageOf p ≥ 0x20000000 := hlarge.mpr hlt
    have hhandler : ∀ hand : UInt32, hand ||| signBit ||| pageOf p =
        hand ||| pageOf p ||| 0x80000000 := fun hand => by
      rw [UInt32.or_assoc, UInt32.or_comm signBit, ← UInt32.or_assoc]
      rfl
    rw [if_pos hge, if_neg hlt, h.phyHandler0, h.phyHandler1, hhandler, Reach.In]
    by_cases hhalf : p.toNat < 0x80000000
    · rw [if_pos hhalf, if_neg (by rw [signBit, and_sign_ne_zero_iff]; omega),
        or_page_or_sign (by decide) (aligned_pageOf p).mod, if_pos (by omega)]
      change 0x80000000 + 2 + _ + _ = _ ∧ (0x80000000 + 2 + _) % 4096 = 2
      constructor <;> omega
    · rw [if_neg hhalf, if_pos (by rw [signBit, and_sign_ne_zero_iff]; omega),
        or_page_or_sign (by decide) (aligned_pageOf p).mod, if_neg (by omega)]
      change 3 + _ + _ = _ ∧ (3 + _) % 4096 = 3
      constructor <;> omega

theorem unmapped_in {data : MapData} (h0 : data.unmappedVirtHandler0 = 0)
    (h1 : data.unmappedVirtHandler1 = 1) (a : UInt32) :
    (Reach.miss a).In (data.unmapped (pageOf a) + pageOf a) (a &&& 0xfff) := by
  have ha := a.toNat_lt
  have hpage := toNat_pageOf a
  have hoff := toNat_and_fff a
  rw [MapData.unmapped, UInt32.sub_add_cancel, h0, h1, Reach.In]
  by_cases hhalf : a.toNat < 0x80000000
  · rw [if_pos hhalf, if_neg (by rw [and_sign_ne_zero_iff]; omega),
      or_page_or_sign (by decide) (aligned_pageOf a).mod, if_pos (by omega)]
    change 0x80000000 + 0 + _ + _ = _ ∧ (0x80000000 + 0 + _) % 4096 = 0
    constructor <;> omega
  · rw [if_neg hhalf, if_pos (by rw [and_sign_ne_zero_iff]; omega),
      or_page_or_sign (by decide) (aligned_pageOf a).mod, if_neg (by omega)]
    change 1 + _ + _ = _ ∧ (1 + _) % 4096 = 1
    constructor <;> omega

/-! ## The virtual mappings -/

theorem Shows.of_virt (h : s.Shows v) {vmap : VMap} {virt : UInt32 → Reach}
    (hvirt : ∀ a, (virt a).In (vmap (a >>> 12) + pageOf a) (a &&& 0xfff)) :
    Shows { s with vmap := vmap } { v with virt := virt } :=
  ⟨h.virtHandler0, h.virtHandler1, h.phyHandler0, h.phyHandler1, h.phys, hvirt⟩

/-- The part of an address in its page, and its page, as they are counted from `vaddr`. -/
theorem pageOf_eq {vaddr : UInt32} (hv : Aligned vaddr) (a : UInt32) :
    pageOf a = vaddr + pageOf (a - vaddr) := by
  rw [← pageOf_add hv, add_sub_self]

theorem and_fff_eq {vaddr : UInt32} (hv : Aligned vaddr) (a : UInt32) :
    a &&& 0xfff = (a - vaddr) &&& 0xfff := by
  rw [← add_and_fff hv (a - vaddr), add_sub_self]

theorem Shows.vMap (h : s.Shows v) {vaddr paddr size : UInt32}
    (hlegal : (Call.vMap vaddr paddr size).Legal) :
    (s.call (.vMap vaddr paddr size)).Shows (v.call (.vMap vaddr paddr size)) := by
  obtain ⟨hv, hp, hs, -⟩ := hlegal
  refine h.of_virt fun a => ?_
  rw [MapData.vtlbVMap, MapData.forSize_at hv hs fun off => s.data.pme (paddr + off) - (vaddr + off)]
  split_ifs with hin
  · have hpme := h.pme (paddr + (a - vaddr))
    rw [pageOf_add hp, add_and_fff hp, ← and_fff_eq hv] at hpme
    rw [pageOf_eq hv a, UInt32.sub_add_cancel]
    exact hpme
  · exact h.virt a

theorem Shows.vMapBuffer (h : s.Shows v) {vaddr buffer size : UInt32}
    (hlegal : (Call.vMapBuffer vaddr buffer size).Legal) :
    (s.call (.vMapBuffer vaddr buffer size)).Shows (v.call (.vMapBuffer vaddr buffer size)) := by
  obtain ⟨hv, hs, -, hbuffer⟩ := hlegal
  refine h.of_virt fun a => ?_
  rw [MapData.vtlbVMapBuffer, MapData.forSize_at hv hs fun off => (buffer + off) - (vaddr + off)]
  split_ifs with hin
  · have hlt := UInt32.lt_iff_toNat_lt.mp hin
    rw [pageOf_eq hv a, UInt32.sub_add_cancel, and_fff_eq hv a, Reach.In, UInt32.toNat_add,
      UInt32.toNat_add, toNat_pageOf, toNat_and_fff]
    omega
  · exact h.virt a

theorem Shows.vMapUnmap (h : s.Shows v) {vaddr size : UInt32}
    (hlegal : (Call.vMapUnmap vaddr size).Legal) :
    (s.call (.vMapUnmap vaddr size)).Shows (v.call (.vMapUnmap vaddr size)) := by
  obtain ⟨hv, hs, -⟩ := hlegal
  refine h.of_virt fun a => ?_
  rw [MapData.vtlbVMapUnmap, MapData.forSize_at hv hs fun off => s.data.unmapped (vaddr + off)]
  split_ifs with hin
  · rw [← pageOf_eq hv]
    exact unmapped_in h.virtHandler0 h.virtHandler1 a
  · exact h.virt a

/-! ## The physical mappings -/

theorem between_iff {start size : UInt32} (hstart : Aligned start) (hs : Aligned size)
    (hpos : 0 < size) (a : UInt32) :
    View.Between start size a ↔ start ≤ start + (size - 0x1000) ∧ a - start < size := by
  have hstartmod := hstart.mod
  have hsmod := hs.mod
  have hstartlt := start.toNat_lt
  have hslt := size.toNat_lt
  have halt := a.toNat_lt
  have hposNat : 0 < size.toNat := UInt32.lt_iff_toNat_lt.mp hpos
  have hpage : (0x1000 : UInt32).toNat = 4096 := rfl
  have hone : (1 : UInt32).toNat = 1 := rfl
  have hlast : (size - 0x1000).toNat = size.toNat - 4096 := by
    rw [UInt32.toNat_sub, hpage]
    omega
  have hend : (size - 1).toNat = size.toNat - 1 := by
    rw [UInt32.toNat_sub, hone]
    omega
  rw [View.Between, UInt32.le_iff_toNat_le, UInt32.le_iff_toNat_le, UInt32.le_iff_toNat_le,
    UInt32.lt_iff_toNat_lt, UInt32.toNat_add, UInt32.toNat_add, hlast, hend, UInt32.toNat_sub]
  omega

theorem Shows.of_phys (h : s.Shows v) {data : MapData} {pmap : VMap} {phys : UInt32 → Mapped}
    (hdata : data = { s.data with pmap := pmap })
    (hphys : ∀ p, p.toNat < 0x20000000 → (phys p).In (pmap (p >>> 12)) (p &&& 0xfff)) :
    Shows { s with data := data } { v with phys := phys } := by
  subst hdata
  exact ⟨h.virtHandler0, h.virtHandler1, h.phyHandler0, h.phyHandler1, hphys, h.virt⟩

theorem Shows.mapHandler (h : s.Shows v) {handler start size : UInt32}
    (hlegal : (Call.mapHandler handler start size).Legal) :
    (s.call (.mapHandler handler start size)).Shows (v.call (.mapHandler handler start size)) := by
  obtain ⟨⟨hlow, hhigh⟩, hstart, hs, hpos, -⟩ := hlegal
  rw [call, View.call, MapData.vtlbMapHandler, MapData.whileLe]
  by_cases hle : start ≤ start + (size - 0x1000)
  · rw [if_pos hle]
    refine h.of_phys rfl fun p hp => ?_
    rw [MapData.forSize_at hstart hs fun _ => handler ||| 0x80000000]
    by_cases hin : p - start < size
    · rw [if_pos hin, if_pos ((between_iff hstart hs hpos p).mpr ⟨hle, hin⟩)]
      exact ⟨rfl, UInt32.le_iff_toNat_le.mp hlow, UInt32.lt_iff_toNat_lt.mp hhigh⟩
    · rw [if_neg hin, if_neg fun hbetween => hin ((between_iff hstart hs hpos p).mp hbetween).2]
      exact h.phys p hp
  · rw [if_neg hle]
    refine h.of_phys rfl fun p hp => ?_
    rw [if_neg fun hbetween => hle ((between_iff hstart hs hpos p).mp hbetween).1]
    exact h.phys p hp

theorem toNat_block {start blocksize : UInt32} {n : Nat} (hpos : 0 < blocksize)
    (hn : start.toNat + (n + 1) * blocksize.toNat ≤ 2 ^ 32) :
    (start + .ofNat n * blocksize).toNat = start.toNat + n * blocksize.toNat := by
  have hposNat : 0 < blocksize.toNat := UInt32.lt_iff_toNat_lt.mp hpos
  have hle : n ≤ n * blocksize.toNat := Nat.le_mul_of_pos_right n hposNat
  rw [Nat.succ_mul] at hn
  rw [UInt32.toNat_add, UInt32.toNat_mul, UInt32.toNat_ofNat', Nat.mod_eq_of_lt (by omega : n < _),
    Nat.mod_eq_of_lt (by omega : n * blocksize.toNat < _)]
  omega

/-- The blocks that the loop of `vtlb_MapBlock` has written, none of which is past the last
address. -/
theorem blocks_at {base start blocksize : UInt32} (hstart : Aligned start) (hb : Aligned blocksize)
    (hpos : 0 < blocksize) (pmap : VMap) (p : UInt32) {n : Nat}
    (hn : start.toNat + n * blocksize.toNat ≤ 2 ^ 32) :
    (List.range n).foldl (fun pmap i =>
      let start := start + .ofNat i * blocksize
      MapData.forSize blocksize (fun pmap off =>
        Function.update pmap ((start + off) >>> 12) (base + off)) pmap) pmap (p >>> 12) =
      if (p - start).toNat < n * blocksize.toNat then base + pageOf ((p - start) % blocksize)
      else pmap (p >>> 12) := by
  induction n with
  | zero => rw [Nat.zero_mul, if_neg (Nat.not_lt_zero _)]; rfl
  | succ n ih =>
    have hplt := p.toNat_lt
    have hslt := start.toNat_lt
    have hblock := toNat_block hpos hn
    have haligned : Aligned (start + .ofNat n * blocksize) := by
      have hmul : n * blocksize.toNat % 4096 = 0 := by rw [Nat.mul_mod, hb.mod, Nat.mul_zero]
      have hmod := hstart.mod
      rw [Aligned, ← UInt32.toNat_inj, toNat_and_fff, hblock]
      exact (by omega : (start.toNat + n * blocksize.toNat) % 4096 = 0)
    rw [Nat.succ_mul] at hn
    rw [List.range_succ, List.foldl_append, List.foldl_cons, List.foldl_nil,
      MapData.forSize_at haligned hb fun off => base + off, ih (by omega), Nat.succ_mul]
    have hdist : (p - start).toNat = (2 ^ 32 - start.toNat + p.toNat) % 2 ^ 32 := UInt32.toNat_sub _ _
    have hfrom : (p - (start + .ofNat n * blocksize)).toNat =
        (2 ^ 32 - (start.toNat + n * blocksize.toNat) + p.toNat) % 2 ^ 32 := by
      rw [UInt32.toNat_sub, hblock]
    by_cases hin : p - (start + .ofNat n * blocksize) < blocksize
    · have hinNat := UInt32.lt_iff_toNat_lt.mp hin
      have hsame : p - (start + .ofNat n * blocksize) = (p - start) % blocksize := by
        have hd : (p - start).toNat =
            n * blocksize.toNat + (p - (start + .ofNat n * blocksize)).toNat := by
          omega
        rw [← UInt32.toNat_inj, UInt32.toNat_mod, hd, Nat.mul_comm, Nat.mul_add_mod,
          Nat.mod_eq_of_lt hinNat]
      rw [if_pos hin, if_pos (by omega), hsame]
    · have hinNat : ¬ (p - (start + .ofNat n * blocksize)).toNat < blocksize.toNat :=
        fun hlt => hin (UInt32.lt_iff_toNat_lt.mpr hlt)
      rw [if_neg hin]
      by_cases hbefore : (p - start).toNat < n * blocksize.toNat
      · rw [if_pos hbefore, if_pos (by omega)]
      · rw [if_neg hbefore, if_neg (by omega)]

theorem Shows.mapBlock (h : s.Shows v) {base start size blocksize : UInt32}
    (hlegal : (Call.mapBlock base start size blocksize).Legal) :
    (s.call (.mapBlock base start size blocksize)).Shows
      (v.call (.mapBlock base start size blocksize)) := by
  dsimp only [Call.Legal] at hlegal
  rw [call, View.call, MapData.vtlbMapBlock, MapData.whileLe]
  generalize (if blocksize = 0 then size else blocksize) = blocksize at hlegal ⊢
  obtain ⟨hstart, hs, hspos, hb, hbpos, hdvd, -, hbase⟩ := hlegal
  dsimp only
  by_cases hle : start ≤ start + (size - 0x1000)
  · rw [if_pos hle]
    refine h.of_phys rfl fun p hp => ?_
    have hsmod := hs.mod
    have hstartmod := hstart.mod
    have hposNat : 0 < blocksize.toNat := UInt32.lt_iff_toNat_lt.mp hbpos
    have hsposNat : 0 < size.toNat := UInt32.lt_iff_toNat_lt.mp hspos
    have hmul : size.toNat / blocksize.toNat * blocksize.toNat = size.toNat := by
      refine Nat.div_mul_cancel (Nat.dvd_of_mod_eq_zero ?_)
      rw [← UInt32.toNat_mod, hdvd]
      rfl
    have hend : start.toNat + size.toNat ≤ 2 ^ 32 := by
      have hsub : (size - 0x1000).toNat = size.toNat - 4096 := by
        have hpage : (0x1000 : UInt32).toNat = 4096 := rfl
        have hslt := size.toNat_lt
        rw [UInt32.toNat_sub, hpage]
        omega
      have hleNat := UInt32.le_iff_toNat_le.mp hle
      have hstartlt := start.toNat_lt
      have hslt := size.toNat_lt
      rw [UInt32.toNat_add, hsub] at hleNat
      omega
    rw [blocks_at hstart hb hbpos s.data.pmap p (by rw [hmul]; exact hend), hmul]
    by_cases hin : p - start < size
    · rw [if_pos (UInt32.lt_iff_toNat_lt.mp hin),
        if_pos ((between_iff hstart hs hspos p).mpr ⟨hle, hin⟩)]
      have hoff : (p &&& 0xfff).toNat = ((p - start) % blocksize).toNat % 4096 := by
        have hbmod := hb.mod
        rw [and_fff_eq hstart, toNat_and_fff, UInt32.toNat_mod,
          Nat.mod_mod_of_dvd _ (Nat.dvd_of_mod_eq_zero hbmod)]
      have hlt : ((p - start) % blocksize).toNat < blocksize.toNat := by
        rw [UInt32.toNat_mod]
        exact Nat.mod_lt _ hposNat
      rw [Mapped.In, hoff, UInt32.toNat_add, UInt32.toNat_add, toNat_pageOf]
      omega
    · rw [if_neg fun hlt => hin (UInt32.lt_iff_toNat_lt.mpr hlt),
        if_neg fun hbetween => hin ((between_iff hstart hs hspos p).mp hbetween).2]
      exact h.phys p hp
  · rw [if_neg hle]
    refine h.of_phys rfl fun p hp => ?_
    rw [if_neg fun hbetween => hle ((between_iff hstart hs hspos p).mp hbetween).1]
    exact h.phys p hp

theorem mirror_in {newRegion start : UInt32} {n : Nat} (hnew : Aligned newRegion)
    (hn : newRegion.toNat + n * 0x1000 ≤ 0x20000000) {pmap : VMap} {phys : UInt32 → Mapped}
    (h : ∀ p, p.toNat < 0x20000000 → (phys p).In (pmap (p >>> 12)) (p &&& 0xfff)) (p : UInt32)
    (hp : p.toNat < 0x20000000) :
    ((List.range n).foldl (fun phys i => View.mirrorPage (newRegion + .ofNat i * 0x1000)
        (start + .ofNat i * 0x1000) phys) phys p).In
      ((List.range n).foldl (fun pmap i =>
        Function.update pmap ((start + .ofNat i * 0x1000) >>> 12)
          (pmap ((newRegion + .ofNat i * 0x1000) >>> 12))) pmap (p >>> 12)) (p &&& 0xfff) := by
  induction n generalizing p with
  | zero => exact h p hp
  | succ n ih =>
    rw [Nat.succ_mul] at hn
    have hprev : newRegion.toNat + n * 0x1000 ≤ 0x20000000 :=
      le_trans (Nat.add_le_add_left (Nat.le_add_right ..) _) hn
    rw [List.range_succ, List.foldl_append, List.foldl_cons, List.foldl_nil, List.foldl_append,
      List.foldl_cons, List.foldl_nil, View.mirrorPage]
    by_cases hpage : p >>> 12 = (start + .ofNat n * 0x1000) >>> 12
    · have hsize : (0x1000 : UInt32).toNat = 4096 := rfl
      have hmod := hnew.mod
      have hoff := toNat_and_fff p
      have hnat : (newRegion + .ofNat n * 0x1000).toNat = newRegion.toNat + n * 4096 := by
        rw [UInt32.toNat_add, UInt32.toNat_mul, UInt32.toNat_ofNat', hsize]
        omega
      have haligned : Aligned (newRegion + .ofNat n * 0x1000) := by
        rw [Aligned, ← UInt32.toNat_inj, toNat_and_fff, hnat]
        exact (by omega : (newRegion.toNat + n * 4096) % 4096 = 0)
      have hsum : (newRegion + .ofNat n * 0x1000 + (p &&& 0xfff)).toNat =
          newRegion.toNat + n * 4096 + p.toNat % 4096 := by
        rw [UInt32.toNat_add, hnat, hoff]
        omega
      have hsource := ih hprev (newRegion + .ofNat n * 0x1000 + (p &&& 0xfff)) (by omega)
      have hindex : (newRegion + .ofNat n * 0x1000 + (p &&& 0xfff)) >>> 12 =
          (newRegion + .ofNat n * 0x1000) >>> 12 := by
        rw [← UInt32.toNat_inj, toNat_shiftRight_12, toNat_shiftRight_12, hsum, hnat]
        omega
      have hrest : (newRegion + .ofNat n * 0x1000 + (p &&& 0xfff)) &&& 0xfff = p &&& 0xfff := by
        rw [add_and_fff haligned, UInt32.and_assoc, UInt32.and_self]
      rw [hindex, hrest] at hsource
      rw [if_pos hpage, hpage, Function.update_self]
      exact hsource
    · rw [if_neg hpage, Function.update_of_ne hpage]
      exact ih hprev p hp

theorem Shows.mirror (h : s.Shows v) {newRegion start size : UInt32}
    (hlegal : (Call.mirror newRegion start size).Legal) :
    (s.call (.mirror newRegion start size)).Shows (v.call (.mirror newRegion start size)) := by
  obtain ⟨hnew, -, -, -, -, hregion⟩ := hlegal
  rw [call, View.call, MapData.vtlbMirror, MapData.whileLe]
  by_cases hle : start ≤ start + (size - 0x1000)
  · rw [if_pos hle, if_pos hle]
    exact h.of_phys rfl fun p hp => mirror_in hnew (by omega) h.phys p hp
  · rw [if_neg hle, if_neg hle]
    exact h

/-! ## A run -/

theorem Shows.call (h : s.Shows v) {c : Call} (hlegal : c.Legal) :
    (s.call c).Shows (v.call c) := by
  cases c with
  | mapHandler => exact h.mapHandler hlegal
  | mapBlock => exact h.mapBlock hlegal
  | mirror => exact h.mirror hlegal
  | vMap => exact h.vMap hlegal
  | vMapBuffer => exact h.vMapBuffer hlegal
  | vMapUnmap => exact h.vMapUnmap hlegal

theorem Shows.run (h : s.Shows v) {calls : List Call} {t : Vtlb}
    (hrun : Lib.Traces.run step s calls = some t) : t.Shows (calls.foldl View.call v) := by
  induction calls generalizing s v with
  | nil =>
    cases hrun
    exact h
  | cons c calls ih =>
    obtain ⟨r, hr, hrest⟩ := Option.bind_eq_some_iff.mp hrun
    rw [step] at hr
    split_ifs at hr with hlegal
    cases hr
    exact ih (h.call hlegal) hrest

theorem shows_vtlbInit (pmap vmap : VMap) (scratch : UInt32) :
    (vtlbInit pmap vmap scratch).Shows View.init := by
  have hdata : (⟨pmap, 0, 1, 2, 3, scratch⟩ : MapData).vtlbMapHandler 4 0 0x20000000 =
      ⟨MapData.forSize 0x20000000 (fun pmap off =>
        Function.update pmap ((0 + off) >>> 12) (4 ||| 0x80000000)) pmap, 0, 1, 2, 3, scratch⟩ := by
    have hle : (0 : UInt32) ≤ 0 + (0x20000000 - 0x1000) := by decide
    rw [MapData.vtlbMapHandler, MapData.whileLe, if_pos hle]
  rw [vtlbInit, hdata]
  refine ⟨rfl, rfl, rfl, rfl, fun p hp => ?_, fun a => ?_⟩
  · have hin : p - 0 < 0x20000000 := by
      rw [UInt32.sub_zero]
      exact UInt32.lt_iff_toNat_lt.mpr hp
    dsimp only
    rw [MapData.forSize_at (by decide) (by decide) fun _ => 4 ||| 0x80000000, if_pos hin]
    exact ⟨rfl, by decide, by decide⟩
  · dsimp only
    generalize hmade : (⟨_, 0, 1, 2, 3, scratch⟩ : MapData) = data
    have h0 : data.unmappedVirtHandler0 = 0 := by rw [← hmade]
    have h1 : data.unmappedVirtHandler1 = 1 := by rw [← hmade]
    have hall := unmapped_in h0 h1 a
    rw [MapData.vtlbVMapUnmap,
      MapData.forSize_at (by decide) (by decide) fun off => data.unmapped (0xfffff000 + off)]
    by_cases hin : a - 0xfffff000 < 0x1000
    · rw [if_pos hin, ← pageOf_eq (by decide)]
      exact hall
    · have hlow : a - 0 < 0xfffff000 := by
        have ha := a.toNat_lt
        have hnum : (0xfffff000 : UInt32).toNat = 4294963200 := rfl
        have hsize : (0x1000 : UInt32).toNat = 4096 := rfl
        rw [UInt32.lt_iff_toNat_lt, UInt32.toNat_sub, hnum, hsize] at hin
        rw [UInt32.sub_zero, UInt32.lt_iff_toNat_lt, hnum]
        omega
      rw [if_neg hin, MapData.vtlbVMapUnmap,
        MapData.forSize_at (by decide) (by decide) fun off => data.unmapped (0 + off), if_pos hlow,
        ← pageOf_eq (by decide)]
      exact hall

end Vtlb

end OmegaRed.EE
