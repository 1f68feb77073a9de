import OmegaRed.EE.Cache
import OmegaRed.Lib.Overlay

/-! The TLB of the EE and the page map that TLB writes and savestate loads maintain. -/

namespace OmegaRed.EE

open Lib.Overlay

/-- `tlbs` -/
structure Tlbs where
  pageMask : UInt32
  entryHi : UInt32
  entryLo0 : UInt32
  entryLo1 : UInt32
  mask : UInt32
  nMask : UInt32
  g : UInt32
  asid : UInt32
  vpn2 : UInt32
  pfn0 : UInt32
  pfn1 : UInt32
  s : UInt32
  deriving DecidableEq

/-- What mapping a page reads of `vtlbdata` and of the host. The handlers have their numbers,
`scratch` is the host's address of the scratchpad. -/
structure MapData where
  pmap : UInt32 → UInt32
  unmappedVirtHandler0 : UInt32
  unmappedVirtHandler1 : UInt32
  unmappedPhyHandler0 : UInt32
  unmappedPhyHandler1 : UInt32
  scratch : UInt32

def signBit : UInt32 := 0x80000000

namespace MapData

variable (h : MapData)

def pme (paddr : UInt32) : UInt32 :=
  if paddr ≥ 0x20000000 then
    (if paddr &&& signBit ≠ 0 then h.unmappedPhyHandler1 else h.unmappedPhyHandler0)
      ||| signBit ||| paddr
  else
    let pme := h.pmap (paddr >>> 12)
    if pme ≥ signBit then pme ||| paddr else pme

/-- A loop of `size` bytes over whole pages. -/
def forSize (size : UInt32) (body : VMap → UInt32 → VMap) (vmap : VMap) : VMap :=
  (List.range (size.toNat / 0x1000)).foldl (fun vmap i => body vmap (.ofNat i * 0x1000)) vmap

def vtlbVMap (vaddr paddr size : UInt32) : VMap → VMap :=
  forSize size fun vmap off =>
    Function.update vmap ((vaddr + off) >>> 12) (h.pme (paddr + off) - (vaddr + off))

def vtlbVMapBuffer (vaddr buffer size : UInt32) : VMap → VMap :=
  forSize size fun vmap off =>
    Function.update vmap ((vaddr + off) >>> 12) ((buffer + off) - (vaddr + off))

/-- What the map holds for a page that nothing is mapped to. -/
def unmapped (vaddr : UInt32) : UInt32 :=
  let handl := if vaddr &&& 0x80000000 ≠ 0 then h.unmappedVirtHandler1 else h.unmappedVirtHandler0
  (handl ||| vaddr ||| 0x80000000) - vaddr

def vtlbVMapUnmap (vaddr size : UInt32) : VMap → VMap :=
  forSize size fun vmap off =>
    Function.update vmap ((vaddr + off) >>> 12) (h.unmapped (vaddr + off))

def memSetPageAddr (vaddr paddr : UInt32) : VMap → VMap := h.vtlbVMap vaddr paddr 0x1000

def memClearPageAddr (vaddr : UInt32) : VMap → VMap := h.vtlbVMapUnmap vaddr 0x1000

/-- The page map after `eeMemoryReserve::Reset`. -/
def memReset (vmap : VMap) : VMap :=
  let vmap := h.vtlbVMapUnmap 0 0xfffff000 vmap
  let vmap := h.vtlbVMapUnmap 0xfffff000 0x1000 vmap
  let vmap := h.vtlbVMap 0x80000000 0 0x20000000 vmap
  let vmap := h.vtlbVMap 0xa0000000 0 0x20000000 vmap
  let vmap := h.vtlbVMap 0 0 0x20000000 vmap
  h.vtlbVMapUnmap 0x20000000 0x60000000 vmap

end MapData

namespace Tlbs

variable (e : Tlbs)

/-- `mask` of the mapping loops. -/
def loopMask : UInt32 := ((~~~e.mask) <<< 1) &&& 0xfffff

def Matched (addr : UInt32) : Prop := addr &&& e.loopMask = (e.vpn2 >>> 12) &&& e.loopMask

instance (addr : UInt32) : Decidable (e.Matched addr) := instDecidableEqUInt32 ..

/-- The loop over the pages from `saddr` on. -/
def forPages (saddr : UInt32) (body : VMap → UInt32 → VMap) (vmap : VMap) : VMap :=
  let eaddr := saddr + e.mask + 1
  (List.range (eaddr.toNat - saddr.toNat)).foldl (fun vmap i =>
    let addr := saddr + .ofNat i
    if e.Matched addr then body vmap addr else vmap) vmap

/-- `saddr` of the loops over the even and the odd pages. -/
def saddr0 : UInt32 := e.vpn2 >>> 12

def saddr1 : UInt32 := (e.vpn2 >>> 12) + e.mask + 1

def Valid0 : Prop := e.entryLo0 &&& 0x2 ≠ 0

def Valid1 : Prop := e.entryLo1 &&& 0x2 ≠ 0

instance : Decidable e.Valid0 := instDecidableNot

instance : Decidable e.Valid1 := instDecidableNot

def mapPages (h : MapData) (saddr pfn : UInt32) : VMap → VMap :=
  e.forPages saddr fun vmap addr =>
    h.memSetPageAddr (addr <<< 12) (pfn + ((addr - saddr) <<< 12)) vmap

def unmapPages (h : MapData) (saddr : UInt32) : VMap → VMap :=
  e.forPages saddr fun vmap addr => h.memClearPageAddr (addr <<< 12) vmap

def mapTLB (h : MapData) (vmap : VMap) : VMap :=
  let vmap := if e.s ≠ 0 then MapData.vtlbVMapBuffer e.vpn2 h.scratch 0x4000 vmap else vmap
  if e.vpn2 = 0x70000000 then vmap
  else
    let vmap := if e.Valid0 then e.mapPages h e.saddr0 e.pfn0 vmap else vmap
    if e.Valid1 then e.mapPages h e.saddr1 e.pfn1 vmap else vmap

def unmapTLB (h : MapData) (vmap : VMap) : VMap :=
  if e.s ≠ 0 then h.vtlbVMapUnmap e.vpn2 0x4000 vmap
  else
    let vmap := if e.Valid0 then e.unmapPages h e.saddr0 vmap else vmap
    if e.Valid1 then e.unmapPages h e.saddr1 vmap else vmap

end Tlbs

/-- The registers of `cpuRegs.CP0.n` that TLB writes read. -/
structure CP0 where
  index : UInt32
  random : UInt32
  pageMask : UInt32
  entryHi : UInt32
  entryLo0 : UInt32
  entryLo1 : UInt32

/-- The entry that `WriteTLB` stores. -/
def CP0.writeTLB (r : CP0) : Tlbs :=
  let mask := (r.pageMask >>> 13) &&& 0xfff
  { pageMask := r.pageMask
    entryHi := r.entryHi
    entryLo0 := r.entryLo0
    entryLo1 := r.entryLo1
    mask := mask
    nMask := (~~~mask) &&& 0xfff
    vpn2 := ((r.entryHi >>> 13) &&& (~~~mask)) <<< 13
    asid := r.entryHi &&& 0xfff
    g := r.entryLo0 &&& r.entryLo1 &&& 0x1
    pfn0 := (((r.entryLo0 >>> 6) &&& 0xfffff) &&& (~~~mask)) <<< 12
    pfn1 := (((r.entryLo1 >>> 6) &&& 0xfffff) &&& (~~~mask)) <<< 12
    s := r.entryLo0 &&& 0x80000000 }

/-- An entry of the table in which one game caches its own mappings. -/
structure GoemonTlb where
  valid : UInt32
  lowAdd : UInt32
  highAdd : UInt32
  physicalAdd : UInt32

def MapData.goemonPreload (h : MapData) (vmap : VMap) (t : GoemonTlb) : VMap :=
  if t.valid = 1 ∧ t.lowAdd ≠ t.highAdd ∧ vmap (t.lowAdd >>> 12) = signBit then
    let size := t.highAdd - t.lowAdd
    h.vtlbVMap (0x20000000 ||| t.lowAdd) t.physicalAdd size
      (h.vtlbVMap t.lowAdd t.physicalAdd size vmap)
  else vmap

structure TlbState where
  vmap : VMap
  tlb : Fin 48 → Tlbs

namespace TlbState

variable (h : MapData)

/-- An entry of zeroes, as `cpuReset` leaves them. -/
def zeroed : Tlbs := ⟨0, 0, 0, 0, 0, 0, 0, 0, 0, 0, 0, 0⟩

def reset (vmap : VMap) : TlbState := ⟨h.memReset vmap, fun _ => zeroed⟩

/-- Entry `j` is replaced; `none` when it lies outside of `tlb[]`. -/
def write (j : UInt32) (r : CP0) (s : TlbState) : Option TlbState :=
  if hj : j.toNat < 48 then
    let e := r.writeTLB
    some ⟨e.mapTLB h ((s.tlb ⟨j.toNat, hj⟩).unmapTLB h s.vmap), Function.update s.tlb ⟨_, hj⟩ e⟩
  else none

def tlbWI (r : CP0) : TlbState → Option TlbState := write h (r.index &&& 0x3f) r

def tlbWR (r : CP0) : TlbState → Option TlbState := write h (r.random &&& 0x3f) r

/-- A savestate's entries replace all others and `PostLoadPrep` maps them. `goemon` is the game's
table in the loaded memory when the fix for that game is on. -/
def load (tlb : Fin 48 → Tlbs) (goemon : List GoemonTlb) (s : TlbState) : TlbState :=
  let vmap := (List.finRange 48).foldl (fun vmap i => (tlb i).mapTLB h vmap) s.vmap
  ⟨goemon.foldl h.goemonPreload vmap, tlb⟩

end TlbState

end OmegaRed.EE
