import OmegaRed.Lib.Memory
import Mathlib

/-! The data cache of the EE: 64 sets of two lines of 64 bytes, over the host's memory. -/

namespace OmegaRed.EE

open Lib.Memory

instance neZero_ways : NeZero 2 := ⟨two_ne_zero⟩

def dirtyFlag : UInt32 := 0x40
def validFlag : UInt32 := 0x20
def lrfFlag : UInt32 := 0x10

/-- `_cacheS`; a line's bytes are in memory order. -/
structure CacheS where
  tag : Fin 2 → UInt32
  data : Fin 2 → Nat → UInt8

structure Machine where
  pCache : Nat → CacheS
  mem : Nat → UInt8

/-- `vtlbdata.vmap` -/
abbrev VMap := UInt32 → UInt32

namespace VMap

/-- `ppf`, a host address when its sign bit is clear. -/
def ppf (vmap : VMap) (mem : UInt32) : UInt32 := mem + vmap (mem >>> 12)

def hand (vmap : VMap) (mem : UInt32) : UInt32 := vmap (mem >>> 12) &&& 0xff

def paddr (vmap : VMap) (mem : UInt32) : UInt32 := vmap.ppf mem - vmap.hand mem + 0x80000000

end VMap

def index (mem : UInt32) : Nat := (mem >>> 6 &&& 0x3f).toNat

/-- The address that `getFreeCache` rebuilds from the tag of a dirty line. -/
def oldppf (tag mem : UInt32) : UInt32 := (tag &&& ~~~0x80000fff) + (mem &&& 0xfc0)

def IsHit (tag paddr : UInt32) : Prop :=
  tag &&& ~~~0xfff = paddr &&& ~~~0xfff ∧ tag &&& validFlag ≠ 0

instance (tag paddr : UInt32) : Decidable (IsHit tag paddr) := instDecidableAnd

/-- The tag of a line that has been filled. -/
def filledTag (tag paddr : UInt32) : UInt32 :=
  let tag := ((tag ||| validFlag) &&& 0xfff) ||| (paddr &&& ~~~0xfff)
  if tag &&& lrfFlag ≠ 0 then tag &&& ~~~lrfFlag else tag ||| lrfFlag

namespace Machine

/-- A line's tag and bytes are replaced. -/
def setLine (s : Machine) (i : Nat) (way : Fin 2) (tag : UInt32) (data : Nat → UInt8) : Machine :=
  let c := s.pCache i
  let c : CacheS := ⟨Function.update c.tag way tag, Function.update c.data way data⟩
  { s with pCache := Function.update s.pCache i c }

/-- The dirty write of `getFreeCache`. -/
def writeBack (s : Machine) (mem : UInt32) (number : Fin 2) : Machine :=
  let i := index mem
  let tag := (s.pCache i).tag number
  let data := (s.pCache i).data number
  if tag &&& (dirtyFlag ||| validFlag) = dirtyFlag ||| validFlag then
    { s with mem := store s.mem (oldppf tag mem).toNat (load data 0 64) }.setLine i number
      (tag &&& ~~~dirtyFlag) data
  else s

/-- The fill of `getFreeCache`. -/
def fill (vmap : VMap) (s : Machine) (mem : UInt32) (number : Fin 2) : Machine :=
  let i := index mem
  let ppf := vmap.ppf mem &&& ~~~0x3f
  s.setLine i number (filledTag ((s.pCache i).tag number) (vmap.paddr mem))
    fun k => s.mem (ppf.toNat + k)

/-- The way that is replaced. -/
def victim (s : Machine) (mem : UInt32) : Fin 2 :=
  let c := s.pCache (index mem)
  .ofNat 2 (((c.tag 0 &&& lrfFlag) ^^^ (c.tag 1 &&& lrfFlag)) >>> 4).toNat

/-- `getFreeCache`, with the way it stores. -/
def getFreeCache (vmap : VMap) (s : Machine) (mem : UInt32) : Machine × Fin 2 :=
  let c := s.pCache (index mem)
  if IsHit (c.tag 0) (vmap.paddr mem) then (s, 0)
  else if IsHit (c.tag 1) (vmap.paddr mem) then (s, 1)
  else
    let number := s.victim mem
    ((s.writeBack mem number).fill vmap mem number, number)

/-- Where element `(mem & 0xf) >> k` of quadword `(mem >> 4) & 3` stands in a line, with elements
of `2 ^ k` bytes. -/
def place (k : Nat) (mem : UInt32) : Nat :=
  16 * (mem >>> 4 &&& 3).toNat + 2 ^ k * ((mem &&& 0xf).toNat >>> k)

/-- The writes differ in their elements only. -/
def writeCache (k : Nat) (vmap : VMap) (s : Machine) (mem : UInt32) (value : List UInt8) :
    Machine :=
  let (s, number) := s.getFreeCache vmap mem
  let i := index mem
  let c := s.pCache i
  s.setLine i number (c.tag number ||| dirtyFlag) (store (c.data number) (place k mem) value)

def writeCache8 (vmap : VMap) (s : Machine) (mem : UInt32) (value : Vector UInt8 1) : Machine :=
  s.writeCache 0 vmap mem value.toList

def writeCache16 (vmap : VMap) (s : Machine) (mem : UInt32) (value : Vector UInt8 2) : Machine :=
  s.writeCache 1 vmap mem value.toList

def writeCache32 (vmap : VMap) (s : Machine) (mem : UInt32) (value : Vector UInt8 4) : Machine :=
  s.writeCache 2 vmap mem value.toList

def writeCache64 (vmap : VMap) (s : Machine) (mem : UInt32) (value : Vector UInt8 8) : Machine :=
  s.writeCache 3 vmap mem value.toList

/-- `writeCache128` writes two elements of 64 bits. -/
def writeCache128 (vmap : VMap) (s : Machine) (mem : UInt32) (lo hi : Vector UInt8 8) : Machine :=
  let (s, number) := s.getFreeCache vmap mem
  let i := index mem
  let c := s.pCache i
  let quad := 16 * (mem >>> 4 &&& 3).toNat
  s.setLine i number (c.tag number ||| dirtyFlag)
    (store (store (c.data number) quad lo.toList) (quad + 8) hi.toList)

/-- The reads differ in their elements only. -/
def readCache (k : Nat) (vmap : VMap) (s : Machine) (mem : UInt32) : Machine × List UInt8 :=
  let (s, number) := s.getFreeCache vmap mem
  (s, load ((s.pCache (index mem)).data number) (place k mem) (2 ^ k))

def readCache8 (vmap : VMap) (s : Machine) (mem : UInt32) := s.readCache 0 vmap mem

def readCache16 (vmap : VMap) (s : Machine) (mem : UInt32) := s.readCache 1 vmap mem

def readCache32 (vmap : VMap) (s : Machine) (mem : UInt32) := s.readCache 2 vmap mem

def readCache64 (vmap : VMap) (s : Machine) (mem : UInt32) := s.readCache 3 vmap mem

/-- What `vtlb_memRead128` does: there is no `readCache128`. -/
def memRead128 (vmap : VMap) (s : Machine) (mem : UInt32) : Machine × List UInt8 :=
  let (s, lo) := s.readCache64 vmap mem
  let (s, hi) := s.readCache64 vmap (mem + 8)
  (s, lo ++ hi)

end Machine

inductive Access
  | read8 (mem : UInt32)
  | read16 (mem : UInt32)
  | read32 (mem : UInt32)
  | read64 (mem : UInt32)
  | read128 (mem : UInt32)
  | write8 (mem : UInt32) (value : Vector UInt8 1)
  | write16 (mem : UInt32) (value : Vector UInt8 2)
  | write32 (mem : UInt32) (value : Vector UInt8 4)
  | write64 (mem : UInt32) (value : Vector UInt8 8)
  | write128 (mem : UInt32) (lo hi : Vector UInt8 8)

namespace Access

def mem : Access → UInt32
  | read8 mem | read16 mem | read32 mem | read64 mem | read128 mem => mem
  | write8 mem _ | write16 mem _ | write32 mem _ | write64 mem _ | write128 mem _ _ => mem

/-- The number of bytes. -/
def size : Access → Nat
  | read8 _ | write8 _ _ => 1
  | read16 _ | write16 _ _ => 2
  | read32 _ | write32 _ _ => 4
  | read64 _ | write64 _ _ => 8
  | read128 _ | write128 _ _ _ => 16

/-- The bytes of a written value. -/
def value : Access → Option (List UInt8)
  | read8 _ | read16 _ | read32 _ | read64 _ | read128 _ => none
  | write8 _ value => some value.toList
  | write16 _ value => some value.toList
  | write32 _ value => some value.toList
  | write64 _ value => some value.toList
  | write128 _ lo hi => some (lo.toList ++ hi.toList)

/-- The cache's side of an access: what it reads. -/
def exec (vmap : VMap) (s : Machine) : Access → Machine × List UInt8
  | read8 mem => s.readCache8 vmap mem
  | read16 mem => s.readCache16 vmap mem
  | read32 mem => s.readCache32 vmap mem
  | read64 mem => s.readCache64 vmap mem
  | read128 mem => s.memRead128 vmap mem
  | write8 mem value => (s.writeCache8 vmap mem value, [])
  | write16 mem value => (s.writeCache16 vmap mem value, [])
  | write32 mem value => (s.writeCache32 vmap mem value, [])
  | write64 mem value => (s.writeCache64 vmap mem value, [])
  | write128 mem lo hi => (s.writeCache128 vmap mem lo hi, [])

/-- What the callers see to: the address is aligned, and its page is a page of the host. -/
structure Cacheable (vmap : VMap) (a : Access) : Prop where
  aligned : a.size ∣ a.mem.toNat
  page : 4096 ∣ (vmap (a.mem >>> 12)).toNat
  host : (vmap.ppf a.mem).toNat < 2 ^ 31

/-- The access without a cache. -/
def flat (vmap : VMap) (m : Nat → UInt8) (a : Access) : (Nat → UInt8) × List UInt8 :=
  let ppf := (vmap.ppf a.mem).toNat
  match a.value with
  | none => (m, load m ppf a.size)
  | some value => (store m ppf value, [])

end Access

/-- All accesses in order, and what each reads. -/
def run (vmap : VMap) (s : Machine) : List Access → Machine × List (List UInt8)
  | [] => (s, [])
  | a :: as =>
    let (s, value) := a.exec vmap s
    let (s, values) := run vmap s as
    (s, value :: values)

def runFlat (vmap : VMap) (m : Nat → UInt8) : List Access → (Nat → UInt8) × List (List UInt8)
  | [] => (m, [])
  | a :: as =>
    let (m, value) := a.flat vmap m
    let (m, values) := runFlat vmap m as
    (m, value :: values)

end OmegaRed.EE
