import OmegaRed.Lib.Words
import OmegaRed.Lib.RingFifo
import Mathlib.Data.List.Basic

/-! What the two SIF channels share: their queue, DMA tags, and the memories of both sides. -/

namespace OmegaRed.Sif

open Lib Lib.Memory Lib.Masks

def fifoSifW : Nat := 128

/-- The first word of a `tDMA_TAG`. -/
structure DmaTag where
  word : UInt32

namespace DmaTag

def qwc (t : DmaTag) : Nat := t.word.toNat % 2 ^ 16

def id (t : DmaTag) : Nat := t.word.toNat / 2 ^ 28 % 8

def irq (t : DmaTag) : Bool := t.word.toNat / 2 ^ 31 = 1

end DmaTag

def tagCNTS : Nat := 0

def tagREFE : Nat := 0

def tagCNT : Nat := 1

def tagNEXT : Nat := 2

def tagREF : Nat := 3

def tagREFS : Nat := 4

def tagEND : Nat := 7

def mainRam : Nat := 0x2000000

/-- Where the arrays of `EEVM_MemoryAllocMess` begin. -/
def scratch : Nat := mainRam

def rom : Nat := scratch + 0x4000

def zeroRead : Nat := rom + 0x400000 + 0x40000 + 0x80000 + 0x1c0000

def zeroWrite : Nat := zeroRead + 0x100000

/-- `dmaGetAddr`, as the number of the word in the EE's memory. -/
def dmaGetAddr (addr : UInt32) (write : Bool) : Option Nat :=
  if addr.toNat / 2 ^ 31 = 1 then some ((scratch + (addr.toNat &&& 0x3ff0)) / 4)
  else
    let addr := addr.toNat &&& 0x1ffffff0
    if addr < mainRam then some (addr / 4)
    else if addr < 0x10000000 then some ((if write then zeroWrite else zeroRead) / 4)
    else if addr < 0x10004000 then some ((scratch + (addr &&& 0x3ff0)) / 4)
    else none

/-- `iopPhysMem`, as an offset in the IOP's memory. -/
def iopPhysMem (addr : UInt32) : Nat := addr.toNat &&& 0x1fffff

theorem iopPhysMem_eq (addr : UInt32) : iopPhysMem addr = addr.toNat % 2 ^ 21 :=
  Nat.and_two_pow_sub_one_eq_mod addr.toNat 21

/-- `n` words from an offset on, in a memory that gives the word at an offset. -/
def iopWords (iopMem : Nat → UInt32) (offset n : Nat) : List UInt32 :=
  (List.range n).map fun i => iopMem (offset + 4 * i)

@[simp] theorem length_iopWords (iopMem : Nat → UInt32) (offset n : Nat) :
    (iopWords iopMem offset n).length = n := by
  simp [iopWords]

theorem iopWords_add (iopMem : Nat → UInt32) (offset n k : Nat) :
    iopWords iopMem offset (n + k) =
      iopWords iopMem offset n ++ iopWords iopMem (offset + 4 * n) k := by
  simp only [iopWords, List.range_add, List.map_append, List.map_map]
  congr 1
  apply List.map_congr_left
  intro i _
  simp only [Function.comp_apply, Nat.mul_add, Nat.add_assoc]

/-- `n` words from an address on lie in the IOP's memory. -/
def InIopMem (addr : UInt32) (n : Nat) : Prop := iopPhysMem addr + 4 * n ≤ 0x200000

theorem iopPhysMem_add {addr : UInt32} {n k : Nat} (h : InIopMem addr n) (hk : k < n) :
    iopPhysMem (addr + .ofNat (4 * k)) = iopPhysMem addr + 4 * k := by
  rw [InIopMem, iopPhysMem_eq] at h
  rw [iopPhysMem_eq, iopPhysMem_eq, UInt32.toNat_add, UInt32.toNat_ofNat']
  omega

theorem inIopMem_zero (addr : UInt32) : InIopMem addr 0 := by
  rw [InIopMem, iopPhysMem_eq]
  omega

theorem InIopMem.add {addr : UInt32} {n k : Nat} (h : InIopMem addr n) (hk : k ≤ n) :
    InIopMem (addr + .ofNat (4 * k)) (n - k) := by
  rcases Nat.lt_or_eq_of_le hk with hlt | rfl
  · rw [InIopMem, iopPhysMem_add h hlt]
    rw [InIopMem] at h
    omega
  · rw [Nat.sub_self]
    exact inIopMem_zero _

theorem InIopMem.iopWords_eq {addr : UInt32} {n k : Nat} (h : InIopMem addr n) (hk : k ≤ n)
    (iopMem : Nat → UInt32) :
    iopWords iopMem (iopPhysMem addr) n = iopWords iopMem (iopPhysMem addr) k ++
      iopWords iopMem (iopPhysMem (addr + .ofNat (4 * k))) (n - k) := by
  rcases Nat.lt_or_eq_of_le hk with hlt | rfl
  · rw [iopPhysMem_add h hlt, ← iopWords_add, Nat.add_sub_cancel' hk]
  · rw [Nat.sub_self]
    exact (List.append_nil _).symm

/-- `qwc` quadwords from an address on lie in the EE's main memory. -/
def InMain (addr : UInt32) (qwc : Nat) : Prop :=
  addr.toNat / 2 ^ 31 = 0 ∧ addr.toNat % 2 ^ 29 / 16 * 16 + 16 * qwc ≤ mainRam

/-- `qwc` quadwords from an address on lie in the scratchpad. -/
def InScratch (addr : UInt32) (qwc : Nat) : Prop :=
  addr.toNat / 2 ^ 31 = 1 ∧ addr.toNat % 2 ^ 14 / 16 * 16 + 16 * qwc ≤ 0x4000

/-- The quadwords from an address on lie one behind the other from word `base` on. -/
def Resolves (addr : UInt32) (qwc base : Nat) : Prop :=
  ∀ k < qwc, ∀ write, dmaGetAddr (addr + .ofNat (16 * k)) write = some (base + 4 * k)

/-- The word in the EE's memory where a block goes that lies in one region. -/
def destBase (addr : UInt32) : Nat :=
  if addr.toNat / 2 ^ 31 = 1 then (scratch + (addr.toNat &&& 0x3ff0)) / 4
  else (addr.toNat &&& 0x1ffffff0) / 4

theorem Resolves.base {addr : UInt32} {qwc base : Nat} (h : Resolves addr qwc base)
    (hqwc : 0 < qwc) (write : Bool) : dmaGetAddr addr write = some base := by
  have hzero := h 0 hqwc write
  rwa [show addr + .ofNat (16 * 0) = addr from UInt32.add_zero addr] at hzero

theorem Resolves.add {addr : UInt32} {qwc base : Nat} (h : Resolves addr qwc base) (k : Nat) :
    Resolves (addr + .ofNat (16 * k)) (qwc - k) (base + 4 * k) := by
  intro j hj write
  have hk := h (k + j) (by omega) write
  rwa [Nat.mul_add, UInt32.ofNat_add, ← UInt32.add_assoc, Nat.mul_add, ← Nat.add_assoc] at hk

theorem and_3ff0 (a : Nat) : a &&& 0x3ff0 = a / 16 % 1024 * 16 := and_field a 4 10

theorem and_1ffffff0 (a : Nat) : a &&& 0x1ffffff0 = a / 16 % 33554432 * 16 := and_field a 4 25

theorem InMain.resolves {addr : UInt32} {qwc : Nat} (h : InMain addr qwc) :
    Resolves addr qwc (destBase addr) := by
  obtain ⟨hspr, hfit⟩ := h
  rw [destBase, if_neg (by omega)]
  intro k hk write
  have hadd : (addr + .ofNat (16 * k)).toNat = addr.toNat + 16 * k := by
    rw [UInt32.toNat_add, UInt32.toNat_ofNat']
    simp only [mainRam] at hfit
    omega
  simp only [mainRam] at hfit
  rw [dmaGetAddr, hadd, if_neg (by omega)]
  simp only [and_1ffffff0, mainRam]
  rw [if_pos (by omega)]
  congr 1
  omega

theorem InScratch.resolves {addr : UInt32} {qwc : Nat} (h : InScratch addr qwc) :
    Resolves addr qwc (destBase addr) := by
  obtain ⟨hspr, hfit⟩ := h
  rw [destBase, if_pos hspr]
  intro k hk write
  have hlt := addr.toNat_lt
  have hadd : (addr + .ofNat (16 * k)).toNat = addr.toNat + 16 * k := by
    rw [UInt32.toNat_add, UInt32.toNat_ofNat']
    omega
  rw [dmaGetAddr, hadd, if_pos (by omega)]
  simp only [and_3ff0, scratch, mainRam]
  congr 1
  omega

end OmegaRed.Sif
