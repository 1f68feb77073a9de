import OmegaRed.Lib.RingFifo
import OmegaRed.Spu2.Mixer

/-! DMA between the IOP and the memory of the SPU2. -/

namespace OmegaRed.Spu2.Dma

open Lib

/-- The words at an address of the IOP. -/
abbrev Words := Nat → BitVec 16

/-- What the transfers use of a `V_Core`; `DMAPtr` is null after a savestate was loaded. -/
structure Core where
  IRQEnable : Bool
  IRQA : BitVec 32
  TSA : BitVec 32
  MADR : BitVec 32
  TADR : BitVec 32
  DMAPtr : Option Words
  AutoDMACtrl : BitVec 16
  AdmaInProgress : Bool
  DMAICounter : BitVec 32
  InputDataLeft : BitVec 32
  InputPosRead : BitVec 32
  InputDataProgress : BitVec 32
  STATX : BitVec 16

structure State where
  Cores : Fin 2 → Core
  spu2mem : Mem
  /-- `pcm_cache_data[i].Validated` -/
  Validated : Nat → Bool
  PlayMode : BitVec 32
  irq : Irq

/-- `V_Core::Init` -/
def Core.init : Core where
  IRQEnable := false
  IRQA := 0x800
  TSA := 0
  MADR := 0
  TADR := 0
  DMAPtr := none
  AutoDMACtrl := 0
  AdmaInProgress := false
  DMAICounter := 0
  InputDataLeft := 0
  InputPosRead := 0
  InputDataProgress := 0
  STATX := 0x80

/-- `SPU2reset` in a process that has just started. -/
def State.reset : State where
  Cores := fun _ => .init
  spu2mem := fun a => if 0x2800 ≤ a ∧ a < 0x2808 then 0x0707 else 0
  Validated := fun _ => false
  PlayMode := 0
  irq := ⟨0, false⟩

/-- The words a device requests: `size * 2` of `psxDmaGeneric`. -/
def requested (bcr : BitVec 32) : BitVec 32 := (bcr >>> 16) * (bcr &&& 0xFFFF) * 2

/-- The words of a `memcpy` of `n * 2` bytes. -/
def words (n : BitVec 32) : Nat := (n * 2).toNat / 2

/-- `memcpy` into the sound memory; `none` when it leaves the memory. -/
def memcpy (mem : Mem) (addr : BitVec 32) (src : Words) (n : BitVec 32) : Option Mem :=
  if addr.toNat + words n ≤ 0x100000 then
    some fun a => if addr.toNat ≤ a ∧ a < addr.toNat + words n then src (a - addr.toNat) else mem a
  else none

/-- `memcpy` out of the sound memory. -/
def memcpyFrom (dst : Words) (pos : Nat) (mem : Mem) (addr n : BitVec 32) : Option Words :=
  if addr.toNat + words n ≤ 0x100000 then
    some fun i => if pos ≤ i ∧ i < pos + words n then mem (addr.toNat + (i - pos)) else dst i
  else none

/-- The blocks `first` to `last` lose their decoded samples; the loop tests for `last` only after
a step, so that it runs off the array when it starts behind it. -/
def invalidate (Validated : Nat → Bool) (first last : Nat) : Option (Nat → Bool) :=
  if first < last ∧ last ≤ 0x100000 / pcm_WordsPerBlock then
    some fun i => if first ≤ i ∧ i < last then false else Validated i
  else none

/-- `buff1end` and `buff2end` -/
def split (TSA size : BitVec 32) : BitVec 32 × BitVec 32 :=
  if 0x100000 < TSA + size then (0x100000, TSA + size - 0x100000) else (TSA + size, 0)

namespace State

variable (s : State) (core : Fin 2)

def setCore (c : Core) : State := { s with Cores := Function.update s.Cores core c }

/-- `SetIrqCall` for the cores whose interrupt address is between `TSA` and `TDA`. -/
def testIrq (wraps : Bool) (TSA TDA : BitVec 32) : State :=
  let hit (c : Core) : Bool :=
    c.IRQEnable && if wraps then TSA < c.IRQA || c.IRQA ≤ TDA else TSA < c.IRQA && c.IRQA ≤ TDA
  let irq := if hit (s.Cores 0) then setIrqCall s.irq 0 else s.irq
  { s with irq := if hit (s.Cores 1) then setIrqCall irq 1 else irq }

/-- The end of a transfer. -/
def finish (TDA size : BitVec 32) : State :=
  s.setCore core
    { s.Cores core with
      TSA := TDA, DMAICounter := size, TADR := (s.Cores core).MADR + size <<< 1 }

/-- `V_Core::PlainDMAWrite` -/
def plainDMAWrite (pMem : Words) (size : BitVec 32) : Option State := do
  let TSA := (s.Cores core).TSA &&& 0xfffff
  let (buff1end, buff2end) := split TSA size
  let cacheIdxStart := TSA / 8
  let cacheIdxEnd := (buff1end + 7) / 8
  let Validated ← invalidate s.Validated cacheIdxStart.toNat cacheIdxEnd.toNat
  let buff1size := buff1end - TSA
  let mem ← memcpy s.spu2mem TSA pMem buff1size
  let s := { s with Validated := Validated, spu2mem := mem }
  if 0 < buff2end then
    let mem ← memcpy mem 0 (fun i => pMem (buff1size.toNat + i)) buff2end
    let TDA := (buff2end + 1) &&& 0xfffff
    some (({ s with spu2mem := mem }.testIrq true TSA TDA).finish core TDA size)
  else
    let TDA := (buff1end + 1) &&& 0xfffff
    some ((s.testIrq false TSA TDA).finish core TDA size)

/-- `Regs.STATX &= ~0x80` -/
def clearBusy : State :=
  s.setCore core { s.Cores core with STATX := (s.Cores core).STATX &&& ~~~0x80 }

/-- `V_Core::DoDMAread`, with the words that are in `pMem` afterwards. -/
def doDMAread (pMem : Words) (size : BitVec 32) : Option (State × Words) := do
  let TSA := (s.Cores core).TSA &&& 0xfffff
  let (buff1end, buff2end) := split TSA size
  let buff1size := buff1end - TSA
  let pMem ← memcpyFrom pMem 0 s.spu2mem TSA buff1size
  if 0 < buff2end then
    let pMem ← memcpyFrom pMem buff1size.toNat s.spu2mem 0 buff2end
    let TDA := (buff2end + 0x20) &&& 0xfffff
    some ((((s.testIrq true TSA TDA).finish core TDA size).clearBusy core), pMem)
  else
    let TDA := (buff1end + 0x20) &&& 0xfffff
    some ((((s.testIrq false TSA TDA).finish core TDA size).clearBusy core), pMem)

/-- A copy into the input buffers of a core, which are inside the memory. -/
def store (addr : Nat) (src : Words) (n : Nat) : State :=
  { s with spu2mem := fun a => if addr ≤ a ∧ a < addr + n then src (a - addr) else s.spu2mem a }

/-- Half a block of `AutoDMAReadBuffer` goes to `base`. -/
def readHalf (base : Nat) : State :=
  let c := s.Cores core
  let s :=
    match c.DMAPtr with
    | some p => s.store base (fun i => p (c.InputDataProgress.toNat + i)) 0x100
    | none => s
  s.setCore core
    { c with
      MADR := c.MADR + 0x200
      InputDataLeft := c.InputDataLeft - 0x100
      InputDataProgress := c.InputDataProgress + 0x100 }

/-- `spos`, the starting position of the free buffer. -/
def spos (InputPosRead : BitVec 32) : Nat := ((InputPosRead + 0xff) &&& 0x100).toNat

/-- `V_Core::AutoDMAReadBuffer` in mode 0, which splits the channels. -/
def autoDMAReadBuffer : State :=
  let spos := spos (s.Cores core).InputPosRead
  (s.readHalf core (0x2000 + core * 0x400 + spos)).readHalf core (0x2200 + core * 0x400 + spos)

/-- `AutoDMACtrl & (Index + 1)` -/
def adma : Bool := (s.Cores core).AutoDMACtrl.getLsbD core

/-- The first block of a transfer, when no other is in progress. -/
def firstBlock (size : BitVec 32) : State :=
  let s :=
    if s.PlayMode.getLsbD 2 && core == 0 then
      s.setCore core { s.Cores core with InputPosRead := 0 }
    else s
  let s := s.autoDMAReadBuffer core
  if size = 512 then s.setCore core { s.Cores core with DMAICounter := size } else s

/-- A transfer of at least a block. -/
def startBlocks (size : BitVec 32) : State :=
  let s := s.setCore core { s.Cores core with InputDataLeft := size }
  let s := if (s.Cores core).AdmaInProgress then s else s.firstBlock core size
  s.setCore core { s.Cores core with AdmaInProgress := true }

/-- `V_Core::StartADMAWrite` -/
def startADMAWrite (sz : BitVec 32) : State :=
  let size := sz &&& ~~~511
  let s := s.setCore core { s.Cores core with InputDataProgress := 0 }
  let s :=
    if s.adma core = false then
      s.setCore core
        { s.Cores core with TSA := 0x2000 + .ofNat 32 (core * 0x400), DMAICounter := size }
    else if 512 ≤ size.toInt then s.startBlocks core size
    else s.setCore core { s.Cores core with InputDataLeft := 0, DMAICounter := 1 }
  s.setCore core { s.Cores core with TADR := (s.Cores core).MADR + size <<< 1 }

/-- `V_Core::DoDMAwrite` -/
def doDMAwrite (pMem : Words) (size : BitVec 32) : Option State :=
  let s := s.setCore core { s.Cores core with DMAPtr := some pMem }
  if size < 2 then
    some ((s.clearBusy core).setCore core
      { (s.clearBusy core).Cores core with DMAICounter := 1 })
  else
    let TSA := (s.Cores core).TSA &&& 0xfffff
    let s := s.setCore core { s.Cores core with TSA := TSA }
    if s.adma core then
      let s := s.setCore core { s.Cores core with TSA := TSA &&& 0x1fff }
      some ((s.startADMAWrite core size).clearBusy core)
    else (s.plainDMAWrite core pMem size).map (·.clearBusy core)

end State

theorem toNat_and_mask (x : BitVec 32) : (x &&& 0xfffff).toNat = x.toNat % 0x100000 := by
  rw [BitVec.toNat_and]
  exact Nat.and_two_pow_sub_one_eq_mod x.toNat 20

theorem words_of_lt {n : BitVec 32} (h : n.toNat < 2 ^ 31) : words n = n.toNat := by
  rw [words, BitVec.toNat_mul, Nat.mod_eq_of_lt]
  all_goals simp
  omega

theorem split_toNat (TSA size : BitVec 32) (hlt : TSA.toNat + size.toNat < 2 ^ 32) :
    (split TSA size).1.toNat = min (TSA.toNat + size.toNat) 0x100000 ∧
      (split TSA size).2.toNat = TSA.toNat + size.toNat - 0x100000 := by
  have hadd : (TSA + size).toNat = TSA.toNat + size.toNat := BitVec.toNat_add_of_lt hlt
  rw [split]
  split
  · rename_i h
    rw [BitVec.lt_def, hadd] at h
    have hsub : (TSA + size - 0x100000).toNat = (TSA + size).toNat - 0x100000 :=
      BitVec.toNat_sub_of_le (BitVec.le_def.mpr (by rw [hadd]; exact Nat.le_of_lt h))
    rw [hsub, hadd]
    exact ⟨(Nat.min_eq_right (Nat.le_of_lt h)).symm, rfl⟩
  · rename_i h
    rw [BitVec.lt_def, hadd] at h
    have hle : TSA.toNat + size.toNat ≤ 0x100000 := Nat.le_of_not_lt h
    rw [hadd, Nat.min_eq_left hle]
    exact ⟨rfl, (Nat.sub_eq_zero_of_le hle).symm⟩

theorem split_TDA (TSA size : BitVec 32) (k : BitVec 32) :
    ((if 0 < (split TSA size).2 then (split TSA size).2 + k else (split TSA size).1 + k) &&&
      0xfffff).toNat = (TSA.toNat + size.toNat + k.toNat) % 0x100000 := by
  have hend : (0x100000 : BitVec 32).toNat = 0x100000 := rfl
  rw [toNat_and_mask, split]
  split
  · rename_i h
    have hlt : 0x100000 < (TSA + size).toNat := by rwa [BitVec.lt_def, hend] at h
    have hsub : (TSA + size - 0x100000).toNat = (TSA + size).toNat - 0x100000 :=
      BitVec.toNat_sub_of_le (BitVec.le_def.mpr (by rw [hend]; exact Nat.le_of_lt hlt))
    have hpos : 0 < TSA + size - 0x100000 := by
      rw [BitVec.lt_def, hsub]
      exact Nat.sub_pos_of_lt hlt
    rw [if_pos hpos, BitVec.toNat_add, hsub, BitVec.toNat_add]
    rw [BitVec.toNat_add] at hlt
    omega
  · rw [if_neg (by simp), BitVec.toNat_add, BitVec.toNat_add]
    omega

namespace State

variable {s s' : State} {core : Fin 2} {pMem : Words} {size : BitVec 32}

@[simp] theorem setCore_self (c : Core) : (s.setCore core c).Cores core = c :=
  Function.update_self ..

@[simp] theorem finish_TSA (TDA : BitVec 32) :
    ((s.finish core TDA size).Cores core).TSA = TDA := by
  rw [finish, setCore_self]

/-- The start of a transfer, as a position of the ring of words. -/
abbrev start (s : State) (core : Fin 2) : Nat := (s.Cores core).TSA.toNat % 0x100000

theorem plainDMAWrite_TSA (h : s.plainDMAWrite core pMem size = some s') :
    (s'.Cores core).TSA.toNat = (s.start core + size.toNat + 1) % 0x100000 := by
  have hTDA := split_TDA ((s.Cores core).TSA &&& 0xfffff) size 1
  rw [toNat_and_mask (s.Cores core).TSA] at hTDA
  simp only [plainDMAWrite, Option.bind_eq_bind, Option.bind_eq_some_iff] at h
  obtain ⟨Validated, -, mem, -, h⟩ := h
  split at h
  · rename_i hpos
    rw [if_pos hpos] at hTDA
    obtain ⟨mem', -, h⟩ := Option.bind_eq_some_iff.mp h
    cases h
    rw [finish_TSA]
    exact hTDA
  · rename_i hpos
    rw [if_neg hpos] at hTDA
    cases h
    rw [finish_TSA]
    exact hTDA

variable (s core pMem size) in
theorem doDMAwrite_of_lt (h : size < 2) : ∃ s', s.doDMAwrite core pMem size = some s' ∧
    s'.spu2mem = s.spu2mem ∧ (s'.Cores core).TSA = (s.Cores core).TSA := by
  rw [doDMAwrite, if_pos h]
  exact ⟨_, rfl, rfl, by simp [clearBusy]⟩

variable (pMem) in
/-- A plain write of at least a word pair is `plainDMAWrite` from the masked address. -/
theorem doDMAwrite_eq (hplain : s.adma core = false) (hsize : 2 ≤ size.toNat) :
    ∃ s₀ : State, s₀.start core = s.start core ∧ s₀.spu2mem = s.spu2mem ∧
      s₀.Validated = s.Validated ∧
      s.doDMAwrite core pMem size = (s₀.plainDMAWrite core pMem size).map (·.clearBusy core) := by
  refine ⟨(s.setCore core { s.Cores core with DMAPtr := some pMem }).setCore core
      { s.Cores core with DMAPtr := some pMem, TSA := (s.Cores core).TSA &&& 0xfffff },
    ?_, rfl, rfl, ?_⟩
  · rw [start, setCore_self, toNat_and_mask]
    exact Nat.mod_mod _ _
  · have hlt : ¬ size < 2 := fun h => Nat.not_lt.mpr hsize (BitVec.lt_def.mp h)
    have hadma : (((s.setCore core { s.Cores core with DMAPtr := some pMem }).setCore core
        { s.Cores core with
          DMAPtr := some pMem, TSA := (s.Cores core).TSA &&& 0xfffff }).adma core) = false := by
      rw [adma, setCore_self]
      exact hplain
    rw [doDMAwrite, if_neg hlt]
    simp only [setCore_self]
    rw [if_neg (by rw [hadma]; decide)]

@[simp] theorem clearBusy_TSA : ((s.clearBusy core).Cores core).TSA = (s.Cores core).TSA := by
  rw [clearBusy, setCore_self]

theorem doDMAread_stored (hsize : size.toNat ≤ 0x100000) (mem : Mem)
    (hmem : s.spu2mem = Cyclic.fill 0x100000 mem (s.start core) pMem size.toNat) (dst : Words) :
    ∃ s' buf, s.doDMAread core dst size = some (s', buf) ∧ ∀ i < size.toNat, buf i = pMem i := by
  have hTSA : ((s.Cores core).TSA &&& 0xfffff).toNat = s.start core := toNat_and_mask _
  have hlt : s.start core < 0x100000 := Nat.mod_lt _ (by decide)
  have hread (i : Nat) (hi : i < size.toNat) :
      s.spu2mem ((s.start core + i) % 0x100000) = pMem i := by
    rw [hmem]
    exact Cyclic.fill_of_lt mem pMem hi hsize
  obtain ⟨hend1, hend2⟩ := split_toNat ((s.Cores core).TSA &&& 0xfffff) size
    (by rw [hTSA]; omega)
  rw [hTSA] at hend1 hend2
  simp only [doDMAread, Option.bind_eq_bind]
  generalize split ((s.Cores core).TSA &&& 0xfffff) size = ends at hend1 hend2 ⊢
  generalize (s.Cores core).TSA &&& 0xfffff = TSA at hTSA ⊢
  have hsize1 : (ends.1 - TSA).toNat = min (s.start core + size.toNat) 0x100000 - s.start core := by
    rw [BitVec.toNat_sub_of_le (BitVec.le_def.mpr (by rw [hend1, hTSA]; omega)), hend1, hTSA]
  have hwords1 : words (ends.1 - TSA) = (ends.1 - TSA).toNat := words_of_lt (by rw [hsize1]; omega)
  have hwords2 : words ends.2 = ends.2.toNat := words_of_lt (by rw [hend2]; omega)
  rw [memcpyFrom, if_pos (by rw [hTSA, hwords1, hsize1]; omega), Option.bind_some, hwords1, hTSA]
  split
  · rename_i hwrap
    have hzero : (0 : BitVec 32).toNat = 0 := rfl
    rw [memcpyFrom, if_pos (by rw [hzero, hwords2, hend2]; omega), Option.bind_some, hwords2, hzero]
    refine ⟨_, _, rfl, fun i hi => ?_⟩
    rw [← hread i hi]
    by_cases hfirst : i < (ends.1 - TSA).toNat
    · rw [if_neg (by omega), if_pos (by omega), Nat.mod_eq_of_lt (by omega)]
      rfl
    · rw [if_pos (by omega), Nat.mod_eq_sub_mod (by omega), Nat.mod_eq_of_lt (by omega)]
      exact congrArg s.spu2mem (by omega)
  · rename_i hwrap
    have hzero : ends.2.toNat = 0 := Nat.eq_zero_of_not_pos fun hpos => hwrap (BitVec.lt_def.mpr hpos)
    refine ⟨_, _, rfl, fun i hi => ?_⟩
    rw [← hread i hi, if_pos (by omega), Nat.mod_eq_of_lt (by omega)]
    rfl

/-- What is asked of a write of `size` words of `pMem` that leaves `s'`. -/
structure Copies (s : State) (core : Fin 2) (pMem : Words) (size : BitVec 32) (s' : State) :
    Prop where
  stored : s'.spu2mem = Cyclic.fill 0x100000 s.spu2mem (s.start core) pMem size.toNat
  invalidated : ∀ i < size.toNat, SPU2_DYN_MEMLINE ≤ (s.start core + i) % 0x100000 →
    s'.Validated ((s.start core + i) % 0x100000 / pcm_WordsPerBlock) = false
  contiguous : s'.start core = (s.start core + size.toNat) % 0x100000
  readBack : ∀ dst, ∃ s'' buf,
    (s'.setCore core { s'.Cores core with TSA := (s.Cores core).TSA }).doDMAread core dst size =
      some (s'', buf) ∧ ∀ i < size.toNat, buf i = pMem i

theorem requested_even (bcr : BitVec 32) : (requested bcr).toNat % 2 = 0 := by
  have htwo : (2 : BitVec 32).toNat = 2 := rfl
  rw [requested, BitVec.toNat_mul, htwo, Nat.mod_mod_of_dvd _ (by decide : 2 ∣ 2 ^ 32),
    Nat.mul_mod_left]

variable (s core pMem size) in
/-- The address that a write leaves is one word off, so the next write is not contiguous. -/
theorem not_copies (hplain : s.adma core = false) (hsize : 2 ≤ size.toNat) :
    ¬ ∃ s', s.doDMAwrite core pMem size = some s' ∧ s.Copies core pMem size s' := by
  rintro ⟨s', hs', hcopies⟩
  obtain ⟨s₀, hstart, -, -, heq⟩ := doDMAwrite_eq pMem hplain hsize
  rw [heq] at hs'
  obtain ⟨s₁, hs₁, rfl⟩ := Option.map_eq_some_iff.mp hs'
  have hTSA := plainDMAWrite_TSA hs₁
  have hcontiguous := hcopies.contiguous
  rw [start, clearBusy_TSA, hTSA, hstart] at hcontiguous
  omega

/-- Only an empty transfer is a copy that leaves its address behind the last word. -/
theorem transfer_copies_iff (hplain : s.adma core = false) (bcr : BitVec 32) :
    (∃ s', s.doDMAwrite core pMem (requested bcr) = some s' ∧
      s.Copies core pMem (requested bcr) s') ↔ requested bcr = 0 := by
  constructor
  · intro hcopies
    by_contra hne
    have heven := requested_even bcr
    have hpos : (requested bcr).toNat ≠ 0 := fun h => hne (BitVec.eq_of_toNat_eq h)
    exact not_copies _ _ _ _ hplain (by omega) hcopies
  · intro hzero
    rw [hzero]
    have hnone : (0 : BitVec 32).toNat = 0 := rfl
    obtain ⟨s', hs', hmem, hTSA⟩ := doDMAwrite_of_lt s core pMem 0 (by decide)
    refine ⟨s', hs', hmem, fun i hi => absurd hi (by rw [hnone]; exact Nat.not_lt_zero i), ?_,
      fun dst => ?_⟩
    · rw [start, hTSA, hnone]
      exact (Nat.mod_mod _ _).symm
    · exact doDMAread_stored (by rw [hnone]; exact Nat.zero_le _) _ rfl dst

theorem transfer_copies_iff_empty :
    ∃ s', reset.doDMAwrite 0 (fun _ => 1) (requested 0) = some s' ∧
      reset.Copies 0 (fun _ => 1) (requested 0) s' :=
  (transfer_copies_iff (s := reset) rfl 0).mpr rfl

theorem not_transfer_copies : ¬ ∀ (s : State) (core : Fin 2) (pMem : Words) (bcr : BitVec 32),
    s.adma core = false → ∃ s', s.doDMAwrite core pMem (requested bcr) = some s' ∧
      s.Copies core pMem (requested bcr) s' :=
  fun h => not_copies reset 0 (fun _ => 1) (requested 0x10001) rfl
    (by decide) (h reset 0 (fun _ => 1) 0x10001 rfl)

end State

end OmegaRed.Spu2.Dma
