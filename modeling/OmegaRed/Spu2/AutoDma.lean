import OmegaRed.Spu2.Dma
import Mathlib.Data.Nat.Bitwise

/-! AutoDMA: the input buffers that the mixer plays while the next block is copied. -/

namespace OmegaRed.Spu2.Dma

/-- What `ReadInput` returns: a left and a right sample. -/
abbrev Sample := BitVec 16 × BitVec 16

/-- The left and right samples in the input buffers of a core. -/
def sampleAt (mem : Mem) (core : Fin 2) (pos : Nat) : Sample :=
  (mem (0x2000 + core * 0x400 + pos), mem (0x2200 + core * 0x400 + pos))

namespace State

variable (s : State) (core : Fin 2)

/-- `ReadInput` reads the buffers, unless the second core is bypassed. -/
def reads : Bool := core != 1 || !s.PlayMode.getLsbD 1

/-- The interrupt test of `ReadInput`. -/
def testInput : State :=
  let hit (c : Core) : Bool := c.IRQEnable &&
    0x2000 + .ofNat 32 (core * 0x400) + (s.Cores core).InputPosRead == c.IRQA &&& 0xfffffdff
  let irq := if hit (s.Cores 0) then setIrqCall s.irq 0 else s.irq
  { s with irq := if hit (s.Cores 1) then setIrqCall irq 1 else irq }

/-- `ReadInput` at the end of a half of the buffers, with whether the transfer is complete. -/
def boundary : State × Bool :=
  let s := s.setCore core { s.Cores core with AdmaInProgress := false }
  if 0x200 ≤ (s.Cores core).InputDataLeft then
    let s := s.autoDMAReadBuffer core
    let c := s.Cores core
    let c := { c with
      AdmaInProgress := true, TSA := .ofNat 32 (core * 0x400) + c.InputPosRead }
    if c.InputDataLeft < 0x200 then
      (s.setCore core { c with AutoDMACtrl := c.AutoDMACtrl ||| ~~~3, InputDataLeft := 0 }, true)
    else (s.setCore core c, false)
  else (s, false)

/-- `V_Core::ReadInput`, with the sample and whether `dma4callback` or `dma7callback` is called. -/
def readInput : State × Sample × Bool :=
  let c := s.Cores core
  let retval := if s.reads core then sampleAt s.spu2mem core c.InputPosRead.toNat else (0, 0)
  let s := if s.reads core then s.testInput core else s
  let pos := c.InputPosRead + 1
  let s := s.setCore core { c with InputPosRead := pos }
  let (s, called) :=
    if s.adma core && (pos == 0x100 || pos == 0x200) then s.boundary core else (s, false)
  (s.setCore core { s.Cores core with InputPosRead := (s.Cores core).InputPosRead &&& 0x1ff },
    retval, called)

/-- The interrupt delay counter of `TimeUpdate`, with whether the callback is called. -/
def countDown (TickInterval : BitVec 32) : State × Bool :=
  let c := s.Cores core
  if 0 < c.DMAICounter.toInt then
    let counter := c.DMAICounter - TickInterval
    if counter.toInt ≤ 0 then (s.setCore core { c with MADR := c.TADR, DMAICounter := 0 }, true)
    else
      (s.setCore core
        { c with DMAICounter := counter, MADR := c.MADR + TickInterval <<< 1 }, false)
  else (s, false)

end State

/-- A block of a transfer: 256 words for the left, and 256 for the right. -/
def block (pMem : Words) (off : Nat) : List Sample :=
  (List.range 256).map fun i => (pMem (off + i), pMem (off + 0x100 + i))

/-! The copies -/

section Copies

variable {s : State} {core : Fin 2} {p : Words}

theorem and_half (x : Nat) : x &&& 0x100 = x / 0x100 % 2 * 0x100 := by
  have h := Nat.and_two_pow x 8
  rw [Nat.testBit_eq_decide_div_mod_eq] at h
  refine h.trans (congrArg (· * 0x100) ?_)
  rcases Nat.mod_two_eq_zero_or_one (x / 2 ^ 8) with h0 | h1
  · rw [h0]
    exact h0.symm
  · rw [h1]
    exact h1.symm

/-- The free buffer is the half whose start comes next, which may be where the reader is. -/
theorem spos_eq {x : BitVec 32} (h : x.toNat ≤ 0x200) :
    State.spos x = (x.toNat + 0xff) / 0x100 % 2 * 0x100 := by
  have hff : (0xff : BitVec 32).toNat = 0xff := rfl
  have hhalf : (0x100 : BitVec 32).toNat = 0x100 := rfl
  rw [State.spos, BitVec.toNat_and, BitVec.toNat_add, hff, hhalf, and_half,
    Nat.mod_eq_of_lt (show x.toNat + 0xff < 2 ^ 32 by omega)]

namespace State

theorem readHalf_core (base : Nat) : (s.readHalf core base).Cores core =
    { s.Cores core with
      MADR := (s.Cores core).MADR + 0x200
      InputDataLeft := (s.Cores core).InputDataLeft - 0x100
      InputDataProgress := (s.Cores core).InputDataProgress + 0x100 } := setCore_self _

theorem readHalf_mem (hp : (s.Cores core).DMAPtr = some p) (base a : Nat) :
    (s.readHalf core base).spu2mem a = if base ≤ a ∧ a < base + 0x100 then
      p ((s.Cores core).InputDataProgress.toNat + (a - base)) else s.spu2mem a := by
  simp only [readHalf, hp]
  rfl

theorem readHalf_PlayMode (base : Nat) : (s.readHalf core base).PlayMode = s.PlayMode := by
  cases hp : (s.Cores core).DMAPtr with
  | none => simp only [readHalf, hp]; rfl
  | some p => simp only [readHalf, hp]; rfl

variable (s core) in
theorem autoDMAReadBuffer_core : ∃ MADR, (s.autoDMAReadBuffer core).Cores core =
    { s.Cores core with
      MADR := MADR
      InputDataLeft := (s.Cores core).InputDataLeft - 0x200
      InputDataProgress := (s.Cores core).InputDataProgress + 0x200 } := by
  refine ⟨(s.Cores core).MADR + 0x200 + 0x200, ?_⟩
  rw [autoDMAReadBuffer, readHalf_core, readHalf_core]
  have hleft (x : BitVec 32) : x - 0x100 - 0x100 = x - 0x200 := by rw [sub_sub]; rfl
  have hprogress (x : BitVec 32) : x + 0x100 + 0x100 = x + 0x200 := by rw [add_assoc]; rfl
  rw [hleft, hprogress]

theorem autoDMAReadBuffer_PlayMode : (s.autoDMAReadBuffer core).PlayMode = s.PlayMode := by
  rw [autoDMAReadBuffer, readHalf_PlayMode, readHalf_PlayMode]

variable (hp : (s.Cores core).DMAPtr = some p)
  (hprogress : (s.Cores core).InputDataProgress.toNat + 0x100 < 2 ^ 32)
  (hpos : (s.Cores core).InputPosRead.toNat ≤ 0x200)

include hp hprogress hpos

theorem sampleAt_autoDMAReadBuffer {i : Nat} (hi : i < 0x100) :
    sampleAt (s.autoDMAReadBuffer core).spu2mem core
        (((s.Cores core).InputPosRead.toNat + 0xff) / 0x100 % 2 * 0x100 + i) =
      (p ((s.Cores core).InputDataProgress.toNat + i),
        p ((s.Cores core).InputDataProgress.toNat + 0x100 + i)) := by
  have hoff : ((s.Cores core).InputDataProgress + 0x100).toNat =
      (s.Cores core).InputDataProgress.toNat + 0x100 := BitVec.toNat_add_of_lt hprogress
  have hlt : ((s.Cores core).InputPosRead.toNat + 0xff) / 0x100 % 2 < 2 := Nat.mod_lt _ (by decide)
  rw [sampleAt, autoDMAReadBuffer, spos_eq hpos]
  generalize ((s.Cores core).InputPosRead.toNat + 0xff) / 0x100 % 2 = h at hlt
  have hp' : ((s.readHalf core (0x2000 + core * 0x400 + h * 0x100)).Cores core).DMAPtr = some p := by
    rw [readHalf_core]
    exact hp
  rw [readHalf_mem hp', readHalf_mem hp', readHalf_mem hp, readHalf_mem hp, readHalf_core]
  simp only
  rw [hoff, if_neg (by omega), if_pos (by omega), if_pos (by omega)]
  congr 2
  · omega
  · omega

omit hprogress in
theorem sampleAt_autoDMAReadBuffer_of_ne {q : Nat} (hq : q < 0x200)
    (hne : q / 0x100 ≠ ((s.Cores core).InputPosRead.toNat + 0xff) / 0x100 % 2) :
    sampleAt (s.autoDMAReadBuffer core).spu2mem core q = sampleAt s.spu2mem core q := by
  have hlt : ((s.Cores core).InputPosRead.toNat + 0xff) / 0x100 % 2 < 2 := Nat.mod_lt _ (by decide)
  rw [sampleAt, autoDMAReadBuffer, spos_eq hpos]
  generalize ((s.Cores core).InputPosRead.toNat + 0xff) / 0x100 % 2 = h at hlt hne
  have hp' : ((s.readHalf core (0x2000 + core * 0x400 + h * 0x100)).Cores core).DMAPtr = some p := by
    rw [readHalf_core]
    exact hp
  rw [readHalf_mem hp', readHalf_mem hp', readHalf_mem hp, readHalf_mem hp, if_neg (by omega),
    if_neg (by omega), if_neg (by omega), if_neg (by omega)]
  rfl

end State

/-- The half whose start comes next. -/
def free (pos : Nat) : Nat := (pos + 0xff) / 0x100 % 2

/-- What playing depends on. -/
structure Buffers where
  spu2mem : Mem
  PlayMode : BitVec 32
  adma : Bool
  DMAPtr : Option Words
  InputDataLeft : BitVec 32
  InputDataProgress : BitVec 32
  InputPosRead : BitVec 32
  DMAICounter : BitVec 32

def Core.buffers (c : Core) (core : Fin 2) (spu2mem : Mem) (PlayMode : BitVec 32) : Buffers where
  spu2mem := spu2mem
  PlayMode := PlayMode
  adma := c.AutoDMACtrl.getLsbD core
  DMAPtr := c.DMAPtr
  InputDataLeft := c.InputDataLeft
  InputDataProgress := c.InputDataProgress
  InputPosRead := c.InputPosRead
  DMAICounter := c.DMAICounter

def State.buffers (s : State) (core : Fin 2) : Buffers :=
  (s.Cores core).buffers core s.spu2mem s.PlayMode

theorem State.buffers_setCore (c : Core) :
    (s.setCore core c).buffers core = c.buffers core s.spu2mem s.PlayMode :=
  congrArg (Core.buffers · core s.spu2mem s.PlayMode) (State.setCore_self c)

namespace Buffers

/-- The samples of a transfer that have not been copied yet. -/
def waiting (b : Buffers) : List Sample :=
  match b.DMAPtr with
  | some p => (List.range (b.InputDataLeft.toNat / 0x200)).flatMap fun k =>
      block p (b.InputDataProgress.toNat + 0x200 * k)
  | none => []

theorem waiting_of_left_eq_zero {b : Buffers} (h : b.InputDataLeft.toNat = 0) :
    b.waiting = [] := by
  rw [waiting, h]
  cases b.DMAPtr with
  | none => rfl
  | some p => rfl

/-- The transfer is in whole blocks, and its counters do not wrap. -/
structure Whole (b : Buffers) : Prop where
  blocks : b.InputDataLeft.toNat % 0x200 = 0
  fits : b.InputDataProgress.toNat + b.InputDataLeft.toNat < 2 ^ 31
  ptr : b.InputDataLeft ≠ 0 → b.DMAPtr.isSome

/-- The next block of the transfer is copied into the free half, and the other half is left
alone. -/
structure Loads (core : Fin 2) (b b' : Buffers) : Prop where
  whole : b'.Whole
  left : b'.InputDataLeft.toNat + 0x200 = b.InputDataLeft.toNat
  waiting : b.waiting = (List.range' (free b.InputPosRead.toNat * 0x100) 0x100).map
    (sampleAt b'.spu2mem core) ++ b'.waiting
  other : ∀ q < 0x200, q / 0x100 ≠ free b.InputPosRead.toNat →
    sampleAt b'.spu2mem core q = sampleAt b.spu2mem core q
  adma : b'.adma = b.adma
  PlayMode : b'.PlayMode = b.PlayMode
  pos : b'.InputPosRead = b.InputPosRead
  counter : b'.DMAICounter = b.DMAICounter

theorem Whole.load {b : Buffers} (h : b.Whole) (b' : Buffers) (hleft : 0x200 ≤ b.InputDataLeft.toNat)
    (hptr : b'.DMAPtr = b.DMAPtr) (hleft' : b'.InputDataLeft = b.InputDataLeft - 0x200)
    (hprogress : b'.InputDataProgress = b.InputDataProgress + 0x200) :
    b'.Whole ∧ b'.InputDataLeft.toNat + 0x200 = b.InputDataLeft.toNat ∧
      ∃ p, b.DMAPtr = some p ∧
        b.waiting = block p b.InputDataProgress.toNat ++ b'.waiting := by
  have hblocks := h.blocks
  have hfits := h.fits
  have hsub : b'.InputDataLeft.toNat = b.InputDataLeft.toNat - 0x200 := by
    rw [hleft']
    exact BitVec.toNat_sub_of_le (BitVec.le_def.mpr hleft)
  have hadd : b'.InputDataProgress.toNat = b.InputDataProgress.toNat + 0x200 := by
    rw [hprogress]
    exact BitVec.toNat_add_of_lt (show _ + 0x200 < 2 ^ 32 by omega)
  have hne : b.InputDataLeft ≠ 0 := by
    rintro heq
    rw [heq] at hleft
    exact absurd hleft (by decide)
  obtain ⟨p, hp⟩ := Option.isSome_iff_exists.mp (h.ptr hne)
  refine ⟨⟨by omega, by omega, fun _ => by rw [hptr, hp]; rfl⟩, by omega, p, hp, ?_⟩
  obtain ⟨k, hk⟩ : ∃ k, b.InputDataLeft.toNat / 0x200 = k + 1 :=
    ⟨b.InputDataLeft.toNat / 0x200 - 1, by omega⟩
  have hk' : b'.InputDataLeft.toNat / 0x200 = k := by omega
  rw [Buffers.waiting, Buffers.waiting, hptr, hp]
  simp only
  rw [hk, hk', hadd, List.range_succ_eq_map, List.flatMap_cons, List.flatMap_map]
  congr 1
  refine List.flatMap_congr fun j _ => congrArg (block p) ?_
  rw [Nat.mul_succ]
  omega

end Buffers

open Buffers

namespace State

variable (s core) in
theorem loads_autoDMAReadBuffer (h : (s.buffers core).Whole)
    (hleft : 0x200 ≤ (s.Cores core).InputDataLeft.toNat)
    (hpos : (s.Cores core).InputPosRead.toNat ≤ 0x200) :
    Loads core (s.buffers core) ((s.autoDMAReadBuffer core).buffers core) := by
  obtain ⟨MADR, hcore⟩ := autoDMAReadBuffer_core s core
  obtain ⟨hwhole, hleft', p, hp, hwaiting⟩ := h.load
    ((s.autoDMAReadBuffer core).buffers core) hleft
    (by rw [buffers, hcore]; rfl) (by rw [buffers, hcore]; rfl) (by rw [buffers, hcore]; rfl)
  have hfits : (s.Cores core).InputDataProgress.toNat + (s.Cores core).InputDataLeft.toNat <
      2 ^ 31 := h.fits
  refine ⟨hwhole, hleft', hwaiting.trans (congrArg (· ++ _) ?_), fun q hq hne =>
    sampleAt_autoDMAReadBuffer_of_ne hp hpos hq hne, ?_, autoDMAReadBuffer_PlayMode, ?_, ?_⟩
  · rw [block, List.range'_eq_map_range, List.map_map]
    refine List.map_congr_left fun i hi => ?_
    exact (sampleAt_autoDMAReadBuffer hp (by omega) hpos (List.mem_range.mp hi)).symm
  all_goals
    rw [buffers, hcore]
    rfl

theorem boundary_of_lt (h : (s.Cores core).InputDataLeft.toNat < 0x200) :
    s.boundary core = (s.setCore core { s.Cores core with AdmaInProgress := false }, false) := by
  have hlt : ¬ 0x200 ≤ (s.Cores core).InputDataLeft := by
    rw [BitVec.le_def]
    exact Nat.not_le.mpr h
  rw [boundary]
  simp only [setCore_self]
  exact if_neg hlt

theorem getLsbD_or_not_three (x : BitVec 16) : (x ||| ~~~3).getLsbD core = x.getLsbD core := by
  rcases Fin.exists_fin_two.mp ⟨core, rfl⟩ with rfl | rfl
  all_goals
    rw [BitVec.getLsbD_or]
    exact Bool.or_false _

variable (s core) in
theorem loads_boundary (h : (s.buffers core).Whole)
    (hleft : 0x200 ≤ (s.Cores core).InputDataLeft.toNat)
    (hpos : (s.Cores core).InputPosRead.toNat ≤ 0x200) :
    Loads core (s.buffers core) ((s.boundary core).1.buffers core) ∧
      ((s.boundary core).1.Cores core).AdmaInProgress = true ∧
      (s.boundary core).2 = decide (((s.boundary core).1.Cores core).InputDataLeft = 0) := by
  have hle : 0x200 ≤ (s.Cores core).InputDataLeft := by
    rw [BitVec.le_def]
    exact hleft
  have hload := loads_autoDMAReadBuffer (s.setCore core
    { s.Cores core with AdmaInProgress := false }) core
    (by rw [buffers_setCore]; exact h) (by rw [setCore_self]; exact hleft)
    (by rw [setCore_self]; exact hpos)
  rw [buffers_setCore] at hload
  rw [boundary]
  simp only [setCore_self]
  rw [if_pos hle]
  generalize (s.setCore core { s.Cores core with AdmaInProgress := false }).autoDMAReadBuffer core =
    s' at hload ⊢
  split
  · rename_i hlt
    have hzero : (s'.Cores core).InputDataLeft = 0 := by
      have hblocks : (s'.Cores core).InputDataLeft.toNat % 0x200 = 0 := hload.whole.blocks
      have hlt' : (s'.Cores core).InputDataLeft.toNat < 0x200 := by
        rw [BitVec.lt_def] at hlt
        exact hlt
      exact BitVec.eq_of_toNat_eq (by rw [← Nat.mod_eq_of_lt hlt', hblocks]; rfl)
    refine ⟨?_, by rw [setCore_self], by rw [setCore_self]; rfl⟩
    have hbuffers : (s'.setCore core
        { s'.Cores core with
          AdmaInProgress := true, TSA := .ofNat 32 (core * 0x400) + (s'.Cores core).InputPosRead
          AutoDMACtrl := (s'.Cores core).AutoDMACtrl ||| ~~~3, InputDataLeft := 0 }).buffers core =
        s'.buffers core := by
      rw [buffers_setCore, buffers, Core.buffers, Core.buffers, getLsbD_or_not_three, ← hzero]
    rw [hbuffers]
    exact hload
  · rename_i hge
    have hne : (s'.Cores core).InputDataLeft ≠ 0 := fun heq => hge (heq ▸ by decide)
    refine ⟨?_, by rw [setCore_self], by rw [setCore_self]; exact (decide_eq_false hne).symm⟩
    rw [buffers_setCore]
    exact hload

end State

namespace State

/-- `ReadInput` at its new position, before it looks for the end of a half. -/
def advanced (s : State) (core : Fin 2) : State :=
  (if s.reads core then s.testInput core else s).setCore core
    { s.Cores core with InputPosRead := (s.Cores core).InputPosRead + 1 }

theorem advanced_core : (s.advanced core).Cores core =
    { s.Cores core with InputPosRead := (s.Cores core).InputPosRead + 1 } := setCore_self _

theorem advanced_buffers : (s.advanced core).buffers core =
    { s.buffers core with InputPosRead := (s.Cores core).InputPosRead + 1 } := by
  rw [advanced, buffers_setCore]
  split
  · rfl
  · rfl

theorem advanced_adma : (s.advanced core).adma core = s.adma core := by
  rw [adma, advanced_core]
  rfl

/-- `InputPosRead &= 0x1ff` -/
def masked (s : State) (core : Fin 2) : State :=
  s.setCore core { s.Cores core with InputPosRead := (s.Cores core).InputPosRead &&& 0x1ff }

theorem masked_buffers : (s.masked core).buffers core =
    { s.buffers core with InputPosRead := (s.Cores core).InputPosRead &&& 0x1ff } :=
  buffers_setCore _

theorem masked_core : (s.masked core).Cores core =
    { s.Cores core with InputPosRead := (s.Cores core).InputPosRead &&& 0x1ff } :=
  setCore_self _

theorem toNat_and_0x1ff (x : BitVec 32) : (x &&& 0x1ff).toNat = x.toNat % 0x200 := by
  rw [BitVec.toNat_and]
  exact Nat.and_two_pow_sub_one_eq_mod x.toNat 9

variable (hadma : s.adma core = true) (hpos : (s.Cores core).InputPosRead.toNat < 0x200)

include hpos

theorem toNat_pos_succ : ((s.Cores core).InputPosRead + 1).toNat =
    (s.Cores core).InputPosRead.toNat + 1 :=
  BitVec.toNat_add_of_lt (show _ + 1 < 2 ^ 32 by omega)

include hadma

theorem readInput_eq : s.readInput core =
    (if (s.Cores core).InputPosRead.toNat % 0x100 = 0xff then
      (((s.advanced core).boundary core).1.masked core,
        if s.reads core then sampleAt s.spu2mem core (s.Cores core).InputPosRead.toNat else (0, 0),
        ((s.advanced core).boundary core).2)
    else ((s.advanced core).masked core,
      if s.reads core then sampleAt s.spu2mem core (s.Cores core).InputPosRead.toNat else (0, 0),
      false)) := by
  have hsucc := toNat_pos_succ hpos
  have hend : (((s.Cores core).InputPosRead + 1 == 0x100) ||
      ((s.Cores core).InputPosRead + 1 == 0x200)) =
        decide ((s.Cores core).InputPosRead.toNat % 0x100 = 0xff) := by
    rw [Bool.eq_iff_iff]
    simp only [Bool.or_eq_true, beq_iff_eq, decide_eq_true_eq, ← BitVec.toNat_inj, hsucc]
    change _ = 0x100 ∨ _ = 0x200 ↔ _
    omega
  have hadma' : (s.advanced core).adma core = true := advanced_adma.trans hadma
  rw [readInput]
  change (fun r : State × Bool => (r.1.masked core, _, r.2))
    (if (s.advanced core).adma core && _ then (s.advanced core).boundary core
      else (s.advanced core, false)) = _
  rw [hadma', hend, Bool.true_and]
  simp only [decide_eq_true_eq]
  by_cases hlast : (s.Cores core).InputPosRead.toNat % 0x100 = 0xff
  · simp only [if_pos hlast]
  · simp only [if_neg hlast]

end State

namespace Buffers

/-- What is left to be played of the half that is being read. -/
def current (b : Buffers) (core : Fin 2) (cur : Bool) : List Sample :=
  if cur then (List.range' b.InputPosRead.toNat (0x100 - b.InputPosRead.toNat % 0x100)).map
    (sampleAt b.spu2mem core)
  else []

/-- The other half. -/
def coming (b : Buffers) (core : Fin 2) (ahead : Bool) : List Sample :=
  if ahead then (List.range' (0x100 - b.InputPosRead.toNat / 0x100 * 0x100) 0x100).map
    (sampleAt b.spu2mem core)
  else []

variable {b b' : Buffers} {x : BitVec 32} (counter : BitVec 32)

theorem current_interior (hint : b.InputPosRead.toNat % 0x100 ≠ 0xff)
    (hx : x.toNat = b.InputPosRead.toNat + 1) (cur : Bool) :
    b.current core cur = (if cur then [sampleAt b.spu2mem core b.InputPosRead.toNat] else []) ++
      { b with InputPosRead := x, DMAICounter := counter }.current core cur := by
  cases cur with
  | false => rfl
  | true =>
    have hlen : 0x100 - b.InputPosRead.toNat % 0x100 = 0x100 - x.toNat % 0x100 + 1 := by omega
    rw [current, if_pos rfl, if_pos rfl, hlen, List.range'_succ, ← hx]
    rfl

theorem coming_interior (hint : b.InputPosRead.toNat % 0x100 ≠ 0xff)
    (hx : x.toNat = b.InputPosRead.toNat + 1) (ahead : Bool) :
    b.coming core ahead =
      { b with InputPosRead := x, DMAICounter := counter }.coming core ahead := by
  have hhalf : x.toNat / 0x100 = b.InputPosRead.toNat / 0x100 := by omega
  rw [coming, coming, hhalf]

variable (hpos : b.InputPosRead.toNat < 0x200) (hlast : b.InputPosRead.toNat % 0x100 = 0xff)
  (hx : x.toNat = (b.InputPosRead.toNat + 1) % 0x200)

include hlast

theorem current_last (cur : Bool) : b.current core cur =
    if cur then [sampleAt b.spu2mem core b.InputPosRead.toNat] else [] := by
  rw [current, hlast]
  rfl

include hpos hx

theorem coming_last (ahead : Bool) : b.coming core ahead =
    { b with InputPosRead := x, DMAICounter := counter }.current core ahead := by
  have hstart : 0x100 - b.InputPosRead.toNat / 0x100 * 0x100 = x.toNat := by omega
  have hlen : 0x100 - x.toNat % 0x100 = 0x100 := by omega
  rw [coming, current, hstart, hlen]

omit hpos in
theorem waiting_last {y : BitVec 32} (hy : y.toNat = b.InputPosRead.toNat + 1)
    (hload : Loads core { b with InputPosRead := y, DMAICounter := counter } b') :
    b.waiting = { b' with InputPosRead := x }.current core true ++
      { b' with InputPosRead := x }.waiting := by
  have hstart : free y.toNat * 0x100 = x.toNat := by
    rw [free]
    omega
  have hlen : 0x100 - x.toNat % 0x100 = 0x100 := by omega
  rw [current, if_pos rfl, hlen, ← hstart]
  exact hload.waiting

end Buffers

namespace State

variable (s core) in
theorem countDown_spec (TickInterval : BitVec 32) : ∃ counter,
    (s.countDown core TickInterval).1.buffers core =
        { s.buffers core with DMAICounter := counter } ∧
      ((s.countDown core TickInterval).1.Cores core).AdmaInProgress =
        (s.Cores core).AdmaInProgress ∧
      (if 0 < (s.Cores core).DMAICounter.toInt then 1 else 0) =
        (s.countDown core TickInterval).2.toNat + if 0 < counter.toInt then 1 else 0 := by
  rw [countDown]
  simp only
  split
  · split
    · refine ⟨0, buffers_setCore _, by rw [setCore_self], rfl⟩
    · rename_i hpos
      refine ⟨_, buffers_setCore _, by rw [setCore_self], ?_⟩
      rw [if_pos (Int.not_le.mp hpos)]
      rfl
  · rename_i hpos
    exact ⟨_, rfl, rfl, by rw [if_neg hpos]; rfl⟩

end State

namespace State

variable (hadma : s.adma core = true) (hpos : (s.Cores core).InputPosRead.toNat < 0x200)

include hadma hpos

theorem readInput_sample : (s.readInput core).2.1 =
    if s.reads core then sampleAt s.spu2mem core (s.Cores core).InputPosRead.toNat else (0, 0) := by
  rw [readInput_eq hadma hpos]
  split
  · rfl
  · rfl

theorem readInput_interior (hint : (s.Cores core).InputPosRead.toNat % 0x100 ≠ 0xff) :
    ∃ x : BitVec 32, x.toNat = (s.Cores core).InputPosRead.toNat + 1 ∧
      (s.readInput core).1.buffers core = { s.buffers core with InputPosRead := x } ∧
      ((s.readInput core).1.Cores core).AdmaInProgress = (s.Cores core).AdmaInProgress ∧
      (s.readInput core).2.2 = false := by
  rw [readInput_eq hadma hpos, if_neg hint]
  refine ⟨((s.Cores core).InputPosRead + 1) &&& 0x1ff, ?_, masked_buffers.trans ?_, ?_, rfl⟩
  · rw [toNat_and_0x1ff, toNat_pos_succ hpos]
    omega
  · rw [advanced_buffers, advanced_core]
  · rw [masked_core, advanced_core]

variable (hlast : (s.Cores core).InputPosRead.toNat % 0x100 = 0xff)

include hlast

theorem readInput_empty (hleft : (s.Cores core).InputDataLeft.toNat < 0x200) :
    ∃ x : BitVec 32, x.toNat = ((s.Cores core).InputPosRead.toNat + 1) % 0x200 ∧
      (s.readInput core).1.buffers core = { s.buffers core with InputPosRead := x } ∧
      (s.readInput core).2.2 = false := by
  rw [readInput_eq hadma hpos, if_pos hlast, boundary_of_lt (by rw [advanced_core]; exact hleft)]
  refine ⟨((s.Cores core).InputPosRead + 1) &&& 0x1ff, ?_, masked_buffers.trans ?_, rfl⟩
  · rw [toNat_and_0x1ff, toNat_pos_succ hpos]
  · rw [buffers_setCore, setCore_self, advanced_core]
    have hmem : (s.advanced core).spu2mem = s.spu2mem := congrArg (·.spu2mem) advanced_buffers
    have hmode : (s.advanced core).PlayMode = s.PlayMode := congrArg (·.PlayMode) advanced_buffers
    rw [hmem, hmode]
    rfl

theorem readInput_loads (h : (s.buffers core).Whole)
    (hleft : 0x200 ≤ (s.Cores core).InputDataLeft.toNat) :
    ∃ (x y : BitVec 32) (b : Buffers), x.toNat = ((s.Cores core).InputPosRead.toNat + 1) % 0x200 ∧
      y.toNat = (s.Cores core).InputPosRead.toNat + 1 ∧
      Loads core { s.buffers core with InputPosRead := y } b ∧
      (s.readInput core).1.buffers core = { b with InputPosRead := x } ∧
      ((s.readInput core).1.Cores core).AdmaInProgress = true ∧
      (s.readInput core).2.2 = decide (b.InputDataLeft = 0) := by
  have hsucc := toNat_pos_succ hpos
  obtain ⟨hload, hbusy, hcalled⟩ := loads_boundary (s.advanced core) core
    (by rw [advanced_buffers]; exact ⟨h.blocks, h.fits, h.ptr⟩)
    (by rw [advanced_core]; exact hleft)
    (by rw [advanced_core]; exact hsucc ▸ Nat.succ_le_of_lt hpos)
  rw [advanced_buffers] at hload
  rw [readInput_eq hadma hpos, if_pos hlast]
  refine ⟨((s.Cores core).InputPosRead + 1) &&& 0x1ff, _, _, ?_, hsucc, hload,
    masked_buffers.trans ?_, by rw [masked_core]; exact hbusy, hcalled⟩
  · rw [toNat_and_0x1ff, hsucc]
  · exact congrArg (fun y : BitVec 32 => { ((s.advanced core).boundary core).1.buffers core with
      InputPosRead := y &&& 0x1ff }) hload.pos

end State

namespace State

theorem and_not_511 {x : BitVec 32} (h : x.toNat % 0x200 = 0) : x &&& ~~~511 = x := by
  apply BitVec.eq_of_getLsbD_eq
  intro i hi
  rw [BitVec.getLsbD_and, BitVec.getLsbD_not, decide_eq_true hi, Bool.true_and]
  by_cases hlow : i < 9
  · have hbit : x.getLsbD i = false := by
      have hmod := Nat.testBit_mod_two_pow x.toNat 9 i
      rw [show x.toNat % 2 ^ 9 = 0 from h, Nat.zero_testBit, decide_eq_true hlow,
        Bool.true_and] at hmod
      exact hmod.symm
    rw [hbit, Bool.false_and]
  · have hbit : (511 : BitVec 32).getLsbD i = false :=
      Nat.testBit_lt_two_pow (Nat.lt_of_lt_of_le (by decide : 511 < 2 ^ 9)
        (Nat.pow_le_pow_right (by decide) (Nat.le_of_not_lt hlow)))
    rw [hbit, Bool.not_false, Bool.and_true]

/-- Where a transfer that finds the core idle begins to read. -/
def startPos (s : State) (core : Fin 2) : BitVec 32 :=
  if s.PlayMode.getLsbD 2 && core == 0 then 0 else (s.Cores core).InputPosRead

variable {size : BitVec 32}

variable (core size) in
theorem loads_firstBlock (h : (s.buffers core).Whole)
    (hleft : 0x200 ≤ (s.Cores core).InputDataLeft.toNat)
    (hread : (s.Cores core).InputPosRead.toNat < 0x200) :
    ∃ b, Loads core { s.buffers core with InputPosRead := s.startPos core } b ∧
      (s.firstBlock core size).buffers core =
        { b with DMAICounter := if size = 512 then size else b.DMAICounter } := by
  have hstart : (s.startPos core).toNat ≤ 0x200 := by
    rw [startPos]
    split
    · exact Nat.zero_le _
    · exact Nat.le_of_lt hread
  obtain ⟨s', hs', hcore⟩ : ∃ s' : State, (if s.PlayMode.getLsbD 2 && core == 0 then
      s.setCore core { s.Cores core with InputPosRead := 0 } else s) = s' ∧
        s'.buffers core = { s.buffers core with InputPosRead := s.startPos core } := by
    refine ⟨_, rfl, ?_⟩
    rw [startPos]
    split
    · exact buffers_setCore _
    · rfl
  have hload := loads_autoDMAReadBuffer s' core
    (by rw [hcore]; exact ⟨h.blocks, h.fits, h.ptr⟩)
    (by rw [show (s'.Cores core).InputDataLeft = _ from congrArg (·.InputDataLeft) hcore]
        exact hleft)
    (by rw [show (s'.Cores core).InputPosRead = _ from congrArg (·.InputPosRead) hcore]
        exact hstart)
  rw [hcore] at hload
  refine ⟨_, hload, ?_⟩
  rw [firstBlock]
  simp only
  rw [hs']
  split
  · exact buffers_setCore _
  · rfl

theorem startBlocks_busy (hbusy : (s.Cores core).AdmaInProgress = true) :
    (s.startBlocks core size).buffers core = { s.buffers core with InputDataLeft := size } := by
  rw [startBlocks]
  simp only [setCore_self, hbusy, if_true]
  rw [buffers_setCore]
  rfl

variable (size) in
theorem startBlocks_idle (hidle : (s.Cores core).AdmaInProgress = false)
    (h : ({ s.buffers core with InputDataLeft := size }).Whole) (hsize : 0x200 ≤ size.toNat)
    (hread : (s.Cores core).InputPosRead.toNat < 0x200) :
    ∃ b, Loads core
        { s.buffers core with InputDataLeft := size, InputPosRead := s.startPos core } b ∧
      (s.startBlocks core size).buffers core =
        { b with DMAICounter := if size = 512 then size else b.DMAICounter } := by
  have hbuffers : (s.setCore core { s.Cores core with InputDataLeft := size }).buffers core =
      { s.buffers core with InputDataLeft := size } := buffers_setCore _
  obtain ⟨b, hload, hb⟩ := loads_firstBlock core size
    (s := s.setCore core { s.Cores core with InputDataLeft := size }) (by rw [hbuffers]; exact h)
    (by rw [setCore_self]; exact hsize) (by rw [setCore_self]; exact hread)
  rw [hbuffers, startPos, setCore_self] at hload
  refine ⟨b, hload, ?_⟩
  rw [← hb, startBlocks]
  simp only [setCore_self, hidle, Bool.false_eq_true, if_false]
  exact buffers_setCore _

variable (hadma : s.adma core = true) (hblocks : size.toNat % 0x200 = 0)
  (hpos : 0x200 ≤ size.toNat) (hlt : size.toNat < 2 ^ 31)

include hadma hblocks hpos hlt

variable (s core size) in
theorem startADMAWrite_eq : (s.startADMAWrite core size).buffers core =
      ((s.setCore core { s.Cores core with InputDataProgress := 0 }).startBlocks core size).buffers
        core ∧
    ((s.startADMAWrite core size).Cores core).AdmaInProgress = true := by
  have hle : 512 ≤ size.toInt := by
    rw [BitVec.toInt_eq_toNat_of_lt (by omega)]
    omega
  have hadma' : (s.setCore core { s.Cores core with InputDataProgress := 0 }).adma core = true := by
    rw [adma, setCore_self]
    exact hadma
  rw [startADMAWrite, and_not_511 hblocks]
  simp only
  rw [if_neg (by rw [hadma']; decide), if_pos hle, buffers_setCore, setCore_self]
  exact ⟨rfl, by rw [startBlocks, setCore_self]⟩

variable (size) in
theorem doDMAwrite_adma (pMem : Words) : ∃ s₁ s' : State,
    s.doDMAwrite core pMem size = some s' ∧
      s₁.buffers core = { s.buffers core with DMAPtr := some pMem, InputDataProgress := 0 } ∧
      (s₁.Cores core).AdmaInProgress = (s.Cores core).AdmaInProgress ∧
      s'.buffers core = (s₁.startBlocks core size).buffers core ∧
      (s'.Cores core).AdmaInProgress = true := by
  have hsize : ¬ size < 2 := by
    have htwo : (2 : BitVec 32).toNat = 2 := rfl
    rw [BitVec.lt_def, htwo]
    omega
  obtain ⟨s₀, hs₀, hcore, hmem, hmode⟩ : ∃ s₀ : State, s.doDMAwrite core pMem size =
      some ((s₀.startADMAWrite core size).clearBusy core) ∧ (∃ TSA, s₀.Cores core =
        { s.Cores core with DMAPtr := some pMem, TSA := TSA }) ∧
          s₀.spu2mem = s.spu2mem ∧ s₀.PlayMode = s.PlayMode := by
    refine ⟨(((s.setCore core { s.Cores core with DMAPtr := some pMem }).setCore core
      { s.Cores core with DMAPtr := some pMem, TSA := (s.Cores core).TSA &&& 0xfffff })).setCore core
      { s.Cores core with
        DMAPtr := some pMem, TSA := ((s.Cores core).TSA &&& 0xfffff) &&& 0x1fff }, ?_, ?_, rfl, rfl⟩
    · have hon : ((s.setCore core { s.Cores core with DMAPtr := some pMem }).setCore core
          { s.Cores core with
            DMAPtr := some pMem, TSA := (s.Cores core).TSA &&& 0xfffff }).adma core = true := by
        rw [adma, setCore_self]
        exact hadma
      rw [doDMAwrite, if_neg hsize]
      simp only [setCore_self]
      rw [if_pos hon]
    · exact ⟨_, setCore_self _⟩
  obtain ⟨TSA, hcore⟩ := hcore
  obtain ⟨heq, hbusy⟩ := startADMAWrite_eq s₀ core size
    (by rw [adma, hcore]; exact hadma) hblocks hpos hlt
  refine ⟨s₀.setCore core { s₀.Cores core with InputDataProgress := 0 }, _, hs₀, ?_, ?_, ?_, ?_⟩
  · rw [buffers_setCore, hcore, hmem, hmode]
    rfl
  · rw [setCore_self, hcore]
  · rw [← heq, clearBusy, buffers_setCore]
    rfl
  · rw [clearBusy, setCore_self]
    exact hbusy

end State

end Copies

end OmegaRed.Spu2.Dma
