import OmegaRed.Lib.Traces
import OmegaRed.Spu2.AutoDma

/-! What AutoDMA plays, over any run of transfers and ticks of the mixer. -/

namespace OmegaRed.Spu2.Dma

open Lib

/-- What happens to a core that plays by AutoDMA: the device writes `n` blocks of 512 words, the
mixer takes a tick, or something else is stored in the memory. -/
inductive Event where
  | write (pMem : Words) (n : Nat)
  | tick (TickInterval : BitVec 32)
  | store (addr : Nat) (value : BitVec 16)

/-- A core, with what has been submitted and returned since the first block boundary, and whether
the half being played (`cur`) and the other half (`ahead`) hold a block not yet played. -/
structure World where
  state : State
  submitted : List (List Sample) := []
  returned : List Sample := []
  started : Bool := false
  cur : Bool := false
  ahead : Bool := false
  writes : Nat := 0
  callbacks : Nat := 0

namespace World

variable (core : Fin 2) (w : World)

abbrev core' : Core := w.state.Cores core

/-- `InputPosRead` -/
abbrev pos : Nat := (w.core' core).InputPosRead.toNat

/-- At the start of a half, once a block has been submitted. -/
def starts : Bool := w.started || (decide (0 < w.writes) && w.pos core % 0x100 == 0)

/-- The tick copies a block into the half that comes next. -/
def loads : Bool := decide (0x200 ≤ (w.core' core).InputDataLeft)

def write (pMem : Words) (n : Nat) (s : State) : World :=
  let idle := !(w.core' core).AdmaInProgress
  let aligned := (s.Cores core).InputPosRead.toNat % 0x100 == 0
  { w with
    state := s
    submitted := w.submitted ++ (List.range n).map fun k => block pMem (0x200 * k)
    cur := w.cur || (idle && aligned)
    ahead := w.ahead || (idle && !aligned)
    writes := w.writes + 1 }

def tick (TickInterval : BitVec 32) : World :=
  let (s, counted) := w.state.countDown core TickInterval
  let (s, sample, called) := s.readInput core
  let last := w.pos core % 0x100 == 0xff
  { w with
    state := s
    started := w.starts core
    returned := if w.starts core then w.returned ++ [sample] else w.returned
    cur := if last then w.loads core || w.ahead else w.cur
    ahead := !last && w.ahead
    callbacks := w.callbacks + counted.toNat + called.toNat }

def step : Event → Option World
  | .write pMem n => (w.state.doDMAwrite core pMem (.ofNat 32 (0x200 * n))).map (w.write core pMem n)
  | .tick TickInterval => some (w.tick core TickInterval)
  | .store addr value =>
    some { w with state := { w.state with spu2mem := Function.update w.state.spu2mem addr value } }

/-- The events of the setting: a transfer of some blocks is written when the previous one has
completed, and nothing else writes to the input buffers. -/
def Offered : Event → Prop
  | .write _ n => 0 < n ∧ w.callbacks = w.writes
  | .tick _ => True
  | .store addr _ => addr < 0x2000 + core * 0x400 ∨ 0x2400 + core * 0x400 ≤ addr

/-- The step neither copies over a block that has not been played nor plays a half without one. -/
def Admits : Event → Prop
  | .write _ n => 0x200 * n < 2 ^ 31 ∧ ((w.core' core).AdmaInProgress = false →
      (w.pos core % 0x100 = 0 ∨ core = 0 ∧ w.state.PlayMode.getLsbD 2 = true) → w.cur = false)
  | .tick _ => w.state.reads core = true ∧
      (0 < w.writes → w.pos core % 0x100 = 0 → w.cur = true) ∧
      (w.pos core % 0x100 = 0xff → w.ahead = true → w.loads core = false)
  | .store _ _ => True

/-- The claim about AutoDMA: blocks are played once and in order, every transfer completes once,
and `InputDataLeft` does not wrap. -/
structure Plays : Prop where
  order : w.returned <+: w.submitted.flatten
  once : w.writes = w.callbacks + (if (w.core' core).InputDataLeft = 0 then 0 else 1) +
    if 0 < (w.core' core).DMAICounter.toInt then 1 else 0
  left : (w.core' core).InputDataLeft.toNat < 2 ^ 31

end World

namespace World

open Buffers

/-- What holds between the events of a run. -/
structure Inv (core : Fin 2) (w : World) : Prop where
  adma : w.state.adma core = true
  pos_lt : w.pos core < 0x200
  whole : (w.state.buffers core).Whole
  queue : w.returned ++ ((w.state.buffers core).current core w.cur ++
    ((w.state.buffers core).coming core w.ahead ++ (w.state.buffers core).waiting)) =
      w.submitted.flatten
  once : w.writes = w.callbacks + (if (w.core' core).InputDataLeft = 0 then 0 else 1) +
    if 0 < (w.core' core).DMAICounter.toInt then 1 else 0
  busy : (w.core' core).InputDataLeft ≠ 0 ∨ w.ahead = true → (w.core' core).AdmaInProgress = true
  begun : w.started = true → 0 < w.writes
  gap : w.started = true → w.cur = false → w.pos core % 0x100 = 0
  fresh : w.started = false → w.returned = [] ∧ (w.cur = true → w.pos core % 0x100 = 0)
  first : w.writes = 0 → w.cur = false ∧ w.ahead = false ∧ (w.core' core).InputDataLeft = 0

variable {core : Fin 2} {w : World}

theorem Inv.plays (h : Inv core w) : w.Plays core where
  order := ⟨_, h.queue⟩
  once := h.once
  left := Nat.lt_of_le_of_lt (Nat.le_add_left ..) h.whole.fits

theorem Inv.starts_eq_cur (h : Inv core w) {TickInterval : BitVec 32} (hadmits : w.Admits core (.tick TickInterval)) :
    w.starts core = w.cur := by
  obtain ⟨-, hcur, -⟩ := hadmits
  cases hstarted : w.started with
  | true =>
    rw [starts, hstarted, Bool.true_or, eq_comm]
    by_contra hc
    rw [Bool.not_eq_true] at hc
    exact absurd (hcur (h.begun hstarted) (h.gap hstarted hc)) (by rw [hc]; decide)
  | false =>
    rw [starts, hstarted, Bool.false_or, Bool.eq_iff_iff, Bool.and_eq_true, decide_eq_true_eq,
      beq_iff_eq]
    refine ⟨fun hs => hcur hs.1 hs.2, fun hc => ⟨?_, (h.fresh hstarted).2 hc⟩⟩
    by_contra hzero
    rw [(h.first (Nat.eq_zero_of_not_pos hzero)).1] at hc
    exact absurd hc (by decide)

/-- What a tick does to what is played: the queue moves up by the sample that is returned. -/
structure Ticked (core : Fin 2) (w w' : World) : Prop where
  adma : (w'.state.buffers core).adma = true
  pos : w'.pos core = (w.pos core + 1) % 0x200
  whole : (w'.state.buffers core).Whole
  queue : (w.state.buffers core).current core w.cur ++
      ((w.state.buffers core).coming core w.ahead ++ (w.state.buffers core).waiting) =
    (if w.cur then [sampleAt w.state.spu2mem core (w.pos core)] else []) ++
      ((w'.state.buffers core).current core w'.cur ++
        ((w'.state.buffers core).coming core w'.ahead ++ (w'.state.buffers core).waiting))
  once : w.callbacks + (if (w.core' core).InputDataLeft = 0 then 0 else 1) +
      (if 0 < (w.core' core).DMAICounter.toInt then 1 else 0) =
    w'.callbacks + (if (w'.core' core).InputDataLeft = 0 then 0 else 1) +
      if 0 < (w'.core' core).DMAICounter.toInt then 1 else 0
  none : (w.core' core).InputDataLeft = 0 → (w'.core' core).InputDataLeft = 0
  busy : (w'.core' core).InputDataLeft ≠ 0 ∨ w'.ahead = true →
    (w'.core' core).AdmaInProgress = true

variable {TickInterval : BitVec 32}

theorem Inv.ticked (h : Inv core w) (hadmits : w.Admits core (.tick TickInterval)) :
    Ticked core w (w.tick core TickInterval) := by
  obtain ⟨counter, hbuffers, hbusy, hcount⟩ := State.countDown_spec w.state core
    TickInterval
  have hpos := h.pos_lt
  have hwhole := h.whole
  have hstate : (w.tick core TickInterval).state =
      ((w.state.countDown core TickInterval).1.readInput core).1 := rfl
  have hcallbacks : (w.tick core TickInterval).callbacks =
      w.callbacks + (w.state.countDown core TickInterval).2.toNat +
        ((w.state.countDown core TickInterval).1.readInput core).2.2.toNat := rfl
  have hcur : (w.tick core TickInterval).cur =
      if w.pos core % 0x100 == 0xff then w.loads core || w.ahead else w.cur := rfl
  have hahead : (w.tick core TickInterval).ahead =
      (!(w.pos core % 0x100 == 0xff) && w.ahead) := rfl
  generalize w.tick core TickInterval = w' at hstate hcallbacks hcur hahead ⊢
  generalize w.state.countDown core TickInterval = r at hbuffers hbusy hcount hstate hcallbacks
  obtain ⟨s, counted⟩ := r
  replace hcount : (if 0 < (w.core' core).DMAICounter.toInt then 1 else 0) =
    counted.toNat + if 0 < counter.toInt then 1 else 0 := hcount
  simp only at hbuffers hbusy hstate hcallbacks
  have hpos' : (s.Cores core).InputPosRead = (w.core' core).InputPosRead :=
    congrArg (·.InputPosRead) hbuffers
  have hleft' : (s.Cores core).InputDataLeft = (w.core' core).InputDataLeft :=
    congrArg (·.InputDataLeft) hbuffers
  have hadma : s.adma core = true := (congrArg (·.adma) hbuffers).trans h.adma
  by_cases hlast : w.pos core % 0x100 = 0xff
  · have htrue : (w.pos core % 0x100 == 0xff) = true := by simpa using hlast
    rw [htrue, if_pos rfl] at hcur
    rw [htrue, Bool.not_true, Bool.false_and] at hahead
    by_cases hleft : 0x200 ≤ (w.core' core).InputDataLeft.toNat
    · -- the next block is copied, and the half that it goes to held none
      have hloads : w.loads core = true := by
        rw [loads, decide_eq_true_eq, BitVec.le_def]
        exact hleft
      have hnone : w.ahead = false := by
        by_contra ha
        rw [Bool.not_eq_false] at ha
        rw [hadmits.2.2 hlast ha] at hloads
        exact absurd hloads (by decide)
      obtain ⟨x, y, b, hx, hy, hload, hs, hkept, hcalled⟩ := State.readInput_loads hadma
        (by rw [hpos']; exact hpos) (by rw [hpos']; exact hlast)
        (by rw [hbuffers]; exact ⟨hwhole.blocks, hwhole.fits, hwhole.ptr⟩)
        (by rw [hleft']; exact hleft)
      replace hx : x.toNat = (w.pos core + 1) % 0x200 := hx.trans (by rw [hpos'])
      replace hy : y.toNat = w.pos core + 1 := hy.trans (by rw [hpos'])
      rw [hbuffers] at hload
      rw [← hstate] at hs hkept
      have hne : (w.core' core).InputDataLeft ≠ 0 := by
        rintro heq
        rw [heq] at hleft
        exact absurd hleft (by decide)
      have hleft₂ : (w'.core' core).InputDataLeft = b.InputDataLeft :=
        congrArg (·.InputDataLeft) hs
      have hcounter : (w'.core' core).DMAICounter = counter :=
        (congrArg (·.DMAICounter) hs).trans hload.counter
      have hpos₂ : (w'.core' core).InputPosRead = x := congrArg (·.InputPosRead) hs
      refine ⟨?_, ?_, ?_, ?_, ?_, fun heq => absurd heq hne, fun _ => hkept⟩
      · rw [hs]
        exact hload.adma.trans h.adma
      · rw [pos, hpos₂, hx]
      · rw [hs]
        exact ⟨hload.whole.blocks, hload.whole.fits, hload.whole.ptr⟩
      · have hwaiting : (w.state.buffers core).waiting = _ := waiting_last counter hlast hx hy hload
        rw [hs, hcur, hahead, hloads, hnone, Bool.true_or, current_last hlast w.cur, hwaiting]
        rfl
      · rw [hcallbacks, hcalled, hleft₂, hcounter, if_neg hne]
        by_cases hzero : b.InputDataLeft = 0
        · rw [if_pos hzero, decide_eq_true hzero, Bool.toNat_true]
          omega
        · rw [if_neg hzero, decide_eq_false hzero, Bool.toNat_false]
          omega
    · -- nothing is left to be copied
      have hloads : w.loads core = false := by
        rw [loads, decide_eq_false_iff_not, BitVec.le_def]
        exact hleft
      have hzero : (w.core' core).InputDataLeft.toNat = 0 := by
        have hblocks : (w.core' core).InputDataLeft.toNat % 0x200 = 0 := hwhole.blocks
        omega
      obtain ⟨x, hx, hs, hcalled⟩ := State.readInput_empty hadma (by rw [hpos']; exact hpos)
        (by rw [hpos']; exact hlast) (by rw [hleft']; exact Nat.lt_of_not_le hleft)
      replace hx : x.toNat = (w.pos core + 1) % 0x200 := hx.trans (by rw [hpos'])
      rw [hbuffers, ← hstate] at hs
      have hleft₂ : (w'.core' core).InputDataLeft = (w.core' core).InputDataLeft :=
        congrArg (·.InputDataLeft) hs
      have hzero₂ : (w'.core' core).InputDataLeft = 0 :=
        hleft₂.trans (BitVec.eq_of_toNat_eq hzero)
      have hcounter : (w'.core' core).DMAICounter = counter := congrArg (·.DMAICounter) hs
      have hpos₂ : (w'.core' core).InputPosRead = x := congrArg (·.InputPosRead) hs
      refine ⟨?_, ?_, ?_, ?_, ?_, fun _ => hzero₂, ?_⟩
      · rw [hs]
        exact h.adma
      · rw [pos, hpos₂, hx]
      · rw [hs]
        exact ⟨hwhole.blocks, hwhole.fits, hwhole.ptr⟩
      · have hwaiting : (w.state.buffers core).waiting = [] := waiting_of_left_eq_zero hzero
        have hwaiting₂ : (w'.state.buffers core).waiting = [] :=
          waiting_of_left_eq_zero (by rw [← hzero, ← hleft₂]; rfl)
        rw [hwaiting, hwaiting₂, hs, hcur, hahead, hloads, Bool.false_or, current_last hlast w.cur,
          coming_last counter hpos hlast hx w.ahead]
        rfl
      · rw [hcallbacks, hcalled, hleft₂, hcounter, Bool.toNat_false]
        omega
      · rw [hzero₂, hahead]
        rintro (hne | hne)
        · exact absurd rfl hne
        · exact absurd hne (by decide)
  · obtain ⟨x, hx, hs, hkept, hcalled⟩ := State.readInput_interior hadma (by rw [hpos']; exact hpos)
      (by rw [hpos']; exact hlast)
    replace hx : x.toNat = w.pos core + 1 := hx.trans (by rw [hpos'])
    rw [hbuffers, ← hstate] at hs
    rw [← hstate] at hkept
    have hfalse : (w.pos core % 0x100 == 0xff) = false := by simpa using hlast
    rw [hfalse, if_neg (by decide)] at hcur
    rw [hfalse, Bool.not_false, Bool.true_and] at hahead
    have hleft : (w'.core' core).InputDataLeft = (w.core' core).InputDataLeft :=
      congrArg (·.InputDataLeft) hs
    have hcounter : (w'.core' core).DMAICounter = counter := congrArg (·.DMAICounter) hs
    have hpos₂ : (w'.core' core).InputPosRead = x := congrArg (·.InputPosRead) hs
    refine ⟨?_, ?_, ?_, ?_, ?_, ?_, ?_⟩
    · rw [hs]
      exact h.adma
    · rw [pos, hpos₂, hx]
      exact (Nat.mod_eq_of_lt (by omega)).symm
    · rw [hs]
      exact ⟨hwhole.blocks, hwhole.fits, hwhole.ptr⟩
    · rw [hs, hcur, hahead, current_interior counter hlast hx w.cur,
        coming_interior counter hlast hx w.ahead, List.append_assoc]
      rfl
    · rw [hcallbacks, hcalled, hleft, hcounter]
      simp only [Bool.toNat_false]
      omega
    · rw [hleft]
      exact id
    · rw [hleft, hahead]
      exact fun hb => (hkept.trans hbusy).trans (h.busy hb)

theorem Inv.tick (h : Inv core w) (hadmits : w.Admits core (.tick TickInterval)) :
    Inv core (w.tick core TickInterval) := by
  have ht := h.ticked hadmits
  have hstarts := h.starts_eq_cur hadmits
  have hstarted : (w.tick core TickInterval).started = w.cur := hstarts
  have hwrites : (w.tick core TickInterval).writes = w.writes := rfl
  have hcur : (w.tick core TickInterval).cur =
      if w.pos core % 0x100 == 0xff then w.loads core || w.ahead else w.cur := rfl
  have hahead : (w.tick core TickInterval).ahead =
      (!(w.pos core % 0x100 == 0xff) && w.ahead) := rfl
  have hreturned : (w.tick core TickInterval).returned =
      w.returned ++ if w.cur then [sampleAt w.state.spu2mem core (w.pos core)] else [] := by
    obtain ⟨counter, hbuffers, -⟩ := State.countDown_spec w.state core TickInterval
    have hpos : ((w.state.countDown core TickInterval).1.Cores core).InputPosRead =
      (w.core' core).InputPosRead := congrArg (·.InputPosRead) hbuffers
    have hmem : (w.state.countDown core TickInterval).1.spu2mem = w.state.spu2mem :=
      congrArg (·.spu2mem) hbuffers
    have hmode : (w.state.countDown core TickInterval).1.PlayMode = w.state.PlayMode :=
      congrArg (·.PlayMode) hbuffers
    have hreads : (w.state.countDown core TickInterval).1.reads core = true := by
      rw [State.reads, hmode]
      exact hadmits.1
    have hsample := State.readInput_sample ((congrArg (·.adma) hbuffers).trans h.adma)
      (by rw [hpos]; exact h.pos_lt)
    rw [if_pos hreads, hmem, hpos] at hsample
    have hform : (w.tick core TickInterval).returned = if w.starts core then
      w.returned ++ [((w.state.countDown core TickInterval).1.readInput core).2.1]
      else w.returned := rfl
    rw [hform, hsample, hstarts]
    split
    · rfl
    · exact (List.append_nil _).symm
  have hboundary (hc : (w.tick core TickInterval).cur ≠ w.cur) :
      (w.tick core TickInterval).pos core % 0x100 = 0 := by
    have hpos := ht.pos
    rw [hcur] at hc
    split at hc
    · rename_i hlast
      rw [beq_iff_eq] at hlast
      omega
    · exact absurd rfl hc
  refine ⟨ht.adma, by rw [ht.pos]; exact Nat.mod_lt _ (by decide), ht.whole, ?_, ?_, ht.busy,
    fun hs => ?_, fun hs hc => ?_, fun hs => ?_, fun hw => ?_⟩
  · rw [hreturned, List.append_assoc, ← ht.queue]
    exact h.queue
  · rw [hwrites, h.once]
    exact ht.once
  · rw [hstarted, ← hstarts, starts, Bool.or_eq_true, Bool.and_eq_true, decide_eq_true_eq] at hs
    exact hs.elim h.begun (·.1)
  · exact hboundary (by rw [hc, ← hstarted, hs]; decide)
  · rw [hstarted] at hs
    refine ⟨?_, fun hc => hboundary (by rw [hc, hs]; decide)⟩
    have hnot : w.started = false := by
      rw [← hstarts, starts, Bool.or_eq_false_iff] at hs
      exact hs.1
    rw [hreturned, hs, (h.fresh hnot).1]
    rfl
  · obtain ⟨hc, ha, hl⟩ := h.first hw
    refine ⟨?_, by rw [hahead, ha, Bool.and_false], ht.none hl⟩
    have hloads : w.loads core = false := by
      rw [loads, hl]
      rfl
    rw [hcur, hloads, ha, hc]
    split
    · rfl
    · rfl

theorem waiting_start {b : Buffers} {pMem : Words} {n : Nat} (hptr : b.DMAPtr = some pMem)
    (hprogress : b.InputDataProgress = 0) (hleft : b.InputDataLeft.toNat = 0x200 * n) :
    b.waiting = ((List.range n).map fun k => block pMem (0x200 * k)).flatten := by
  rw [waiting, hptr, hprogress, hleft, Nat.mul_div_cancel_left n (by decide : 0 < 0x200)]
  simp only
  rw [List.flatMap_def]
  refine congrArg List.flatten (List.map_congr_left fun k _ => congrArg (block pMem) ?_)
  exact Nat.zero_add _

/-- A write of some blocks when nothing is left of the previous one. -/
structure Submits (core : Fin 2) (pMem : Words) (n : Nat) (w w' : World) : Prop where
  some : 0 < n
  fits : 0x200 * n < 2 ^ 31
  called : w.callbacks = w.writes
  done : (w.core' core).InputDataLeft = 0
  quiet : ¬ 0 < (w.core' core).DMAICounter.toInt
  submitted : w'.submitted.flatten =
    w.submitted.flatten ++ ((List.range n).map fun k => block pMem (0x200 * k)).flatten
  returned : w'.returned = w.returned
  started : w'.started = w.started
  writes : w'.writes = w.writes + 1
  callbacks : w'.callbacks = w.callbacks
  busy : (w'.core' core).AdmaInProgress = true

namespace Submits

variable {pMem : Words} {n : Nat} {w' : World} (hw : Submits core pMem n w w')

include hw

theorem size : (BitVec.ofNat 32 (0x200 * n)).toNat = 0x200 * n := by
  have hfits := hw.fits
  rw [BitVec.toNat_ofNat, Nat.mod_eq_of_lt (by omega)]

theorem queue (h : Inv core w) : w.returned ++ ((w.state.buffers core).current core w.cur ++
    (w.state.buffers core).coming core w.ahead) = w.submitted.flatten := by
  have hqueue := h.queue
  rwa [waiting_of_left_eq_zero (congrArg BitVec.toNat hw.done), List.append_nil] at hqueue

theorem inv_of (hadma : w'.state.adma core = true) (hpos : w'.pos core < 0x200)
    (hwhole : (w'.state.buffers core).Whole)
    (hqueue : w'.returned ++ ((w'.state.buffers core).current core w'.cur ++
      ((w'.state.buffers core).coming core w'.ahead ++ (w'.state.buffers core).waiting)) =
        w'.submitted.flatten)
    (honce : (if (w'.core' core).InputDataLeft = 0 then 0 else 1) +
      (if 0 < (w'.core' core).DMAICounter.toInt then 1 else 0) = 1)
    (hgap : w.started = true → w'.cur = false → w'.pos core % 0x100 = 0)
    (hfresh : w.started = false → w.returned = [] ∧ (w'.cur = true → w'.pos core % 0x100 = 0)) :
    Inv core w' where
  adma := hadma
  pos_lt := hpos
  whole := hwhole
  queue := hqueue
  once := by rw [hw.writes, hw.callbacks, hw.called, Nat.add_assoc, honce]
  busy := fun _ => hw.busy
  begun := fun _ => hw.writes ▸ Nat.succ_pos _
  gap := hw.started ▸ hgap
  fresh := hw.started ▸ hw.returned ▸ hfresh
  first := fun hzero => absurd (hw.writes.symm.trans hzero) (Nat.succ_ne_zero _)

theorem inv_busy (h : Inv core w)
    (heq : w'.state.buffers core = { w.state.buffers core with
      DMAPtr := Option.some pMem, InputDataProgress := 0, InputDataLeft := .ofNat 32 (0x200 * n) })
    (hcur : w'.cur = w.cur) (hahead : w'.ahead = w.ahead) : Inv core w' := by
  have hsome := hw.some
  have hfits := hw.fits
  have hleft : (w'.core' core).InputDataLeft.toNat = 0x200 * n :=
    (congrArg (·.InputDataLeft.toNat) heq).trans hw.size
  have hne : (w'.core' core).InputDataLeft ≠ 0 := by
    intro hzero
    rw [hzero] at hleft
    change 0 = 0x200 * n at hleft
    omega
  have hcounter : (w'.core' core).DMAICounter = (w.core' core).DMAICounter :=
    congrArg (·.DMAICounter) heq
  have hpos : w'.pos core = w.pos core := congrArg (·.InputPosRead.toNat) heq
  refine hw.inv_of ((congrArg (·.adma) heq).trans h.adma) (hpos ▸ h.pos_lt)
    ⟨hleft ▸ Nat.mul_mod_right .., ?_, fun _ => by rw [heq]; rfl⟩ ?_ ?_ ?_ ?_
  · have hprogress : (w'.state.buffers core).InputDataProgress = 0 :=
      congrArg (·.InputDataProgress) heq
    rw [hprogress]
    change 0 + (w'.core' core).InputDataLeft.toNat < 2 ^ 31
    omega
  · have hnew := waiting_start (n := n) (congrArg (·.DMAPtr) heq)
      (congrArg (·.InputDataProgress) heq) hleft
    rw [hnew, hw.submitted, hw.returned, hcur, hahead, ← hw.queue h, heq]
    simp only [List.append_assoc]
    rfl
  · rw [if_neg hne, hcounter, if_neg hw.quiet]
  · rw [hcur, hpos]
    exact h.gap
  · rw [hcur, hpos]
    exact h.fresh

/-- The core is idle: the first block is copied, and completes the transfer of a single block. -/
theorem inv_idle (h : Inv core w) (hnone : w.ahead = false) {x : BitVec 32} {b : Buffers}
    (hload : Loads core { w.state.buffers core with
      DMAPtr := Option.some pMem, InputDataProgress := 0, InputDataLeft := .ofNat 32 (0x200 * n)
      InputPosRead := x } b)
    (heq : w'.state.buffers core = { b with
      DMAICounter := if BitVec.ofNat 32 (0x200 * n) = 512 then .ofNat 32 (0x200 * n)
        else b.DMAICounter })
    (hx : x.toNat % 0x100 = 0 ∧ x.toNat < 0x200 ∧ w.cur = false ∨ x = (w.core' core).InputPosRead)
    (hidle : w.pos core % 0x100 = 0 → w.cur = false)
    (hcur : w'.cur = (w.cur || x.toNat % 0x100 == 0))
    (hahead : w'.ahead = !(x.toNat % 0x100 == 0)) : Inv core w' := by
  have hpos : w'.pos core = x.toNat := congrArg BitVec.toNat ((congrArg (·.InputPosRead) heq).trans
    hload.pos)
  have hmem : w'.state.spu2mem = b.spu2mem := congrArg (·.spu2mem) heq
  have hplayed : ((List.range n).map fun k => block pMem (0x200 * k)).flatten =
      (List.range' (free x.toNat * 0x100) 0x100).map (sampleAt w'.state.spu2mem core) ++
        (w'.state.buffers core).waiting := by
    have hnew := waiting_start (b := { w.state.buffers core with
      DMAPtr := Option.some pMem, InputDataProgress := 0, InputDataLeft := .ofNat 32 (0x200 * n)
      InputPosRead := x }) (n := n) rfl rfl hw.size
    rw [← hnew, hload.waiting, hmem, heq]
    rfl
  have hold : w.returned ++ (w.state.buffers core).current core w.cur = w.submitted.flatten := by
    rw [← hw.queue h, hnone]
    exact congrArg (w.returned ++ ·) (List.append_nil _).symm
  have honce : (if (w'.core' core).InputDataLeft = 0 then 0 else 1) +
      (if 0 < (w'.core' core).DMAICounter.toInt then 1 else 0) = 1 := by
    have hsub : b.InputDataLeft.toNat + 0x200 = 0x200 * n := hload.left.trans hw.size
    have hleft : (w'.core' core).InputDataLeft = b.InputDataLeft := congrArg (·.InputDataLeft) heq
    have hcounter : (w'.core' core).DMAICounter = if BitVec.ofNat 32 (0x200 * n) = 512 then
        .ofNat 32 (0x200 * n) else (w.core' core).DMAICounter := by
      rw [show (w'.core' core).DMAICounter = _ from congrArg (·.DMAICounter) heq, hload.counter]
      rfl
    rw [hleft, hcounter]
    by_cases hone : n = 1
    · have hzero : b.InputDataLeft = 0 :=
        BitVec.eq_of_toNat_eq (show b.InputDataLeft.toNat = 0 by omega)
      rw [if_pos hzero, hone]
      rfl
    · have hne : b.InputDataLeft ≠ 0 := by
        intro hzero
        rw [hzero] at hsub
        change 0 + 0x200 = 0x200 * n at hsub
        omega
      have hne' : BitVec.ofNat 32 (0x200 * n) ≠ 512 := by
        intro hzero
        have hsize := hw.size
        rw [hzero] at hsize
        change 0x200 = 0x200 * n at hsize
        omega
      rw [if_neg hne, if_neg hne', if_neg hw.quiet]
  have hlt : w'.pos core < 0x200 := by
    rcases hx with ⟨-, hlt, -⟩ | rfl
    · exact hpos ▸ hlt
    · exact hpos ▸ h.pos_lt
  have hwhole : (w'.state.buffers core).Whole := by
    rw [heq]
    exact ⟨hload.whole.blocks, hload.whole.fits, hload.whole.ptr⟩
  have hadma : w'.state.adma core = true :=
    (congrArg (·.adma) heq).trans (hload.adma.trans h.adma)
  by_cases haligned : x.toNat % 0x100 = 0
  · -- the block goes to the half that is read next
    rw [beq_iff_eq.mpr haligned, Bool.or_true] at hcur
    rw [beq_iff_eq.mpr haligned, Bool.not_true] at hahead
    have hempty : w.cur = false := by
      rcases hx with ⟨-, -, hempty⟩ | rfl
      · exact hempty
      · exact hidle haligned
    have hbegin : free x.toNat * 0x100 = w'.pos core := by
      rw [hpos] at hlt ⊢
      rw [free]
      omega
    have hcurrent : (w'.state.buffers core).current core w'.cur =
        (List.range' (w'.pos core) 0x100).map (sampleAt w'.state.spu2mem core) := by
      rw [hcur, current, if_pos rfl]
      change (List.range' (w'.pos core) (0x100 - w'.pos core % 0x100)).map _ = _
      rw [hpos, haligned]
      rfl
    rw [hempty, current, if_neg (by decide), List.append_nil] at hold
    refine hw.inv_of hadma hlt hwhole ?_ honce
      (fun _ hc => absurd (hcur.symm.trans hc) (by decide))
      fun hs => ⟨(h.fresh hs).1, fun _ => hpos ▸ haligned⟩
    rw [hw.returned, hw.submitted, hplayed, hbegin, hcurrent, hahead, hold]
    rfl
  · -- the block goes to the other half
    rw [beq_eq_false_iff_ne.mpr haligned, Bool.or_false] at hcur
    rw [beq_eq_false_iff_ne.mpr haligned, Bool.not_false] at hahead
    obtain rfl : x = (w.core' core).InputPosRead :=
      hx.resolve_left fun hz => haligned hz.1
    replace hpos : w'.pos core = w.pos core := hpos
    replace haligned : w.pos core % 0x100 ≠ 0 := haligned
    rw [hpos] at hlt
    have hbegin : free (w.pos core) * 0x100 = 0x100 - w'.pos core / 0x100 * 0x100 := by
      rw [hpos, free]
      omega
    have hcoming : (w'.state.buffers core).coming core w'.ahead =
        (List.range' (free (w.pos core) * 0x100) 0x100).map (sampleAt w'.state.spu2mem core) := by
      rw [hahead, hbegin]
      rfl
    have hcurrent : (w'.state.buffers core).current core w'.cur =
        (w.state.buffers core).current core w.cur := by
      rw [hcur, current, current]
      split
      · change (List.range' (w'.pos core) (0x100 - w'.pos core % 0x100)).map _ = _
        rw [hpos]
        refine List.map_congr_left fun q hq => ?_
        rw [List.mem_range'_1] at hq
        change sampleAt w'.state.spu2mem core q = _
        rw [hmem]
        refine hload.other q (by omega) ?_
        change q / 0x100 ≠ (w.pos core + 0xff) / 0x100 % 2
        omega
      · rfl
    refine hw.inv_of hadma (hpos ▸ hlt) hwhole ?_ honce (fun hs hc => ?_) fun hs => ?_
    · rw [hw.returned, hw.submitted, hplayed, ← hold, hcurrent, hcoming]
      simp only [List.append_assoc]
    · exact hpos ▸ h.gap hs (hcur.symm.trans hc)
    · rw [hcur, hpos]
      exact h.fresh hs

end Submits

theorem Inv.write (h : Inv core w) {pMem : Words} {n : Nat}
    (hoffer : w.Offered core (.write pMem n)) (hadmits : w.Admits core (.write pMem n)) :
    ∃ w', w.step core (.write pMem n) = some w' ∧ Inv core w' := by
  obtain ⟨hn, hcalled⟩ := hoffer
  obtain ⟨hlt, hempty⟩ := hadmits
  have hsize : (BitVec.ofNat 32 (0x200 * n)).toNat = 0x200 * n := by
    rw [BitVec.toNat_ofNat, Nat.mod_eq_of_lt (by omega)]
  have honce := h.once
  have hdone : (w.core' core).InputDataLeft = 0 := by
    by_contra hne
    rw [if_neg hne] at honce
    omega
  have hquiet : ¬ 0 < (w.core' core).DMAICounter.toInt := by
    intro hpos
    rw [if_pos hpos] at honce
    omega
  obtain ⟨s₁, s', hs', hbuffers, hkept, heq, hbusy⟩ := State.doDMAwrite_adma
    (.ofNat 32 (0x200 * n)) h.adma (by omega) (by omega) (by omega) pMem
  have hw : Submits core pMem n w (w.write core pMem n s') :=
    ⟨hn, hlt, hcalled, hdone, hquiet, List.flatten_append, rfl, rfl, rfl, rfl, hbusy⟩
  refine ⟨w.write core pMem n s', by rw [step, hs']; rfl, ?_⟩
  have hcur : (w.write core pMem n s').cur = (w.cur || (!(w.core' core).AdmaInProgress &&
    (s'.Cores core).InputPosRead.toNat % 0x100 == 0)) := rfl
  have hahead : (w.write core pMem n s').ahead = (w.ahead || (!(w.core' core).AdmaInProgress &&
    !((s'.Cores core).InputPosRead.toNat % 0x100 == 0))) := rfl
  cases hidle : (w.core' core).AdmaInProgress with
  | true =>
    rw [hidle, Bool.not_true, Bool.false_and, Bool.or_false] at hcur hahead
    refine hw.inv_busy h ?_ hcur hahead
    exact heq.trans (by rw [State.startBlocks_busy (hkept.trans hidle), hbuffers])
  | false =>
    have hnone : w.ahead = false := by
      by_contra ha
      rw [Bool.not_eq_false] at ha
      rw [h.busy (.inr ha)] at hidle
      exact absurd hidle (by decide)
    have hpos : (s₁.Cores core).InputPosRead = (w.core' core).InputPosRead :=
      congrArg (·.InputPosRead) hbuffers
    have hmode : s₁.PlayMode = w.state.PlayMode := congrArg (·.PlayMode) hbuffers
    obtain ⟨b, hload, hb⟩ := State.startBlocks_idle (.ofNat 32 (0x200 * n))
      (hkept.trans hidle)
      (by rw [hbuffers]
          refine ⟨?_, ?_, fun _ => rfl⟩
          · change (BitVec.ofNat 32 (0x200 * n)).toNat % 0x200 = 0
            omega
          · change 0 + (BitVec.ofNat 32 (0x200 * n)).toNat < 2 ^ 31
            omega)
      (by omega) (by rw [hpos]; exact h.pos_lt)
    rw [hbuffers] at hload
    have hread : (s'.Cores core).InputPosRead = s₁.startPos core :=
      (congrArg (·.InputPosRead) (heq.trans hb)).trans hload.pos
    rw [hidle, Bool.not_false, Bool.true_and, hread] at hcur hahead
    rw [hnone, Bool.false_or] at hahead
    refine hw.inv_idle h hnone hload (heq.trans hb) ?_ ?_ hcur hahead
    · rw [State.startPos, hmode, hpos]
      split
      · rename_i hreset
        rw [Bool.and_eq_true, beq_iff_eq] at hreset
        exact .inl ⟨rfl, by decide, hempty hidle (.inr ⟨hreset.2, hreset.1⟩)⟩
      · exact .inr rfl
    · exact fun haligned => hempty hidle (.inl haligned)

theorem Inv.store (h : Inv core w) {addr : Nat} (value : BitVec 16)
    (hoffer : w.Offered core (.store addr value)) :
    Inv core { w with state :=
      { w.state with spu2mem := Function.update w.state.spu2mem addr value } } := by
  have hsame (q : Nat) (hq : q < 0x200) :
      sampleAt (Function.update w.state.spu2mem addr value) core q =
        sampleAt w.state.spu2mem core q := by
    change addr < _ ∨ _ ≤ addr at hoffer
    rw [sampleAt, Function.update_of_ne (by omega), Function.update_of_ne (by omega)]
    rfl
  have hpos := h.pos_lt
  have hcurrent : (w.state.buffers core).current core w.cur =
      { w.state.buffers core with
        spu2mem := Function.update w.state.spu2mem addr value }.current core w.cur := by
    rw [current, current]
    split
    · refine List.map_congr_left fun q hq => (hsame q ?_).symm
      rw [List.mem_range'_1] at hq
      change w.pos core ≤ q ∧ q < w.pos core + (0x100 - w.pos core % 0x100) at hq
      omega
    · rfl
  have hcoming : (w.state.buffers core).coming core w.ahead =
      { w.state.buffers core with
        spu2mem := Function.update w.state.spu2mem addr value }.coming core w.ahead := by
    rw [coming, coming]
    split
    · refine List.map_congr_left fun q hq => (hsame q ?_).symm
      rw [List.mem_range'_1] at hq
      omega
    · rfl
  refine ⟨h.adma, h.pos_lt, ⟨h.whole.blocks, h.whole.fits, h.whole.ptr⟩, ?_, h.once, h.busy,
    h.begun, h.gap, h.fresh, h.first⟩
  have hqueue := h.queue
  rw [hcurrent, hcoming] at hqueue
  exact hqueue

/-- Before the first transfer. -/
def start (s : State) : World := { state := s }

/-- AutoDMA is on, and no transfer is going on. -/
structure Idle (core : Fin 2) (s : State) : Prop where
  adma : s.adma core = true
  pos_lt : (s.Cores core).InputPosRead.toNat < 0x200
  left : (s.Cores core).InputDataLeft = 0
  progress : (s.Cores core).InputDataProgress.toNat < 2 ^ 31
  counter : ¬ 0 < (s.Cores core).DMAICounter.toInt

theorem inv_start {s : State} (h : Idle core s) : Inv core (start s) where
  adma := h.adma
  pos_lt := h.pos_lt
  whole := by
    have hleft : (s.buffers core).InputDataLeft = 0 := h.left
    exact ⟨congrArg (·.toNat % 0x200) hleft,
      (congrArg (_ + BitVec.toNat ·) hleft).trans_lt h.progress, fun hne => absurd hleft hne⟩
  queue := waiting_of_left_eq_zero (congrArg BitVec.toNat h.left)
  once := by
    change 0 = 0 + (if (s.Cores core).InputDataLeft = 0 then 0 else 1) +
      if 0 < (s.Cores core).DMAICounter.toInt then 1 else 0
    rw [if_pos h.left, if_neg h.counter]
  busy := fun hb => hb.elim (fun hne => absurd h.left hne) fun ha => absurd ha Bool.false_ne_true
  begun := fun hs => absurd hs Bool.false_ne_true
  gap := fun hs => absurd hs Bool.false_ne_true
  fresh := fun _ => ⟨rfl, fun hc => absurd hc Bool.false_ne_true⟩
  first := fun _ => ⟨rfl, rfl, h.left⟩

/-- Where no block is copied over another that has not been played, and none is played twice,
AutoDMA plays the blocks that are submitted, once and in order. -/
theorem autoDMA_plays {s : State} {events : List Event} (hidle : Idle core s)
    (hoffered : Traces.Meets (step core) (Offered core) (start s) events)
    (hadmits : Traces.Meets (step core) (Admits core) (start s) events) :
    ∃ w, Traces.run (step core) (start s) events = some w ∧ w.Plays core := by
  have hstep (w : World) (e : Event) (h : Inv core w) (hok : w.Offered core e ∧ w.Admits core e) :
      ∃ w', w.step core e = some w' ∧ Inv core w' := by
    cases e with
    | write pMem n => exact h.write hok.1 hok.2
    | tick TickInterval => exact ⟨_, rfl, h.tick hok.2⟩
    | store addr value => exact ⟨_, rfl, h.store value hok.1⟩
  obtain ⟨w, hrun, hw⟩ := Traces.total hstep (hoffered.and hadmits) (inv_start hidle)
  exact ⟨w, hrun, hw.plays⟩

/-- The second core has AutoDMA on and reads at `pos`. -/
def enabled (pos : BitVec 32) : State :=
  State.reset.setCore 1 { Core.init with AutoDMACtrl := 2, InputPosRead := pos }

theorem idle_enabled {pos : BitVec 32} (h : pos.toNat < 0x200) : Idle 1 (enabled pos) := by
  have hcore : (enabled pos).Cores 1 = { Core.init with AutoDMACtrl := 2, InputPosRead := pos } :=
    State.setCore_self _
  have hadma : (2 : BitVec 16).getLsbD 1 = true := by decide
  have hzero : (0 : BitVec 32).toNat < 2 ^ 31 ∧ ¬ 0 < (0 : BitVec 32).toInt := by decide
  exact ⟨by rw [State.adma, hcore]; exact hadma, by rw [hcore]; exact h, by rw [hcore]; rfl,
    by rw [hcore]; exact hzero.1, by rw [hcore]; exact hzero.2⟩

/-- Two words for each channel: a block of ones, and a block of twos. -/
def twoBlocks : Words := fun i => if i < 0x200 then 1 else 2

theorem autoDMA_plays_block :
    ∃ w, Traces.run (step 1) (start (enabled 0)) [.write twoBlocks 1, .tick 768] = some w ∧
      w.Plays 1 := by
  refine autoDMA_plays (idle_enabled (by decide)) ⟨⟨by decide, rfl⟩, fun w hw => ⟨trivial, ?_⟩⟩
    ⟨⟨by decide, fun _ _ => rfl⟩, fun w hw => ⟨?_, ?_⟩⟩
  · exact fun _ _ => trivial
  · cases hw
    exact ⟨rfl, fun _ _ => rfl, fun hlast => absurd hlast (by decide)⟩
  · exact fun _ _ => trivial

/-- A transfer of two blocks that begins before the end of a half: the second block is copied over
the first. -/
theorem not_autoDMA_plays : ¬ ∀ (core : Fin 2) (s : State) (events : List Event), Idle core s →
    Traces.Meets (step core) (Offered core) (start s) events →
      ∃ w, Traces.run (step core) (start s) events = some w ∧ w.Plays core := by
  intro h
  obtain ⟨w, hrun, hplays⟩ := h 1 (enabled 0xff)
    [.write twoBlocks 2, .tick 768, .tick 768] (idle_enabled (by decide))
    ⟨⟨by decide, rfl⟩, fun _ _ => ⟨trivial, fun _ _ => ⟨trivial, fun _ _ => trivial⟩⟩⟩
  have hbad : (Traces.run (step 1) (start (enabled 0xff))
      [.write twoBlocks 2, .tick 768, .tick 768]).all
        (fun w => w.returned.isPrefixOf w.submitted.flatten) = false := by decide
  rw [hrun, Option.all_some, ← Bool.not_eq_true, List.isPrefixOf_iff_prefix] at hbad
  exact hbad hplays.order

end World

end OmegaRed.Spu2.Dma
