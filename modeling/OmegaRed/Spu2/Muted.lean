import OmegaRed.Spu2.Lockstep
import OmegaRed.Spu2.Mixer

/-! A voice that is off moves on like one that is on. -/

namespace OmegaRed.Spu2

/-- What a program can see of the way of a voice through its blocks. -/
structure Progress where
  NextA : Nat
  LoopFlags : BitVec 8
  LoopStartA : Nat
  LoopMode : Bool
  ENDX : BitVec 32
  irq : Irq

namespace Progress

/-- The end of a group of samples. -/
def nextGroup (e : Bus) (voiceidx : Fin 24) (p : Progress) : Progress :=
  let p := { p with irq := e.testIrq (p.NextA == ·) p.irq, NextA := (p.NextA + 1) % 0x100000 }
  if p.NextA % 8 = 0 then
    if p.LoopFlags.getLsbD 0 then
      { p with ENDX := p.ENDX ||| (1 : BitVec 32) <<< voiceidx.val, NextA := p.LoopStartA ||| 1 }
    else { p with NextA := p.NextA + 1 }
  else p

/-- The header of the next block. -/
def header (e : Bus) (p : Progress) : Progress :=
  let LoopFlags := (e.mem (blockAddr p.NextA)).extractLsb' 8 8
  { p with
    irq := e.testIrq (· == blockAddr p.NextA) p.irq
    LoopFlags := LoopFlags
    LoopStartA :=
      if LoopFlags.getLsbD 2 && !p.LoopMode then blockAddr p.NextA else p.LoopStartA }

/-- From one group of samples to the next. -/
def advance (e : Bus) (voiceidx : Fin 24) (entersBlock : Bool) (p : Progress) : Progress :=
  if entersBlock then (p.nextGroup e voiceidx).header e else p.nextGroup e voiceidx

end Progress

namespace Walk

variable {β : Type} {e : Bus} {w : Walk β}

def progress (w : Walk β) : Progress :=
  ⟨w.vc.NextA, w.vc.LoopFlags, w.vc.LoopStartA, w.vc.LoopMode, w.ENDX, w.irq⟩

theorem nextGroupDummy_progress (voiceidx : Fin 24) :
    (w.nextGroupDummy e voiceidx).progress = w.progress.nextGroup e voiceidx := by
  unfold nextGroupDummy
  dsimp only
  rw [apply_ite progress, apply_ite progress]
  rfl

theorem nextGroupBuffered_progress (voiceidx : Fin 24) :
    (w.nextGroupBuffered e voiceidx).progress = w.progress.nextGroup e voiceidx := by
  obtain ⟨a, ha⟩ := nextGroupBuffered_eq (e := e) (w := w) voiceidx
  rw [ha, ← nextGroupDummy_progress]
  rfl

theorem getNextDataDummy_progress (voiceidx : Fin 24) :
    (w.getNextDataDummy e voiceidx).progress =
      w.progress.advance e voiceidx (w.vc.SCurrent == 28) := by
  rw [Progress.advance, ← nextGroupDummy_progress]
  by_cases hS : w.vc.SCurrent = 28
  · rw [getNextDataDummy_block hS, hS]
    rfl
  · rw [getNextDataDummy_group hS, beq_false_of_ne hS]
    rfl

theorem getNextDataBuffered_progress [Sampling β] (id : VoiceId) :
    (w.getNextDataBuffered e id).1.progress =
      if w.vc.SCurrent % 4 = 0 then w.progress.advance e id.2 (w.vc.SCurrent == 28)
      else w.progress := by
  by_cases hgroup : w.vc.SCurrent % 4 = 0
  · rw [if_pos hgroup, Progress.advance, ← nextGroupBuffered_progress]
    by_cases hS : w.vc.SCurrent = 28
    · rw [getNextDataBuffered_block hS, hS]
      rfl
    · rw [getNextDataBuffered_group hgroup hS, beq_false_of_ne hS]
      rfl
  · rw [if_neg hgroup, getNextDataBuffered_inGroup hgroup]
    rfl

/-- The position in the block after `SCurrent`, where a block begins again after 28 samples. -/
theorem getNextDataBuffered_SCurrent [Sampling β] (id : VoiceId) :
    (w.getNextDataBuffered e id).1.vc.SCurrent =
      if w.vc.SCurrent = 28 then 1 else w.vc.SCurrent + 1 := by
  by_cases hS : w.vc.SCurrent = 28
  · rw [getNextDataBuffered_block hS, if_pos hS]
  · rw [if_neg hS]
    by_cases hgroup : w.vc.SCurrent % 4 = 0
    · rw [getNextDataBuffered_group hgroup hS]
    · rw [getNextDataBuffered_inGroup hgroup]

theorem getNextDataBuffered_SP [Sampling β] (id : VoiceId) :
    (w.getNextDataBuffered e id).1.vc.SP = w.vc.SP := by
  obtain ⟨a, ha⟩ := nextGroupBuffered_vc (e := e) (w := w) id.2
  by_cases hS : w.vc.SCurrent = 28
  · simp only [getNextDataBuffered_block hS, enterBlock, readHeader, ha]
  · by_cases hgroup : w.vc.SCurrent % 4 = 0
    · simp only [getNextDataBuffered_group hgroup hS, ha]
    · rw [getNextDataBuffered_inGroup hgroup]

theorem getNextDataDummy_SP {voiceidx : Fin 24} (hgroup : w.vc.SCurrent % 4 = 0) :
    (w.getNextDataDummy e voiceidx).vc.SP = w.vc.SP - 4 * 4096 := by
  by_cases hS : w.vc.SCurrent = 28
  · simp only [getNextDataDummy_block hS, readHeader, nextGroupDummy_vc]
    rfl
  · simp only [getNextDataDummy_group hS, nextGroupDummy_vc, hgroup]
    rfl

theorem getNextDataDummy_SCurrent {voiceidx : Fin 24} (hgroup : w.vc.SCurrent % 4 = 0) :
    (w.getNextDataDummy e voiceidx).vc.SCurrent =
      if w.vc.SCurrent = 28 then 4 else w.vc.SCurrent + 4 := by
  by_cases hS : w.vc.SCurrent = 28
  · rw [getNextDataDummy_block hS, if_pos hS]
  · rw [getNextDataDummy_group hS, if_neg hS, hgroup]

section Ahead

variable [Sampling β] {InterpType : Nat} {id : VoiceId} {a d : Walk β}

theorem pull_progress : (w.pull InterpType e id).progress =
    if w.vc.SCurrent % 4 = 0 then w.progress.advance e id.2 (w.vc.SCurrent == 28)
    else w.progress := by
  let vc := w.vc
  exact getNextDataBuffered_progress (e := e) (w := { w with vc := { vc with
    PV4 := if InterpType ≥ 2 then vc.PV3 else vc.PV4
    PV3 := if InterpType ≥ 2 then vc.PV2 else vc.PV3
    PV2 := vc.PV1 } }) id

theorem pull_SCurrent : (w.pull InterpType e id).vc.SCurrent =
    if w.vc.SCurrent = 28 then 1 else w.vc.SCurrent + 1 :=
  getNextDataBuffered_SCurrent id

theorem pull_SP : (w.pull InterpType e id).vc.SP = w.vc.SP - 4096 :=
  congrArg (· - 4096) (getNextDataBuffered_SP id)

/-- A voice that is off is where the same voice would be if it were on, at the end of the group
of samples that this one is in. -/
structure Ahead (a d : Walk β) : Prop where
  progress : a.progress = d.progress
  SCurrent : d.vc.SCurrent = (a.vc.SCurrent + 3) / 4 * 4
  SP : d.vc.SP = a.vc.SP - 4096 * ((d.vc.SCurrent : Int) - a.vc.SCurrent)

theorem Ahead.inGroup (h : Ahead a d) (hgroup : a.vc.SCurrent % 4 ≠ 0) :
    Ahead (a.pull InterpType e id) d := by
  have hS : a.vc.SCurrent ≠ 28 := by omega
  obtain ⟨hprog, hpos, hSP⟩ := h
  refine ⟨?_, ?_, ?_⟩
  · rw [pull_progress, if_neg hgroup, hprog]
  · rw [pull_SCurrent, if_neg hS]
    omega
  · rw [pull_SCurrent, pull_SP, if_neg hS]
    omega

theorem Ahead.group (h : Ahead a d) (hgroup : a.vc.SCurrent % 4 = 0) :
    Ahead (a.pull InterpType e id) (d.getNextDataDummy e id.2) := by
  obtain ⟨hprog, hpos, hSP⟩ := h
  have hd : d.vc.SCurrent = a.vc.SCurrent := by omega
  have hdgroup : d.vc.SCurrent % 4 = 0 := hd ▸ hgroup
  refine ⟨?_, ?_, ?_⟩
  · rw [pull_progress, if_pos hgroup, getNextDataDummy_progress, hprog, hd]
  · rw [pull_SCurrent, getNextDataDummy_SCurrent hdgroup, hd]
    split <;> omega
  · rw [pull_SCurrent, pull_SP, getNextDataDummy_SCurrent hdgroup, getNextDataDummy_SP hdgroup, hd]
    split <;> omega

theorem pulls_of_nonpos {fuel : Nat} (h : ¬ w.vc.SP > 0) : w.pulls InterpType e id fuel = w := by
  cases fuel with
  | zero => rfl
  | succ fuel => rw [pulls, if_neg h]

omit [Sampling β] in
theorem skips_of_nonpos {voiceidx : Fin 24} {fuel : Nat} (h : ¬ w.vc.SP > 0) :
    w.skips e voiceidx fuel = w := by
  cases fuel with
  | zero => rfl
  | succ fuel => rw [skips, if_neg h]

/-- Between two ticks: the voice is at a group of samples or has less than a sample to go. -/
def Between (w : Walk β) : Prop := w.vc.SCurrent % 4 = 0 ∨ -4096 < w.vc.SP

variable (InterpType id e) in
theorem Ahead.loops {n m : Nat} (h : Ahead a d) (hbetween : a.Between)
    (hn : a.vc.SP.toNat ≤ n) (hm : d.vc.SP.toNat ≤ m) :
    Ahead (a.pulls InterpType e id n) (d.skips e id.2 m) ∧
      (a.pulls InterpType e id n).Between ∧ (a.pulls InterpType e id n).vc.SP ≤ 0 := by
  induction n generalizing a d m with
  | zero =>
    have ha : ¬ a.vc.SP > 0 := by omega
    have hd : ¬ d.vc.SP > 0 := by
      obtain ⟨-, hpos, hSP⟩ := h
      omega
    rw [pulls_of_nonpos ha, skips_of_nonpos hd]
    exact ⟨h, hbetween, by omega⟩
  | succ n ih =>
    by_cases ha : a.vc.SP > 0
    · have hpull : -4096 < (a.pull InterpType e id).vc.SP := by
        rw [pull_SP]
        omega
      have hpulln : (a.pull InterpType e id).vc.SP.toNat ≤ n := by
        rw [pull_SP]
        omega
      rw [pulls, if_pos ha]
      by_cases hgroup : a.vc.SCurrent % 4 = 0
      · have hd : d.vc.SP = a.vc.SP := by
          obtain ⟨-, hpos, hSP⟩ := h
          omega
        have hdgroup : d.vc.SCurrent % 4 = 0 := by
          obtain ⟨-, hpos, -⟩ := h
          omega
        cases m with
        | zero => omega
        | succ m =>
          rw [skips, if_pos (hd ▸ ha)]
          refine ih (h.group hgroup) (.inr hpull) hpulln ?_
          rw [getNextDataDummy_SP hdgroup]
          omega
      · exact ih (h.inGroup hgroup) (.inr hpull) hpulln hm
    · have hd : ¬ d.vc.SP > 0 := by
        obtain ⟨-, hpos, hSP⟩ := h
        omega
      rw [pulls_of_nonpos ha, skips_of_nonpos hd]
      exact ⟨h, hbetween, by omega⟩

end Ahead

/-- `UpdatePitch` -/
def addPitch (w : Walk β) (pitch : Fin 0x4000) : Walk β :=
  { w with vc := { w.vc with SP := wrap32 (w.vc.SP + pitch.val) } }

/-- The ticks of a voice that is on, with the pitch of each. -/
def ticksOn [Sampling β] (InterpType : Nat) (e : Bus) (id : VoiceId) (w : Walk β)
    (pitches : List (Fin 0x4000)) : Walk β :=
  pitches.foldl (fun w pitch =>
    (w.addPitch pitch).pulls InterpType e id (w.addPitch pitch).vc.SP.toNat) w

/-- The ticks of a voice that is off. -/
def ticksOff (e : Bus) (voiceidx : Fin 24) (w : Walk β) (pitches : List (Fin 0x4000)) : Walk β :=
  pitches.foldl (fun w pitch =>
    (w.addPitch pitch).skips e voiceidx (w.addPitch pitch).vc.SP.toNat) w

theorem wrap32_of_lt {x : Int} (hlo : -2 ^ 31 ≤ x) (hhi : x < 2 ^ 31) : wrap32 x = x := by
  unfold wrap32 Int.bmod
  dsimp only
  split <;> omega

theorem Ahead.addPitch {a d : Walk β} (h : Ahead a d)
    (hbetween : a.vc.SCurrent % 4 = 0 ∨ -4096 < a.vc.SP ∧ a.vc.SP ≤ 0) (pitch : Fin 0x4000) :
    Ahead (a.addPitch pitch) (d.addPitch pitch) := by
  obtain ⟨hprog, hpos, hSP⟩ := h
  refine ⟨hprog, hpos, ?_⟩
  simp only [Walk.addPitch]
  have hp := pitch.isLt
  by_cases hgroup : a.vc.SCurrent % 4 = 0
  · have hd : d.vc.SCurrent = a.vc.SCurrent := by omega
    rw [hSP, hd]
    simp
  · obtain ⟨hlo, hhi⟩ := hbetween.resolve_left hgroup
    rw [wrap32_of_lt (by omega) (by omega), wrap32_of_lt (by omega) (by omega)]
    omega

theorem Between.addPitch {w : Walk β}
    (h : w.vc.SCurrent % 4 = 0 ∨ -4096 < w.vc.SP ∧ w.vc.SP ≤ 0) (pitch : Fin 0x4000) :
    (w.addPitch pitch).Between := by
  by_cases hgroup : w.vc.SCurrent % 4 = 0
  · exact .inl hgroup
  · obtain ⟨hlo, hhi⟩ := h.resolve_left hgroup
    have hp := pitch.isLt
    refine .inr ?_
    simp only [Walk.addPitch]
    rw [wrap32_of_lt (by omega) (by omega)]
    omega

theorem ticks_ahead [Sampling β] {InterpType : Nat} {id : VoiceId} {a d : Walk β}
    {pitches : List (Fin 0x4000)} (h : Ahead a d)
    (hbetween : a.vc.SCurrent % 4 = 0 ∨ -4096 < a.vc.SP ∧ a.vc.SP ≤ 0) :
    Ahead (a.ticksOn InterpType e id pitches) (d.ticksOff e id.2 pitches) := by
  induction pitches generalizing a d with
  | nil => exact h
  | cons pitch pitches ih =>
    obtain ⟨hahead, hbetween', hSP⟩ := Ahead.loops e InterpType id
      (h.addPitch hbetween pitch) (Between.addPitch hbetween pitch) (Nat.le_refl _)
      (Nat.le_refl _)
    refine ih hahead ?_
    cases hbetween' with
    | inl hgroup => exact .inl hgroup
    | inr hlo => exact .inr ⟨hlo, hSP⟩

/-- A voice that is off and starts at a group of samples makes the progress of one that is on. -/
theorem ticks_progress [Sampling β] {InterpType : Nat} {id : VoiceId}
    (hgroup : w.vc.SCurrent % 4 = 0) (pitches : List (Fin 0x4000)) :
    (w.ticksOff e id.2 pitches).progress = (w.ticksOn InterpType e id pitches).progress :=
  (ticks_ahead ⟨rfl, by omega, by omega⟩ (.inl hgroup)).progress.symm

theorem nextA_ne {vc : Voice} (h : vc.Lockstep) (hloop : vc.LoopStartA % 8 = 0) : nextA vc ≠ vc.NextA := by
  obtain ⟨hlt, -, -, -, -, -⟩ := h
  unfold nextA
  have hor := or_one_of_even (a := vc.LoopStartA) (by omega)
  split
  · split <;> omega
  · omega

/-- A voice that is off and starts in the middle of a group is ahead with its next group. -/
theorem ticks_progress_ne [Sampling β] (InterpType : Nat) {id : VoiceId} (h : w.vc.Lockstep)
    (hgroup : w.vc.SCurrent % 4 ≠ 0) (hloop : w.vc.LoopStartA % 8 = 0) (hlo : -0x3fff < w.vc.SP)
    (hhi : w.vc.SP ≤ 0) :
    ∃ pitches, (w.ticksOff e id.2 pitches).progress ≠
      (w.ticksOn InterpType e id pitches).progress := by
  let pitch : Fin 0x4000 := ⟨(1 - w.vc.SP).toNat, by omega⟩
  have hSP : (w.addPitch pitch).vc.SP = 1 := by
    have hval : (pitch.val : Int) = 1 - w.vc.SP := Int.toNat_of_nonneg (by omega)
    simp only [Walk.addPitch, hval]
    rw [wrap32_of_lt] <;> omega
  have hon : w.ticksOn InterpType e id [pitch] = (w.addPitch pitch).pull InterpType e id := by
    simp [ticksOn, hSP, pulls]
  have hoff : w.ticksOff e id.2 [pitch] = (w.addPitch pitch).getNextDataDummy e id.2 := by
    simp [ticksOff, hSP, skips]
  refine ⟨[pitch], ?_⟩
  rw [hon, hoff, pull_progress, if_neg (show (w.addPitch pitch).vc.SCurrent % 4 ≠ 0 from hgroup),
    getNextDataDummy_group (show (w.addPitch pitch).vc.SCurrent ≠ 28 by
      have : w.vc.SCurrent ≠ 28 := by omega
      exact this)]
  intro heq
  have hN := congrArg Progress.NextA heq
  simp only [progress, nextGroupDummy_vc] at hN
  exact nextA_ne h hloop hN

end Walk

/-- In a run that never sends a voice out of step, every voice has its address in range and in step
with its position, so that it comes to the end of a block with its last group; and a voice that is
off makes the progress of one that is on just when it starts at a group of samples. -/
theorem lockstep_of_steady {β : Type} [Sampling β] (cfg : Config) (buf : β) :
    (∀ evs, Along cfg (State.Steady cfg) (State.reset buf) evs → ∀ id,
      let vc := (run cfg (State.reset buf) evs).voice id
      vc.Lockstep ∧ (vc.SCurrent % 4 = 0 → ((vc.NextA + 1) % 8 = 0 ↔ vc.SCurrent = 24))) ∧
    (∀ (e : Bus) (id : VoiceId) (w : Walk β), w.vc.SCurrent % 4 = 0 → ∀ pitches,
      (w.ticksOff e id.2 pitches).progress =
        (w.ticksOn cfg.Interpolation e id pitches).progress) ∧
    ∀ (e : Bus) (id : VoiceId) (w : Walk β), w.vc.Lockstep → w.vc.LoopStartA % 8 = 0 →
      -0x3fff < w.vc.SP → w.vc.SP ≤ 0 →
      (∀ pitches, (w.ticksOff e id.2 pitches).progress =
        (w.ticksOn cfg.Interpolation e id pitches).progress) →
      w.vc.SCurrent % 4 = 0 := by
  refine ⟨fun evs h id => ?_, fun e id w hgroup pitches => ?_,
    fun e id w h hloop hlo hhi hsame => ?_⟩
  · have hvc := State.run_lockstep h id
    exact ⟨hvc, hvc.end_iff⟩
  · exact Walk.ticks_progress hgroup pitches
  · by_contra hgroup
    obtain ⟨pitches, hne⟩ := @Walk.ticks_progress_ne _ e w _ cfg.Interpolation id h hgroup
      hloop hlo hhi
    exact hne (hsame pitches)

def noInterrupts (mem : Mem) : Bus := ⟨mem, fun _ => false, fun _ => 0⟩

theorem reset_steady : Along ⟨0, 4⟩ (State.Steady ⟨0, 4⟩) (State.reset PcmCache.empty)
    [.cycle, .mix (0, 0)] := by
  refine ⟨trivial, ⟨fun hon => absurd hon (by decide), fun _ => ?_⟩, trivial⟩
  intro _
  exact ⟨by decide, by decide, fun hSP => absurd hSP (by decide)⟩

theorem lockstep_of_steady_reset :
    ((run ⟨0, 4⟩ (State.reset PcmCache.empty) [.cycle, .mix (0, 0)]).voice (0, 0)).Lockstep ∧
      ((State.reset PcmCache.empty).walk (0, 0) Voice.init).vc.SCurrent % 4 = 0 := by
  obtain ⟨hrun, hsame, hgroup⟩ := lockstep_of_steady ⟨0, 4⟩ PcmCache.empty
  have e := noInterrupts fun _ => 0
  exact ⟨(hrun _ reset_steady (0, 0)).1,
    hgroup e (0, 0) ((State.reset PcmCache.empty).walk (0, 0) Voice.init) State.init_lockstep rfl
      (by decide) (by decide) (hsame e (0, 0) _ rfl)⟩

/-- A voice that is keyed on at an address of the PS1 interface. -/
def misaligned : List Event :=
  [.write 0x1f801c06 1, .write 0x1f801d88 1, .cycle, .cycle, .cycle, .cycle, .start (0, 0)]

/-- A voice that was stopped after the first sample of a group. -/
def stoppedInGroup : Walk PcmCache :=
  ⟨{ Voice.init with NextA := 0x2802, SCurrent := 1 }, 0, ⟨0, false⟩, PcmCache.empty⟩

theorem not_lockstep :
    ¬ (∀ evs id, ((run ⟨0, 4⟩ (State.reset PcmCache.empty) evs).voice id).NextA < 0x100000) ∧
    ¬ ∀ (e : Bus) (id : VoiceId) (w : Walk PcmCache) (pitches : List (Fin 0x4000)),
      (w.ticksOff e id.2 pitches).progress = (w.ticksOn 0 e id pitches).progress := by
  constructor
  · intro h
    exact absurd (h misaligned (0, 0)) (by decide)
  · intro h
    have heq := h (noInterrupts fun _ => 0) (0, 0) stoppedInGroup [1]
    exact absurd (congrArg Progress.NextA heq) (by decide)

end OmegaRed.Spu2
