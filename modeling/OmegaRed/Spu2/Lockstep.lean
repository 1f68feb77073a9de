import OmegaRed.Spu2.Run
import Mathlib.Data.Nat.Bitwise

/-! The address of a voice and its position in the block stay in step. -/

namespace OmegaRed.Spu2

/-- `NextA` and `SCurrent` are in range and in step, and the address registers are in range. -/
structure Voice.Lockstep (vc : Voice) : Prop where
  nextA_lt : vc.NextA < 0x100000
  pos : 1 ≤ vc.SCurrent
  le : vc.SCurrent ≤ 28
  phase : vc.NextA % 8 = if vc.SCurrent ≤ 24 then 1 + (vc.SCurrent + 3) / 4 else 1
  startA_lt : vc.StartA < 0x100000
  loopStartA_lt : vc.LoopStartA < 0x100000

/-- Where the voice is sent to the loop address next, that address begins a block. -/
def Voice.LoopsAligned (vc : Voice) : Prop :=
  (vc.NextA + 1) % 8 = 0 → vc.loopEnd = true → vc.LoopStartA % 8 = 0

instance (vc : Voice) : Decidable vc.LoopsAligned := by unfold Voice.LoopsAligned; infer_instance

theorem Voice.Lockstep.end_iff {vc : Voice} (h : vc.Lockstep) (hgroup : vc.SCurrent % 4 = 0) :
    (vc.NextA + 1) % 8 = 0 ↔ vc.SCurrent = 24 := by
  obtain ⟨-, hpos, hle, hphase, -, -⟩ := h
  split at hphase <;> omega

theorem or_one_of_even {a : Nat} (h : a % 2 = 0) : a ||| 1 = a + 1 := by
  obtain ⟨b, rfl⟩ : ∃ b, a = 2 * b := ⟨a / 2, by omega⟩
  exact (Nat.two_pow_add_eq_or_of_lt (i := 1) (by decide) b).symm

theorem blockAddr_lt (a : Nat) : blockAddr a < 0x100000 := by
  unfold blockAddr
  omega

namespace Walk

variable {β : Type} {e : Bus} {w : Walk β}

/-- Where the address goes at the end of a group of samples. -/
def nextA (vc : Voice) : Nat :=
  if (vc.NextA + 1) % 8 = 0 then
    if vc.loopEnd then vc.LoopStartA ||| 1 else (vc.NextA + 1) % 0x100000 + 1
  else (vc.NextA + 1) % 0x100000

theorem nextA_spec {vc : Voice} (hgroup : vc.SCurrent % 4 = 0) (h : vc.Lockstep)
    (hloop : vc.LoopsAligned) :
    nextA vc < 0x100000 ∧
      (vc.SCurrent = 28 → nextA vc % 8 = 2) ∧ (vc.SCurrent = 24 → nextA vc % 8 = 1) ∧
      (vc.SCurrent < 24 → nextA vc % 8 = 1 + (vc.SCurrent + 4) / 4) := by
  have hend := h.end_iff hgroup
  obtain ⟨hlt, hpos, hle, hphase, -, hloopA⟩ := h
  unfold nextA
  by_cases hlast : (vc.NextA + 1) % 8 = 0
  · have hS := hend.mp hlast
    rw [if_pos hlast]
    by_cases hflag : vc.loopEnd
    · have hal := hloop hlast hflag
      rw [if_pos hflag, or_one_of_even (by omega)]
      omega
    · rw [if_neg hflag]
      omega
  · have hS : vc.SCurrent ≠ 24 := fun hS => hlast (hend.mpr hS)
    rw [if_neg hlast]
    split at hphase <;> omega

theorem incrementNextA_mod : (w.incrementNextA e).vc.NextA % 8 = (w.vc.NextA + 1) % 8 := by
  simp only [incrementNextA]
  omega

theorem nextGroupDummy_vc (voiceidx : Fin 24) :
    (w.nextGroupDummy e voiceidx).vc = { w.vc with NextA := nextA w.vc } := by
  simp only [nextGroupDummy, incrementNextA_mod, nextA]
  split
  · have hend : (w.incrementNextA e).vc.loopEnd = w.vc.loopEnd := rfl
    rw [hend]
    split <;> rfl
  · rfl

/-- Both ways to the next group differ in the envelope of a voice that stops only. -/
theorem nextGroupBuffered_eq (voiceidx : Fin 24) :
    ∃ a, w.nextGroupBuffered e voiceidx =
      { w.nextGroupDummy e voiceidx with
        vc := { (w.nextGroupDummy e voiceidx).vc with ADSR := a } } := by
  simp only [nextGroupBuffered, nextGroupDummy]
  split
  · split
    · split
      · exact ⟨w.vc.ADSR, rfl⟩
      · exact ⟨w.vc.stop.ADSR, rfl⟩
    · exact ⟨w.vc.ADSR, rfl⟩
  · exact ⟨w.vc.ADSR, rfl⟩

theorem nextGroupBuffered_vc (voiceidx : Fin 24) :
    ∃ a, (w.nextGroupBuffered e voiceidx).vc = { w.vc with NextA := nextA w.vc, ADSR := a } := by
  obtain ⟨a, ha⟩ := nextGroupBuffered_eq (e := e) (w := w) voiceidx
  exact ⟨a, by rw [ha, nextGroupDummy_vc]⟩

@[simp] theorem nextGroupBuffered_SCurrent (voiceidx : Fin 24) :
    (w.nextGroupBuffered e voiceidx).vc.SCurrent = w.vc.SCurrent := by
  obtain ⟨a, ha⟩ := nextGroupBuffered_vc (e := e) (w := w) voiceidx
  rw [ha]

@[simp] theorem nextGroupDummy_SCurrent (voiceidx : Fin 24) :
    (w.nextGroupDummy e voiceidx).vc.SCurrent = w.vc.SCurrent := by
  rw [nextGroupDummy_vc]

section Buffered

variable [Sampling β] {id : VoiceId}

theorem getNextDataBuffered_inGroup (hgroup : w.vc.SCurrent % 4 ≠ 0) :
    w.getNextDataBuffered e id =
      ({ w with vc := { w.vc with SCurrent := w.vc.SCurrent + 1 } },
        Sampling.sample w.buf id w.vc.SCurrent) := by
  have hS : w.vc.SCurrent ≠ 28 := by omega
  simp only [getNextDataBuffered, if_neg hgroup, if_neg hS]

theorem getNextDataBuffered_group (hgroup : w.vc.SCurrent % 4 = 0) (hS : w.vc.SCurrent ≠ 28) :
    w.getNextDataBuffered e id =
      let w' := w.nextGroupBuffered e id.2
      ({ w' with vc := { w'.vc with SCurrent := w.vc.SCurrent + 1 } },
        Sampling.sample w'.buf id w.vc.SCurrent) := by
  simp only [getNextDataBuffered, if_pos hgroup, nextGroupBuffered_SCurrent, if_neg hS]

theorem getNextDataBuffered_block (hS : w.vc.SCurrent = 28) :
    w.getNextDataBuffered e id =
      let w' := (w.nextGroupBuffered e id.2).enterBlock e id
      ({ w' with vc := { w'.vc with SCurrent := 1 } }, Sampling.sample w'.buf id 0) := by
  have hgroup : w.vc.SCurrent % 4 = 0 := by omega
  simp only [getNextDataBuffered, if_pos hgroup, nextGroupBuffered_SCurrent, if_pos hS]
  rfl

end Buffered

theorem getNextDataDummy_group {voiceidx : Fin 24} (hS : w.vc.SCurrent ≠ 28) :
    w.getNextDataDummy e voiceidx =
      let w' := w.nextGroupDummy e voiceidx
      { w' with vc := { w'.vc with
          SP := w'.vc.SP - 4096 * (4 - (w.vc.SCurrent % 4 : Nat))
          SCurrent := w.vc.SCurrent + (4 - w.vc.SCurrent % 4) } } := by
  simp only [getNextDataDummy, nextGroupDummy_SCurrent, if_neg hS]

theorem getNextDataDummy_block {voiceidx : Fin 24} (hS : w.vc.SCurrent = 28) :
    w.getNextDataDummy e voiceidx =
      let w' := (w.nextGroupDummy e voiceidx).readHeader e
      { w' with vc := { w'.vc with SP := w'.vc.SP - 4096 * 4, SCurrent := 4 } } := by
  simp only [getNextDataDummy, nextGroupDummy_SCurrent, if_pos hS]
  rfl

theorem getNextDataBuffered_lockstep [Sampling β] (id : VoiceId) (h : w.vc.Lockstep)
    (hloop : w.vc.SCurrent % 4 = 0 → w.vc.LoopsAligned) :
    (w.getNextDataBuffered e id).1.vc.Lockstep := by
  by_cases hgroup : w.vc.SCurrent % 4 = 0
  · obtain ⟨hlt, h28, h24, hin⟩ := nextA_spec hgroup h (hloop hgroup)
    obtain ⟨a, ha⟩ := nextGroupBuffered_vc (e := e) (w := w) id.2
    obtain ⟨-, hpos, hle, -, hstart, hloopA⟩ := h
    by_cases hS : w.vc.SCurrent = 28
    · simp only [getNextDataBuffered_block hS, enterBlock, readHeader, ha]
      refine ⟨hlt, Nat.le_refl 1, by simp, by simpa using h28 hS, hstart, ?_⟩
      dsimp only
      split
      · exact blockAddr_lt _
      · exact hloopA
    · simp only [getNextDataBuffered_group hgroup hS, ha]
      refine ⟨hlt, by simp, by dsimp only; omega, ?_, hstart, hloopA⟩
      dsimp only
      split <;> omega
  · obtain ⟨hlt, hpos, hle, hphase, hstart, hloopA⟩ := h
    rw [getNextDataBuffered_inGroup hgroup]
    refine ⟨hlt, by simp, by dsimp only; omega, ?_, hstart, hloopA⟩
    dsimp only
    split at hphase <;> split <;> omega

theorem getNextDataDummy_lockstep {voiceidx : Fin 24} (hgroup : w.vc.SCurrent % 4 = 0)
    (h : w.vc.Lockstep) (hloop : w.vc.LoopsAligned) :
    (w.getNextDataDummy e voiceidx).vc.Lockstep := by
  obtain ⟨hlt, h28, h24, hin⟩ := nextA_spec hgroup h hloop
  obtain ⟨-, hpos, hle, -, hstart, hloopA⟩ := h
  by_cases hS : w.vc.SCurrent = 28
  · simp only [getNextDataDummy_block hS, readHeader, nextGroupDummy_vc]
    refine ⟨hlt, by simp, by simp, by simpa using h28 hS, hstart, ?_⟩
    dsimp only
    split
    · exact blockAddr_lt _
    · exact hloopA
  · simp only [getNextDataDummy_group hS, nextGroupDummy_vc]
    refine ⟨hlt, by dsimp only; omega, by dsimp only; omega, ?_, hstart, hloopA⟩
    dsimp only
    split <;> omega

theorem pull_lockstep [Sampling β] {InterpType : Nat} {id : VoiceId} (h : w.vc.Lockstep)
    (hloop : w.vc.SCurrent % 4 = 0 → w.vc.LoopsAligned) :
    (w.pull InterpType e id).vc.Lockstep := by
  let vc := w.vc
  obtain ⟨hlt, hpos, hle, hphase, hstart, hloopA⟩ := getNextDataBuffered_lockstep (e := e) id
    (w := { w with vc := { vc with
      PV4 := if InterpType ≥ 2 then vc.PV3 else vc.PV4
      PV3 := if InterpType ≥ 2 then vc.PV2 else vc.PV3
      PV2 := vc.PV1 } })
    ⟨h.1, h.2, h.3, h.4, h.5, h.6⟩ hloop
  exact ⟨hlt, hpos, hle, hphase, hstart, hloopA⟩

/-- In the loop of `GetVoiceValues`, every block that sends the voice to the loop address finds
it at the beginning of a block. -/
def PullsAligned [Sampling β] (InterpType : Nat) (e : Bus) (id : VoiceId) : Nat → Walk β → Prop
  | 0, _ => True
  | fuel + 1, w =>
    w.vc.SP > 0 → (w.vc.SCurrent % 4 = 0 → w.vc.LoopsAligned) ∧
      PullsAligned InterpType e id fuel (w.pull InterpType e id)

/-- The same for the loop over `GetNextDataDummy`, which also starts at a group of samples. -/
def SkipsAligned (e : Bus) (voiceidx : Fin 24) : Nat → Walk β → Prop
  | 0, _ => True
  | fuel + 1, w =>
    w.vc.SP > 0 → w.vc.SCurrent % 4 = 0 ∧ w.vc.LoopsAligned ∧
      SkipsAligned e voiceidx fuel (w.getNextDataDummy e voiceidx)

theorem pulls_lockstep [Sampling β] {InterpType : Nat} {id : VoiceId} {fuel : Nat}
    (h : w.vc.Lockstep) (hloop : w.PullsAligned InterpType e id fuel) :
    (w.pulls InterpType e id fuel).vc.Lockstep := by
  induction fuel generalizing w with
  | zero => exact h
  | succ fuel ih =>
    unfold pulls
    split
    case isTrue hSP => exact ih (pull_lockstep h (hloop hSP).1) (hloop hSP).2
    case isFalse => exact h

theorem skips_lockstep {voiceidx : Fin 24} {fuel : Nat} (h : w.vc.Lockstep)
    (hloop : w.SkipsAligned e voiceidx fuel) : (w.skips e voiceidx fuel).vc.Lockstep := by
  induction fuel generalizing w with
  | zero => exact h
  | succ fuel ih =>
    unfold skips
    split
    case isTrue hSP =>
      obtain ⟨hgroup, hal, hrest⟩ := hloop hSP
      exact ih (getNextDataDummy_lockstep hgroup h hal) hrest
    case isFalse => exact h

end Walk

theorem calculateADSR_eq (vc : Voice) :
    calculateADSR vc = { vc with ADSR := (calculateADSR vc).ADSR } := by
  unfold calculateADSR
  split
  · rfl
  · dsimp only
    split <;> rfl

theorem crest_eq (vc : Voice) :
    crest vc = { vc with OutX := (crest vc).OutX, NextCrest := (crest vc).NextCrest } := by
  unfold crest
  dsimp only
  split <;> split <;> rfl

theorem Voice.Lockstep.crest {vc : Voice} (h : vc.Lockstep) :
    (crest (calculateADSR vc)).Lockstep := by
  rw [crest_eq, calculateADSR_eq]
  exact ⟨h.1, h.2, h.3, h.4, h.5, h.6⟩

namespace State

variable {β : Type} {cfg : Config} {s : State β}

/-- The state before an event does not send a voice out of step: a voice that is keyed on starts
at the beginning of a block, blocks are left for the beginning of a block, a voice that is off
is not in the middle of a group of samples, and the second core is not parked. -/
def Steady [Sampling β] (cfg : Config) (s : State β) : Event → Prop
  | .write rmem value => ¬ Parks rmem value
  | .start id =>
    (s.Cores id.1).KeyOn.getLsbD id.2 = true →
      s.Cycles - (s.voice id).PlayCycle ≥ cfg.delayCycles → (s.voice id).StartA % 8 = 0
  | .mix id =>
    let w := s.walk id (s.prepared id)
    ((s.voice id).ADSR.Phase > 0 → (s.voice id).Noise = false →
        w.PullsAligned cfg.Interpolation s.bus id w.vc.SP.toNat) ∧
      ((s.voice id).ADSR.Phase = 0 → w.SkipsAligned s.bus id.2 w.vc.SP.toNat)
  | _ => True

theorem startVoice_lockstep {id : VoiceId} [Sampling β] (h : AllVoices Voice.Lockstep s)
    (hC : Steady cfg s (.start id)) : AllVoices Voice.Lockstep (s.startVoice cfg id) := by
  unfold startVoice
  split
  case isTrue hkey =>
    have hvoice : ((s.voice id).start s.Cycles cfg.delayCycles).1.Lockstep := by
      unfold Voice.start
      split
      case isTrue hplay =>
        have hal := hC hkey hplay
        obtain ⟨-, -, -, -, hstart, hloopA⟩ := h id
        have hor : (s.voice id).StartA ||| 1 = (s.voice id).StartA + 1 :=
          or_one_of_even (by omega)
        simp only [hal, hor, ne_eq, not_true_eq_false, if_false]
        exact ⟨by dsimp only; omega, by simp, by simp, by simp; omega, hstart, hloopA⟩
      case isFalse => exact h id
    dsimp only
    split
    · exact (h.setVoice hvoice).setCore fun v => (h.setVoice hvoice) (id.1, v)
    · exact h.setVoice hvoice
  case isFalse => exact h

theorem mixVoice_lockstep {id : VoiceId} [Sampling β] (h : AllVoices Voice.Lockstep s)
    (hC : Steady cfg s (.mix id)) : AllVoices Voice.Lockstep (s.mixVoice cfg id).1 := by
  have hprep : (s.prepared id).Lockstep :=
    have hv := h id
    ⟨hv.1, hv.2, hv.3, hv.4, hv.5, hv.6⟩
  unfold mixVoice
  split
  case isTrue hon =>
    have hw : (s.voiceSamples cfg id).1.vc.Lockstep := by
      unfold voiceSamples
      dsimp only
      split
      case isTrue => exact hprep
      case isFalse hnoise => exact Walk.pulls_lockstep hprep (hC.1 hon (Bool.eq_false_iff.mpr hnoise))
    generalize s.voiceSamples cfg id = r at hw ⊢
    obtain ⟨w, Seed, Value⟩ := r
    exact AllVoices.writeOutX (s := { s.settle id _ with Seed := Seed })
      (AllVoices.settle h (Voice.Lockstep.crest hw)) id _
  case isFalse hoff =>
    have hskip := Walk.skips_lockstep hprep (hC.2 (by omega))
    exact AllVoices.writeOutX (AllVoices.settle h hskip) id _

theorem AllKept.lockstep {s' : State β} (hkept : AllKept s s')
    (h : AllVoices Voice.Lockstep s) : AllVoices Voice.Lockstep s' := by
  intro id
  obtain ⟨hlt, hpos, hle, hphase, hstart, hloopA⟩ := h id
  obtain ⟨hN, hS, -, hstart', hloopA'⟩ := hkept id
  refine ⟨hN ▸ hlt, hS ▸ hpos, hS ▸ hle, by rw [hN, hS]; exact hphase, ?_, ?_⟩
  · exact hstart'.elim (fun heq => heq ▸ hstart) fun hlt => hlt
  · exact hloopA'.elim (fun heq => heq ▸ hloopA) fun hlt => hlt

variable [Sampling β]

theorem step_lockstep (h : AllVoices Voice.Lockstep s) (ev : Event) (hC : Steady cfg s ev) :
    AllVoices Voice.Lockstep (step cfg s ev).1 := by
  cases ev with
  | write rmem value => exact (spu2write_kept hC).lockstep h
  | dma core pMem => exact (doDMAwrite_kept core pMem).lockstep h
  | read core TSA => exact h.setCore fun v => h (core, v)
  | store addr value => exact h
  | interrupt core => exact h
  | cycle => exact h
  | start id => exact startVoice_lockstep h hC
  | mix id => exact mixVoice_lockstep h hC
  | output => exact h

theorem init_lockstep : Voice.init.Lockstep := by
  constructor <;> decide

omit [Sampling β] in
theorem reset_lockstep (buf : β) : AllVoices Voice.Lockstep (reset buf) :=
  fun _ => init_lockstep

theorem run_lockstep {buf : β} {evs : List Event} (h : Along cfg (Steady cfg) (reset buf) evs) :
    AllVoices Voice.Lockstep (run cfg (reset buf) evs) :=
  h.invariant cfg (fun _ ev hs hC => step_lockstep hs ev hC) (reset_lockstep buf)

end State

end OmegaRed.Spu2
