import OmegaRed.Spu2.Machine
import Mathlib.Tactic.SplitIfs

/-! Histories of the SPU2. -/

namespace OmegaRed.Spu2

inductive Event
  /-- `SPU2write` -/
  | write (rmem : Nat) (value : BitVec 16)
  /-- `SPU2writeDMA4Mem` and `SPU2writeDMA7Mem` without AutoDMA. -/
  | dma (core : Fin 2) (pMem : List (BitVec 16))
  /-- A read by DMA or at the data port moves `TSA`. -/
  | read (core : Fin 2) (TSA : Nat)
  /-- A store of the mixer, the reverb or AutoDMA. -/
  | store (addr : Nat) (value : BitVec 16)
  /-- An interrupt that the reverb, an input or a transfer requests. -/
  | interrupt (core : Fin 2)
  /-- `Cycles++`, after a requested interrupt was delivered. -/
  | cycle
  /-- The key-on test of a tick for one voice. -/
  | start (id : VoiceId)
  /-- `MixVoice` -/
  | mix (id : VoiceId)
  /-- The end of `Mix`, where `OutPos` moves on. -/
  | output

variable {β : Type} [Sampling β] (cfg : Config)

/-- An event, with the samples `MixVoice` reads and what it returns. -/
def step (s : State β) : Event → State β × Option (List Int × Int × Int)
  | .write rmem value => (s.spu2write cfg rmem value, none)
  | .dma core pMem => (s.doDMAwrite core pMem, none)
  | .read core TSA => (s.setCore core { s.Cores core with TSA := TSA }, none)
  | .store addr value => (s.store addr value, none)
  | .interrupt core => ({ s with irq := setIrqCall s.irq core }, none)
  | .cycle => ({ s with irq.has_to_call_irq := false, Cycles := s.Cycles + 1 }, none)
  | .start id => (s.startVoice cfg id, none)
  | .mix id => ((s.mixVoice cfg id).1, some (s.mixSamples cfg id, (s.mixVoice cfg id).2))
  | .output => ({ s with OutPos := if s.OutPos + 1 ≥ 0x200 then 0 else s.OutPos + 1 }, none)

def run : State β → List Event → State β
  | s, [] => s
  | s, ev :: evs => run (step cfg s ev).1 evs

/-- What each event of a run returns. -/
def outputs : State β → List Event → List (Option (List Int × Int × Int))
  | _, [] => []
  | s, ev :: evs => (step cfg s ev).2 :: outputs (step cfg s ev).1 evs

/-- A condition on every event of a run and the state before it. -/
def Along (C : State β → Event → Prop) : State β → List Event → Prop
  | _, [] => True
  | s, ev :: evs => C s ev ∧ Along C (step cfg s ev).1 evs

theorem Along.invariant {C : State β → Event → Prop} {Inv : State β → Prop}
    (hstep : ∀ s ev, Inv s → C s ev → Inv (step cfg s ev).1) {s : State β} {evs : List Event}
    (h : Along cfg C s evs) (hs : Inv s) : Inv (run cfg s evs) := by
  induction evs generalizing s with
  | nil => exact hs
  | cons ev evs ih => exact ih h.2 (hstep s ev hs h.1)

namespace State

variable {s : State β} {P : Voice → Prop}

/-- Every voice satisfies `P`. -/
def AllVoices (P : Voice → Prop) (s : State β) : Prop := ∀ id, P (s.voice id)

omit [Sampling β]

theorem voice_setVoice (s : State β) (id id' : VoiceId) (vc : Voice) :
    (s.setVoice id vc).voice id' = if id' = id then vc else s.voice id' := by
  obtain ⟨core, v⟩ := id
  obtain ⟨core', v'⟩ := id'
  by_cases hc : core' = core
  · subst hc
    by_cases hv : v' = v
    · subst hv
      simp [voice, setVoice, setCore]
    · simp [voice, setVoice, setCore, hv]
  · simp [voice, setVoice, setCore, hc]

theorem voice_setCore (s : State β) (core : Fin 2) (c : Core) (id : VoiceId)
    (hc : c.Voices = (s.Cores core).Voices) : (s.setCore core c).voice id = s.voice id := by
  by_cases hid : id.1 = core
  · subst hid
    simp [voice, setCore, hc]
  · simp [voice, setCore, hid]

theorem voice_settle (s : State β) (id id' : VoiceId) (w : Walk β) :
    (s.settle id w).voice id' = if id' = id then w.vc else s.voice id' := by
  have h := voice_setVoice (s.setCore id.1 { s.Cores id.1 with ENDX := w.ENDX }) id id' w.vc
  exact h.trans (by rw [voice_setCore s id.1 { s.Cores id.1 with ENDX := w.ENDX } id' rfl])

theorem voice_writeOutX (s : State β) (id id' : VoiceId) (x : Int) :
    (s.writeOutX id x).voice id' = s.voice id' := by
  unfold writeOutX
  split <;> rfl

theorem AllVoices.setVoice (h : AllVoices P s) {id : VoiceId} {vc : Voice} (hvc : P vc) :
    AllVoices P (s.setVoice id vc) := by
  intro id'
  rw [voice_setVoice]
  split
  · exact hvc
  · exact h id'

theorem AllVoices.setCore (h : AllVoices P s) {core : Fin 2} {c : Core}
    (hc : ∀ v, P (c.Voices v)) : AllVoices P (s.setCore core c) := by
  intro id
  by_cases hid : id.1 = core
  · simpa [voice, State.setCore, hid] using hc id.2
  · simpa [voice, State.setCore, hid] using h id

theorem AllVoices.settle (h : AllVoices P s) {id : VoiceId} {w : Walk β} (hw : P w.vc) :
    AllVoices P (s.settle id w) :=
  (AllVoices.setVoice (s := s.setCore id.1 { s.Cores id.1 with ENDX := w.ENDX })
    (h.setCore fun v => h (id.1, v)) hw)

theorem AllVoices.writeOutX (h : AllVoices P s) (id : VoiceId) (x : Int) :
    AllVoices P (s.writeOutX id x) := by
  unfold State.writeOutX
  split
  · exact h
  · exact h

end State

end OmegaRed.Spu2

/-! What register and memory writes do to the voices and to their samples. -/

namespace OmegaRed.Spu2

/-- A write leaves the position of a voice and its being on or off alone, and the addresses it
sets are in range. -/
structure Voice.Kept (vc vc' : Voice) : Prop where
  NextA : vc'.NextA = vc.NextA
  SCurrent : vc'.SCurrent = vc.SCurrent
  Phase : vc'.ADSR.Phase = vc.ADSR.Phase
  StartA : vc'.StartA = vc.StartA ∨ vc'.StartA < 0x100000
  LoopStartA : vc'.LoopStartA = vc.LoopStartA ∨ vc'.LoopStartA < 0x100000

theorem Voice.Kept.refl (vc : Voice) : vc.Kept vc := ⟨rfl, rfl, rfl, .inl rfl, .inl rfl⟩

theorem Voice.Kept.value (vc : Voice) (Value : Int) :
    vc.Kept { vc with ADSR := { vc.ADSR with Value := Value } } :=
  ⟨rfl, rfl, rfl, .inl rfl, .inl rfl⟩

namespace State

variable {β γ : Type} {cfg : Config} {s s' : State β}

/-- Every voice is kept. -/
def AllKept (s s' : State β) : Prop := ∀ id, (s.voice id).Kept (s'.voice id)

theorem AllKept.refl (s : State β) : AllKept s s := fun _ => Voice.Kept.refl _

theorem AllKept.setVoice {id : VoiceId} {vc : Voice} (hvc : (s.voice id).Kept vc) :
    AllKept s (s.setVoice id vc) := by
  intro id'
  rw [voice_setVoice]
  split
  case isTrue heq =>
    subst heq
    exact hvc
  case isFalse => exact Voice.Kept.refl _

theorem AllKept.setCore {core : Fin 2} {c : Core}
    (hc : ∀ v, ((s.Cores core).Voices v).Kept (c.Voices v)) : AllKept s (s.setCore core c) := by
  intro id
  by_cases hid : id.1 = core
  · subst hid
    simpa [voice, State.setCore] using hc id.2
  · simpa [voice, State.setCore, hid] using Voice.Kept.refl _

theorem setAddrHi_lt (addr : Nat) (value : BitVec 16) : setAddrHi addr value < 0x100000 := by
  unfold setAddrHi
  omega

theorem setAddrLo_lt (addr : Nat) (value : BitVec 16) : setAddrLo addr value < 0x100000 := by
  unfold setAddrLo
  omega

theorem mapSpu1to2_lt (value : BitVec 16) : mapSpu1to2 value.toNat < 0x100000 := by
  unfold mapSpu1to2
  have := value.isLt
  split <;> omega

theorem regWriteVoiceParams_kept (id : VoiceId) (param : Nat) (value : BitVec 16) :
    AllKept s (s.regWriteVoiceParams id param value) := by
  unfold regWriteVoiceParams
  dsimp only
  split
  case h_6 => exact .refl s
  all_goals exact .setVoice ⟨rfl, rfl, rfl, .inl rfl, .inl rfl⟩

theorem regWriteVoiceAddr_kept (id : VoiceId) (address : Nat) (value : BitVec 16) :
    AllKept s (s.regWriteVoiceAddr id address value) := by
  unfold regWriteVoiceAddr
  dsimp only
  split
  · exact .setVoice ⟨rfl, rfl, rfl, .inr (setAddrHi_lt _ _), .inl rfl⟩
  · exact .setVoice ⟨rfl, rfl, rfl, .inr (setAddrLo_lt _ _), .inl rfl⟩
  · exact .setVoice ⟨rfl, rfl, rfl, .inl rfl, .inr (setAddrHi_lt _ _)⟩
  · exact .setVoice ⟨rfl, rfl, rfl, .inl rfl, .inr (setAddrLo_lt _ _)⟩
  · exact .refl s

theorem setBits_kept {core : Fin 2} {hi : Bool} {first : Nat} {value : BitVec 16}
    {put : Voice → Bool → Voice} (hput : ∀ (vc : Voice) b, vc.Kept (put vc b)) :
    AllKept s (s.setBits core hi first value put) := by
  refine .setCore fun v => ?_
  dsimp only
  generalize (if hi then 16 else 0) = base
  split
  · exact hput _ _
  · exact .refl _

theorem startVoices_kept (core : Fin 2) (value : BitVec 32) :
    AllKept s (s.startVoices cfg core value) := by
  refine .setCore fun v => ?_
  dsimp only
  split
  · unfold Voice.queueStart
    split <;> exact ⟨rfl, rfl, rfl, .inl rfl, .inl rfl⟩
  · exact .refl _

theorem stopVoices_kept (core : Fin 2) (value : BitVec 32) :
    AllKept s (s.stopVoices core value) := by
  refine .setCore fun v => ?_
  dsimp only
  split <;> exact ⟨rfl, rfl, rfl, .inl rfl, .inl rfl⟩

theorem setCore_kept {core : Fin 2} {c : Core} (hc : c.Voices = (s.Cores core).Voices) :
    AllKept s (s.setCore core c) :=
  .setCore fun _ => hc ▸ .refl _

theorem setAttr_kept (core : Fin 2) (value : BitVec 16) : AllKept s (s.setAttr core value) := by
  have hset : AllKept s (s.setCore core { s.Cores core with IRQEnable := value.getLsbD 6 }) :=
    setCore_kept rfl
  unfold setAttr
  dsimp only
  split <;> exact hset

theorem writeVoicePS1_kept (voice : Fin 24) (vval : Nat) (value : BitVec 16) :
    AllKept s (s.writeVoicePS1 voice vval value) := by
  unfold writeVoicePS1
  dsimp only
  split
  case h_4 => exact .setVoice ⟨rfl, rfl, rfl, .inr (mapSpu1to2_lt value), .inl rfl⟩
  case h_7 => exact .setVoice (.value _ _)
  case h_8 => exact .setVoice ⟨rfl, rfl, rfl, .inl rfl, .inr (mapSpu1to2_lt value)⟩
  case h_9 => exact .refl s
  all_goals exact .setVoice ⟨rfl, rfl, rfl, .inl rfl, .inl rfl⟩

section Sampling

variable [Sampling β]

theorem dmaWrite_kept (core : Fin 2) (value : BitVec 16) : AllKept s (s.dmaWrite core value) := by
  have hset : AllKept s (s.setCore core
      { s.Cores core with TSA := ((s.Cores core).TSA + 1) % 0x100000 }) := setCore_kept rfl
  unfold dmaWrite writeMem
  dsimp only
  split <;> exact hset

theorem doDMAwrite_kept (core : Fin 2) (pMem : List (BitVec 16)) :
    AllKept s (s.doDMAwrite core pMem) := by
  unfold doDMAwrite
  split
  · exact .refl s
  · exact setCore_kept (s := s) rfl

/-- Whether a write parks the voices of the second core. -/
def Parks (rmem : Nat) (value : BitVec 16) : Prop :=
  rmem / 2 ^ 16 ≠ 0x1f80 ∧ rmem % 0x800 / 2 * 2 % 0x400 = 0x1b0 ∧ value = 32767

theorem regWriteCore_kept (core : Fin 2) (omem : Nat) (value : BitVec 16)
    (hpark : ¬ (omem = 0x1b0 ∧ value = 32767)) :
    AllKept s (s.regWriteCore cfg core omem value) := by
  unfold regWriteCore
  dsimp only
  split
  case h_1 | h_2 | h_3 | h_4 => exact setBits_kept fun _ _ => ⟨rfl, rfl, rfl, .inl rfl, .inl rfl⟩
  case h_5 => exact setAttr_kept core value
  case h_8 | h_9 => exact startVoices_kept core _
  case h_10 | h_11 => exact stopVoices_kept core _
  case h_14 => exact dmaWrite_kept (s := s.testIrq _) core value
  case h_15 =>
    rw [if_neg fun hv => hpark ⟨rfl, hv⟩]
    exact .refl s
  case h_18 => exact .refl s
  all_goals exact setCore_kept rfl

theorem fastWrite_kept (rmem : Nat) (value : BitVec 16)
    (hpark : ¬ (rmem % 0x800 / 2 * 2 % 0x400 = 0x1b0 ∧ value = 32767)) :
    AllKept s (s.fastWrite cfg rmem value) := by
  unfold fastWrite
  dsimp only
  generalize (if rmem % 0x800 / 2 * 2 < 0x400 then (0 : Fin 2) else 1) = core
  split_ifs
  · exact .refl s
  · exact .refl s
  · exact regWriteVoiceParams_kept _ _ _
  · exact regWriteVoiceAddr_kept _ _ _
  · exact regWriteCore_kept _ _ _ hpark

theorem forwardPS1_ne {reg rmem : Nat} (h : forwardPS1 reg = some rmem) :
    rmem % 0x800 / 2 * 2 % 0x400 ≠ 0x1b0 := by
  unfold forwardPS1 at h
  split at h <;> cases h <;> decide

theorem writeRegPS1_kept (mem : Nat) (value : BitVec 16) :
    AllKept s (s.writeRegPS1 cfg mem value) := by
  unfold writeRegPS1
  dsimp only
  cases hreg : forwardPS1 (mem % 0x10000) with
  | some rmem =>
    dsimp only
    split_ifs
    · exact writeVoicePS1_kept _ _ _
    · exact fastWrite_kept _ _ fun h => forwardPS1_ne hreg h.1
  | none =>
    dsimp only
    generalize (if (s.Cores 0).IRQEnable = true ∧ (s.Cores 0).IRQA ≤ (s.Cores 0).TSA then
      setIrqCall s.irq 0 else s.irq) = irq
    split_ifs
    · exact writeVoicePS1_kept _ _ _
    · exact setCore_kept rfl
    · exact setCore_kept rfl
    · exact dmaWrite_kept (s := { s with irq := irq }) 0 value
    · exact .refl s

theorem spu2write_kept {rmem : Nat} {value : BitVec 16} (hpark : ¬ Parks rmem value) :
    AllKept s (s.spu2write cfg rmem value) := by
  unfold spu2write
  split
  case isTrue => exact writeRegPS1_kept _ _
  case isFalse hps2 => exact fastWrite_kept _ _ fun h => hpark ⟨hps2, h⟩

end Sampling

end State

end OmegaRed.Spu2
