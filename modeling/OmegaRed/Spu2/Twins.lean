import OmegaRed.Spu2.Lockstep

/-! Two machines that differ in where their voices have the decoded samples. -/

namespace OmegaRed.Spu2

variable {β γ : Type}

/-- The first sample of its block that a voice has still to read while it is on. -/
def Voice.pending (vc : Voice) : Nat := if vc.ADSR.Phase > 0 then vc.SCurrent else 28

def State.pending (s : State β) (id : VoiceId) : Nat := (s.voice id).pending

/-- What relates the samples of two machines, given the samples their voices have still to read:
it survives what the machines do to their samples, where `E` holds before a block is entered. -/
structure Sharing [Sampling β] [Sampling γ] (Match : (VoiceId → Nat) → β → γ → Prop)
    (E : (VoiceId → Nat) → VoiceId → β → γ → Mem → Nat → Int → Int → Prop) : Prop where
  mono : ∀ {p p' b c}, (∀ u, p u ≤ p' u) → Match p b c → Match p' b c
  invalidate : ∀ {p b c} i, Match p b c →
    Match p (Sampling.invalidate b i) (Sampling.invalidate c i)
  sample : ∀ {p b c} id {i}, Match p b c → p id ≤ i → i < 28 →
    Sampling.sample b id i = Sampling.sample c id i
  enter : ∀ {p b c id mem NextA Prev1 Prev2}, E p id b c mem NextA Prev1 Prev2 → p id = 28 →
    Match p b c →
    Match (Function.update p id 0) (Sampling.enter b id mem NextA Prev1 Prev2).1
        (Sampling.enter c id mem NextA Prev1 Prev2).1 ∧
      (Sampling.enter b id mem NextA Prev1 Prev2).2 = (Sampling.enter c id mem NextA Prev1 Prev2).2

namespace Walk

/-- The same voice with other samples. -/
def withBuf (w : Walk β) (c : γ) : Walk γ := ⟨w.vc, w.ENDX, w.irq, c⟩

theorem nextGroupBuffered_withBuf (w : Walk β) (c : γ) (e : Bus) (voiceidx : Fin 24) :
    (w.withBuf c).nextGroupBuffered e voiceidx = (w.nextGroupBuffered e voiceidx).withBuf c := by
  unfold nextGroupBuffered
  dsimp only
  rw [apply_ite (withBuf · c), apply_ite (withBuf · c), apply_ite (withBuf · c)]
  rfl

theorem nextGroupDummy_withBuf (w : Walk β) (c : γ) (e : Bus) (voiceidx : Fin 24) :
    (w.withBuf c).nextGroupDummy e voiceidx = (w.nextGroupDummy e voiceidx).withBuf c := by
  unfold nextGroupDummy
  dsimp only
  rw [apply_ite (withBuf · c), apply_ite (withBuf · c)]
  rfl

theorem nextGroupBuffered_buf (w : Walk β) (e : Bus) (voiceidx : Fin 24) :
    (w.nextGroupBuffered e voiceidx).buf = w.buf := by
  have h : w.nextGroupBuffered e voiceidx = (w.nextGroupBuffered e voiceidx).withBuf w.buf :=
    nextGroupBuffered_withBuf w w.buf e voiceidx
  rw [h]
  rfl

theorem getNextDataDummy_withBuf (w : Walk β) (c : γ) (e : Bus) (voiceidx : Fin 24) :
    (w.withBuf c).getNextDataDummy e voiceidx = (w.getNextDataDummy e voiceidx).withBuf c := by
  by_cases hS : w.vc.SCurrent = 28
  · rw [getNextDataDummy_block hS, getNextDataDummy_block (w := w.withBuf c) hS,
      nextGroupDummy_withBuf]
    rfl
  · rw [getNextDataDummy_group hS, getNextDataDummy_group (w := w.withBuf c) hS,
      nextGroupDummy_withBuf]
    rfl

theorem skips_withBuf (w : Walk β) (c : γ) (e : Bus) (voiceidx : Fin 24) (fuel : Nat) :
    (w.withBuf c).skips e voiceidx fuel = (w.skips e voiceidx fuel).withBuf c := by
  induction fuel generalizing w with
  | zero => rfl
  | succ fuel ih =>
    simp only [skips, getNextDataDummy_withBuf, ih]
    rw [apply_ite (withBuf · c)]
    rfl

theorem skips_pending {w : Walk β} (e : Bus) (voiceidx : Fin 24) (fuel : Nat)
    (h : w.vc.SCurrent ≤ 28) :
    (w.skips e voiceidx fuel).vc.ADSR = w.vc.ADSR ∧
      (w.skips e voiceidx fuel).vc.SCurrent ≤ 28 := by
  induction fuel generalizing w with
  | zero => exact ⟨rfl, h⟩
  | succ fuel ih =>
    unfold skips
    split
    · have hstep : (w.getNextDataDummy e voiceidx).vc.ADSR = w.vc.ADSR ∧
          (w.getNextDataDummy e voiceidx).vc.SCurrent ≤ 28 := by
        by_cases hS : w.vc.SCurrent = 28
        · simp [getNextDataDummy_block hS, readHeader, nextGroupDummy_vc]
        · simp only [getNextDataDummy_group hS, nextGroupDummy_vc, true_and]
          omega
      rw [← hstep.1]
      exact ih hstep.2
    · exact ⟨rfl, h⟩

variable [Sampling β] [Sampling γ] {Match : (VoiceId → Nat) → β → γ → Prop}
  {E : (VoiceId → Nat) → VoiceId → β → γ → Mem → Nat → Int → Int → Prop}

/-- The same voice in two machines. -/
structure Twins (Match : (VoiceId → Nat) → β → γ → Prop) (p : VoiceId → Nat) (id : VoiceId)
    (w : Walk β) (v : Walk γ) : Prop where
  same : v = w.withBuf v.buf
  pos : w.vc.SCurrent ≤ 28
  bufs : Match (Function.update p id w.vc.SCurrent) w.buf v.buf

variable {p : VoiceId → Nat} {id : VoiceId} {w : Walk β} {v : Walk γ} {e : Bus}

theorem update_le {p : VoiceId → Nat} {id : VoiceId} {i j : Nat} (h : i ≤ j) (u : VoiceId) :
    Function.update p id i u ≤ Function.update p id j u := by
  by_cases hu : u = id
  · subst hu
    simpa using h
  · simp [hu]

theorem Twins.getNextDataBuffered (hshare : Sharing Match E) (h : Twins Match p id w v)
    (hentry : w.vc.SCurrent = 28 → E (Function.update p id 28) id w.buf v.buf e.mem
      (nextA w.vc) w.vc.Prev1 w.vc.Prev2) :
    Twins Match p id (w.getNextDataBuffered e id).1 (v.getNextDataBuffered e id).1 ∧
      (w.getNextDataBuffered e id).2 = (v.getNextDataBuffered e id).2 := by
  obtain ⟨c, rfl⟩ : ∃ c, v = w.withBuf c := ⟨v.buf, h.same⟩
  obtain ⟨-, hpos, hbufs⟩ := h
  have hget : ∀ i, w.vc.SCurrent ≤ i → i < 28 →
      Sampling.sample w.buf id i = Sampling.sample c id i := fun i hi hlt =>
    hshare.sample id hbufs (by simpa using hi) hlt
  by_cases hS : w.vc.SCurrent = 28
  · obtain ⟨a, ha⟩ := nextGroupBuffered_vc (e := e) (w := w) id.2
    obtain ⟨hmatch, hprev⟩ := hshare.enter (hentry hS) (by simp) (hS ▸ hbufs)
    rw [Function.update_idem] at hmatch
    have hfirst := hshare.sample id (i := 0) hmatch (by simp) (by decide)
    rw [getNextDataBuffered_block hS, getNextDataBuffered_block (w := w.withBuf c) hS,
      nextGroupBuffered_withBuf]
    simp only [enterBlock, readHeader, withBuf, nextGroupBuffered_buf, ha]
    refine ⟨⟨?_, by simp, ?_⟩, hfirst⟩
    · simp only [withBuf, Walk.mk.injEq, Voice.mk.injEq, true_and, and_true]
      exact ⟨congrArg Prod.fst hprev.symm, congrArg Prod.snd hprev.symm⟩
    · exact hshare.mono (update_le (Nat.zero_le 1)) hmatch
  · have hread := hget w.vc.SCurrent (Nat.le_refl _) (by omega)
    by_cases hgroup : w.vc.SCurrent % 4 = 0
    · rw [getNextDataBuffered_group hgroup hS,
        getNextDataBuffered_group (w := w.withBuf c) hgroup hS, nextGroupBuffered_withBuf]
      refine ⟨⟨rfl, by dsimp only; omega, ?_⟩, ?_⟩
      · rw [nextGroupBuffered_buf]
        exact hshare.mono (update_le (Nat.le_succ _)) hbufs
      · dsimp only
        rw [nextGroupBuffered_buf]
        exact hread
    · rw [getNextDataBuffered_inGroup hgroup, getNextDataBuffered_inGroup (w := w.withBuf c) hgroup]
      refine ⟨⟨rfl, by dsimp only; omega, ?_⟩, hread⟩
      exact hshare.mono (update_le (Nat.le_succ _)) hbufs

/-- Every block that is entered in the loop of `GetVoiceValues` satisfies `E`. -/
def PullsEnter (E : (VoiceId → Nat) → VoiceId → β → γ → Mem → Nat → Int → Int → Prop)
    (p : VoiceId → Nat) (InterpType : Nat) (e : Bus) (id : VoiceId) :
    Nat → Walk β → Walk γ → Prop
  | 0, _, _ => True
  | fuel + 1, w, v =>
    w.vc.SP > 0 → (w.vc.SCurrent = 28 → E (Function.update p id 28) id w.buf v.buf e.mem
        (nextA w.vc) w.vc.Prev1 w.vc.Prev2) ∧
      PullsEnter E p InterpType e id fuel (w.pull InterpType e id) (v.pull InterpType e id)

omit [Sampling β] [Sampling γ] in
theorem pulled_withBuf {w : Walk β} {v : Walk γ} {x y : Int} (hsame : v = w.withBuf v.buf)
    (hread : x = y) :
    ({ v with vc := { v.vc with PV1 := y, SP := v.vc.SP - 4096 } } : Walk γ) =
      withBuf { w with vc := { w.vc with PV1 := x, SP := w.vc.SP - 4096 } } v.buf := by
  rw [hsame, hread]
  rfl

theorem Twins.pull (InterpType : Nat) (hshare : Sharing Match E) (h : Twins Match p id w v)
    (hentry : w.vc.SCurrent = 28 → E (Function.update p id 28) id w.buf v.buf e.mem
      (nextA w.vc) w.vc.Prev1 w.vc.Prev2) :
    Twins Match p id (w.pull InterpType e id) (v.pull InterpType e id) := by
  obtain ⟨c, rfl⟩ : ∃ c, v = w.withBuf c := ⟨v.buf, h.same⟩
  let vc := w.vc
  let w' : Walk β := { w with vc := { vc with
    PV4 := if InterpType ≥ 2 then vc.PV3 else vc.PV4
    PV3 := if InterpType ≥ 2 then vc.PV2 else vc.PV3
    PV2 := vc.PV1 } }
  have h' : Twins Match p id w' (w'.withBuf c) := ⟨rfl, h.pos, h.bufs⟩
  obtain ⟨⟨hsame, hpos, hbufs⟩, hread⟩ := h'.getNextDataBuffered (e := e) hshare hentry
  exact ⟨pulled_withBuf hsame hread, hpos, hbufs⟩

theorem Twins.pulls {InterpType fuel : Nat} (hshare : Sharing Match E) (h : Twins Match p id w v)
    (hentry : PullsEnter E p InterpType e id fuel w v) :
    Twins Match p id (w.pulls InterpType e id fuel) (v.pulls InterpType e id fuel) := by
  induction fuel generalizing w v with
  | zero => exact h
  | succ fuel ih =>
    have hSP : v.vc.SP = w.vc.SP := by
      rw [h.same]
      rfl
    by_cases hpos : w.vc.SP > 0
    · obtain ⟨hfirst, hrest⟩ := hentry hpos
      rw [Walk.pulls, Walk.pulls, if_pos hpos, if_pos (hSP ▸ hpos)]
      exact ih (h.pull _ hshare hfirst) hrest
    · rw [Walk.pulls, Walk.pulls, if_neg hpos, if_neg (hSP ▸ hpos)]
      exact h

theorem Twins.pulled {InterpType fuel : Nat} (hshare : Sharing Match E) (h : Twins Match p id w v)
    (hentry : PullsEnter E p InterpType e id fuel w v) :
    w.pulled InterpType e id fuel = v.pulled InterpType e id fuel := by
  induction fuel generalizing w v with
  | zero => rfl
  | succ fuel ih =>
    have hSP : v.vc.SP = w.vc.SP := by
      rw [h.same]
      rfl
    by_cases hpos : w.vc.SP > 0
    · obtain ⟨hfirst, hrest⟩ := hentry hpos
      have hpull := h.pull InterpType hshare hfirst
      have hPV1 : (v.pull InterpType e id).vc.PV1 = (w.pull InterpType e id).vc.PV1 := by
        rw [hpull.same]
        rfl
      rw [Walk.pulled, Walk.pulled, if_pos hpos, if_pos (hSP ▸ hpos), hPV1, ih hpull hrest]
    · rw [Walk.pulled, Walk.pulled, if_neg hpos, if_neg (hSP ▸ hpos)]

end Walk

namespace State

/-- The same machine with other samples. -/
def withBuf (s : State β) (c : γ) : State γ :=
  ⟨s.Cores, s.mem, s.irq, s.Cycles, s.OutPos, s.Seed, c⟩

variable {cfg : Config} (s : State β) (c : γ)

theorem writeOutX_withBuf (id : VoiceId) (x : Int) :
    (s.withBuf c).writeOutX id x = (s.writeOutX id x).withBuf c := by
  unfold writeOutX
  split <;> rfl

theorem startVoice_withBuf (id : VoiceId) :
    (s.withBuf c).startVoice cfg id = (s.startVoice cfg id).withBuf c := by
  unfold startVoice
  dsimp only
  rw [apply_ite (withBuf · c), apply_ite (withBuf · c)]
  rfl

theorem regWriteVoiceParams_withBuf (id : VoiceId) (param : Nat) (value : BitVec 16) :
    (s.withBuf c).regWriteVoiceParams id param value =
      (s.regWriteVoiceParams id param value).withBuf c := by
  unfold regWriteVoiceParams
  dsimp only
  split <;> rfl

theorem regWriteVoiceAddr_withBuf (id : VoiceId) (address : Nat) (value : BitVec 16) :
    (s.withBuf c).regWriteVoiceAddr id address value =
      (s.regWriteVoiceAddr id address value).withBuf c := by
  unfold regWriteVoiceAddr
  dsimp only
  split <;> rfl

theorem setAttr_withBuf (core : Fin 2) (value : BitVec 16) :
    (s.withBuf c).setAttr core value = (s.setAttr core value).withBuf c := by
  unfold setAttr
  dsimp only
  rw [apply_ite (withBuf · c)]
  rfl

theorem writeVoicePS1_withBuf (voice : Fin 24) (vval : Nat) (value : BitVec 16) :
    (s.withBuf c).writeVoicePS1 voice vval value =
      (s.writeVoicePS1 voice vval value).withBuf c := by
  unfold writeVoicePS1
  dsimp only
  split <;> rfl

section Sampling

variable {s} [Sampling β]

/-- All that a function does to the samples is to invalidate blocks. -/
def Invalidates (f : ∀ γ : Type, Sampling γ → State γ → State γ) (s : State β) : Prop :=
  ∃ l : List Nat, ∀ (γ : Type) (inst : Sampling γ) (c : γ),
    f γ inst (s.withBuf c) = (f β inferInstance s).withBuf (l.foldl Sampling.invalidate c)

theorem Invalidates.of_withBuf {f : ∀ γ : Type, Sampling γ → State γ → State γ}
    (h : ∀ (γ : Type) (inst : Sampling γ) (c : γ),
      f γ inst (s.withBuf c) = (f β inferInstance s).withBuf c) : Invalidates f s :=
  ⟨[], h⟩

theorem dmaWrite_invalidates (core : Fin 2) (value : BitVec 16) :
    Invalidates (fun _ _ s => s.dmaWrite core value) s := by
  by_cases hdyn : (s.Cores core).TSA % 0x100000 ≥ SPU2_DYN_MEMLINE
  · refine ⟨[(s.Cores core).TSA % 0x100000 / pcm_WordsPerBlock], fun γ _ c => ?_⟩
    simp [dmaWrite, writeMem, withBuf, hdyn, setCore, store]
  · refine ⟨[], fun γ _ c => ?_⟩
    simp [dmaWrite, writeMem, withBuf, hdyn, setCore, store]

theorem doDMAwrite_invalidates (core : Fin 2) (pMem : List (BitVec 16)) :
    Invalidates (fun _ _ s => s.doDMAwrite core pMem) s := by
  by_cases hlen : pMem.length < 2
  · refine .of_withBuf fun γ _ c => ?_
    simp [doDMAwrite, hlen]
  · let TSA := (s.Cores core).TSA % 0x100000
    let last := (min (TSA + pMem.length) 0x100000 + pcm_WordsPerBlock - 1) / pcm_WordsPerBlock
    refine ⟨List.range' (TSA / pcm_WordsPerBlock) (last - TSA / pcm_WordsPerBlock),
      fun γ _ c => ?_⟩
    simp only [doDMAwrite, if_neg hlen]
    rfl

theorem regWriteCore_invalidates (core : Fin 2) (omem : Nat) (value : BitVec 16) :
    Invalidates (fun _ _ s => s.regWriteCore cfg core omem value) s := by
  by_cases hport : omem = 0x1ac
  · subst hport
    exact dmaWrite_invalidates (s := s.testIrq (· == (s.Cores core).TSA)) core value
  · refine .of_withBuf fun γ _ c => ?_
    unfold regWriteCore
    dsimp only
    split
    case h_5 => exact setAttr_withBuf s c core value
    case h_14 => exact absurd rfl hport
    case h_15 =>
      rw [apply_ite (withBuf · c)]
      rfl
    all_goals rfl

theorem fastWrite_invalidates (rmem : Nat) (value : BitVec 16) :
    Invalidates (fun _ _ s => s.fastWrite cfg rmem value) s := by
  unfold fastWrite
  dsimp only
  generalize (if rmem % 0x800 / 2 * 2 < 0x400 then (0 : Fin 2) else 1) = core
  split_ifs
  · exact .of_withBuf fun _ _ _ => rfl
  · exact .of_withBuf fun _ _ _ => rfl
  · exact .of_withBuf fun _ _ c => regWriteVoiceParams_withBuf s c _ _ _
  · exact .of_withBuf fun _ _ c => regWriteVoiceAddr_withBuf s c _ _ _
  · exact regWriteCore_invalidates _ _ _

theorem writeRegPS1_invalidates (mem : Nat) (value : BitVec 16) :
    Invalidates (fun _ _ s => s.writeRegPS1 cfg mem value) s := by
  unfold writeRegPS1
  dsimp only
  cases hreg : forwardPS1 (mem % 0x10000) with
  | some rmem =>
    dsimp only
    split_ifs
    · exact .of_withBuf fun _ _ c => writeVoicePS1_withBuf s c _ _ _
    · exact fastWrite_invalidates _ _
  | none =>
    dsimp only
    split_ifs
    · exact .of_withBuf fun _ _ c => writeVoicePS1_withBuf s c _ _ _
    · exact .of_withBuf fun _ _ _ => rfl
    · exact .of_withBuf fun _ _ _ => rfl
    · let irq := if (s.Cores 0).IRQEnable = true ∧ (s.Cores 0).IRQA ≤ (s.Cores 0).TSA then
        setIrqCall s.irq 0 else s.irq
      obtain ⟨l, hl⟩ := dmaWrite_invalidates (s := { s with irq := irq }) 0 value
      exact ⟨l, hl⟩
    · exact .of_withBuf fun _ _ _ => rfl

theorem spu2write_invalidates (rmem : Nat) (value : BitVec 16) :
    Invalidates (fun _ _ s => s.spu2write cfg rmem value) s := by
  unfold spu2write
  split_ifs
  · exact writeRegPS1_invalidates _ _
  · exact fastWrite_invalidates _ _

end Sampling

/-! Steps of two machines -/

/-- The same machine with other samples, that agree as far as they are still to be read. -/
structure Twins (Match : (VoiceId → Nat) → β → γ → Prop) (s : State β) (r : State γ) : Prop where
  same : r = s.withBuf r.buf
  pos : ∀ id, (s.voice id).SCurrent ≤ 28
  bufs : Match s.pending s.buf r.buf

variable {s} [Sampling β] [Sampling γ] {Match : (VoiceId → Nat) → β → γ → Prop}
  {E : (VoiceId → Nat) → VoiceId → β → γ → Mem → Nat → Int → Int → Prop} {r : State γ}

theorem invalidate_foldl (hshare : Sharing Match E) {p : VoiceId → Nat} {b : β} {c : γ}
    (h : Match p b c) (l : List Nat) :
    Match p (l.foldl Sampling.invalidate b) (l.foldl Sampling.invalidate c) := by
  induction l generalizing b c with
  | nil => exact h
  | cons i l ih => exact ih (hshare.invalidate i h)

/-- A step that invalidates blocks at most, and after which no voice has more to read. -/
theorem Twins.of_invalidates (hshare : Sharing Match E) (h : Twins Match s r)
    {f : ∀ γ : Type, Sampling γ → State γ → State γ} (hf : Invalidates f s)
    (hpend : ∀ id, s.pending id ≤ (f β inferInstance s).pending id ∧
      ((f β inferInstance s).voice id).SCurrent ≤ 28) :
    Twins Match (f β inferInstance s) (f γ inferInstance r) := by
  obtain ⟨c, rfl⟩ : ∃ c, r = s.withBuf c := ⟨r.buf, h.same⟩
  obtain ⟨l, hl⟩ := hf
  have hs : f β inferInstance s =
      (f β inferInstance s).withBuf (l.foldl Sampling.invalidate s.buf) := hl β inferInstance s.buf
  have hbuf : (f β inferInstance s).buf = l.foldl Sampling.invalidate s.buf := by
    rw [hs]
    rfl
  rw [hl γ inferInstance c]
  refine ⟨rfl, fun id => (hpend id).2, ?_⟩
  rw [hbuf]
  exact hshare.mono (fun id => (hpend id).1) (invalidate_foldl hshare h.bufs l)

omit [Sampling β] in
theorem AllKept.pending {s' : State β} (h : AllKept s s') (hpos : ∀ id, (s.voice id).SCurrent ≤ 28)
    (id : VoiceId) : s.pending id ≤ s'.pending id ∧ (s'.voice id).SCurrent ≤ 28 := by
  obtain ⟨-, hS, hphase, -, -⟩ := h id
  simp only [State.pending, Voice.pending, hS, hphase]
  exact ⟨Nat.le_refl _, hpos id⟩

omit [Sampling β] in
theorem pending_le (hpos : ∀ id, (s.voice id).SCurrent ≤ 28) (id : VoiceId) :
    s.pending id ≤ 28 := by
  simp only [State.pending, Voice.pending]
  split
  · exact hpos id
  · exact Nat.le_refl _

theorem spu2write_parks {rmem : Nat} {value : BitVec 16} (hpark : Parks rmem value) :
    s.spu2write cfg rmem value =
      s.setCore 1 { s.Cores 1 with Voices := fun v => parked ((s.Cores 1).Voices v) } := by
  obtain ⟨hps2, hreg, rfl⟩ := hpark
  have h760 : ¬ rmem % 0x800 / 2 * 2 ≥ 0x760 := by omega
  have hspdif : ¬ rmem % 0x800 / 2 * 2 = 0x7C2 := by omega
  rw [spu2write, if_neg hps2]
  simp [fastWrite, hreg, h760, hspdif, regWriteCore]

theorem spu2write_pending (hpos : ∀ id, (s.voice id).SCurrent ≤ 28) (rmem : Nat)
    (value : BitVec 16) (id : VoiceId) :
    s.pending id ≤ (s.spu2write cfg rmem value).pending id ∧
      ((s.spu2write cfg rmem value).voice id).SCurrent ≤ 28 := by
  by_cases hpark : Parks rmem value
  · rw [spu2write_parks hpark]
    by_cases hid : id.1 = 1
    · have hvoice : (s.setCore 1 { s.Cores 1 with
          Voices := fun v => parked ((s.Cores 1).Voices v) }).voice id = parked (s.voice id) := by
        simp [voice, setCore, hid]
      simp only [State.pending, hvoice]
      exact ⟨pending_le hpos id, Nat.le_refl 28⟩
    · have hvoice : (s.setCore 1 { s.Cores 1 with
          Voices := fun v => parked ((s.Cores 1).Voices v) }).voice id = s.voice id := by
        simp [voice, setCore, hid]
      simp only [State.pending, hvoice]
      exact ⟨Nat.le_refl _, hpos id⟩
  · exact (spu2write_kept hpark).pending hpos id

omit [Sampling β] in
theorem startVoice_voice (cfg : Config) (s : State β) (id id' : VoiceId) :
    (s.startVoice cfg id).voice id' = s.voice id' ∨
      ((s.startVoice cfg id).voice id').SCurrent = 28 := by
  unfold startVoice
  split
  · have hstart : ((s.voice id).start s.Cycles cfg.delayCycles).1 = s.voice id ∨
        ((s.voice id).start s.Cycles cfg.delayCycles).1.SCurrent = 28 := by
      unfold Voice.start
      split
      · exact .inr rfl
      · exact .inl rfl
    generalize (s.voice id).start s.Cycles cfg.delayCycles = r at hstart ⊢
    obtain ⟨vc, started⟩ := r
    dsimp only at hstart ⊢
    have hvoice : ((if started = true then (s.setVoice id vc).setCore id.1
        { (s.setVoice id vc).Cores id.1 with
          KeyOn := ((s.setVoice id vc).Cores id.1).KeyOn &&& ~~~((1 : BitVec 32) <<< id.2.val) }
        else s.setVoice id vc).voice id') = (s.setVoice id vc).voice id' := by
      split
      · exact voice_setCore _ _ _ _ rfl
      · rfl
    rw [hvoice, voice_setVoice]
    split
    case isTrue hid => exact hid ▸ hstart
    case isFalse => exact .inl rfl
  · exact .inl rfl

omit [Sampling β] in
theorem startVoice_pending (hpos : ∀ id, (s.voice id).SCurrent ≤ 28) (id id' : VoiceId) :
    s.pending id' ≤ (s.startVoice cfg id).pending id' ∧
      ((s.startVoice cfg id).voice id').SCurrent ≤ 28 := by
  cases startVoice_voice cfg s id id' with
  | inl hsame =>
    simp only [State.pending, hsame]
    exact ⟨Nat.le_refl _, hpos id'⟩
  | inr hstart =>
    simp only [State.pending, Voice.pending, hstart, ite_self]
    exact ⟨pending_le hpos id', Nat.le_refl _⟩

/-- Every block that `MixVoice` enters satisfies `E`. -/
def MixEnters (E : (VoiceId → Nat) → VoiceId → β → γ → Mem → Nat → Int → Int → Prop)
    (cfg : Config) (s : State β) (r : State γ) (id : VoiceId) : Prop :=
  (s.voice id).ADSR.Phase > 0 → (s.voice id).Noise = false →
    Walk.PullsEnter E s.pending cfg.Interpolation s.bus id (s.prepared id).SP.toNat
      (s.walk id (s.prepared id)) (r.walk id (r.prepared id))

omit [Sampling β] in
theorem settle_pending (hpos : ∀ id, (s.voice id).SCurrent ≤ 28) (id : VoiceId) {w : Walk β}
    (hw : w.vc.SCurrent ≤ 28) (id' : VoiceId) :
    Function.update s.pending id w.vc.SCurrent id' ≤ (s.settle id w).pending id' ∧
      ((s.settle id w).voice id').SCurrent ≤ 28 := by
  simp only [State.pending, voice_settle]
  by_cases hid : id' = id
  · subst hid
    simp only [Function.update_self, if_true, Voice.pending]
    refine ⟨?_, hw⟩
    split
    · exact Nat.le_refl _
    · exact hw
  · rw [Function.update_of_ne hid, if_neg hid]
    exact ⟨Nat.le_refl _, hpos id'⟩

theorem Twins.settle (hshare : Sharing Match E) (h : Twins Match s r) {id : VoiceId}
    {w : Walk β} {v : Walk γ} (hw : Walk.Twins Match s.pending id w v) :
    Twins Match (s.settle id w) (r.settle id v) := by
  obtain ⟨c, rfl⟩ : ∃ c, r = s.withBuf c := ⟨r.buf, h.same⟩
  have hpend := settle_pending h.pos id hw.pos
  refine ⟨?_, fun id' => (hpend id').2, hshare.mono (fun id' => (hpend id').1) hw.bufs⟩
  rw [hw.same]
  rfl

omit [Sampling β] [Sampling γ] in
theorem Twins.writeOutX (h : Twins Match s r) (id : VoiceId) (x : Int) :
    Twins Match (s.writeOutX id x) (r.writeOutX id x) := by
  obtain ⟨c, rfl⟩ : ∃ c, r = s.withBuf c := ⟨r.buf, h.same⟩
  have hbuf : (s.writeOutX id x).buf = s.buf := by
    unfold State.writeOutX
    split <;> rfl
  have hpend : (s.writeOutX id x).pending = s.pending := by
    funext id'
    simp only [State.pending, voice_writeOutX]
  rw [writeOutX_withBuf]
  refine ⟨rfl, fun id' => ?_, ?_⟩
  · rw [voice_writeOutX]
    exact h.pos id'
  · rw [hpend, hbuf]
    exact h.bufs

omit [Sampling β] [Sampling γ] in
theorem Twins.walk (h : Twins Match s r) {id : VoiceId} (hon : (s.voice id).ADSR.Phase > 0) :
    Walk.Twins Match s.pending id (s.walk id (s.prepared id)) (r.walk id (r.prepared id)) := by
  obtain ⟨c, rfl⟩ : ∃ c, r = s.withBuf c := ⟨r.buf, h.same⟩
  have hpend : (s.walk id (s.prepared id)).vc.SCurrent = s.pending id := by
    simp [State.pending, Voice.pending, hon, State.walk, prepared]
  refine ⟨rfl, h.pos id, ?_⟩
  rw [hpend, Function.update_eq_self]
  exact h.bufs

theorem Twins.mixSamples (hshare : Sharing Match E) (h : Twins Match s r) {id : VoiceId}
    (hE : MixEnters E cfg s r id) : s.mixSamples cfg id = r.mixSamples cfg id := by
  have hvoice : r.voice id = s.voice id := by
    rw [h.same]
    rfl
  have hprep : r.prepared id = s.prepared id := by
    rw [h.same]
    rfl
  have hbus : r.bus = s.bus := by
    rw [h.same]
    rfl
  unfold State.mixSamples
  rw [hvoice, hbus]
  split
  case isTrue hon =>
    have hpulled := (h.walk hon.1).pulled hshare (hE hon.1 hon.2)
    rw [hpulled, hprep]
  case isFalse => rfl

theorem Twins.voiceSamples (cfg : Config) (hshare : Sharing Match E) (h : Twins Match s r)
    {id : VoiceId}
    (hon : (s.voice id).ADSR.Phase > 0) (hE : MixEnters E cfg s r id) :
    Walk.Twins Match s.pending id (s.voiceSamples cfg id).1 (r.voiceSamples cfg id).1 ∧
      (s.voiceSamples cfg id).2 = (r.voiceSamples cfg id).2 := by
  obtain ⟨c, rfl⟩ : ∃ c, r = s.withBuf c := ⟨r.buf, h.same⟩
  have hwalk := h.walk hon
  by_cases hnoise : (s.voice id).Noise = true
  · have hs : (s.prepared id).Noise = true := hnoise
    have hr : ((s.withBuf c).prepared id).Noise = true := hnoise
    simp only [State.voiceSamples, State.walk, hs, hr, if_true]
    exact ⟨hwalk, rfl⟩
  · have hs : ¬ (s.prepared id).Noise = true := hnoise
    have hr : ¬ ((s.withBuf c).prepared id).Noise = true := hnoise
    have hpulls := hwalk.pulls hshare (hE hon (Bool.eq_false_iff.mpr hnoise))
    simp only [State.voiceSamples, State.walk, hs, hr, getVoiceValues]
    refine ⟨hpulls, ?_⟩
    have hvc := congrArg Walk.vc hpulls.same
    exact Prod.ext rfl (congrArg (interpolate cfg.Interpolation) hvc.symm)

theorem Twins.skips (hshare : Sharing Match E) (h : Twins Match s r) (id : VoiceId)
    (hoff : (s.voice id).ADSR.Phase = 0) :
    Twins Match
      (s.settle id ((s.walk id (s.prepared id)).skips s.bus id.2 (s.prepared id).SP.toNat))
      (r.settle id ((r.walk id (r.prepared id)).skips r.bus id.2 (r.prepared id).SP.toNat)) := by
  obtain ⟨c, rfl⟩ : ∃ c, r = s.withBuf c := ⟨r.buf, h.same⟩
  let w := (s.walk id (s.prepared id)).skips s.bus id.2 (s.prepared id).SP.toNat
  have hskip : ((s.withBuf c).walk id ((s.withBuf c).prepared id)).skips (s.withBuf c).bus id.2
      ((s.withBuf c).prepared id).SP.toNat = w.withBuf c :=
    Walk.skips_withBuf (s.walk id (s.prepared id)) c s.bus id.2 (s.prepared id).SP.toNat
  have hbuf : w.buf = s.buf := by
    have hself : w = w.withBuf s.buf :=
      Walk.skips_withBuf (s.walk id (s.prepared id)) s.buf s.bus id.2 (s.prepared id).SP.toNat
    rw [hself]
    rfl
  obtain ⟨hADSR, hpos⟩ := Walk.skips_pending s.bus id.2
    (s.prepared id).SP.toNat (w := s.walk id (s.prepared id)) (h.pos id)
  have hoff' : w.vc.ADSR.Phase = 0 := (congrArg ADSR.Phase hADSR).trans hoff
  have hpend : ∀ id', s.pending id' ≤ (s.settle id w).pending id' ∧
      ((s.settle id w).voice id').SCurrent ≤ 28 := by
    intro id'
    simp only [State.pending, voice_settle]
    split
    · simp only [Voice.pending, hoff', Nat.lt_irrefl, if_false, gt_iff_lt]
      exact ⟨pending_le h.pos id', hpos⟩
    · exact ⟨Nat.le_refl _, h.pos id'⟩
  rw [hskip]
  refine ⟨rfl, fun id' => (hpend id').2, hshare.mono (fun id' => (hpend id').1) ?_⟩
  exact (show (s.settle id w).buf = s.buf from hbuf) ▸ h.bufs

theorem crest_SCurrent (vc : Voice) : (crest (calculateADSR vc)).SCurrent = vc.SCurrent := by
  rw [crest_eq, calculateADSR_eq]

theorem Twins.mixVoice (hshare : Sharing Match E) (h : Twins Match s r) {id : VoiceId}
    (hE : MixEnters E cfg s r id) :
    Twins Match (s.mixVoice cfg id).1 (r.mixVoice cfg id).1 ∧
      (s.mixVoice cfg id).2 = (r.mixVoice cfg id).2 := by
  have hvoice : r.voice id = s.voice id := by
    rw [h.same]
    rfl
  by_cases hon : (s.voice id).ADSR.Phase > 0
  · obtain ⟨hw, hvalue⟩ := h.voiceSamples cfg hshare hon hE
    simp only [State.mixVoice, hvoice, if_pos hon]
    generalize s.voiceSamples cfg id = x at hw hvalue ⊢
    generalize r.voiceSamples cfg id = y at hw hvalue ⊢
    obtain ⟨w, Seed, Value⟩ := x
    obtain ⟨v, Seed', Value'⟩ := y
    obtain ⟨rfl, rfl⟩ := Prod.mk.injEq .. ▸ hvalue
    obtain ⟨c, rfl⟩ : ∃ c, v = w.withBuf c := ⟨v.buf, hw.same⟩
    have hw' : Walk.Twins Match s.pending id { w with vc := crest (calculateADSR w.vc) }
        { w.withBuf c with vc := crest (calculateADSR w.vc) } := by
      refine ⟨rfl, ?_, ?_⟩
      · exact (crest_SCurrent w.vc).trans_le hw.pos
      · rw [crest_SCurrent]
        exact hw.bufs
    have hset := h.settle hshare hw'
    have hseed : Twins Match
        { s.settle id { w with vc := crest (calculateADSR w.vc) } with Seed := Seed }
        { r.settle id { w.withBuf c with vc := crest (calculateADSR w.vc) } with Seed := Seed } :=
      ⟨congrArg (fun r : State γ => { r with Seed := Seed }) hset.same, hset.pos, hset.bufs⟩
    exact ⟨hseed.writeOutX id _, rfl⟩
  · simp only [State.mixVoice, hvoice, if_neg hon]
    exact ⟨(h.skips hshare id (by omega)).writeOutX id 0, trivial⟩

/-- Every block that is entered in a run of both machines satisfies `E`. -/
def EntersAlong (E : (VoiceId → Nat) → VoiceId → β → γ → Mem → Nat → Int → Int → Prop)
    (cfg : Config) : State β → State γ → List Event → Prop
  | _, _, [] => True
  | s, r, ev :: evs =>
    (∀ id, ev = .mix id → MixEnters E cfg s r id) ∧
      EntersAlong E cfg (step cfg s ev).1 (step cfg r ev).1 evs

theorem Twins.step (hshare : Sharing Match E) (h : Twins Match s r) {ev : Event}
    (hE : ∀ id, ev = .mix id → MixEnters E cfg s r id) :
    Twins Match (step cfg s ev).1 (step cfg r ev).1 ∧ (step cfg s ev).2 = (step cfg r ev).2 := by
  have hfix : ∀ {f : ∀ γ : Type, Sampling γ → State γ → State γ}, Invalidates f s →
      (∀ id, (f β inferInstance s).voice id = s.voice id) →
      Twins Match (f β inferInstance s) (f γ inferInstance r) := by
    intro f hf hvoice
    refine h.of_invalidates hshare hf fun id => ?_
    simp only [State.pending, hvoice]
    exact ⟨Nat.le_refl _, h.pos id⟩
  cases ev with
  | write rmem value =>
    exact ⟨h.of_invalidates hshare (f := fun _ _ s => s.spu2write cfg rmem value)
      (spu2write_invalidates rmem value) (spu2write_pending h.pos rmem value), rfl⟩
  | dma core pMem =>
    exact ⟨h.of_invalidates hshare (f := fun _ _ s => s.doDMAwrite core pMem)
      (doDMAwrite_invalidates core pMem) ((doDMAwrite_kept core pMem).pending h.pos), rfl⟩
  | read core TSA =>
    exact ⟨hfix (f := fun _ _ s => s.setCore core { s.Cores core with TSA := TSA })
      (.of_withBuf fun _ _ _ => rfl) fun id => voice_setCore _ _ _ _ rfl, rfl⟩
  | store addr value =>
    exact ⟨hfix (f := fun _ _ s => s.store addr value) (.of_withBuf fun _ _ _ => rfl)
      fun _ => rfl, rfl⟩
  | interrupt core =>
    exact ⟨hfix (f := fun _ _ s => { s with irq := setIrqCall s.irq core })
      (.of_withBuf fun _ _ _ => rfl) fun _ => rfl, rfl⟩
  | cycle =>
    exact ⟨hfix (f := fun _ _ s => { s with irq.has_to_call_irq := false, Cycles := s.Cycles + 1 })
      (.of_withBuf fun _ _ _ => rfl) fun _ => rfl, rfl⟩
  | start id =>
    exact ⟨h.of_invalidates hshare (f := fun _ _ s => s.startVoice cfg id)
      (.of_withBuf fun _ _ c => startVoice_withBuf s c id) (startVoice_pending h.pos id), rfl⟩
  | mix id =>
    obtain ⟨hnext, hout⟩ := h.mixVoice hshare (hE id rfl)
    exact ⟨hnext, congrArg some (Prod.ext (h.mixSamples hshare (hE id rfl)) hout)⟩
  | output =>
    exact ⟨hfix (f := fun _ _ s =>
        { s with OutPos := if s.OutPos + 1 ≥ 0x200 then 0 else s.OutPos + 1 })
      (.of_withBuf fun _ _ _ => rfl) fun _ => rfl, rfl⟩

theorem Twins.run (hshare : Sharing Match E) {evs : List Event} (h : Twins Match s r)
    (hE : EntersAlong E cfg s r evs) :
    Twins Match (run cfg s evs) (run cfg r evs) ∧ outputs cfg s evs = outputs cfg r evs := by
  induction evs generalizing s r with
  | nil => exact ⟨h, rfl⟩
  | cons ev evs ih =>
    obtain ⟨hnext, hout⟩ := h.step hshare hE.1
    obtain ⟨hrun, houts⟩ := ih hnext hE.2
    exact ⟨hrun, by rw [outputs, outputs, hout, houts]⟩

end State

end OmegaRed.Spu2
