import OmegaRed.Spu2.Transparent

/-! Savestates of the cores, which leave the cache of decoded blocks behind. -/

namespace OmegaRed.Spu2

namespace Savestate

def SAVE_ID : Nat := 0x1227521

def SAVE_VERSION : Nat := 0xe

/-- `DataBlock`, of the state that is modelled here. -/
structure DataBlock where
  spu2id : Nat
  mem : Mem
  version : Nat
  Cores : Fin 2 → Core
  Info : BitVec 16
  OutPos : Nat
  Cycles : BitVec 32

def freezeIt (s : State PcmCache) : DataBlock where
  spu2id := SAVE_ID
  mem := s.mem
  version := SAVE_VERSION
  Cores := s.Cores
  Info := s.irq.Info
  OutPos := s.OutPos
  Cycles := s.Cycles

/-- `wipe_the_cache`: samples that were wiped are zero. -/
def wipe_the_cache (b : PcmCache) : PcmCache := { b with pcm_cache_data := fun _ => ⟨false, []⟩ }

/-- `ThawIt` into the process `s`, which keeps its noise generator and the interrupt that it has
still to deliver. -/
def thawIt (s : State PcmCache) (spud : DataBlock) : State PcmCache :=
  if spud.spu2id ≠ SAVE_ID ∨ spud.version < SAVE_VERSION then
    { s with buf := wipe_the_cache s.buf }
  else
    { s with
      mem := spud.mem
      Cores := spud.Cores
      irq := { s.irq with Info := spud.Info }
      OutPos := spud.OutPos
      Cycles := spud.Cycles
      buf := { wipe_the_cache s.buf with
        SBuffer := fun id => ((spud.Cores id.1).Voices id.2).NextA / pcm_WordsPerBlock } }

end Savestate

/-- The machine with another noise generator. -/
def State.withSeed {β : Type} (s : State β) (Seed : BitVec 32) : State β := { s with Seed := Seed }

/-- What there is to see of a machine: all but the decoded samples and the noise to come. -/
def State.view {β : Type} (s : State β) : State Unit := (s.withBuf ()).withSeed 0

/-! The noise generator matters to noise only -/

namespace State

variable {β : Type} {cfg : Config} (s : State β) (Seed : BitVec 32)

/-- A voice that is on and plays noise is mixed. -/
def MixesNoise (s : State β) (ev : Event) : Prop :=
  ∃ id, ev = .mix id ∧ (s.voice id).ADSR.Phase > 0 ∧ (s.voice id).Noise = true

theorem regWriteVoiceParams_withSeed (id : VoiceId) (param : Nat) (value : BitVec 16) :
    (s.withSeed Seed).regWriteVoiceParams id param value =
      (s.regWriteVoiceParams id param value).withSeed Seed := by
  unfold regWriteVoiceParams
  dsimp only
  split <;> rfl

theorem regWriteVoiceAddr_withSeed (id : VoiceId) (address : Nat) (value : BitVec 16) :
    (s.withSeed Seed).regWriteVoiceAddr id address value =
      (s.regWriteVoiceAddr id address value).withSeed Seed := by
  unfold regWriteVoiceAddr
  dsimp only
  split <;> rfl

theorem setAttr_withSeed (core : Fin 2) (value : BitVec 16) :
    (s.withSeed Seed).setAttr core value = (s.setAttr core value).withSeed Seed := by
  unfold setAttr
  dsimp only
  rw [apply_ite (withSeed · Seed)]
  rfl

theorem writeVoicePS1_withSeed (voice : Fin 24) (vval : Nat) (value : BitVec 16) :
    (s.withSeed Seed).writeVoicePS1 voice vval value =
      (s.writeVoicePS1 voice vval value).withSeed Seed := by
  unfold writeVoicePS1
  dsimp only
  split <;> rfl

theorem writeOutX_withSeed (id : VoiceId) (x : Int) :
    (s.withSeed Seed).writeOutX id x = (s.writeOutX id x).withSeed Seed := by
  unfold writeOutX
  split <;> rfl

theorem startVoice_withSeed (id : VoiceId) :
    (s.withSeed Seed).startVoice cfg id = (s.startVoice cfg id).withSeed Seed := by
  unfold startVoice
  dsimp only
  rw [apply_ite (withSeed · Seed), apply_ite (withSeed · Seed)]
  rfl

variable [Sampling β]

theorem dmaWrite_withSeed (core : Fin 2) (value : BitVec 16) :
    (s.withSeed Seed).dmaWrite core value = (s.dmaWrite core value).withSeed Seed := by
  unfold dmaWrite writeMem
  dsimp only
  rw [apply_ite (fun s => (State.store s _ value).withSeed Seed)]
  rw [apply_ite (fun s => State.store s _ value)]
  rfl

theorem regWriteCore_withSeed (core : Fin 2) (omem : Nat) (value : BitVec 16) :
    (s.withSeed Seed).regWriteCore cfg core omem value =
      (s.regWriteCore cfg core omem value).withSeed Seed := by
  unfold regWriteCore
  dsimp only
  split
  case h_5 => exact setAttr_withSeed s Seed core value
  case h_14 => exact dmaWrite_withSeed (s.testIrq (· == (s.Cores core).TSA)) Seed core value
  case h_15 =>
    rw [apply_ite (withSeed · Seed)]
    rfl
  all_goals rfl

theorem fastWrite_withSeed (rmem : Nat) (value : BitVec 16) :
    (s.withSeed Seed).fastWrite cfg rmem value = (s.fastWrite cfg rmem value).withSeed Seed := by
  unfold fastWrite
  dsimp only
  generalize (if rmem % 0x800 / 2 * 2 < 0x400 then (0 : Fin 2) else 1) = core
  split_ifs
  · rfl
  · rfl
  · exact regWriteVoiceParams_withSeed s Seed _ _ _
  · exact regWriteVoiceAddr_withSeed s Seed _ _ _
  · exact regWriteCore_withSeed s Seed _ _ _

theorem writeRegPS1_withSeed (mem : Nat) (value : BitVec 16) :
    (s.withSeed Seed).writeRegPS1 cfg mem value = (s.writeRegPS1 cfg mem value).withSeed Seed := by
  unfold writeRegPS1
  dsimp only
  cases hreg : forwardPS1 (mem % 0x10000) with
  | some rmem =>
    dsimp only
    split_ifs
    · exact writeVoicePS1_withSeed s Seed _ _ _
    · exact fastWrite_withSeed s Seed _ _
  | none =>
    rw [show (s.withSeed Seed).Cores = s.Cores from rfl]
    dsimp only
    split_ifs
    · exact writeVoicePS1_withSeed s Seed _ _ _
    · rfl
    · rfl
    · exact dmaWrite_withSeed { s with irq := setIrqCall s.irq 0 } Seed 0 value
    · exact dmaWrite_withSeed s Seed 0 value
    · rfl

theorem spu2write_withSeed (rmem : Nat) (value : BitVec 16) :
    (s.withSeed Seed).spu2write cfg rmem value = (s.spu2write cfg rmem value).withSeed Seed := by
  unfold spu2write
  split_ifs
  · exact writeRegPS1_withSeed s Seed _ _
  · exact fastWrite_withSeed s Seed _ _

theorem doDMAwrite_withSeed (core : Fin 2) (pMem : List (BitVec 16)) :
    (s.withSeed Seed).doDMAwrite core pMem = (s.doDMAwrite core pMem).withSeed Seed := by
  unfold doDMAwrite
  rw [apply_ite (withSeed · Seed)]
  rfl

theorem voiceSamples_withSeed (cfg : Config) {id : VoiceId} (h : (s.voice id).Noise = false) :
    ∃ w Value, s.voiceSamples cfg id = (w, s.Seed, Value) ∧
      (s.withSeed Seed).voiceSamples cfg id = (w, Seed, Value) := by
  have hnoise : ¬ (s.voice id).Noise = true := Bool.eq_false_iff.mp h
  exact ⟨_, _, if_neg hnoise, if_neg hnoise⟩

theorem mixVoice_withSeed {id : VoiceId}
    (h : (s.voice id).ADSR.Phase > 0 → (s.voice id).Noise = false) :
    (s.withSeed Seed).mixVoice cfg id =
      ((s.mixVoice cfg id).1.withSeed Seed, (s.mixVoice cfg id).2) := by
  by_cases hon : (s.voice id).ADSR.Phase > 0
  · have hon' : ((s.withSeed Seed).voice id).ADSR.Phase > 0 := hon
    obtain ⟨w, Value, hs, hr⟩ := voiceSamples_withSeed s Seed cfg (h hon)
    simp only [mixVoice, if_pos hon, if_pos hon', hs, hr]
    exact Prod.ext (writeOutX_withSeed (s.settle id _) Seed id _) rfl
  · have hon' : ¬ ((s.withSeed Seed).voice id).ADSR.Phase > 0 := hon
    simp only [mixVoice, if_neg hon, if_neg hon']
    exact Prod.ext (writeOutX_withSeed (s.settle id _) Seed id 0) rfl

theorem step_withSeed {ev : Event} (h : ¬ s.MixesNoise ev) :
    step cfg (s.withSeed Seed) ev = ((step cfg s ev).1.withSeed Seed, (step cfg s ev).2) := by
  cases ev with
  | write rmem value => exact Prod.ext (spu2write_withSeed s Seed rmem value) rfl
  | dma core pMem => exact Prod.ext (doDMAwrite_withSeed s Seed core pMem) rfl
  | start id => exact Prod.ext (startVoice_withSeed s Seed id) rfl
  | mix id =>
    have hnoise : (s.voice id).ADSR.Phase > 0 → (s.voice id).Noise = false := fun hon =>
      Bool.eq_false_iff.mpr fun hnoise => h ⟨id, rfl, hon, hnoise⟩
    simp only [step, mixVoice_withSeed s Seed hnoise]
    rfl
  | read core TSA => rfl
  | store addr value => rfl
  | interrupt core => rfl
  | cycle => rfl
  | output => rfl

end State

/-! Continuing and loading -/

/-- Voices with samples to read find the same in both caches, and every valid line of `c` is a line
of `b`. -/
structure Rebuilt (p : VoiceId → Nat) (b c : PcmCache) : Prop where
  line : ∀ u, p u < 28 → c.SBuffer u = b.SBuffer u
  samples : ∀ u i, p u ≤ i → i < 28 → Sampling.sample b u i = Sampling.sample c u i
  valid : ∀ n, (c.pcm_cache_data n).Validated = true → (b.pcm_cache_data n).Validated = true ∧
    ∀ i < 28, (b.pcm_cache_data n).Sampledata.getD i 0 = (c.pcm_cache_data n).Sampledata.getD i 0

/-- A block whose line is valid, but not in the cache that was wiped, decodes to what the line
holds. -/
def Stable (_ : VoiceId → Nat) (_ : VoiceId) (b c : PcmCache) (mem : Mem) (NextA : Nat)
    (Prev1 Prev2 : Int) : Prop :=
  (b.pcm_cache_data (NextA / pcm_WordsPerBlock)).Validated = true →
  (c.pcm_cache_data (NextA / pcm_WordsPerBlock)).Validated = false → ∀ i < 28,
    (b.pcm_cache_data (NextA / pcm_WordsPerBlock)).Sampledata.getD i 0 =
      (XA_decode_block mem (blockAddr NextA) Prev1 Prev2).samples.getD i 0

instance (p : VoiceId → Nat) (id : VoiceId) (b c : PcmCache) (mem : Mem) (NextA : Nat)
    (Prev1 Prev2 : Int) : Decidable (Stable p id b c mem NextA Prev1 Prev2) := by
  unfold Stable
  infer_instance

namespace Rebuilt

variable {p : VoiceId → Nat} {b c : PcmCache} {id : VoiceId} {mem : Mem} {NextA : Nat}
  {Prev1 Prev2 : Int}

theorem invalidate (h : Rebuilt p b c) (cacheIdx : Nat) :
    Rebuilt p (Sampling.invalidate b cacheIdx) (Sampling.invalidate c cacheIdx) := by
  refine ⟨h.line, fun u i hi hlt => ?_, fun n hn => ?_⟩
  · rw [PcmCache.sample_invalidate, PcmCache.sample_invalidate]
    exact h.samples u i hi hlt
  · by_cases hline : n = cacheIdx
    · subst hline
      simp [Sampling.invalidate, PcmCache.invalidate] at hn
    · simp only [Sampling.invalidate, PcmCache.invalidate, Function.update_of_ne hline] at hn ⊢
      exact h.valid n hn

/-- A voice that goes to line `n`, where both caches end up with the same samples. -/
theorem goto (h : Rebuilt p b c) {B C : Nat → PcmCacheEntry} {n : Nat}
    (hB : ∀ m, m ≠ n → B m = b.pcm_cache_data m) (hC : ∀ m, m ≠ n → C m = c.pcm_cache_data m)
    (hvalid : (C n).Validated = true → (B n).Validated = true)
    (hdata : ∀ i < 28, (B n).Sampledata.getD i 0 = (C n).Sampledata.getD i 0) :
    Rebuilt (Function.update p id 0) ⟨B, Function.update b.SBuffer id n⟩
      ⟨C, Function.update c.SBuffer id n⟩ := by
  refine ⟨fun u hu => ?_, fun u i hi hlt => ?_, fun m hm => ?_⟩
  · by_cases hid : u = id
    · simp [hid]
    · simp only [Function.update_of_ne hid] at hu ⊢
      exact h.line u hu
  · by_cases hid : u = id
    · subst hid
      simp only [Sampling.sample, Function.update_self]
      exact hdata i hlt
    · have hi' : p u ≤ i := by simpa [hid] using hi
      have hsame := h.line u (by omega)
      have hold := h.samples u i hi' hlt
      simp only [Sampling.sample, Function.update_of_ne hid, hsame] at hold ⊢
      by_cases hline : b.SBuffer u = n
      · rw [hline]
        exact hdata i hlt
      · rw [hB _ hline, hC _ hline]
        exact hold
  · by_cases hline : m = n
    · subst hline
      exact ⟨hvalid hm, hdata⟩
    · dsimp only at hm ⊢
      rw [hC m hline] at hm ⊢
      rw [hB m hline]
      exact h.valid m hm

/-- A voice that enters a block reads the same, whether the line is in both caches, in neither or
was lost. -/
theorem enter (h : Rebuilt p b c) (hE : Stable p id b c mem NextA Prev1 Prev2) :
    Rebuilt (Function.update p id 0) (Sampling.enter b id mem NextA Prev1 Prev2).1
        (Sampling.enter c id mem NextA Prev1 Prev2).1 ∧
      (Sampling.enter b id mem NextA Prev1 Prev2).2 =
        (Sampling.enter c id mem NextA Prev1 Prev2).2 := by
  let n := NextA / pcm_WordsPerBlock
  have hoff : ∀ (b : PcmCache) line m, m ≠ n →
      Function.update b.pcm_cache_data n line m = b.pcm_cache_data m := fun b line m hm =>
    Function.update_of_ne hm line b.pcm_cache_data
  cases hc : (c.pcm_cache_data n).Validated with
  | true =>
    obtain ⟨hb, hdata⟩ := h.valid n hc
    rw [PcmCache.enter_hit b hb, PcmCache.enter_hit c hc, hdata 27 (by decide),
      hdata 26 (by decide)]
    exact ⟨h.goto (fun _ _ => rfl) (fun _ _ => rfl) (fun _ => hb) hdata, rfl⟩
  | false =>
    rw [PcmCache.enter_miss c hc]
    cases hb : (b.pcm_cache_data n).Validated with
    | true =>
      have hdata := hE hb hc
      obtain ⟨hprev2, hprev1⟩ := decode_last mem (blockAddr NextA) Prev1 Prev2
      rw [PcmCache.enter_hit b hb, hdata 27 (by decide), hdata 26 (by decide), hprev1, hprev2]
      refine ⟨h.goto (fun _ _ => rfl) (hoff c _) (fun _ => hb) fun i hi => ?_, rfl⟩
      rw [Function.update_self]
      exact hdata i hi
    | false =>
      rw [PcmCache.enter_miss b hb]
      refine ⟨h.goto (hoff b _) (hoff c _) (fun hvalid => ?_) fun i _ => ?_, rfl⟩
      · rw [Function.update_self] at hvalid ⊢
        exact hvalid
      · rw [Function.update_self, Function.update_self]

theorem sharing : Sharing Rebuilt Stable where
  mono hp h := ⟨fun u hu => h.line u (Nat.lt_of_le_of_lt (hp u) hu),
    fun u i hi hlt => h.samples u i (Nat.le_trans (hp u) hi) hlt, h.valid⟩
  invalidate cacheIdx h := h.invalidate cacheIdx
  sample id _ h hi hlt := h.samples id _ hi hlt
  enter hE _ h := h.enter hE

end Rebuilt

/-! Whoever drives the machine -/

/-- What chooses the next event, from what there is to see of the machine and what the events
before returned: the game, the inputs, and the rest of the mixer. -/
structure Environment (σ : Type) where
  event : σ → State Unit → Event
  see : σ → Option (List Int × Int × Int) → σ

/-- The events of `n` steps. -/
def Environment.events {σ β : Type} [Sampling β] (env : Environment σ) (cfg : Config) :
    Nat → σ → State β → List Event
  | 0, _, _ => []
  | n + 1, x, s =>
    let ev := env.event x s.view
    ev :: env.events cfg n (env.see x (step cfg s ev).2) (step cfg s ev).1

theorem State.run_pos {β : Type} [Sampling β] (cfg : Config) (b : β) (evs : List Event)
    (id : VoiceId) : ((run cfg (State.reset b) evs).voice id).SCurrent ≤ 28 := by
  have hshare : Sharing (fun _ (b c : β) => b = c) fun _ _ _ _ _ _ _ _ => True := {
    mono := fun _ h => h
    invalidate := fun _ h => h ▸ rfl
    sample := fun _ _ h _ _ => h ▸ rfl
    enter := fun _ _ h => h ▸ ⟨rfl, rfl⟩ }
  have hpulls : ∀ {p InterpType e id fuel} {w v : Walk β},
      Walk.PullsEnter (fun _ _ _ _ _ _ _ _ => True) p InterpType e id fuel w v := by
    intro p InterpType e id fuel w v
    induction fuel generalizing w v with
    | zero => trivial
    | succ fuel ih => exact fun _ => ⟨fun _ => trivial, ih⟩
  have henter : ∀ {s r : State β}, State.EntersAlong (fun _ _ _ _ _ _ _ _ => True) cfg s r evs := by
    intro s r
    induction evs generalizing s r with
    | nil => trivial
    | cons ev evs ih => exact ⟨fun _ _ _ _ => hpulls, ih⟩
  have hreset : State.Twins (fun _ (b c : β) => b = c) (State.reset b) (State.reset b) :=
    ⟨rfl, fun _ => Nat.le_refl 28, rfl⟩
  exact (hreset.run hshare henter).1.pos id

namespace State

variable {cfg : Config} {s t : State PcmCache}

/-- A machine, and the one that was loaded from its savestate, with a noise generator of its
own. -/
def Loaded (s t : State PcmCache) : Prop := ∃ r, Twins Rebuilt s r ∧ t = r.withSeed t.Seed

theorem Loaded.view (h : Loaded s t) : t.view = s.view := by
  obtain ⟨r, htwins, hseed⟩ := h
  rw [hseed, htwins.same]
  rfl

theorem Loaded.step (h : Loaded s t) {ev : Event}
    (hE : ∀ id, ev = .mix id → MixEnters Stable cfg s t id)
    (hseed : t.Seed = s.Seed ∨ ¬ s.MixesNoise ev) :
    Loaded (step cfg s ev).1 (step cfg t ev).1 ∧ (step cfg t ev).2 = (step cfg s ev).2 ∧
      (t.Seed = s.Seed → (Spu2.step cfg t ev).1.Seed = (Spu2.step cfg s ev).1.Seed) := by
  obtain ⟨r, htwins, ht⟩ := h
  have hE' : ∀ id, ev = .mix id → MixEnters Stable cfg s r id := by
    rw [ht] at hE
    exact hE
  obtain ⟨hnext, hout⟩ := htwins.step Rebuilt.sharing hE'
  have hrseed : r.Seed = s.Seed := by
    rw [htwins.same]
    rfl
  by_cases hsame : t.Seed = s.Seed
  · have htr : t = r := by
      rw [ht, hsame, ← hrseed]
      rfl
    rw [htr]
    refine ⟨⟨_, hnext, rfl⟩, hout.symm, fun _ => ?_⟩
    rw [hnext.same]
    rfl
  · have hnoise : ¬ r.MixesNoise ev := by
      rw [htwins.same]
      exact hseed.resolve_left hsame
    rw [ht, step_withSeed r t.Seed hnoise]
    exact ⟨⟨_, hnext, rfl⟩, hout.symm, fun h => absurd h hsame⟩

theorem Loaded.run {σ : Type} (env : Environment σ) {n : Nat} {x : σ} (h : Loaded s t)
    (hE : EntersAlong Stable cfg s t (env.events cfg n x s))
    (hseed : t.Seed = s.Seed ∨
      Along cfg (fun s ev => ¬ s.MixesNoise ev) s (env.events cfg n x s)) :
    env.events cfg n x t = env.events cfg n x s ∧
      outputs cfg t (env.events cfg n x t) = outputs cfg s (env.events cfg n x s) ∧
      Loaded (run cfg s (env.events cfg n x s)) (run cfg t (env.events cfg n x t)) := by
  induction n generalizing x s t with
  | zero => exact ⟨rfl, rfl, h⟩
  | succ n ih =>
    obtain ⟨hnext, hout, hkeep⟩ := h.step hE.1 (hseed.imp_right And.left)
    obtain ⟨hevents, houts, hrun⟩ := ih hnext hE.2 (hseed.imp hkeep And.right)
    simp only [Environment.events, h.view, outputs, Spu2.run, hout]
    exact ⟨congrArg _ hevents, congrArg _ houts, hrun⟩

/-- A voice that is off or at the end of its block, or whose samples to come are zero and in the
line of the address it has reached. -/
def Settled (s : State PcmCache) (id : VoiceId) : Prop :=
  (s.voice id).ADSR.Phase > 0 → (s.voice id).SCurrent < 28 →
    s.buf.SBuffer id = (s.voice id).NextA / pcm_WordsPerBlock ∧
      ∀ i < 28, (s.voice id).SCurrent ≤ i → Sampling.sample s.buf id i = 0

theorem loaded_thawIt (host : State PcmCache) (hpos : ∀ id, (s.voice id).SCurrent ≤ 28)
    (hvoices : ∀ id, s.Settled id)
    (hirq : host.irq.has_to_call_irq = s.irq.has_to_call_irq) :
    Loaded s (Savestate.thawIt host (Savestate.freezeIt s)) := by
  refine ⟨s.withBuf (Savestate.thawIt host (Savestate.freezeIt s)).buf, ⟨rfl, hpos, ?_⟩, ?_⟩
  · have hpend : ∀ u, s.pending u < 28 → (s.voice u).ADSR.Phase > 0 ∧
        s.pending u = (s.voice u).SCurrent := by
      intro u hu
      simp only [State.pending, Voice.pending] at hu ⊢
      split at hu
      case isTrue hon => exact ⟨hon, if_pos hon⟩
      case isFalse => omega
    refine ⟨fun u hu => ?_, fun u i hi hlt => ?_, fun n hn => ?_⟩
    · obtain ⟨hon, hS⟩ := hpend u hu
      exact (hvoices u hon (by omega)).1.symm
    · obtain ⟨hon, hS⟩ := hpend u (by omega)
      exact (hvoices u hon (by omega)).2 i hlt (by omega)
    · simp [Savestate.thawIt, Savestate.freezeIt, Savestate.wipe_the_cache, withBuf] at hn
  · have hmask : ({ Info := s.irq.Info, has_to_call_irq := host.irq.has_to_call_irq } : Irq) =
        s.irq := by
      rw [hirq]
    simp only [Savestate.thawIt, Savestate.freezeIt, ne_eq, not_true, Nat.lt_irrefl, or_self,
      if_false, hmask]
    rfl

end State

instance Walk.instDecidablePullsEnter (p : VoiceId → Nat) (InterpType : Nat) (e : Bus)
    (id : VoiceId) : ∀ fuel (w v : Walk PcmCache),
      Decidable (Walk.PullsEnter Stable p InterpType e id fuel w v)
  | 0, _, _ => isTrue trivial
  | fuel + 1, w, v =>
    have := instDecidablePullsEnter p InterpType e id fuel (w.pull InterpType e id)
      (v.pull InterpType e id)
    inferInstanceAs (Decidable (_ → _ ∧ _))

/-- Events that are given. -/
def scripted : Environment (List Event) := ⟨fun evs _ => evs.headD .cycle, fun evs _ => evs.tail⟩

end OmegaRed.Spu2
