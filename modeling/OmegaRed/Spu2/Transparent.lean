import Mathlib.Data.Fintype.Prod
import OmegaRed.Spu2.Mixer
import OmegaRed.Spu2.Twins

/-! The cache of decoded blocks against voices that decode every block for themselves. -/

namespace OmegaRed.Spu2

/-- Every voice has the samples of its block for itself. -/
abbrev OwnBlocks := VoiceId → List Int

instance : Sampling OwnBlocks where
  enter b id mem NextA Prev1 Prev2 :=
    let d := XA_decode_block mem (blockAddr NextA) Prev1 Prev2
    (Function.update b id d.samples, d.prev1, d.prev2)
  sample b id SCurrent := (b id).getD SCurrent 0
  invalidate b _ := b

theorem decodeBytes_length (shift : Nat) (pred : Int × Int) (bytes : List (BitVec 8))
    (d : Decoder) :
    (bytes.foldl (decodeByte shift pred) d).samples.length =
      d.samples.length + 2 * bytes.length := by
  induction bytes generalizing d with
  | nil => rfl
  | cons byte bytes ih =>
    rw [List.foldl_cons, ih]
    simp only [decodeByte, List.length_append, List.length_cons, List.length_nil]
    omega

theorem decodeBytes_last (shift : Nat) (pred : Int × Int) (bytes : List (BitVec 8))
    (byte : BitVec 8) (d : Decoder) :
    let d' := (bytes ++ [byte]).foldl (decodeByte shift pred) d
    d'.samples.getD (d.samples.length + 2 * bytes.length) 0 = d'.prev2 ∧
      d'.samples.getD (d.samples.length + 2 * bytes.length + 1) 0 = d'.prev1 := by
  rw [List.foldl_append, ← decodeBytes_length shift pred]
  generalize bytes.foldl (decodeByte shift pred) d = d'
  simp [decodeByte]

theorem blockBytes_eq (mem : Mem) (memptr : Nat) :
    ∃ bytes byte, blockBytes mem memptr = bytes ++ [byte] ∧ bytes.length = 13 := by
  refine ⟨(List.range 13).map fun k => (mem (memptr + 1 + k / 2)).extractLsb' (8 * (k % 2)) 8,
    (mem (memptr + 1 + 13 / 2)).extractLsb' (8 * (13 % 2)) 8, ?_, by simp⟩
  simp only [blockBytes, List.range_succ, List.map_append, List.map_cons, List.map_nil]

theorem decode_last (mem : Mem) (memptr : Nat) (prev1 prev2 : Int) :
    (XA_decode_block mem memptr prev1 prev2).samples.getD 26 0 =
        (XA_decode_block mem memptr prev1 prev2).prev2 ∧
      (XA_decode_block mem memptr prev1 prev2).samples.getD 27 0 =
        (XA_decode_block mem memptr prev1 prev2).prev1 := by
  obtain ⟨bytes, byte, hbytes, hlen⟩ := blockBytes_eq mem memptr
  have h := decodeBytes_last ((mem memptr).extractLsb' 0 4 |>.toNat |> (· + 16))
    (tblXAFactor.getD ((mem memptr).extractLsb' 4 4).toNat (0, 0)) bytes byte ⟨[], prev1, prev2⟩
  rw [hlen, ← hbytes] at h
  exact h

/-- What a voice reads from the cache is what it decoded. -/
def SameSamples (p : VoiceId → Nat) (b : PcmCache) (c : OwnBlocks) : Prop :=
  ∀ u i, p u ≤ i → i < 28 → Sampling.sample b u i = Sampling.sample c u i

/-- Before a voice enters a block: a valid line holds what decoding the memory with the voice's
own predictor gives, and a line that is decoded again gives the voices that still read from it
what it held. -/
def Faithful (p : VoiceId → Nat) (b : PcmCache) (mem : Mem) (NextA : Nat) (Prev1 Prev2 : Int) :
    Prop :=
  let cacheIdx := NextA / pcm_WordsPerBlock
  let cacheLine := b.pcm_cache_data cacheIdx
  let d := XA_decode_block mem (blockAddr NextA) Prev1 Prev2
  (cacheLine.Validated = true →
    ∀ i < 28, cacheLine.Sampledata.getD i 0 = d.samples.getD i 0) ∧
  (cacheLine.Validated = false → ∀ u, b.SBuffer u = cacheIdx → ∀ i < 28, p u ≤ i →
    cacheLine.Sampledata.getD i 0 = d.samples.getD i 0)

instance (p : VoiceId → Nat) (b : PcmCache) (mem : Mem) (NextA : Nat) (Prev1 Prev2 : Int) :
    Decidable (Faithful p b mem NextA Prev1 Prev2) := by
  unfold Faithful
  dsimp only
  infer_instance

namespace PcmCache

variable (b : PcmCache) {id u : VoiceId} {i : Nat} {mem : Mem} {NextA : Nat} {Prev1 Prev2 : Int}

@[simp] theorem sample_invalidate (cacheIdx : Nat) :
    Sampling.sample (Sampling.invalidate b cacheIdx) u i = Sampling.sample b u i := by
  change ((invalidate b cacheIdx).pcm_cache_data (b.SBuffer u)).Sampledata.getD i 0 = _
  by_cases hline : b.SBuffer u = cacheIdx
  · simp only [invalidate, hline, Function.update_self]
    rw [← hline]
    rfl
  · simp only [invalidate, Function.update_of_ne hline]
    rfl

theorem enter_hit (hit : (b.pcm_cache_data (NextA / pcm_WordsPerBlock)).Validated = true) :
    Sampling.enter b id mem NextA Prev1 Prev2 =
      ({ b with SBuffer := Function.update b.SBuffer id (NextA / pcm_WordsPerBlock) },
        (b.pcm_cache_data (NextA / pcm_WordsPerBlock)).Sampledata.getD 27 0,
        (b.pcm_cache_data (NextA / pcm_WordsPerBlock)).Sampledata.getD 26 0) :=
  if_pos hit

theorem enter_miss (miss : (b.pcm_cache_data (NextA / pcm_WordsPerBlock)).Validated = false) :
    Sampling.enter b id mem NextA Prev1 Prev2 =
      let d := XA_decode_block mem (blockAddr NextA) Prev1 Prev2
      (⟨Function.update b.pcm_cache_data (NextA / pcm_WordsPerBlock)
          ⟨NextA ≥ SPU2_DYN_MEMLINE, d.samples⟩,
        Function.update b.SBuffer id (NextA / pcm_WordsPerBlock)⟩, d.prev1, d.prev2) :=
  if_neg (Bool.eq_false_iff.mp miss)

end PcmCache

/-- A voice that enters a block reads what it would decode, and the others go on as before. -/
theorem SameSamples.enter {p : VoiceId → Nat} {b : PcmCache} {c : OwnBlocks} {id : VoiceId}
    {mem : Mem} {NextA : Nat} {Prev1 Prev2 : Int} (hE : Faithful p b mem NextA Prev1 Prev2)
    (h : SameSamples p b c) :
    SameSamples (Function.update p id 0) (Sampling.enter b id mem NextA Prev1 Prev2).1
        (Sampling.enter c id mem NextA Prev1 Prev2).1 ∧
      (Sampling.enter b id mem NextA Prev1 Prev2).2 =
        (Sampling.enter c id mem NextA Prev1 Prev2).2 := by
  obtain ⟨hhit, hmiss⟩ := hE
  obtain ⟨hprev2, hprev1⟩ := decode_last mem (blockAddr NextA) Prev1 Prev2
  have hown : ∀ u, u ≠ id →
      (Sampling.enter c id mem NextA Prev1 Prev2).1 u = c u := fun u hu =>
    Function.update_of_ne hu _ _
  cases hvalid : (b.pcm_cache_data (NextA / pcm_WordsPerBlock)).Validated with
  | true =>
    rw [PcmCache.enter_hit b hvalid]
    constructor
    · intro u i hi hlt
      by_cases hu : u = id
      · subst hu
        simp only [Sampling.sample, Sampling.enter, Function.update_self]
        exact hhit hvalid i hlt
      · have hi' : p u ≤ i := by simpa [hu] using hi
        have hold := h u i hi' hlt
        simp only [Sampling.sample, Function.update_of_ne hu, hown u hu] at hold ⊢
        exact hold
    · rw [hhit hvalid 27 (by decide), hhit hvalid 26 (by decide), hprev1, hprev2]
      rfl
  | false =>
    rw [PcmCache.enter_miss b hvalid]
    refine ⟨fun u i hi hlt => ?_, rfl⟩
    by_cases hu : u = id
    · subst hu
      simp [Sampling.sample, Sampling.enter]
    · have hi' : p u ≤ i := by simpa [hu] using hi
      have hold := h u i hi' hlt
      simp only [Sampling.sample, Function.update_of_ne hu, hown u hu] at hold ⊢
      by_cases hline : b.SBuffer u = NextA / pcm_WordsPerBlock
      · rw [hline, Function.update_self, ← hmiss hvalid u hline i hlt hi', ← hline]
        exact hold
      · rw [Function.update_of_ne hline]
        exact hold

theorem SameSamples.sharing :
    Sharing SameSamples fun p _ b _ mem NextA Prev1 Prev2 => Faithful p b mem NextA Prev1 Prev2 where
  mono hp h := fun u i hi hlt => h u i (Nat.le_trans (hp u) hi) hlt
  invalidate cacheIdx h := by
    intro u i hi hlt
    rw [PcmCache.sample_invalidate]
    exact h u i hi hlt
  sample id i h hi hlt := h id _ hi hlt
  enter hE _ h := h.enter hE

/-- Every block entered in the loop of `GetVoiceValues` is entered faithfully. -/
def Walk.PullsFaithful (p : VoiceId → Nat) (InterpType : Nat) (e : Bus) (id : VoiceId) :
    Nat → Walk PcmCache → Prop
  | 0, _ => True
  | fuel + 1, w =>
    w.vc.SP > 0 → (w.vc.SCurrent = 28 → Faithful (Function.update p id 28) w.buf e.mem
        (nextA w.vc) w.vc.Prev1 w.vc.Prev2) ∧
      PullsFaithful p InterpType e id fuel (w.pull InterpType e id)

instance instDecidablePullsFaithful (p : VoiceId → Nat) (InterpType : Nat) (e : Bus) (id : VoiceId) :
    ∀ fuel (w : Walk PcmCache), Decidable (w.PullsFaithful p InterpType e id fuel)
  | 0, _ => isTrue trivial
  | fuel + 1, w =>
    have := instDecidablePullsFaithful p InterpType e id fuel (w.pull InterpType e id)
    inferInstanceAs (Decidable (_ → _ ∧ _))

theorem Walk.PullsFaithful.enters {p : VoiceId → Nat} {InterpType fuel : Nat} {e : Bus}
    {id : VoiceId} {w : Walk PcmCache} (h : w.PullsFaithful p InterpType e id fuel)
    (v : Walk OwnBlocks) :
    PullsEnter (fun p _ b _ mem NextA Prev1 Prev2 => Faithful p b mem NextA Prev1 Prev2)
      p InterpType e id fuel w v := by
  induction fuel generalizing w v with
  | zero => trivial
  | succ fuel ih => exact fun hSP => ⟨(h hSP).1, ih (h hSP).2 _⟩

/-- Every block that is entered when a voice is mixed is entered faithfully. -/
def State.Careful (cfg : Config) (s : State PcmCache) (ev : Event) : Prop :=
  ∀ id, ev = .mix id → (s.voice id).ADSR.Phase > 0 → (s.voice id).Noise = false →
    (s.walk id (s.prepared id)).PullsFaithful s.pending cfg.Interpolation s.bus id
      (s.prepared id).SP.toNat

instance (cfg : Config) (s : State PcmCache) (ev : Event) : Decidable (s.Careful cfg ev) :=
  match ev with
  | .mix id => decidable_of_iff ((s.voice id).ADSR.Phase > 0 → (s.voice id).Noise = false →
      (s.walk id (s.prepared id)).PullsFaithful s.pending cfg.Interpolation s.bus id
        (s.prepared id).SP.toNat) (by simp [State.Careful])
  | .write .. | .dma .. | .read .. | .store .. | .interrupt .. | .cycle | .start .. | .output =>
    .isTrue (by simp [State.Careful])

instance Along.instDecidable {cfg : Config} (C : State PcmCache → Event → Prop)
    [∀ s ev, Decidable (C s ev)] : ∀ s evs, Decidable (Along cfg C s evs)
  | _, [] => isTrue trivial
  | s, ev :: evs =>
    have := @Along.instDecidable cfg C _ (step cfg s ev).1 evs
    inferInstanceAs (Decidable (_ ∧ _))

theorem State.entersAlong_of_careful {cfg : Config} {evs : List Event} {s : State PcmCache}
    (h : Along cfg (Careful cfg) s evs) (r : State OwnBlocks) :
    EntersAlong (fun p _ b _ mem NextA Prev1 Prev2 => Faithful p b mem NextA Prev1 Prev2)
      cfg s r evs := by
  induction evs generalizing s r with
  | nil => trivial
  | cons ev evs ih =>
    exact ⟨fun id hev hon hnoise => (h.1 id hev hon hnoise).enters _, ih h.2 _⟩

theorem State.reset_twins (b : PcmCache) (c : OwnBlocks) :
    Twins SameSamples (reset b) (reset c) :=
  ⟨rfl, fun _ => Nat.le_refl 28, fun _ _ hi hlt => absurd hlt (Nat.not_lt.mpr hi)⟩

/-- A block whose samples depend on the ones before it. -/
def loopingBlock : List (BitVec 16) :=
  [0x0310, 0x1111, 0x1111, 0x1111, 0x1111, 0x1111, 0x1111, 0x1111]

/-- A voice that plays this block and loops to it. -/
def looping : List Event :=
  [.write 0x1aa 0x5000, .dma 0 loopingBlock, .write 0x1c2 0x5000, .write 0x1c0 0,
    .write 0x1c6 0x5000, .write 0x1c4 0, .write 0x1a0 1, .cycle, .cycle, .cycle, .cycle,
    .start (0, 0)] ++ List.replicate 8 (.mix (0, 0))

end OmegaRed.Spu2
