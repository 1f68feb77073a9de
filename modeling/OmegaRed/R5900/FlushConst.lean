import OmegaRed.R5900.Recompiler

/-! The flush of the recompiler's constants, zeros and minus ones first. -/

namespace OmegaRed.R5900

open Lib.Halves Lib.X86

theorem words_le_lanes : 2 ≤ 4 := by decide

/-- The locals of `_flushConstRegs`, and the code that it emits. -/
structure Flush where
  zeroCnt : Nat
  minusoneCnt : Nat
  /-- 0 and -1 where `eax` holds them -/
  eaxval : Int
  done : Fin 4 → Fin 32 → Bool
  code : X86Code

namespace Flush

def start : Flush where
  zeroCnt := 0
  minusoneCnt := 0
  eaxval := 1
  done _ _ := false
  code := []

variable (r : Rec) (f : Flush) (i : Fin 32) (j : Fin 2)

/-- A store of `eax`, and the bit of `done`. -/
def store (k : Fin 4) : Flush :=
  { f with
    code := f.code ++ [.mov (.mem (gprUL i j)) .eax]
    done := Function.update f.done k (Function.update (f.done k) i true) }

def zero : Flush :=
  if f.eaxval ≠ 0 then { f with code := f.code ++ [.alu .xor .eax .eax], eaxval := 0 } else f

def minusone : Flush :=
  let f := if 0 < f.eaxval then f.zero else f
  if f.eaxval = 0 then { f with code := f.code ++ [.not .eax], eaxval := -1 } else f

/-- `GPR_IS_CONST1` of a register that is not flushed, and its dword -/
def Holds (v : BitVec 32) : Prop :=
  r.hasConst i = true ∧ r.flushedConst i = false ∧ UL (r.constRegs i) j = v

instance (v : BitVec 32) : Decidable (Holds r i j v) :=
  inferInstanceAs (Decidable (_ ∧ _ ∧ _))

/-- The bodies of the first two loops. -/
def zeroStep : Flush :=
  if Holds r i j 0 then { f.zero.store i j (j.castLE words_le_lanes) with zeroCnt := f.zeroCnt + 1 }
  else f

def minusoneStep : Flush :=
  if Holds r i j (-1) then
    { f.minusone.store i j (j.natAdd 2) with minusoneCnt := f.minusoneCnt + 1 }
  else f

/-- Both dwords of the registers from `r1` on. -/
def dwords : List (Fin 32 × Fin 2) := (List.finRange 32).tail.flatMap fun i => [(i, 0), (i, 1)]

def zeros : Flush := dwords.foldl (fun f p => f.zeroStep r p.1 p.2) start
def minusones : Flush := dwords.foldl (fun f p => f.minusoneStep r p.1 p.2) (zeros r)

/-- The code and `done[0]`, `done[1]` before the last loop: of a lone minus one the code is
rewound. -/
def grouped : X86Code × (Fin 2 → Fin 32 → Bool) :=
  let f := minusones r
  if f.minusoneCnt = 1 ∧ f.zeroCnt = 0 then
    ((zeros r).code, fun j => f.done (j.castLE words_le_lanes))
  else (f.code, fun j i => f.done (j.castLE words_le_lanes) i || f.done (j.natAdd 2) i)

end Flush

namespace Rec

/-- What the last loop emits for a register. -/
def restCode (done : Fin 2 → Fin 32 → Bool) (r : Rec) (i : Fin 32) : X86Code :=
  (if done 0 i = true then [] else [.mov (.mem (gprUL i 0)) (.imm (UL (r.constRegs i) 0))]) ++
    if done 1 i = true then [] else [.mov (.mem (gprUL i 1)) (.imm (UL (r.constRegs i) 1))]

def flushRest (done : Fin 2 → Fin 32 → Bool) : List (Fin 32) → Rec → Rec
  | [], r => r
  | i :: is, r =>
    if r.hasConst i = true then
      let r := if r.flushedConst i = false then
          { r.emit (r.restCode done i) with flushedConst := Function.update r.flushedConst i true }
        else r
      if r.hasConst = r.flushedConst then r else flushRest done is r
    else flushRest done is r

def flushConstRegs (r : Rec) : Rec :=
  let g := Flush.grouped r
  (r.emit g.1).flushRest g.2 (List.finRange 32).tail

end Rec

section Store

variable {r : Rec} {m : Home} {i : Fin 32} {j : Fin 2}

theorem UL_UD (m : Home) (i : Fin 32) (j : Fin 2) : UL (m.UD i) j = m (gprUL i j) := by
  rw [UL, Home.UD]
  obtain rfl | rfl : j = 0 ∨ j = 1 := by omega
  · simp [gprUL]
  · simp [gprUL]

theorem UD_eq_iff {v : BitVec 64} : m.UD i = v ↔ ∀ j, m (gprUL i j) = UL v j := by
  constructor
  · rintro rfl j
    exact (UL_UD m i j).symm
  · intro h
    rw [Home.UD, show Loc.gpr i 1 = gprUL i 1 from rfl, show Loc.gpr i 0 = gprUL i 0 from rfl, h, h]
    simp [UL]

theorem UD_update_of_ne {y : Fin 32} (h : y ≠ i) (v : BitVec 32) :
    Home.UD (Function.update m (gprUL i j) v) y = m.UD y := by
  simp [Home.UD, gprUL, h]

theorem dword_update {i' : Fin 32} {j' : Fin 2}
    (h : i' = i ∧ j' = j ∨ m (gprUL i' j') = UL (r.constRegs i') j') :
    Function.update m (gprUL i j) (UL (r.constRegs i) j) (gprUL i' j') =
      UL (r.constRegs i') j' := by
  by_cases he : gprUL i' j' = gprUL i j
  · obtain ⟨rfl, rfl⟩ : i' = i ∧ j' = j := by simpa [gprUL, Fin.ext_iff] using he
    exact Function.update_self ..
  · rw [Function.update_of_ne he]
    refine h.resolve_left ?_
    rintro ⟨rfl, rfl⟩
    exact he rfl

/-- A store of a constant's dword keeps what the block stands for. -/
theorem Rec.Sound.store (h : r.Sound m) (i : Fin 32) (j : Fin 2) :
    r.Sound (Function.update m (gprUL i j) (UL (r.constRegs i) j)) := by
  have hself : m.UD i = r.constRegs i →
      Function.update m (gprUL i j) (UL (r.constRegs i) j) = m := by
    intro he
    rw [← UD_eq_iff.mp he j, Function.update_eq_self]
  refine ⟨?_, h.zero_const, fun y hy hf => ?_⟩
  · by_cases h0 : (0 : Fin 32) = i
    · rw [hself (by rw [← h0, h.zero_home, h.zero_const]), h.zero_home]
    · rw [UD_update_of_ne h0, h.zero_home]
  · by_cases hyi : y = i
    · rw [hself (hyi ▸ h.flushed y hy hf), h.flushed y hy hf]
    · rw [UD_update_of_ne hyi, h.flushed y hy hf]

theorem regs_store (hc : r.hasConst i = true) (v : BitVec 32) :
    r.regs (Function.update m (gprUL i j) v) = r.regs m := by
  have hword : ∀ {y k} {w : Fin 4}, ¬(k = (0 : Fin 2) ∧ r.hasConst y = true) →
      w = highWord k ∨ w = lowWord k → Loc.gpr y w ≠ gprUL i j := by
    rintro y k w hk hw ⟨⟩
    have hj := j.isLt
    obtain rfl : k = 1 := by
      by_contra hne
      exact hk ⟨by omega, hc⟩
    obtain hw | hw := hw
    · simpa [highWord, Fin.ext_iff] using (congrArg Fin.val hw).symm.trans_lt hj
    · simpa [lowWord, Fin.ext_iff] using (congrArg Fin.val hw).symm.trans_lt hj
  simp only [Rec.regs, CpuRegs.mk.injEq]
  refine ⟨?_, by simp [gprUL], by simp [gprUL]⟩
  funext y k
  split
  · rfl
  · next hk =>
    rw [Function.update_of_ne (hword hk (.inl rfl)), Function.update_of_ne (hword hk (.inr rfl))]

end Store

section Phases

variable {r : Rec} {s : Machine} {regs : CpuRegs} {f : Flush}

/-- A store of a constant's dword, by an instruction that moves it. -/
theorem represents_store {v : Src Loc} {i : Fin 32} (hc : r.hasConst i = true) (j : Fin 2)
    (hs : r.Sound s.mem) (hv : s.val v = UL (r.constRegs i) j) :
    ∃ s', exec [.mov (.mem (gprUL i j)) v] s = some s' ∧ s'.eax = s.eax ∧ r.Sound s'.mem ∧
      r.regs s'.mem = r.regs s.mem ∧
      s'.mem = Function.update s.mem (gprUL i j) (UL (r.constRegs i) j) := by
  refine ⟨_, (exec_mov s [] _ _).trans (exec_nil _), rfl, ?_, ?_, ?_⟩
  · rw [hv]
    exact hs.store i j
  · exact regs_store hc _
  · rw [hv]
    rfl

/-- The dword that a bit of `done` is about. -/
def lane (k : Fin 4) : Fin 2 := ⟨k.val % 2, by omega⟩

theorem lane_low : ∀ j : Fin 2, lane (j.castLE (by decide)) = j := by decide
theorem lane_high : ∀ j : Fin 2, lane (j.natAdd 2) = j := by decide

/-- After the code emitted so far, `eax` is as recorded and the dwords done are in memory. -/
def Flushing (r : Rec) (s : Machine) (f : Flush) : Prop :=
  ∃ s', exec f.code s = some s' ∧ r.Sound s'.mem ∧ r.regs s'.mem = r.regs s.mem ∧
    (f.eaxval = 0 → s'.eax = 0) ∧ (f.eaxval < 0 → s'.eax = -1) ∧
    ∀ k i, f.done k i = true → s'.mem (gprUL i (lane k)) = UL (r.constRegs i) (lane k)

theorem flushing_start (hs : r.Sound s.mem) : Flushing r s .start :=
  ⟨s, rfl, hs, rfl, nofun, nofun, nofun⟩

theorem Flushing.zero (h : Flushing r s f) : Flushing r s f.zero ∧ f.zero.eaxval = 0 := by
  rw [Flush.zero]
  split
  · obtain ⟨s', hrun, hs, hr, -, -, hd⟩ := h
    refine ⟨⟨{ s' with eax := 0, flags := some (logicFlags 0) }, ?_, hs, hr, ?_, nofun, hd⟩, rfl⟩
    · rw [exec_append s hrun]
      simp
    · exact fun _ => rfl
  · next he => exact ⟨h, not_not.mp he⟩

theorem Flushing.minusone (h : Flushing r s f) :
    Flushing r s f.minusone ∧ f.minusone.eaxval < 0 := by
  obtain ⟨g, hg, h0, hf⟩ : ∃ g, Flushing r s g ∧ g.eaxval ≤ 0 ∧
      f.minusone = if g.eaxval = 0 then
        { g with code := g.code ++ [.not .eax], eaxval := -1 } else g := by
    by_cases hp : 0 < f.eaxval
    · exact ⟨f.zero, h.zero.1, h.zero.2.le, by rw [Flush.minusone, if_pos hp]⟩
    · exact ⟨f, h, by omega, by rw [Flush.minusone, if_neg hp]⟩
  rw [hf]
  split
  · next he =>
    obtain ⟨s', hrun, hs, hr, hz, -, hd⟩ := hg
    refine ⟨⟨{ s' with eax := -1 }, ?_, hs, hr, nofun, fun _ => rfl, hd⟩, by simp⟩
    rw [exec_append s hrun]
    simp [hz he]
  · exact ⟨hg, by omega⟩

theorem Flushing.store {i : Fin 32} {j : Fin 2} {k : Fin 4} (h : Flushing r s f)
    (hk : lane k = j) (hc : r.hasConst i = true)
    (heax : ∀ s' : Machine, (f.eaxval = 0 → s'.eax = 0) → (f.eaxval < 0 → s'.eax = -1) →
      s'.eax = UL (r.constRegs i) j) : Flushing r s (f.store i j k) := by
  obtain ⟨s₁, hrun, hs₁, hr₁, hz, hm, hd⟩ := h
  obtain ⟨s', hmov, hx, hs', hr', hmem⟩ := represents_store hc j hs₁ (v := .eax) (heax s₁ hz hm)
  refine ⟨s', (exec_append s hrun).trans hmov, hs', hr'.trans hr₁, ?_, ?_, ?_⟩
  · exact fun he => hx.trans (hz he)
  · exact fun he => hx.trans (hm he)
  · intro k' i' hd'
    rw [hmem]
    refine dword_update ?_
    by_cases hkk : i' = i ∧ k' = k
    · exact .inl ⟨hkk.1, hkk.2 ▸ hk⟩
    · refine .inr (hd k' i' ?_)
      rw [Flush.store] at hd'
      by_cases hk' : k' = k
      · have hi : i' ≠ i := fun hi => hkk ⟨hi, hk'⟩
        simpa [hk', hi] using hd'
      · simpa [hk'] using hd'

theorem Flushing.zeroStep (h : Flushing r s f) (i : Fin 32) (j : Fin 2) :
    Flushing r s (f.zeroStep r i j) := by
  rw [Flush.zeroStep]
  split
  · next hv =>
    exact h.zero.1.store (lane_low j) hv.1 fun s' hz _ =>
      (hz h.zero.2).trans hv.2.2.symm
  · exact h

theorem Flushing.minusoneStep (h : Flushing r s f) (i : Fin 32) (j : Fin 2) :
    Flushing r s (f.minusoneStep r i j) := by
  rw [Flush.minusoneStep]
  split
  · next hv =>
    exact h.minusone.1.store (lane_high j) hv.1 fun s' _ hm =>
      (hm h.minusone.2).trans hv.2.2.symm
  · exact h

theorem flushing_zeros (hs : r.Sound s.mem) : Flushing r s (Flush.zeros r) :=
  List.foldlRecOn Flush.dwords _ (flushing_start hs) fun _ h p _ => h.zeroStep p.1 p.2

theorem flushing_minusones (hs : r.Sound s.mem) : Flushing r s (Flush.minusones r) :=
  List.foldlRecOn Flush.dwords _ (flushing_zeros hs) fun _ h p _ => h.minusoneStep p.1 p.2

theorem minusone_done : f.minusone.done = f.done := by
  simp only [Flush.minusone, Flush.zero, apply_ite Flush.done, ite_self]

/-- The second loop leaves `done[0]` and `done[1]`. -/
theorem minusones_done (j : Fin 2) : (Flush.minusones r).done (j.castLE (by decide)) =
    (Flush.zeros r).done (j.castLE (by decide)) := by
  refine List.foldlRecOn (motive := fun f : Flush =>
    f.done (j.castLE (by decide)) = (Flush.zeros r).done (j.castLE (by decide)))
    Flush.dwords _ rfl fun f h p _ => ?_
  rw [Flush.minusoneStep]
  split
  · have hne : j.castLE (by decide) ≠ (p.2.natAdd 2 : Fin 4) := by
      simp only [ne_eq, Fin.ext_iff, Fin.val_castLE, Fin.val_natAdd]
      omega
    rw [← h, Flush.store]
    simp only [minusone_done, Function.update_of_ne hne]
  · exact h

/-- What the last loop relies on, whether or not the minus ones were rewound. -/
theorem grouped_runs (hs : r.Sound s.mem) : ∃ s', exec (Flush.grouped r).1 s = some s' ∧
    r.Sound s'.mem ∧ r.regs s'.mem = r.regs s.mem ∧
    ∀ i j, (Flush.grouped r).2 j i = true → s'.mem (gprUL i j) = UL (r.constRegs i) j := by
  rw [Flush.grouped]
  split
  · obtain ⟨s', hrun, hs', hr, -, -, hd⟩ := flushing_zeros hs
    refine ⟨s', hrun, hs', hr, fun i j hj => ?_⟩
    have hz : (Flush.zeros r).done (j.castLE (by decide)) i = true := by
      rwa [← minusones_done]
    simpa only [lane_low] using hd _ i hz
  · obtain ⟨s', hrun, hs', hr, -, -, hd⟩ := flushing_minusones hs
    refine ⟨s', hrun, hs', hr, fun i j hj => ?_⟩
    obtain hj | hj := Bool.or_eq_true_iff.mp hj
    · simpa only [lane_low] using hd _ i hj
    · simpa only [lane_high] using hd _ i hj

end Phases

section Rest

variable {r : Rec} {s s₀ : Machine} {regs : CpuRegs} {done : Fin 2 → Fin 32 → Bool}

/-- The state before a round of the last loop. -/
def Resting (done : Fin 2 → Fin 32 → Bool) (r : Rec) (s₀ : Machine) (regs : CpuRegs) : Prop :=
  ∃ s, exec r.code s₀ = some s ∧ r.Sound s.mem ∧ r.regs s.mem = regs ∧
    ∀ i j, done j i = true → s.mem (gprUL i j) = UL (r.constRegs i) j

/-- One dword, stored unless it is done. -/
theorem exec_rest {i : Fin 32} (hc : r.hasConst i = true) (j : Fin 2) {s : Machine}
    (hs : r.Sound s.mem)
    (hd : ∀ i j, done j i = true → s.mem (gprUL i j) = UL (r.constRegs i) j) :
    ∃ s', exec (if done j i = true then []
        else [.mov (.mem (gprUL i j)) (.imm (UL (r.constRegs i) j))]) s = some s' ∧
      r.Sound s'.mem ∧ r.regs s'.mem = r.regs s.mem ∧
      s'.mem = Function.update s.mem (gprUL i j) (UL (r.constRegs i) j) := by
  split
  · next hj =>
    exact ⟨s, rfl, hs, rfl, by rw [← hd i j hj, Function.update_eq_self]⟩
  · obtain ⟨s', hrun, -, h⟩ := represents_store (v := .imm _) hc j hs rfl
    exact ⟨s', hrun, h⟩

theorem Resting.put {i : Fin 32} (hc : r.hasConst i = true) (h : Resting done r s₀ regs) :
    Resting done { r.emit (r.restCode done i) with
      flushedConst := Function.update r.flushedConst i true } s₀ regs := by
  obtain ⟨s, hrun, hs, rfl, hd⟩ := h
  obtain ⟨s₁, hrun₁, hs₁, hr₁, hm₁⟩ := exec_rest hc 0 hs hd
  have hd₁ : ∀ i j, done j i = true → s₁.mem (gprUL i j) = UL (r.constRegs i) j :=
    fun i' j' h' => hm₁ ▸ dword_update (.inr (hd i' j' h'))
  obtain ⟨s₂, hrun₂, hs₂, hr₂, hm₂⟩ := exec_rest hc 1 hs₁ hd₁
  have hi : ∀ j, s₂.mem (gprUL i j) = UL (r.constRegs i) j := by
    intro j
    rw [hm₂]
    obtain rfl | rfl : j = 0 ∨ j = 1 := by omega
    · exact dword_update (.inr (hm₁ ▸ dword_update (.inl ⟨rfl, rfl⟩)))
    · exact dword_update (.inl ⟨rfl, rfl⟩)
  refine ⟨s₂, ?_, ⟨hs₂.zero_home, hs₂.zero_const, fun y hy hf => ?_⟩, hr₂.trans hr₁, ?_⟩
  · exact (exec_append s₀ hrun).trans ((exec_append s hrun₁).trans hrun₂)
  · by_cases hyi : y = i
    · subst hyi
      exact UD_eq_iff.mpr hi
    · exact hs₂.flushed y hy (by simpa [hyi, Rec.emit] using hf)
  · exact fun i' j' h' => hm₂ ▸ dword_update (.inr (hd₁ i' j' h'))

theorem Resting.flushRest (is : List (Fin 32)) (h : Resting done r s₀ regs) :
    Resting done (r.flushRest done is) s₀ regs ∧
      (r.flushRest done is).hasConst = r.hasConst ∧
      ∀ i, r.hasConst i = true → i ∈ is ∨ r.flushedConst i = true →
        (r.flushRest done is).flushedConst i = true := by
  induction is generalizing r with
  | nil => exact ⟨h, rfl, fun i _ hf => by simpa [Rec.flushRest] using hf⟩
  | cons i is ih =>
    rw [Rec.flushRest]
    split
    · next hc =>
      obtain ⟨r', hr', h', hc', hf'⟩ : ∃ r', r' = (if r.flushedConst i = false then
          { r.emit (r.restCode done i) with flushedConst := Function.update r.flushedConst i true }
          else r) ∧ Resting done r' s₀ regs ∧ r'.hasConst = r.hasConst ∧
          ∀ y, y = i ∨ r.flushedConst y = true → r'.flushedConst y = true := by
        by_cases hf : r.flushedConst i = false
        · refine ⟨_, (if_pos hf).symm, h.put hc, rfl, fun y hy => ?_⟩
          by_cases hyi : y = i
          · simp [hyi]
          · simpa [hyi] using hy
        · refine ⟨_, (if_neg hf).symm, h, rfl, ?_⟩
          rintro y (rfl | hy)
          · simpa using hf
          · exact hy
      simp only [← hr']
      split
      · next he => exact ⟨h', hc', fun y hy _ => he ▸ hc' ▸ hy⟩
      · obtain ⟨h₁, hc₁, hf₁⟩ := ih h'
        refine ⟨h₁, hc₁.trans hc', fun y hy hm => hf₁ y (hc' ▸ hy) ?_⟩
        rw [List.mem_cons, or_assoc] at hm
        obtain hm | hm | hm := hm
        · exact .inr (hf' y (.inl hm))
        · exact .inl hm
        · exact .inr (hf' y (.inr hm))
    · next hc =>
      obtain ⟨h₁, hc₁, hf₁⟩ := ih h
      refine ⟨h₁, hc₁, fun y hy hm => hf₁ y hy ?_⟩
      rw [List.mem_cons, or_assoc] at hm
      obtain rfl | hm := hm
      · exact absurd hy hc
      · exact hm

end Rest

/-- The registers in memory. -/
def Home.regs (m : Home) : CpuRegs where
  GPR x i := join (m (.gpr x (highWord i))) (m (.gpr x (lowWord i)))
  LO i := join (m (.lo (highWord i))) (m (.lo (lowWord i)))
  HI i := join (m (.hi (highWord i))) (m (.hi (lowWord i)))

section Block

variable {r : Rec} {s s₀ : Machine} {regs : CpuRegs}

theorem flushConstRegs_resting (h : Represents r s₀ regs) :
    ∃ done, Resting done r.flushConstRegs s₀ regs ∧
      r.flushConstRegs.hasConst = r.hasConst ∧
      ∀ i, i ≠ 0 → r.hasConst i = true → r.flushConstRegs.flushedConst i = true := by
  have htail : ∀ i : Fin 32, i ≠ 0 → i ∈ (List.finRange 32).tail := by decide
  obtain ⟨s, hrun, hs, rfl⟩ := h
  obtain ⟨s', hrun', hs', hr', hd⟩ := grouped_runs hs
  have hrest : Resting (Flush.grouped r).2 (r.emit (Flush.grouped r).1) s₀ (r.regs s.mem) :=
    ⟨s', (exec_append s₀ hrun).trans hrun', hs'.emit _, hr', hd⟩
  obtain ⟨h₁, hc₁, hf₁⟩ := hrest.flushRest (List.finRange 32).tail
  exact ⟨_, h₁, hc₁, fun i h0 hi => hf₁ i hi (.inl (htail i h0))⟩

/-- The flushed registers are the ones that the block stands for. -/
theorem flushConstRegs_leaves (h : Represents r s₀ regs) :
    ∃ s, exec r.flushConstRegs.code s₀ = some s ∧ Home.regs s.mem = regs := by
  obtain ⟨_, ⟨s, hrun, hs, hr, -⟩, hc, hf⟩ := flushConstRegs_resting h
  refine ⟨s, hrun, ?_⟩
  rw [← hr]
  simp only [Home.regs, Rec.regs, CpuRegs.mk.injEq, and_true]
  funext x i
  split
  · next hx =>
    obtain ⟨rfl, hx⟩ := hx
    refine (show Home.UD s.mem x = _ from ?_)
    by_cases h0 : x = 0
    · rw [h0, hs.zero_home, hs.zero_const]
    · exact hs.flushed x hx (hf x h0 (hc ▸ hx))
  · rfl

/-- The code of a straight-line block and of the flush at its end leaves in memory the registers
that the interpreter computes, where no instruction of the block diverges. -/
theorem flushedBlock_agrees (p : List (Op × Code)) (hcode : r.code = []) (hs : r.Sound s.mem)
    (ha : BlockAgrees p r (r.regs s.mem)) :
    ∃ s', exec (recompileBlock p r).flushConstRegs.code s = some s' ∧
      interpretBlock p (r.regs s.mem) = .ok (Home.regs s'.mem) := by
  obtain ⟨regs', hp, hr⟩ :=
    recompileBlock_represents p ⟨s, by rw [hcode, exec_nil], hs, rfl⟩ ha
  obtain ⟨s', hrun, rfl⟩ := flushConstRegs_leaves hr
  exact ⟨s', hrun, hp⟩

/-- `addu r3, r1, r2; or r4, r3, r1` -/
theorem flushedBlock_agrees_two :
    ∃ s', exec (recompileBlock [(.ADDU, ⟨0x00221821⟩), (.OR, ⟨0x00612025⟩)]
        (sampleRec true 7 (-1))).flushConstRegs.code (sampleMachine 7 (-1)) = some s' ∧
      interpretBlock [(.ADDU, ⟨0x00221821⟩), (.OR, ⟨0x00612025⟩)]
        ((sampleRec true 7 (-1)).regs (sampleMachine 7 (-1)).mem) = .ok (Home.regs s'.mem) :=
  flushedBlock_agrees _ rfl (sample_sound true 7 (-1))
    ⟨trivial, ⟨trivial, fun _ => trivial⟩, fun _ _ =>
      ⟨trivial, ⟨trivial, fun _ => trivial⟩, fun _ _ => trivial⟩⟩

end Block

end OmegaRed.R5900
