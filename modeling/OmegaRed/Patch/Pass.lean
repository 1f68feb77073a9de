import OmegaRed.Patch.FirstLine

/-! A pass has the effect of the codes where the interpreter's faulty branches are not taken. -/

namespace OmegaRed.Patch

universe u

variable {M : Type u} (io : MemOps M)

/-- The steps of a pass whose lines are all extended. -/
def pass (lines : List IniPatch) (s : Globals) (m : M) : Globals × M :=
  lines.foldl (fun (s, m) p => handleExtendedT io p s m) (s, m)

@[simp] theorem pass_nil (s : Globals) (m : M) : pass io [] s m = (s, m) := rfl

@[simp] theorem pass_cons (p : IniPatch) (l : List IniPatch) (s : Globals) (m : M) :
    pass io (p :: l) s m =
      pass io l (handleExtendedT io p s m).1 (handleExtendedT io p s m).2 := rfl

/-- An enabled extended line of the place. -/
structure IniPatch.Enabled (p : IniPatch) (place : Int) : Prop where
  enabled_ne : p.enabled ≠ 0
  cpu_eq : p.cpu = .cpuEE
  type_eq : p.type = .extendedT
  place_eq : p.placeToPatch = place

theorem applyPatch_of_enabled {p : IniPatch} {place : Int} (h : p.Enabled place) (s : Globals)
    (m : M) : applyPatch io p s m = handleExtendedT io p s m := by
  rw [applyPatch, if_neg h.enabled_ne, h.cpu_eq, h.type_eq]

theorem applyLoadedPatches_of_enabled {place : Int} {lines : List IniPatch}
    (h : ∀ p ∈ lines, p.Enabled place) (s : Globals) (m : M) :
    applyLoadedPatches io place lines s m = pass io lines s m := by
  induction lines generalizing s m with
  | nil => rfl
  | cons p l ih =>
    have hp := h p List.mem_cons_self
    have ih := ih fun q hq => h q (List.mem_cons_of_mem _ hq)
    rw [pass_cons, ← ih, ← applyPatch_of_enabled io hp]
    simp only [applyLoadedPatches, List.foldl_cons, if_pos hp.place_eq]

/-- What the interpreter's faulty branches need not to be taken: the second line of a pointer
code has one level and a value that is not 0, and a line of no opcode, taken for a condition,
skips nothing. -/
def StepOk (p : IniPatch) (s : Globals) (m : M) : Prop :=
  s.skipCount = 0 →
    (s.prevCheatType = 0x6000 → s.iterationIncrement ≠ 0 ∧ p.addr.toNat % 2 ^ 16 ≤ 1) ∧
      (s.prevCheatType = 0 → p.Stray → conditionD io p s m = s)

def PassOk : List IniPatch → Globals → M → Prop
  | [], _, _ => True
  | p :: l, s, m =>
    StepOk io p s m ∧ PassOk l (handleExtendedT io p s m).1 (handleExtendedT io p s m).2

instance (p : IniPatch) (s : Globals) (m : M) : Decidable (StepOk io p s m) :=
  inferInstanceAs (Decidable (_ → _))

instance : (lines : List IniPatch) → (s : Globals) → (m : M) → Decidable (PassOk io lines s m)
  | [], _, _ => .isTrue trivial
  | p :: l, s, m =>
    have := instDecidablePassOk l (handleExtendedT io p s m).1 (handleExtendedT io p s m).2
    inferInstanceAs (Decidable (_ ∧ _))

theorem handleExtendedT_skip {p : IniPatch} {s : Globals} (m : M) (h : s.skipCount > 0) :
    handleExtendedT io p s m = ({ s with skipCount := s.skipCount - 1 }, m) := by
  rw [handleExtendedT, if_pos h]

theorem handleExtendedT_clean {p : IniPatch} {s : Globals} {m : M} (h : s.Clean)
    (hok : StepOk io p s m) : handleExtendedT io p s m = p.decode.begin io s m := by
  have hskip : ¬s.skipCount > 0 := by
    rw [h.skipCount_eq]
    decide
  rw [handleExtendedT, if_neg hskip]
  simp only [h.prevCheatType_eq]
  exact firstLine_eq io p m h ((hok h.skipCount_eq).2 h.prevCheatType_eq)

theorem handleExtendedT_modifyWord {op : Op} {a : UInt32} (hop : op = .add ∨ op = .sub)
    {s : Globals} (h : s.Clean) (q : IniPatch) (m : M) :
    ∃ s', Globals.Clean s' ∧
      handleExtendedT io q (Code.begin io s m (.modifyWord op a)).1 (Code.begin io s m (.modifyWord op a)).2 =
        (s', io.write .word m a (op.apply (io.read .word m a) q.addr)) := by
  refine ⟨{ s with prevCheatAddr := a }, ⟨h.skipCount_eq, h.prevCheatType_eq⟩, ?_⟩
  rcases hop with rfl | rfl <;>
    simp [handleExtendedT, Code.begin, h.skipCount_eq, h.prevCheatType_eq, MemOps.write,
      MemOps.read, Op.apply]

theorem handleExtendedT_slide {s : Globals} (h : s.Clean) (a n step : UInt32) (q : IniPatch)
    (m : M) :
    ∃ s', Globals.Clean s' ∧
      handleExtendedT io q (Code.begin io s m (.slide a n step)).1 (Code.begin io s m (.slide a n step)).2 =
        (s', slide io a n step q.addr q.data32 m) := by
  refine ⟨{ s with iterationCount := n, iterationIncrement := step, prevCheatAddr := a },
    ⟨h.skipCount_eq, h.prevCheatType_eq⟩, ?_⟩
  simp [handleExtendedT, Code.begin, h.skipCount_eq, h.prevCheatType_eq]

theorem handleExtendedT_copy {s : Globals} (h : s.Clean) (a n : UInt32) (q : IniPatch) (m : M) :
    ∃ s', Globals.Clean s' ∧
      handleExtendedT io q (Code.begin io s m (.copy a n)).1 (Code.begin io s m (.copy a n)).2 =
        (s', copy io a q.addr n m) := by
  refine ⟨{ s with iterationCount := n, prevCheatAddr := a },
    ⟨h.skipCount_eq, h.prevCheatType_eq⟩, ?_⟩
  simp [handleExtendedT, Code.begin, h.skipCount_eq, h.prevCheatType_eq]

theorem levels_eq_one {x : UInt32} (h : x.toNat % 2 ^ 16 ≤ 1) :
    (if x &&& 0x0000ffff = 0 then 1 else x &&& 0x0000ffff) = 1 := by
  split
  · rfl
  · rename_i hne
    apply UInt32.toNat_inj.mp
    have hpos : (x &&& 0x0000ffff).toNat ≠ 0 := fun h0 => hne (UInt32.toNat_inj.mp h0)
    rw [toNat_and_ffff] at hpos ⊢
    simp only [UInt32.reduceToNat]
    omega

theorem writeCheat_eq {s : Globals} (m : M) (x : UInt32)
    (h : s.lastType = (x &&& (0x000f0000 : UInt32)) >>> 16) :
    writeCheat io s m =
      match Width.ofKind (x.toNat / 2 ^ 16 % 16) with
      | some w => io.write w m s.prevCheatAddr s.iterationIncrement
      | none => m := by
  simp only [writeCheat, h, and_000f0000_shift_eq_iff, UInt32.reduceToNat]
  generalize x.toNat / 2 ^ 16 % 16 = kind
  rcases kind with _ | _ | _ | kind
  · simp [Width.ofKind, MemOps.write, toUInt8_and_ff]
  · simp [Width.ofKind, MemOps.write, toUInt16_and_ffff]
  · simp [Width.ofKind, MemOps.write]
  · simp [Width.ofKind]

theorem pointerWrite_one (a v : UInt32) (q : IniPatch) (m : M) :
    pointerWrite io a v q 1 [] m =
      if pointerBits (io.memRead32 m a) = 0 then m
      else match Width.ofKind (q.addr.toNat / 2 ^ 16 % 16) with
        | some w => io.write w m (io.memRead32 m a + q.data32) v
        | none => m := by
  by_cases hnull : pointerBits (io.memRead32 m a) = 0
  · simp [pointerWrite, follow, hnull]
  · simp only [pointerWrite, List.flatMap_nil, List.take_succ_cons, List.take_zero, follow,
      if_neg hnull]
    cases Width.ofKind (q.addr.toNat / 2 ^ 16 % 16) <;> rfl

theorem pointerLine_one {s : Globals} (hv : s.iterationIncrement ≠ 0) {q : IniPatch}
    (hlevels : q.addr.toNat % 2 ^ 16 ≤ 1) (m : M) :
    ∃ s', s'.skipCount = s.skipCount ∧ s'.prevCheatType = 0 ∧
      pointerLine io q s m =
        (s', pointerWrite io s.prevCheatAddr s.iterationIncrement q 1 [] m) := by
  refine ⟨{ s with
    lastType := (q.addr &&& (0x000f0000 : UInt32)) >>> 16
    prevCheatAddr := io.memRead32 m s.prevCheatAddr + q.data32
    iterationCount := 0
    prevCheatType := 0 }, rfl, rfl, ?_⟩
  rw [pointerLine, if_neg hv, pointerWrite_one]
  simp only [levels_eq_one hlevels, UInt32.sub_self, if_true]
  rw [writeCheat_eq io m q.addr rfl]
  by_cases hnull : pointerBits (io.memRead32 m s.prevCheatAddr) = 0
  · rw [if_pos hnull, if_neg (not_not.mpr hnull)]
  · rw [if_neg hnull, if_pos hnull]

theorem handleExtendedT_pointer {s : Globals} (h : s.Clean) {a v : UInt32} (hv : v ≠ 0)
    {q : IniPatch} (hlevels : q.addr.toNat % 2 ^ 16 ≤ 1) (m : M) :
    ∃ s', Globals.Clean s' ∧
      handleExtendedT io q (Code.begin io s m (.pointer a v)).1 (Code.begin io s m (.pointer a v)).2 =
        (s', pointerWrite io a v q 1 [] m) := by
  have hpointer : handleExtendedT io q (Code.begin io s m (.pointer a v)).1 (Code.begin io s m (.pointer a v)).2 =
      pointerLine io q (Code.begin io s m (.pointer a v)).1 m := by
    simp [handleExtendedT, Code.begin, h.skipCount_eq]
  obtain ⟨s', hskip, htype, heq⟩ :=
    pointerLine_one io (s := (Code.begin io s m (.pointer a v)).1) hv hlevels m
  exact ⟨s', ⟨hskip.trans h.skipCount_eq, htype⟩, hpointer.trans heq⟩

theorem toNat_sub_one {x : UInt32} {k : Nat} (h : x.toNat = k + 1) : (x - 1).toNat = k := by
  have hle : (1 : UInt32) ≤ x := by
    rw [UInt32.le_iff_toNat_le, h]
    exact Nat.succ_le_succ (Nat.zero_le k)
  rw [UInt32.toNat_sub_of_le _ _ hle, h]
  rfl

theorem pass_next {q : IniPatch} {l : List IniPatch} {s : Globals} {m m' : M}
    (h : ∃ s', Globals.Clean s' ∧ handleExtendedT io q s m = (s', m'))
    (hok : PassOk io (q :: l) s m) :
    ∃ s', Globals.Clean s' ∧ PassOk io l s' m' ∧ pass io (q :: l) s m = pass io l s' m' := by
  obtain ⟨s', hs', heq⟩ := h
  obtain ⟨-, hok⟩ := hok
  rw [heq] at hok
  exact ⟨s', hs', hok, by rw [pass_cons, heq]⟩

/-- A pass that meets the condition has the effect of its codes. The induction is over the
lines, and the state is clean but for the lines that are still skipped. -/
theorem pass_eq_reference (lines : List IniPatch) (s : Globals) (m : M)
    (htype : s.prevCheatType = 0) (hok : PassOk io lines s m) :
    (pass io lines s m).2 = reference io s.skipCount.toNat lines m := by
  cases lines with
  | nil => rw [reference, pass_nil]
  | cons p l =>
    obtain ⟨hstep, hok⟩ := hok
    rw [pass_cons]
    cases hskip : s.skipCount.toNat with
    | succ k =>
      have hpos : s.skipCount > 0 := by
        rw [gt_iff_lt, UInt32.lt_iff_toNat_lt, hskip]
        exact Nat.succ_pos k
      rw [handleExtendedT_skip io m hpos] at hok ⊢
      have ih := pass_eq_reference l { s with skipCount := s.skipCount - 1 } m htype hok
      rw [reference, ih, toNat_sub_one hskip]
    | zero =>
      have hclean : s.Clean := ⟨UInt32.toNat_inj.mp hskip, htype⟩
      rw [handleExtendedT_clean io hclean hstep] at hok ⊢
      rw [reference]
      cases hdecode : p.decode with
      | write w a v =>
        rw [hdecode] at hok
        have ih := pass_eq_reference l _ _ htype hok
        rwa [hskip] at ih
      | modify w op a v =>
        rw [hdecode] at hok
        have ih := pass_eq_reference l _ _ htype hok
        rwa [hskip] at ih
      | cond w c a v lines =>
        rw [hdecode] at hok
        have ih := pass_eq_reference l (Code.begin io s m (.cond w c a v lines)).1 m htype hok
        simp only [Code.begin] at ih ⊢
        rw [ih]
        split
        · rfl
        · rw [UInt32.toNat_ofNat_of_lt' (decode_cond_lt p hdecode)]
      | none =>
        rw [hdecode] at hok
        have ih := pass_eq_reference l _ _ htype hok
        rwa [hskip] at ih
      | modifyWord op a =>
        rw [hdecode] at hok
        cases l with
        | nil => rfl
        | cons q l =>
          obtain ⟨s', hs', hok, heq⟩ := pass_next io
            (handleExtendedT_modifyWord io (decode_modifyWord p hdecode) hclean q m) hok
          rw [heq, pass_eq_reference l _ _ hs'.prevCheatType_eq hok, hs'.skipCount_eq]
          rfl
      | slide a n step =>
        rw [hdecode] at hok
        cases l with
        | nil => rfl
        | cons q l =>
          obtain ⟨s', hs', hok, heq⟩ :=
            pass_next io (handleExtendedT_slide io hclean a n step q m) hok
          rw [heq, pass_eq_reference l _ _ hs'.prevCheatType_eq hok, hs'.skipCount_eq]
          rfl
      | copy a n =>
        rw [hdecode] at hok
        cases l with
        | nil => rfl
        | cons q l =>
          obtain ⟨s', hs', hok, heq⟩ := pass_next io (handleExtendedT_copy io hclean a n q m) hok
          rw [heq, pass_eq_reference l _ _ hs'.prevCheatType_eq hok, hs'.skipCount_eq]
          rfl
      | pointer a v =>
        rw [hdecode] at hok
        cases l with
        | nil => rfl
        | cons q l =>
          obtain ⟨hv, hlevels⟩ := (hok.1 hclean.skipCount_eq).1 rfl
          obtain ⟨s', hs', hok, heq⟩ :=
            pass_next io (handleExtendedT_pointer io hclean (v := v) hv hlevels m) hok
          have hmax : max 1 (q.addr.toNat % 2 ^ 16) = 1 := Nat.max_eq_left hlevels
          rw [heq, pass_eq_reference l _ _ hs'.prevCheatType_eq hok, hs'.skipCount_eq]
          simp only [hmax, Nat.reduceDiv, Nat.not_lt_zero, if_false, List.take_zero]
          rfl
termination_by lines.length

def readLe (n : Nat) (mem : UInt32 → UInt8) (a : UInt32) : Nat :=
  (List.range n).foldr (fun i v => (mem (a + .ofNat i)).toNat + 256 * v) 0

def writeLe (n : Nat) (mem : UInt32 → UInt8) (a : UInt32) (v : Nat) : UInt32 → UInt8 := fun b =>
  if (b - a).toNat < n then .ofNat (v / 256 ^ (b - a).toNat) else mem b

/-- The memories of the EE and of the IOP as bytes, with little-endian words. -/
def bytes : MemOps ((UInt32 → UInt8) × (UInt32 → UInt8)) where
  memRead8 m a := .ofNat (readLe 1 m.1 a)
  memRead16 m a := .ofNat (readLe 2 m.1 a)
  memRead32 m a := .ofNat (readLe 4 m.1 a)
  memRead64 m a := .ofNat (readLe 8 m.1 a)
  memWrite8 m a v := (writeLe 1 m.1 a v.toNat, m.2)
  memWrite16 m a v := (writeLe 2 m.1 a v.toNat, m.2)
  memWrite32 m a v := (writeLe 4 m.1 a v.toNat, m.2)
  memWrite64 m a v := (writeLe 8 m.1 a v.toNat, m.2)
  iopMemRead8 m a := .ofNat (readLe 1 m.2 a)
  iopMemRead16 m a := .ofNat (readLe 2 m.2 a)
  iopMemRead32 m a := .ofNat (readLe 4 m.2 a)
  iopMemWrite8 m a v := (m.1, writeLe 1 m.2 a v.toNat)
  iopMemWrite16 m a v := (m.1, writeLe 2 m.2 a v.toNat)
  iopMemWrite32 m a v := (m.1, writeLe 4 m.2 a v.toNat)

/-- An enabled extended line of the place 1. -/
def line (addr : UInt32) (data : UInt64) : IniPatch := ⟨1, .extendedT, .cpuEE, 1, addr, data⟩

end OmegaRed.Patch
