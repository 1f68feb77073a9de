import Mathlib.Order.Basic
import Mathlib.Tactic.Common

/-! Draws that need no alpha test. -/

namespace OmegaRed.GSdx.AlphaTest

inductive GS_ATST
  | NEVER
  | ALWAYS
  | LESS
  | LEQUAL
  | EQUAL
  | GEQUAL
  | GREATER
  | NOTEQUAL
  deriving DecidableEq

inductive GS_AFAIL
  | KEEP
  | FB_ONLY
  | ZB_ONLY
  | RGB_ONLY

inductive GS_TFX
  | MODULATE
  | DECAL
  | HIGHLIGHT
  | HIGHLIGHT2

structure GIFRegTEST where
  ATE : Bool
  ATST : GS_ATST
  AREF : Fin 256
  AFAIL : GS_AFAIL

structure GIFRegTEXA where
  TA0 : Fin 256
  AEM : Bool
  TA1 : Fin 256

structure GIFRegTEX0 where
  PSM : Fin 64
  TCC : Bool
  TFX : GS_TFX

structure VertexAlpha where
  min : Nat
  max : Nat
  valid : Bool

/-- `clut` is what `GSClut::GetAlphaMinMax32` returns, `m_min` and `m_max` are the alphas of the
vertex trace. -/
structure GSState where
  TME : Bool
  TEX0 : GIFRegTEX0
  TEXA : GIFRegTEXA
  TEST : GIFRegTEST
  FRAME_PSM : Fin 64
  clut : Nat × Nat
  m_min : Fin 256
  m_max : Fin 256
  m_alpha : VertexAlpha

/-- `GSLocalMemory::m_psm[psm].fmt` -/
def fmt (psm : Fin 64) : Nat :=
  if psm = 0 ∨ psm = 48 then 0
  else if psm = 1 ∨ psm = 49 then 1
  else if psm = 2 ∨ psm = 10 ∨ psm = 50 ∨ psm = 58 then 2
  else 3

/-- `if(a > 0xff) a = 0xff` -/
def clamp (a : Nat) : Nat := if a > 0xff then 0xff else a

namespace GSState

variable (s : GSState)

/-- `a.y` and `a.w`, of a texture. -/
def texRange : Nat × Nat :=
  match fmt s.TEX0.PSM with
  | 0 => (0, 0xff)
  | 1 => (if s.TEXA.AEM then 0 else s.TEXA.TA0, s.TEXA.TA0)
  | 2 =>
    (if s.TEXA.AEM then 0 else min s.TEXA.TA0.val s.TEXA.TA1.val,
      max s.TEXA.TA0.val s.TEXA.TA1.val)
  | _ => s.clut

/-- `a.x` and `a.z`. -/
def alphaRange : Nat × Nat :=
  let x := s.m_min.val
  let z := s.m_max.val
  if s.TME && s.TEX0.TCC then
    let y := s.texRange.1
    let w := s.texRange.2
    match s.TEX0.TFX with
    | .MODULATE => (clamp ((x * y) >>> 7), clamp ((z * w) >>> 7))
    | .DECAL => (y, w)
    | .HIGHLIGHT => (clamp (x + y), clamp (z + w))
    | .HIGHLIGHT2 => (y, w)
  else (x, z)

def GetAlphaMinMax : GSState :=
  if s.m_alpha.valid then s
  else { s with m_alpha := ⟨s.alphaRange.1, s.alphaRange.2, true⟩ }

end GSState

/-- The comparison for a range of alphas: `none` is `return false`. -/
def GS_ATST.pass (amin amax aref : Nat) : GS_ATST → Option Bool
  | .NEVER => some false
  | .ALWAYS => some true
  | .LESS => if amax < aref then some true else if amin ≥ aref then some false else none
  | .LEQUAL => if amax ≤ aref then some true else if amin > aref then some false else none
  | .EQUAL =>
    if amin = aref ∧ amax = aref then some true
    else if amin > aref ∨ amax < aref then some false else none
  | .GEQUAL => if amin ≥ aref then some true else if amax < aref then some false else none
  | .GREATER => if amin > aref then some true else if amax ≤ aref then some false else none
  | .NOTEQUAL =>
    if amin = aref ∧ amax = aref then some false
    else if amin > aref ∨ amax < aref then some true else none

/-- The masks of pixels that fail. -/
def GS_AFAIL.masks (fm zm : BitVec 32) : GS_AFAIL → BitVec 32 × BitVec 32
  | .KEEP => (0xffffffff#32, 0xffffffff#32)
  | .FB_ONLY => (fm, 0xffffffff#32)
  | .ZB_ONLY => (0xffffffff#32, zm)
  | .RGB_ONLY => (fm ||| 0xff000000#32, 0xffffffff#32)

/-- What the test controls is masked already. -/
def GS_AFAIL.nop (psm : Fin 64) (fm zm : BitVec 32) : GS_AFAIL → Bool
  | .KEEP => false
  | .FB_ONLY => zm == 0xffffffff#32
  | .ZB_ONLY => fm == 0xffffffff#32
  | .RGB_ONLY =>
    zm == 0xffffffff#32 && (fm &&& 0xff000000#32 == 0xff000000#32 || fmt psm == 1)

namespace GSState

variable (s : GSState)

/-- The masks where `true` is returned, and the state after. -/
def TryAlphaTest (fm zm : BitVec 32) : Option (BitVec 32 × BitVec 32) × GSState :=
  if s.TEST.ATST = .ALWAYS then (some (fm, zm), s)
  else if s.TEST.AFAIL.nop s.FRAME_PSM fm zm then (some (fm, zm), s)
  else
    let s := if s.TEST.ATST = .NEVER then s else s.GetAlphaMinMax
    let pass := s.TEST.ATST.pass s.m_alpha.min s.m_alpha.max s.TEST.AREF
    (pass.map fun pass => if pass then (fm, zm) else s.TEST.AFAIL.masks fm zm, s)

/-- The callers: `if(TEST.ATE) if(!TryAlphaTest(fm, zm)) ...` -/
def alphaMasks (fm zm : BitVec 32) : Option (BitVec 32 × BitVec 32) × GSState :=
  if s.TEST.ATE then s.TryAlphaTest fm zm else (some (fm, zm), s)

end GSState

/-- The alpha of `Expand24To32`. -/
def Expand24To32 (c : BitVec 24) (TEXA : GIFRegTEXA) : Nat :=
  if !TEXA.AEM ∨ c ≠ 0 then TEXA.TA0 else 0

/-- The alpha of `Expand16To32`. -/
def Expand16To32 (c : BitVec 16) (TEXA : GIFRegTEXA) : Nat :=
  if c &&& 0x8000#16 ≠ 0 then TEXA.TA1 else if !TEXA.AEM ∨ c ≠ 0 then TEXA.TA0 else 0

/-- The alphas of the texels. -/
def GSState.Texel (s : GSState) (a : Nat) : Prop :=
  match fmt s.TEX0.PSM with
  | 0 => a ≤ 0xff
  | 1 => ∃ c, a = Expand24To32 c s.TEXA
  | 2 => ∃ c, a = Expand16To32 c s.TEXA
  | _ => s.clut.1 ≤ a ∧ a ≤ s.clut.2

/-- A filter takes a value between texels. -/
def GSState.Sample (s : GSState) (a : Nat) : Prop :=
  ∃ lo hi, s.Texel lo ∧ s.Texel hi ∧ lo ≤ a ∧ a ≤ hi

/-- The alpha of a texture function, with `TCC`. -/
def GS_TFX.alpha (af at_ : Nat) : GS_TFX → Nat
  | .MODULATE => min (af * at_ / 128) 255
  | .DECAL => at_
  | .HIGHLIGHT => min (af + at_) 255
  | .HIGHLIGHT2 => at_

/-- The alphas of the pixels. -/
def GSState.Pixel (s : GSState) (a : Nat) : Prop :=
  ∃ af, s.m_min ≤ af ∧ af ≤ s.m_max.val ∧
    if s.TME ∧ s.TEX0.TCC then ∃ at_, s.Sample at_ ∧ a = s.TEX0.TFX.alpha af at_ else a = af

/-- The test of one alpha. -/
def GS_ATST.test (a aref : Nat) : GS_ATST → Prop
  | .NEVER => False
  | .ALWAYS => True
  | .LESS => a < aref
  | .LEQUAL => a ≤ aref
  | .EQUAL => a = aref
  | .GEQUAL => a ≥ aref
  | .GREATER => a > aref
  | .NOTEQUAL => a ≠ aref

instance (a aref : Nat) : (t : GS_ATST) → Decidable (t.test a aref)
  | .NEVER => inferInstanceAs (Decidable False)
  | .ALWAYS => inferInstanceAs (Decidable True)
  | .LESS => inferInstanceAs (Decidable (_ < _))
  | .LEQUAL => inferInstanceAs (Decidable (_ ≤ _))
  | .EQUAL => inferInstanceAs (Decidable (_ = _))
  | .GEQUAL => inferInstanceAs (Decidable (_ ≥ _))
  | .GREATER => inferInstanceAs (Decidable (_ > _))
  | .NOTEQUAL => inferInstanceAs (Decidable (_ ≠ _))

/-- The bits of the frame and of the depth that are written; 24-bit formats have no alpha. -/
def written (psm : Fin 64) (masks : BitVec 32 × BitVec 32) : BitVec 32 × BitVec 32 :=
  (~~~masks.1 &&& if fmt psm = 1 then 0x00ffffff#32 else 0xffffffff#32, ~~~masks.2)

/-- What is left of the writes of a pixel that fails. -/
def GS_AFAIL.left (w : BitVec 32 × BitVec 32) : GS_AFAIL → BitVec 32 × BitVec 32
  | .KEEP => (0#32, 0#32)
  | .FB_ONLY => (w.1, 0#32)
  | .ZB_ONLY => (0#32, w.2)
  | .RGB_ONLY => (w.1 &&& 0x00ffffff#32, 0#32)

def GIFRegTEST.writes (t : GIFRegTEST) (a : Nat) (w : BitVec 32 × BitVec 32) :
    BitVec 32 × BitVec 32 :=
  if t.ATST.test a t.AREF then w else t.AFAIL.left w

/-- From an update of the vertex trace on: draws of one batch, which may change the test. -/
inductive Reachable : GSState → Prop
  | Update (s : GSState) : Reachable { s with m_alpha := { s.m_alpha with valid := false } }
  | GetAlphaMinMax {s : GSState} (h : Reachable s) : Reachable s.GetAlphaMinMax
  | alphaMasks {s : GSState} (fm zm : BitVec 32) (h : Reachable s) :
    Reachable (s.alphaMasks fm zm).2
  | setTEST {s : GSState} (t : GIFRegTEST) (psm : Fin 64) (h : Reachable s) :
    Reachable { s with TEST := t, FRAME_PSM := psm }

/-- The interval has every alpha, and without the test the same is written. -/
structure Sound (s : GSState) : Prop where
  range : ∀ a, s.Pixel a →
    s.GetAlphaMinMax.m_alpha.min ≤ a ∧ a ≤ s.GetAlphaMinMax.m_alpha.max
  TryAlphaTest : ∀ fm zm masks, (s.TryAlphaTest fm zm).1 = some masks →
    ∀ a, s.GetAlphaMinMax.m_alpha.min ≤ a → a ≤ s.GetAlphaMinMax.m_alpha.max →
      written s.FRAME_PSM masks = s.TEST.writes a (written s.FRAME_PSM (fm, zm))
  alphaMasks : ∀ fm zm masks, (s.alphaMasks fm zm).1 = some masks →
    ∀ a, s.GetAlphaMinMax.m_alpha.min ≤ a → a ≤ s.GetAlphaMinMax.m_alpha.max →
      written s.FRAME_PSM masks =
        if s.TEST.ATE then s.TEST.writes a (written s.FRAME_PSM (fm, zm))
        else written s.FRAME_PSM (fm, zm)

section

variable {s : GSState} {a amin amax aref : Nat} {t : GS_ATST} {f : GS_AFAIL}
  {psm : Fin 64} {fm zm : BitVec 32}

theorem clamp_eq (a : Nat) : clamp a = min a 255 := by
  unfold clamp
  split <;> omega

theorem texel_range (h : s.Texel a) : s.texRange.1 ≤ a ∧ a ≤ s.texRange.2 := by
  unfold GSState.Texel at h
  unfold GSState.texRange
  split at h
  · exact ⟨Nat.zero_le a, h⟩
  · obtain ⟨c, rfl⟩ := h
    unfold Expand24To32
    cases s.TEXA.AEM
    · simp
    · simp only [Bool.not_true, Bool.false_eq_true, false_or, if_true]
      split <;> omega
  · obtain ⟨c, rfl⟩ := h
    unfold Expand16To32
    cases s.TEXA.AEM
    · simp only [Bool.not_false, true_or, if_true, Bool.false_eq_true, if_false]
      split <;> omega
    · simp only [Bool.not_true, Bool.false_eq_true, false_or, if_true]
      split
      · omega
      · split <;> omega
  · exact h

theorem sample_range (h : s.Sample a) : s.texRange.1 ≤ a ∧ a ≤ s.texRange.2 := by
  obtain ⟨lo, hi, hlo, hhi, hle, hge⟩ := h
  exact ⟨Nat.le_trans (texel_range hlo).1 hle, Nat.le_trans hge (texel_range hhi).2⟩

theorem pixel_range (h : s.Pixel a) : s.alphaRange.1 ≤ a ∧ a ≤ s.alphaRange.2 := by
  obtain ⟨af, hmin, hmax, h⟩ := h
  unfold GSState.alphaRange
  by_cases htex : s.TME ∧ s.TEX0.TCC
  · rw [if_pos htex] at h
    obtain ⟨at_, hat, rfl⟩ := h
    obtain ⟨hy, hw⟩ := sample_range hat
    simp only [htex, Bool.and_self, if_true, clamp_eq, Nat.shiftRight_eq_div_pow]
    cases s.TEX0.TFX with
    | MODULATE =>
      have hlow : s.m_min.val * s.texRange.1 / 2 ^ 7 ≤ af * at_ / 128 :=
        Nat.div_le_div_right (Nat.mul_le_mul hmin hy)
      have hhigh : af * at_ / 128 ≤ s.m_max.val * s.texRange.2 / 2 ^ 7 :=
        Nat.div_le_div_right (Nat.mul_le_mul hmax hw)
      simp only [GS_TFX.alpha]
      omega
    | DECAL => exact ⟨hy, hw⟩
    | HIGHLIGHT =>
      simp only [GS_TFX.alpha]
      omega
    | HIGHLIGHT2 => exact ⟨hy, hw⟩
  · rw [if_neg htex] at h
    rw [h]
    have hoff : (s.TME && s.TEX0.TCC) = false := by
      rw [← Bool.not_eq_true, Bool.and_eq_true]
      exact htex
    simp only [hoff, Bool.false_eq_true, if_false]
    exact ⟨hmin, hmax⟩

theorem pass_sound {b : Bool} (h : t.pass amin amax aref = some b) (hmin : amin ≤ a)
    (hmax : a ≤ amax) : t.test a aref ↔ b = true := by
  cases t <;> simp only [GS_ATST.pass, GS_ATST.test] at h ⊢ <;> grind

theorem written_masks :
    written psm (f.masks fm zm) = f.left (written psm (fm, zm)) := by
  have hnone : ~~~0xffffffff#32 = 0#32 := by decide
  have hrgb : ~~~0xff000000#32 = 0x00ffffff#32 := by decide
  cases f with
  | KEEP => simp only [written, GS_AFAIL.masks, GS_AFAIL.left, hnone, BitVec.zero_and]
  | FB_ONLY => simp only [written, GS_AFAIL.masks, GS_AFAIL.left, hnone]
  | ZB_ONLY => simp only [written, GS_AFAIL.masks, GS_AFAIL.left, hnone, BitVec.zero_and]
  | RGB_ONLY =>
    simp only [written, GS_AFAIL.masks, GS_AFAIL.left, hnone, BitVec.not_or, hrgb]
    rw [BitVec.and_assoc, BitVec.and_assoc, BitVec.and_comm (0x00ffffff#32)]

theorem left_of_nop (h : f.nop psm fm zm = true) :
    f.left (written psm (fm, zm)) = written psm (fm, zm) := by
  have hnone : ~~~0xffffffff#32 = 0#32 := by decide
  cases f with
  | KEEP => cases h
  | FB_ONLY =>
    obtain rfl : zm = 0xffffffff#32 := eq_of_beq h
    simp only [written, GS_AFAIL.left, hnone]
  | ZB_ONLY =>
    obtain rfl : fm = 0xffffffff#32 := eq_of_beq h
    simp only [written, GS_AFAIL.left, hnone, BitVec.zero_and]
  | RGB_ONLY =>
    rw [GS_AFAIL.nop, Bool.and_eq_true, Bool.or_eq_true, beq_iff_eq, beq_iff_eq, beq_iff_eq] at h
    obtain ⟨rfl, hfm | hpsm⟩ := h
    · have habsorb : ~~~fm &&& 0x00ffffff#32 = ~~~fm := by
        have hor : fm ||| 0xff000000#32 = fm := by
          have hsub : fm ||| (fm &&& 0xff000000#32) = fm := by
            ext i
            simp +contextual
          rwa [hfm] at hsub
        have hnot : ~~~(fm ||| 0xff000000#32) = ~~~fm &&& 0x00ffffff#32 := BitVec.not_or ..
        rw [← hnot, hor]
      simp only [written, GS_AFAIL.left, hnone]
      rw [BitVec.and_assoc, BitVec.and_comm _ (0x00ffffff#32), ← BitVec.and_assoc, habsorb]
    · simp only [written, GS_AFAIL.left, hnone, hpsm, if_true]
      rw [BitVec.and_assoc, BitVec.and_self]

/-- The range is that of the state, or was not computed yet. -/
def Current (s : GSState) : Prop :=
  s.m_alpha.valid → s.m_alpha.min = s.alphaRange.1 ∧ s.m_alpha.max = s.alphaRange.2

theorem alphaRange_GetAlphaMinMax : s.GetAlphaMinMax.alphaRange = s.alphaRange := by
  unfold GSState.GetAlphaMinMax
  split <;> rfl

theorem test_GetAlphaMinMax : s.GetAlphaMinMax.TEST = s.TEST := by
  unfold GSState.GetAlphaMinMax
  split <;> rfl

theorem Current.getAlphaMinMax (h : Current s) :
    s.GetAlphaMinMax.m_alpha.min = s.alphaRange.1 ∧
      s.GetAlphaMinMax.m_alpha.max = s.alphaRange.2 := by
  unfold GSState.GetAlphaMinMax
  by_cases hvalid : s.m_alpha.valid
  · rw [if_pos hvalid]
    exact h hvalid
  · rw [if_neg hvalid]
    exact ⟨rfl, rfl⟩

theorem current_GetAlphaMinMax (h : Current s) : Current s.GetAlphaMinMax := by
  intro _
  rw [alphaRange_GetAlphaMinMax]
  exact h.getAlphaMinMax

theorem TryAlphaTest_state :
    (s.TryAlphaTest fm zm).2 = s ∨ (s.TryAlphaTest fm zm).2 = s.GetAlphaMinMax := by
  unfold GSState.TryAlphaTest
  by_cases halways : s.TEST.ATST = .ALWAYS
  · exact .inl (by rw [if_pos halways])
  rw [if_neg halways]
  by_cases hnop : s.TEST.AFAIL.nop s.FRAME_PSM fm zm
  · exact .inl (by rw [if_pos hnop])
  rw [if_neg hnop]
  by_cases hnever : s.TEST.ATST = .NEVER
  · exact .inl (if_pos hnever)
  · exact .inr (if_neg hnever)

theorem Reachable.current (h : Reachable s) : Current s := by
  induction h with
  | Update s => exact fun hvalid => absurd hvalid (by simp)
  | GetAlphaMinMax _ ih => exact current_GetAlphaMinMax ih
  | @alphaMasks s fm zm _ ih =>
    unfold GSState.alphaMasks
    split
    · rcases @TryAlphaTest_state s fm zm with heq | heq
      · rw [heq]
        exact ih
      · rw [heq]
        exact current_GetAlphaMinMax ih
    · exact ih
  | setTEST _ _ _ ih => exact ih

theorem TryAlphaTest_sound {masks : BitVec 32 × BitVec 32}
    (h : (s.TryAlphaTest fm zm).1 = some masks) (hmin : s.GetAlphaMinMax.m_alpha.min ≤ a)
    (hmax : a ≤ s.GetAlphaMinMax.m_alpha.max) :
    written s.FRAME_PSM masks = s.TEST.writes a (written s.FRAME_PSM (fm, zm)) := by
  unfold GSState.TryAlphaTest at h
  unfold GIFRegTEST.writes
  by_cases halways : s.TEST.ATST = .ALWAYS
  · rw [if_pos halways] at h
    have htest : s.TEST.ATST.test a s.TEST.AREF := by
      rw [halways]
      trivial
    rw [if_pos htest, ← Option.some_inj.1 h]
  rw [if_neg halways] at h
  by_cases hnop : s.TEST.AFAIL.nop s.FRAME_PSM fm zm
  · rw [if_pos hnop] at h
    rw [left_of_nop hnop, ite_self, ← Option.some_inj.1 h]
  rw [if_neg hnop] at h
  by_cases hnever : s.TEST.ATST = .NEVER
  · simp only [hnever, if_true, GS_ATST.pass, Option.map_some, Bool.false_eq_true, if_false,
      Option.some_inj] at h
    have htest : ¬ s.TEST.ATST.test a s.TEST.AREF := by
      rw [hnever]
      exact id
    rw [if_neg htest, ← h, written_masks]
  simp only [if_neg hnever, test_GetAlphaMinMax, Option.map_eq_some_iff] at h
  obtain ⟨pass, hpass, rfl⟩ := h
  have htest := pass_sound hpass hmin hmax
  cases pass with
  | true => rw [if_pos (htest.2 rfl), if_pos rfl]
  | false =>
    rw [if_neg (fun ht => Bool.false_ne_true (htest.1 ht)), if_neg Bool.false_ne_true,
      written_masks]

/-- Every draw of every batch. -/
theorem sound_of_reachable (h : Reachable s) : Sound s where
  range a ha := by
    obtain ⟨hmin, hmax⟩ := h.current.getAlphaMinMax
    rw [hmin, hmax]
    exact pixel_range ha
  TryAlphaTest _ _ _ htry a hmin hmax := TryAlphaTest_sound htry hmin hmax
  alphaMasks fm zm masks hmasks a hmin hmax := by
    unfold GSState.alphaMasks at hmasks
    by_cases hATE : s.TEST.ATE
    · rw [if_pos hATE] at hmasks
      rw [if_pos hATE]
      exact TryAlphaTest_sound hmasks hmin hmax
    · rw [if_neg hATE] at hmasks
      rw [if_neg hATE, ← Option.some_inj.1 hmasks]

/-- A 16-bit texture, modulated: no pixel reaches `AREF`. -/
theorem sound_of_reachable_modulate : ∃ s : GSState, Reachable s ∧ Sound s ∧
    s.TryAlphaTest 0 0 = (some (0xffffffff#32, 0xffffffff#32), s.GetAlphaMinMax) := by
  have h := Reachable.Update ⟨true, ⟨2, true, .MODULATE⟩, ⟨0x40, true, 0x80⟩,
    ⟨true, .GEQUAL, 0x81, .KEEP⟩, 0, (0, 0), 0x20, 0x80, ⟨0, 0, false⟩⟩
  exact ⟨_, h, sound_of_reachable h, rfl⟩

end

end OmegaRed.GSdx.AlphaTest
