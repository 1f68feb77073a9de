import OmegaRed.Cop0.Cycles

/-! The counters read what is expected, and the timer fires once for every pass. -/

namespace OmegaRed.Cop0

open Lib.Traces

namespace Regs

variable (r : Regs)

theorem updatePcr_pcr (i j : Fin 2) : (r.updatePcr i).pcr j =
    if j = i ∧ counted r.pccr i then r.pcr i + r.incr (r.s_iLastPERFCycle i) else r.pcr j := by
  unfold updatePcr
  by_cases hc : counted r.pccr i
  · by_cases hj : j = i
    · rw [if_pos hc, if_pos ⟨hj, hc⟩, hj]
      exact Function.update_self ..
    · rw [if_pos hc, if_neg fun h => hj h.1]
      exact Function.update_of_ne hj ..
  · rw [if_neg hc, if_neg fun h => hc h.2]

theorem updatePcr_last (i j : Fin 2) : (r.updatePcr i).s_iLastPERFCycle j =
    if j = i ∧ counted r.pccr i then r.cycle else r.s_iLastPERFCycle j := by
  unfold updatePcr
  by_cases hc : counted r.pccr i
  · by_cases hj : j = i
    · rw [if_pos hc, if_pos ⟨hj, hc⟩, hj]
      exact Function.update_self ..
    · rw [if_pos hc, if_neg fun h => hj h.1]
      exact Function.update_of_ne hj ..
  · rw [if_neg hc, if_neg fun h => hc h.2]

theorem updatePcr_eq (i : Fin 2) : ∃ pcr last,
    r.updatePcr i = { r with pcr := pcr, s_iLastPERFCycle := last } := by
  unfold updatePcr
  split
  · exact ⟨_, _, rfl⟩
  · exact ⟨_, _, rfl⟩

theorem updatePCCR_eq : ∃ pcr last,
    r.updatePCCR = { r with pcr := pcr, s_iLastPERFCycle := last } := by
  obtain ⟨_, _, h0⟩ := r.updatePcr_eq 0
  obtain ⟨pcr, last, h1⟩ := (r.updatePcr 0).updatePcr_eq 1
  rw [h0] at h1
  exact ⟨pcr, last, by rw [updatePCCR, h0, h1]⟩

theorem updatePcr_pccr (i : Fin 2) : (r.updatePcr i).pccr = r.pccr := by
  obtain ⟨_, _, h⟩ := r.updatePcr_eq i
  rw [h]

theorem updatePcr_cycle (i : Fin 2) : (r.updatePcr i).cycle = r.cycle := by
  obtain ⟨_, _, h⟩ := r.updatePcr_eq i
  rw [h]

theorem updatePCCR_pcr (i : Fin 2) : r.updatePCCR.pcr i =
    if counted r.pccr i then r.pcr i + r.incr (r.s_iLastPERFCycle i) else r.pcr i := by
  have hincr : ∀ last, (r.updatePcr 0).incr last = r.incr last := fun last => by
    rw [incr, updatePcr_cycle, incr]
  rw [updatePCCR, updatePcr_pcr, updatePcr_pccr, updatePcr_pcr, updatePcr_pcr, updatePcr_last,
    hincr]
  match i with
  | 0 => simp
  | 1 => simp

theorem updatePCCR_last (i : Fin 2) : r.updatePCCR.s_iLastPERFCycle i =
    if counted r.pccr i then r.cycle else r.s_iLastPERFCycle i := by
  rw [updatePCCR, updatePcr_last, updatePcr_pccr, updatePcr_cycle, updatePcr_last]
  match i with
  | 0 => simp
  | 1 => simp

end Regs

namespace World

variable {w : World}

/-! ## The count -/

/-- The count that is expected is the register with the cycles since its stamp. -/
def CountInv (w : World) : Prop :=
  w.count = w.regs.Count + (w.regs.cycle - w.regs.s_iLastCOP0Cycle)

/-- A read of `Count` gives the value that is expected. -/
def CountExact (w : World) : Event → Prop
  | .mfc0 9 Rt imm =>
    ∀ value ∈ (w.regs.mfc0 9 Rt imm).2, value = (w.step (.mfc0 9 Rt imm)).count
  | _ => True

theorem incr_eq (w : World) (last : BitVec 32) :
    w.regs.incr last = w.regs.cycle - last + w.extra last := by
  unfold Regs.incr extra
  by_cases h : w.regs.cycle = last
  · rw [h, if_pos (sub_self _), if_pos rfl, sub_self, zero_add]
  · rw [if_neg (sub_ne_zero.2 h), if_neg h, add_zero]

end World

namespace Regs

variable (r : Regs)

theorem mfc0_nine (Rt imm : Nat) :
    r.mfc0 9 Rt imm = (r.readCount, if Rt = 0 then none else some r.readCount.Count) := by
  unfold mfc0
  exact if_neg fun h => h.1 rfl

theorem mfc0_fst (Rd Rt imm : Nat) : (r.mfc0 Rd Rt imm).1 =
    if Rd = 9 then r.readCount
    else if Rd = 25 ∧ Rt ≠ 0 ∧ imm &&& 1 ≠ 0 then r.updatePCCR else r := by
  by_cases hRd : Rd = 9
  · subst hRd
    rw [mfc0_nine, if_pos rfl]
  rw [if_neg hRd]
  unfold mfc0
  by_cases hRt : Rt = 0
  · rw [if_pos ⟨hRd, hRt⟩, if_neg fun h => h.2.1 hRt]
  rw [if_neg fun h => hRt h.2]
  split
  · contradiction
  · rw [if_neg fun h => absurd h.1 (by decide)]
  · rw [if_neg fun h => absurd h.1 (by decide)]
  · by_cases h1 : imm &&& 1 = 0
    · rw [if_pos h1, if_neg fun h => h.2.2 h1]
    · have hread : 25 = 25 ∧ Rt ≠ 0 ∧ imm &&& 1 ≠ 0 := ⟨rfl, hRt, h1⟩
      rw [if_neg h1, if_pos hread]
      split <;> rfl
  · rename_i h25
    rw [if_neg fun h => h25 h.1]

theorem cpuException_eq (code : BitVec 32) :
    ∃ Status, r.cpuException code = { r with Status := Status } := by
  unfold cpuException
  split
  · exact ⟨_, rfl⟩
  · exact ⟨_, rfl⟩

/-- The count is less than 1000 past the value that it is compared with. -/
def inWindow (count compare : BitVec 32) : Bool := count ≥ compare && count < compare + 1000

theorem cpuTestTIMR_eq : (∃ Status, r.cpuTestTIMR.1 =
      { r with
        Count := r.Count + (r.cycle - r.s_iLastCOP0Cycle)
        s_iLastCOP0Cycle := r.cycle
        Status := Status }) ∧
    r.cpuTestTIMR.2 = (r.timerEnabled &&
      inWindow (r.Count + (r.cycle - r.s_iLastCOP0Cycle)) r.Compare) := by
  unfold cpuTestTIMR inWindow
  dsimp only
  split
  · rename_i h
    obtain ⟨Status, hStatus⟩ := cpuException_eq { r with
      Count := r.Count + (r.cycle - r.s_iLastCOP0Cycle), s_iLastCOP0Cycle := r.cycle } 0x808000
    refine ⟨⟨Status, hStatus⟩, ?_⟩
    simpa [timerEnabled] using h
  · rename_i h
    refine ⟨⟨_, rfl⟩, ?_⟩
    simpa [timerEnabled] using h

theorem cpuEventTest_eq (countersDue : Bool) : (∃ pcr last Status,
      (r.cpuEventTest countersDue).1 =
        { r with
          Count := r.Count + (r.cycle - r.s_iLastCOP0Cycle)
          s_iLastCOP0Cycle := r.cycle
          pcr := pcr
          s_iLastPERFCycle := last
          Status := Status }) ∧
    (r.cpuEventTest countersDue).2 = (r.timerEnabled &&
      inWindow (r.Count + (r.cycle - r.s_iLastCOP0Cycle)) r.Compare) := by
  cases countersDue with
  | false =>
    obtain ⟨⟨Status, h⟩, hfired⟩ := r.cpuTestTIMR_eq
    exact ⟨⟨_, _, Status, h⟩, hfired⟩
  | true =>
    obtain ⟨pcr, last, hupdate⟩ := r.updatePCCR_eq
    obtain ⟨⟨Status, h⟩, hfired⟩ := r.updatePCCR.cpuTestTIMR_eq
    change (∃ pcr last Status, r.updatePCCR.cpuTestTIMR.1 = _) ∧ r.updatePCCR.cpuTestTIMR.2 = _
    rw [h, hfired, hupdate]
    exact ⟨⟨pcr, last, Status, rfl⟩, rfl⟩

theorem cpuEventTest_perf (countersDue : Bool) :
    (r.cpuEventTest countersDue).1.pcr = (if countersDue then r.updatePCCR else r).pcr ∧
      (r.cpuEventTest countersDue).1.s_iLastPERFCycle =
        (if countersDue then r.updatePCCR else r).s_iLastPERFCycle ∧
      (r.cpuEventTest countersDue).1.pccr = r.pccr ∧
      (r.cpuEventTest countersDue).1.cycle = r.cycle := by
  obtain ⟨⟨_, _, _, heq⟩, -⟩ := r.cpuEventTest_eq countersDue
  obtain ⟨⟨_, hTIMR⟩, -⟩ := (if countersDue then r.updatePCCR else r).cpuTestTIMR_eq
  refine ⟨?_, ?_, by rw [heq], by rw [heq]⟩
  · rw [cpuEventTest, hTIMR]
  · rw [cpuEventTest, hTIMR]

theorem inWindow_iff (count compare : BitVec 32) : inWindow count compare = true ↔
    (count - compare).toNat < 1000 ∧ compare.toNat < 2 ^ 32 - 1000 := by
  have h1000 : (1000 : BitVec 32).toNat = 1000 := rfl
  rw [inWindow, Bool.and_eq_true, decide_eq_true_iff, decide_eq_true_iff, ge_iff_le,
    BitVec.le_def, BitVec.lt_def, BitVec.toNat_add, BitVec.toNat_sub, h1000]
  have := count.isLt
  have := compare.isLt
  omega

end Regs

namespace World

variable {w : World}

/-- A step that leaves the count, its stamp and the clock leaves what is expected of it. -/
theorem CountInv.of_eq {w' : World} (h : w.CountInv) (hcount : w'.count = w.count)
    (hregs : w'.regs.Count = w.regs.Count ∧ w'.regs.cycle = w.regs.cycle ∧
      w'.regs.s_iLastCOP0Cycle = w.regs.s_iLastCOP0Cycle) : w'.CountInv := by
  unfold CountInv
  rw [hcount, hregs.1, hregs.2.1, hregs.2.2]
  exact h

theorem updatePCCR_count (r : Regs) : r.updatePCCR.Count = r.Count ∧
    r.updatePCCR.cycle = r.cycle ∧ r.updatePCCR.s_iLastCOP0Cycle = r.s_iLastCOP0Cycle := by
  obtain ⟨_, _, h⟩ := r.updatePCCR_eq
  rw [h]
  exact ⟨rfl, rfl, rfl⟩

theorem mtc0_count (r : Regs) {Rd : Nat} (imm : Nat) (value : BitVec 32) (hRd : Rd ≠ 9) :
    (r.mtc0 Rd imm value).Count = r.Count ∧ (r.mtc0 Rd imm value).cycle = r.cycle ∧
      (r.mtc0 Rd imm value).s_iLastCOP0Cycle = r.s_iLastCOP0Cycle := by
  unfold Regs.mtc0
  split
  · contradiction
  · exact ⟨rfl, rfl, rfl⟩
  · exact ⟨rfl, rfl, rfl⟩
  · split_ifs
    · exact ⟨rfl, rfl, rfl⟩
    · exact updatePCCR_count r
    · exact ⟨rfl, rfl, rfl⟩
    · exact ⟨rfl, rfl, rfl⟩
  · exact ⟨rfl, rfl, rfl⟩

theorem CountInv.step (h : w.CountInv) (e : Event) : (w.step e).CountInv := by
  cases e with
  | advance cycles =>
    change w.count + cycles =
      w.regs.Count + (w.regs.cycle + cycles - w.regs.s_iLastCOP0Cycle)
    rw [h, add_sub_right_comm, add_assoc]
  | mfc0 Rd Rt imm =>
    by_cases hRd : Rd = 9
    · subst hRd
      rw [World.step, if_pos rfl, Regs.mfc0_nine]
      change w.count + w.extra _ = w.regs.Count + w.regs.incr _ + (w.regs.cycle - w.regs.cycle)
      rw [h, incr_eq, sub_self, add_zero, add_assoc]
    · have hregs : (w.step (.mfc0 Rd Rt imm)).regs = (w.regs.mfc0 Rd Rt imm).1 ∧
          (w.step (.mfc0 Rd Rt imm)).count = w.count := by
        rw [World.step, if_neg hRd]
        split
        · exact ⟨rfl, rfl⟩
        · exact ⟨rfl, rfl⟩
      refine h.of_eq hregs.2 ?_
      rw [hregs.1]
      rw [Regs.mfc0_fst, if_neg hRd]
      split
      · exact updatePCCR_count w.regs
      · exact ⟨rfl, rfl, rfl⟩
  | mtc0 Rd imm value =>
    by_cases hRd : Rd = 9
    · subst hRd
      change value = value + (w.regs.cycle - w.regs.cycle)
      rw [sub_self, add_zero]
    · have hregs : (w.step (.mtc0 Rd imm value)).regs = w.regs.mtc0 Rd imm value ∧
          (w.step (.mtc0 Rd imm value)).count = w.count := by
        rw [World.step, if_neg hRd]
        split
        · exact ⟨rfl, rfl⟩
        · exact ⟨rfl, rfl⟩
      refine h.of_eq hregs.2 ?_
      rw [hregs.1]
      exact mtc0_count w.regs imm value hRd
  | exception code =>
    obtain ⟨Status, hregs⟩ := w.regs.cpuException_eq code
    refine h.of_eq rfl ?_
    rw [show (w.step (.exception code)).regs = w.regs.cpuException code from rfl, hregs]
    exact ⟨rfl, rfl, rfl⟩
  | eventTest countersDue =>
    obtain ⟨⟨_, _, _, hregs⟩, -⟩ := w.regs.cpuEventTest_eq countersDue
    change w.count = (w.regs.cpuEventTest countersDue).1.Count +
      ((w.regs.cpuEventTest countersDue).1.cycle -
        (w.regs.cpuEventTest countersDue).1.s_iLastCOP0Cycle)
    rw [hregs]
    dsimp only
    rw [sub_self, add_zero]
    exact h

/-- Every step of a run is taken. -/
def next (w : World) (e : Event) : Option World := some (w.step e)

theorem CountInv.exact (h : w.CountInv) (e : Event) : w.CountExact e := by
  unfold CountExact
  split
  · rename_i Rt imm
    intro value hvalue
    rw [Regs.mfc0_nine] at hvalue
    rw [World.step, if_pos rfl]
    split at hvalue
    · cases hvalue
    · rw [← Option.mem_some.1 hvalue]
      change w.regs.Count + w.regs.incr _ = w.count + w.extra _
      rw [h, incr_eq, add_assoc]
  · trivial

theorem count_exact (h : w.CountInv) (events : List Event) : Meets next CountExact w events := by
  induction events generalizing w with
  | nil => trivial
  | cons e events ih => exact ⟨h.exact e, fun _ ht => Option.some.inj ht ▸ ih (h.step e)⟩

/-! ## The timer -/

/-- After a test with the interrupt enabled there was one interrupt for every pass. -/
def TimerExact (w : World) : Event → Prop
  | .eventTest countersDue =>
    w.regs.timerEnabled → (w.step (.eventTest countersDue)).raised = w.passed
  | _ => True

/-- The count has passed `Compare` once since the last test with the interrupt enabled and is
less than 1000 past it, or it has not passed it and is not. -/
def TestMeets (w : World) : Event → Prop
  | .eventTest _ =>
    w.regs.timerEnabled → w.owed =
      if (w.count - w.regs.Compare).toNat < 1000 ∧ w.regs.Compare.toNat < 2 ^ 32 - 1000 then 1
      else 0
  | _ => True

def Balanced (w : World) : Prop := w.raised + w.owed = w.passed

theorem eventTest_raised (h : w.CountInv) (countersDue : Bool) :
    (w.step (.eventTest countersDue)).raised = w.raised +
      if w.regs.timerEnabled ∧ (w.count - w.regs.Compare).toNat < 1000 ∧
          w.regs.Compare.toNat < 2 ^ 32 - 1000 then 1
      else 0 := by
  change w.raised + (w.regs.cpuEventTest countersDue).2.toNat = _
  rw [(w.regs.cpuEventTest_eq countersDue).2, ← h]
  congr 1
  by_cases hfired : w.regs.timerEnabled ∧ Regs.inWindow w.count w.regs.Compare
  · rw [hfired.1, hfired.2, if_pos ⟨rfl, (Regs.inWindow_iff ..).1 hfired.2⟩]
    rfl
  · rw [if_neg fun hc => hfired ⟨hc.1, (Regs.inWindow_iff ..).2 hc.2⟩,
      Bool.eq_false_iff.2 fun hc => hfired (Bool.and_eq_true_iff.1 hc)]
    rfl

theorem exact_iff_meets (h : w.CountInv) (hbal : w.Balanced) (e : Event) :
    w.TimerExact e ↔ w.TestMeets e := by
  unfold TimerExact TestMeets
  split
  · rename_i countersDue
    refine imp_congr_right fun hon => ?_
    rw [eventTest_raised h, ← hbal]
    split_ifs with hwin hwin' hwin'
    · omega
    · exact absurd hwin.2 hwin'
    · exact absurd ⟨hon, hwin'⟩ hwin
    · omega
  · exact Iff.rfl

theorem goOn_balanced (hbal : w.Balanced) (cycles : BitVec 32) : (w.goOn cycles).Balanced := by
  unfold Balanced at hbal ⊢
  change w.raised + (w.owed + _) = w.passed + _
  omega

theorem Balanced.step (hbal : w.Balanced) {e : Event} (hexact : w.TimerExact e) :
    (w.step e).Balanced := by
  cases e with
  | advance cycles => exact goOn_balanced hbal cycles
  | mfc0 Rd Rt imm =>
    rw [World.step]
    split_ifs
    · exact goOn_balanced hbal _
    · exact hbal
    · exact hbal
  | mtc0 Rd imm value =>
    rw [World.step]
    split_ifs <;> exact hbal
  | exception code => exact hbal
  | eventTest countersDue =>
    by_cases hon : w.regs.timerEnabled
    · change (w.step (.eventTest countersDue)).raised + (if w.regs.timerEnabled then 0 else w.owed)
        = w.passed
      rw [if_pos hon]
      exact hexact hon
    · change w.raised + (w.regs.cpuEventTest countersDue).2.toNat +
        (if w.regs.timerEnabled then 0 else w.owed) = w.passed
      rw [if_neg hon, (w.regs.cpuEventTest_eq countersDue).2, Bool.eq_false_iff.2 hon]
      exact hbal

theorem timer_exact_iff (h : w.CountInv) (hbal : w.Balanced) (events : List Event) :
    Meets next TimerExact w events ↔ Meets next TestMeets w events := by
  induction events generalizing w with
  | nil => exact Iff.rfl
  | cons e events ih =>
    have hhead := exact_iff_meets h hbal e
    constructor
    · rintro ⟨hexact, hrest⟩
      refine ⟨hhead.1 hexact, fun t ht => ?_⟩
      obtain rfl := Option.some.inj ht
      exact (ih (h.step e) (hbal.step hexact)).1 (hrest _ rfl)
    · rintro ⟨hmeets, hrest⟩
      have hexact := hhead.2 hmeets
      refine ⟨hexact, fun t ht => ?_⟩
      obtain rfl := Option.some.inj ht
      exact (ih (h.step e) (hbal.step hexact)).2 (hrest _ rfl)

/-! ## The performance counters -/

variable (i : Fin 2)

/-- The counter that is expected is the register, with the cycles since its stamp while the code
counts. -/
def PcrInv (w : World) : Prop :=
  w.pcr i = w.regs.pcr i +
    if counted w.regs.pccr i then w.regs.cycle - w.regs.s_iLastPERFCycle i else 0

/-- A read of the counter gives the value that is expected. -/
def PcrExact (w : World) : Event → Prop
  | .mfc0 25 Rt imm => imm &&& 1 ≠ 0 → (if imm &&& 2 = 0 then 0 else 1) = i →
    ∀ value ∈ (w.regs.mfc0 25 Rt imm).2, value = (w.step (.mfc0 25 Rt imm)).pcr i
  | _ => True

/-- Time goes by while the code counts as the enable bits say, an update finds a cycle to add, and
counting is turned on where the stamp is new. -/
def PcrMeets (w : World) : Event → Prop
  | .advance cycles => cycles = 0 ∨ counted w.regs.pccr i = w.regs.counting i
  | .eventTest true => counted w.regs.pccr i → w.regs.cycle ≠ w.regs.s_iLastPERFCycle i
  | .mtc0 25 imm value => imm &&& 1 = 0 → imm &&& 0x3E = 0 →
    if counted w.regs.pccr i then w.regs.cycle ≠ w.regs.s_iLastPERFCycle i
    else counted value i → w.regs.cycle = w.regs.s_iLastPERFCycle i
  | _ => True

variable {i}

/-- After an update the counter is the one that is expected, but for the extra cycle. -/
theorem PcrInv.updatePCCR (h : w.PcrInv i) : w.regs.updatePCCR.pcr i =
    if counted w.regs.pccr i then w.pcr i + w.extra (w.regs.s_iLastPERFCycle i) else w.pcr i := by
  unfold PcrInv at h
  rw [w.regs.updatePCCR_pcr i]
  split_ifs at h ⊢ with hc
  · rw [h, incr_eq, add_assoc]
  · rw [h, add_zero]

theorem PcrInv.of_eq {w' : World} (h : w.PcrInv i) (hpcr : w'.pcr i = w.pcr i)
    (hregs : w'.regs.pcr i = w.regs.pcr i ∧ w'.regs.pccr = w.regs.pccr ∧
      w'.regs.cycle = w.regs.cycle ∧
      w'.regs.s_iLastPERFCycle i = w.regs.s_iLastPERFCycle i) : w'.PcrInv i := by
  unfold PcrInv
  rw [hpcr, hregs.1, hregs.2.1, hregs.2.2.1, hregs.2.2.2]
  exact h

theorem pcrInv_of_updated {w' : World} (hpcr : w'.pcr i = w.regs.updatePCCR.pcr i)
    (hregs : w'.regs.pcr i = w.regs.updatePCCR.pcr i ∧ w'.regs.pccr = w.regs.pccr ∧
      w'.regs.cycle = w.regs.cycle ∧
      w'.regs.s_iLastPERFCycle i = w.regs.updatePCCR.s_iLastPERFCycle i) : w'.PcrInv i := by
  unfold PcrInv
  rw [hpcr, hregs.1, hregs.2.1, hregs.2.2.1, hregs.2.2.2, w.regs.updatePCCR_last i]
  split_ifs
  · rw [sub_self, add_zero]
  · rw [add_zero]

theorem PcrInv.step_mfc0 (h : w.PcrInv i) (Rd Rt imm : Nat) :
    (w.step (.mfc0 Rd Rt imm)).PcrInv i := by
  rw [World.step, Regs.mfc0_fst]
  split_ifs
  · exact h.of_eq rfl ⟨rfl, rfl, rfl, rfl⟩
  · obtain ⟨_, _, hregs⟩ := w.regs.updatePCCR_eq
    refine pcrInv_of_updated h.updatePCCR.symm ⟨rfl, ?_, ?_, rfl⟩
    · dsimp only
      rw [hregs]
    · dsimp only
      rw [hregs]
  · exact h.of_eq rfl ⟨rfl, rfl, rfl, rfl⟩

theorem PcrInv.write_pccr {w' : World} {value : BitVec 32} (h : w.PcrInv i)
    (hmeets : if counted w.regs.pccr i then w.regs.cycle ≠ w.regs.s_iLastPERFCycle i
      else counted value i → w.regs.cycle = w.regs.s_iLastPERFCycle i)
    (hpcr : w'.pcr i = w.pcr i) (hregs : w'.regs = { w.regs.updatePCCR with pccr := value }) :
    w'.PcrInv i := by
  obtain ⟨_, _, heq⟩ := w.regs.updatePCCR_eq
  have hcycle : w.regs.updatePCCR.cycle = w.regs.cycle := by rw [heq]
  have hupdated := h.updatePCCR
  unfold PcrInv
  rw [hpcr, hregs]
  dsimp only
  rw [hupdated, hcycle, w.regs.updatePCCR_last i]
  split_ifs at hmeets ⊢ with hc hv hv
  · rw [extra, if_neg hmeets, sub_self, add_zero, add_zero]
  · rw [extra, if_neg hmeets, add_zero, add_zero]
  · rw [hmeets hv, sub_self, add_zero]
  · rw [add_zero]

theorem PcrInv.step_mtc0 (h : w.PcrInv i) {Rd imm : Nat} {value : BitVec 32}
    (hmeets : w.PcrMeets i (.mtc0 Rd imm value)) : (w.step (.mtc0 Rd imm value)).PcrInv i := by
  rw [World.step]
  by_cases h9 : Rd = 9
  · subst h9
    exact h.of_eq rfl ⟨rfl, rfl, rfl, rfl⟩
  rw [if_neg h9]
  by_cases h25 : Rd = 25
  · subst h25
    by_cases h1 : imm &&& 1 = 0
    · rw [if_neg fun h => h.2 h1]
      by_cases hreg : imm &&& 0x3E = 0
      · refine h.write_pccr (hmeets h1 hreg) rfl ?_
        change w.regs.mtc0 25 imm value = _
        simp only [Regs.mtc0]
        rw [if_pos h1, if_neg fun h => h hreg]
      · refine h.of_eq rfl ?_
        simp only [Regs.mtc0]
        rw [if_pos h1, if_pos hreg]
        exact ⟨rfl, rfl, rfl, rfl⟩
    · rw [if_pos ⟨rfl, h1⟩]
      unfold PcrInv
      simp only [Regs.mtc0]
      rw [if_neg h1]
      dsimp only
      generalize (if imm &&& 2 = 0 then 0 else 1 : Fin 2) = j
      by_cases hj : i = j
      · subst hj
        rw [Function.update_self, Function.update_self, Function.update_self, sub_self, ite_self,
          add_zero]
      · rw [Function.update_of_ne hj, Function.update_of_ne hj, Function.update_of_ne hj]
        exact h
  · rw [if_neg fun h => h25 h.1]
    refine h.of_eq rfl ?_
    dsimp only
    unfold Regs.mtc0
    split
    · contradiction
    · exact ⟨rfl, rfl, rfl, rfl⟩
    · exact ⟨rfl, rfl, rfl, rfl⟩
    · contradiction
    · exact ⟨rfl, rfl, rfl, rfl⟩

theorem PcrInv.step (h : w.PcrInv i) {e : Event} (hmeets : w.PcrMeets i e) :
    (w.step e).PcrInv i := by
  cases e with
  | advance cycles =>
    change (if w.regs.counting i then w.pcr i + cycles else w.pcr i) = w.regs.pcr i +
      if counted w.regs.pccr i then w.regs.cycle + cycles - w.regs.s_iLastPERFCycle i else 0
    unfold PcrInv at h
    obtain rfl | heq := hmeets
    · rw [add_zero, add_zero, ite_self]
      exact h
    · rw [← heq, h]
      split_ifs
      · rw [add_sub_right_comm, add_assoc]
      · rfl
  | mfc0 Rd Rt imm => exact h.step_mfc0 Rd Rt imm
  | mtc0 Rd imm value => exact h.step_mtc0 hmeets
  | exception code =>
    obtain ⟨Status, hregs⟩ := w.regs.cpuException_eq code
    refine h.of_eq rfl ?_
    rw [show (w.step (.exception code)).regs = w.regs.cpuException code from rfl, hregs]
    exact ⟨rfl, rfl, rfl, rfl⟩
  | eventTest countersDue =>
    obtain ⟨hpcr, hlast, hpccr, hcycle⟩ := w.regs.cpuEventTest_perf countersDue
    have hregs : (w.step (.eventTest countersDue)).regs = (w.regs.cpuEventTest countersDue).1 := rfl
    cases countersDue with
    | false =>
      refine h.of_eq rfl ?_
      rw [hregs, hpcr, hlast, hpccr, hcycle]
      exact ⟨rfl, rfl, rfl, rfl⟩
    | true =>
      refine pcrInv_of_updated (w := w) ?_ ?_
      swap
      · rw [hregs, hpcr, hlast, hpccr, hcycle]
        exact ⟨rfl, rfl, rfl, rfl⟩
      change w.pcr i = w.regs.updatePCCR.pcr i
      rw [h.updatePCCR]
      split_ifs with hc
      · rw [extra, if_neg (hmeets hc), add_zero]
      · rfl

theorem PcrInv.exact (h : w.PcrInv i) (e : Event) : w.PcrExact i e := by
  unfold PcrExact
  split
  · rename_i Rt imm
    intro h1 hi value hvalue
    unfold Regs.mfc0 at hvalue
    by_cases hRt : Rt = 0
    · rw [if_pos ⟨by decide, hRt⟩] at hvalue
      cases hvalue
    · have hread : 25 = 25 ∧ Rt ≠ 0 ∧ imm &&& 1 ≠ 0 := ⟨rfl, hRt, h1⟩
      have hvalue : value = w.regs.updatePCCR.pcr i := by
        rw [if_neg fun h => hRt h.2, if_neg h1] at hvalue
        split_ifs at hvalue hi
        · rw [← hi]
          exact (Option.mem_some.1 hvalue).symm
        · rw [← hi]
          exact (Option.mem_some.1 hvalue).symm
      rw [World.step, if_neg (by decide), if_pos hread, hvalue, h.updatePCCR]
  · trivial

theorem pcr_exact (h : w.PcrInv i) {events : List Event}
    (hmeets : Meets next (PcrMeets i) w events) : Meets next (PcrExact i) w events := by
  induction events generalizing w with
  | nil => trivial
  | cons e events ih =>
    refine ⟨h.exact e, fun t ht => ?_⟩
    obtain rfl := Option.some.inj ht
    exact ih (h.step hmeets.1) (hmeets.2 _ rfl)

theorem reset_pcrInv (i : Fin 2) : reset.PcrInv i := by
  have hoff : counted reset.regs.pccr i = false := by
    match i with
    | 0 => rfl
    | 1 => rfl
  unfold PcrInv
  rw [hoff]
  rfl

/-- The event tests are at most 3072 cycles apart, from one `gap` cycles ago on. -/
def Spaced (gap : Nat) : List Event → Prop
  | [] => True
  | .advance cycles :: events => gap + cycles.toNat ≤ 3072 ∧ Spaced (gap + cycles.toNat) events
  | .eventTest _ :: events => Spaced 0 events
  | _ :: events => Spaced gap events

end World

open World

/-- Reads of `Count` are exact in every run.  The timer fires once for every pass exactly in the
runs whose tests find `Count` less than 1000 past `Compare` where it was passed once, and not
where it was not.  Reads of a performance counter are exact in the runs where the code counts as
the enable bits say. -/
theorem counts_exact (events : List Event) :
    Meets next CountExact reset events ∧
    (Meets next TimerExact reset events ↔ Meets next TestMeets reset events) ∧
    ∀ i, Meets next (PcrMeets i) reset events → Meets next (PcrExact i) reset events := by
  have hcount : reset.CountInv := rfl
  exact ⟨count_exact hcount events, timer_exact_iff hcount rfl events,
    fun i => pcr_exact (reset_pcrInv i)⟩

/-- Two tests after one pass. -/
def testedTwice : List Event :=
  [.mtc0 11 0 10, .mtc0 12 0 0x8000, .advance 20, .eventTest false, .advance 20, .eventTest false]

/-- The first counter is turned on after some cycles and read after some more. -/
def turnedOn (before : BitVec 32) : List Event :=
  [.mtc0 12 0 0, .advance before, .mtc0 25 0 0x80000024, .advance 10, .mfc0 25 1 1]

theorem counts_exact_turnedOn : Meets next (PcrExact 0) reset (turnedOn 0) := by
  refine (counts_exact (turnedOn 0)).2.2 0 ⟨trivial, fun t ht => ?_⟩
  obtain rfl := Option.some.inj ht
  refine ⟨.inl rfl, fun t ht => ?_⟩
  obtain rfl := Option.some.inj ht
  refine ⟨fun _ _ => ?_, fun t ht => ?_⟩
  · decide +kernel
  obtain rfl := Option.some.inj ht
  refine ⟨.inr (by decide +kernel), fun t ht => ?_⟩
  obtain rfl := Option.some.inj ht
  exact ⟨trivial, fun _ _ => trivial⟩

theorem not_counts_exact :
    (¬∀ events, Spaced 0 events → Meets next TimerExact reset events) ∧
    ¬∀ events, Spaced 0 events → Meets next (PcrExact 0) reset events := by
  constructor
  · intro h
    have hrun := h testedTwice ⟨by decide, by decide, trivial⟩
    have hlast := (((((hrun.2 _ rfl).2 _ rfl).2 _ rfl).2 _ rfl).2 _ rfl).1 (by decide +kernel)
    revert hlast
    decide +kernel
  · intro h
    have hrun := h (turnedOn 20) ⟨by decide, by decide, trivial⟩
    have hlast := ((((hrun.2 _ rfl).2 _ rfl).2 _ rfl).2 _ rfl).1 (by decide) rfl 30
      (by decide +kernel)
    revert hlast
    decide +kernel

end OmegaRed.Cop0
