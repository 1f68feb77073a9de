import OmegaRed.Gif.Serving

/-! The interrupts of the unit over whole runs. -/

namespace OmegaRed.Gif

open Lib.Traces

/-- After `Reset`, whatever the buffers and the interrupt masks. -/
structure GifUnit.Initial (u : GifUnit) : Prop where
  paths : ∀ path, u.gifPath path = .reset (u.gifPath path).buffer
  notQueued : u.gs.signalQueued = false
  csrFinish : u.gs.csrFinish = false
  notFired : u.gsFINISHFired = false
  idle : u.pc = .idle
  history : u.history = []

variable {u₀ u v : GifUnit} {as : List Action}

theorem UnitInv.initial (h : u₀.Initial) : UnitInv u₀ u₀ where
  paths path := by
    rw [h.paths path]
    exact ⟨⟨rfl, Nat.le_refl _⟩, fun hvalid => by cases hvalid⟩
  accounts := by
    rw [h.history]
    exact ⟨⟨.nothing, rfl, h.notQueued⟩, rfl, rfl⟩
  flushed hq := by
    rw [h.notQueued] at hq
    cases hq
  parses hp := by
    rw [h.idle] at hp
    exact hp.elim
  realigns e path he := by
    rw [h.idle] at he
    cases he

/-- The SIGNALs of a history: none is lost, none twice, none overtaken. -/
structure SignalsServed (u₀ u : GifUnit) : Prop where
  inOrder : reached u.history =
    applied u.history ++ if u.gs.signalQueued then [u.gs.signalData] else []
  /-- After a SIGNAL that stalls, no path is handled further before the CSR write. -/
  held : (run Owed.next .nothing u.history).isSome
  stalls : u.gs.signalQueued = true → ¬u.pc.Parses
  sigid : u.gs.sigid = (applied u.history).foldl updateId u₀.gs.sigid
  irqs : u.gs.intcGS = u₀.gs.intcGS + irqs u.history

theorem signals_served (h : u₀.Initial) (has : ∀ a ∈ as, a.NoReset)
    (hrun : run GifUnit.step u₀ as = some u) : SignalsServed u₀ u := by
  have hstep (s : GifUnit) (a : Action) (t : GifUnit) (hi : UnitInv u₀ s) (ha : a.NoReset)
      (hs : s.step a = some t) : UnitInv u₀ t := hi.step ha hs
  have hi := invariant hstep (.of_mem fun a ha _ => has a ha) hrun (.initial h)
  obtain ⟨o, howed, hmatches⟩ := hi.accounts.owed
  have hpending : o.pending = if u.gs.signalQueued then [u.gs.signalData] else [] := by
    cases o with
    | nothing => rw [show u.gs.signalQueued = false from hmatches]; rfl
    | update data => exact hmatches.elim
    | stalled path data => rw [hmatches.1, hmatches.2]; rfl
    | held data => rw [hmatches.1, hmatches.2]; rfl
  exact {
    inOrder := hpending ▸ Owed.run_pending howed
    held := by rw [howed]; rfl
    stalls := fun hq hp => Bool.false_ne_true ((hi.parses hp).symm.trans hq)
    sigid := hi.accounts.sigid
    irqs := hi.accounts.irqs }

def GifUnit.powerOn : GifUnit :=
  ⟨fun _ => .reset fun _ => 0, .zero, false, false, false, true, true, true, true, false, .zero, 0,
    .idle, []⟩

theorem GifUnit.initial_powerOn : powerOn.Initial := ⟨fun _ => rfl, rfl, rfl, rfl, rfl, rfl⟩

/-- All interrupts are unmasked, and SIGNAL and FINISH acknowledged. -/
def acknowledge : List Action := [.imrWrite 0, .csrWrite 3, .ee, .ee, .ee, .ee, .ee]

theorem acknowledge_noReset : ∀ a ∈ acknowledge, a.NoReset := by
  simp only [acknowledge, List.forall_mem_cons, Action.NoReset, true_and]
  exact ⟨by decide, by simp⟩

theorem signals_served_acknowledged : ∃ u, run GifUnit.step GifUnit.powerOn acknowledge = some u ∧
    SignalsServed GifUnit.powerOn u :=
  ⟨_, rfl, signals_served GifUnit.initial_powerOn acknowledge_noReset rfl⟩

/-- The EE thread is in the loop of `Execute`, or behind it. -/
def Pc.Executes : Pc → Prop
  | .loop _ | .realign _ | .arbitrate _ | .leave _ => True
  | _ => False

/-- A FINISH that is not masked has been signalled, or `Execute` has still to signal it. -/
structure FinishInv (p : Period) (csrFinish finishmsk fired : Bool) (executes : Prop) : Prop where
  isOpen : p.isOpen = csrFinish
  mask : p.mask = finishmsk
  fired : fired = true → p.isOpen = true ∧ 0 < p.raised
  seen : p.isOpen = true → p.mask = false → p.unmasked = true
  masked : p.unmasked = false → p.raised = 0
  raised : p.unmasked = true → 0 < p.raised ∨ executes ∧ p.isOpen = true ∧ p.mask = false

variable {m : Bool} {path : GIFPath}

namespace GifUnit

def FinishOk (m : Bool) (u : GifUnit) : Prop :=
  FinishInv (Period.after m u.history) u.gs.csrFinish u.finishmsk u.gsFINISHFired u.pc.Executes

/-- What FINISH is about. -/
def finishView (m : Bool) (u : GifUnit) : Period × Bool × Bool × Bool :=
  (Period.after m u.history, u.gs.csrFinish, u.finishmsk, u.gsFINISHFired)

theorem FinishOk.quiet (hi : u.FinishOk m) (h : v.finishView m = u.finishView m)
    (hpc : u.pc.Executes → v.pc.Executes) : v.FinishOk m := by
  simp only [finishView, Prod.mk.injEq] at h
  rw [FinishOk, h.1, h.2.1, h.2.2.1, h.2.2.2]
  exact { hi with raised := fun hu => (hi.raised hu).imp_right (.imp_left hpc) }

theorem finishView_completed (u : GifUnit) (path : GIFPath) (pack : GSPacket) :
    (u.addCompletedGSPacket path pack).finishView m = u.finishView m :=
  congrArg (·, _) (Period.after_append ..)

theorem finishView_flushToMTGS (u : GifUnit) :
    u.flushToMTGS.finishView m = u.finishView m ∧ u.flushToMTGS.pc = u.pc := by
  rw [flushToMTGS]
  split
  · exact ⟨rfl, rfl⟩
  · split
    · exact ⟨finishView_completed .., rfl⟩
    · exact ⟨rfl, rfl⟩

theorem finishView_csrSignal (u : GifUnit) : u.csrSignal.finishView m = u.finishView m ∧
    u.csrSignal.pc = u.pc := by
  rw [csrSignal]
  split <;> exact ⟨congrArg (·, _) (Period.after_append ..), rfl⟩

theorem finishView_start (u : GifUnit) {a : Action} (ha : a.NoReset) (hpc : u.pc = .idle)
    (himr : ∀ value, a ≠ .imrWrite value) :
    (u.start a).finishView m = u.finishView m ∧ ¬(u.start a).pc.Executes := by
  have hidle : ¬u.pc.Executes := by
    rw [hpc]
    exact id
  cases a with
  | imrWrite value => exact absurd rfl (himr value)
  | transfer t data =>
    simp only [start, transferGSPacketData]
    cases t <;> repeat' split
    all_goals first | exact ⟨rfl, hidle⟩ | exact ⟨rfl, id⟩
  | csrWrite value =>
    simp only [start]
    rw [gsCSRwrite_of_no_reset u ha]
    split
    · exact ⟨(finishView_csrSignal u).1, id⟩
    · exact ⟨rfl, id⟩
  | hsync | vsync =>
    simp only [start, hsync, vsync]
    repeat' split
    · exact ⟨rfl, hidle⟩
    · exact ⟨rfl, hidle⟩
    · exact ⟨congrArg (·, _) (Period.after_append ..), hidle⟩
  | busdir dir =>
    cases dir with
    | true =>
      obtain ⟨hview, hsame⟩ := finishView_flushToMTGS (m := m)
        { u with stat := { u.stat with dir := true, oph := true } }
      exact ⟨hview, by rwa [show (u.start (.busdir true)).pc = u.pc from hsame]⟩
    | false => exact ⟨rfl, hidle⟩
  | copyGSPacketData | execute => exact ⟨rfl, id⟩
  | _ => exact ⟨rfl, hidle⟩

namespace FinishOk

theorem imrWrite (hi : u.FinishOk m) (value : UInt32) (hpc : ¬u.pc.Executes) :
    (u.imrWrite value).FinishOk m := by
  have hok : (if (Flags.woken u.csr u.imr (.ofBits (value >>> 8))).any then u.gsIrq
      else u).FinishOk m := by
    split <;> exact hi
  have hwoken : (Flags.woken u.csr u.imr (.ofBits (value >>> 8))).finish =
      ((Period.after m u.history).isOpen && (Period.after m u.history).mask &&
        !(Flags.ofBits (value >>> 8)).finish) := by
    rw [hi.isOpen, hi.mask]
    rfl
  have hhistory : (if (Flags.woken u.csr u.imr (.ofBits (value >>> 8))).any then u.gsIrq
      else u).history = u.history := by
    split <;> rfl
  have hraised hu := (hi.raised hu).resolve_right fun h => hpc h.1
  have hseen := hi.seen
  rw [FinishOk, GifUnit.imrWrite]
  dsimp only [FinishOk] at hok ⊢
  rw [hhistory] at hok ⊢
  rw [Period.after_append, List.foldl_cons, List.foldl_nil]
  generalize Period.after m u.history = p at *
  refine ⟨hok.isOpen, rfl, fun hf => ?_, fun hopen hmask => ?_, fun hu => ?_, fun hu => .inl ?_⟩ <;>
    dsimp only [Period.next] at *
  · exact (hok.fired hf).imp_right fun h => by omega
  · simp [hopen, hmask]
  · simp only [Bool.or_eq_false_iff] at hu
    rw [hok.masked hu.1, hwoken]
    cases hmask : p.mask <;> simp_all
  · cases hunmasked : p.unmasked with
    | true =>
      have hpos := hraised hunmasked
      omega
    | false =>
      simp only [hunmasked, Bool.false_or, Bool.and_eq_true, Bool.not_eq_eq_eq_not,
        Bool.not_true] at hu
      have hmask : p.mask = true := by
        by_contra hno
        exact absurd ((hseen hu.1 (by simpa using hno)).symm.trans hunmasked) (by decide)
      rw [hwoken, hu.1, hu.2, hmask]
      exact Nat.succ_pos _

/-- `Execute` leaves no FINISH unsignalled that is not masked. -/
theorem finishIRQ (hi : u.FinishOk m) (pc : Pc) : { u.finishIRQ with pc := pc }.FinishOk m := by
  rw [GifUnit.finishIRQ]
  split
  · next h =>
    simp only [Bool.and_eq_true, Bool.not_eq_eq_eq_not, Bool.not_true] at h
    have hopen := hi.isOpen.trans h.1.1
    have hseen := hi.seen hopen (hi.mask.trans h.1.2)
    dsimp only [FinishOk]
    rw [Period.after_append]
    exact { hi with
      fired := fun _ => ⟨hopen, Nat.succ_pos _⟩
      masked := fun hu => absurd (hseen.symm.trans hu) (by decide)
      raised := fun _ => .inl (Nat.succ_pos _) }
  · next h =>
    refine { hi with raised := fun hu => .inl ((hi.raised hu).elim id fun hexec => ?_) }
    cases hf : u.gsFINISHFired with
    | true => exact (hi.fired hf).2
    | false =>
      refine absurd ?_ h
      rw [← hi.isOpen, ← hi.mask, hf, hexec.2.1, hexec.2.2]
      rfl

theorem leave (hi : u.FinishOk m) (e : Execution) : (u.leave e).FinishOk m := by
  obtain ⟨hview, hpc⟩ := finishView_flushToMTGS (m := m) u
  have hflush : u.flushToMTGS.FinishOk m := hi.quiet hview fun h => hpc ▸ h
  rw [GifUnit.leave]
  cases e.caller <;> simp only [GifUnit.returnTo] <;> split
  all_goals first | exact hflush.finishIRQ _ | exact hi.finishIRQ _

theorem csrTail (hi : u.FinishOk m) (csr : CSRWrite) (hpc : ¬u.pc.Executes) :
    (u.csrTail csr).FinishOk m := by
  rw [GifUnit.csrTail]
  dsimp only
  split
  · dsimp only [FinishOk]
    rw [Period.after_append]
    exact ⟨rfl, hi.mask, fun hf => (by cases hf), fun hopen => (by cases hopen), hi.masked,
      fun hu => .inl ((hi.raised hu).resolve_right fun h => hpc h.1)⟩
  · exact hi.quiet rfl fun h => absurd h hpc

theorem round (hi : u.FinishOk m) {g' : GSRegs} {es : List GSEvent} (hs : Served path u.gs g' es)
    (q : GifPath) {pc : Pc} (hpc : pc.Executes) :
    { u.setPath path q with gs := g', history := u.history ++ es, pc := pc }.FinishOk m := by
  dsimp only [FinishOk]
  rw [Period.after_append, hs.period _ hi.isOpen]
  have hfinish := hs.finish
  cases hf : u.gs.csrFinish with
  | true =>
    rw [hf] at hfinish
    rw [hfinish rfl]
    exact { hi with
      isOpen := hi.isOpen.trans hf
      raised := fun hu => (hi.raised hu).imp_right (.imp_left fun _ => hpc) }
  | false =>
    cases hf' : g'.csrFinish with
    | false =>
      exact { hi with
        isOpen := hi.isOpen.trans hf
        raised := fun hu => (hi.raised hu).imp_right (.imp_left fun _ => hpc) }
    | true =>
      -- the FINISH opens a period, in which it is signalled later
      refine ⟨rfl, hi.mask, fun hfired => ?_, fun _ hmask => ?_, fun _ => rfl, fun hu => ?_⟩
      · exact absurd ((hi.fired hfired).1.symm.trans (hi.isOpen.trans hf)) (by decide)
      · exact congrArg Bool.not hmask
      · exact .inr ⟨hpc, rfl, by simpa [Period.opened] using hu⟩

theorem afterExec (hi : u.FinishOk m) (e : Execution) {x : Exec (GSRegs × List GSEvent)}
    (hs : x.Serves path (u.gs, u.history)) : (u.afterExec path e x).FinishOk m := by
  cases x with
  | again q r | realign q r =>
    obtain ⟨g', h'⟩ := r
    obtain ⟨es, rfl, hserved, -⟩ := hs
    exact hi.round hserved q trivial
  | exit q r =>
    obtain ⟨g', h'⟩ := r
    obtain ⟨es, rfl, hserved, -⟩ := hs
    have hround := hi.round hserved q (show (Pc.leave e).Executes from trivial)
    simp only [GifUnit.afterExec, GifUnit.notDone]
    repeat' split
    · exact hround.quiet (finishView_completed ..) fun _ => trivial
    · exact hround.quiet rfl fun _ => trivial
    · exact hround
  | done q r pack =>
    obtain ⟨g', h'⟩ := r
    obtain ⟨es, rfl, hserved, -⟩ := hs
    have hround := hi.round hserved q (show (Pc.arbitrate e).Executes from trivial)
    simp only [GifUnit.afterExec]
    split
    · exact hround.quiet (finishView_completed ..) fun _ => trivial
    · exact hround

theorem resume (hi : u.FinishOk m) (hu : UnitInv u₀ u) (h : u.resume = some v) :
    v.FinishOk m := by
  rw [GifUnit.resume] at h
  split at h
  case h_1 => cases h
  case h_2 hpc =>
    rw [GifUnit.copyGSPacketData] at h
    dsimp only at h
    repeat' split at h
    all_goals cases h
    all_goals exact hi.quiet rfl fun hexec => by rw [hpc] at hexec; exact hexec
  case h_3 hpc =>
    unfold GifUnit.memcpy at h
    dsimp only at h
    split at h
    · cases h
      exact hi.quiet rfl fun hexec => by rw [hpc] at hexec; exact hexec.elim
    · cases h
  case h_4 isPath3 isResume caller hpc =>
    cases h
    rw [GifUnit.enter]
    split
    · exact hi.quiet rfl fun _ => trivial
    · cases caller <;> exact hi.quiet rfl fun hexec => by rw [hpc] at hexec; exact hexec
  case h_5 e hpc =>
    cases h
    rw [GifUnit.loop]
    split
    · exact hi.quiet rfl fun _ => trivial
    · next path _ =>
      exact hi.afterExec e (executeGSPacket_serves (hu.parses (by rw [hpc]; trivial))
        (hu.paths path).placed)
  case h_6 e hpc =>
    rw [GifUnit.realign] at h
    split at h
    · cases h
    · next path hpath =>
      split at h
      · cases h
        exact hi.afterExec e (loadTag_serves (hu.parses (by rw [hpc]; trivial))
          (hu.paths path).realignPacket.placed
          ((hu.paths path).size_realign (hu.realigns e path hpc hpath).size))
      · cases h
  case h_7 =>
    cases h
    rw [GifUnit.arbitrate]
    repeat' split
    all_goals exact hi.quiet rfl fun _ => trivial
  case h_8 e _ =>
    cases h
    exact hi.leave e
  case h_9 hpc =>
    cases h
    exact hi.csrTail _ (by rw [hpc]; exact id)

theorem step (hi : u.FinishOk m) (hu : UnitInv u₀ u) {a : Action} (ha : a.NoReset)
    (h : u.step a = some v) : v.FinishOk m := by
  by_cases hee : a = .ee
  · subst hee
    exact hi.resume hu h
  · by_cases hmtgs : ∃ path size, a = .mtgs path size
    · obtain ⟨path, size, rfl⟩ := hmtgs
      cases h
      exact hi.quiet rfl id
    · obtain ⟨hpc, rfl⟩ := step_start hee (fun path size he => hmtgs ⟨path, size, he⟩) h
      have hidle : ¬u.pc.Executes := by
        rw [hpc]
        exact id
      by_cases himr : ∃ value, a = .imrWrite value
      · obtain ⟨value, rfl⟩ := himr
        exact hi.imrWrite value hidle
      · have hview := finishView_start (m := m) u ha hpc fun value he => himr ⟨value, he⟩
        exact hi.quiet hview.1 fun hexec => absurd hexec hidle

end FinishOk

end GifUnit

/-- While the EE thread is outside, INTC_GS has been raised for the FINISH that is pending, or was
last, exactly when its mask bit has been clear. -/
theorem finish_raised_iff (h : u₀.Initial) (has : ∀ a ∈ as, a.NoReset)
    (hrun : run GifUnit.step u₀ as = some u) (hpc : u.pc = .idle) :
    (Period.after u₀.finishmsk u.history).isOpen = u.gs.csrFinish ∧
      (0 < (Period.after u₀.finishmsk u.history).raised ↔
        (Period.after u₀.finishmsk u.history).unmasked = true) := by
  have h₀ : u₀.FinishOk u₀.finishmsk := by
    rw [GifUnit.FinishOk, h.history, h.csrFinish, h.notFired]
    exact ⟨rfl, rfl, fun hf => (by cases hf), fun hf => (by cases hf), fun _ => rfl,
      fun hf => (by cases hf)⟩
  have hstep (s : GifUnit) (a : Action) (t : GifUnit)
      (hi : UnitInv u₀ s ∧ s.FinishOk u₀.finishmsk) (ha : a.NoReset) (hs : s.step a = some t) :
      UnitInv u₀ t ∧ t.FinishOk u₀.finishmsk :=
    ⟨hi.1.step ha hs, hi.2.step hi.1 ha hs⟩
  have hi := invariant hstep (.of_mem fun a ha _ => has a ha) hrun ⟨.initial h, h₀⟩
  refine ⟨hi.2.isOpen, fun hraised => ?_, fun hu => ?_⟩
  · by_contra hno
    exact absurd (hi.2.masked (by simpa using hno)) (Nat.ne_of_gt hraised)
  · refine (hi.2.raised hu).resolve_right fun hexec => ?_
    rw [hpc] at hexec
    exact hexec.1

theorem finish_raised_iff_acknowledged : ∃ u,
    run GifUnit.step GifUnit.powerOn acknowledge = some u ∧
      (Period.after true u.history).isOpen = u.gs.csrFinish ∧
      (0 < (Period.after true u.history).raised ↔ (Period.after true u.history).unmasked = true) :=
  ⟨_, rfl, finish_raised_iff GifUnit.initial_powerOn acknowledge_noReset rfl rfl⟩

end OmegaRed.Gif
