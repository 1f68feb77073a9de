import OmegaRed.Gif.Monitors
import OmegaRed.Gif.Parser

/-! What a round of `ExecuteGSPacket` does to the registers and to the history. -/

namespace OmegaRed.Gif

open Lib.Memory Lib.Traces

variable {path : GIFPath} {g g' g'' : GSRegs} {h es es' : List GSEvent} {stat : Stat}

/-- From `g`, where no SIGNAL is queued, the calls of `Gif_HandlerAD` for one path have written
`es` and left `g'`; if one of them stalled it was the last. -/
structure Served (path : GIFPath) (g g' : GSRegs) (es : List GSEvent) : Prop where
  owed : run Owed.next .nothing es =
    some (if g'.signalQueued then .stalled path g'.signalData else .nothing)
  sigid : g'.sigid = (applied es).foldl updateId g.sigid
  irqs : g'.intcGS = g.intcGS + irqs es
  sigmsk : g'.sigmsk = g.sigmsk
  finish : g.csrFinish = true → g'.csrFinish = true
  period : ∀ p : Period, p.isOpen = g.csrFinish →
    es.foldl Period.next p = if g'.csrFinish && !g.csrFinish then p.opened else p

theorem Served.nil (hq : g.signalQueued = false) : Served path g g [] where
  owed := by simp [run, hq]
  sigid := rfl
  irqs := rfl
  sigmsk := rfl
  finish := id
  period p _ := by simp

theorem Served.append (hs : Served path g g' es) (hq : g'.signalQueued = false)
    (hs' : Served path g' g'' es') : Served path g g'' (es ++ es') where
  owed := by
    have howed := hs.owed
    rw [hq, if_neg Bool.false_ne_true] at howed
    rw [run_append_of_eq howed, hs'.owed]
  sigid := by rw [hs'.sigid, hs.sigid, applied_append, List.foldl_append]
  irqs := by rw [hs'.irqs, hs.irqs, irqs_append, Nat.add_assoc]
  sigmsk := hs'.sigmsk.trans hs.sigmsk
  finish := fun hf => hs'.finish (hs.finish hf)
  period p hp := by
    have hfirst := hs.period p hp
    have hrest := hs'.finish
    rw [List.foldl_append, hfirst]
    cases hf : g.csrFinish with
    | true =>
      have hf' := hs.finish hf
      simp only [hf, hf', Bool.not_true, Bool.and_false, Bool.false_eq_true, if_false] at hfirst ⊢
      have hrest := hs'.period p (hp.trans (hf.trans hf'.symm))
      simpa [hf'] using hrest
    | false =>
      cases hf' : g'.csrFinish with
      | true =>
        have hrest := hs'.period p.opened hf'.symm
        simpa [hf', hs'.finish hf'] using hrest
      | false =>
        have hrest := hs'.period p (hp.trans (hf.trans hf'.symm))
        simpa [hf'] using hrest

/-- The 16 bytes of an A+D write to SIGNAL. -/
def IsSignal (pMem : List UInt8) : Prop := pMem.getD 8 0 = regSIGNAL

theorem IsSignal.ne_finish {pMem : List UInt8} (hsig : IsSignal pMem) :
    pMem.getD 8 0 ≠ regFINISH := by
  rw [show pMem.getD 8 0 = regSIGNAL from hsig]
  decide

theorem not_isSignal_of_finish {pMem : List UInt8} (hfin : pMem.getD 8 0 = regFINISH) :
    ¬IsSignal pMem := fun hsig => hsig.ne_finish hfin

theorem handlerAD_stalls {pMem : List UInt8} (hsig : IsSignal pMem) (hc : g.csrSignal = true)
    (hq : g.signalQueued = false) :
    handlerAD pMem g = (true, { g with signalQueued := true, signalData := idAndMask pMem }) := by
  simp only [handlerAD, show pMem.getD 8 0 = regSIGNAL from hsig, hc, hq]
  rfl

theorem handlerAD_applies {pMem : List UInt8} (hsig : IsSignal pMem) (hc : g.csrSignal = false) :
    handlerAD pMem g = (false, { g with
      sigid := updateId g.sigid (idAndMask pMem)
      intcGS := if g.sigmsk then g.intcGS else g.intcGS + 1
      csrSignal := true }) := by
  simp only [handlerAD, show pMem.getD 8 0 = regSIGNAL from hsig, hc]
  rfl

theorem handlerAD_finish {pMem : List UInt8} (hfin : pMem.getD 8 0 = regFINISH) :
    handlerAD pMem g = (false, { g with csrFinish := true }) := by
  simp only [handlerAD, hfin]
  rfl

/-- The registers SIGNAL and FINISH work on are the same. -/
structure SameSignals (g g' : GSRegs) : Prop where
  csrSignal : g'.csrSignal = g.csrSignal
  csrFinish : g'.csrFinish = g.csrFinish
  sigid : g'.sigid = g.sigid
  sigmsk : g'.sigmsk = g.sigmsk
  signalQueued : g'.signalQueued = g.signalQueued
  signalData : g'.signalData = g.signalData
  intcGS : g'.intcGS = g.intcGS

theorem handlerAD_other {pMem : List UInt8} (hsig : ¬IsSignal pMem)
    (hfin : pMem.getD 8 0 ≠ regFINISH) (g : GSRegs) : SameSignals g (handlerAD pMem g).2 := by
  simp only [handlerAD, if_neg (show ¬pMem.getD 8 0 = regSIGNAL from hsig), if_neg hfin]
  repeat' split
  all_goals exact ⟨rfl, rfl, rfl, rfl, rfl, rfl, rfl⟩

theorem served_stall {pMem : List UInt8} (hsig : IsSignal pMem) :
    Served path g { g with signalQueued := true, signalData := idAndMask pMem }
      [.handled path pMem true] where
  owed := by simp only [run, Owed.next_signal hsig, Option.bind_some, if_true]
  sigid := rfl
  irqs := rfl
  sigmsk := rfl
  finish := id
  period p _ := by simp [Period.next_handled hsig.ne_finish]

theorem served_applied {pMem : List UInt8} (hsig : IsSignal pMem) (hq : g.signalQueued = false) :
    Served path g { g with
      sigid := updateId g.sigid (idAndMask pMem)
      intcGS := if g.sigmsk then g.intcGS else g.intcGS + 1
      csrSignal := true } [.handled path pMem false, .applied (idAndMask pMem) g.sigmsk] where
  owed := by
    simp only [run, Owed.next_signal hsig, Owed.next_update, Option.bind_some, hq,
      Bool.false_eq_true, if_false]
  sigid := rfl
  irqs := by
    simp only [irqs, GSEvent.irqs, List.map_cons, List.map_nil, List.sum_cons, List.sum_nil]
    split <;> rfl
  sigmsk := rfl
  finish := id
  period p _ := by
    rw [List.foldl_cons, Period.next_handled hsig.ne_finish]
    simp [Period.next]

theorem served_finish {pMem : List UInt8} (hfin : pMem.getD 8 0 = regFINISH)
    (hq : g.signalQueued = false) :
    Served path g { g with csrFinish := true } [.handled path pMem g.csrSignal] where
  owed := by simp [run, Owed.next_handled (not_isSignal_of_finish hfin), hq]
  sigid := rfl
  irqs := rfl
  sigmsk := rfl
  finish _ := rfl
  period p hp := by
    rw [List.foldl_cons, Period.next_finish hfin, hp]
    cases g.csrFinish <;> rfl

theorem served_other {pMem : List UInt8} (hsig : ¬IsSignal pMem)
    (hfin : pMem.getD 8 0 ≠ regFINISH) (hq : g.signalQueued = false) (hg : SameSignals g g') :
    Served path g g' [.handled path pMem g.csrSignal] where
  owed := by simp [run, Owed.next_handled hsig, hg.signalQueued, hq]
  sigid := hg.sigid
  irqs := hg.intcGS
  sigmsk := hg.sigmsk
  finish := fun hf => hg.csrFinish.trans hf
  period p _ := by simp [Period.next_handled hfin, hg.csrFinish]

theorem traced_served (path : GIFPath) (pMem : List UInt8) (h : List GSEvent)
    (hq : g.signalQueued = false) :
    ∃ es, (traced path pMem (g, h)).2.2 = h ++ es ∧
      Served path g (traced path pMem (g, h)).2.1 es ∧
      (traced path pMem (g, h)).1 = (traced path pMem (g, h)).2.1.signalQueued ∧
      ((traced path pMem (g, h)).1 = true → IsSignal pMem ∧ es = [.handled path pMem true]) := by
  refine ⟨_, rfl, ?_⟩
  simp only [traced]
  by_cases hsig : IsSignal pMem
  · have hreg : pMem.getD 8 0 = regSIGNAL := hsig
    cases hc : g.csrSignal with
    | true =>
      simp only [handlerAD_stalls hsig hc hq, hreg, Bool.not_true, Bool.and_false,
        Bool.false_eq_true, if_false]
      exact ⟨served_stall hsig, trivial, fun _ => ⟨hsig, trivial⟩⟩
    | false =>
      simp only [handlerAD_applies hsig hc, hreg, Bool.not_false, Bool.and_true, decide_true,
        if_true]
      exact ⟨served_applied hsig hq, hq.symm, fun hstall => absurd hstall Bool.false_ne_true⟩
  · have hreg : ¬pMem.getD 8 0 = regSIGNAL := hsig
    simp only [hreg, decide_false, Bool.false_and, Bool.false_eq_true, if_false]
    by_cases hfin : pMem.getD 8 0 = regFINISH
    · rw [handlerAD_finish hfin]
      exact ⟨served_finish hfin hq, hq.symm, fun hstall => absurd hstall Bool.false_ne_true⟩
    · have hg := handlerAD_other hsig hfin g
      have hret : (handlerAD pMem g).1 = false := handlerAD_of_ne_signal hsig g
      refine ⟨served_other hsig hfin hq hg, ?_, fun hstall => ?_⟩
      · rw [hret, hg.signalQueued, hq]
      · rw [hret] at hstall
        exact absurd hstall Bool.false_ne_true

/-- The calls `es` end with a SIGNAL, and the path stands right behind it. -/
def StopsAt (path : GIFPath) (p : GifPath) (es : List GSEvent) : Prop :=
  ∃ front pMem, es = front ++ [.handled path pMem true] ∧ IsSignal pMem ∧ 16 ≤ p.curOffset ∧
    load p.buffer (p.curOffset - 16) 16 = pMem

theorem StopsAt.append {p : GifPath} (hs : StopsAt path p es') (es : List GSEvent) :
    StopsAt path p (es ++ es') := by
  obtain ⟨front, pMem, rfl, hpMem⟩ := hs
  exact ⟨es ++ front, pMem, (List.append_assoc _ _ _).symm, hpMem⟩

theorem word_served (path : GIFPath) (p : GifPath) (r : GSRegs × List GSEvent)
    (hq : r.1.signalQueued = false) {w : Bool × GSRegs × List GSEvent}
    (hw : (if p.gifTag.curReg = gifRegAD then traced path (load p.buffer p.curOffset 16) r
      else (false, r)) = w) :
    ∃ es, w.2.2 = r.2 ++ es ∧ Served path r.1 w.2.1 es ∧ w.1 = w.2.1.signalQueued ∧
      (w.1 = true → IsSignal (load p.buffer p.curOffset 16) ∧
        es = [.handled path (load p.buffer p.curOffset 16) true]) := by
  subst hw
  split
  · exact traced_served path _ r.2 hq
  · exact ⟨[], (List.append_nil _).symm, .nil hq, hq.symm, fun hstall => by cases hstall⟩

theorem adLoop_served (path : GIFPath) (p : GifPath) (r : GSRegs × List GSEvent)
    (hq : r.1.signalQueued = false) :
    ∃ es, (adLoop (traced path) p r).2.2.2 = r.2 ++ es ∧
      Served path r.1 (adLoop (traced path) p r).2.2.1 es ∧
      ((adLoop (traced path) p r).1 = .stalled ↔
        (adLoop (traced path) p r).2.2.1.signalQueued = true) ∧
      ((adLoop (traced path) p r).1 = .stalled →
        StopsAt path (adLoop (traced path) p r).2.1 es) := by
  fun_induction adLoop (traced path) p r with
  | case1 p r hloop =>
    exact ⟨[], (List.append_nil _).symm, .nil hq, by simp [hq], fun hs => by cases hs⟩
  | case2 p r hloop hsize =>
    exact ⟨[], (List.append_nil _).symm, .nil hq, by simp [hq], fun hs => by cases hs⟩
  | case3 p r hloop hsize r' p' hw =>
    obtain ⟨es, hes, hserved, hdbl, hstall⟩ := word_served path p r hq hw
    obtain ⟨hsig, rfl⟩ := hstall rfl
    refine ⟨_, hes, hserved, ⟨fun _ => hdbl.symm, fun _ => rfl⟩, fun _ => ⟨[], _, rfl, hsig, ?_, rfl⟩⟩
    exact Nat.le_add_left _ _
  | case4 p r hloop hsize dbl r' hw p' hdbl ih =>
    obtain ⟨es, hes, hserved, hret, -⟩ := word_served path p r hq hw
    have hq' : r'.1.signalQueued = false := by
      rw [← hret]
      simpa using hdbl
    obtain ⟨es', hes', hserved', hiff, hstops⟩ := ih hq'
    refine ⟨es ++ es', ?_, hserved.append hq' hserved', hiff, fun hs => (hstops hs).append es⟩
    rw [hes', hes, List.append_assoc]

/-- The registers, the history and the path at the end of a round. -/
def Exec.Serves (path : GIFPath) (r : GSRegs × List GSEvent) :
    Exec (GSRegs × List GSEvent) → Prop
  | .again _ r' | .realign _ r' => ∃ es, r'.2 = r.2 ++ es ∧ Served path r.1 r'.1 es ∧
      r'.1.signalQueued = false
  | .exit p r' => ∃ es, r'.2 = r.2 ++ es ∧ Served path r.1 r'.1 es ∧
      (r'.1.signalQueued = true → p.gifTag.isValid = true ∧ StopsAt path p es)
  | .done p r' _ => ∃ es, r'.2 = r.2 ++ es ∧ Served path r.1 r'.1 es ∧
      (r'.1.signalQueued = true → StopsAt path p es)

theorem endTag_serves {p : GifPath} {r r' : GSRegs × List GSEvent} (hes : r'.2 = r.2 ++ es)
    (hserved : Served path r.1 r'.1 es)
    (hstops : r'.1.signalQueued = true → p.gifTag.tag.eop = true ∧ StopsAt path p es) :
    (endTag stat p r').Serves path r := by
  rw [endTag]
  dsimp only
  split
  · split
    · split <;> exact ⟨es, hes, hserved, fun hq => (hstops hq).2⟩
    · exact ⟨es, hes, hserved, fun hq => (hstops hq).2⟩
  · next heop =>
    refine ⟨es, hes, hserved, ?_⟩
    cases hq : r'.1.signalQueued with
    | false => rfl
    | true => exact absurd (hstops hq).1 heop

theorem processData_serves {p : GifPath} {r : GSRegs × List GSEvent}
    (hq : r.1.signalQueued = false) (hp : Placed p) (hvalid : p.gifTag.isValid = true) :
    (processData (traced path) stat p r).Serves path r := by
  rw [processData]
  split
  · obtain ⟨es, hes, hserved, hiff, hstops⟩ := adLoop_served path p r hq
    have hv : (adLoop (traced path) p r).2.1.gifTag.isValid = true :=
      (adLoop_advances (traced path) r hp).2.2.trans hvalid
    generalize adLoop (traced path) p r = res at *
    obtain ⟨exit, q, r'⟩ := res
    cases exit with
    | early => exact ⟨es, hes, hserved, fun hq' => by cases hiff.mpr hq'⟩
    | stalled =>
      dsimp only
      split
      · next heop =>
        refine endTag_serves hes hserved fun _ => ⟨?_, hstops rfl⟩
        simp only [Bool.and_eq_true] at heop
        exact heop.1
      · exact ⟨es, hes, hserved, fun _ => ⟨hv, hstops rfl⟩⟩
    | finished => exact endTag_serves hes hserved fun hq' => by cases hiff.mpr hq'
  · refine endTag_serves (List.append_nil _).symm (.nil hq) fun hq' => ?_
    rw [hq] at hq'
    cases hq'

theorem loadTag_serves {p : GifPath} {r : GSRegs × List GSEvent} (hq : r.1.signalQueued = false)
    (hp : Placed p) (hsize : p.curOffset + 16 ≤ p.curSize) :
    (loadTag (traced path) stat p r).Serves path r := by
  rw [loadTag]
  dsimp only
  split
  · refine ⟨[], (List.append_nil _).symm, .nil hq, fun hq' => ?_⟩
    rw [hq] at hq'
    cases hq'
  · have hadv : Advances p (p.setTag.incTag 16) := hp.incTag hsize _ _
    exact processData_serves hq hadv.placed (GifTag.isValid_setTag _ _ _)

theorem executeGSPacket_serves {p : GifPath} {r : GSRegs × List GSEvent}
    (hq : r.1.signalQueued = false) (hp : Placed p) :
    (executeGSPacket (traced path) stat p r).Serves path r := by
  have hnot (P : Prop) : r.1.signalQueued = true → P := by simp [hq]
  rw [executeGSPacket]
  split
  · split
    · exact ⟨[], (List.append_nil _).symm, .nil hq, hnot _⟩
    · split
      · exact ⟨[], (List.append_nil _).symm, .nil hq, hq⟩
      · exact loadTag_serves hq hp (by omega)
  · next hvalid => exact processData_serves hq hp (by simpa using hvalid)

end OmegaRed.Gif
