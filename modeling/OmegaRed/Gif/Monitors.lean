import OmegaRed.Gif.Arbiter
import OmegaRed.Lib.Traces

/-! How the guest expects its SIGNALs and FINISHes to be served: what a history of events still
asks for. -/

namespace OmegaRed.Gif

open Lib.Traces

/-- What the SIGNALs so far ask for: nothing; that SIGID is updated at once; or, when one has
stalled, nothing before a CSR write but the packet that ends with it. -/
inductive Owed
  | nothing
  | update (data : UInt32 × UInt32)
  | stalled (path : GIFPath) (data : UInt32 × UInt32)
  | held (data : UInt32 × UInt32)

namespace Owed

def next : Owed → GSEvent → Option Owed
  | .nothing, .handled path pMem csrSignal =>
    if pMem.getD 8 0 = regSIGNAL then
      some (if csrSignal then .stalled path (idAndMask pMem) else .update (idAndMask pMem))
    else some .nothing
  | .nothing, .applied _ _ => none
  | .nothing, _ => some .nothing
  | .update data, .applied data' _ => if data' = data then some .nothing else none
  | .update _, _ => none
  | .stalled path data, .completed path' _ => if path' = path then some (.held data) else none
  | .held _, .completed _ _ => none
  | .stalled _ data, .csrSignal | .held data, .csrSignal => some (.update data)
  | .stalled _ _, .handled _ _ _ | .held _, .handled _ _ _ => none
  | .stalled _ _, .applied _ _ | .held _, .applied _ _ => none
  | .stalled _ data, _ | .held data, _ => some (.held data)

theorem next_signal {pMem : List UInt8} (hsig : pMem.getD 8 0 = regSIGNAL) (path : GIFPath)
    (csrSignal : Bool) : next .nothing (.handled path pMem csrSignal) =
      some (if csrSignal then .stalled path (idAndMask pMem) else .update (idAndMask pMem)) :=
  if_pos hsig

theorem next_handled {pMem : List UInt8} (hsig : pMem.getD 8 0 ≠ regSIGNAL) (path : GIFPath)
    (csrSignal : Bool) : next .nothing (.handled path pMem csrSignal) = some .nothing :=
  if_neg hsig

theorem next_update (data : UInt32 × UInt32) (sigmsk : Bool) :
    next (.update data) (.applied data sigmsk) = some .nothing := if_pos rfl

def pending : Owed → List (UInt32 × UInt32)
  | .nothing => []
  | .update data | .stalled _ data | .held data => [data]

end Owed

/-- The SIGNAL writes that the paths have reached. -/
def reached (h : List GSEvent) : List (UInt32 × UInt32) :=
  h.filterMap fun
    | .handled _ pMem _ => if pMem.getD 8 0 = regSIGNAL then some (idAndMask pMem) else none
    | _ => none

/-- Those that SIGID has been updated with. -/
def applied (h : List GSEvent) : List (UInt32 × UInt32) :=
  h.filterMap fun
    | .applied data _ => some data
    | _ => none

def updateId (id : UInt32) (data : UInt32 × UInt32) : UInt32 :=
  (id &&& ~~~data.2) ||| (data.1 &&& data.2)

/-- How often INTC_GS is raised at an event. -/
def GSEvent.irqs : GSEvent → Nat
  | .applied _ sigmsk => if sigmsk then 0 else 1
  | .imrWrite _ woken => if woken.any then 1 else 0
  | .finishIRQ | .sync => 1
  | _ => 0

def irqs (h : List GSEvent) : Nat := (h.map GSEvent.irqs).sum

@[simp] theorem reached_append (h h' : List GSEvent) :
    reached (h ++ h') = reached h ++ reached h' := List.filterMap_append

@[simp] theorem applied_append (h h' : List GSEvent) :
    applied (h ++ h') = applied h ++ applied h' := List.filterMap_append

@[simp] theorem irqs_append (h h' : List GSEvent) : irqs (h ++ h') = irqs h + irqs h' := by
  simp [irqs]

theorem Owed.next_pending {o o' : Owed} {e : GSEvent} (h : o.next e = some o') :
    o.pending ++ reached [e] = applied [e] ++ o'.pending := by
  cases o <;> cases e <;> simp only [Owed.next, reduceCtorEq, Option.some.injEq] at h <;>
    first
      | (subst h; rfl)
      | skip
  case nothing.handled path pMem csrSignal =>
    split at h
    · next hsig =>
      obtain rfl := Option.some.inj h
      have hreached : reached [.handled path pMem csrSignal] = [idAndMask pMem] := by
        simp only [reached, List.filterMap_cons, if_pos hsig, List.filterMap_nil]
      rw [hreached]
      split <;> rfl
    · next hsig =>
      obtain rfl := Option.some.inj h
      simp only [reached, List.filterMap_cons, if_neg hsig, List.filterMap_nil]
      rfl
  case update.applied data data' sigmsk =>
    split at h
    · next heq =>
      obtain rfl := Option.some.inj h
      rw [← heq]
      rfl
    · cases h
  case stalled.completed path data path' pack =>
    split at h
    · obtain rfl := Option.some.inj h
      rfl
    · cases h

/-- Every SIGNAL that is reached is applied exactly once and in order, the last one perhaps not
yet. -/
theorem Owed.run_pending {o o' : Owed} {h : List GSEvent} (hrun : run Owed.next o h = some o') :
    o.pending ++ reached h = applied h ++ o'.pending := by
  induction h generalizing o with
  | nil =>
    cases hrun
    exact List.append_nil _
  | cons e h ih =>
    obtain ⟨r, hr, hrest⟩ := Option.bind_eq_some_iff.mp hrun
    have hreached := reached_append [e] h
    have happlied := applied_append [e] h
    rw [List.singleton_append] at hreached happlied
    calc
      o.pending ++ reached (e :: h) = (o.pending ++ reached [e]) ++ reached h := by
        rw [hreached, List.append_assoc]
      _ = applied [e] ++ (r.pending ++ reached h) := by
        rw [Owed.next_pending hr, List.append_assoc]
      _ = applied (e :: h) ++ o'.pending := by
        rw [ih hrest, happlied, List.append_assoc]

/-- A period in which CSR.FINISH stays set, or the time up to the next: is its mask bit set now,
has it been clear in the period, how many IMR writes have cleared it, and how often has INTC_GS
been raised for FINISH. -/
structure Period where
  isOpen : Bool
  mask : Bool
  unmasked : Bool
  clears : Nat
  raised : Nat

namespace Period

def opened (p : Period) : Period :=
  { p with isOpen := true, unmasked := !p.mask, clears := 0, raised := 0 }

def next (p : Period) : GSEvent → Period
  | .handled _ pMem _ => if pMem.getD 8 0 = regFINISH && !p.isOpen then p.opened else p
  | .imrWrite new woken =>
    { p with
      mask := new.finish
      unmasked := p.unmasked || (p.isOpen && !new.finish)
      clears := p.clears + if p.isOpen && p.mask && !new.finish then 1 else 0
      raised := p.raised + if woken.finish then 1 else 0 }
  | .finishIRQ => { p with raised := p.raised + 1 }
  | .csrFinish => { p with isOpen := false }
  | _ => p

theorem next_finish {pMem : List UInt8} (hfin : pMem.getD 8 0 = regFINISH) (p : Period)
    (path : GIFPath) (csrSignal : Bool) :
    p.next (.handled path pMem csrSignal) = if p.isOpen then p else p.opened := by
  rw [next, hfin]
  cases p.isOpen <;> rfl

theorem next_handled {pMem : List UInt8} (hfin : pMem.getD 8 0 ≠ regFINISH) (p : Period)
    (path : GIFPath) (csrSignal : Bool) : p.next (.handled path pMem csrSignal) = p := by
  rw [next, decide_eq_false hfin]
  rfl

/-- The period a history has come to, from a time when FINISH was clear. -/
def after (mask : Bool) (h : List GSEvent) : Period :=
  h.foldl next ⟨false, mask, false, 0, 0⟩

theorem after_append (mask : Bool) (h h' : List GSEvent) :
    after mask (h ++ h') = h'.foldl next (after mask h) := List.foldl_append

end Period

end OmegaRed.Gif
