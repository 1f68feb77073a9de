import OmegaRed.Dmac.LegacyDmac
import OmegaRed.Lib.Traces

/-! Every start that is asked of a channel is made once. -/

namespace OmegaRed.Dmac

open Lib Traces Regs

/-- Writes of the EE, and what the transfer of a channel does to its own `CHCR`. -/
inductive Event
  | chcr (c : Channel) (value : U32)
  | ctrl (value : U32)
  | enable (value : U32)
  | transfer (c : Channel) (value : U32)
  deriving DecidableEq

/-- The registers, and the channels whose start has been asked for and not been made. -/
structure Watched where
  regs : Regs
  owed : Channel → Bool

namespace Watched

def write (s : Regs) : Event → Regs
  | .chcr c value => s.dmaExec c value
  | .ctrl value => s.writeCtrl value
  | .enable value => s.writeEnable value
  | .transfer c value => { s with chcr := Function.update s.chcr c value }

/-- The starts that are asked for once the event has been, before any of them is made. -/
def owes (w : Watched) : Event → Channel → Bool
  | .chcr c value, c' =>
    if c' = c then str value && (w.owed c || !str (w.regs.chcr c)) else w.owed c'
  | _, c' => w.owed c'

/-- The starts that the event makes. -/
def starts (s : Regs) (ev : Event) : List Channel := (write s ev).started.drop s.started.length

/-- Only a channel that has been started transfers. -/
def Possible (w : Watched) : Event → Prop
  | .transfer c _ => str (w.regs.chcr c) = true ∧ w.owed c = false
  | _ => True

instance (w : Watched) : (ev : Event) → Decidable (w.Possible ev)
  | .transfer _ _ => inferInstanceAs (Decidable (_ ∧ _))
  | .chcr _ _ | .ctrl _ | .enable _ => isTrue trivial

def step (w : Watched) (ev : Event) : Option Watched :=
  if w.Possible ev then
    some ⟨write w.regs ev, fun c => w.owes ev c && !decide (c ∈ starts w.regs ev)⟩
  else none

def init : Watched := ⟨reset, fun _ => false⟩

end Watched

namespace Regs

/-- `CPND` -/
def suspended (s : Regs) : Bool := s.enabler.getLsbD 16

end Regs

open Watched

/-- What a start is: asked for, not made before, and made at once when the DMAC runs. -/
structure Exact (w : Watched) (ev : Event) (w' : Watched) : Prop where
  started : w'.regs.started = w.regs.started ++ starts w.regs ev
  once : (starts w.regs ev).Nodup
  asked : ∀ c ∈ starts w.regs ev, w.owes ev c = true ∧ str (w'.regs.chcr c) = true
  made : w'.regs.dmae = true → w'.regs.suspended = false → ∀ c, w'.owed c = false
  blocked : w'.regs.dmae = false ∨ w'.regs.suspended = true → starts w.regs ev = []
  kept : ∀ c, str (w.regs.chcr c) = true → (∀ value, ev ≠ .transfer c value) →
    w'.regs.chcr c = w.regs.chcr c ∨ w'.regs.chcr c = clearStr (w.regs.chcr c)

/-- A byte of `DMAC_ENABLEW` that suspends says so in `CPND`. -/
def Clean (_ : Watched) : Event → Prop
  | .enable value => (value >>> 16) &&& 0xff ≠ 0 → value.getLsbD 16 = true
  | _ => True

instance (w : Watched) : (ev : Event) → Decidable (Clean w ev)
  | .enable _ => inferInstanceAs (Decidable (_ → _))
  | .chcr _ _ | .ctrl _ | .transfer _ _ => isTrue trivial

structure Inv (w : Watched) : Prop where
  queue : ∀ c : Channel, w.regs.queued.getLsbD c = w.owed c
  str : ∀ c, w.owed c = true → Regs.str (w.regs.chcr c) = true
  idle : w.regs.canRun = true → ∀ c, w.owed c = false
  same : w.regs.enablew = w.regs.enabler
  byte : w.regs.suspendByte ≠ 0 → w.regs.suspended = true

/-! ## Bits -/

theorem and_one_eq_zero_iff (x : U32) : x &&& 1 = 0 ↔ x.getLsbD 0 = false := by
  rw [← BitVec.toNat_inj, BitVec.getLsbD, BitVec.toNat_and]
  change x.toNat &&& 1 = 0 ↔ _
  rw [Nat.and_one_is_mod, Nat.testBit_zero, decide_eq_false_iff_not]
  omega

theorem and_one_eq_one_iff (x : U32) : x &&& 1 = 1 ↔ x.getLsbD 0 = true := by
  rw [← BitVec.toNat_inj, BitVec.getLsbD, BitVec.toNat_and]
  change x.toNat &&& 1 = 1 ↔ _
  rw [Nat.and_one_is_mod, Nat.testBit_zero, decide_eq_true_eq]

theorem getLsbD_byte (x : U32) : ((x >>> 16) &&& 0xff).getLsbD 0 = x.getLsbD 16 := by
  rw [BitVec.getLsbD_and, BitVec.getLsbD_ushiftRight]
  exact Bool.and_true _

theorem getLsbD_one_shiftLeft (n : Nat) (j : Channel) :
    ((1 : BitVec 16) <<< n).getLsbD j = decide (j.val = n) := by
  have hj := j.isLt
  rw [BitVec.getLsbD_shiftLeft]
  rcases Nat.lt_trichotomy j.val n with hlt | heq | hgt
  · rw [decide_eq_true hlt, decide_eq_false (by omega : ¬ j.val = n)]
    simp
  · subst heq
    simp
    omega
  · rw [decide_eq_false (by omega : ¬ j.val < n), decide_eq_false (by omega : ¬ j.val = n)]
    have hzero : (1 : BitVec 16).getLsbD (j.val - n) = false := by
      obtain ⟨k, hk⟩ : ∃ k, j.val - n = k + 1 := ⟨j.val - n - 1, by omega⟩
      rw [hk]
      simp [BitVec.getLsbD, Nat.testBit_succ]
    rw [hzero, Bool.and_false]

theorem getLsbD_clear (x : BitVec 16) (n : Nat) (j : Channel) :
    (x &&& ~~~((1 : BitVec 16) <<< n)).getLsbD j = (x.getLsbD j && !decide (j.val = n)) := by
  have hj : j.val < 16 := by omega
  rw [BitVec.getLsbD_and, BitVec.getLsbD_not, getLsbD_one_shiftLeft, decide_eq_true hj,
    Bool.true_and]

theorem getLsbD_set (x : BitVec 16) (n : Nat) (j : Channel) :
    (x ||| ((1 : BitVec 16) <<< n)).getLsbD j = (x.getLsbD j || decide (j.val = n)) := by
  rw [BitVec.getLsbD_or, getLsbD_one_shiftLeft]

theorem str_fixMod (value : U32) : str (fixMod value) = str value := by
  rw [fixMod]
  split_ifs
  · rw [str, BitVec.getLsbD_or, BitVec.getLsbD_and, BitVec.getLsbD_not, str]
    have hbits : (0xc : U32).getLsbD 8 = false ∧ (4 : U32).getLsbD 8 = false := by decide
    rw [hbits.1, hbits.2]
    simp
  · rfl

/-! ## Starting what is queued -/

variable {s : Regs} {w w' : Watched} {ev : Event}

theorem foldl_resume (hrun : s.canRun = true) {l : List Channel} (hl : l.Nodup)
    (hstr : ∀ c ∈ l, s.queued.getLsbD c = true → str (s.chcr c) = true) :
    ∃ q : BitVec 16, l.foldl resume s = { s with
        started := s.started ++ l.filter fun c : Channel => s.queued.getLsbD c
        queued := q } ∧
      ∀ c : Channel, q.getLsbD c = (s.queued.getLsbD c && !decide (c ∈ l)) := by
  induction l generalizing s with
  | nil => exact ⟨s.queued, by simp, by simp⟩
  | cons c l ih =>
    rw [List.nodup_cons] at hl
    rw [List.foldl_cons, resume]
    by_cases hq : s.queued.getLsbD c = true
    · rw [if_pos hq, if_pos (by rw [hstr c List.mem_cons_self hq, hrun]; rfl)]
      have hother (j : Channel) (hj : j ∈ l) :
          (s.queued &&& ~~~((1 : BitVec 16) <<< c.val)).getLsbD j = s.queued.getLsbD j := by
        have hne : j.val ≠ c.val := fun heq => hl.1 (Fin.ext heq ▸ hj)
        rw [getLsbD_clear, decide_eq_false hne, Bool.not_false, Bool.and_true]
      obtain ⟨q, heq, hbits⟩ := ih (s := { s.start c with
        queued := s.queued &&& ~~~((1 : BitVec 16) <<< c.val) }) hrun hl.2
        fun j hj hjq => hstr j (List.mem_cons_of_mem c hj) ((hother j hj).symm.trans hjq)
      refine ⟨q, ?_, fun j => ?_⟩
      · rw [heq, List.filter_cons_of_pos (by simpa using hq)]
        have hfilter : (l.filter fun j : Channel =>
            (s.queued &&& ~~~((1 : BitVec 16) <<< c.val)).getLsbD j) =
            l.filter fun j : Channel => s.queued.getLsbD j :=
          List.filter_congr fun j hj => by rw [hother j hj]
        simp only [start, hfilter, List.append_assoc, List.singleton_append]
      · rw [hbits]
        dsimp only [start]
        rw [getLsbD_clear]
        by_cases hj : j = c
        · simp [hj]
        · have hne : j.val ≠ c.val := fun heq => hj (Fin.ext heq)
          simp [hj, hne]
    · rw [if_neg hq]
      obtain ⟨q, heq, hbits⟩ := ih hrun hl.2 fun j hj => hstr j (List.mem_cons_of_mem c hj)
      refine ⟨q, ?_, fun j => ?_⟩
      · rw [heq, List.filter_cons_of_neg (by simpa using hq)]
      · rw [hbits]
        by_cases hj : j = c
        · subst hj
          simp [hq]
        · simp [hj]

theorem foldl_resume_stopped (hrun : s.canRun = false) (l : List Channel) :
    l.foldl resume s = s := by
  induction l with
  | nil => rfl
  | cons c l ih =>
    have hsame : s.resume c = s := by
      rw [resume, hrun, Bool.and_false, if_neg Bool.false_ne_true]
      exact ite_self s
    rw [List.foldl_cons, hsame, ih]

theorem startQueuedDMA_eq (s : Regs) :
    (if s.queued ≠ 0 then s.startQueuedDMA else s) = s.startQueuedDMA := by
  split_ifs with hq
  · rfl
  · rw [not_not] at hq
    rw [startQueuedDMA]
    generalize List.finRange 10 = l
    induction l with
    | nil => rfl
    | cons c l ih =>
      have hsame : s.resume c = s := by
        rw [resume, hq, if_neg]
        simp
      rw [List.foldl_cons, hsame, ← ih]

theorem startQueuedDMA_spec {owed : Channel → Bool}
    (hqueue : ∀ c : Channel, s.queued.getLsbD c = owed c)
    (hstr : ∀ c, owed c = true → str (s.chcr c) = true) :
    ∃ q : BitVec 16, s.startQueuedDMA = { s with
        started := s.started ++ (if s.canRun then (List.finRange 10).filter owed else [])
        queued := q } ∧
      ∀ c : Channel, q.getLsbD c = (owed c && !s.canRun) := by
  cases hrun : s.canRun with
  | true =>
    obtain ⟨q, heq, hbits⟩ := foldl_resume hrun (List.nodup_finRange 10)
      fun c _ hc => hstr c ((hqueue c).symm.trans hc)
    refine ⟨q, ?_, fun c => ?_⟩
    · rw [startQueuedDMA, heq, if_pos rfl, List.filter_congr fun c _ => hqueue c]
    · rw [hbits, hqueue]
      simp
  | false =>
    refine ⟨s.queued, ?_, fun c => ?_⟩
    · rw [startQueuedDMA, foldl_resume_stopped hrun, if_neg Bool.false_ne_true, List.append_nil]
    · rw [hqueue, Bool.not_false, Bool.and_true]

/-! ## One event -/

theorem Inv.canRun_eq (h : Inv w) : w.regs.canRun = (w.regs.dmae && !w.regs.suspended) := by
  rw [canRun]
  congr 1
  by_cases hbyte : w.regs.suspendByte = 0
  · have hclear : w.regs.suspended = false := by
      rw [suspended, ← getLsbD_byte]
      change w.regs.suspendByte.getLsbD 0 = false
      rw [hbyte]
      rfl
    rw [hbyte, hclear]
    rfl
  · rw [h.byte hbyte]
    simpa using hbyte

/-- What registers are after an event, with the starts that are owed then. -/
structure Written (s : Regs) (owes : Channel → Bool) (t : Regs) : Prop where
  started : t.started = s.started ++ if t.canRun then (List.finRange 10).filter owes else []
  queue : ∀ c : Channel, t.queued.getLsbD c = (owes c && !t.canRun)
  str : ∀ c, owes c = true → Regs.str (t.chcr c) = true
  same : t.enablew = t.enabler
  byte : t.suspendByte ≠ 0 → t.suspended = true

theorem Written.quiet {owes : Channel → Bool} {t : Regs} (hstarted : t.started = s.started)
    (hqueue : ∀ c : Channel, t.queued.getLsbD c = owes c)
    (hidle : t.canRun = true → ∀ c, owes c = false)
    (hstr : ∀ c, owes c = true → Regs.str (t.chcr c) = true) (hsame : t.enablew = t.enabler)
    (hbyte : t.suspendByte ≠ 0 → t.suspended = true) : Written s owes t where
  started := by
    rw [hstarted]
    split_ifs with hrun
    · rw [List.filter_eq_nil_iff.mpr fun c _ => by rw [hidle hrun c]; decide, List.append_nil]
    · rw [List.append_nil]
  queue c := by
    rw [hqueue]
    cases hrun : t.canRun with
    | true => rw [hidle hrun c, Bool.false_and]
    | false => rw [Bool.not_false, Bool.and_true]
  str := hstr
  same := hsame
  byte := hbyte

theorem owes_self {c : Channel} {value : U32} :
    w.owes (.chcr c value) c = (str value && (w.owed c || !str (w.regs.chcr c))) := if_pos rfl

theorem owes_other {c j : Channel} {value : U32} (hj : j ≠ c) :
    w.owes (.chcr c value) j = w.owed j := if_neg hj

theorem filter_eq_singleton : ∀ c : Channel,
    (List.finRange 10).filter (fun j => decide (j = c)) = [c] := by
  decide

theorem written_dmaExec (h : Inv w) (c : Channel) (value : U32) :
    Written w.regs (w.owes (.chcr c value)) (w.regs.dmaExec c value) := by
  rw [Regs.dmaExec]
  by_cases hrunning : str (w.regs.chcr c) = true
  · rw [if_pos hrunning]
    by_cases hvalue : str value = true
    · rw [if_pos hvalue]
      have howes : w.owes (.chcr c value) = w.owed := by
        funext j
        by_cases hj : j = c
        · subst hj
          rw [owes_self, hvalue, hrunning, Bool.true_and, Bool.not_true, Bool.or_false]
        · rw [owes_other hj]
      rw [howes]
      exact .quiet rfl h.queue h.idle h.str h.same h.byte
    · rw [if_neg hvalue]
      have hself : w.owes (.chcr c value) c = false := by
        rw [owes_self, Bool.eq_false_iff.mpr hvalue, Bool.false_and]
      refine .quiet rfl (fun j => ?_) (fun hrun j => ?_) (fun j hj => ?_) h.same h.byte
      · have hfar : ∀ n, 10 ≤ n → (w.regs.queued &&& ~~~((1 : BitVec 16) <<< n)).getLsbD j =
            w.regs.queued.getLsbD j := by
          intro n hn
          have hne : ¬ j.val = n := by omega
          rw [getLsbD_clear, decide_eq_false hne, Bool.not_false, Bool.and_true]
        have hqueued : (if c = 1 then w.regs.queued &&& ~~~((1 : BitVec 16) <<< 10)
            else if c = 2 then w.regs.queued &&& ~~~((1 : BitVec 16) <<< 11)
            else w.regs.queued).getLsbD j = w.owed j := by
          rw [← h.queue j]
          split_ifs
          · exact hfar 10 le_rfl
          · exact hfar 11 (by decide)
          · rfl
        dsimp only
        rw [getLsbD_clear, hqueued]
        by_cases hj : j = c
        · subst hj
          rw [hself]
          simp
        · have hne : ¬ j.val = c.val := fun heq => hj (Fin.ext heq)
          rw [owes_other hj, decide_eq_false hne, Bool.not_false, Bool.and_true]
      · by_cases hj : j = c
        · rw [hj, hself]
        · rw [owes_other hj, h.idle hrun]
      · by_cases hjc : j = c
        · rw [hjc, hself] at hj
          cases hj
        · rw [owes_other hjc] at hj
          dsimp only
          rw [Function.update_of_ne hjc]
          exact h.str j hj
  · have howed : w.owed c = false := Bool.eq_false_iff.mpr fun howed => hrunning (h.str c howed)
    have hself : w.owes (.chcr c value) c = str value := by
      rw [owes_self, Bool.eq_false_iff.mpr hrunning, Bool.not_false, Bool.or_true, Bool.and_true]
    have hstr (j : Channel) (hj : w.owes (.chcr c value) j = true) :
        str (Function.update w.regs.chcr c (fixMod value) j) = true := by
      by_cases hjc : j = c
      · subst hjc
        rw [Function.update_self, str_fixMod, ← hself, hj]
      · rw [Function.update_of_ne hjc]
        exact h.str j ((owes_other hjc).symm.trans hj)
    have hhere : str (Function.update w.regs.chcr c (fixMod value) c) = str value := by
      rw [Function.update_self, str_fixMod]
    rw [if_neg hrunning]
    dsimp only
    rw [hhere]
    cases hvalue : str value with
    | false =>
      have howes : w.owes (.chcr c value) = w.owed := by
        funext j
        by_cases hj : j = c
        · rw [hj, hself, hvalue, howed]
        · rw [owes_other hj]
      rw [howes] at hstr ⊢
      rw [Bool.false_and, if_neg Bool.false_ne_true, if_neg Bool.false_ne_true]
      exact .quiet rfl h.queue h.idle hstr h.same h.byte
    | true =>
      rw [Bool.true_and]
      cases hrun : w.regs.canRun with
      | true =>
        have hall (j : Channel) : w.owes (.chcr c value) j = decide (j = c) := by
          by_cases hj : j = c
          · rw [hj, hself, hvalue, decide_eq_true rfl]
          · rw [owes_other hj, h.idle hrun, decide_eq_false hj]
        have hfilter : (List.finRange 10).filter (w.owes (.chcr c value)) = [c] := by
          rw [List.filter_congr fun j _ => hall j, filter_eq_singleton]
        have hrun' : ({ w.regs with chcr := Function.update w.regs.chcr c (fixMod value) } :
            Regs).canRun = true := hrun
        have hcan : (({ w.regs with chcr := Function.update w.regs.chcr c (fixMod value) } :
            Regs).start c).canRun = true := hrun
        rw [hrun', if_pos rfl]
        refine ⟨?_, fun j => ?_, hstr, h.same, h.byte⟩
        · rw [hcan, if_pos rfl, hfilter]
          rfl
        · rw [hcan, Bool.not_true, Bool.and_false]
          exact (h.queue j).trans (h.idle hrun j)
      | false =>
        have hrun' : ({ w.regs with chcr := Function.update w.regs.chcr c (fixMod value) } :
            Regs).canRun = false := hrun
        rw [hrun', if_neg Bool.false_ne_true, if_pos rfl]
        refine .quiet rfl (fun j => ?_) (fun hcan => ?_) hstr h.same h.byte
        · dsimp only
          rw [getLsbD_set, h.queue]
          by_cases hj : j = c
          · rw [hj, hself, hvalue]
            simp
          · have hne : ¬ j.val = c.val := fun heq => hj (Fin.ext heq)
            rw [owes_other hj, decide_eq_false hne, Bool.or_false]
        · cases hrun.symm.trans hcan

theorem written_startQueuedDMA {owed : Channel → Bool} (t : Regs) (hstarted : t.started = s.started)
    (hqueue : ∀ c : Channel, t.queued.getLsbD c = owed c)
    (hstr : ∀ c, owed c = true → Regs.str (t.chcr c) = true) (hsame : t.enablew = t.enabler)
    (hbyte : t.suspendByte ≠ 0 → t.suspended = true) :
    Written s owed (if t.queued ≠ 0 then t.startQueuedDMA else t) := by
  rw [startQueuedDMA_eq]
  obtain ⟨q, heq, hbits⟩ := startQueuedDMA_spec hqueue hstr
  have hcan : t.startQueuedDMA.canRun = t.canRun := by rw [heq]; rfl
  refine ⟨?_, fun c => ?_, fun c hc => ?_, ?_, ?_⟩
  · rw [hcan, heq, ← hstarted]
  · rw [hcan, heq]
    exact hbits c
  · rw [heq]
    exact hstr c hc
  · rw [heq]
    exact hsame
  · rw [heq]
    exact hbyte

theorem written_writeCtrl (h : Inv w) (value : U32) :
    Written w.regs w.owed (w.regs.writeCtrl value) := by
  rw [writeCtrl]
  dsimp only
  by_cases hedge : w.regs.ctrl &&& 1 = 0 ∧ value &&& 1 = 1
  · rw [if_pos hedge]
    exact written_startQueuedDMA { w.regs with ctrl := value } rfl h.queue h.str h.same h.byte
  · rw [if_neg hedge]
    refine .quiet rfl h.queue (fun hrun c => h.idle ?_ c) h.str h.same h.byte
    rw [canRun, Bool.and_eq_true] at hrun ⊢
    have hvalue : value.getLsbD 0 = true := hrun.1
    refine ⟨?_, hrun.2⟩
    rw [dmae, ← Bool.not_eq_false]
    exact fun hold => hedge ⟨(and_one_eq_zero_iff _).mpr hold, (and_one_eq_one_iff _).mpr hvalue⟩

theorem written_writeEnable (h : Inv w) {value : U32}
    (hclean : (value >>> 16) &&& 0xff ≠ 0 → value.getLsbD 16 = true) :
    Written w.regs w.owed (w.regs.writeEnable value) := by
  rw [writeEnable]
  dsimp only
  by_cases hedge : (w.regs.enablew >>> 16) &&& 0xff &&& 1 = 1 ∧ (value >>> 16) &&& 1 = 0
  · rw [if_pos hedge]
    exact written_startQueuedDMA { w.regs with enablew := value, enabler := value } rfl h.queue
      h.str rfl hclean
  · rw [if_neg hedge]
    refine .quiet rfl h.queue (fun hrun c => h.idle ?_ c) h.str rfl hclean
    rw [canRun, Bool.and_eq_true] at hrun
    have hvalue : value.getLsbD 16 = false := by
      have hbyte : (value >>> 16) &&& 0xff = 0 := by simpa [suspendByte] using hrun.2
      rw [← getLsbD_byte, hbyte]
      rfl
    have hold : w.regs.suspended = false := by
      rw [suspended, ← h.same, ← Bool.not_eq_true]
      refine fun hold => hedge ⟨(and_one_eq_one_iff _).mpr ?_, (and_one_eq_zero_iff _).mpr ?_⟩
      · rw [getLsbD_byte, hold]
      · rw [BitVec.getLsbD_ushiftRight, hvalue]
    have hdmae : w.regs.dmae = true := hrun.1
    rw [h.canRun_eq, hdmae, hold]
    rfl

theorem written_transfer (h : Inv w) {c : Channel} (howed : w.owed c = false) (value : U32) :
    Written w.regs w.owed { w.regs with chcr := Function.update w.regs.chcr c value } := by
  refine .quiet rfl h.queue h.idle (fun j hj => ?_) h.same h.byte
  have hne : j ≠ c := fun heq => by rw [heq, howed] at hj; cases hj
  dsimp only
  rw [Function.update_of_ne hne]
  exact h.str j hj

theorem Inv.written (h : Inv w) (hclean : Clean w ev) (hpossible : w.Possible ev) :
    Written w.regs (w.owes ev) (write w.regs ev) := by
  cases ev with
  | chcr c value => exact written_dmaExec h c value
  | ctrl value => exact written_writeCtrl h value
  | enable value => exact written_writeEnable h hclean
  | transfer c value => exact written_transfer h hpossible.2 value

theorem chcr_startQueuedDMA (t : Regs) :
    (if t.queued ≠ 0 then t.startQueuedDMA else t).chcr = t.chcr := by
  rw [startQueuedDMA_eq, startQueuedDMA]
  generalize List.finRange 10 = l
  induction l generalizing t with
  | nil => rfl
  | cons c l ih =>
    rw [List.foldl_cons, ih, resume]
    split_ifs <;> rfl

theorem chcr_kept {c : Channel} (hrunning : str (s.chcr c) = true)
    (hev : ∀ value, ev ≠ .transfer c value) :
    (write s ev).chcr c = s.chcr c ∨ (write s ev).chcr c = clearStr (s.chcr c) := by
  cases ev with
  | transfer j value =>
    have hne : c ≠ j := fun heq => hev value (by rw [heq])
    exact .inl (Function.update_of_ne hne _ _)
  | ctrl value =>
    left
    rw [write, writeCtrl]
    dsimp only
    by_cases hedge : s.ctrl &&& 1 = 0 ∧ value &&& 1 = 1
    · rw [if_pos hedge]
      exact congrFun (chcr_startQueuedDMA { s with ctrl := value }) c
    · rw [if_neg hedge]
  | enable value =>
    left
    rw [write, writeEnable]
    dsimp only
    by_cases hedge : (s.enablew >>> 16) &&& 0xff &&& 1 = 1 ∧ (value >>> 16) &&& 1 = 0
    · rw [if_pos hedge]
      exact congrFun (chcr_startQueuedDMA { s with enablew := value, enabler := value }) c
    · rw [if_neg hedge]
  | chcr j value =>
    rw [write, dmaExec]
    by_cases hj : c = j
    · subst hj
      rw [if_pos hrunning]
      by_cases hvalue : str value = true
      · rw [if_pos hvalue]
        exact .inl rfl
      · rw [if_neg hvalue]
        exact .inr (Function.update_self _ _ _)
    · left
      by_cases hrunning' : str (s.chcr j) = true
      · rw [if_pos hrunning']
        by_cases hvalue : str value = true
        · rw [if_pos hvalue]
        · rw [if_neg hvalue]
          exact Function.update_of_ne hj _ _
      · rw [if_neg hrunning']
        dsimp only
        split_ifs
        · exact Function.update_of_ne hj _ _
        · exact Function.update_of_ne hj _ _
        · exact Function.update_of_ne hj _ _

theorem starts_eq (h : Written w.regs (w.owes ev) (write w.regs ev)) :
    starts w.regs ev =
      if (write w.regs ev).canRun then (List.finRange 10).filter (w.owes ev) else [] := by
  rw [starts, h.started, List.drop_left]

theorem Inv.step (h : Inv w) (hclean : Clean w ev) (hstep : w.step ev = some w') :
    Exact w ev w' ∧ Inv w' := by
  rw [Watched.step] at hstep
  split_ifs at hstep with hpossible
  cases hstep
  have hwritten := h.written hclean hpossible
  have hstarts := starts_eq hwritten
  have howed (c : Channel) : (w.owes ev c && !decide (c ∈ starts w.regs ev)) =
      (w.owes ev c && !(write w.regs ev).canRun) := by
    rw [hstarts]
    cases (write w.regs ev).canRun with
    | true =>
      rw [if_pos rfl, Bool.not_true, Bool.and_false]
      cases hc : w.owes ev c <;> simp [hc]
    | false => simp
  have hinv : Inv ⟨write w.regs ev, fun c => w.owes ev c && !decide (c ∈ starts w.regs ev)⟩ :=
    { queue := fun c => (hwritten.queue c).trans (howed c).symm
      str := fun c hc => hwritten.str c (Bool.and_eq_true_iff.mp hc).1
      idle := fun hrun c => by
        dsimp only at hrun ⊢
        rw [howed, hrun, Bool.not_true, Bool.and_false]
      same := hwritten.same
      byte := hwritten.byte }
  refine ⟨⟨?_, ?_, fun c hc => ?_, fun hdmae hsuspended => ?_, fun hstopped => ?_,
    fun c hrunning hev => chcr_kept hrunning hev⟩, hinv⟩
  · rw [hstarts]
    exact hwritten.started
  · rw [hstarts]
    split_ifs
    · exact (List.nodup_finRange 10).filter _
    · exact List.nodup_nil
  · rw [hstarts] at hc
    split_ifs at hc
    · have hasked := (List.mem_filter.mp hc).2
      exact ⟨hasked, hwritten.str c hasked⟩
    · cases hc
  · refine hinv.idle ?_
    rw [hinv.canRun_eq, hdmae, hsuspended]
    rfl
  · have hrun : (write w.regs ev).canRun = false := by
      have hcan := hinv.canRun_eq
      rcases hstopped with hdmae | hsuspended
      · rw [hdmae] at hcan
        exact hcan
      · rw [hsuspended, Bool.not_true, Bool.and_false] at hcan
        exact hcan
    rw [hstarts, hrun]
    rfl

theorem inv_init : Inv init where
  queue := by decide
  str c hc := by cases hc
  idle hrun := by cases hrun
  same := rfl
  byte := by decide

/-- In every run whose writes suspend in `CPND`, every start is made once, and as soon as it can. -/
theorem starts_exact {evs : List Event} (hmeets : Meets Watched.step Clean init evs)
    (hrun : run Watched.step init evs = some w) (hclean : Clean w ev)
    (hstep : w.step ev = some w') : Exact w ev w' := by
  have hinv (w ev w') (h : Inv w) (hclean : Clean w ev) (hstep : Watched.step w ev = some w') :
      Inv w' := (h.step hclean hstep).2
  exact ((invariant hinv hmeets hrun inv_init).step hclean hstep).1

theorem starts_exact_resumed : ∃ w w',
    run Watched.step init [.enable 0x10000, .ctrl 1, .chcr 2 0x104, .chcr 2 0x100] = some w ∧
    w.step (.enable 0) = some w' ∧ Exact w (.enable 0) w' ∧ w'.regs.started = [2] := by
  have hmeets : Meets Watched.step Clean init
      [.enable 0x10000, .ctrl 1, .chcr 2 0x104, .chcr 2 0x100] := by decide +kernel
  exact ⟨_, _, rfl, rfl, starts_exact hmeets rfl (by decide +kernel) rfl, rfl⟩

/-- Byte 2 of `DMAC_ENABLEW` goes from 2 to 0, and the queued start is forgotten. -/
theorem not_resumed : ∃ w,
    run Watched.step init [.ctrl 1, .enable 0x20000, .chcr 0 0x100, .enable 0] = some w ∧
    w.regs.dmae = true ∧ w.regs.suspendByte = 0 ∧ w.owed 0 = true ∧ w.regs.started = [] :=
  ⟨_, rfl, rfl, rfl, rfl, rfl⟩

end OmegaRed.Dmac
