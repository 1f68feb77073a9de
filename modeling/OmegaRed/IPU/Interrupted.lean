import OmegaRed.IPU.Resumed

/-! Runs of the commands in which the input comes and the output goes as it may. -/

namespace OmegaRed.IPU

/-- `IPU_Fifo_Output::read` -/
def FifoOut.read : Nat → FifoOut → List U128 × FifoOut
  | 0, o => ([], o)
  | size + 1, o => ((o.pop.1 :: (read size o.pop.2).1), (read size o.pop.2).2)

/-- The IPU and the input that is still to come. -/
structure Machine where
  ipu : Ipu Io
  passed : Passed

/-- `feed` and `drain` are the DMA's; `process` is a call of `IPUProcessInterrupt`. -/
inductive Event
  | ctrl (value : BitVec 32)
  | command (val : BitVec 32)
  | feed (qwc : Nat)
  | drain (qwc : Nat)
  | process

namespace Machine

section Steps

variable (data : Nat → U128) (yuv2rgb : (Nat → BitVec 64) → Nat → U128)

def step (m : Machine) : Event → Machine
  | .ctrl value => { m with ipu := { m.ipu with reg := Ipu.writeCtrl value m.ipu.reg } }
  | .command val => { m with ipu := Ipu.IPUCMD_WRITE fifos val m.ipu }
  | .feed qwc =>
    let w := m.ipu.io.bits.write ((List.range qwc).map fun i => data (m.passed.sent + i))
    ⟨{ m.ipu with io := { m.ipu.io with bits := w.1 } },
      { m.passed with sent := m.passed.sent + w.2 }⟩
  | .drain qwc =>
    let r := m.ipu.io.out.read (min qwc m.ipu.io.out.OFC)
    ⟨{ m.ipu with io := { m.ipu.io with out := r.2 } },
      { m.passed with drained := m.passed.drained ++ r.1 }⟩
  | .process => { m with ipu := Ipu.IPUProcessInterrupt fifos yuv2rgb m.ipu }

/-- The same command with all the input there and room for the output. -/
def atOnce (t : Ipu Whole) : Event → Ipu Whole
  | .ctrl value => { t with reg := Ipu.writeCtrl value t.reg }
  | .command val => Ipu.IPUProcessInterrupt (whole data) yuv2rgb (Ipu.IPUCMD_WRITE (whole data) val t)
  | _ => t

/-- Every step of the schedule meets `ok`. -/
def Schedule (ok : Machine → Event → Prop) (m : Machine) : List Event → Prop
  | [] => True
  | e :: es => ok m e ∧ Schedule ok (m.step data yuv2rgb e) es

end Steps

/-- The registers when a command may come, after a `BCLR`. -/
def start (reg : Regs) (bp : Nat) : Machine where
  ipu := ⟨⟨State.bclr bp, ⟨⟨fun _ => 0, 0, 0⟩, 0⟩⟩, { reg with busy := false, dataBusy := false }⟩
  passed := ⟨0, []⟩

def startAtOnce (reg : Regs) (bp : Nat) : Ipu Whole :=
  ⟨⟨bp &&& 0x7f, []⟩, { reg with busy := false, dataBusy := false }⟩

/-- The bits that have been read. -/
def position (m : Machine) : Nat :=
  128 * (m.passed.sent - m.ipu.io.bits.FP - m.ipu.io.bits.IFC) + m.ipu.io.bits.BP

/-- The quadwords that have been written, taken or not. -/
def output (m : Machine) : List U128 :=
  m.passed.drained ++ (m.ipu.io.out.read m.ipu.io.out.OFC).1

/-- The command is done, and has done what it does at once. -/
structure Agrees (m : Machine) (t : Ipu Whole) : Prop where
  done : m.ipu.reg.busy = false
  position : m.position = t.io.pos
  output : m.output = t.io.out
  reg : Ipu.settle m.ipu.reg = Ipu.settle t.reg

/-- A command of the five comes when none is running, and no reset. -/
def Given (m : Machine) : Event → Prop
  | .ctrl value => m.ipu.reg.busy = false ∧ value.getLsbD 30 = false
  | .command val => m.ipu.reg.busy = false ∧ Ipu.Known val
  | _ => True

/-- What goes on while a command runs. -/
def isInterruption : Event → Bool
  | .feed _ | .drain _ | .process => true
  | _ => false

/-- The command is not given up, and its skip passes no quadword that is still to come. -/
def Kept (yuv2rgb : (Nat → BitVec 64) → Nat → U128) (m : Machine) : Event → Prop
  | .command val => Given m (.command val) ∧ ¬ Passes m.ipu.io.bits (Ipu.skip val)
  | .process =>
    m.ipu.reg.busy = true → Ipu.givesUp (Ipu.IPUWorker fifos yuv2rgb m.ipu) = false
  | e => Given m e

/-- In every schedule that meets `ok`, a command that is done has done what it does at once, and
one that is not will be after some more input, room and calls. -/
def Resumes (data : Nat → U128) (yuv2rgb : (Nat → BitVec 64) → Nat → U128)
    (ok : Machine → Event → Prop) : Prop :=
  ∀ reg bp events, Schedule data yuv2rgb ok (start reg bp) events →
    let m := events.foldl (step data yuv2rgb) (start reg bp)
    let t := events.foldl (atOnce data yuv2rgb) (startAtOnce reg bp)
    (m.ipu.reg.busy = false → Agrees m t) ∧
      ∃ more, more.all isInterruption = true ∧ Schedule data yuv2rgb ok m more ∧
        Agrees (more.foldl (step data yuv2rgb) m) t

/-! ## Invariant -/

section Invariant

variable {data : Nat → U128} {yuv2rgb : (Nat → BitVec 64) → Nat → U128} {m : Machine}
  {t u : Ipu Whole}

/-- No command runs. -/
structure Idle (data : Nat → U128) (m : Machine) (t : Ipu Whole) : Prop where
  busy : m.ipu.reg.busy = false
  dataBusy : m.ipu.reg.dataBusy = false
  io : Matches data m.passed m.ipu.io t.io
  reg : Ipu.settle m.ipu.reg = Ipu.settle t.reg

/-- A command runs and is at `u`; from there it comes to `t` at once. -/
structure Running (data : Nat → U128) (yuv2rgb : (Nat → BitVec 64) → Nat → U128) (m : Machine)
    (u t : Ipu Whole) : Prop where
  busy : u.reg.busy = true
  known : Ipu.Known u.reg.current
  dataBusy : u.reg.dataBusy = true → Ipu.usesData u.reg.current = true
  same : Ipu.Same data m.passed m.ipu u
  io : (Ipu.turn (whole data) yuv2rgb u).1.io = t.io
  reg : Ipu.settle (Ipu.finish (Ipu.turn (whole data) yuv2rgb u).1.reg) = Ipu.settle t.reg

def Inv (data : Nat → U128) (yuv2rgb : (Nat → BitVec 64) → Nat → U128) (m : Machine)
    (t : Ipu Whole) : Prop :=
  Idle data m t ∨ ∃ u, Running data yuv2rgb m u t

theorem settle_finish (r : Regs) : Ipu.settle (Ipu.finish r) = Ipu.finish (Ipu.settle r) := by
  have hcurrent : (Ipu.settle r).current = r.current := rfl
  unfold Ipu.finish
  rw [hcurrent]
  split_ifs <;> rfl

theorem index_finish (r : Regs) : (Ipu.finish r).index = r.index := by
  unfold Ipu.finish
  split_ifs <;> rfl

theorem dataBusy_finish {r : Regs} (h : r.dataBusy = true → Ipu.usesData r.current = true) :
    (Ipu.finish r).dataBusy = false := by
  unfold Ipu.finish
  split_ifs with huses
  · rfl
  · exact Bool.eq_false_iff.mpr fun hbusy => huses (h hbusy)

theorem eq_of_status {r r' : Regs} (h : Ipu.status r = Ipu.status r') :
    r.current = r'.current ∧ r.busy = r'.busy ∧ r.dataBusy = r'.dataBusy := by
  simp only [Ipu.status, Prod.mk.injEq] at h
  exact ⟨h.1, h.2.1, h.2.2.1⟩

theorem Running.process (h : Running data yuv2rgb m u t)
    (hkept : Ipu.givesUp (Ipu.IPUWorker fifos yuv2rgb m.ipu) = false) :
    Idle data (m.step data yuv2rgb .process) t ∨
      ∃ u', Running data yuv2rgb (m.step data yuv2rgb .process) u' t ∧
        (Ipu.Room m.passed m.ipu u → Ipu.usesData u.reg.current = false ∧
          Ipu.progress u < Ipu.progress u' ∧ Ipu.progress u' ≤ Ipu.progress t) := by
  have hbusy : m.ipu.reg.busy = true := by rw [h.same.reg, h.busy]
  have hstep : m.step data yuv2rgb .process =
      { m with ipu := Ipu.IPUWorker fifos yuv2rgb m.ipu } := by
    rw [step, Ipu.IPUProcessInterrupt, if_pos hbusy, hkept]
    rfl
  obtain ⟨hflag, hstatus, houtcome⟩ := h.same.turn yuv2rgb h.known
  rw [hstep, Ipu.IPUWorker]
  generalize Ipu.turn fifos yuv2rgb m.ipu = x at houtcome
  obtain ⟨s', flag⟩ := x
  cases flag with
  | true =>
    obtain ⟨hio, hreg⟩ : Ipu.Same data m.passed s' (Ipu.turn (whole data) yuv2rgb u).1 := houtcome
    obtain ⟨hcurrent, -, hdata⟩ := eq_of_status hstatus
    left
    refine ⟨rfl, ?_, ?_, ?_⟩
    · dsimp only
      rw [hreg]
      refine dataBusy_finish fun hset => ?_
      rw [hcurrent]
      exact h.dataBusy (hdata.symm.trans hset)
    · rw [h.io] at hio
      exact hio
    · dsimp only
      rw [hreg, h.reg]
  | false =>
    obtain ⟨hshort, u', hwaits⟩ : _ ∧ ∃ u', Ipu.Waits data m.passed _ m.ipu u s' u' := houtcome
    obtain ⟨hcurrent, hbusy', hdata⟩ := eq_of_status hwaits.status
    have hresume := hwaits.resume
    simp only [Ipu.settled, Prod.mk.injEq] at hresume
    obtain ⟨hio, hreg, -⟩ := hresume
    have hdone : Ipu.settle (Ipu.finish (Ipu.turn (whole data) yuv2rgb u').1.reg) =
        Ipu.settle t.reg := by
      rw [settle_finish, hreg, ← settle_finish, h.reg]
    right
    refine ⟨u', ⟨hbusy'.trans h.busy, ?_, ?_, hwaits.same, hio.trans h.io, hdone⟩,
      fun hroom => ⟨?_, hwaits.moved hroom, ?_⟩⟩
    · rw [hcurrent]
      exact h.known
    · rw [hcurrent, hdata]
      exact h.dataBusy
    · exact Bool.eq_false_iff.mpr fun huses => hshort huses hroom
    · refine Nat.le_trans (hwaits.bound hroom) (Nat.le_of_eq ?_)
      have hindex : (Ipu.settle (Ipu.finish _)).index = (Ipu.settle t.reg).index :=
        congrArg Regs.index hdone
      change (Ipu.finish _).index = t.reg.index at hindex
      rw [Ipu.progress, Ipu.progress, hio, h.io, ← hindex, index_finish]

theorem stream_append (sent pos qwc n : Nat) (hn : n ≤ qwc) :
    stream data (sent + n) pos = { stream data sent pos with
      received := (stream data sent pos).received ++
        ((List.range qwc).map fun i => data (sent + i)).take n } := by
  rw [stream, List.range_add, List.map_append, List.map_map, ← List.map_take, List.take_range,
    Nat.min_eq_left hn]
  rfl

variable (yuv2rgb) in
theorem matches_feed (qwc : Nat) {r : Whole} (h : Matches data m.passed m.ipu.io r) :
    Matches data (m.step data yuv2rgb (.feed qwc)).passed
      (m.step data yuv2rgb (.feed qwc)).ipu.io r := by
  obtain ⟨⟨q, hat⟩, hout⟩ := h
  refine ⟨⟨q, ?_⟩, hout⟩
  have hwrite := hat.write ((List.range qwc).map fun i => data (m.passed.sent + i))
  simp only [step]
  rw [stream_append _ _ qwc]
  · exact hwrite
  · exact Nat.le_trans (Nat.min_le_left ..) (by rw [List.length_map, List.length_range])

theorem read_queued (size : Nat) {o : FifoOut} {l : List U128} (h : Queued o.asIn l)
    (hsize : size ≤ o.OFC) :
    (o.read size).1 = l.take size ∧ Queued (o.read size).2.asIn (l.drop size) := by
  induction size generalizing o l with
  | zero => exact ⟨rfl, h⟩
  | succ size ih =>
    cases l with
    | nil =>
      have hlen : 0 = o.OFC := h.length
      omega
    | cons x l =>
      obtain ⟨hread, hpop⟩ := h.read_cons
      have hx : o.pop.1 = x := by
        rw [State.read] at hread
        split_ifs at hread
        exact (Prod.mk.inj (Option.some.inj hread)).1
      have hcount : o.pop.2.OFC = o.OFC - 1 := rfl
      obtain ⟨hfirst, hrest⟩ := ih (o := o.pop.2) hpop (by omega)
      refine ⟨?_, hrest⟩
      rw [FifoOut.read, hx, hfirst]
      rfl

variable (yuv2rgb) in
theorem matches_drain (qwc : Nat) {r : Whole} (h : Matches data m.passed m.ipu.io r) :
    Matches data (m.step data yuv2rgb (.drain qwc)).passed
      (m.step data yuv2rgb (.drain qwc)).ipu.io r := by
  obtain ⟨hbits, l, hqueue, hout⟩ := h
  obtain ⟨hread, hleft⟩ := read_queued (min qwc m.ipu.io.out.OFC) hqueue (Nat.min_le_right ..)
  refine ⟨hbits, l.drop (min qwc m.ipu.io.out.OFC), hleft, ?_⟩
  simp only [step]
  rw [hread, List.append_assoc, List.take_append_drop, hout]

theorem Running.of_matches (h : Running data yuv2rgb m u t) {m' : Machine}
    (hreg : m'.ipu.reg = m.ipu.reg) (hio : Matches data m'.passed m'.ipu.io u.io) :
    Running data yuv2rgb m' u t :=
  ⟨h.busy, h.known, h.dataBusy, ⟨hio, hreg.trans h.same.reg⟩, h.io, h.reg⟩

theorem Running.feed (h : Running data yuv2rgb m u t) (qwc : Nat) :
    Running data yuv2rgb (m.step data yuv2rgb (.feed qwc)) u t :=
  h.of_matches rfl (matches_feed yuv2rgb qwc h.same.io)

theorem Running.drain (h : Running data yuv2rgb m u t) (qwc : Nat) :
    Running data yuv2rgb (m.step data yuv2rgb (.drain qwc)) u t :=
  h.of_matches rfl (matches_drain yuv2rgb qwc h.same.io)

theorem Idle.of_matches (h : Idle data m t) {m' : Machine} (hreg : m'.ipu.reg = m.ipu.reg)
    (hio : Matches data m'.passed m'.ipu.io t.io) : Idle data m' t := by
  refine ⟨?_, ?_, hio, ?_⟩
  · rw [hreg, h.busy]
  · rw [hreg, h.dataBusy]
  · rw [hreg, h.reg]

theorem reg_IPUCMD_WRITE {ρ : Type} (P : Port ρ) (val : BitVec 32) (s : Ipu ρ) :
    (Ipu.IPUCMD_WRITE P val s).reg = { s.reg with
      ecd := false, scd := false, index := 0, pos0 := 0, pos1 := 0, current := val, busy := true
      dataBusy := s.reg.dataBusy || Ipu.usesData val
      topbusy := s.reg.topbusy || Ipu.usesData val } := by
  unfold Ipu.IPUCMD_WRITE
  by_cases huses : Ipu.usesData val = true
  · simp only [huses, Bool.or_true, if_true]
  · rw [Bool.not_eq_true] at huses
    simp only [huses, Bool.or_false, Bool.false_eq_true, if_false]
    split_ifs <;> rfl

theorem matches_IPUCMD_WRITE {p : Passed} {val : BitVec 32} {s : Ipu Io}
    (h : Matches data p s.io t.io) (hskip : ¬ Passes s.io.bits (Ipu.skip val)) :
    Matches data p (Ipu.IPUCMD_WRITE fifos val s).io (Ipu.IPUCMD_WRITE (whole data) val t).io := by
  have hle : Ipu.skip val ≤ 128 := by
    rw [Ipu.skip]
    split_ifs
    · exact Nat.le_trans (Nat.le_of_lt (BitVec.isLt _)) (by decide)
    · exact Nat.zero_le _
  have hadvance := h.advance hle hskip
  unfold Ipu.IPUCMD_WRITE
  split_ifs
  · exact hadvance
  · exact hadvance
  · exact h

theorem IPUProcessInterrupt_done (hbusy : u.reg.busy = true)
    (hturn : (Ipu.turn (whole data) yuv2rgb u).2 = true) :
    Ipu.IPUProcessInterrupt (whole data) yuv2rgb u =
      { (Ipu.turn (whole data) yuv2rgb u).1 with
        reg := Ipu.finish (Ipu.turn (whole data) yuv2rgb u).1.reg } := by
  rw [Ipu.IPUProcessInterrupt, if_pos hbusy, Ipu.IPUWorker]
  generalize Ipu.turn (whole data) yuv2rgb u = x at hturn
  obtain ⟨v, flag⟩ := x
  obtain rfl : flag = true := hturn
  rfl

theorem Idle.command {val : BitVec 32} (h : Idle data m t) (hknown : Ipu.Known val)
    (hskip : ¬ Passes m.ipu.io.bits (Ipu.skip val)) :
    Running data yuv2rgb (m.step data yuv2rgb (.command val)) (Ipu.IPUCMD_WRITE (whole data) val t)
      (atOnce data yuv2rgb t (.command val)) := by
  have hreg := reg_IPUCMD_WRITE (whole data) val t
  have hsame : Ipu.Same data m.passed (Ipu.IPUCMD_WRITE fifos val m.ipu)
      (Ipu.IPUCMD_WRITE (whole data) val t) := by
    refine ⟨matches_IPUCMD_WRITE h.io hskip, ?_⟩
    rw [hreg, reg_IPUCMD_WRITE]
    exact congrArg (fun r : Regs => { r with
      ecd := false, scd := false, index := 0, pos0 := 0, pos1 := 0, current := val, busy := true
      dataBusy := r.dataBusy || Ipu.usesData val
      topbusy := r.topbusy || Ipu.usesData val }) h.reg
  have hbusy : (Ipu.IPUCMD_WRITE (whole data) val t).reg.busy = true := by rw [hreg]
  have hcurrent : (Ipu.IPUCMD_WRITE (whole data) val t).reg.current = val := by rw [hreg]
  have hdata : t.reg.dataBusy = false :=
    (congrArg Regs.dataBusy h.reg).symm.trans h.dataBusy
  have hknown' : Ipu.Known (Ipu.IPUCMD_WRITE (whole data) val t).reg.current := by rwa [hcurrent]
  have hdone := IPUProcessInterrupt_done hbusy (hsame.turn yuv2rgb hknown').1
  refine ⟨hbusy, hknown', fun hset => ?_, hsame, ?_, ?_⟩
  · rw [hreg, hdata] at hset
    rw [hcurrent]
    exact hset
  · rw [atOnce, hdone]
  · rw [atOnce, hdone]

theorem Inv.step (h : Inv data yuv2rgb m t) {e : Event} (hkept : Kept yuv2rgb m e) :
    Inv data yuv2rgb (m.step data yuv2rgb e) (atOnce data yuv2rgb t e) := by
  cases e with
  | ctrl value =>
    obtain hidle | ⟨u, hrunning⟩ := h
    · refine .inl ⟨hidle.busy, hidle.dataBusy, hidle.io, ?_⟩
      exact congrArg (Ipu.writeCtrl value) hidle.reg
    · have hbusy := hkept.1
      rw [hrunning.same.reg, hrunning.busy] at hbusy
      exact absurd hbusy (by decide)
  | command val =>
    obtain ⟨⟨hbusy, hknown⟩, hskip⟩ := hkept
    obtain hidle | ⟨u, hrunning⟩ := h
    · exact .inr ⟨_, hidle.command hknown hskip⟩
    · rw [hrunning.same.reg, hrunning.busy] at hbusy
      exact absurd hbusy (by decide)
  | feed qwc =>
    obtain hidle | ⟨u, hrunning⟩ := h
    · exact .inl (hidle.of_matches rfl (matches_feed yuv2rgb qwc hidle.io))
    · exact .inr ⟨u, hrunning.feed qwc⟩
  | drain qwc =>
    obtain hidle | ⟨u, hrunning⟩ := h
    · exact .inl (hidle.of_matches rfl (matches_drain yuv2rgb qwc hidle.io))
    · exact .inr ⟨u, hrunning.drain qwc⟩
  | process =>
    obtain hidle | ⟨u, hrunning⟩ := h
    · have hstep : m.step data yuv2rgb .process = m := by
        have hbusy : ¬ m.ipu.reg.busy = true := by
          rw [hidle.busy]
          decide
        have hnot : Ipu.givesUp m.ipu = false := by
          rw [Ipu.givesUp, hidle.busy]
          rfl
        rw [Machine.step, Ipu.IPUProcessInterrupt, if_neg hbusy, hnot]
        rfl
      rw [hstep]
      exact .inl hidle
    · have hbusy : m.ipu.reg.busy = true := by rw [hrunning.same.reg, hrunning.busy]
      obtain hidle | ⟨u', hrunning', -⟩ := hrunning.process (hkept hbusy)
      · exact .inl hidle
      · exact .inr ⟨u', hrunning'⟩

theorem Inv.run {events : List Event} (h : Inv data yuv2rgb m t)
    (hkept : Schedule data yuv2rgb (Kept yuv2rgb) m events) :
    Inv data yuv2rgb (events.foldl (Machine.step data yuv2rgb) m)
      (events.foldl (atOnce data yuv2rgb) t) := by
  induction events generalizing m t with
  | nil => exact h
  | cons e events ih => exact ih (h.step hkept.1) hkept.2

theorem Idle.agrees (h : Idle data m t) : Agrees m t := by
  obtain ⟨⟨q, hat⟩, l, hqueue, hout⟩ := h.io
  have hlen := hat.fifo.length
  have hpos := hat.pos
  have hreceived := hat.received
  refine ⟨h.busy, ?_, ?_, h.reg⟩
  · simp only [stream, List.length_drop, List.length_map, List.length_range] at hlen hpos hreceived
    rw [position]
    omega
  · have hall : l.length = m.ipu.io.out.OFC := hqueue.length
    rw [output, (read_queued _ hqueue (Nat.le_refl _)).1, ← hall, List.take_length, hout]

theorem Running.not_givesUp (h : Running data yuv2rgb m u t)
    (hroom : Ipu.Room m.passed m.ipu u) :
    Ipu.givesUp (Ipu.IPUWorker fifos yuv2rgb m.ipu) = false := by
  obtain ⟨hflag, hstatus, houtcome⟩ := h.same.turn yuv2rgb h.known
  rw [Ipu.IPUWorker]
  generalize Ipu.turn fifos yuv2rgb m.ipu = x at houtcome
  obtain ⟨s', flag⟩ := x
  cases flag with
  | true => rfl
  | false =>
    obtain ⟨hshort, u', hwaits⟩ : _ ∧ ∃ u', Ipu.Waits data m.passed _ m.ipu u s' u' := houtcome
    have hdata : s'.reg.dataBusy = false := by
      rw [hwaits.same.reg, (eq_of_status hwaits.status).2.2]
      exact Bool.eq_false_iff.mpr fun hset => hshort (h.dataBusy hset) hroom
    dsimp only
    rw [Ipu.givesUp, hdata, Bool.and_false, Bool.false_and]

variable (yuv2rgb) in
theorem room_of_dma (h : Matches data m.passed m.ipu.io u.io) :
    Ipu.Room (((m.step data yuv2rgb (.feed 8)).step data yuv2rgb (.drain 8)).passed)
      ((m.step data yuv2rgb (.feed 8)).step data yuv2rgb (.drain 8)).ipu u := by
  obtain ⟨⟨q, hat⟩, l, hqueue, -⟩ := h
  refine ⟨?_, ?_⟩
  · have hlen := hat.fifo.length
    have hifc := hat.fifo.ifc
    have hbp := hat.bp
    have hpos := hat.pos
    have hreceived := hat.received
    simp only [stream, List.length_drop, List.length_map, List.length_range] at hlen hpos hreceived
    simp only [Machine.step, State.write, List.length_map, List.length_range]
    omega
  · have hlen : l.length = m.ipu.io.out.OFC := hqueue.length
    have hofc : m.ipu.io.out.OFC ≤ 8 := hqueue.ifc
    have hleft : (l.drop (min 8 m.ipu.io.out.OFC)).length =
        (m.ipu.io.out.read (min 8 m.ipu.io.out.OFC)).2.OFC :=
      (read_queued _ hqueue (Nat.min_le_right ..)).2.length
    rw [List.length_drop] at hleft
    simp only [Machine.step]
    omega

theorem Running.finishes (h : Running data yuv2rgb m u t) :
    ∃ more, more.all isInterruption = true ∧ Schedule data yuv2rgb (Kept yuv2rgb) m more ∧
      Idle data (more.foldl (Machine.step data yuv2rgb) m) t := by
  induction hleft : Ipu.progress t - Ipu.progress u using Nat.strong_induction_on
    generalizing m u with
  | _ left ih =>
  subst hleft
  have hdrained := (h.feed 8).drain 8
  have hroom := room_of_dma yuv2rgb h.same.io
  have hkept := hdrained.not_givesUp hroom
  obtain hidle | ⟨u', hrunning, hmoved⟩ := hdrained.process hkept
  · exact ⟨[.feed 8, .drain 8, .process], rfl, ⟨trivial, trivial, fun _ => hkept, trivial⟩, hidle⟩
  · obtain ⟨-, hlt, hle⟩ := hmoved hroom
    obtain ⟨more, hall, hschedule, hidle⟩ := ih _ (by omega) hrunning rfl
    exact ⟨.feed 8 :: .drain 8 :: .process :: more, hall,
      ⟨trivial, trivial, fun _ => hkept, hschedule⟩, hidle⟩

theorem idle_start (reg : Regs) (bp : Nat) : Idle data (start reg bp) (startAtOnce reg bp) := by
  refine ⟨rfl, rfl, ⟨⟨0, at_bclr bp⟩, [], ?_, rfl⟩, rfl⟩
  exact ⟨rfl, Nat.zero_le 8, Nat.zero_lt_succ 31, Nat.dvd_zero 4, rfl, fun i x hx => by simp at hx⟩

end Invariant

/-- The commands are resumable, in every schedule in which none is given up and no skip passes a
quadword that is still to come. -/
theorem resumes_kept (data : Nat → U128) (yuv2rgb : (Nat → BitVec 64) → Nat → U128) :
    Resumes data yuv2rgb (Kept yuv2rgb) := by
  intro reg bp events hschedule
  have hinv : Inv data yuv2rgb (start reg bp) (startAtOnce reg bp) := .inl (idle_start reg bp)
  obtain hidle | ⟨u, hrunning⟩ := hinv.run hschedule
  · exact ⟨fun _ => hidle.agrees, [], rfl, trivial, hidle.agrees⟩
  · refine ⟨fun hbusy => ?_, ?_⟩
    · rw [hrunning.same.reg, hrunning.busy] at hbusy
      exact absurd hbusy (by decide)
    · obtain ⟨more, hall, hmore, hidle⟩ := hrunning.finishes
      exact ⟨more, hall, hmore, hidle.agrees⟩

/-- `FDEC` reads the code at the end of a video, and the next one has to wait for its input. -/
theorem not_resumes_given :
    ¬ Resumes (fun i => if i = 0 then 0xb7010000#128 <<< 96 else 0) (fun _ _ => 0) Given := by
  intro h
  obtain ⟨hdone, -⟩ := h default 96
    [.feed 1, .command 0x40000000, .process, .command 0x40000020, .process]
    ⟨trivial, ⟨rfl, by decide, by decide⟩, trivial, ⟨by decide +kernel, by decide, by decide⟩,
      trivial, trivial⟩
  have hdata := congrArg Regs.data (hdone (by decide +kernel)).reg
  exact absurd hdata (by decide +kernel)

end Machine

end OmegaRed.IPU
