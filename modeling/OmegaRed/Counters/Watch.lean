import OmegaRed.Counters.Rcnt

/-! An ideal timer beside a counter that is on an internal clock and without a gate. -/

namespace OmegaRed.Counters

open Lib.Deadlines Lib.Timers

/-- The ideal timer, as of the last write or update. -/
structure Watch where
  /-- the last written count -/
  written : Nat
  /-- the ticks since then -/
  ticked : Nat
  /-- `ZeroReturn` has been off since then -/
  free : Bool
  counting : Bool
  rate : Nat
  /-- the cycle of the last tick -/
  start : Nat
  timer : Timer

namespace Watch

variable (w : Watch) (now : Nat)

/-- The ticks from the last one on. -/
def ticks : Nat := if w.counting then (now - w.start) / w.rate else 0

/-- The timer after all the ticks until now, one by one. -/
def settle : Watch :=
  if w.counting then
    { w with
      ticked := w.ticked + w.ticks now
      start := w.start + w.ticks now * w.rate
      timer := w.timer.reach.ticks 0x10000 (w.ticks now) }
  else w

/-- A written count that is the target is a pass of it. -/
def writeCount (value : Nat) : Watch :=
  let w := w.settle now
  { w with
    written := value
    ticked := 0
    free := !w.timer.zeroReturn
    start := if w.counting then w.start else now
    timer := { w.timer with value := value, armed := decide (value ≤ w.timer.target) } }

/-- A target that the count has reached already is for after the next overflow. -/
def writeTarget (value : Nat) : Watch :=
  let w := w.settle now
  { w with
    timer := { w.timer with target := value, armed := decide (w.timer.value < value) } }

/-- The clock keeps the cycles that have passed since its last tick. -/
def writeMode (m : Mode) (rate : Nat) : Watch :=
  let w := w.settle now
  { w with
    free := w.free && !m.zeroReturn
    counting := m.isCounting
    rate := rate
    start := if w.counting then w.start else now
    timer :=
      { w.timer with
        onTarget := m.targetInterrupt
        onOverflow := m.overflowInterrupt
        zeroReturn := m.zeroReturn } }

/-- The timer of a counter that comes to an internal clock or loses its gate. -/
def ofCounter (c : Counter) : Watch where
  written := c.view.value
  ticked := 0
  free := !c.mode.zeroReturn
  counting := c.mode.isCounting
  rate := c.rate.toNat
  start := now - (.ofNat 32 now - c.sCycleT : BitVec 32).toNat
  timer := c.view

variable {w now}

@[simp] theorem settle_free : (w.settle now).free = w.free := by
  rw [settle]
  split <;> rfl

@[simp] theorem settle_written : (w.settle now).written = w.written := by
  rw [settle]
  split <;> rfl

@[simp] theorem settle_counting : (w.settle now).counting = w.counting := by
  rw [settle]
  split <;> rfl

@[simp] theorem settle_rate : (w.settle now).rate = w.rate := by
  rw [settle]
  split <;> rfl

theorem settle_ticked : (w.settle now).ticked = w.ticked + w.ticks now := by
  rw [settle]
  split
  · rfl
  · rename_i hw
    rw [ticks, if_neg hw, Nat.add_zero]

theorem settle_timer
    (hs : w.counting = true → (w.timer.plus (w.ticks now)).Settled 0x10000) :
    (w.settle now).timer = w.timer.plus (w.ticks now) := by
  rw [settle]
  split
  · rename_i hw
    have hset := hs hw
    rw [hset.of_plus_self.reach, Timer.ticks_of_settled hset]
  · rename_i hw
    rw [ticks, if_neg hw, Timer.plus_zero]

theorem start_settle (hle : w.start ≤ now) (hr : 0 < w.rate) : (w.settle now).start ≤ now ∧
    (w.counting = true → now - (w.settle now).start < w.rate) := by
  rw [settle]
  split
  · rename_i hw
    have hsplit := Nat.div_add_mod (now - w.start) w.rate
    have hmod := Nat.mod_lt (now - w.start) hr
    have hmul : w.ticks now * w.rate = w.rate * ((now - w.start) / w.rate) := by
      rw [ticks, if_pos hw, Nat.mul_comm]
    have hstart : w.start + w.ticks now * w.rate ≤ now ∧
        now - (w.start + w.ticks now * w.rate) < w.rate := by omega
    exact ⟨hstart.1, fun _ => hstart.2⟩
  · rename_i hw
    exact ⟨hle, fun h => absurd h hw⟩

theorem ticks_settle (hle : w.start ≤ now) (hr : 0 < w.rate) : (w.settle now).ticks now = 0 := by
  rw [ticks, settle_counting, settle_rate]
  split
  · rename_i hw
    exact Nat.div_eq_of_lt ((start_settle hle hr).2 hw)
  · rfl

variable (w now)

/-- By the cycle `d` the timer has come to its target or its overflow. -/
def Due (d : Nat) : Prop :=
  w.counting = true ∧ w.start ≤ d ∧ ¬(w.timer.plus ((d - w.start) / w.rate)).Settled 0x10000

end Watch

/-- The counter is the timer, and its clock is late by less than a turn. -/
structure Agrees (c : Counter) (w : Watch) (now : Nat) : Prop where
  view : c.view = w.timer
  ready : w.timer.Ready 0x10000
  counting : c.mode.isCounting = w.counting
  source : c.mode.clockSource ≠ 3
  rate : c.rate.toNat = w.rate
  rate_pos : 0 < w.rate
  rate_le : w.rate ≤ 512
  start_le : w.start ≤ now
  start : w.counting = true → c.sCycleT = .ofNat 32 w.start
  recent : w.counting = true → now - w.start < 0x4000000
  free : w.free = true →
    w.timer.zeroReturn = false ∧ w.timer.value % 0x10000 = (w.written + w.ticked) % 0x10000

namespace Agrees

variable {c : Counter} {w : Watch} {now : Nat} (h : Agrees c w now)

include h

theorem counts : c.counts = w.counting := by
  rw [Counter.counts, h.counting, bne_iff_ne.mpr h.source, Bool.and_true]

theorem target_lt : w.timer.target < 0x10000 := h.view ▸ Counter.view_target_lt

theorem rcntRcount : (c.rcntRcount (.ofNat 32 now)).toNat = w.timer.value + w.ticks now := by
  have hval : c.count.toNat = w.timer.value := congrArg Timer.value h.view
  cases hw : w.counting with
  | false =>
    rw [Counter.rcntRcount, if_neg (by rw [h.counts, hw]; decide), hval, Watch.ticks,
      if_neg (by rw [hw]; decide), Nat.add_zero]
  | true =>
    have hrecent := h.recent hw
    have hdiv := Nat.div_le_self (now - w.start) w.rate
    have hready := h.ready.1
    rw [Counter.rcntRcount_toNat h.start_le (by omega) (h.counts.trans hw) (h.start hw), hval,
      h.rate, Watch.ticks, if_pos hw]
    rw [hval, h.rate]
    omega

theorem readTimer : c.readTimer (.ofNat 32 now) = w.timer.plus (w.ticks now) := by
  rw [Counter.readTimer, h.view, h.rcntRcount]
  rfl

theorem read (hfree : w.free = true) : (c.rcntRcount (.ofNat 32 now)).toNat % 0x10000 =
    ((w.settle now).written + (w.settle now).ticked) % 0x10000 := by
  rw [h.rcntRcount, Watch.settle_written, Watch.settle_ticked, ← Nat.add_assoc, Nat.add_mod,
    (h.free hfree).2, ← Nat.add_mod]

theorem addTicks (hw : w.counting = true) :
    (c.addTicks (.ofNat 32 now) (.ofNat 32 now - c.sCycleT)).view = w.timer.plus (w.ticks now) ∧
      (c.addTicks (.ofNat 32 now) (.ofNat 32 now - c.sCycleT)).sCycleT =
        .ofNat 32 (w.settle now).start := by
  have hval : c.count.toNat = w.timer.value := congrArg Timer.value h.view
  have hrecent := h.recent hw
  have hdiv := Nat.div_le_self (now - w.start) w.rate
  have hready := h.ready.1
  have hlt : c.count.toNat + (now - w.start) / c.rate.toNat < 2 ^ 32 := by
    rw [hval, h.rate]
    omega
  obtain ⟨hview, hstart⟩ :=
    Counter.addTicks_eq h.start_le (by omega) (h.start hw) hlt
  rw [h.rate] at hview hstart
  rw [Watch.settle, if_pos hw, Watch.ticks, if_pos hw, hview, hstart, h.view]
  exact ⟨rfl, rfl⟩

theorem free_settle (hfree : w.free = true) : (w.settle now).timer.zeroReturn = false ∧
    (w.settle now).timer.value % 0x10000 =
      ((w.settle now).written + (w.settle now).ticked) % 0x10000 := by
  obtain ⟨hzero, hmod⟩ := h.free hfree
  have hr : w.timer.reach.zeroReturn = false := Timer.reach_zeroReturn.trans hzero
  obtain ⟨hv, hz⟩ := Timer.ticks_value_mod 0x10000 (w.ticks now) hr
  rw [Watch.settle]
  split
  · refine ⟨hz, hv.trans ?_⟩
    rw [Timer.reach_value hzero, Nat.add_mod, hmod, ← Nat.add_mod, Nat.add_assoc]
  · exact ⟨hzero, hmod⟩

theorem of_kept {d : Counter} {v : Watch} (hkept : d.kept = c.kept) (hc : v.counting = w.counting)
    (hr : v.rate = w.rate) (hview : d.view = v.timer) (hready : v.timer.Ready 0x10000)
    (hle : v.start ≤ now)
    (hstart : w.counting = true → d.sCycleT = .ofNat 32 v.start ∧ now - v.start < w.rate)
    (hfree : v.free = true → v.timer.zeroReturn = false ∧
      v.timer.value % 0x10000 = (v.written + v.ticked) % 0x10000) : Agrees d v now where
  view := hview
  ready := hready
  counting := (congrArg (·.2.isCounting) hkept).trans (h.counting.trans hc.symm)
  source := by
    have hsource : d.mode.clockSource = c.mode.clockSource := congrArg (·.2.clockSource) hkept
    exact hsource ▸ h.source
  rate := (congrArg (BitVec.toNat ·.1) hkept).trans (h.rate.trans hr.symm)
  rate_pos := hr ▸ h.rate_pos
  rate_le := hr ▸ h.rate_le
  start_le := hle
  start hw := (hstart (hc ▸ hw)).1
  recent hw := by
    have hlt := (hstart (hc ▸ hw)).2
    have hle512 := h.rate_le
    omega
  free := hfree

theorem settle_of {d : Counter} (hkept : d.kept = c.kept) (hview : d.view = (w.settle now).timer)
    (hready : (w.settle now).timer.Ready 0x10000)
    (hstart : w.counting = true → d.sCycleT = .ofNat 32 (w.settle now).start) :
    Agrees d (w.settle now) now := by
  obtain ⟨hle, hlt⟩ := Watch.start_settle h.start_le h.rate_pos
  exact h.of_kept hkept Watch.settle_counting Watch.settle_rate hview hready hle
    (fun hw => ⟨hstart hw, hlt hw⟩) fun hfree => h.free_settle (Watch.settle_free ▸ hfree)

theorem update (hf : c.Fits)
    (hclear : c.counts = true → (c.counted (.ofNat 32 now)).view.Clears 0x10000) :
    Agrees (c.update (.ofNat 32 now)) (w.settle now) now ∧
      (w.counting = true → (w.settle now).timer.Settled 0x10000) := by
  cases hw : w.counting with
  | false =>
    have hsame : c.update (.ofNat 32 now) = c := if_pos (h.counting.trans hw)
    have hsettle : w.settle now = w := if_neg (by rw [hw]; decide)
    rw [hsame, hsettle]
    exact ⟨h, fun h => absurd h (by decide)⟩
  | true =>
    have hcounts := h.counts.trans hw
    have hrecent := h.recent hw
    obtain ⟨hview, hstart⟩ := h.addTicks hw
    have hcounted := Counter.counted_eq h.start_le (by omega) (h.start hw)
    have hclear := hclear hcounts
    obtain ⟨hupdate, hset⟩ := Counter.view_update hf hcounts hclear
    rw [hcounted, hview] at hclear hupdate
    have hticks := Timer.ticks_eq_over_reach h.ready h.target_lt hclear
    have hsettle : (w.settle now).timer = w.timer.reach.ticks 0x10000 (w.ticks now) := by
      rw [Watch.settle, if_pos hw]
    have heq : (c.update (.ofNat 32 now)).view = (w.settle now).timer :=
      hupdate.trans (hticks.symm.trans hsettle.symm)
    refine ⟨h.settle_of Counter.kept_update heq (heq ▸ hset).ready fun _ => ?_, fun _ => heq ▸ hset⟩
    rw [Counter.update_of_counts hcounts, Counter.kept_tests.2, hcounted]
    exact hstart

section Writes

/-! Writes that find nothing due. -/

variable (hs : w.counting = true → (w.timer.plus (w.ticks now)).Settled 0x10000)

include hs

omit h in
theorem ready_settle (hr : w.timer.Ready 0x10000) : (w.settle now).timer.Ready 0x10000 := by
  cases hw : w.counting with
  | false =>
    rw [Watch.settle, if_neg (by rw [hw]; decide)]
    exact hr
  | true =>
    rw [Watch.settle_timer hs]
    exact (hs hw).ready

theorem settled_counter :
    Agrees (if c.counts then c.recount (.ofNat 32 now) else c) (w.settle now) now := by
  have hready := ready_settle hs h.ready
  split
  · rename_i hcounts
    have hw : w.counting = true := h.counts ▸ hcounts
    obtain ⟨hview, hstart⟩ := h.addTicks hw
    rw [Counter.recount_eq]
    exact h.settle_of rfl (hview.trans (Watch.settle_timer hs).symm) hready fun _ => hstart
  · rename_i hcounts
    have hw : ¬w.counting = true := h.counts ▸ hcounts
    have hsame : w.settle now = w := if_neg hw
    rw [hsame]
    exact h

theorem writeCount (hf : c.Fits) (value : BitVec 32) :
    Agrees (c.writeCount (.ofNat 32 now) value) (w.writeCount now (value.toNat % 0x10000)) now := by
  obtain ⟨hle, hlt⟩ := Watch.start_settle h.start_le h.rate_pos
  have hview : (c.writeCount (.ofNat 32 now) value).view =
      (w.writeCount now (value.toNat % 0x10000)).timer := by
    rw [Counter.writeCount, Counter.view_rephase, (Counter.view_setCount hf).2, h.view,
      Watch.writeCount, Watch.settle_timer hs]
    rfl
  have hmod : value.toNat % 0x10000 < 0x10000 := Nat.mod_lt _ (by decide)
  refine h.of_kept Counter.kept_writeCount Watch.settle_counting Watch.settle_rate hview
    ⟨hmod, of_decide_eq_true⟩ ?_ (fun hw => ?_) fun hfree => ?_
  · rw [Watch.writeCount]
    simp only
    split
    · exact hle
    · exact Nat.le_refl now
  · obtain ⟨hkept, hsame⟩ := Counter.kept_setCount value (c := c)
    have hcounts : (c.setCount value).counts = true :=
      (Counter.counts_of_kept hkept).trans (h.counts.trans hw)
    have hpos : 0 ≤ (BitVec.ofNat 32 now - (c.setCount value).sCycleT).toInt := by
      rw [hsame, h.start hw, BitVec.toInt_eq_toNat_cond, Counter.elapsed_toNat h.start_le]
      all_goals
        have hrecent := h.recent hw
        omega
    have hstart : (w.writeCount now (value.toNat % 0x10000)).start = (w.settle now).start :=
      if_pos (Watch.settle_counting.trans hw)
    rw [hstart, Counter.writeCount, Counter.rephase_sCycleT hcounts hpos,
      Counter.addTicks_sCycleT (congrArg (·.1) hkept) hsame]
    exact ⟨(h.addTicks hw).2, hlt hw⟩
  · exact ⟨by simpa [Watch.writeCount] using hfree, rfl⟩

theorem writeTarget (value : BitVec 32) :
    Agrees (c.writeTarget (.ofNat 32 now) value) (w.writeTarget now (value.toNat % 0x10000))
      now := by
  have hd := h.settled_counter hs
  obtain ⟨hle, hlt⟩ := Watch.start_settle h.start_le h.rate_pos
  rw [Counter.writeTarget_eq]
  generalize (if c.counts then c.recount (.ofNat 32 now) else c) = d at hd ⊢
  obtain ⟨hf, hset⟩ := Counter.view_setTarget value (c := d)
  have hcount : ({ d with target := value &&& 0xffff }.rcntRcount (.ofNat 32 now)).toNat =
      (w.settle now).timer.value := by
    rw [← Nat.add_zero (w.settle now).timer.value, ← Watch.ticks_settle h.start_le h.rate_pos]
    exact hd.rcntRcount
  obtain ⟨-, hview⟩ := Counter.view_guardTarget (.ofNat 32 now) hf
    (congrArg Timer.armed hset)
  obtain ⟨hkept, hsame⟩ := Counter.kept_guardTarget (.ofNat 32 now)
    (c := { d with target := value &&& 0xffff })
  refine hd.of_kept hkept rfl rfl ?_ ?_ hle (fun hw => ?_) hd.free
  · rw [hview, hcount, hset, hd.view]
    rfl
  · exact ⟨hd.ready.1, fun ha => Nat.le_of_lt (of_decide_eq_true ha)⟩
  · exact ⟨hsame.trans (hd.start hw), Watch.settle_rate (w := w) ▸
      hlt (Watch.settle_counting (w := w) ▸ hw)⟩

theorem view_settle : (c.settle (.ofNat 32 now)).view = (w.settle now).timer ∧
    (c.settle (.ofNat 32 now)).sCycleT =
      .ofNat 32 (if w.counting then (w.settle now).start else now) := by
  have hd := h.settled_counter hs
  rw [Counter.settle, h.counting]
  cases hw : w.counting with
  | true =>
    rw [if_pos (h.counts.trans hw)] at hd
    rw [if_pos rfl, if_pos rfl, if_pos h.source]
    exact ⟨hd.view, hd.start (Watch.settle_counting.trans hw)⟩
  | false =>
    have hsame : w.settle now = w := if_neg (by rw [hw]; decide)
    rw [if_neg (by decide), if_neg (by decide), hsame]
    exact ⟨h.view, rfl⟩

theorem writeMode (info : VSyncInfo) (value : BitVec 32)
    (hplain : (c.mode.write value).plain = true) :
    Agrees (c.writeMode (.ofNat 32 now) info value)
      (w.writeMode now (c.mode.write value) ((c.mode.write value).rate info).toNat) now := by
  obtain ⟨hgated, hsource⟩ := Counter.plain_iff.mp hplain
  obtain ⟨hpos, hle512⟩ := Counter.rate_bounds info hsource
  obtain ⟨hle, hlt⟩ := Watch.start_settle h.start_le h.rate_pos
  obtain ⟨hview, hstart⟩ := h.view_settle hs
  have hold := h.rate_le
  have hlate : now - (if w.counting then (w.settle now).start else now) < 0x4000000 := by
    split
    · rename_i hw
      have := hlt hw
      omega
    · omega
  have hsame : (w.writeMode now (c.mode.write value) ((c.mode.write value).rate info).toNat).start =
      if w.counting then (w.settle now).start else now := by
    rw [Watch.writeMode]
    simp only [Watch.settle_counting]
  rw [Counter.writeMode_of_not_gated hgated]
  refine ⟨?_, ready_settle hs h.ready, rfl, hsource, rfl, hpos, hle512, ?_, fun _ => ?_, fun _ => ?_,
    fun hfree => ?_⟩
  · rw [Watch.writeMode, ← hview]
    rfl
  · rw [hsame]
    split
    · exact hle
    · exact Nat.le_refl now
  · exact hstart.trans (congrArg _ hsame.symm)
  · exact hsame ▸ hlate
  · have hboth : w.free = true ∧ (c.mode.write value).zeroReturn = false := by
      simpa [Watch.writeMode] using hfree
    exact ⟨hboth.2, (h.free_settle hboth.1).2⟩

end Writes

end Agrees

theorem agrees_ofCounter {c : Counter} {now : Nat} (info : VSyncInfo) (value : BitVec 32)
    (hnow : 2 ^ 32 ≤ now) (hplain : (c.mode.write value).plain = true)
    (hready : (c.readTimer (.ofNat 32 now)).Ready 0x10000)
    (hphase : (c.mode.write value).isCounting = true → (c.phase (.ofNat 32 now)).toNat < 512) :
    Agrees (c.writeMode (.ofNat 32 now) info value)
      (Watch.ofCounter now (c.writeMode (.ofNat 32 now) info value)) now := by
  obtain ⟨hgated, hsource⟩ := Counter.plain_iff.mp hplain
  obtain ⟨hpos, hle512⟩ := Counter.rate_bounds info hsource
  rw [Counter.writeMode_of_not_gated hgated]
  have hstart : (c.settle (.ofNat 32 now)).sCycleT =
      .ofNat 32 (now - (c.phase (.ofNat 32 now)).toNat) := by
    have hlt := (c.phase (.ofNat 32 now)).isLt
    rw [← BitVec.ofNat_sub_ofNat_of_le _ _ hlt (by omega), BitVec.ofNat_toNat, BitVec.setWidth_eq,
      ← Counter.settle_sCycleT, sub_sub_cancel]
  refine ⟨rfl, ?_, rfl, hsource, rfl, hpos, hle512, Nat.sub_le _ _, fun _ => ?_, fun hw => ?_,
    fun hfree => ?_⟩
  · rw [← Counter.view_settle] at hready
    exact hready
  · rw [Watch.ofCounter]
    simp only [Counter.settle_sCycleT]
    exact hstart
  · have hlt := hphase hw
    rw [Watch.ofCounter]
    simp only [Counter.settle_sCycleT]
    omega
  · have hzero : (c.mode.write value).zeroReturn = false := by
      simpa [Watch.ofCounter] using hfree
    exact ⟨hzero, rfl⟩

section Due

/-! The points of time that the scheduler computes from a counter. -/

theorem toInt_ofNat_sub {o a b : Nat} (ha : o ≤ a) (hb : o ≤ b) (ha' : a - o < 2 ^ 31)
    (hb' : b - o < 2 ^ 31) : (BitVec.ofNat 32 a - BitVec.ofNat 32 b).toInt = (a : Int) - b := by
  have hnear {x : Nat} (hx : o ≤ x) (hlt : x - o < 2 ^ 31) :
      (BitVec.ofNat 32 x - BitVec.ofNat 32 o).toNat = x - o :=
    Counter.elapsed_toNat hx (by omega)
  rw [toInt_sub (o := .ofNat 32 o), hnear ha ha', hnear hb hb']
  · omega
  · rw [Near, hnear ha ha']
    exact ha'
  · rw [Near, hnear hb hb']
    exact hb'

variable {c : Counter} {w : Watch} {now : Nat} (h : Agrees c w now)

include h

/-- The cycles that are left for `k` ticks from the last one on, seen from another cycle. -/
theorem Agrees.toInt_due {x : BitVec 32} {k base : Nat} (hw : w.counting = true)
    (hx : x.toNat = k * w.rate) (hk : k ≤ 0x10000) (hle : base ≤ now)
    (hlate : now - base < 0x4000000) :
    (c.sCycleT + x - .ofNat 32 base).toInt = ((w.start + k * w.rate : Nat) : Int) - base := by
  have hrecent := h.recent hw
  have hstart := h.start_le
  have hmul : k * w.rate ≤ 0x10000 * 512 := Nat.mul_le_mul hk h.rate_le
  have hxnat : x = .ofNat 32 (k * w.rate) := by rw [← hx, BitVec.ofNat_toNat, BitVec.setWidth_eq]
  rw [h.start hw, hxnat, ← BitVec.ofNat_add]
  rcases Nat.le_total w.start base with hbase | hbase
  · exact toInt_ofNat_sub (o := w.start) (by omega) hbase (by omega) (by omega)
  · exact toInt_ofNat_sub (o := base) (by omega) (Nat.le_refl _) (by omega) (by omega)

theorem Agrees.toOverflow : c.sched.toOverflow.toNat = (0x10000 - w.timer.value) * w.rate := by
  have hval : c.count.toNat = w.timer.value := congrArg Timer.value h.view
  have hready := h.ready.1
  have hmul : (0x10000 - w.timer.value) * w.rate ≤ 0x10000 * 512 :=
    Nat.mul_le_mul (by omega) h.rate_le
  have hsub : ((0x10000 : BitVec 32) - c.count).toNat = 0x10000 - w.timer.value := by
    rw [← hval]
    exact BitVec.toNat_sub_of_le (by rw [BitVec.le_def, hval]; exact Nat.le_of_lt hready)
  have hrate : c.rate.toNat = w.rate := h.rate
  exact (BitVec.toNat_mul _ _).trans (by
    rw [show c.sched.rate = c.rate from rfl, show c.sched.count = c.count from rfl, hsub, hrate,
      Nat.mod_eq_of_lt (by omega)])

theorem Agrees.toTarget (hf : c.Fits) (ha : w.timer.armed = true) :
    c.sched.toTarget.toNat = (w.timer.target - w.timer.value) * w.rate := by
  have hval : c.count.toNat = w.timer.value := congrArg Timer.value h.view
  have hlt := h.target_lt
  have hready := h.ready.2 ha
  have htarget : c.target.toNat = w.timer.target := by
    rw [hf.toNat_target, h.view, if_pos ha, Nat.add_zero]
  have hmul : (w.timer.target - w.timer.value) * w.rate ≤ 0x10000 * 512 :=
    Nat.mul_le_mul (by omega) h.rate_le
  have hsub : (c.target - c.count).toNat = w.timer.target - w.timer.value := by
    rw [← hval, ← htarget]
    exact BitVec.toNat_sub_of_le (by rw [BitVec.le_def, hval, htarget]; exact hready)
  have hrate : c.rate.toNat = w.rate := h.rate
  exact (BitVec.toNat_mul _ _).trans (by
    rw [show c.sched.rate = c.rate from rfl, show c.sched.count = c.count from rfl,
      show c.sched.target = c.target from rfl, hsub, hrate, Nat.mod_eq_of_lt (by omega)])

theorem Agrees.stopped : c.sched.stopped = !w.counting := by
  have hsource : (c.mode.clockSource == 3) = false := beq_eq_false_iff_ne.mpr h.source
  have hcounting : c.mode.isCounting = w.counting := h.counting
  rw [← hcounting]
  exact (congrArg (!c.mode.isCounting || ·) hsource).trans (Bool.or_false _)

theorem Agrees.future : c.sched.future = !w.timer.armed := by
  have harmed : (c.target &&& Counter.futureTarget == 0) = w.timer.armed :=
    congrArg Timer.armed h.view
  rw [← harmed]
  rfl

theorem Agrees.due_ge {cpu : Events.Cpu} {base d : Nat} (hf : c.Fits)
    (hs : Scheduled cpu c.sched) (hbase : cpu.nextsCounter = .ofNat 32 base) (hle : base ≤ now)
    (hlate : now - base < 0x4000000) (hdue : w.Due d) :
    (base : Int) + cpu.nextCounter.toInt ≤ d := by
  obtain ⟨hw, hd, hnot⟩ := hdue
  have hready := h.ready
  have hlt := h.target_lt
  obtain ⟨hover, htarget⟩ := hs (by rw [h.stopped, hw]; rfl)
  rw [delay_eq, hbase] at hover htarget
  have hdiv := Nat.div_mul_le_self (d - w.start) w.rate
  generalize (d - w.start) / w.rate = q at hnot hdiv
  have hticks {k : Nat} (hk : k ≤ q) : w.start + k * w.rate ≤ d := by
    have hmul := Nat.mul_le_mul_right w.rate hk
    omega
  have hearly {n : Int} {e : Nat} (he : e ≤ d) (hn : n ≤ (e : Int) - base) : base + n ≤ d := by
    clear * - he hn
    omega
  by_cases hval : w.timer.value + q < 0x10000
  · have harmed : w.timer.armed = true ∧ w.timer.target ≤ w.timer.value + q := by
      by_contra hno
      exact hnot ⟨hval, fun ha => Nat.not_le.mp fun hle => hno ⟨ha, hle⟩⟩
    have hnext := htarget (by rw [h.future, harmed.1]; rfl)
    have hdue := hticks (k := w.timer.target - w.timer.value) (by omega)
    have hint := h.toInt_due hw (h.toTarget hf harmed.1) (by omega) hle hlate
    have hsc : c.sched.sCycleT = c.sCycleT := rfl
    rw [hsc, hint] at hnext
    exact hearly hdue hnext
  · have hdue := hticks (k := 0x10000 - w.timer.value) (by omega)
    have hint := h.toInt_due hw h.toOverflow (by omega) hle hlate
    have hsc : c.sched.sCycleT = c.sCycleT := rfl
    rw [hsc, hint] at hover
    exact hearly hdue hover

theorem Agrees.due_pos (hf : c.Fits) (hw : w.counting = true) (hset : w.timer.Settled 0x10000)
    (hlate : now - w.start < w.rate) :
    0 ≤ (c.sCycleT + c.sched.toOverflow - .ofNat 32 now).toInt ∧
      (c.sched.future = false → 0 ≤ (c.sCycleT + c.sched.toTarget - .ofNat 32 now).toInt) := by
  have hnow : now - now < 0x4000000 := by rw [Nat.sub_self]; decide
  have hpos {k : Nat} (hk : 0 < k) : 0 ≤ ((w.start + k * w.rate : Nat) : Int) - now := by
    have hmul : 1 * w.rate ≤ k * w.rate := Nat.mul_le_mul_right _ hk
    omega
  have hval := hset.1
  have hlt := h.target_lt
  refine ⟨?_, fun hfuture => ?_⟩
  · rw [h.toInt_due hw h.toOverflow (Nat.sub_le _ _) (Nat.le_refl now) hnow]
    exact hpos (Nat.sub_pos_of_lt hval)
  · have ha : w.timer.armed = true := by
      rw [h.future, Bool.not_eq_false'] at hfuture
      exact hfuture
    rw [h.toInt_due hw (h.toTarget hf ha) (by omega) (Nat.le_refl now) hnow]
    exact hpos (Nat.sub_pos_of_lt (hset.2 ha))

end Due

end OmegaRed.Counters
