import OmegaRed.Lib.Calendar
import Mathlib.Tactic.IntervalCases

/-! The real time clock of the console. -/

namespace OmegaRed.CDVD.Rtc

open Lib.Calendar

structure cdvdRTC where
  second : Nat
  minute : Nat
  hour : Nat
  day : Nat
  month : Nat
  year : Nat

structure cdvdStruct where
  RTCcount : Int
  RTC : cdvdRTC

def u8 (n : Nat) : Nat := n % 256

def btoi (b : Nat) : Nat := b / 16 * 10 + b % 16

def itob (i : Nat) : Nat := i / 10 * 16 + i % 10

/-- `monthmap[i]`; outside of its 13 bytes is other memory. -/
def monthmap (memory : Int → Nat) (i : Int) : Nat :=
  if 0 ≤ i ∧ i < 13 then
    [31, 28, 31, 30, 31, 30, 31, 31, 30, 31, 30, 31, 0].getD i.toNat 0
  else memory i

/-- The carries of `cdvdVsync`. -/
def tick (memory : Int → Nat) (r : cdvdRTC) : cdvdRTC :=
  let second := u8 (r.second + 1)
  if second < 60 then { r with second := second }
  else
    let minute := u8 (r.minute + 1)
    if minute < 60 then { r with second := 0, minute := minute }
    else
      let hour := u8 (r.hour + 1)
      if hour < 24 then { r with second := 0, minute := 0, hour := hour }
      else
        let day := u8 (r.day + 1)
        let last := if r.month = 2 ∧ r.year % 4 = 0 then 29 else monthmap memory (r.month - 1)
        if day ≤ last then { r with second := 0, minute := 0, hour := 0, day := day }
        else
          let month := u8 (r.month + 1)
          if month ≤ 12 then ⟨0, 0, 0, 1, month, r.year⟩
          else
            let year := u8 (r.year + 1)
            ⟨0, 0, 0, 1, 1, if year < 100 then year else 0⟩

/-- `frequency` is `GetVerticalFrequency().ToIntRounded()`. -/
def cdvdVsync (memory : Int → Nat) (frequency : Int) (c : cdvdStruct) : cdvdStruct :=
  if c.RTCcount + 1 < frequency then { c with RTCcount := c.RTCcount + 1 }
  else ⟨0, tick memory c.RTC⟩

/-- The fields that `sceCdWriteRTC` stores; `Param` is the memory from there on. -/
def written (Param : Int → BitVec 8) (ParamP : BitVec 8) : cdvdRTC where
  second := btoi (Param (ParamP.toNat - 7)).toNat
  minute := btoi (Param (ParamP.toNat - 6)).toNat % 60
  hour := btoi (Param (ParamP.toNat - 5)).toNat % 24
  day := btoi (Param (ParamP.toNat - 3)).toNat
  month := btoi (Param (ParamP.toNat - 2) &&& 0x7f#8).toNat
  year := btoi (Param (ParamP.toNat - 1)).toNat

/-- The eight bytes of `sceCdReadRTC`. -/
def sceCdReadRTC (r : cdvdRTC) : List Nat :=
  [0, u8 (itob r.second), u8 (itob r.minute), u8 (itob r.hour), 0, u8 (itob r.day),
    u8 (itob r.month), u8 (itob r.year)]

inductive Command
  | sceCdWriteRTC (Param : Int → BitVec 8) (ParamP : BitVec 8)
  | sceCdReadRTC
  | vsync (frequency : Int)

def step (memory : Int → Nat) (c : cdvdStruct) : Command → cdvdStruct
  | .sceCdWriteRTC Param ParamP => { c with RTC := written Param ParamP }
  | .sceCdReadRTC => c
  | .vsync frequency => cdvdVsync memory frequency c

def run (memory : Int → Nat) (c : cdvdStruct) (cmds : List Command) : cdvdStruct :=
  cmds.foldl (step memory) c

/-- `cdvdReset`, with the date of the host. -/
def cdvdReset (host : DateTime) : cdvdStruct :=
  ⟨0, u8 host.second, u8 host.minute, u8 host.hour, u8 host.day, u8 host.month,
    u8 (host.year - 2000)⟩

def Command.isWrite : Command → Bool
  | .sceCdWriteRTC _ _ => true
  | _ => false

def Command.isVsync : Command → Bool
  | .vsync _ => true
  | _ => false

/-- A vsync that ends a second. -/
def tickOf (c : cdvdStruct) : Command → Nat
  | .vsync frequency => if c.RTCcount + 1 < frequency then 0 else 1
  | _ => 0

/-- The second ticks of a run. -/
def ticks (memory : Int → Nat) (c : cdvdStruct) : List Command → Nat
  | [] => 0
  | cmd :: cmds => tickOf c cmd + ticks memory (step memory c cmd) cmds

def vsyncs (cmds : List Command) : Nat := cmds.countP Command.isVsync

/-- The date of a clock, in this century. -/
def cdvdRTC.date (r : cdvdRTC) : DateTime :=
  ⟨2000 + r.year, r.month, r.day, r.hour, r.minute, r.second⟩

structure cdvdRTC.Valid (r : cdvdRTC) : Prop where
  date : r.date.Valid
  year : r.year < 100

/-- A number of at most two digits. -/
def bcd (n : Nat) : Nat := n / 10 * 16 + n % 10

def dateBcd (d : DateTime) : List Nat :=
  [0, bcd d.second, bcd d.minute, bcd d.hour, 0, bcd d.day, bcd d.month, bcd (d.year % 100)]

/-- The seconds since 2000 began. -/
def offset (d : DateTime) : Nat := d.seconds - DateTime.seconds ⟨2000, 1, 1, 0, 0, 0⟩

/-- The seconds of the years from 2000 to 2099. -/
def century : Nat := 36525 * 86400

/-- The clock is a calendar in each state of the run. -/
structure Keeps (memory : Int → Nat) (c : cdvdStruct) (cmds : List Command) : Prop where
  valid : ∀ pre post, cmds = pre ++ post → (run memory c pre).RTC.Valid
  index : ∀ pre post, cmds = pre ++ post →
    0 ≤ ((run memory c pre).RTC.month - 1 : Int) ∧ ((run memory c pre).RTC.month - 1 : Int) < 13
  law : ∀ pre Param ParamP mid post, cmds = pre ++ .sceCdWriteRTC Param ParamP :: (mid ++ post) →
    (∀ cmd ∈ mid, cmd.isWrite = false) →
    ∃ d : DateTime, d.Valid ∧ 2000 ≤ d.year ∧ d.year < 2100 ∧
      offset d = (offset (written Param ParamP).date +
        ticks memory (run memory c (pre ++ [.sceCdWriteRTC Param ParamP])) mid) % century ∧
      sceCdReadRTC (run memory c (pre ++ .sceCdWriteRTC Param ParamP :: mid)).RTC = dateBcd d
  rate : ∀ pre mid post frequency, cmds = pre ++ (mid ++ post) →
    (∀ f, .vsync f ∈ mid → f = frequency) → (run memory c pre).RTCcount < frequency →
    (ticks memory (run memory c pre) mid : Int) =
      ((run memory c pre).RTCcount + vsyncs mid) / frequency

/-- The bytes of a write are those of a date. -/
def Command.Good : Command → Prop
  | .sceCdWriteRTC Param ParamP =>
    let r := written Param ParamP
    r.second < 60 ∧ (1 ≤ r.month ∧ r.month ≤ 12) ∧
      (1 ≤ r.day ∧ r.day ≤ daysIn (2000 + r.year) r.month) ∧ r.year < 100
  | _ => True

section

variable {memory : Int → Nat} {r : cdvdRTC} {c : cdvdStruct} {cmds : List Command} {m y : Nat}

theorem leap_iff (hy : y < 100) : Leap (2000 + y) ↔ y % 4 = 0 := by
  unfold Leap
  omega

theorem last_eq (hm : 1 ≤ m ∧ m ≤ 12) (hy : y < 100) :
    (if m = 2 ∧ y % 4 = 0 then 29 else monthmap memory (m - 1)) = daysIn (2000 + y) m := by
  obtain ⟨hlow, hhigh⟩ := hm
  unfold daysIn
  simp only [← leap_iff hy]
  by_cases hleap : Leap (2000 + y)
  · interval_cases m <;> simp [monthmap, hleap]
  · interval_cases m <;> simp [monthmap, hleap]

/-- One tick is one second of the calendar; the last of the century leads to its first. -/
theorem tick_date (h : r.Valid) : (tick memory r).year < 100 ∧
    ((tick memory r).date = r.date.next ∨
      r.date.next = ⟨2100, 1, 1, 0, 0, 0⟩ ∧ (tick memory r).date = ⟨2000, 1, 1, 0, 0, 0⟩) := by
  obtain ⟨hdate, hyear⟩ := h
  have hsecond : u8 (r.second + 1) = r.second + 1 := by
    have hlt : r.second < 60 := hdate.second
    exact Nat.mod_eq_of_lt (by omega)
  have hminute : u8 (r.minute + 1) = r.minute + 1 := by
    have hlt : r.minute < 60 := hdate.minute
    exact Nat.mod_eq_of_lt (by omega)
  have hhour : u8 (r.hour + 1) = r.hour + 1 := by
    have hlt : r.hour < 24 := hdate.hour
    exact Nat.mod_eq_of_lt (by omega)
  have hmonths : 1 ≤ r.month ∧ r.month ≤ 12 := hdate.month
  have hday : u8 (r.day + 1) = r.day + 1 := by
    have hle : r.day ≤ daysIn (2000 + r.year) r.month := hdate.day.2
    have hlast : daysIn (2000 + r.year) r.month ≤ 31 := by
      unfold daysIn
      split_ifs <;> decide
    exact Nat.mod_eq_of_lt (by omega)
  have hmonth : u8 (r.month + 1) = r.month + 1 := Nat.mod_eq_of_lt (by omega)
  have hyears : u8 (r.year + 1) = r.year + 1 := Nat.mod_eq_of_lt (by omega)
  unfold tick DateTime.next DateTime.nextDay
  simp only [hsecond, hminute, hhour, hday, hmonth, hyears, last_eq hmonths hyear]
  by_cases h1 : r.second + 1 < 60
  · rw [if_pos h1, if_pos (show r.date.second + 1 < 60 from h1)]
    exact ⟨hyear, .inl rfl⟩
  rw [if_neg h1, if_neg (show ¬ r.date.second + 1 < 60 from h1)]
  by_cases h2 : r.minute + 1 < 60
  · rw [if_pos h2, if_pos (show r.date.minute + 1 < 60 from h2)]
    exact ⟨hyear, .inl rfl⟩
  rw [if_neg h2, if_neg (show ¬ r.date.minute + 1 < 60 from h2)]
  by_cases h3 : r.hour + 1 < 24
  · rw [if_pos h3, if_pos (show r.date.hour + 1 < 24 from h3)]
    exact ⟨hyear, .inl rfl⟩
  rw [if_neg h3, if_neg (show ¬ r.date.hour + 1 < 24 from h3)]
  by_cases h4 : r.day + 1 ≤ daysIn (2000 + r.year) r.month
  · rw [if_pos h4, if_pos (show r.date.day + 1 ≤ daysIn r.date.year r.date.month from h4)]
    exact ⟨hyear, .inl rfl⟩
  rw [if_neg h4, if_neg (show ¬ r.date.day + 1 ≤ daysIn r.date.year r.date.month from h4)]
  by_cases h5 : r.month + 1 ≤ 12
  · rw [if_pos h5, if_pos (show r.date.month + 1 ≤ 12 from h5)]
    exact ⟨hyear, .inl rfl⟩
  rw [if_neg h5, if_neg (show ¬ r.date.month + 1 ≤ 12 from h5)]
  by_cases h6 : r.year + 1 < 100
  · rw [if_pos h6]
    exact ⟨h6, .inl rfl⟩
  · rw [if_neg h6]
    have hlast : r.date.year = 2099 := by
      change 2000 + r.year = 2099
      omega
    rw [hlast]
    exact ⟨Nat.zero_lt_succ 99, .inr ⟨rfl, rfl⟩⟩

theorem tick_valid (h : r.Valid) : (tick memory r).Valid := by
  obtain ⟨hyear, hnext | ⟨-, hfirst⟩⟩ := @tick_date memory r h
  · exact ⟨hnext ▸ DateTime.next_valid h.date, hyear⟩
  · refine ⟨hfirst ▸ ⟨by decide, by decide, by decide, by decide, by decide⟩, hyear⟩

theorem seconds_bounds (h : r.Valid) :
    DateTime.seconds ⟨2000, 1, 1, 0, 0, 0⟩ ≤ r.date.seconds ∧
      r.date.seconds < DateTime.seconds ⟨2000, 1, 1, 0, 0, 0⟩ + century := by
  have hmono : Monotone daysBeforeYear :=
    monotone_nat_of_le_succ fun y => (daysBeforeYear_succ y).symm ▸ Nat.le_add_right ..
  have hlow : daysBeforeYear 2000 ≤ daysBeforeYear r.date.year := hmono (Nat.le_add_right ..)
  have hhigh : daysBeforeYear (r.date.year + 1) ≤ daysBeforeYear 2100 := by
    refine hmono ?_
    have hyear := h.year
    change 2000 + r.year + 1 ≤ 2100
    omega
  have hdoy := h.date.dayOfYear_lt
  rw [daysBeforeYear_succ] at hhigh
  have h2000 : daysBeforeYear 2000 = 730485 := by decide
  have h2100 : daysBeforeYear 2100 = 767010 := by decide
  have hfirst : DateTime.seconds ⟨2000, 1, 1, 0, 0, 0⟩ = 730485 * 86400 := by decide
  have hsecond := h.date.second
  have hminute := h.date.minute
  have hhour := h.date.hour
  rw [hfirst, century]
  unfold DateTime.seconds DateTime.days
  omega

theorem offset_lt (h : r.Valid) : offset r.date < century := by
  have hbounds := seconds_bounds h
  unfold offset
  omega

theorem offset_tick (h : r.Valid) :
    offset (tick memory r).date = (offset r.date + 1) % century := by
  have hbounds := seconds_bounds h
  have hseconds := DateTime.seconds_next h.date
  obtain ⟨-, hnext | ⟨hnext, hfirst⟩⟩ := @tick_date memory r h
  · have hlt := offset_lt (@tick_valid memory r h)
    rw [hnext] at hlt ⊢
    unfold offset at *
    rw [hseconds] at *
    rw [Nat.mod_eq_of_lt (by omega)]
    omega
  · have hend : DateTime.seconds ⟨2100, 1, 1, 0, 0, 0⟩ =
        DateTime.seconds ⟨2000, 1, 1, 0, 0, 0⟩ + century := by decide
    rw [hnext, hend] at hseconds
    rw [hfirst]
    have hlast : offset r.date + 1 = century := by
      unfold offset
      omega
    rw [hlast, Nat.mod_self, offset, Nat.sub_self]

theorem written_valid_iff (Param : Int → BitVec 8) (ParamP : BitVec 8) :
    (written Param ParamP).Valid ↔ (Command.sceCdWriteRTC Param ParamP).Good := by
  refine ⟨fun h => ⟨h.date.second, h.date.month, h.date.day, h.year⟩, fun h => ⟨?_, h.2.2.2⟩⟩
  exact ⟨h.2.1, h.2.2.1, Nat.mod_lt _ (Nat.zero_lt_succ 23), Nat.mod_lt _ (Nat.zero_lt_succ 59),
    h.1⟩

theorem step_vsync (frequency : Int) :
    step memory c (.vsync frequency) = cdvdVsync memory frequency c := rfl

theorem step_valid (h : c.RTC.Valid) {cmd : Command} (hcmd : cmd.Good) :
    (step memory c cmd).RTC.Valid := by
  cases cmd with
  | sceCdWriteRTC Param ParamP => exact (written_valid_iff Param ParamP).2 hcmd
  | sceCdReadRTC => exact h
  | vsync frequency =>
    rw [step_vsync, cdvdVsync]
    split
    · exact h
    · exact tick_valid h

theorem run_valid (h : c.RTC.Valid) (hcmds : ∀ cmd ∈ cmds, cmd.Good) :
    (run memory c cmds).RTC.Valid := by
  induction cmds generalizing c with
  | nil => exact h
  | cons cmd cmds ih =>
    exact ih (step_valid h (hcmds cmd List.mem_cons_self))
      fun other hother => hcmds other (List.mem_cons_of_mem cmd hother)

theorem run_append (c : cdvdStruct) (pre post : List Command) :
    run memory c (pre ++ post) = run memory (run memory c pre) post := List.foldl_append ..

theorem offset_mod (h : r.Valid) : offset r.date % century = offset r.date :=
  Nat.mod_eq_of_lt (offset_lt h)

theorem offset_step (h : c.RTC.Valid) {cmd : Command} (hcmd : cmd.isWrite = false) :
    offset (step memory c cmd).RTC.date = (offset c.RTC.date + tickOf c cmd) % century := by
  cases cmd with
  | sceCdWriteRTC Param ParamP => cases hcmd
  | sceCdReadRTC =>
    have hnone : tickOf c .sceCdReadRTC = 0 := rfl
    rw [hnone, Nat.add_zero, offset_mod h, step]
  | vsync frequency =>
    rw [step_vsync, cdvdVsync, tickOf]
    by_cases hlt : c.RTCcount + 1 < frequency
    · rw [if_pos hlt, if_pos hlt, Nat.add_zero, offset_mod h]
    · rw [if_neg hlt, if_neg hlt]
      exact offset_tick h

theorem offset_run (h : c.RTC.Valid) (hcmds : ∀ cmd ∈ cmds, cmd.isWrite = false) :
    offset (run memory c cmds).RTC.date = (offset c.RTC.date + ticks memory c cmds) % century := by
  induction cmds generalizing c with
  | nil => rw [run, List.foldl_nil, ticks, Nat.add_zero, offset_mod h]
  | cons cmd cmds ih =>
    have hcmd := hcmds cmd List.mem_cons_self
    have hgood : cmd.Good := by
      cases cmd with
      | sceCdWriteRTC Param ParamP => cases hcmd
      | sceCdReadRTC => trivial
      | vsync frequency => trivial
    have hrest := ih (@step_valid memory c h cmd hgood)
      fun other hother => hcmds other (List.mem_cons_of_mem cmd hother)
    refine hrest.trans ?_
    rw [offset_step h hcmd, Nat.mod_add_mod, Nat.add_assoc, ticks]

theorem step_RTCcount (h : 0 ≤ c.RTCcount) (cmd : Command) :
    0 ≤ (step memory c cmd).RTCcount := by
  cases cmd with
  | sceCdWriteRTC Param ParamP => exact h
  | sceCdReadRTC => exact h
  | vsync frequency =>
    rw [step_vsync, cdvdVsync]
    split
    · exact Int.add_nonneg h Int.one_nonneg
    · exact Int.le_refl 0

theorem run_RTCcount (h : 0 ≤ c.RTCcount) (cmds : List Command) :
    0 ≤ (run memory c cmds).RTCcount := by
  induction cmds generalizing c with
  | nil => exact h
  | cons cmd cmds ih => exact ih (step_RTCcount h cmd)

theorem ticks_eq {frequency : Int} (h : 0 ≤ c.RTCcount) (hlt : c.RTCcount < frequency)
    (hcmds : ∀ f, .vsync f ∈ cmds → f = frequency) :
    (ticks memory c cmds : Int) = (c.RTCcount + vsyncs cmds) / frequency := by
  induction cmds generalizing c with
  | nil =>
    change 0 = (c.RTCcount + 0) / frequency
    rw [Int.add_zero, Int.ediv_eq_zero_of_lt h hlt]
  | cons cmd cmds ih =>
    have hrest := fun f hf => hcmds f (List.mem_cons_of_mem cmd hf)
    rw [ticks, Nat.cast_add]
    cases cmd with
    | sceCdWriteRTC Param ParamP => exact (Int.zero_add _).trans (ih h hlt hrest)
    | sceCdReadRTC => exact (Int.zero_add _).trans (ih h hlt hrest)
    | vsync f =>
      obtain rfl := hcmds f List.mem_cons_self
      have hcount : vsyncs (.vsync f :: cmds) = vsyncs cmds + 1 :=
        List.countP_cons_of_pos rfl
      rw [step_vsync, cdvdVsync, tickOf, hcount]
      by_cases hnext : c.RTCcount + 1 < f
      · rw [if_pos hnext, if_pos hnext, ih (Int.add_nonneg h Int.one_nonneg) hnext hrest]
        push_cast
        rw [Int.zero_add]
        congr 1
        omega
      · have hfreq : c.RTCcount + 1 = f := by omega
        have hpos : 0 < f := by omega
        rw [if_neg hnext, if_neg hnext, ih (Int.le_refl 0) hpos hrest]
        have hsum : c.RTCcount + ((vsyncs cmds + 1 : Nat) : Int) = vsyncs cmds + 1 * f := by
          push_cast
          omega
        rw [hsum, Int.add_mul_ediv_right _ _ hpos.ne', Int.zero_add, Int.add_comm]
        rfl

theorem dateBcd_eq (h : r.Valid) : sceCdReadRTC r = dateBcd r.date := by
  have hu8 {n : Nat} (hn : n < 100) : u8 (itob n) = bcd n := by
    unfold u8 itob bcd
    omega
  have hsecond : r.second < 60 := h.date.second
  have hminute : r.minute < 60 := h.date.minute
  have hhour : r.hour < 24 := h.date.hour
  have hmonth : r.month ≤ 12 := h.date.month.2
  have hday : r.day ≤ daysIn (2000 + r.year) r.month := h.date.day.2
  have hdays : daysIn (2000 + r.year) r.month ≤ 31 := by
    unfold daysIn
    split_ifs <;> decide
  have hyear : (2000 + r.year) % 100 = r.year := by
    have hlt := h.year
    omega
  rw [sceCdReadRTC, hu8 (by omega), hu8 (by omega), hu8 (by omega), hu8 (by omega),
    hu8 (by omega), hu8 h.year]
  simp only [dateBcd, cdvdRTC.date, hyear]

theorem cdvdReset_valid {host : DateTime} (h : host.Valid) (hlow : 2000 ≤ host.year)
    (hhigh : host.year < 2100) : (cdvdReset host).RTC.Valid := by
  have hu8 {n : Nat} (hn : n < 256) : u8 n = n := Nat.mod_eq_of_lt hn
  have hdays : daysIn host.year host.month ≤ 31 := by
    unfold daysIn
    split_ifs <;> decide
  have hsecond := h.second
  have hminute := h.minute
  have hhour := h.hour
  have hmonth := h.month
  have hday := h.day
  have hdate : (cdvdReset host).RTC.date = host := by
    rw [cdvdReset, cdvdRTC.date, hu8 (by omega), hu8 (by omega), hu8 (by omega), hu8 (by omega),
      hu8 (by omega), hu8 (by omega), Nat.add_sub_cancel' hlow]
  have hyear : (cdvdReset host).RTC.year = host.year - 2000 := by
    simp only [cdvdReset]
    rw [hu8 (by omega)]
  refine ⟨?_, ?_⟩
  · rw [hdate]
    exact h
  · rw [hyear]
    omega

theorem keeps_of_good (memory : Int → Nat) (h : c.RTC.Valid) (hcount : 0 ≤ c.RTCcount)
    (hgood : ∀ cmd ∈ cmds, cmd.Good) : Keeps memory c cmds where
  valid pre post hcmds :=
    run_valid h fun cmd hcmd => hgood cmd (hcmds ▸ List.mem_append_left post hcmd)
  index pre post hcmds := by
    have hvalid : (run memory c pre).RTC.Valid :=
      run_valid h fun cmd hcmd => hgood cmd (hcmds ▸ List.mem_append_left post hcmd)
    have hmonth : 1 ≤ (run memory c pre).RTC.month ∧ (run memory c pre).RTC.month ≤ 12 :=
      hvalid.date.month
    omega
  law pre Param ParamP mid post hcmds hmid := by
    have hwrite : (Command.sceCdWriteRTC Param ParamP).Good := hgood _ (by simp [hcmds])
    have hpre := (written_valid_iff Param ParamP).2 hwrite
    have hstart : (run memory c (pre ++ [.sceCdWriteRTC Param ParamP])).RTC =
        written Param ParamP := by
      rw [run_append]
      rfl
    have hend : run memory c (pre ++ .sceCdWriteRTC Param ParamP :: mid) =
        run memory (run memory c (pre ++ [.sceCdWriteRTC Param ParamP])) mid := by
      rw [← run_append, List.append_assoc, List.singleton_append]
    have hfrom : (run memory c (pre ++ [.sceCdWriteRTC Param ParamP])).RTC.Valid := by
      rw [hstart]
      exact hpre
    have hmids (cmd : Command) (hcmd : cmd ∈ mid) : cmd.Good := hgood cmd (by simp [hcmds, hcmd])
    have hvalid := @run_valid memory _ mid hfrom hmids
    refine ⟨_, hvalid.date, Nat.le_add_right .., Nat.add_lt_add_left hvalid.year 2000, ?_, ?_⟩
    · rw [offset_run hfrom hmid, hstart]
    · rw [hend, dateBcd_eq hvalid]
  rate pre mid post frequency _ hfreq hlt := ticks_eq (run_RTCcount hcount pre) hlt hfreq

/-- The clock is a calendar in the runs that write dates. -/
theorem keepsTime_iff (memory : Int → Nat) (host : DateTime) (h : host.Valid)
    (hlow : 2000 ≤ host.year) (hhigh : host.year < 2100) (cmds : List Command) :
    Keeps memory (cdvdReset host) cmds ↔ ∀ cmd ∈ cmds, cmd.Good := by
  refine ⟨fun hkeeps cmd hcmd => ?_,
    keeps_of_good memory (cdvdReset_valid h hlow hhigh) (Int.le_refl 0)⟩
  cases cmd with
  | sceCdWriteRTC Param ParamP =>
    obtain ⟨pre, post, rfl⟩ := List.append_of_mem hcmd
    have hvalid := hkeeps.valid (pre ++ [.sceCdWriteRTC Param ParamP]) post (by simp)
    rw [run_append] at hvalid
    exact (written_valid_iff Param ParamP).1 hvalid
  | sceCdReadRTC => trivial
  | vsync frequency => trivial

/-- The eve of a leap day, and one second. -/
theorem keepsTime_iff_leap : ∃ cmds : List Command, cmds.length = 2 ∧
    Keeps (fun _ => 0) (cdvdReset ⟨2026, 1, 1, 0, 0, 0⟩) cmds := by
  refine ⟨[.sceCdWriteRTC (fun i => [0x59#8, 0x59#8, 0x23#8, 0#8, 0x28#8, 0x02#8, 0x24#8].getD
    i.toNat 0) 7, .vsync 1], rfl, ?_⟩
  have hvalid : DateTime.Valid ⟨2026, 1, 1, 0, 0, 0⟩ :=
    ⟨by decide, by decide, by decide, by decide, by decide⟩
  refine (keepsTime_iff _ _ hvalid (by decide) (by decide) _).2 fun cmd hcmd => ?_
  rcases List.mem_cons.1 hcmd with rfl | hcmd
  · exact ⟨by decide, by decide, by decide, by decide⟩
  · obtain rfl := List.mem_singleton.1 hcmd
    trivial

/-- Seven zero bytes: a clock with no day and no month. -/
theorem not_keepsTime : ¬ Keeps (fun _ => 0) (cdvdReset ⟨2026, 1, 1, 0, 0, 0⟩)
    [.sceCdWriteRTC (fun _ => 0) 7] := by
  intro h
  have hmonth : 1 ≤ (written (fun _ => 0) 7).month :=
    (h.valid [.sceCdWriteRTC (fun _ => 0) 7] [] rfl).date.month.1
  exact absurd hmonth (by decide)

end

end OmegaRed.CDVD.Rtc
