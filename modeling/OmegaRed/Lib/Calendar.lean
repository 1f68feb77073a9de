import Mathlib.Order.Monotone.Basic
import Mathlib.Tactic.Common

/-! The Gregorian calendar, by the seconds since its year 0. -/

namespace OmegaRed.Lib.Calendar

structure DateTime where
  year : Nat
  month : Nat
  day : Nat
  hour : Nat
  minute : Nat
  second : Nat

def Leap (y : Nat) : Prop := y % 4 = 0 ∧ (y % 100 ≠ 0 ∨ y % 400 = 0)

instance (y : Nat) : Decidable (Leap y) := inferInstanceAs (Decidable (_ ∧ _))

def daysIn (y m : Nat) : Nat :=
  if m = 0 then 0
  else if m = 2 then if Leap y then 29 else 28
  else if m = 4 ∨ m = 6 ∨ m = 9 ∨ m = 11 then 30
  else 31

def yearLength (y : Nat) : Nat := if Leap y then 366 else 365

def daysBeforeYear (y : Nat) : Nat := 365 * y + (y + 3) / 4 - (y + 99) / 100 + (y + 399) / 400

def daysBeforeMonth (y : Nat) : Nat → Nat
  | 0 => 0
  | m + 1 => daysBeforeMonth y m + daysIn y m

namespace DateTime

structure Valid (d : DateTime) : Prop where
  month : 1 ≤ d.month ∧ d.month ≤ 12
  day : 1 ≤ d.day ∧ d.day ≤ daysIn d.year d.month
  hour : d.hour < 24
  minute : d.minute < 60
  second : d.second < 60

variable (d : DateTime)

def days : Nat := daysBeforeYear d.year + (daysBeforeMonth d.year d.month + (d.day - 1))

def seconds : Nat := ((d.days * 24 + d.hour) * 60 + d.minute) * 60 + d.second

/-- The day after, at its start. -/
def nextDay : DateTime :=
  if d.day + 1 ≤ daysIn d.year d.month then ⟨d.year, d.month, d.day + 1, 0, 0, 0⟩
  else if d.month + 1 ≤ 12 then ⟨d.year, d.month + 1, 1, 0, 0, 0⟩
  else ⟨d.year + 1, 1, 1, 0, 0, 0⟩

/-- The second after. -/
def next : DateTime :=
  if d.second + 1 < 60 then { d with second := d.second + 1 }
  else if d.minute + 1 < 60 then { d with minute := d.minute + 1, second := 0 }
  else if d.hour + 1 < 24 then { d with hour := d.hour + 1, minute := 0, second := 0 }
  else d.nextDay

end DateTime

variable {y m n a b : Nat} {f len : Nat → Nat}

/-- One more year, of a leap rule. -/
theorem years_succ (y k : Nat) :
    (y + 1 + k) / (k + 1) = (y + k) / (k + 1) + if y % (k + 1) = 0 then 1 else 0 := by
  have hsucc := @Nat.succ_div (y + k) (k + 1)
  rw [Nat.add_right_comm, hsucc, Nat.add_assoc]
  simp only [Nat.dvd_iff_mod_eq_zero, Nat.add_mod_right]

theorem daysBeforeYear_succ (y : Nat) :
    daysBeforeYear (y + 1) = daysBeforeYear y + yearLength y := by
  have h4 : (y + 1 + 3) / 4 = (y + 3) / 4 + if y % 4 = 0 then 1 else 0 := years_succ y 3
  have h100 : (y + 1 + 99) / 100 = (y + 99) / 100 + if y % 100 = 0 then 1 else 0 :=
    years_succ y 99
  have h400 : (y + 1 + 399) / 400 = (y + 399) / 400 + if y % 400 = 0 then 1 else 0 :=
    years_succ y 399
  have hle : (y + 99) / 100 ≤ y := by omega
  have hcent : y % 100 = 0 → y % 4 = 0 := by omega
  have hgreg : y % 400 = 0 → y % 100 = 0 := by omega
  unfold daysBeforeYear yearLength
  rw [h4, h100, h400]
  generalize (y + 3) / 4 = q4
  generalize (y + 99) / 100 = q100 at *
  generalize (y + 399) / 400 = q400
  by_cases hleap : Leap y
  · obtain ⟨hfour, hcentury⟩ := id hleap
    rw [if_pos hleap, if_pos hfour]
    rcases hcentury with hcentury | hcentury
    · rw [if_neg hcentury, if_neg (fun h => hcentury (hgreg h))]
      omega
    · rw [if_pos hcentury, if_pos (hgreg hcentury)]
      omega
  · rw [if_neg hleap]
    unfold Leap at hleap
    by_cases hfour : y % 4 = 0
    · have hcentury : y % 100 = 0 := by
        by_contra hne
        exact hleap ⟨hfour, .inl hne⟩
      rw [if_pos hfour, if_pos hcentury, if_neg (fun h => hleap ⟨hfour, .inr h⟩)]
      omega
    · rw [if_neg hfour, if_neg (fun h => hfour (hcent h)),
        if_neg (fun h => hfour (hcent (hgreg h)))]
      omega

theorem daysBeforeMonth_13 (y : Nat) : daysBeforeMonth y 13 = yearLength y := by
  unfold yearLength
  by_cases hleap : Leap y
  · simp [daysBeforeMonth, daysIn, hleap]
  · simp [daysBeforeMonth, daysIn, hleap]

theorem daysBeforeMonth_mono (y : Nat) : Monotone (daysBeforeMonth y) :=
  monotone_nat_of_le_succ fun _ => Nat.le_add_right ..

namespace DateTime

variable {d d' : DateTime}

/-- The day in the year. -/
theorem Valid.dayOfYear_lt (h : d.Valid) :
    daysBeforeMonth d.year d.month + (d.day - 1) < yearLength d.year := by
  have hmonth : daysBeforeMonth d.year (d.month + 1) ≤ daysBeforeMonth d.year 13 :=
    daysBeforeMonth_mono _ (Nat.succ_le_succ h.month.2)
  have hday := h.day
  rw [daysBeforeMonth_13, daysBeforeMonth] at hmonth
  omega

theorem days_nextDay (h : d.Valid) : d.nextDay.days = d.days + 1 := by
  have hday := h.day
  unfold nextDay
  by_cases hlast : d.day + 1 ≤ daysIn d.year d.month
  · rw [if_pos hlast]
    simp only [days]
    omega
  rw [if_neg hlast]
  by_cases hmonth : d.month + 1 ≤ 12
  · rw [if_pos hmonth]
    simp only [days, daysBeforeMonth]
    omega
  · have hdec : d.month = 12 := by
      have hle := h.month.2
      omega
    have hend := daysBeforeMonth_13 d.year
    rw [daysBeforeMonth, ← hdec] at hend
    rw [if_neg hmonth]
    simp only [days, daysBeforeYear_succ, daysBeforeMonth]
    rw [← hend, show daysIn (d.year + 1) 0 = 0 from rfl]
    omega

theorem nextDay_valid (h : d.Valid) : d.nextDay.Valid := by
  unfold nextDay
  have hpos (y m : Nat) (hm : 1 ≤ m) : 1 ≤ daysIn y m := by
    unfold daysIn
    split
    · omega
    · split_ifs <;> decide
  have h24 : 0 < 24 := by decide
  have h60 : 0 < 60 := by decide
  split
  · exact ⟨h.month, ⟨Nat.le_add_left .., ‹_›⟩, h24, h60, h60⟩
  split
  · exact ⟨⟨Nat.le_add_left .., ‹_›⟩, ⟨Nat.le_refl _, hpos _ _ (Nat.le_add_left ..)⟩, h24, h60, h60⟩
  · exact ⟨⟨Nat.le_refl 1, Nat.le_add_left 1 11⟩, ⟨Nat.le_refl _, hpos _ _ (Nat.le_refl _)⟩, h24,
      h60, h60⟩

theorem nextDay_time (d : DateTime) :
    d.nextDay.hour = 0 ∧ d.nextDay.minute = 0 ∧ d.nextDay.second = 0 := by
  unfold nextDay
  split_ifs <;> exact ⟨rfl, rfl, rfl⟩

theorem next_valid (h : d.Valid) : d.next.Valid := by
  have h60 : 0 < 60 := by decide
  unfold next
  split
  · exact ⟨h.month, h.day, h.hour, h.minute, ‹_›⟩
  split
  · exact ⟨h.month, h.day, h.hour, ‹_›, h60⟩
  split
  · exact ⟨h.month, h.day, ‹_›, h60, h60⟩
  · exact nextDay_valid h

theorem seconds_next (h : d.Valid) : d.next.seconds = d.seconds + 1 := by
  have hsecond := h.second
  have hminute := h.minute
  have hhour := h.hour
  unfold next
  split
  · simp only [seconds, days]
    omega
  split
  · simp only [seconds, days]
    omega
  split
  · simp only [seconds, days]
    omega
  · obtain ⟨hh, hm, hs⟩ := nextDay_time d
    rw [seconds, seconds, days_nextDay h, hh, hm, hs]
    omega

end DateTime

end OmegaRed.Lib.Calendar
