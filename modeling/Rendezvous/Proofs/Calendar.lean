import Rendezvous.Time.Calendar

/-!
# Dates and days

`Date.ofDays` takes a count of days apart into 400-year cycles, centuries, four-year cycles, years
and days. The date it makes of them exists and has the count of days that it was made of, and later
days have later dates.
-/

namespace Rendezvous.Date

/-- The date of a day of a year that begins with March. -/
def ofParts (cycle : Int) (century four one day : Nat) : Date :=
  let month := (5 * day + 2) / 153
  let year := cycle * 400 + (century * 100 + four * 4 + one : Nat)
  { year := if month < 10 then year else year + 1
    month := if month < 10 then month + 3 else month - 9
    day := day - (153 * month + 2) / 5 + 1 }

structure Parts (days cycle : Int) (century four one day : Nat) : Prop where
  sum : days + 719468
    = cycle * 146097 + (century * 36524 + four * 1461 + one * 365 + day : Nat)
  century_le : century ≤ 3
  four_le : four ≤ 24
  one_le : one ≤ 3
  day_le : day ≤ 365
  /-- A leap day ends four years, and a century only when it ends the cycle as well. -/
  leap : day = 365 → one = 3 ∧ (four = 24 → century = 3)

theorem exists_parts (days : Int) : ∃ cycle century four one day,
    Parts days cycle century four one day ∧ ofDays days = ofParts cycle century four one day := by
  let r := ((days + 719468) % 146097).toNat
  let century := if 3 < r / 36524 then 3 else r / 36524
  let r' := r - century * 36524
  let one := if 3 < r' % 1461 / 365 then 3 else r' % 1461 / 365
  have hr : (r : Int) = (days + 719468) % 146097 := by omega
  have hcentury : century ≤ 3 ∧ century * 36524 ≤ r ∧ r' < 36525 ∧
      (century < 3 → r' < 36524) := by
    simp only [r', century]
    split <;> omega
  have hone : one ≤ 3 ∧ one * 365 ≤ r' % 1461 ∧ r' % 1461 - one * 365 ≤ 365 ∧
      (r' % 1461 - one * 365 = 365 → one = 3) := by
    simp only [one]
    split <;> omega
  refine ⟨(days + 719468) / 146097, century, r' / 1461, one, r' % 1461 - one * 365,
    ⟨?_, hcentury.1, by omega, hone.1, hone.2.2.1, fun h => ⟨hone.2.2.2 h, fun hf => ?_⟩⟩, rfl⟩
  · omega
  · have := hone.2.2.2 h
    omega

variable {days cycle : Int} {century four one day : Nat}

theorem Parts.isLeapYear (h : Parts days cycle century four one day) (hday : day = 365) :
    Rendezvous.isLeapYear (cycle * 400 + (century * 100 + four * 4 + one : Nat) + 1) = true := by
  obtain ⟨hone, hfour⟩ := h.leap hday
  have := h.four_le
  have := h.century_le
  simp only [Rendezvous.isLeapYear, Bool.and_eq_true, Bool.or_eq_true, beq_iff_eq, bne_iff_ne]
  refine ⟨by omega, ?_⟩
  by_cases h4 : four = 24
  · have := hfour h4
    exact .inr (by omega)
  · exact .inl (by omega)

theorem daysInMonth_of_ne {year : Int} {month : Nat} (h : month ≠ 2) :
    daysInMonth year month = if month = 4 ∨ month = 6 ∨ month = 9 ∨ month = 11 then 30 else 31 := by
  unfold daysInMonth
  split
  · exact absurd rfl h
  · rfl
  · rfl
  · rfl
  · rfl
  · next h4 h6 h9 h11 =>
    rw [if_neg]
    rintro (rfl | rfl | rfl | rfl)
    · exact h4 rfl
    · exact h6 rfl
    · exact h9 rfl
    · exact h11 rfl

theorem Parts.valid (h : Parts days cycle century four one day) :
    (ofParts cycle century four one day).Valid := by
  have hle := h.day_le
  have hmonth : (5 * day + 2) / 153 ≤ 11 := by omega
  simp only [Valid, ofParts]
  generalize hm : (5 * day + 2) / 153 = month at *
  by_cases hfeb : month = 11
  · subst hfeb
    by_cases hday : day = 365
    · simp only [h.isLeapYear hday, daysInMonth, if_neg (by omega : ¬ 11 < 10), if_true]
      omega
    · simp only [daysInMonth, if_neg (by omega : ¬ 11 < 10)]
      split <;> omega
  · have hne : (if month < 10 then month + 3 else month - 9) ≠ 2 := by
      split <;> omega
    rw [daysInMonth_of_ne hne]
    have hlt : month < 11 := by omega
    have hlength : day - (153 * month + 2) / 5 + 1
        ≤ (153 * (month + 1) + 2) / 5 - (153 * month + 2) / 5 := by omega
    have hfirst : 1 ≤ if month < 10 then month + 3 else month - 9 := by
      split <;> omega
    have hlast : (if month < 10 then month + 3 else month - 9) ≤ 12 := by
      split <;> omega
    have hmonths : ∀ month < 11, (153 * (month + 1) + 2) / 5 - (153 * month + 2) / 5
        ≤ let named := if month < 10 then month + 3 else month - 9
          if named = 4 ∨ named = 6 ∨ named = 9 ∨ named = 11 then 30 else 31 := by decide
    exact ⟨hfirst, hlast, by omega, Nat.le_trans hlength (hmonths month hlt)⟩

/-- The days of a year that begins with March, and of its days before a month. -/
theorem toDays_shifted {year : Int} {month day : Nat} (hmonth : month ≤ 11) :
    toDays ⟨if month < 10 then year else year + 1, if month < 10 then month + 3 else month - 9, day⟩
      = year * 365 + year / 4 - year / 100 + year / 400
        + ((153 * month + 2) / 5 + day - 1) - 719468 := by
  by_cases h : month < 10
  · simp only [toDays, if_pos h, if_neg (by omega : ¬ month + 3 ≤ 2), Nat.add_sub_cancel]
  · simp only [toDays, if_neg h, if_pos (by omega : month - 9 ≤ 2), Int.add_sub_cancel]
    omega

theorem Parts.toDays (h : Parts days cycle century four one day) :
    (ofParts cycle century four one day).toDays = days := by
  have hsum := h.sum
  have hcentury := h.century_le
  have hfour := h.four_le
  have hone := h.one_le
  have hday := h.day_le
  rw [ofParts, toDays_shifted (by omega)]
  generalize hyear : (cycle * 400 + (century * 100 + four * 4 + one : Nat)) = year
  have h4 : year / 4 = cycle * 100 + (century * 25 + four : Nat) := by omega
  have h100 : year / 100 = cycle * 4 + century := by omega
  have h400 : year / 400 = cycle := by omega
  rw [h4, h100, h400]
  omega

theorem valid_ofDays (days : Int) : (ofDays days).Valid := by
  obtain ⟨cycle, century, four, one, day, h, he⟩ := exists_parts days
  rw [he]
  exact h.valid

theorem toDays_ofDays (days : Int) : (ofDays days).toDays = days := by
  obtain ⟨cycle, century, four, one, day, h, he⟩ := exists_parts days
  rw [he]
  exact h.toDays

/-! ## Order -/

/-- The date is earlier: by its year, then by its month, then by its day. -/
def Before (a b : Date) : Prop :=
  a.year < b.year ∨ a.year = b.year ∧ (a.month < b.month ∨ a.month = b.month ∧ a.day < b.day)

theorem before_trichotomy (a b : Date) : a.Before b ∨ a = b ∨ b.Before a := by
  obtain ⟨year, month, day⟩ := a
  obtain ⟨year', month', day'⟩ := b
  simp only [Before, Date.mk.injEq]
  omega

/-- The year of a date, when years begin with March. -/
def shiftedYear (d : Date) : Int := if d.month ≤ 2 then d.year - 1 else d.year

def shiftedMonth (d : Date) : Nat := if d.month ≤ 2 then d.month + 9 else d.month - 3

/-- The days of a date since the first March of its shifted year, counted from one. -/
def dayOfYear (d : Date) : Nat := (153 * d.shiftedMonth + 2) / 5 + d.day

/-- The days before a shifted year. -/
def daysBefore (year : Int) : Int := year * 365 + year / 4 - year / 100 + year / 400

theorem toDays_eq (d : Date) :
    d.toDays = daysBefore d.shiftedYear + (d.dayOfYear - 1) - 719468 := by
  simp only [toDays, daysBefore, dayOfYear, shiftedYear, shiftedMonth]
  omega

theorem daysBefore_succ (year : Int) :
    daysBefore (year + 1) = daysBefore year + if isLeapYear (year + 1) then 366 else 365 := by
  simp only [daysBefore, isLeapYear, Bool.and_eq_true, Bool.or_eq_true, beq_iff_eq, bne_iff_ne]
  split <;> omega

theorem daysBefore_mono {a b : Int} (h : a ≤ b) : daysBefore a ≤ daysBefore b := by
  simp only [daysBefore]
  omega

/-- A month ends before the next one begins; February is the last month of a shifted year. -/
theorem Valid.dayOfYear_le {d : Date} (h : d.Valid) (hm : d.shiftedMonth < 11) :
    d.dayOfYear ≤ (153 * (d.shiftedMonth + 1) + 2) / 5 := by
  obtain ⟨hlow, hhigh, -, hday⟩ := h
  have hne : d.month ≠ 2 := by
    intro h2
    simp [shiftedMonth, h2] at hm
  rw [daysInMonth_of_ne hne] at hday
  have hmonths : ∀ month < 13, 1 ≤ month → month ≠ 2 →
      let shifted := if month ≤ 2 then month + 9 else month - 3
      (153 * shifted + 2) / 5
          + (if month = 4 ∨ month = 6 ∨ month = 9 ∨ month = 11 then 30 else 31)
        ≤ (153 * (shifted + 1) + 2) / 5 := by decide
  exact Nat.le_trans (Nat.add_le_add_left hday _) (hmonths d.month (by omega) hlow hne)

theorem Valid.dayOfYear_le_year {d : Date} (h : d.Valid) :
    d.dayOfYear ≤ if isLeapYear (d.shiftedYear + 1) then 366 else 365 := by
  by_cases hm : d.shiftedMonth < 11
  · have hle := h.dayOfYear_le hm
    split <;> omega
  · obtain ⟨hlow, hhigh, -, hday⟩ := h
    have h2 : d.month = 2 := by
      simp only [shiftedMonth] at hm
      split at hm <;> omega
    rw [h2] at hday
    simp only [dayOfYear, shiftedYear, shiftedMonth, h2, Nat.le_refl, if_true, Int.sub_add_cancel]
    simp only [daysInMonth] at hday
    by_cases hleap : isLeapYear d.year = true
    · rw [if_pos hleap] at hday ⊢
      omega
    · rw [if_neg hleap] at hday ⊢
      omega

theorem Before.shifted {a b : Date} (ha : a.Valid) (hb : b.Valid) (h : a.Before b) :
    a.shiftedYear < b.shiftedYear ∨
      a.shiftedYear = b.shiftedYear ∧ a.dayOfYear < b.dayOfYear := by
  have hmonth : a.shiftedYear < b.shiftedYear ∨ a.shiftedYear = b.shiftedYear ∧
      (a.shiftedMonth < b.shiftedMonth ∨ a.shiftedMonth = b.shiftedMonth ∧ a.day < b.day) := by
    obtain ⟨ha1, ha2, -⟩ := ha
    obtain ⟨hb1, hb2, -⟩ := hb
    simp only [Before] at h
    simp only [shiftedYear, shiftedMonth]
    split <;> split <;> omega
  rcases hmonth with hyear | ⟨hyear, hmonth | ⟨hmonth, hday⟩⟩
  · exact .inl hyear
  · have hlast : b.shiftedMonth ≤ 11 := by
      have := hb.2.1
      simp only [shiftedMonth]
      split <;> omega
    have hle := ha.dayOfYear_le (by omega)
    have hfirst := hb.2.2.1
    refine .inr ⟨hyear, ?_⟩
    simp only [dayOfYear] at hle ⊢
    omega
  · refine .inr ⟨hyear, ?_⟩
    simp only [dayOfYear, hmonth]
    omega

theorem toDays_lt_of_before {a b : Date} (ha : a.Valid) (hb : b.Valid) (h : a.Before b) :
    a.toDays < b.toDays := by
  have hpos : 1 ≤ b.dayOfYear := Nat.le_trans hb.2.2.1 (Nat.le_add_left ..)
  rw [toDays_eq, toDays_eq]
  rcases h.shifted ha hb with hyear | ⟨hyear, hday⟩
  · have hle := ha.dayOfYear_le_year
    have hsucc := daysBefore_succ a.shiftedYear
    have hmono : daysBefore (a.shiftedYear + 1) ≤ daysBefore b.shiftedYear := daysBefore_mono hyear
    by_cases hleap : isLeapYear (a.shiftedYear + 1) = true
    · rw [if_pos hleap] at hle hsucc
      omega
    · rw [if_neg hleap] at hle hsucc
      omega
  · rw [hyear]
    omega

theorem before_ofDays {m n : Int} (h : m < n) : (ofDays m).Before (ofDays n) := by
  rcases before_trichotomy (ofDays m) (ofDays n) with hlt | heq | hgt
  · exact hlt
  · have heq' := congrArg toDays heq
    rw [toDays_ofDays, toDays_ofDays] at heq'
    omega
  · have hgt' := toDays_lt_of_before (valid_ofDays n) (valid_ofDays m) hgt
    rw [toDays_ofDays, toDays_ofDays] at hgt'
    omega

end Rendezvous.Date
