import Rendezvous.Proofs.Bytes
import Rendezvous.Proofs.Calendar
import Rendezvous.Proofs.Listing
import Rendezvous.Time.Stamp
import Rendezvous.Time.Strict

/-!
# Stored instants

An instant of the years 0000 to 9999 is read back from its full form as it was, and the order of
full forms as texts is the order of instants.
-/

namespace Rendezvous

namespace Stamp

theorem exactDigits_fixedBytes {width n : Nat} (h : n < 10 ^ width) (rest : List UInt8) :
    exactDigits width (Decimal.fixedBytes width n ++ rest) = .ok (n, rest) := by
  have hlength := Decimal.length_fixedBytes width n
  have htake : (Decimal.fixedBytes width n ++ rest).take width = Decimal.fixedBytes width n :=
    List.take_left' hlength
  have hdrop : (Decimal.fixedBytes width n ++ rest).drop width = rest :=
    List.drop_left' hlength
  simp only [exactDigits, htake, hdrop, hlength, Decimal.all_isDigit_fixedBytes,
    Decimal.value_fixedBytes h, and_self, if_true]

end Stamp

/-! ## Reading what was written -/

/-- The instant lies in the years 0000 to 9999. -/
def Instant.Storable (t : Instant) : Prop := 0 ≤ t.date.year ∧ t.date.year ≤ 9999

instance (t : Instant) : Decidable t.Storable := inferInstanceAs (Decidable (_ ∧ _))

namespace Stamp

/-- The second that is written: one more in a leap second. -/
def writtenSecond (t : Instant) : Nat :=
  if t.isLeap then t.secondOfDay % 60 + 1 else t.secondOfDay % 60

def yearNumber (t : Instant) : Nat := t.date.year.toNat

theorem yearDigits_eq {t : Instant} (h : t.Storable) :
    yearDigits t.date.year = Decimal.fixedDigits 4 (yearNumber t) :=
  if_pos h

theorem full_eq {t : Instant} (h : t.Storable) : full t = String.ofList
    (Decimal.fixedDigits 4 (yearNumber t) ++ '-' :: (Decimal.fixedDigits 2 t.date.month ++
      '-' :: (Decimal.fixedDigits 2 t.date.day ++
        'T' :: (Decimal.fixedDigits 2 (t.secondOfDay / 3600) ++
          ':' :: (Decimal.fixedDigits 2 (t.secondOfDay / 60 % 60) ++
            ':' :: (Decimal.fixedDigits 2 (writtenSecond t) ++
              '.' :: (Decimal.fixedDigits 9 (fraction t) ++ ['Z']))))))) := by
  simp only [full, wholeDigits, yearDigits_eq h, List.append_assoc, List.cons_append]
  rfl

theorem encode_full {t : Instant} (h : t.Storable) : Utf8.encode (full t) =
    Decimal.fixedBytes 4 (yearNumber t) ++ 0x2D :: (Decimal.fixedBytes 2 t.date.month ++
      0x2D :: (Decimal.fixedBytes 2 t.date.day ++
        0x54 :: (Decimal.fixedBytes 2 (t.secondOfDay / 3600) ++
          0x3A :: (Decimal.fixedBytes 2 (t.secondOfDay / 60 % 60) ++
            0x3A :: (Decimal.fixedBytes 2 (writtenSecond t) ++
              0x2E :: (Decimal.fixedBytes 9 (fraction t) ++ [0x5A])))))) := by
  simp only [full_eq h, Utf8.encode, String.toList_ofList, List.flatMap_append, List.flatMap_cons,
    List.flatMap_nil]
  rfl

theorem number_fixedBytes {width most n : Nat} {tail : List UInt8} (h : n < 10 ^ width)
    (hpos : 0 < width) (hle : width ≤ most)
    (htail : ∀ b ∈ tail.head?, Decimal.isDigit b = false) :
    number most (Decimal.fixedBytes width n ++ tail) = .ok (n, tail) := by
  have hlength := Decimal.length_fixedBytes width n
  have hdigits : ((Decimal.fixedBytes width n ++ tail).take most).takeWhile Decimal.isDigit
      = Decimal.fixedBytes width n := by
    have hmore : (tail.take (most - width)).takeWhile Decimal.isDigit = [] := by
      cases tail with
      | nil => rw [List.take_nil, List.takeWhile_nil]
      | cons b tail =>
        cases most - width with
        | zero => rfl
        | succ more => rw [List.take_succ_cons, List.takeWhile_cons, htail b rfl]; rfl
    rw [List.take_append, hlength, List.take_of_length_le (by omega), List.takeWhile_append_of_pos
      (List.all_eq_true.mp (Decimal.all_isDigit_fixedBytes width n)), hmore, List.append_nil]
  have hne : Decimal.fixedBytes width n ≠ [] := by
    intro hnil
    rw [hnil, List.length_nil] at hlength
    omega
  have hdrop : (Decimal.fixedBytes width n ++ tail).drop width = tail := List.drop_left' hlength
  simp only [number, hdigits, List.isEmpty_iff, List.append_eq_nil_iff, hne, false_and, if_false,
    hlength, hdrop, Decimal.value_fixedBytes h]

theorem optionalFraction_digits {width n : Nat} (h : n < 10 ^ width) (hpos : 0 < width)
    (hle : width ≤ 9) :
    optionalFraction (0x2E :: (Decimal.fixedBytes width n ++ [0x5A]))
      = .ok (n * 10 ^ (9 - width), [0x5A]) := by
  have hnumber : number 9 (Decimal.fixedBytes width n ++ [0x5A]) = .ok (n, [0x5A]) :=
    number_fixedBytes h hpos hle fun b hb => by cases hb; rfl
  have hcount : (Decimal.fixedBytes width n ++ [0x5A]).length - [(0x5A : UInt8)].length
      = width := by
    rw [List.length_append, Decimal.length_fixedBytes, Nat.add_sub_cancel]
  simp only [optionalFraction, nanoseconds, hnumber, ok_bind, hcount]
  rfl

theorem optionalFraction_fixedBytes {n : Nat} (h : n < 10 ^ 9) :
    optionalFraction (0x2E :: (Decimal.fixedBytes 9 n ++ [0x5A])) = .ok (n, [0x5A]) := by
  rw [optionalFraction_digits h (by decide) (by decide), Nat.sub_self, Nat.pow_zero, Nat.mul_one]

theorem fraction_lt (t : Instant) : fraction t < 10 ^ 9 := by
  have hlt := t.nanos_lt
  simp only [fraction, Instant.isLeap, decide_eq_true_eq]
  split <;> omega

theorem nanos_eq (t : Instant) : t.nanos = fraction t + if t.isLeap then 1000000000 else 0 := by
  simp only [fraction, Instant.isLeap, decide_eq_true_eq]
  split <;> omega

theorem secondOfDay_lt (t : Instant) : t.secondOfDay < 86400 := by
  simp only [Instant.secondOfDay]
  omega

/-- A leap second extends the last second of a minute. -/
theorem secondOfDay_of_isLeap {t : Instant} (h : t.isLeap = true) : t.secondOfDay % 60 = 59 := by
  have hleap := t.leap (of_decide_eq_true h)
  simp only [Instant.secondOfDay]
  omega

theorem writtenSecond_le (t : Instant) : writtenSecond t ≤ 60 := by
  simp only [writtenSecond]
  split <;> omega

theorem of?_parts (t : Instant) : Instant.of? t.seconds t.nanos = some t :=
  dif_pos ⟨t.least, t.greatest, t.nanos_lt, t.leap⟩

/-- The date and the time of day that are written for an instant. -/
def partsOf (t : Instant) : Fields :=
  ⟨t.date, t.secondOfDay / 3600, t.secondOfDay / 60 % 60, writtenSecond t, fraction t⟩

theorem exist_partsOf (t : Instant) : (partsOf t).Exist := by
  have hlt := secondOfDay_lt t
  refine ⟨Date.valid_ofDays _, ?_, ?_, writtenSecond_le t⟩
  · simp only [partsOf]
    omega
  · simp only [partsOf]
    omega

theorem instant_partsOf (t : Instant) : (partsOf t).instant? 0 = some t := by
  have hdays : (partsOf t).date.toDays = t.seconds / 86400 := Date.toDays_ofDays _
  have hsecond : (t.secondOfDay : Int) = t.seconds % 86400 := by
    simp only [Instant.secondOfDay]
    omega
  have hwhole : t.seconds / 86400 * 86400 + (t.secondOfDay : Int) - 0 = t.seconds := by omega
  simp only [Fields.instant?, hdays]
  by_cases hleap : t.isLeap = true
  · have h59 := secondOfDay_of_isLeap hleap
    have hnanos : fraction t + 1000000000 = t.nanos := by rw [nanos_eq, if_pos hleap]
    have hsum : t.secondOfDay / 3600 * 3600 + t.secondOfDay / 60 % 60 * 60 + 59
        = t.secondOfDay := by omega
    simp only [partsOf, writtenSecond, if_pos hleap, h59, if_true, hsum, hwhole, hnanos]
    exact of?_parts t
  · have hsum : t.secondOfDay / 3600 * 3600 + t.secondOfDay / 60 % 60 * 60 + t.secondOfDay % 60
        = t.secondOfDay := by omega
    have h60 : ¬ t.secondOfDay % 60 = 60 := by omega
    simp only [partsOf, writtenSecond, fraction, if_neg hleap, if_neg h60, hsum, hwhole,
      Nat.add_zero]
    exact of?_parts t

def fieldsOf (t : Instant) : Fields :=
  ⟨⟨yearNumber t, t.date.month, t.date.day⟩, t.secondOfDay / 3600, t.secondOfDay / 60 % 60,
    writtenSecond t, fraction t⟩

theorem fieldsOf_date {t : Instant} (h : t.Storable) : (fieldsOf t).date = t.date := by
  simp only [fieldsOf, yearNumber, Int.toNat_of_nonneg h.1]

theorem fieldsOf_eq {t : Instant} (h : t.Storable) : fieldsOf t = partsOf t :=
  congrArg (Fields.mk · _ _ _ _) (fieldsOf_date h)

theorem daysInMonth_le (year : Int) (month : Nat) : daysInMonth year month ≤ 31 := by
  unfold daysInMonth
  split
  · split <;> omega
  all_goals omega

/-- Every field but the year fits the digits that it is written with. -/
structure Fits (t : Instant) : Prop where
  month : t.date.month < 10 ^ 2
  day : t.date.day < 10 ^ 2
  hour : t.secondOfDay / 3600 < 10 ^ 2
  minute : t.secondOfDay / 60 % 60 < 10 ^ 2
  second : writtenSecond t < 10 ^ 2
  fraction : fraction t < 10 ^ 9

theorem fits (t : Instant) : Fits t := by
  have hvalid : t.date.Valid := Date.valid_ofDays _
  have hlt := secondOfDay_lt t
  have hle := writtenSecond_le t
  refine ⟨Nat.lt_of_le_of_lt hvalid.2.1 (by decide), ?_, by omega, by omega, by omega,
    fraction_lt t⟩
  exact Nat.lt_of_le_of_lt (Nat.le_trans hvalid.2.2.2 (daysInMonth_le _ _)) (by decide)

theorem yearNumber_lt {t : Instant} (h : t.Storable) : yearNumber t < 10 ^ 4 := by
  have hyear := h.2
  simp only [yearNumber]
  omega

/-- The full form of an instant is read as that instant. -/
theorem strict_full {t : Instant} (h : t.Storable) : strict (full t) = .ok t := by
  have hf := fits t
  have hexist := exist_partsOf t
  have hread := instant_partsOf t
  rw [← fieldsOf_eq h] at hexist hread
  unfold fieldsOf at hexist hread
  have hvalid : (⟨yearNumber t, t.date.month, t.date.day⟩ : Date).Valid := hexist.1
  have hlong : ¬ (Utf8.encode (full t)).length < 19 := by
    rw [encode_full h]
    simp only [List.length_append, List.length_cons, Decimal.length_fixedBytes]
    omega
  rw [strict, strictBytes, if_neg hlong, encode_full h]
  simp only [exactDigits_fixedBytes (yearNumber_lt h), ok_bind, literal, if_true,
    exactDigits_fixedBytes hf.month, exactDigits_fixedBytes hf.day]
  rw [if_neg (not_not_intro hvalid)]
  simp only [dateEnd, ok_bind, exactDigits_fixedBytes hf.hour, exactDigits_fixedBytes hf.minute,
    exactDigits_fixedBytes hf.second, optionalFraction_fixedBytes hf.fraction, if_true]
  rw [if_neg (not_not_intro hexist)]
  simp only [offset, ok_bind, hread]
  rfl

/-! ## The order of texts -/

theorem field_lt {width a b : Nat} {x y : List Char} (mark : Char) (ha : a < 10 ^ width)
    (hb : b < 10 ^ width) (h : a < b ∨ a = b ∧ x < y) :
    Decimal.fixedDigits width a ++ mark :: x < Decimal.fixedDigits width b ++ mark :: y := by
  refine Decimal.fixedDigits_append_lt ha hb (h.imp_right fun hx => ⟨hx.1, ?_⟩)
  exact List.cons_lt_cons_iff.mpr (.inr ⟨rfl, hx.2⟩)

/-- The fields are earlier, the first field in which they differ deciding. -/
def Earlier (f g : Fields) : Prop :=
  f.date.year < g.date.year ∨ f.date.year = g.date.year ∧
    (f.date.month < g.date.month ∨ f.date.month = g.date.month ∧
      (f.date.day < g.date.day ∨ f.date.day = g.date.day ∧
        (f.hour < g.hour ∨ f.hour = g.hour ∧
          (f.minute < g.minute ∨ f.minute = g.minute ∧
            (f.second < g.second ∨ f.second = g.second ∧ f.nanos < g.nanos)))))

variable {a b : Instant}

theorem earlier_fieldsOf (ha : a.Storable) (hb : b.Storable)
    (h : a.seconds < b.seconds ∨ a.seconds = b.seconds ∧ a.nanos < b.nanos) :
    Earlier (fieldsOf a) (fieldsOf b) := by
  simp only [Earlier, fieldsOf_date ha, fieldsOf_date hb]
  by_cases hday : a.seconds / 86400 < b.seconds / 86400
  · rcases Date.before_ofDays hday with hyear | ⟨hyear, hmonth | ⟨hmonth, hlast⟩⟩
    · exact .inl hyear
    · exact .inr ⟨hyear, .inl hmonth⟩
    · exact .inr ⟨hyear, .inr ⟨hmonth, .inl hlast⟩⟩
  · have hdate : a.date = b.date := congrArg Date.ofDays (by omega)
    rw [hdate]
    refine .inr ⟨rfl, .inr ⟨rfl, .inr ⟨rfl, ?_⟩⟩⟩
    have hsa : (a.secondOfDay : Int) = a.seconds - a.seconds / 86400 * 86400 := by
      simp only [Instant.secondOfDay]
      omega
    have hsb : (b.secondOfDay : Int) = b.seconds - b.seconds / 86400 * 86400 := by
      simp only [Instant.secondOfDay]
      omega
    have hhoura : a.secondOfDay / 3600 = a.secondOfDay / 60 / 60 := by omega
    have hhourb : b.secondOfDay / 3600 = b.secondOfDay / 60 / 60 := by omega
    have hnanosa := nanos_eq a
    have hnanosb := nanos_eq b
    have hfa := fraction_lt a
    have hfb := fraction_lt b
    simp only [fieldsOf, writtenSecond]
    -- a leap second is written as second 60 of its minute, after every other one
    by_cases hla : a.isLeap = true
    · have h59 := secondOfDay_of_isLeap hla
      by_cases hlb : b.isLeap = true
      · simp only [if_pos hla, if_pos hlb] at *
        omega
      · simp only [if_pos hla, if_neg hlb] at *
        omega
    · by_cases hlb : b.isLeap = true
      · simp only [if_neg hla, if_pos hlb] at *
        omega
      · simp only [if_neg hla, if_neg hlb] at *
        omega

/-- Earlier fields make a smaller text. -/
theorem full_lt_of_earlier (ha : a.Storable) (hb : b.Storable)
    (h : Earlier (fieldsOf a) (fieldsOf b)) : full a < full b := by
  have hfa := fits a
  have hfb := fits b
  rw [full_eq ha, full_eq hb]
  show (String.ofList _).toList < (String.ofList _).toList
  rw [String.toList_ofList, String.toList_ofList]
  refine field_lt '-' (yearNumber_lt ha) (yearNumber_lt hb) ?_
  rcases h with h | ⟨he, h⟩
  · exact .inl (Int.ofNat_lt.mp h)
  refine .inr ⟨Int.ofNat_inj.mp he, field_lt '-' hfa.month hfb.month ?_⟩
  rcases h with h | ⟨he, h⟩
  · exact .inl h
  refine .inr ⟨he, field_lt 'T' hfa.day hfb.day ?_⟩
  rcases h with h | ⟨he, h⟩
  · exact .inl h
  refine .inr ⟨he, field_lt ':' hfa.hour hfb.hour ?_⟩
  rcases h with h | ⟨he, h⟩
  · exact .inl h
  refine .inr ⟨he, field_lt ':' hfa.minute hfb.minute ?_⟩
  rcases h with h | ⟨he, h⟩
  · exact .inl h
  refine .inr ⟨he, field_lt '.' hfa.second hfb.second ?_⟩
  rcases h with h | ⟨he, h⟩
  · exact .inl h
  · exact .inr ⟨he, field_lt 'Z' hfa.fraction hfb.fraction (.inl h)⟩

theorem full_lt (ha : a.Storable) (hb : b.Storable)
    (h : a.seconds < b.seconds ∨ a.seconds = b.seconds ∧ a.nanos < b.nanos) : full a < full b :=
  full_lt_of_earlier ha hb (earlier_fieldsOf ha hb h)

/-- The order of full forms is the order of instants. -/
theorem full_le_iff (ha : a.Storable) (hb : b.Storable) : full a ≤ full b ↔ a.le b = true := by
  rw [Instant.le_iff]
  constructor
  · intro hle
    by_cases h : b.seconds < a.seconds ∨ b.seconds = a.seconds ∧ b.nanos < a.nanos
    · exact absurd (full_lt hb ha h) (String.not_lt.mpr hle)
    · omega
  · intro hle
    by_cases h : a.seconds < b.seconds ∨ a.seconds = b.seconds ∧ a.nanos < b.nanos
    · exact Std.le_of_lt (full_lt ha hb h)
    · have heq : a = b :=
        Instant.le_antisymm (Instant.le_iff.mpr hle) (Instant.le_iff.mpr (by omega))
      exact heq ▸ String.le_refl _

end Stamp
end Rendezvous
