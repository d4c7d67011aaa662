import Rendezvous.Proofs.Stamps
import Rendezvous.Time.Relaxed

/-!
# Instants on the wire

Every instant is read back from its short form as it was: of any year, with any fraction of a
second, in a leap second or not.
-/

namespace Rendezvous

/-! ## The range of years -/

theorem Date.year_mono {a b : Int} (h : a ≤ b) : (ofDays a).year ≤ (ofDays b).year := by
  rcases Int.lt_or_eq_of_le h with hlt | rfl
  · rcases before_ofDays hlt with hyear | ⟨hyear, -⟩
    · exact Int.le_of_lt hyear
    · exact Int.le_of_eq hyear
  · exact Int.le_refl _

theorem Instant.year_bounds (t : Instant) : -262143 ≤ t.date.year ∧ t.date.year ≤ 262142 := by
  have hleast := t.least
  have hgreatest := t.greatest
  have hfirst : (Date.ofDays (-96465292)).year = -262143 := by decide
  have hlast : (Date.ofDays 95026236).year = 262142 := by decide
  constructor
  · rw [← hfirst]
    exact Date.year_mono (by omega)
  · rw [← hlast]
    exact Date.year_mono (by omega)

namespace Stamp

/-! ## White space -/

theorem skipBlank_nil : skipBlank [] = [] := by
  rw [skipBlank]
  rfl

theorem skipBlank_cons {b : UInt8} (hb : b.toNat < 0x80)
    (hblank : isBlank (Char.ofNat b.toNat) = false) (rest : List UInt8) :
    skipBlank (b :: rest) = b :: rest := by
  have hnext : Utf8.next? (b :: rest) = some (Char.ofNat b.toNat, rest) := by
    simp only [Utf8.next?, if_pos hb]
  rw [skipBlank]
  split
  · rename_i c rest' h
    cases hnext.symm.trans h
    rw [if_neg (Bool.eq_false_iff.mp hblank)]
  · rfl

theorem skipBlank_digit {b : UInt8} (hb : Decimal.isDigit b = true) (rest : List UInt8) :
    skipBlank (b :: rest) = b :: rest := by
  simp only [Decimal.isDigit, Bool.and_eq_true, decide_eq_true_eq] at hb
  have hblank : ∀ n < 58, 48 ≤ n → isBlank (Char.ofNat n) = false := by decide
  exact skipBlank_cons (by omega) (hblank _ (by omega) hb.1) rest

theorem skipBlank_fixedBytes (width n : Nat) (tail : List UInt8) :
    skipBlank (Decimal.fixedBytes (width + 1) n ++ tail)
      = Decimal.fixedBytes (width + 1) n ++ tail := by
  rw [Decimal.fixedBytes_eq_cons, List.cons_append, skipBlank_digit (Decimal.isDigit_digit _)]

/-! ## Fields -/

theorem bounded_fixedBytes {n low high : Nat} {tail : List UInt8} (h : n < 10 ^ 2)
    (hlow : low ≤ n) (hhigh : n ≤ high) (htail : ∀ b ∈ tail.head?, Decimal.isDigit b = false) :
    bounded 2 low high (Decimal.fixedBytes 2 n ++ tail) = .ok (n, tail) := by
  rw [bounded, skipBlank_fixedBytes, number_fixedBytes h (by decide) (Nat.le_refl 2) htail, ok_bind]
  simp only [if_neg (by omega : ¬ (n < low ∨ high < n))]
  rfl

theorem bounded_fixedBytes_cons {n low high : Nat} {b : UInt8} {rest : List UInt8} (h : n < 10 ^ 2)
    (hlow : low ≤ n) (hhigh : n ≤ high) (hb : Decimal.isDigit b = false) :
    bounded 2 low high (Decimal.fixedBytes 2 n ++ b :: rest) = .ok (n, b :: rest) :=
  bounded_fixedBytes h hlow hhigh fun x hx => by cases hx; exact hb

theorem looseLiteral_cons {b : UInt8} (hb : b.toNat < 0x80)
    (hblank : isBlank (Char.ofNat b.toNat) = false) (rest : List UInt8) :
    looseLiteral b (b :: rest) = .ok rest := by
  rw [looseLiteral, skipBlank_cons hb hblank, literal, if_pos rfl]

theorem number_padded (n : Nat) (rest : List UInt8) :
    ∃ width, Utf8.encode (String.ofList (Decimal.paddedDigits 4 n)) = Decimal.fixedBytes width n ∧
      number (Decimal.fixedBytes width n ++ 0x2D :: rest).length
        (Decimal.fixedBytes width n ++ 0x2D :: rest) = .ok (n, 0x2D :: rest) := by
  obtain ⟨width, hdigits, hlt, hpos⟩ := Decimal.exists_paddedDigits 4 n
  refine ⟨width, by rw [Utf8.encode, String.toList_ofList, hdigits]; rfl, ?_⟩
  refine number_fixedBytes hlt hpos ?_ fun x hx => by cases hx; rfl
  rw [List.length_append, Decimal.length_fixedBytes]
  omega

theorem year_yearDigits {y : Int} (hlow : -262143 ≤ y) (hhigh : y ≤ 262142) (rest : List UInt8) :
    year (Utf8.encode (String.ofList (yearDigits y)) ++ 0x2D :: rest) = .ok (y, 0x2D :: rest) := by
  rw [yearDigits]
  split
  · rename_i hfour
    have hread : number 4 (Decimal.fixedBytes 4 y.toNat ++ 0x2D :: rest)
        = .ok (y.toNat, 0x2D :: rest) :=
      number_fixedBytes (by omega) (by decide) (Nat.le_refl 4) fun x hx => by cases hx; rfl
    have hbytes : Utf8.encode (String.ofList (Decimal.fixedDigits 4 y.toNat))
        = Decimal.fixedBytes 4 y.toNat := by
      rw [Utf8.encode, String.toList_ofList]
      rfl
    have hdigit := Decimal.isDigit_digit (y.toNat / 10 ^ 3)
    rw [hbytes, year, skipBlank_fixedBytes]
    rw [Decimal.fixedBytes_eq_cons] at hread ⊢
    generalize UInt8.ofNat (48 + y.toNat / 10 ^ 3 % 10) = b at hdigit hread
    -- no digit is a sign
    split
    · rename_i h
      cases h
      cases hdigit
    · rename_i h
      cases h
      cases hdigit
    · rw [hread, ok_bind]
      show Except.ok (((y.toNat : Nat) : Int), _) = _
      rw [Int.toNat_of_nonneg hfour.1]
  · obtain ⟨width, hbytes, hread⟩ := number_padded y.natAbs rest
    split
    · rename_i hneg
      have hsigned : Utf8.encode (String.ofList ('-' :: Decimal.paddedDigits 4 y.natAbs))
          = 0x2D :: Decimal.fixedBytes width y.natAbs := by
        rw [← hbytes, Utf8.encode, Utf8.encode, String.toList_ofList, String.toList_ofList]
        rfl
      rw [hsigned, List.cons_append, year, skipBlank_cons (by decide) (by decide)]
      simp only [hread, ok_bind, if_neg (by omega : ¬ 2147483648 < y.natAbs)]
      show Except.ok (-((y.natAbs : Nat) : Int), _) = _
      rw [Int.ofNat_natAbs_of_nonpos (by omega), Int.neg_neg]
    · have hsigned : Utf8.encode (String.ofList ('+' :: Decimal.paddedDigits 4 y.natAbs))
          = 0x2B :: Decimal.fixedBytes width y.natAbs := by
        rw [← hbytes, Utf8.encode, Utf8.encode, String.toList_ofList, String.toList_ofList]
        rfl
      rw [hsigned, List.cons_append, year, skipBlank_cons (by decide) (by decide)]
      simp only [hread, ok_bind, if_neg (by omega : ¬ 2147483647 < y.natAbs)]
      show Except.ok (((y.natAbs : Nat) : Int), _) = _
      rw [Int.natAbs_of_nonneg (by omega)]

theorem optionalFraction_short {n : Nat} (h : n < 10 ^ 9) :
    optionalFraction (Utf8.encode (String.ofList (shortFraction n)) ++ [0x5A])
      = .ok (n, [0x5A]) := by
  have hbytes (width m : Nat) : Utf8.encode (String.ofList ('.' :: Decimal.fixedDigits width m))
      = 0x2E :: Decimal.fixedBytes width m := by
    rw [Utf8.encode, String.toList_ofList]
    rfl
  unfold shortFraction
  split
  · rename_i hzero
    rw [hzero]
    rfl
  split
  · rw [hbytes, List.cons_append, optionalFraction_digits (by omega) (by decide) (by decide)]
    exact congrArg (fun m => Except.ok (m, [0x5A])) (by omega)
  split
  · rw [hbytes, List.cons_append, optionalFraction_digits (by omega) (by decide) (by decide)]
    exact congrArg (fun m => Except.ok (m, [0x5A])) (by omega)
  · rw [hbytes, List.cons_append, optionalFraction_fixedBytes h]

/-! ## Whole instants -/

theorem encode_short (t : Instant) : Utf8.encode (short t) =
    Utf8.encode (String.ofList (yearDigits t.date.year)) ++
      0x2D :: (Decimal.fixedBytes 2 t.date.month ++ 0x2D :: (Decimal.fixedBytes 2 t.date.day ++
        0x54 :: (Decimal.fixedBytes 2 (t.secondOfDay / 3600) ++
          0x3A :: (Decimal.fixedBytes 2 (t.secondOfDay / 60 % 60) ++
            0x3A :: (Decimal.fixedBytes 2 (writtenSecond t) ++
              (Utf8.encode (String.ofList (shortFraction (fraction t))) ++ [0x5A])))))) := by
  simp only [short, wholeDigits, Utf8.encode, String.toList_ofList, List.flatMap_append,
    List.flatMap_cons, List.flatMap_nil, List.append_assoc, List.cons_append]
  rfl

theorem head_shortFraction (n : Nat) :
    ∀ b ∈ (Utf8.encode (String.ofList (shortFraction n)) ++ [0x5A]).head?,
      Decimal.isDigit b = false := by
  have hpoint (width m : Nat) : ∀ b ∈ (Utf8.encode (String.ofList
      ('.' :: Decimal.fixedDigits width m)) ++ [0x5A]).head?, Decimal.isDigit b = false := by
    intro b hb
    rw [Utf8.encode, String.toList_ofList] at hb
    cases hb
    rfl
  unfold shortFraction
  split
  · intro b hb
    cases hb
    rfl
  split
  · exact hpoint 3 _
  split
  · exact hpoint 6 _
  · exact hpoint 9 _

/-- The short form of an instant is read as that instant. -/
theorem relaxed_short (t : Instant) : relaxed (short t) = .ok t := by
  have hf := fits t
  have hyear := t.year_bounds
  have hexist := exist_partsOf t
  have hread := instant_partsOf t
  unfold partsOf at hexist hread
  have hvalid : t.date.Valid := hexist.1
  have hmonth := hvalid.2.1
  have hday := Nat.le_trans hvalid.2.2.2 (daysInMonth_le _ _)
  have hlt := secondOfDay_lt t
  have hhour : t.secondOfDay / 3600 ≤ 23 := by omega
  have hminute : t.secondOfDay / 60 % 60 ≤ 59 := by omega
  have hblank : skipBlank [0x5A] = [0x5A] := skipBlank_cons (by decide) (by decide) []
  have hzulu : looseOffset [0x5A] = .ok (0, []) := rfl
  rw [relaxed, relaxedBytes, encode_short, year_yearDigits hyear.1 hyear.2, ok_bind]
  simp only [looseLiteral_cons (b := 0x2D) (by decide) (by decide),
    looseLiteral_cons (b := 0x3A) (by decide) (by decide), ok_bind, dateEnd,
    bounded_fixedBytes_cons (b := 0x2D) hf.month hvalid.1 hmonth (by decide),
    bounded_fixedBytes_cons (b := 0x54) hf.day hvalid.2.2.1 hday (by decide),
    bounded_fixedBytes_cons (b := 0x3A) hf.hour (Nat.zero_le _) hhour (by decide),
    bounded_fixedBytes_cons (b := 0x3A) hf.minute (Nat.zero_le _) hminute (by decide),
    bounded_fixedBytes hf.second (Nat.zero_le _) (writtenSecond_le t) (head_shortFraction _),
    optionalFraction_short hf.fraction, hblank, hzulu, skipBlank_nil]
  have hrange : ¬ (¬ Fields.Exist ⟨⟨t.date.year, t.date.month, t.date.day⟩,
      t.secondOfDay / 3600, t.secondOfDay / 60 % 60, writtenSecond t, fraction t⟩ ∨
      t.date.year < -262143 ∨ 262142 < t.date.year) := by
    rintro (h | h)
    · exact h hexist
    · omega
  rw [if_neg hrange]
  simp only [hread]
  rfl

end Stamp
end Rendezvous
