import Rendezvous.Json.Reader
import Rendezvous.Proofs.Bytes
import Rendezvous.Proofs.Strings

/-!
# Numerals inside documents

A numeral is read the same way whether it ends the text or a comma or bracket follows it. So a
number that is read back from its own text is read back inside every document.
-/

namespace Rendezvous.Json

/-- What may stand behind a value: nothing, a comma or a closing bracket. -/
def Stops (tail : List UInt8) : Prop := ∀ b ∈ tail.head?, b = 0x2C ∨ b = 0x5D ∨ b = 0x7D

theorem stops_nil : Stops [] := by
  intro b hb
  cases hb

theorem stops_cons {b : UInt8} {tail : List UInt8} (h : b = 0x2C ∨ b = 0x5D ∨ b = 0x7D) :
    Stops (b :: tail) := by
  intro x hx
  rw [List.head?_cons, Option.mem_some_iff] at hx
  exact hx ▸ h

/-- A byte that cannot stand behind a value. -/
def Inner (b : UInt8) : Prop := b ≠ 0x2C ∧ b ≠ 0x5D ∧ b ≠ 0x7D

instance (b : UInt8) : Decidable (Inner b) := inferInstanceAs (Decidable (_ ∧ _ ∧ _))

theorem Stops.not_isDigit {tail : List UInt8} (h : Stops tail) :
    ∀ b ∈ tail.head?, Decimal.isDigit b = false := by
  intro b hb
  rcases h b hb with rfl | rfl | rfl <;> rfl

/-! ## Two places with the same text ahead -/

variable {tail : List UInt8} {c d : Cursor}

theorem peek?_extend {b : UInt8} (hstop : Stops tail) (h : d.rest = c.rest ++ tail)
    (hb : Inner b) : d.peek? = some b ↔ c.peek? = some b := by
  rw [Cursor.peek?, Cursor.peek?, h]
  cases c.rest with
  | cons x rest => rfl
  | nil =>
    rw [List.nil_append]
    refine ⟨fun hhead => ?_, fun hhead => by cases hhead⟩
    rcases hstop b hhead with rfl | rfl | rfl
    · exact absurd rfl hb.1
    · exact absurd rfl hb.2.1
    · exact absurd rfl hb.2.2

theorem leadingDigits_extend (hstop : Stops tail) (h : d.rest = c.rest ++ tail) :
    leadingDigits d = leadingDigits c := by
  rw [leadingDigits, leadingDigits, h]
  induction c.rest with
  | nil =>
    cases tail with
    | nil => rfl
    | cons b tail =>
      rw [List.nil_append, List.takeWhile_cons, hstop.not_isDigit b rfl]
      rfl
  | cons x rest ih =>
    rw [List.cons_append, List.takeWhile_cons, List.takeWhile_cons, ih]

theorem isDigitAt_extend (hstop : Stops tail) (h : d.rest = c.rest ++ tail) :
    isDigitAt d = isDigitAt c := by
  rw [isDigitAt, isDigitAt, Cursor.peek?, Cursor.peek?, h]
  cases c.rest with
  | cons x rest => rfl
  | nil =>
    cases tail with
    | nil => rfl
    | cons b tail => exact hstop.not_isDigit b rfl

theorem isExponentLetter_extend (hstop : Stops tail) (h : d.rest = c.rest ++ tail) :
    isExponentLetter d.peek? = isExponentLetter c.peek? := by
  have he := peek?_extend hstop h (b := 0x65) (by decide)
  have hE := peek?_extend hstop h (b := 0x45) (by decide)
  rw [isExponentLetter, isExponentLetter, Bool.eq_iff_iff]
  simp only [Bool.or_eq_true, beq_iff_eq, he, hE]

theorem rest_skip_extend {n : Nat} (h : d.rest = c.rest ++ tail) (hn : n ≤ c.rest.length) :
    (d.skip n).rest = (c.skip n).rest ++ tail := by
  rw [Cursor.rest_skip_eq_drop, Cursor.rest_skip_eq_drop, h, List.drop_append_of_le_length hn]

theorem rest_next_extend (h : d.rest = c.rest ++ tail) (hc : c.rest ≠ []) :
    d.next.rest = c.next.rest ++ tail := by
  obtain ⟨b, rest, hrest⟩ := List.exists_cons_of_ne_nil hc
  rw [hrest, List.cons_append] at h
  rw [Cursor.rest_next h, Cursor.rest_next hrest]

theorem rest_ne_nil {b : UInt8} (h : c.peek? = some b) : c.rest ≠ [] := by
  intro hc
  rw [Cursor.peek?, hc] at h
  cases h

theorem peek?_extend_of_some {b : UInt8} (h : d.rest = c.rest ++ tail) (hb : c.peek? = some b) :
    d.peek? = some b := by
  rw [Cursor.peek?] at hb ⊢
  rw [h, List.head?_append, hb]
  rfl

theorem length_leadingDigits_le (c : Cursor) : (leadingDigits c).length ≤ c.rest.length :=
  (List.takeWhile_sublist _).length_le

/-! ## Numerals -/

/-- If the first reading succeeds then so does the second, which leaves `tail` untouched. -/
def Follows (tail : List UInt8) (r s : Except Failure (Numeral × Cursor)) : Prop :=
  ∀ n c, r = .ok (n, c) → ∃ d, s = .ok (n, d) ∧ d.rest = c.rest ++ tail

theorem Follows.of_error {f : Failure} {s : Except Failure (Numeral × Cursor)} :
    Follows tail (.error f) s := by
  intro n c h
  cases h

theorem Follows.of_ok {n : Numeral} (h : d.rest = c.rest ++ tail) :
    Follows tail (.ok (n, c)) (.ok (n, d)) := by
  intro m c' hr
  cases hr
  exact ⟨d, rfl, h⟩

theorem finishReal_follows (negative : Bool) (n : Nat) (e : Int) (h : d.rest = c.rest ++ tail) :
    Follows tail (finishReal negative n e c) (finishReal negative n e d) := by
  unfold finishReal
  cases realOf negative n e with
  | none => exact .of_error
  | some x => exact .of_ok h

theorem hugeExponent_follows (negative : Bool) (n : Nat) (positive : Bool) (hstop : Stops tail)
    (h : d.rest = c.rest ++ tail) :
    Follows tail (hugeExponent negative n positive c) (hugeExponent negative n positive d) := by
  unfold hugeExponent
  split
  · exact .of_error
  · rw [leadingDigits_extend hstop h]
    exact .of_ok (rest_skip_extend h (length_leadingDigits_le c))

theorem exponentDigits_follows (negative : Bool) (n : Nat) (start : Int) (positive : Bool)
    (hstop : Stops tail) {digits : List UInt8} (e : Nat) (h : d.rest = c.rest ++ tail)
    (hdigits : digits.length ≤ c.rest.length) :
    Follows tail (exponentDigits negative n start positive digits e c)
      (exponentDigits negative n start positive digits e d) := by
  induction digits generalizing e c d with
  | nil => exact finishReal_follows _ _ _ h
  | cons b digits ih =>
    have hc : c.rest ≠ [] := by
      intro hc
      rw [hc] at hdigits
      cases hdigits
    obtain ⟨x, rest, hrest⟩ := List.exists_cons_of_ne_nil hc
    have hnext := rest_next_extend h hc
    simp only [exponentDigits]
    split
    · exact hugeExponent_follows _ _ _ hstop hnext
    · refine ih _ hnext ?_
      rw [Cursor.rest_next hrest]
      rw [hrest] at hdigits
      exact Nat.le_of_succ_le_succ hdigits

theorem exponent_follows (negative : Bool) (n : Nat) (start : Int) (hstop : Stops tail)
    (h : d.rest = c.rest ++ tail) (hc : c.rest ≠ []) :
    Follows tail (exponent negative n start c) (exponent negative n start d) := by
  have hnext := rest_next_extend h hc
  have hplus := peek?_extend hstop hnext (b := 0x2B) (by decide)
  have hminus := peek?_extend hstop hnext (b := 0x2D) (by decide)
  have hsigned : (d.next.peek? == some 0x2B || d.next.peek? == some 0x2D)
      = (c.next.peek? == some 0x2B || c.next.peek? == some 0x2D) := by
    rw [Bool.eq_iff_iff]
    simp only [Bool.or_eq_true, beq_iff_eq, hplus, hminus]
  have hpositive : (d.next.peek? != some 0x2D) = (c.next.peek? != some 0x2D) := by
    rw [Bool.eq_iff_iff]
    simp only [bne_iff_ne, ne_eq, hminus]
  simp only [exponent, hsigned, hpositive]
  -- Where the digits begin, behind the sign if there is one.
  have hsign : (if (c.next.peek? == some 0x2B || c.next.peek? == some 0x2D) = true
        then d.next.next else d.next).rest
      = (if (c.next.peek? == some 0x2B || c.next.peek? == some 0x2D) = true
        then c.next.next else c.next).rest ++ tail := by
    split
    · rename_i hsome
      refine rest_next_extend hnext ?_
      rw [Bool.or_eq_true, beq_iff_eq, beq_iff_eq] at hsome
      rcases hsome with hsome | hsome
      · exact rest_ne_nil hsome
      · exact rest_ne_nil hsome
    · exact hnext
  generalize (if (c.next.peek? == some 0x2B || c.next.peek? == some 0x2D) = true
    then c.next.next else c.next) = c₁ at hsign ⊢
  generalize (if (c.next.peek? == some 0x2B || c.next.peek? == some 0x2D) = true
    then d.next.next else d.next) = d₁ at hsign ⊢
  cases hpeek : c₁.peek? with
  | none => exact .of_error
  | some b =>
    rw [peek?_extend_of_some hsign hpeek]
    have hc₁ := rest_ne_nil hpeek
    by_cases hdigit : Decimal.isDigit b = true
    · simp only [hdigit, if_true, leadingDigits_extend hstop hsign]
      refine exponentDigits_follows _ _ _ _ hstop _ (rest_next_extend hsign hc₁) ?_
      obtain ⟨x, rest, hrest⟩ := List.exists_cons_of_ne_nil hc₁
      have hle := length_leadingDigits_le c₁
      rw [hrest, List.length_cons] at hle
      rw [List.length_tail, Cursor.rest_next hrest]
      omega
    · simp only [hdigit]
      exact .of_error

theorem fraction_follows (negative : Bool) (n : Nat) (e : Int) (hstop : Stops tail)
    (h : d.rest = c.rest ++ tail) (hc : c.rest ≠ []) :
    Follows tail (fraction negative n e c) (fraction negative n e d) := by
  have hnext := rest_next_extend h hc
  simp only [fraction, leadingDigits_extend hstop hnext]
  cases hempty : (leadingDigits c.next).isEmpty with
  | true =>
    simp only [if_true]
    split
    · exact .of_error
    · exact .of_error
  | false =>
    have hskip := rest_skip_extend hnext (length_leadingDigits_le c.next)
    simp only [Bool.false_eq_true, if_false, isExponentLetter_extend hstop hskip]
    split
    · rename_i hletter
      refine exponent_follows _ _ _ hstop hskip ?_
      intro hnil
      rw [Cursor.peek?, hnil] at hletter
      cases hletter
    · exact finishReal_follows _ _ _ hskip

theorem afterDigits_follows (negative exact : Bool) (n : Nat) (e : Int) (hstop : Stops tail)
    (h : d.rest = c.rest ++ tail) :
    Follows tail (afterDigits negative exact n e c) (afterDigits negative exact n e d) := by
  simp only [afterDigits, peek?_extend hstop h (b := 0x2E) (by decide),
    isExponentLetter_extend hstop h]
  split
  · rename_i hpoint
    exact fraction_follows _ _ _ hstop h (rest_ne_nil hpoint)
  split
  · rename_i hletter
    refine exponent_follows _ _ _ hstop h ?_
    intro hnil
    rw [Cursor.peek?, hnil] at hletter
    cases hletter
  split
  · exact finishReal_follows _ _ _ h
  split
  · exact .of_ok h
  split
  · cases Double.ofNat n with
    | none => exact .of_error
    | some x => exact .of_ok h
  · exact .of_ok h

theorem unsignedNumeral_follows (negative : Bool) (hstop : Stops tail)
    (h : d.rest = c.rest ++ tail) :
    Follows tail (unsignedNumeral negative c) (unsignedNumeral negative d) := by
  simp only [unsignedNumeral]
  cases hpeek : c.peek? with
  | none => exact .of_error
  | some b =>
    have hnext := rest_next_extend h (rest_ne_nil hpeek)
    simp only [peek?_extend_of_some h hpeek]
    split
    · exact .of_error
    split
    · rw [isDigitAt_extend hstop hnext]
      split
      · exact .of_error
      · exact afterDigits_follows _ _ _ _ hstop hnext
    · rw [leadingDigits_extend hstop h]
      exact afterDigits_follows _ _ _ _ hstop (rest_skip_extend h (length_leadingDigits_le c))

/-- A numeral is read the same way if `tail` follows it. -/
theorem numeral_follows (hstop : Stops tail) (h : d.rest = c.rest ++ tail) :
    Follows tail (numeral c) (numeral d) := by
  simp only [numeral, peek?_extend hstop h (b := 0x2D) (by decide)]
  split
  · rename_i hminus
    exact unsignedNumeral_follows _ hstop (rest_next_extend h (rest_ne_nil hminus))
  · exact unsignedNumeral_follows _ hstop h

end Rendezvous.Json
