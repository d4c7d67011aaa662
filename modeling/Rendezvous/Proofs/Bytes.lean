import Mathlib.Algebra.Group.Nat.Defs
import Rendezvous.Text.Decimal
import Rendezvous.Text.Utf8

/-!
# Written text as bytes

What readers need to know of the bytes that writers make: digits of a fixed width spell their
number, and the bytes of a character are read back as that character.
-/

namespace Rendezvous

theorem ok_bind {ε α β : Type} (a : α) (f : α → Except ε β) : (Except.ok a >>= f) = f a := rfl

theorem ok_not_error {ε α : Type} (a : α) :
    ¬ ∃ fault, (Except.ok a : Except ε α) = .error fault := by
  rintro ⟨fault, h⟩
  cases h

theorem bind_eq_ok {ε α β : Type} {x : Except ε α} {f : α → Except ε β} {b : β}
    (h : (x >>= f) = .ok b) : ∃ a, x = .ok a ∧ f a = .ok b := by
  cases x with
  | error e => cases h
  | ok a => exact ⟨a, rfl, h⟩

/-! ## Digits -/

namespace Decimal

/-- Digits of one width are ordered as texts as their numbers are, and after them what follows. -/
theorem fixedDigits_append_lt {width a b : Nat} {x y : List Char} (ha : a < 10 ^ width)
    (hb : b < 10 ^ width) (h : a < b ∨ a = b ∧ x < y) :
    fixedDigits width a ++ x < fixedDigits width b ++ y := by
  induction width generalizing a b x y with
  | zero =>
    have hlt : x < y := by
      rcases h with h | h
      · simp only [Nat.pow_zero] at ha hb
        omega
      · exact h.2
    exact hlt
  | succ width ih =>
    rw [Nat.pow_succ] at ha hb
    have hdigits : ∀ i < 10, ∀ j < 10, i < j → Char.ofNat (48 + i) < Char.ofNat (48 + j) := by
      decide
    simp only [fixedDigits, List.append_assoc, List.singleton_append]
    refine ih (by omega) (by omega) ?_
    rw [List.cons_lt_cons_iff]
    rcases h with h | ⟨rfl, h⟩
    · by_cases hq : a / 10 < b / 10
      · exact .inl hq
      · refine .inr ⟨by omega, .inl ?_⟩
        exact hdigits _ (by omega) _ (by omega) (by omega)
    · exact .inr ⟨rfl, .inr ⟨rfl, h⟩⟩

theorem length_fixedDigits (width n : Nat) : (fixedDigits width n).length = width := by
  induction width generalizing n with
  | zero => rfl
  | succ width ih => rw [fixedDigits, List.length_append, ih, List.length_singleton]

/-- More digits than a number takes are zeros in front. -/
theorem fixedDigits_add {width n : Nat} (h : n < 10 ^ width) (zeros : Nat) :
    fixedDigits (zeros + width) n = List.replicate zeros '0' ++ fixedDigits width n := by
  induction width generalizing n with
  | zero =>
    rw [Nat.pow_zero] at h
    obtain rfl : n = 0 := by omega
    induction zeros with
    | zero => rfl
    | succ zeros ih =>
      have hlast : fixedDigits (zeros + 1) 0 = fixedDigits zeros 0 ++ ['0'] := rfl
      have hzeros : fixedDigits zeros 0 = List.replicate zeros '0' ++ fixedDigits 0 0 := ih
      rw [Nat.add_zero, hlast, hzeros, List.replicate_succ', fixedDigits, List.append_nil,
        List.append_nil]
  | succ width ih =>
    rw [Nat.pow_succ] at h
    rw [← Nat.add_assoc, fixedDigits, fixedDigits, ih (by omega), List.append_assoc]

theorem exists_naturalDigits (n : Nat) : ∃ width, naturalDigits n = fixedDigits (width + 1) n ∧
    n < 10 ^ (width + 1) ∧ (0 < n → 10 ^ width ≤ n) := by
  have hchar : ∀ d < 10, Nat.digitChar d = Char.ofNat (48 + d) := by decide
  induction n using Nat.strongRecOn with
  | ind n ih =>
    by_cases hn : n < 10
    · refine ⟨0, ?_, hn, fun hpos => hpos⟩
      rw [naturalDigits, Nat.toDigits_of_lt_base hn, hchar n hn, fixedDigits, Nat.mod_eq_of_lt hn]
      rfl
    · obtain ⟨width, hdigits, hlt, hle⟩ := ih (n / 10) (by omega)
      refine ⟨width + 1, ?_, ?_, fun _ => ?_⟩
      · rw [naturalDigits, Nat.toDigits_of_base_le (by decide) (by omega), hchar _ (by omega)]
        exact congrArg (· ++ _) hdigits
      · rw [Nat.pow_succ]
        omega
      · have := hle (by omega)
        rw [Nat.pow_succ]
        omega

theorem exists_paddedDigits (least n : Nat) :
    ∃ width, paddedDigits least n = fixedDigits width n ∧ n < 10 ^ width ∧ 0 < width := by
  obtain ⟨width, hdigits, hlt, -⟩ := exists_naturalDigits n
  have hlength : (naturalDigits n).length = width + 1 := by rw [hdigits, length_fixedDigits]
  refine ⟨least - (width + 1) + (width + 1), ?_, ?_, by omega⟩
  · rw [fixedDigits_add hlt, ← hdigits, paddedDigits, hlength]
  · exact Nat.lt_of_lt_of_le hlt (Nat.pow_le_pow_right (by decide) (by omega))

def fixedBytes (width n : Nat) : List UInt8 := (fixedDigits width n).flatMap String.utf8EncodeChar

theorem fixedBytes_succ (width n : Nat) :
    fixedBytes (width + 1) n = fixedBytes width (n / 10) ++ [UInt8.ofNat (48 + n % 10)] := by
  have hdigits : ∀ i < 10,
      String.utf8EncodeChar (Char.ofNat (48 + i)) = [UInt8.ofNat (48 + i)] := by
    decide
  rw [fixedBytes, fixedDigits, List.flatMap_append, List.flatMap_singleton,
    hdigits _ (Nat.mod_lt n (by omega))]
  rfl

theorem length_fixedBytes (width n : Nat) : (fixedBytes width n).length = width := by
  induction width generalizing n with
  | zero => rfl
  | succ width ih => rw [fixedBytes_succ, List.length_append, ih, List.length_singleton]

theorem toNat_digit (n : Nat) : (UInt8.ofNat (48 + n % 10)).toNat = 48 + n % 10 := by
  rw [UInt8.toNat_ofNat']
  omega

theorem isDigit_digit (n : Nat) : isDigit (UInt8.ofNat (48 + n % 10)) = true := by
  simp only [isDigit, toNat_digit, Bool.and_eq_true, decide_eq_true_eq]
  omega

theorem all_isDigit_fixedBytes (width n : Nat) : (fixedBytes width n).all isDigit = true := by
  induction width generalizing n with
  | zero => rfl
  | succ width ih =>
    rw [fixedBytes_succ, List.all_append, ih, List.all_cons, isDigit_digit]
    rfl

theorem fixedBytes_eq_cons (width n : Nat) : fixedBytes (width + 1) n
    = UInt8.ofNat (48 + n / 10 ^ width % 10) :: fixedBytes width n := by
  induction width generalizing n with
  | zero =>
    rw [fixedBytes_succ, Nat.pow_zero, Nat.div_one]
    rfl
  | succ width ih =>
    rw [fixedBytes_succ, ih, List.cons_append, ← fixedBytes_succ, Nat.div_div_eq_div_mul,
      Nat.pow_succ, Nat.mul_comm 10]

theorem value_fixedBytes {width n : Nat} (h : n < 10 ^ width) : value (fixedBytes width n) = n := by
  induction width generalizing n with
  | zero =>
    simp only [Nat.pow_zero] at h
    obtain rfl : n = 0 := by omega
    rfl
  | succ width ih =>
    rw [Nat.pow_succ] at h
    have hq := ih (n := n / 10) (by omega)
    rw [value] at hq
    rw [fixedBytes_succ, value, List.foldl_append, hq]
    simp only [List.foldl_cons, List.foldl_nil, toNat_digit]
    omega

end Decimal

/-! ## Characters -/

namespace Utf8

theorem toNat_lt (c : Char) : c.toNat < 0x110000 := by
  have hvalid : c.toNat < 0xD800 ∨ (0xDFFF < c.toNat ∧ c.toNat < 0x110000) := c.valid
  omega

theorem scalar?_toNat (c : Char) : scalar? c.toNat = some c := by
  have hvalid : c.toNat < 0xD800 ∨ (0xDFFF < c.toNat ∧ c.toNat < 0x110000) := c.valid
  rw [scalar?, if_pos hvalid, Char.ofNat_toNat]

theorem trail?_ofNat {n : Nat} (h : n < 64) : trail? (UInt8.ofNat (n + 0x80)) = some n := by
  have hn : (UInt8.ofNat (n + 0x80)).toNat = n + 0x80 := by
    rw [UInt8.toNat_ofNat']
    omega
  rw [trail?, hn, if_pos (by omega), Nat.add_sub_cancel]

/-- The bytes of a character are read as that character. -/
theorem next?_append (c : Char) (rest : List UInt8) :
    next? (String.utf8EncodeChar c ++ rest) = some (c, rest) := by
  have hmax := toNat_lt c
  have hval : c.val.toNat = c.toNat := rfl
  have hscalar := scalar?_toNat c
  simp only [String.utf8EncodeChar, hval]
  generalize c.toNat = v at *
  by_cases h1 : v ≤ 0x7f
  · have ha : (UInt8.ofNat v).toNat = v := by
      rw [UInt8.toNat_ofNat']
      omega
    simp only [if_pos h1, List.cons_append, List.nil_append, next?, ha]
    rw [if_pos (by omega)]
    simp only [scalar?, if_pos (by omega : v < 0xD800 ∨ 0xDFFF < v ∧ v < 0x110000)] at hscalar
    rw [Option.some.inj hscalar]
  by_cases h2 : v ≤ 0x7ff
  · have ha : (UInt8.ofNat (v / 64 % 0x20 + 0xc0)).toNat = v / 64 + 0xc0 := by
      rw [UInt8.toNat_ofNat']
      omega
    have hsum : (v / 64 + 0xc0 - 0xC0) * 64 + v % 64 = v := by omega
    simp only [if_neg h1, if_pos h2, List.cons_append, List.nil_append, next?, ha]
    rw [if_neg (by omega), if_neg (by omega), if_pos (by omega)]
    simp only [trail?_ofNat (Nat.mod_lt v (by omega : 0x40 > 0)), Option.bind_eq_bind,
      Option.bind_some, hsum, noShorter?, if_neg (by omega : ¬ v < 0x80), hscalar]
  by_cases h3 : v ≤ 0xffff
  · have ha : (UInt8.ofNat (v / 4096 % 0x10 + 0xe0)).toNat = v / 4096 + 0xe0 := by
      rw [UInt8.toNat_ofNat']
      omega
    have hsum : ((v / 4096 + 0xe0 - 0xE0) * 64 + v / 64 % 64) * 64 + v % 64 = v := by omega
    simp only [if_neg h1, if_neg h2, if_pos h3, List.cons_append, List.nil_append, next?, ha]
    rw [if_neg (by omega), if_neg (by omega), if_neg (by omega), if_pos (by omega)]
    simp only [trail?_ofNat (Nat.mod_lt _ (by omega : 0x40 > 0)), Option.bind_eq_bind,
      Option.bind_some, hsum, noShorter?, if_neg (by omega : ¬ v < 0x800), hscalar]
  · have ha : (UInt8.ofNat (v / 262144 % 0x08 + 0xf0)).toNat = v / 262144 + 0xf0 := by
      rw [UInt8.toNat_ofNat']
      omega
    have hsum : (((v / 262144 + 0xf0 - 0xF0) * 64 + v / 4096 % 64) * 64 + v / 64 % 64) * 64
        + v % 64 = v := by omega
    simp only [if_neg h1, if_neg h2, if_neg h3, List.cons_append, List.nil_append, next?, ha]
    rw [if_neg (by omega), if_neg (by omega), if_neg (by omega), if_neg (by omega),
      if_pos (by omega)]
    simp only [trail?_ofNat (Nat.mod_lt _ (by omega : 0x40 > 0)), Option.bind_eq_bind,
      Option.bind_some, hsum, noShorter?, if_neg (by omega : ¬ v < 0x10000), hscalar]

theorem split_flatMap (cs seen : List Char) :
    split (cs.flatMap String.utf8EncodeChar) seen = (seen.reverse ++ cs, []) := by
  induction cs generalizing seen with
  | nil =>
    have hnext : next? [] = none := rfl
    rw [List.flatMap_nil, split]
    split
    · rename_i heq
      cases hnext.symm.trans heq
    · rw [List.append_nil]
  | cons c cs ih =>
    rw [List.flatMap_cons, split, next?_append]
    dsimp only
    rw [ih, List.reverse_cons, List.append_assoc, List.singleton_append]

/-- A text is read back from its bytes. -/
theorem decode?_encode (text : String) : decode? (encode text) = some text := by
  rw [decode?, encode, split_flatMap, List.reverse_nil, List.nil_append]
  exact congrArg some String.ofList_toList

end Utf8
end Rendezvous
