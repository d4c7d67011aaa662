import Rendezvous.Json.Printer
import Rendezvous.Json.Text
import Rendezvous.Proofs.Bytes

/-!
# Strings that are read back

A quoted string is read as the string that was quoted, whatever follows it.
-/

namespace Rendezvous.Json

/-! ## Cursors -/

namespace Cursor

variable {c : Cursor} {b : UInt8} {bytes tail : List UInt8}

theorem peek?_eq (h : c.rest = b :: tail) : c.peek? = some b := by
  rw [peek?, h, List.head?_cons]

theorem rest_next (h : c.rest = b :: tail) : c.next.rest = tail := by
  simp only [next, h]
  split <;> rfl

theorem rest_skip (h : c.rest = bytes ++ tail) : (c.skip bytes.length).rest = tail := by
  induction bytes generalizing c with
  | nil => exact h
  | cons b bytes ih => exact ih (rest_next h)

theorem rest_skip_eq_drop (c : Cursor) (n : Nat) : (c.skip n).rest = c.rest.drop n := by
  induction n generalizing c with
  | zero => rfl
  | succ n ih =>
    rw [skip, ih]
    cases h : c.rest with
    | nil => simp only [next, h, List.drop_nil]
    | cons b rest => rw [rest_next h, List.drop_succ_cons]

end Cursor

/-- The bytes of written characters. -/
def bytesOf (text : List Char) : List UInt8 := text.flatMap String.utf8EncodeChar

@[simp] theorem bytesOf_nil : bytesOf [] = [] := rfl

@[simp] theorem bytesOf_append (a b : List Char) : bytesOf (a ++ b) = bytesOf a ++ bytesOf b :=
  List.flatMap_append

theorem bytesOf_cons (c : Char) (text : List Char) :
    bytesOf (c :: text) = String.utf8EncodeChar c ++ bytesOf text :=
  List.flatMap_cons

theorem length_le_bytesOf (text : List Char) : text.length ≤ (bytesOf text).length := by
  induction text with
  | nil => exact Nat.zero_le _
  | cons x text ih =>
    have hx := Char.utf8Size_pos x
    rw [bytesOf_cons, List.length_append, String.length_utf8EncodeChar, List.length_cons]
    omega

/-! ## Characters -/

/-- The bytes of a character that needs no escape begin with none of the bytes that mean
something inside a string. -/
theorem plain_head {x : Char} (hquote : x ≠ '"') (hslash : x ≠ '\\') (hcontrol : ¬ x.toNat < 32) :
    ∃ b rest, String.utf8EncodeChar x = b :: rest ∧ b ≠ 0x22 ∧ b ≠ 0x5C ∧ ¬ b.toNat < 32 := by
  have hne : ∀ n, x ≠ Char.ofNat n → x.toNat ≠ n := by
    rintro n h rfl
    exact h (Char.ofNat_toNat x).symm
  have h22 : x.toNat ≠ 0x22 := hne 0x22 hquote
  have h5c : x.toNat ≠ 0x5C := hne 0x5C hslash
  have hval : x.val.toNat = x.toNat := rfl
  simp only [String.utf8EncodeChar, hval]
  generalize x.toNat = v at *
  -- The head is below 0x80 only if it is the character itself.
  have hhead : ∀ m, m < 256 → 32 ≤ m → m ≠ 0x22 → m ≠ 0x5C →
      UInt8.ofNat m ≠ 0x22 ∧ UInt8.ofNat m ≠ 0x5C ∧ ¬ (UInt8.ofNat m).toNat < 32 := by
    intro m hm h32 hm22 hm5c
    have hm' : (UInt8.ofNat m).toNat = m := by
      rw [UInt8.toNat_ofNat']
      omega
    refine ⟨fun h => ?_, fun h => ?_, by omega⟩
    · rw [h] at hm'
      exact hm22 hm'.symm
    · rw [h] at hm'
      exact hm5c hm'.symm
  by_cases h1 : v ≤ 0x7f
  · rw [if_pos h1]
    exact ⟨_, _, rfl, hhead v (by omega) (by omega) h22 h5c⟩
  by_cases h2 : v ≤ 0x7ff
  · rw [if_neg h1, if_pos h2]
    exact ⟨_, _, rfl, hhead _ (by omega) (by omega) (by omega) (by omega)⟩
  by_cases h3 : v ≤ 0xffff
  · rw [if_neg h1, if_neg h2, if_pos h3]
    exact ⟨_, _, rfl, hhead _ (by omega) (by omega) (by omega) (by omega)⟩
  · rw [if_neg h1, if_neg h2, if_neg h3]
    exact ⟨_, _, rfl, hhead _ (by omega) (by omega) (by omega) (by omega)⟩

theorem codeEscape_control {n : Nat} (hn : n < 32) {c : Cursor} {tail : List UInt8}
    (h : c.rest = bytesOf ['0', '0', Hex.digit 'a' (n / 16), Hex.digit 'a' (n % 16)] ++ tail) :
    ∃ c', codeEscape c = .ok (Char.ofNat n, c') ∧ c'.rest = tail := by
  have hdigits : ∀ i < 16, String.utf8EncodeChar (Hex.digit 'a' i)
      = [UInt8.ofNat (Hex.digit 'a' i).toNat] ∧
      hexDigit? (UInt8.ofNat (Hex.digit 'a' i).toNat) = some i := by
    decide
  obtain ⟨hy, hy'⟩ := hdigits (n / 16) (by omega)
  obtain ⟨hz, hz'⟩ := hdigits (n % 16) (by omega)
  generalize UInt8.ofNat (Hex.digit 'a' (n / 16)).toNat = y at hy hy'
  generalize UInt8.ofNat (Hex.digit 'a' (n % 16)).toNat = z at hz hz'
  have hzero : hexDigit? 0x30 = some 0 := by decide
  have hbytes : bytesOf ['0', '0', Hex.digit 'a' (n / 16), Hex.digit 'a' (n % 16)]
      = [0x30, 0x30, y, z] := by
    rw [bytesOf_cons, bytesOf_cons, bytesOf_cons, bytesOf_cons, hy, hz]
    rfl
  rw [hbytes] at h
  have hrest : c.rest = 0x30 :: 0x30 :: y :: z :: tail := h
  have hsum : ((0 * 16 + 0) * 16 + n / 16) * 16 + n % 16 = n := by omega
  have hfour : hexFour c = .ok (n, c.skip 4) := by
    simp only [hexFour, hrest, hzero, hy', hz', hsum]
  refine ⟨c.skip 4, ?_, Cursor.rest_skip h⟩
  rw [codeEscape, hfour, ok_bind]
  simp only [if_neg (by omega : ¬ (0xDC00 ≤ n ∧ n ≤ 0xDFFF)),
    if_pos (by omega : n < 0xD800 ∨ 0xDBFF < n)]

theorem textFrom_short {e : UInt8} {x : Char} (hx : plainEscape? e = some x) (he : e ≠ 0x75)
    (b : UInt8) (budget : List UInt8) (seen : List Char) {c : Cursor} {tail : List UInt8}
    (h : c.rest = 0x5C :: e :: tail) :
    ∃ c', textFrom (b :: budget) seen none c = textFrom budget (x :: seen) none c' ∧
      c'.rest = tail := by
  have hnext : c.next.rest = e :: tail := Cursor.rest_next h
  have hescaped : escaped c.next = .ok (x, c.next.next) := by
    simp only [escaped, Cursor.peek?_eq hnext, if_neg he, hx]
  refine ⟨c.next.next, ?_, Cursor.rest_next hnext⟩
  rw [textFrom, h]
  simp only [hescaped]
  rfl

theorem textFrom_escape (x : Char) (b : UInt8) (budget : List UInt8) (seen : List Char)
    {c : Cursor} {tail : List UInt8} (h : c.rest = bytesOf (escape x) ++ tail) :
    ∃ c', textFrom (b :: budget) seen none c = textFrom budget (x :: seen) none c' ∧
      c'.rest = tail := by
  have hcode : ∀ {n}, x.toNat = n → Char.ofNat n = x := by
    rintro n rfl
    exact Char.ofNat_toNat x
  unfold escape at h
  split at h
  · subst x
    exact textFrom_short (e := 0x22) rfl (by decide) _ _ _ h
  split at h
  · subst x
    exact textFrom_short (e := 0x5C) rfl (by decide) _ _ _ h
  split at h
  · obtain rfl := hcode ‹x.toNat = 8›
    exact textFrom_short (e := 0x62) rfl (by decide) _ _ _ h
  split at h
  · obtain rfl := hcode ‹x.toNat = 9›
    exact textFrom_short (e := 0x74) rfl (by decide) _ _ _ h
  split at h
  · obtain rfl := hcode ‹x.toNat = 10›
    exact textFrom_short (e := 0x6E) rfl (by decide) _ _ _ h
  split at h
  · obtain rfl := hcode ‹x.toNat = 12›
    exact textFrom_short (e := 0x66) rfl (by decide) _ _ _ h
  split at h
  · obtain rfl := hcode ‹x.toNat = 13›
    exact textFrom_short (e := 0x72) rfl (by decide) _ _ _ h
  split at h
  · rename_i hcontrol
    have hnext : c.next.rest = 0x75 :: (bytesOf ['0', '0', Hex.digit 'a' (x.toNat / 16),
        Hex.digit 'a' (x.toNat % 16)] ++ tail) := Cursor.rest_next h
    obtain ⟨c', hread, htail⟩ := codeEscape_control hcontrol (Cursor.rest_next hnext)
    have hescaped : escaped c.next = .ok (x, c') := by
      simp only [escaped, Cursor.peek?_eq hnext, if_true, hread, Char.ofNat_toNat]
    refine ⟨c', ?_, htail⟩
    have hrest : c.rest = 0x5C :: 0x75 :: (bytesOf ['0', '0', Hex.digit 'a' (x.toNat / 16),
        Hex.digit 'a' (x.toNat % 16)] ++ tail) := h
    rw [textFrom, hrest]
    simp only [hescaped]
    rfl
  · rename_i hquote hslash _ _ _ _ _ hcontrol
    obtain ⟨first, rest, hbytes, h22, h5c, h32⟩ := plain_head hquote hslash hcontrol
    have hrest : c.rest = first :: (rest ++ tail) := by
      rw [h, bytesOf_cons, bytesOf_nil, List.append_nil, hbytes, List.cons_append]
    have hread : Utf8.next? (first :: (rest ++ tail)) = some (x, tail) := by
      rw [← List.cons_append, ← hbytes, Utf8.next?_append]
    refine ⟨⟨tail, c.line, c.column + x.utf8Size⟩, ?_, rfl⟩
    simp only [textFrom, hrest, if_neg h22, if_neg h5c, if_neg h32, hread]

/-! ## Strings -/

theorem textFrom_quote (xs : List Char) (budget : List UInt8) (seen : List Char) {c : Cursor}
    {tail : List UInt8} (h : c.rest = bytesOf (xs.flatMap escape) ++ 0x22 :: tail)
    (hbudget : xs.length < budget.length) :
    ∃ c', textFrom budget seen none c = .ok (String.ofList (seen.reverse ++ xs), c') ∧
      c'.rest = tail := by
  induction xs generalizing budget seen c with
  | nil =>
    cases budget with
    | nil => cases hbudget
    | cons b budget =>
      have hrest : c.rest = 0x22 :: tail := h
      refine ⟨c.next, ?_, Cursor.rest_next hrest⟩
      simp only [textFrom, hrest, if_true, List.append_nil]
  | cons x xs ih =>
    cases budget with
    | nil => cases hbudget
    | cons b budget =>
      rw [List.flatMap_cons, bytesOf_append, List.append_assoc] at h
      obtain ⟨c₁, he, h₁⟩ := textFrom_escape x b budget seen h
      obtain ⟨c₂, hr, h₂⟩ := ih budget (x :: seen) h₁ (by simpa using hbudget)
      refine ⟨c₂, ?_, h₂⟩
      rw [he, hr, List.reverse_cons, List.append_assoc, List.singleton_append]

theorem length_le_flatMap_escape (xs : List Char) : xs.length ≤ (xs.flatMap escape).length := by
  have hone : ∀ x, 1 ≤ (escape x).length := by
    intro x
    unfold escape
    repeat' split
    all_goals exact Nat.succ_le_succ (Nat.zero_le _)
  induction xs with
  | nil => exact Nat.zero_le _
  | cons x xs ih =>
    have hx := hone x
    rw [List.flatMap_cons, List.length_append, List.length_cons]
    omega

/-- A quoted string is read behind its opening quote. -/
theorem text_quote (s : String) {c : Cursor} {tail : List UInt8}
    (h : c.rest = bytesOf (quote s) ++ tail) :
    ∃ c', text c.next = .ok (s, c') ∧ c'.rest = tail := by
  have hrest : c.rest = 0x22 :: (bytesOf (s.toList.flatMap escape) ++ 0x22 :: tail) := by
    rw [h, quote, bytesOf_append, List.append_assoc, bytesOf_cons]
    rfl
  have hnext := Cursor.rest_next hrest
  have hescape := length_le_flatMap_escape s.toList
  have hlength := length_le_bytesOf (s.toList.flatMap escape)
  obtain ⟨c', hread, htail⟩ := textFrom_quote s.toList c.next.rest [] hnext
    (by rw [hnext, List.length_append, List.length_cons]; omega)
  refine ⟨c', ?_, htail⟩
  rw [text, hread, List.reverse_nil, List.nil_append, String.ofList_toList]

end Rendezvous.Json
