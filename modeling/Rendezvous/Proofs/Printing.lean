import Rendezvous.Proofs.Documents
import Rendezvous.Proofs.Numerals

/-!
# Printed values are read back

`ReadsBack` says that a reader takes a value from its printed text, whatever may stand behind it.
Words and strings are always read back, and numbers if they survive being printed by themselves.
-/

namespace Rendezvous.Json

variable {c : Cursor} {tail : List UInt8}

/-! ## White space -/

theorem Cursor.rest_skipSpace (c : Cursor) : c.skipSpace.rest = c.rest.dropWhile isSpace := by
  obtain ⟨rest, line, column⟩ := c
  unfold skipSpace
  induction rest generalizing line column with
  | nil => rfl
  | cons b rest ih =>
    simp only [skipSpaceFrom, List.dropWhile_cons]
    split
    · rename_i hb
      subst hb
      exact ih (line + 1) 0
    split
    · exact ih line (column + 1)
    · rfl

/-- What may stand behind a value does not begin with white space. -/
theorem Stops.dropWhile (h : Stops tail) : tail.dropWhile Cursor.isSpace = tail := by
  cases tail with
  | nil => rfl
  | cons b tail => rcases h b rfl with rfl | rfl | rfl <;> rfl

theorem Stops.rest_skipSpace (hstop : Stops tail) (h : c.rest = tail) :
    c.skipSpace.rest = tail := by
  rw [c.rest_skipSpace, h, hstop.dropWhile]

theorem dropWhile_append_of_cons {a rest : List UInt8} {b : UInt8}
    (h : a.dropWhile Cursor.isSpace = b :: rest) (tail : List UInt8) :
    (a ++ tail).dropWhile Cursor.isSpace = b :: rest ++ tail := by
  rw [List.dropWhile_append, h]
  rfl

theorem dropWhile_append_of_nil {a : List UInt8} (h : a.dropWhile Cursor.isSpace = [])
    (tail : List UInt8) :
    (a ++ tail).dropWhile Cursor.isSpace = tail.dropWhile Cursor.isSpace := by
  rw [List.dropWhile_append, h]
  rfl

/-! ## Reading back one value -/

/-- The reader takes `v` from its printed text, whatever may stand behind it, and its text does
not begin as the end of an array does. -/
structure ReadsBack (item : Cursor → Except Failure (Json × Cursor)) (v : Json) : Prop where
  lead : ∃ b rest, (bytesOf v.chars).dropWhile Cursor.isSpace = b :: rest ∧ b ≠ 0x5D
  read : ∀ {c : Cursor} {tail : List UInt8}, Stops tail →
    c.skipSpace.rest = (bytesOf v.chars ++ tail).dropWhile Cursor.isSpace →
    ∃ c', item c = .ok (v, c') ∧ c'.skipSpace.rest = tail

theorem value_eq_scalar (depth : Nat) {b : UInt8} (h : c.skipSpace.peek? = some b)
    (hsquare : b ≠ 0x5B) (hcurly : b ≠ 0x7B) : value depth c = scalar c.skipSpace := by
  have h₁ : ¬ some b = some 0x5B := fun hb => hsquare (Option.some.inj hb)
  have h₂ : ¬ some b = some 0x7B := fun hb => hcurly (Option.some.inj hb)
  cases depth with
  | zero => simp only [value, h, if_neg (not_or.mpr ⟨h₁, h₂⟩)]
  | succ depth => simp only [value, h, if_neg h₁, if_neg h₂]

theorem ident_read (word : List UInt8) (h : c.rest = word ++ tail) :
    ∃ c', ident c word = .ok c' ∧ c'.rest = tail := by
  induction word generalizing c with
  | nil => exact ⟨c, rfl, h⟩
  | cons b word ih =>
    obtain ⟨c', hread, htail⟩ := ih (Cursor.rest_next h)
    refine ⟨c', ?_, htail⟩
    simp only [ident, Cursor.peek?_eq h, if_true, hread]

theorem word_readsBack (depth : Nat) {v : Json} {first : UInt8} {word : List UInt8}
    (hbytes : bytesOf v.chars = first :: word) (hspace : Cursor.isSpace first = false)
    (hbrackets : first ≠ 0x5B ∧ first ≠ 0x5D ∧ first ≠ 0x7B)
    (hscalar : ∀ c : Cursor, c.peek? = some first →
      scalar c = ident c.next word >>= fun c => .ok (v, c)) : ReadsBack (value depth) v where
  lead := by
    refine ⟨first, word, ?_, hbrackets.2.1⟩
    rw [hbytes, List.dropWhile_cons, hspace]
    rfl
  read := by
    intro c tail hstop h
    rw [hbytes, List.cons_append, List.dropWhile_cons, hspace] at h
    have hpeek := Cursor.peek?_eq h
    obtain ⟨c', hread, htail⟩ := ident_read word (Cursor.rest_next h)
    refine ⟨c', ?_, hstop.rest_skipSpace htail⟩
    rw [value_eq_scalar depth hpeek hbrackets.1 hbrackets.2.2, hscalar _ hpeek, hread, ok_bind]

theorem null_readsBack (depth : Nat) : ReadsBack (value depth) .null := by
  refine word_readsBack depth rfl rfl (by decide) fun c h => ?_
  simp only [scalar, word?, h]
  rfl

theorem bool_readsBack (depth : Nat) (b : Bool) : ReadsBack (value depth) (.bool b) := by
  cases b with
  | false =>
    refine word_readsBack depth rfl rfl (by decide) fun c h => ?_
    simp only [scalar, word?, h]
    rfl
  | true =>
    refine word_readsBack depth rfl rfl (by decide) fun c h => ?_
    simp only [scalar, word?, h]
    rfl

theorem bytesOf_quote (s : String) :
    bytesOf (quote s) = 0x22 :: (bytesOf (s.toList.flatMap escape) ++ [0x22]) := by
  rw [quote, bytesOf_append, bytesOf_cons]
  rfl

theorem string_readsBack (depth : Nat) (s : String) : ReadsBack (value depth) (.string s) where
  lead := by
    refine ⟨0x22, bytesOf (s.toList.flatMap escape) ++ [0x22], ?_, by decide⟩
    rw [chars, bytesOf_quote]
    rfl
  read := by
    intro c tail hstop h
    have hbytes : c.skipSpace.rest = bytesOf (quote s) ++ tail := by
      rw [h, chars, bytesOf_quote]
      rfl
    have hpeek : c.skipSpace.peek? = some 0x22 := by
      rw [Cursor.peek?, hbytes, bytesOf_quote]
      rfl
    obtain ⟨c', hread, htail⟩ := text_quote s hbytes
    refine ⟨c', ?_, hstop.rest_skipSpace htail⟩
    rw [value_eq_scalar depth hpeek (by decide) (by decide)]
    simp only [scalar, hpeek, if_true, hread]
    rfl

/-! ## Numbers -/

theorem Numeral.json_injective {n m : Numeral} (h : n.json = m.json) : n = m := by
  cases n <;> cases m <;> cases h <;> rfl

/-- The byte that a numeral begins with. -/
def Opens (b : UInt8) : Prop := b = 0x2D ∨ Decimal.isDigit b = true

theorem Opens.ne {b : UInt8} (h : Opens b) {x : UInt8} (hx : x ≠ 0x2D)
    (hdigit : Decimal.isDigit x = false) : b ≠ x := by
  rintro rfl
  rcases h with h | h
  · exact hx h
  · exact Bool.noConfusion (h.symm.trans hdigit)

theorem scalar_of_opens {b : UInt8} (h : c.peek? = some b) (hopens : Opens b) :
    scalar c = numeral c >>= fun r => .ok (r.1.json, r.2) := by
  have hcond : (decide (b = 0x2D) || Decimal.isDigit b) = true := by
    rw [Bool.or_eq_true, decide_eq_true_eq]
    exact hopens
  simp only [scalar, h, if_neg (hopens.ne (x := 0x22) (by decide) (by decide))]
  rw [if_pos hcond]
  rfl

theorem numeral_of_scalar {n : Numeral} {c' : Cursor} (h : scalar c = .ok (n.json, c')) :
    numeral c = .ok (n, c') ∧ ∃ b, c.peek? = some b ∧ Opens b := by
  unfold scalar at h
  split at h
  · cases h
  rename_i b hpeek
  split at h
  · obtain ⟨⟨s, c₁⟩, -, h⟩ := bind_eq_ok h
    cases n <;> cases h
  split at h
  · rename_i hopens
    obtain ⟨⟨m, c₁⟩, hread, h⟩ := bind_eq_ok h
    obtain ⟨hjson, rfl⟩ := Prod.mk.inj (Except.ok.inj h)
    obtain rfl := Numeral.json_injective hjson
    rw [Bool.or_eq_true, decide_eq_true_eq] at hopens
    exact ⟨hread, b, hpeek, hopens⟩
  split at h
  · obtain ⟨c₁, -, h⟩ := bind_eq_ok h
    cases n <;> cases h
  · obtain ⟨c₁, -, h⟩ := bind_eq_ok h
    cases n <;> cases h
  · cases h

theorem scalar_of_value {depth : Nat} {n : Numeral} {c' : Cursor}
    (h : value depth c = .ok (n.json, c')) : scalar c.skipSpace = .ok (n.json, c') := by
  cases depth with
  | zero =>
    simp only [value] at h
    split at h
    · cases h
    · exact h
  | succ depth =>
    simp only [value] at h
    split at h
    · obtain ⟨⟨vs, c₁⟩, -, h⟩ := bind_eq_ok h
      cases n <;> cases h
    split at h
    · obtain ⟨⟨fields, c₁⟩, -, h⟩ := bind_eq_ok h
      cases n <;> cases h
    · exact h

/-- A number that is read back from its own text is the numeral there. -/
theorem numeral_of_parse {n : Numeral} (h : parse n.json.print = .ok n.json) :
    ∃ c c', c.rest = (bytesOf n.json.chars).dropWhile Cursor.isSpace ∧
      numeral c = .ok (n, c') ∧ (∃ b, c.peek? = some b ∧ Opens b) ∧
      c'.rest.dropWhile Cursor.isSpace = [] := by
  have hbytes : Utf8.encode n.json.print = bytesOf n.json.chars := by
    rw [Utf8.encode, print, String.toList_ofList]
    rfl
  rw [parse, hbytes] at h
  obtain ⟨⟨v, c'⟩, hvalue, h⟩ := bind_eq_ok h
  obtain ⟨⟨⟩, hfinish, h⟩ := bind_eq_ok h
  obtain rfl : v = n.json := Except.ok.inj h
  have hend : c'.rest.dropWhile Cursor.isSpace = [] := by
    simp only [finish] at hfinish
    split at hfinish
    · rename_i hempty
      rw [← c'.rest_skipSpace]
      exact List.isEmpty_iff.mp hempty
    · cases hfinish
  generalize hc : ({ rest := bytesOf n.json.chars } : Cursor) = c at hvalue
  have hrest : c.skipSpace.rest = (bytesOf n.json.chars).dropWhile Cursor.isSpace := by
    rw [c.rest_skipSpace, ← hc]
  obtain ⟨hread, hopens⟩ := numeral_of_scalar (scalar_of_value hvalue)
  exact ⟨c.skipSpace, c', hrest, hread, hopens, hend⟩

theorem numeral_readsBack (depth : Nat) {n : Numeral} (h : parse n.json.print = .ok n.json) :
    ReadsBack (value depth) n.json := by
  obtain ⟨c₀, c₀', hrest₀, hread₀, ⟨b, hpeek₀, hopens⟩, hend⟩ := numeral_of_parse h
  obtain ⟨rest, hb⟩ : ∃ rest, c₀.rest = b :: rest := List.head?_eq_some_iff.mp hpeek₀
  have hlead : (bytesOf n.json.chars).dropWhile Cursor.isSpace = b :: rest := by
    rw [← hrest₀, hb]
  refine ⟨⟨b, rest, hlead, hopens.ne (by decide) (by decide)⟩, ?_⟩
  intro c tail hstop hc
  have hrest : c.skipSpace.rest = c₀.rest ++ tail := by
    rw [hc, dropWhile_append_of_cons hlead, hb]
  have hpeek : c.skipSpace.peek? = some b := by
    rw [Cursor.peek?, hrest, hb]
    rfl
  obtain ⟨c', hread, htail⟩ := numeral_follows hstop hrest n c₀' hread₀
  refine ⟨c', ?_, ?_⟩
  · rw [value_eq_scalar depth hpeek (hopens.ne (by decide) (by decide))
      (hopens.ne (by decide) (by decide)), scalar_of_opens hpeek hopens, hread]
    rfl
  · rw [c'.rest_skipSpace, htail, dropWhile_append_of_nil hend, hstop.dropWhile]

end Rendezvous.Json
