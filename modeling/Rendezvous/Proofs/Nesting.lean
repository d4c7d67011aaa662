import Mathlib.Data.List.DropRight
import Rendezvous.Proofs.Printing

/-!
# Printed documents are read back

A document as readers make them, whose numbers survive printing, is read back from its printed
text. Arrays and objects are read back when what they hold is.
-/

namespace Rendezvous.Json

variable {c : Cursor} {tail : List UInt8}

/-! ## Arrays -/

theorem commas_cons (x : List Char) (rest : List (List Char)) :
    commas (x :: rest) = x ++ rest.flatMap (',' :: ·) := by
  induction rest generalizing x with
  | nil => rw [List.flatMap_nil, List.append_nil, commas]
  | cons y rest ih =>
    rw [commas, ih, List.flatMap_cons, List.cons_append]
    exact fun h => nomatch h

theorem charsOfItems_eq (vs : List Json) : charsOfItems vs = vs.map chars := by
  induction vs with
  | nil => rfl
  | cons v vs ih => rw [charsOfItems, ih, List.map_cons]

theorem charsOfFields_eq (fields : Fields) :
    charsOfFields fields = fields.map fun f => (f.1, f.2.chars) := by
  induction fields with
  | nil => rfl
  | cons f fields ih => rw [charsOfFields, ih, List.map_cons]

/-- The items behind the first, each with the comma before it, and the closing bracket. -/
def moreItems (vs : List Json) (tail : List UInt8) : List UInt8 :=
  bytesOf ((vs.map chars).flatMap (',' :: ·)) ++ 0x5D :: tail

theorem moreItems_cons (v : Json) (vs : List Json) (tail : List UInt8) :
    moreItems (v :: vs) tail = 0x2C :: (bytesOf v.chars ++ moreItems vs tail) := by
  rw [moreItems, moreItems, List.map_cons, List.flatMap_cons, bytesOf_append, List.append_assoc,
    bytesOf_cons, List.append_assoc]
  rfl

theorem stops_moreItems (vs : List Json) (tail : List UInt8) : Stops (moreItems vs tail) := by
  cases vs with
  | nil => exact stops_cons (.inr (.inl rfl))
  | cons v vs =>
    rw [moreItems_cons]
    exact stops_cons (.inl rfl)

/-- The first item, or the closing bracket. -/
theorem nextItem_first {v : Json} {item : Cursor → Except Failure (Json × Cursor)}
    (hv : ReadsBack item v) (h : c.rest = bytesOf v.chars ++ tail) :
    nextItem true c = .ok (true, c.skipSpace) := by
  obtain ⟨b, rest, hlead, hb⟩ := hv.lead
  have hpeek : c.skipSpace.peek? = some b := by
    rw [Cursor.peek?, c.rest_skipSpace, h, dropWhile_append_of_cons hlead]
    rfl
  simp only [nextItem, hpeek, if_neg hb, if_true]

theorem nextItem_more {v : Json} {item : Cursor → Except Failure (Json × Cursor)}
    (hv : ReadsBack item v) (h : c.skipSpace.rest = 0x2C :: (bytesOf v.chars ++ tail)) :
    nextItem false c = .ok (true, c.skipSpace.next.skipSpace) := by
  obtain ⟨b, rest, hlead, hb⟩ := hv.lead
  have hpeek : c.skipSpace.next.skipSpace.peek? = some b := by
    rw [Cursor.peek?, Cursor.rest_skipSpace, Cursor.rest_next h, dropWhile_append_of_cons hlead]
    rfl
  simp only [nextItem, Cursor.peek?_eq h, hpeek, if_neg hb]
  rfl

theorem nextItem_end {first : Bool} (h : c.skipSpace.rest = 0x5D :: tail) :
    nextItem first c = .ok (false, c.skipSpace) := by
  simp only [nextItem, Cursor.peek?_eq h, if_true]

theorem Cursor.rest_skipSpace_skipSpace (c : Cursor) :
    c.skipSpace.skipSpace.rest = c.skipSpace.rest := by
  rw [c.skipSpace.rest_skipSpace, c.rest_skipSpace, List.dropWhile_idempotent]

theorem items_read_more {item : Cursor → Except Failure (Json × Cursor)} {vs : List Json}
    (hitem : ∀ v ∈ vs, ReadsBack item v) {budget : List UInt8} (place : Nat) (seen : List Json)
    (hbudget : vs.length < budget.length) (h : c.skipSpace.rest = moreItems vs tail) :
    ∃ c', items item budget (place + 1) seen c = .ok (seen.reverse ++ vs, c') ∧
      c'.rest = tail := by
  induction vs generalizing budget place seen c with
  | nil =>
    cases budget with
    | nil => cases hbudget
    | cons b budget =>
      have hend : nextItem (place + 1 == 0) c = .ok (false, c.skipSpace) := nextItem_end h
      refine ⟨c.skipSpace.next, ?_, Cursor.rest_next h⟩
      simp only [items, hend, List.append_nil]
  | cons v vs ih =>
    cases budget with
    | nil => cases hbudget
    | cons b budget =>
      have hv := hitem v (.head _)
      rw [moreItems_cons] at h
      have hnext : nextItem (place + 1 == 0) c = .ok (true, c.skipSpace.next.skipSpace) :=
        nextItem_more hv h
      have hrest : c.skipSpace.next.skipSpace.skipSpace.rest
          = (bytesOf v.chars ++ moreItems vs tail).dropWhile Cursor.isSpace := by
        rw [Cursor.rest_skipSpace_skipSpace, Cursor.rest_skipSpace, Cursor.rest_next h]
      obtain ⟨c₁, hread, h₁⟩ := hv.read (stops_moreItems vs tail) hrest
      obtain ⟨c₂, hmore, h₂⟩ := ih (fun w hw => hitem w (.tail _ hw)) (place + 1) (v :: seen)
        (Nat.lt_of_succ_lt_succ hbudget) h₁
      refine ⟨c₂, ?_, h₂⟩
      simp only [items, hnext, hread, within, hmore, List.reverse_cons, List.append_assoc,
        List.singleton_append]

/-- The items of an array are read back up to its closing bracket. -/
theorem items_read {item : Cursor → Except Failure (Json × Cursor)} {vs : List Json}
    (hitem : ∀ v ∈ vs, ReadsBack item v) (budget : List UInt8) (hbudget : vs.length < budget.length)
    (h : c.rest = bytesOf (commas (vs.map chars)) ++ 0x5D :: tail) :
    ∃ c', items item budget 0 [] c = .ok (vs, c') ∧ c'.rest = tail := by
  cases budget with
  | nil => cases hbudget
  | cons b budget =>
    cases vs with
    | nil =>
      have hrest : c.skipSpace.rest = 0x5D :: tail := by
        rw [c.rest_skipSpace, h]
        rfl
      have hend : nextItem ((0 : Nat) == 0) c = .ok (false, c.skipSpace) := nextItem_end hrest
      refine ⟨c.skipSpace.next, ?_, Cursor.rest_next hrest⟩
      simp only [items, hend, List.reverse_nil]
    | cons v vs =>
      have hv := hitem v (.head _)
      have hbytes : c.rest = bytesOf v.chars ++ moreItems vs tail := by
        rw [h, List.map_cons, commas_cons, bytesOf_append, List.append_assoc, moreItems]
      have hfirst : nextItem ((0 : Nat) == 0) c = .ok (true, c.skipSpace) :=
        nextItem_first hv hbytes
      have hrest : c.skipSpace.skipSpace.rest
          = (bytesOf v.chars ++ moreItems vs tail).dropWhile Cursor.isSpace := by
        rw [Cursor.rest_skipSpace_skipSpace, Cursor.rest_skipSpace, hbytes]
      obtain ⟨c₁, hread, h₁⟩ := hv.read (stops_moreItems vs tail) hrest
      obtain ⟨c₂, hmore, h₂⟩ := items_read_more (fun w hw => hitem w (.tail _ hw)) 0 [v]
        (Nat.lt_of_succ_lt_succ hbudget) h₁
      refine ⟨c₂, ?_, h₂⟩
      simp only [items, hfirst, hread, within, hmore]
      rfl

theorem length_le_commas (xs : List (List Char)) :
    xs.length ≤ (bytesOf (commas xs)).length + 1 := by
  cases xs with
  | nil => exact Nat.zero_le _
  | cons x rest =>
    have hrest : rest.length ≤ (rest.flatMap (',' :: ·)).length := by
      induction rest with
      | nil => exact Nat.zero_le _
      | cons y rest ih =>
        rw [List.flatMap_cons, List.length_append, List.length_cons, List.length_cons]
        omega
    have hbytes := length_le_bytesOf (rest.flatMap (',' :: ·))
    rw [commas_cons, bytesOf_append, List.length_append, List.length_cons]
    omega

theorem array_readsBack {depth : Nat} {vs : List Json}
    (hitem : ∀ v ∈ vs, ReadsBack (value depth) v) :
    ReadsBack (value (depth + 1)) (.array vs) where
  lead := ⟨0x5B, _, rfl, by decide⟩
  read := by
    intro c tail hstop h
    have hrest : c.skipSpace.rest
        = 0x5B :: (bytesOf (commas (vs.map chars)) ++ 0x5D :: tail) := by
      rw [h, chars, charsOfItems_eq, bytesOf_append, bytesOf_cons, List.append_assoc,
        List.append_assoc]
      rfl
    have hlength := length_le_commas (vs.map chars)
    rw [List.length_map] at hlength
    obtain ⟨c', hread, htail⟩ := items_read hitem c.skipSpace.rest
      (by rw [hrest, List.length_cons, List.length_append, List.length_cons]; omega)
      (Cursor.rest_next hrest)
    refine ⟨c', ?_, hstop.rest_skipSpace htail⟩
    simp only [value, Cursor.peek?_eq hrest, if_true, hread]
    rfl

/-! ## Objects -/

/-- A field, its value already written. -/
def fieldChars (f : String × List Char) : List Char := quote f.1 ++ ':' :: f.2

/-- The fields behind the first, each with the comma before it, and the closing brace. -/
def moreFields (fields : List (String × List Char)) (tail : List UInt8) : List UInt8 :=
  bytesOf ((fields.map fieldChars).flatMap (',' :: ·)) ++ 0x7D :: tail

theorem bytesOf_fieldChars (f : String × List Char) :
    bytesOf (fieldChars f) = bytesOf (quote f.1) ++ 0x3A :: bytesOf f.2 := by
  rw [fieldChars, bytesOf_append, bytesOf_cons]
  rfl

theorem moreFields_cons (f : String × List Char) (fields : List (String × List Char))
    (tail : List UInt8) : moreFields (f :: fields) tail
      = 0x2C :: (bytesOf (quote f.1) ++ 0x3A :: (bytesOf f.2 ++ moreFields fields tail)) := by
  rw [moreFields, moreFields, List.map_cons, List.flatMap_cons, bytesOf_append, List.append_assoc,
    bytesOf_cons, bytesOf_fieldChars, List.append_assoc, List.append_assoc, List.cons_append]
  rfl

theorem stops_moreFields (fields : List (String × List Char)) (tail : List UInt8) :
    Stops (moreFields fields tail) := by
  cases fields with
  | nil => exact stops_cons (.inr (.inr rfl))
  | cons f fields =>
    rw [moreFields_cons]
    exact stops_cons (.inl rfl)

/-- The first field, or the closing brace, behind the opening one. -/
theorem bytesOf_commas_cons (f : String × List Char) (fields : List (String × List Char))
    (tail : List UInt8) : bytesOf (commas ((f :: fields).map fieldChars)) ++ 0x7D :: tail
      = bytesOf (quote f.1) ++ 0x3A :: (bytesOf f.2 ++ moreFields fields tail) := by
  rw [List.map_cons, commas_cons, bytesOf_append, bytesOf_fieldChars, List.append_assoc,
    List.append_assoc, List.cons_append, moreFields]

theorem bytesOf_bracesOf (fields : List (String × List Char)) (tail : List UInt8) :
    bytesOf (bracesOf fields) ++ tail
      = 0x7B :: (bytesOf (commas (fields.map fieldChars)) ++ 0x7D :: tail) := by
  rw [bracesOf, bytesOf_append, bytesOf_cons, List.append_assoc, List.append_assoc]
  rfl

theorem keyQuote_read {key : String} (h : c.rest = bytesOf (quote key) ++ tail) :
    ∃ c', keyQuote c = .ok (some key, c') ∧ c'.rest = tail := by
  obtain ⟨c', hread, htail⟩ := text_quote key h
  refine ⟨c', ?_, htail⟩
  rw [keyQuote, hread]
  rfl

theorem dropWhile_quote (key : String) (tail : List UInt8) :
    (bytesOf (quote key) ++ tail).dropWhile Cursor.isSpace = bytesOf (quote key) ++ tail := by
  rw [bytesOf_quote]
  rfl

theorem peek?_quote {key : String} (h : c.rest = bytesOf (quote key) ++ tail) :
    c.peek? = some 0x22 := by
  rw [bytesOf_quote] at h
  exact Cursor.peek?_eq h

theorem nextKey_first {key : String} (h : c.rest = bytesOf (quote key) ++ tail) :
    ∃ c', nextKey true c = .ok (some key, c') ∧ c'.rest = tail := by
  have hrest : c.skipSpace.rest = bytesOf (quote key) ++ tail := by
    rw [c.rest_skipSpace, h, dropWhile_quote]
  obtain ⟨c', hread, htail⟩ := keyQuote_read hrest
  refine ⟨c', ?_, htail⟩
  simp only [nextKey, peek?_quote hrest, if_true, hread]
  rfl

theorem nextKey_more {key : String} (h : c.skipSpace.rest = 0x2C :: (bytesOf (quote key) ++ tail)) :
    ∃ c', nextKey false c = .ok (some key, c') ∧ c'.rest = tail := by
  have hrest : c.skipSpace.next.skipSpace.rest = bytesOf (quote key) ++ tail := by
    rw [Cursor.rest_skipSpace, Cursor.rest_next h, dropWhile_quote]
  obtain ⟨c', hread, htail⟩ := keyQuote_read hrest
  refine ⟨c', ?_, htail⟩
  simp only [nextKey, Cursor.peek?_eq h, peek?_quote hrest, if_true, hread]
  rfl

theorem nextKey_end {first : Bool} (h : c.skipSpace.rest = 0x7D :: tail) :
    nextKey first c = .ok (none, c.skipSpace) := by
  simp only [nextKey, Cursor.peek?_eq h, if_true]
  rfl

theorem colon_read (h : c.rest = 0x3A :: tail) : ∃ c', colon c = .ok c' ∧ c'.rest = tail := by
  have hrest : c.skipSpace.rest = 0x3A :: tail := by
    rw [c.rest_skipSpace, h]
    rfl
  refine ⟨c.skipSpace.next, ?_, Cursor.rest_next hrest⟩
  simp only [colon, Cursor.peek?_eq hrest, if_true]

/-- Behind its key a field is read and laid over those before. -/
theorem members_step {item : Cursor → Except Failure (Json × Cursor)} {f : String × Json}
    (hf : ReadsBack item f.2) {fields : Fields} {first : Bool} {c₁ : Cursor}
    (hkey : nextKey first c = .ok (some f.1, c₁))
    (h₁ : c₁.rest = 0x3A :: (bytesOf f.2.chars ++ moreFields (charsOfFields fields) tail))
    (b : UInt8) (budget : List UInt8) (seen : Fields) :
    ∃ c₂, members item (b :: budget) first seen c = members item budget false
        (seen.insert f.1 f.2) c₂ ∧ c₂.skipSpace.rest = moreFields (charsOfFields fields) tail := by
  obtain ⟨c', hcolon, h'⟩ := colon_read h₁
  have hrest : c'.skipSpace.rest
      = (bytesOf f.2.chars ++ moreFields (charsOfFields fields) tail).dropWhile Cursor.isSpace := by
    rw [c'.rest_skipSpace, h']
  obtain ⟨c₂, hread, h₂⟩ := hf.read (stops_moreFields _ tail) hrest
  refine ⟨c₂, ?_, h₂⟩
  simp only [members, hkey, hcolon, hread, within]

/-- Fields in order come after all that have been read. -/
theorem insert_of_sorted {seen fields : Fields} {f : String × Json}
    (h : Fields.Sorted (seen ++ f :: fields)) : seen.insert f.1 f.2 = seen ++ [f] :=
  Fields.insert_eq_append f.2 fun g hg => (List.pairwise_append.mp h).2.2 g hg f (.head _)

theorem members_read_more {item : Cursor → Except Failure (Json × Cursor)} {fields : Fields}
    (hitem : ∀ f ∈ fields, ReadsBack item f.2) {budget : List UInt8} (seen : Fields)
    (hsorted : Fields.Sorted (seen ++ fields)) (hbudget : fields.length < budget.length)
    (h : c.skipSpace.rest = moreFields (charsOfFields fields) tail) :
    ∃ c', members item budget false seen c = .ok (seen ++ fields, c') ∧ c'.rest = tail := by
  induction fields generalizing budget seen c with
  | nil =>
    cases budget with
    | nil => cases hbudget
    | cons b budget =>
      refine ⟨c.skipSpace.next, ?_, Cursor.rest_next h⟩
      simp only [members, nextKey_end h, List.append_nil]
  | cons f fields ih =>
    cases budget with
    | nil => cases hbudget
    | cons b budget =>
      rw [charsOfFields, moreFields_cons] at h
      obtain ⟨c₁, hkey, h₁⟩ := nextKey_more h
      obtain ⟨c₂, hstep, h₂⟩ := members_step (hitem f (.head _)) hkey h₁ b budget seen
      have hassoc : seen ++ [f] ++ fields = seen ++ f :: fields := by
        rw [List.append_assoc, List.singleton_append]
      obtain ⟨c₃, hmore, h₃⟩ := ih (fun g hg => hitem g (.tail _ hg)) (seen ++ [f])
        (hassoc ▸ hsorted) (Nat.lt_of_succ_lt_succ hbudget) h₂
      refine ⟨c₃, ?_, h₃⟩
      rw [hstep, insert_of_sorted hsorted, hmore, hassoc]

/-- The fields of an object are read back up to its closing brace. -/
theorem members_read {item : Cursor → Except Failure (Json × Cursor)} {fields : Fields}
    (hitem : ∀ f ∈ fields, ReadsBack item f.2) (hsorted : fields.Sorted) (budget : List UInt8)
    (hbudget : fields.length < budget.length)
    (h : c.rest = bytesOf (commas ((charsOfFields fields).map fieldChars)) ++ 0x7D :: tail) :
    ∃ c', members item budget true [] c = .ok (fields, c') ∧ c'.rest = tail := by
  cases budget with
  | nil => cases hbudget
  | cons b budget =>
    cases fields with
    | nil =>
      have hrest : c.skipSpace.rest = 0x7D :: tail := by
        rw [c.rest_skipSpace, h]
        rfl
      refine ⟨c.skipSpace.next, ?_, Cursor.rest_next hrest⟩
      simp only [members, nextKey_end hrest]
    | cons f fields =>
      rw [charsOfFields, bytesOf_commas_cons] at h
      obtain ⟨c₁, hkey, h₁⟩ := nextKey_first h
      obtain ⟨c₂, hstep, h₂⟩ := members_step (hitem f (.head _)) hkey h₁ b budget []
      obtain ⟨c₃, hmore, h₃⟩ := members_read_more (fun g hg => hitem g (.tail _ hg))
        [f] hsorted (Nat.lt_of_succ_lt_succ hbudget) h₂
      refine ⟨c₃, ?_, h₃⟩
      rw [hstep]
      exact hmore

theorem object_readsBack {depth : Nat} {fields : Fields}
    (hitem : ∀ f ∈ fields, ReadsBack (value depth) f.2) (hsorted : fields.Sorted) :
    ReadsBack (value (depth + 1)) (.object fields) where
  lead := ⟨0x7B, _, rfl, by decide⟩
  read := by
    intro c tail hstop h
    have hrest : c.skipSpace.rest
        = 0x7B :: (bytesOf (commas ((charsOfFields fields).map fieldChars)) ++ 0x7D :: tail) := by
      rw [h, chars, bytesOf_bracesOf]
      rfl
    have hlength := length_le_commas ((charsOfFields fields).map fieldChars)
    have hcount : ((charsOfFields fields).map fieldChars).length = fields.length := by
      rw [List.length_map, charsOfFields_eq, List.length_map]
    obtain ⟨c', hread, htail⟩ := members_read hitem hsorted c.skipSpace.rest
      (by rw [hrest, List.length_cons, List.length_append, List.length_cons]; omega)
      (Cursor.rest_next hrest)
    refine ⟨c', ?_, hstop.rest_skipSpace htail⟩
    have hsquare : ¬ some (0x7B : UInt8) = some 0x5B := by decide
    simp only [value, Cursor.peek?_eq hrest, if_neg hsquare, if_true, hread]
    rfl

/-! ## Documents -/

/-- A document as readers make them is read back if its numbers survive. -/
theorem Shaped.readsBack {depth : Nat} {doc : Json} (hshaped : Shaped depth doc)
    (hnumbers : NumbersSurvive doc) : ReadsBack (value depth) doc := by
  induction depth generalizing doc with
  | zero =>
    cases doc with
    | null => exact null_readsBack 0
    | bool b => exact bool_readsBack 0 b
    | int n => exact numeral_readsBack 0 (hnumbers (.int n) .self)
    | real x => exact numeral_readsBack 0 (hnumbers (.real x) .self)
    | string s => exact string_readsBack 0 s
    | array items => exact hshaped.elim
    | object fields => exact hshaped.elim
  | succ depth ih =>
    cases doc with
    | null => exact null_readsBack _
    | bool b => exact bool_readsBack _ b
    | int n => exact numeral_readsBack _ (hnumbers (.int n) .self)
    | real x => exact numeral_readsBack _ (hnumbers (.real x) .self)
    | string s => exact string_readsBack _ s
    | array items => exact array_readsBack fun v hv => ih (hshaped v hv) (hnumbers.item hv)
    | object fields =>
      exact object_readsBack (fun f hf => ih (hshaped.2 f hf) (hnumbers.field hf)) hshaped.1

theorem rest_skipSpace_print (doc : Json) :
    ({ rest := Utf8.encode doc.print } : Cursor).skipSpace.rest
      = (bytesOf doc.chars ++ []).dropWhile Cursor.isSpace := by
  rw [Cursor.rest_skipSpace, List.append_nil, Utf8.encode, print, String.toList_ofList]
  rfl

/-- What is printed is parsed to the same document. -/
theorem parse_print {doc : Json} (hshaped : Shaped depthLimit doc)
    (hnumbers : NumbersSurvive doc) : parse doc.print = .ok doc := by
  obtain ⟨c', hread, htail⟩ :=
    (hshaped.readsBack hnumbers).read stops_nil (rest_skipSpace_print doc)
  have hfinish : finish c' = .ok () := by
    simp only [finish, htail, List.isEmpty_nil, if_true]
  rw [parse, parseBytes, hread]
  simp only [ok_bind, hfinish]
  rfl

end Rendezvous.Json
