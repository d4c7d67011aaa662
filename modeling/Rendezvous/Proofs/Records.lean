import Rendezvous.Host.Wire
import Rendezvous.Proofs.Nesting
import Rendezvous.Proofs.Timestamps

/-!
# Printed records are read back

A record is read back from its printed text when each of its fields is: the fields fill an empty
draft one after the other, each in a slot of its own. Every value of a field is read back from the
way it is written, whatever follows it.
-/

namespace Rendezvous

open Json

namespace Json

variable {α δ : Type} {c : Cursor} {tail : List UInt8}

/-- A reader takes exactly the text of a value, wherever a value may stand. -/
def Reads (read : Cursor → Except Failure (α × Cursor)) (v : α) (text : List Char) : Prop :=
  ∀ {c : Cursor} {tail : List UInt8}, Stops tail → c.rest = bytesOf text ++ tail →
    ∃ c', read c = .ok (v, c') ∧ c'.rest = tail

/-! ## Strings and instants -/

theorem skipSpace_of_head {b : UInt8} (hb : Cursor.isSpace b = false) (h : c.rest = b :: tail) :
    c.skipSpace.rest = b :: tail := by
  rw [c.rest_skipSpace, h, List.dropWhile_cons, hb]
  rfl

theorem stringAs_reads (expected s : String) : Reads (stringAs expected) s (quote s) := by
  intro c tail _ h
  have hrest : c.skipSpace.rest = bytesOf (quote s) ++ tail := by
    rw [c.rest_skipSpace, h, dropWhile_quote]
  obtain ⟨c', hread, htail⟩ := text_quote s hrest
  refine ⟨c', ?_, htail⟩
  simp only [stringAs, peek?_quote hrest, if_true, hread]

theorem readString_reads (s : String) : Reads readString s (quote s) :=
  stringAs_reads _ s

theorem readInstant_reads (t : Instant) : Reads readInstant t (quote (Stamp.short t)) := by
  intro c tail hstop h
  obtain ⟨c', hread, htail⟩ := stringAs_reads "an RFC 3339 formatted date and time string"
    (Stamp.short t) hstop h
  refine ⟨c', ?_, htail⟩
  rw [readInstant, hread, ok_bind]
  simp only [Stamp.relaxed_short]

/-! ## Numbers -/

theorem le_foldl_digits (digits : List UInt8) (n : Nat) :
    n ≤ digits.foldl (fun n b => n * 10 + (b.toNat - 48)) n := by
  induction digits generalizing n with
  | nil => exact Nat.le_refl n
  | cons d digits ih =>
    have hle := ih (n * 10 + (d.toNat - 48))
    rw [List.foldl_cons]
    omega

/-- Digits of a number that 64 bits hold are all taken. -/
theorem appendDigits_of_le {digits : List UInt8} {n : Nat}
    (h : digits.foldl (fun n b => n * 10 + (b.toNat - 48)) n ≤ greatestWord) :
    appendDigits digits n = (digits.foldl (fun n b => n * 10 + (b.toNat - 48)) n, []) := by
  induction digits generalizing n with
  | nil => rfl
  | cons d digits ih =>
    rw [List.foldl_cons] at h ⊢
    have hle := le_foldl_digits digits (n * 10 + (d.toNat - 48))
    simp only [appendDigits, if_neg (by omega : ¬ greatestWord < n * 10 + (d.toNat - 48)), ih h]

theorem afterDigits_stops (hstop : Stops tail) (n : Nat) (h : c.rest = tail) :
    afterDigits false true n 0 c = .ok (.int n, c) := by
  have hpeek : ∀ b, Inner b → c.peek? ≠ some b := by
    intro b hb hc
    rw [Cursor.peek?, h] at hc
    rcases hstop b hc with rfl | rfl | rfl
    · exact hb.1 rfl
    · exact hb.2.1 rfl
    · exact hb.2.2 rfl
  have hletter : isExponentLetter c.peek? = false := by
    rw [isExponentLetter, Bool.or_eq_false_iff, beq_eq_false_iff_ne, beq_eq_false_iff_ne]
    exact ⟨hpeek _ (by decide), hpeek _ (by decide)⟩
  simp only [afterDigits, if_neg (hpeek 0x2E (by decide)), hletter]
  rfl

/-- A natural number as it is written: one zero, or digits that do not begin with zero. -/
theorem bytesOf_naturalDigits (n : Nat) : ∃ width, n < 10 ^ (width + 1) ∧
    bytesOf (Decimal.naturalDigits n) = Decimal.fixedBytes (width + 1) n ∧
    (n = 0 ∧ width = 0 ∨ 0 < n ∧ n / 10 ^ width % 10 ≠ 0) := by
  obtain ⟨width, hdigits, hlt, hle⟩ := Decimal.exists_naturalDigits n
  rcases Nat.eq_zero_or_pos n with rfl | hpos
  · exact ⟨0, by decide, rfl, .inl ⟨rfl, rfl⟩⟩
  · refine ⟨width, hlt, by rw [hdigits]; rfl, .inr ⟨hpos, ?_⟩⟩
    have hone : 0 < n / 10 ^ width := Nat.div_pos (hle hpos) (Nat.pow_pos (by decide))
    have hten : n / 10 ^ width < 10 := by
      rw [Nat.div_lt_iff_lt_mul (Nat.pow_pos (by decide)), ← Nat.pow_succ']
      exact hlt
    omega

theorem numeral_naturalDigits {n : Nat} (hn : n ≤ greatestWord) (hstop : Stops tail)
    (h : c.rest = bytesOf (Decimal.naturalDigits n) ++ tail) :
    isDigitAt c = true ∧ ∃ c', numeral c = .ok (.int n, c') ∧ c'.rest = tail := by
  obtain ⟨width, hlt, hbytes, hzero⟩ := bytesOf_naturalDigits n
  rw [hbytes] at h
  have hhead : c.rest = UInt8.ofNat (48 + n / 10 ^ width % 10) ::
      (Decimal.fixedBytes width n ++ tail) := by
    rw [h, Decimal.fixedBytes_eq_cons, List.cons_append]
  have hdigit := Decimal.isDigit_digit (n / 10 ^ width)
  have hpeek := Cursor.peek?_eq hhead
  have hminus : ¬ c.peek? = some 0x2D := by
    intro hminus
    rw [Option.some.inj (hpeek.symm.trans hminus)] at hdigit
    cases hdigit
  refine ⟨by rw [isDigitAt, hpeek]; exact hdigit, ?_⟩
  rw [numeral, if_neg hminus]
  simp only [unsignedNumeral, hpeek, hdigit, not_true_eq_false, if_false]
  rcases hzero with ⟨rfl, rfl⟩ | ⟨hpos, hlead⟩
  · have hnext : c.next.rest = tail := Cursor.rest_next hhead
    have hend : isDigitAt c.next = false := by
      rw [isDigitAt, Cursor.peek?, hnext]
      cases tail with
      | nil => rfl
      | cons b tail => exact hstop.not_isDigit b rfl
    refine ⟨c.next, ?_, hnext⟩
    rw [if_pos (by decide), hend]
    exact afterDigits_stops hstop 0 hnext
  · have hne : ¬ UInt8.ofNat (48 + n / 10 ^ width % 10) = 48 := by
      intro h48
      have htoNat := Decimal.toNat_digit (n / 10 ^ width)
      rw [h48] at htoNat
      exact hlead (Nat.add_left_cancel htoNat.symm)
    have hdigits : leadingDigits c = Decimal.fixedBytes (width + 1) n := by
      have hend : tail.takeWhile Decimal.isDigit = [] := by
        cases tail with
        | nil => rfl
        | cons b tail =>
          rw [List.takeWhile_cons, hstop.not_isDigit b rfl]
          rfl
      rw [leadingDigits, h, List.takeWhile_append_of_pos
        (List.all_eq_true.mp (Decimal.all_isDigit_fixedBytes (width + 1) n)), hend,
        List.append_nil]
    have hvalue := Decimal.value_fixedBytes hlt
    rw [Decimal.value] at hvalue
    have htaken : appendDigits (Decimal.fixedBytes (width + 1) n) 0 = (n, []) := by
      rw [appendDigits_of_le (by rw [hvalue]; exact hn), hvalue]
    have hrest := Cursor.rest_skip h
    refine ⟨_, ?_, hrest⟩
    rw [if_neg hne, hdigits, htaken]
    exact afterDigits_stops hstop n hrest

theorem head_naturalDigits (n : Nat) :
    ∃ b rest, bytesOf (Decimal.naturalDigits n) = b :: rest ∧ Decimal.isDigit b = true := by
  obtain ⟨width, -, hbytes, -⟩ := bytesOf_naturalDigits n
  exact ⟨_, _, by rw [hbytes, Decimal.fixedBytes_eq_cons], Decimal.isDigit_digit _⟩

theorem isSpace_of_isDigit {b : UInt8} (hb : Decimal.isDigit b = true) :
    Cursor.isSpace b = false := by
  rw [Decimal.isDigit, Bool.and_eq_true, decide_eq_true_eq, decide_eq_true_eq] at hb
  simp only [Cursor.isSpace, Bool.or_eq_false_iff, beq_eq_false_iff_ne]
  refine ⟨⟨⟨?_, ?_⟩, ?_⟩, ?_⟩ <;>
  · rintro rfl
    exact absurd hb.1 (by decide)

theorem ofInt?_val (p : Port) : Port.ofInt? (p.val : Int) = some p := by
  rw [Port.ofInt?, dif_pos ⟨Int.natCast_nonneg _, Int.ofNat_lt.mpr p.isLt⟩]
  rfl

theorem readPort_of_numeral {n : Int} {p : Port} {c' : Cursor}
    (hdigit : isDigitAt c.skipSpace = true) (hread : numeral c.skipSpace = .ok (.int n, c'))
    (hport : Port.ofInt? n = some p) : readPort c = .ok (p, c') := by
  simp only [readPort, hdigit, or_true, if_true, hread, ok_bind, hport]

theorem readPort_reads (p : Port) : Reads readPort p (Decimal.naturalDigits p.val) := by
  intro c tail hstop h
  have hword : p.val ≤ greatestWord := Nat.le_trans (Nat.le_of_lt p.isLt) (by decide)
  obtain ⟨b, rest, hhead, hb⟩ := head_naturalDigits p.val
  have hskip : c.skipSpace.rest = bytesOf (Decimal.naturalDigits p.val) ++ tail := by
    rw [hhead, List.cons_append] at h ⊢
    exact skipSpace_of_head (isSpace_of_isDigit hb) h
  obtain ⟨hdigit, c', hread, htail⟩ := numeral_naturalDigits hword hstop hskip
  exact ⟨c', readPort_of_numeral hdigit hread (ofInt?_val p), htail⟩

/-! ## Values that may be missing -/

theorem readOptional_none (read : Cursor → Except Failure (α × Cursor)) (write : α → List Char) :
    Reads (readOptional read) none (orNull write none) := by
  intro c tail _ h
  have hrest : c.skipSpace.rest = 0x6E :: ([0x75, 0x6C, 0x6C] ++ tail) :=
    skipSpace_of_head (by decide) h
  obtain ⟨c', hread, htail⟩ := ident_read [0x75, 0x6C, 0x6C] (Cursor.rest_next hrest)
  refine ⟨c', ?_, htail⟩
  simp only [readOptional, Cursor.peek?_eq hrest, if_true, hread, ok_bind]
  rfl

/-- A value is not taken for `null` if its text does not begin like it. -/
theorem readOptional_some {read : Cursor → Except Failure (α × Cursor)} (write : α → List Char)
    {v : α} (hreads : Reads read v (write v)) {b : UInt8} {rest : List UInt8}
    (hhead : bytesOf (write v) = b :: rest) (hspace : Cursor.isSpace b = false) (hb : b ≠ 0x6E) :
    Reads (readOptional read) (some v) (orNull write (some v)) := by
  intro c tail hstop h
  have hskip : c.skipSpace.rest = bytesOf (write v) ++ tail := by
    rw [orNull, hhead, List.cons_append] at h
    rw [hhead, List.cons_append]
    exact skipSpace_of_head hspace h
  have hpeek : ¬ c.skipSpace.peek? = some 0x6E := by
    rw [hhead] at hskip
    rw [Cursor.peek?_eq hskip]
    exact fun hnull => hb (Option.some.inj hnull)
  obtain ⟨c', hread, htail⟩ := hreads hstop hskip
  refine ⟨c', ?_, htail⟩
  simp only [readOptional, if_neg hpeek, hread, ok_bind]
  rfl

/-! ## Records -/

/-- Fields that fill a draft one after the other: each has a slot of its own, empty so far, which
reads what is written. -/
inductive Fills (slots : List (Slot δ)) : δ → List (String × List Char) → δ → Prop
  | done {draft : δ} : Fills slots draft [] draft
  | field {draft next filled : δ} {key : String} {text : List Char}
      {rest : List (String × List Char)} {slot : Slot δ}
      (known : slots.find? (·.name == key) = some slot) (empty : slot.present draft = false)
      (reads : Reads (slot.read draft) next text) (more : Fills slots next rest filled) :
      Fills slots draft ((key, text) :: rest) filled

/-- One field is read behind its key. -/
theorem fields_step (s : Shape δ α) {draft next : δ} {f : String × List Char} {slot : Slot δ}
    (known : s.slots.find? (·.name == f.1) = some slot) (empty : slot.present draft = false)
    (reads : Reads (slot.read draft) next f.2) {fields : List (String × List Char)} {first : Bool}
    {c₁ : Cursor} (hkey : nextKey first c = .ok (some f.1, c₁))
    (h₁ : c₁.rest = 0x3A :: (bytesOf f.2 ++ moreFields fields tail)) (b : UInt8)
    (budget : List UInt8) :
    ∃ c₂, s.fields (b :: budget) first draft c = s.fields budget false next c₂ ∧
      c₂.rest = moreFields fields tail := by
  obtain ⟨c', hcolon, h'⟩ := colon_read h₁
  obtain ⟨c₂, hread, h₂⟩ := reads (stops_moreFields fields tail) h'
  refine ⟨c₂, ?_, h₂⟩
  simp only [Shape.fields, hkey, known, empty, hcolon, hread, within]
  rfl

theorem fields_end (s : Shape δ α) {filled : δ} {v : α} (complete : s.complete filled = .ok v)
    (h : c.rest = 0x7D :: tail) (first : Bool) (b : UInt8) (budget : List UInt8) :
    ∃ c', s.fields (b :: budget) first filled c = .ok (v, c') ∧ c'.rest = tail := by
  have hrest := skipSpace_of_head (by decide) h
  refine ⟨c.skipSpace.next, ?_, Cursor.rest_next hrest⟩
  simp only [Shape.fields, nextKey_end hrest, complete]

theorem fields_read_more (s : Shape δ α) {draft filled : δ} {fields : List (String × List Char)}
    {v : α} (hfills : Fills s.slots draft fields filled) (complete : s.complete filled = .ok v)
    {budget : List UInt8} (hbudget : fields.length < budget.length)
    (h : c.rest = moreFields fields tail) :
    ∃ c', s.fields budget false draft c = .ok (v, c') ∧ c'.rest = tail := by
  induction hfills generalizing budget c with
  | done =>
    cases budget with
    | nil => cases hbudget
    | cons b budget => exact fields_end s complete h false b budget
  | field known empty reads _ ih =>
    cases budget with
    | nil => cases hbudget
    | cons b budget =>
      rw [moreFields_cons] at h
      obtain ⟨c₁, hkey, h₁⟩ := nextKey_more (skipSpace_of_head (by decide) h)
      obtain ⟨c₂, hstep, h₂⟩ := fields_step s known empty reads hkey h₁ b budget
      rw [hstep]
      exact ih complete (Nat.lt_of_succ_lt_succ hbudget) h₂

/-- The fields of a record are read up to its closing brace. -/
theorem fields_read (s : Shape δ α) {draft filled : δ} {fields : List (String × List Char)}
    {v : α} (hfills : Fills s.slots draft fields filled) (complete : s.complete filled = .ok v)
    (budget : List UInt8) (hbudget : fields.length < budget.length)
    (h : c.rest = bytesOf (commas (fields.map fieldChars)) ++ 0x7D :: tail) :
    ∃ c', s.fields budget true draft c = .ok (v, c') ∧ c'.rest = tail := by
  cases budget with
  | nil => cases hbudget
  | cons b budget =>
    cases hfills with
    | done => exact fields_end s complete h true b budget
    | field known empty reads more =>
      rw [bytesOf_commas_cons] at h
      obtain ⟨c₁, hkey, h₁⟩ := nextKey_first h
      obtain ⟨c₂, hstep, h₂⟩ := fields_step s known empty reads hkey h₁ b budget
      rw [hstep]
      exact fields_read_more s more complete (Nat.lt_of_succ_lt_succ hbudget) h₂

theorem shape_reads (s : Shape δ α) (filled : δ) {fields : List (String × List Char)} {v : α}
    (hfills : Fills s.slots s.start fields filled) (complete : s.complete filled = .ok v) :
    Reads s.read v (bracesOf fields) := by
  intro c tail _ h
  rw [bytesOf_bracesOf] at h
  have hrest := skipSpace_of_head (by decide) h
  have hlength := length_le_commas (fields.map fieldChars)
  rw [List.length_map] at hlength
  obtain ⟨c', hread, htail⟩ := fields_read s hfills complete c.skipSpace.rest
    (by rw [hrest, List.length_cons, List.length_append, List.length_cons]; omega)
    (Cursor.rest_next hrest)
  refine ⟨c', ?_, htail⟩
  simp only [Shape.read, Cursor.peek?_eq hrest, if_true, hread]

/-- What is read wherever it may stand is read as a whole text. -/
theorem parseBytes_of_reads {s : Shape δ α} {v : α} {text : List Char} (h : Reads s.read v text) :
    s.parseBytes (Utf8.encode (String.ofList text)) = .ok v := by
  have hrest : ({ rest := Utf8.encode (String.ofList text) } : Cursor).rest
      = bytesOf text ++ [] := by
    rw [List.append_nil, Utf8.encode, String.toList_ofList]
    rfl
  obtain ⟨c', hread, htail⟩ := h stops_nil hrest
  have hend : c'.skipSpace.rest.isEmpty = true := by
    rw [c'.rest_skipSpace, htail]
    rfl
  rw [Shape.parseBytes, hread, ok_bind]
  simp only [finish, hend, if_true]
  rfl

theorem Slot.of_reads {read : Cursor → Except Failure (α × Cursor)} {v : α} {text : List Char}
    (h : Reads read v text) (name : String) (get : δ → Option α) (set : δ → α → δ) (draft : δ) :
    Reads ((Slot.of name read get set).read draft) (set draft v) text := by
  intro c tail hstop hrest
  obtain ⟨c', hread, htail⟩ := h hstop hrest
  refine ⟨c', ?_, htail⟩
  simp only [Slot.of, hread, ok_bind]
  rfl

end Json

/-! ## Hosts, announcements and departures -/

theorem Host.shape_reads (h : Host) : Reads Host.shape.read h h.chars := by
  refine Json.shape_reads Host.shape ⟨some h.id, some h.address, some h.port, some h.code,
    some h.createdAt, some h.updatedAt⟩ ?_ rfl
  refine .field rfl rfl (Slot.of_reads (readString_reads h.id) _ _ _ _) ?_
  refine .field rfl rfl (Slot.of_reads (readString_reads h.address) _ _ _ _) ?_
  refine .field rfl rfl (Slot.of_reads (readPort_reads h.port) _ _ _ _) ?_
  refine .field rfl rfl (Slot.of_reads (readString_reads h.code) _ _ _ _) ?_
  refine .field rfl rfl (Slot.of_reads (readInstant_reads h.createdAt) _ _ _ _) ?_
  refine .field rfl rfl (Slot.of_reads (readInstant_reads h.updatedAt) _ _ _ _) ?_
  exact .done

theorem readOptional_address (address : Option String) :
    Reads (readOptional readString) address (orNull quote address) := by
  cases address with
  | none => exact readOptional_none _ _
  | some s =>
    exact readOptional_some quote (readString_reads s) (bytesOf_quote s) (by decide) (by decide)

theorem readOptional_port (port : Option Port) : Reads (readOptional readPort) port
    (orNull (fun p : Port => Decimal.naturalDigits p.val) port) := by
  cases port with
  | none => exact readOptional_none _ _
  | some p =>
    obtain ⟨b, rest, hhead, hb⟩ := head_naturalDigits p.val
    refine readOptional_some (fun p : Port => Decimal.naturalDigits p.val) (readPort_reads p) hhead
      (isSpace_of_isDigit hb) ?_
    rintro rfl
    cases hb

theorem Announcement.shape_reads (a : Announcement) : Reads Announcement.shape.read a
    (bracesOf [("address", orNull quote a.address),
      ("port", orNull (fun p : Port => Decimal.naturalDigits p.val) a.port)]) := by
  refine Json.shape_reads Announcement.shape ⟨some a.address, some a.port⟩ ?_ rfl
  refine .field rfl rfl (Slot.of_reads (readOptional_address a.address) _ _ _ _) ?_
  refine .field rfl rfl (Slot.of_reads (readOptional_port a.port) _ _ _ _) ?_
  exact .done

theorem Departure.shape_reads (d : Departure) : Reads Departure.shape.read d
    (bracesOf [("message", quote d.message), ("host", d.host.chars)]) := by
  refine Json.shape_reads Departure.shape ⟨some d.message, some d.host⟩ ?_ rfl
  refine .field rfl rfl (Slot.of_reads (readString_reads d.message) _ _ _ _) ?_
  refine .field rfl rfl (Slot.of_reads d.host.shape_reads _ _ _ _) ?_
  exact .done

/-- A type whose values are read back from their printed text; so each text that is a value of the
type at all is printed to one that is the same value, and that is printed to itself. -/
structure RoundTrips {δ α : Type} (shape : Shape δ α) (print : α → String) : Prop where
  parse_print : ∀ v, shape.parseBytes (Utf8.encode (print v)) = .ok v
  print_parse : ∀ bytes v, shape.parseBytes bytes = .ok v →
    ∃ w, shape.parseBytes (Utf8.encode (print v)) = .ok w ∧ w = v ∧ print w = print v

theorem roundTrips_of_reads {δ α : Type} {shape : Shape δ α} {text : α → List Char}
    (h : ∀ v, Reads shape.read v (text v)) :
    RoundTrips shape fun v => String.ofList (text v) where
  parse_print v := parseBytes_of_reads (h v)
  print_parse _ v _ := ⟨v, parseBytes_of_reads (h v), rfl, rfl⟩

/-- Every host, every announcement and every departure is read back from its printed text. -/
theorem records_roundTrip : RoundTrips Host.shape Host.print ∧
    RoundTrips Announcement.shape Announcement.print ∧
    RoundTrips Departure.shape Departure.print :=
  ⟨roundTrips_of_reads Host.shape_reads, roundTrips_of_reads Announcement.shape_reads,
    roundTrips_of_reads Departure.shape_reads⟩

end Rendezvous
