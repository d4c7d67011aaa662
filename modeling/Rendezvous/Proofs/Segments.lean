import Mathlib.Data.List.TakeWhile
import Rendezvous.Proofs.Identifiers
import Rendezvous.Proofs.Requests

/-!
# Keys in paths

An id or a join code stands in a path as it is. `IsSegment` says of a text that it is made of
letters and digits, so that it is its own percent-encoding and every row of the table of routes that
takes a parameter is reached with it; `IsId.isSegment` and `IsJoinCode.isSegment` prove that of ids
and join codes.
-/

namespace Rendezvous

/-! ## Plain text in UTF-8 -/

namespace Utf8

theorem utf8EncodeChar_of_lt {c : Char} (h : c.toNat < 128) :
    String.utf8EncodeChar c = [UInt8.ofNat c.toNat] := by
  have hval : c.val.toNat < 128 := h
  unfold String.utf8EncodeChar
  rw [if_pos (by omega)]
  rfl

theorem flatMap_utf8EncodeChar {cs : List Char} (h : ∀ c ∈ cs, c.toNat < 128) :
    cs.flatMap String.utf8EncodeChar = cs.map fun c => UInt8.ofNat c.toNat := by
  induction cs with
  | nil => rfl
  | cons c cs ih =>
    rw [List.flatMap_cons, utf8EncodeChar_of_lt (h c (.head _)),
      ih fun d hd => h d (.tail _ hd)]
    rfl

end Utf8

/-- Text without `%` stands for itself. -/
theorem Percent.decodeBytes_of_ne {bytes : List UInt8} (h : ∀ b ∈ bytes, b ≠ 0x25) :
    decodeBytes bytes = bytes := by
  induction bytes with
  | nil => rfl
  | cons b bytes ih =>
    unfold decodeBytes
    split
    · rename_i he
      cases he
      exact absurd rfl (h _ (.head _))
    · rename_i he
      cases he
      rw [ih fun d hd => h d (.tail _ hd)]
    · rename_i he
      cases he

/-! ## Segments -/

namespace Api

def Row.target (row : Row) (text : String) : String :=
  String.ofList (['/'].intercalate (("" :: row.pattern.map (·.getD text)).map String.toList))

/-- The text can stand between the slashes of a path as it is. -/
structure IsSegment (text : String) : Prop where
  nonempty : text ≠ ""
  /-- Only letters and digits, which are never percent-encoded. -/
  plain : ∀ c ∈ text.toList, c.isAlphanum = true
  /-- It is not the fixed part of the paths of join codes. -/
  other : text ≠ "code"

theorem toNat_of_isAlphanum {c : Char} (h : c.isAlphanum = true) :
    48 ≤ c.toNat ∧ c.toNat < 123 ∧ c.toNat ≠ 63 := by
  have hrange : ∀ low high : UInt32, low ≤ c.val ∧ c.val ≤ high →
      low.toNat ≤ c.toNat ∧ c.toNat ≤ high.toNat :=
    fun low high hc => ⟨UInt32.le_iff_toNat_le.mp hc.1, UInt32.le_iff_toNat_le.mp hc.2⟩
  rcases (Bool.or_eq_true _ _).mp h with hletter | hdigit
  · rcases (Bool.or_eq_true _ _).mp hletter with hcapital | hsmall
    · have hbounds : 65 ≤ c.toNat ∧ c.toNat ≤ 90 := hrange 65 90 (of_decide_eq_true hcapital)
      omega
    · obtain ⟨hlow, hhigh⟩ := (Bool.and_eq_true _ _).mp hsmall
      have hbounds : 97 ≤ c.toNat ∧ c.toNat ≤ 122 :=
        hrange 97 122 ⟨of_decide_eq_true hlow, of_decide_eq_true hhigh⟩
      omega
  · obtain ⟨hlow, hhigh⟩ := (Bool.and_eq_true _ _).mp hdigit
    have hbounds : 48 ≤ c.toNat ∧ c.toNat ≤ 57 :=
      hrange 48 57 ⟨of_decide_eq_true hlow, of_decide_eq_true hhigh⟩
    omega

theorem mem_intercalate {sep : List Char} {parts : List (List Char)} {c : Char}
    (h : c ∈ sep.intercalate parts) : c ∈ sep ∨ ∃ part ∈ parts, c ∈ part := by
  induction parts with
  | nil => cases h
  | cons part rest ih =>
    cases rest with
    | nil => exact .inr ⟨part, .head _, by simpa [List.intercalate] using h⟩
    | cons next rest =>
      rw [List.intercalate_cons_cons, List.mem_append, List.mem_append] at h
      rcases h with (h | h) | h
      · exact .inr ⟨part, .head _, h⟩
      · exact .inl h
      · exact (ih h).imp_right fun ⟨other, hother, hc⟩ => ⟨other, .tail _ hother, hc⟩

/-- The parts between the slashes of a path that is put together from letters and digits. -/
theorem segments_intercalate {parts : List String} (hne : parts ≠ [])
    (h : ∀ part ∈ parts, ∀ c ∈ part.toList, c.isAlphanum = true) :
    segments (pathOf (String.ofList (['/'].intercalate (("" :: parts).map String.toList))))
      = "" :: parts := by
  have hparts : ∀ part ∈ ("" :: parts).map String.toList, ∀ c ∈ part, c.isAlphanum = true := by
    intro part hpart
    obtain ⟨text, htext, rfl⟩ := List.mem_map.mp hpart
    cases htext with
    | head => exact fun c hc => nomatch hc
    | tail _ htext => exact h text htext
  have hpath : pathOf (String.ofList (['/'].intercalate (("" :: parts).map String.toList)))
      = ['/'].intercalate (("" :: parts).map String.toList) := by
    unfold pathOf
    rw [String.toList_ofList, List.takeWhile_eq_self_iff.mpr]
    · obtain ⟨part, rest, rfl⟩ := List.exists_cons_of_ne_nil hne
      rw [List.map_cons, List.map_cons, List.intercalate_cons_cons]
      rfl
    · intro c hc
      rcases mem_intercalate hc with hc | ⟨part, hpart, hc⟩
      · obtain rfl := List.mem_singleton.mp hc
        rfl
      · have hbounds := toNat_of_isAlphanum (hparts part hpart c hc)
        have hquery : c ≠ '?' := by
          rintro rfl
          exact hbounds.2.2 rfl
        have hhash : c ≠ '#' := by
          rintro rfl
          exact absurd hbounds.1 (by decide)
        simp [hquery, hhash]
  unfold segments
  rw [hpath, List.splitOn_intercalate, List.map_map]
  · simp [Function.comp_def]
  · intro part hpart hslash
    exact absurd (hparts part hpart '/' hslash) (by decide)
  · simp

variable {text : String}

theorem segments_target (row : Row) (h : ∀ c ∈ text.toList, c.isAlphanum = true) :
    segments (pathOf (row.target text)) = "" :: row.pattern.map (·.getD text) := by
  apply segments_intercalate
  · cases row <;> simp [Row.pattern]
  · intro part hpart
    obtain ⟨piece, hpiece, rfl⟩ := List.mem_map.mp hpart
    cases piece with
    | none => exact h
    | some fixed =>
      have hfixed : ∀ row : Row, ∀ fixed, some fixed ∈ row.pattern →
          ∀ c ∈ fixed.toList, c.isAlphanum = true := by
        intro row
        cases row <;> simp [Row.pattern]
      exact hfixed row fixed hpiece

theorem IsSegment.decode? (h : IsSegment text) : Percent.decode? text = some text := by
  have hascii : ∀ c ∈ text.toList, c.toNat < 128 := by
    intro c hc
    have hbounds := toNat_of_isAlphanum (h.plain c hc)
    omega
  rw [Percent.decode?, Percent.decodeBytes_of_ne, Utf8.decode?_encode]
  intro b hb
  rw [Utf8.encode, Utf8.flatMap_utf8EncodeChar hascii] at hb
  obtain ⟨c, hc, rfl⟩ := List.mem_map.mp hb
  have hbounds := toNat_of_isAlphanum (h.plain c hc)
  intro he
  have hbyte := congrArg UInt8.toNat he
  rw [UInt8.toNat_ofNat'] at hbyte
  have hpercent : (0x25 : UInt8).toNat = 37 := rfl
  omega

/-- A request whose path has the text in it fits its row, with the text for the parameter. -/
theorem IsSegment.fits (h : IsSegment text) (row : Row) {r : Request}
    (hmethod : r.method = row.method) (htarget : r.target = row.target text) :
    row.Fits r text text where
  method := hmethod
  path := by
    rw [htarget]
    exact segments_target row h.plain
  parameter _ := ⟨h.nonempty, h.decode?⟩

/-- Digits of an alphabet without signs; a text longer than `code` is not that word. -/
theorem isSegment_of_digits {alphabet : String}
    (hplain : alphabet.toList.all Char.isAlphanum = true)
    (hdigits : ∀ c ∈ text.toList, c ∈ alphabet.toList) (hlength : 4 < text.toList.length) :
    IsSegment text where
  nonempty := by
    rintro rfl
    exact absurd hlength (by decide)
  plain c hc := List.all_eq_true.mp hplain c (hdigits c hc)
  other := by
    rintro rfl
    exact absurd hlength (by decide)

end Api

theorem IsId.isSegment {text : String} (h : IsId text) : Api.IsSegment text :=
  Api.isSegment_of_digits (by decide) h.digits (by rw [h.length]; decide)

theorem IsJoinCode.isSegment {text : String} (h : IsJoinCode text) : Api.IsSegment text :=
  Api.isSegment_of_digits (by decide) h.digits (by rw [h.length]; decide)

end Rendezvous
