import Rendezvous.Number.Layout

/-!
# TOML values

The values of a TOML document. Dates and times are kept only as far as that they are there; a
table keeps its entries in the order in which they were written.
-/

namespace Rendezvous.Toml

/-- A number with a fraction, or one of the three that are none. -/
inductive Real
  | finite (value : Double)
  | infinite (negative : Bool)
  | undefined
  deriving DecidableEq, Repr

def Real.text : Real → String
  | .finite x => Layout.plain.write x.shortest
  | .infinite negative => if negative then "-inf" else "inf"
  | .undefined => "NaN"

inductive Value
  | string (text : String)
  | integer (value : Int)
  | real (value : Real)
  | boolean (value : Bool)
  | moment
  | array (items : List Value)
  | table (entries : List (String × Value))
  /-- Tables that were written one by one under a header of their own. -/
  | tables (items : List (List (String × Value)))
  deriving Inhabited

/-! ## Equality of values -/

mutual

def Value.same : Value → Value → Bool
  | .string a, .string b => a = b
  | .integer a, .integer b => a = b
  | .real a, .real b => a = b
  | .boolean a, .boolean b => a = b
  | .moment, .moment => true
  | .array as, .array bs => sameItems as bs
  | .table as, .table bs => sameEntries as bs
  | .tables as, .tables bs => sameTables as bs
  | _, _ => false

def sameItems : List Value → List Value → Bool
  | [], [] => true
  | a :: as, b :: bs => a.same b && sameItems as bs
  | _, _ => false

def sameEntries : List (String × Value) → List (String × Value) → Bool
  | [], [] => true
  | (key, a) :: as, (key', b) :: bs => key = key' && a.same b && sameEntries as bs
  | _, _ => false

def sameTables : List (List (String × Value)) → List (List (String × Value)) → Bool
  | [], [] => true
  | a :: as, b :: bs => sameEntries a b && sameTables as bs
  | _, _ => false

end

mutual

theorem Value.same_iff : ∀ a b : Value, a.same b = true ↔ a = b
  | .string _, b | .integer _, b | .real _, b | .boolean _, b | .moment, b => by
    cases b <;> simp [Value.same]
  | .array as, b => by cases b <;> simp [Value.same, sameItems_iff as]
  | .table as, b => by cases b <;> simp [Value.same, sameEntries_iff as]
  | .tables as, b => by cases b <;> simp [Value.same, sameTables_iff as]

theorem sameItems_iff : ∀ as bs : List Value, sameItems as bs = true ↔ as = bs
  | [], bs => by cases bs <;> simp [sameItems]
  | a :: as, bs => by cases bs <;> simp [sameItems, a.same_iff, sameItems_iff as]

theorem sameEntries_iff : ∀ as bs : List (String × Value), sameEntries as bs = true ↔ as = bs
  | [], bs => by cases bs <;> simp [sameEntries]
  | _ :: _, [] => by simp [sameEntries]
  | (key, a) :: as, (key', b) :: bs => by simp [sameEntries, a.same_iff, sameEntries_iff as]

theorem sameTables_iff : ∀ as bs : List (List (String × Value)), sameTables as bs = true ↔ as = bs
  | [], bs => by cases bs <;> simp [sameTables]
  | a :: as, bs => by cases bs <;> simp [sameTables, sameEntries_iff a, sameTables_iff as]

end

instance : DecidableEq Value := fun a b => decidable_of_iff _ (a.same_iff b)

end Rendezvous.Toml
