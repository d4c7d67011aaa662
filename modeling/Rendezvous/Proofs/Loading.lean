import Rendezvous.Config.Reading
import Rendezvous.Proofs.Bytes

/-!
# Loading

A configuration is loaded when all steps succeed: the file is read, it is text, the text is a
document, every value fits, and the lifetime is in range. The environment has no part in that.
-/

namespace Rendezvous.Config

theorem check_eq_ok {c : Config} : c.check = .ok () ↔
    1 ≤ c.terms.lifetimeSeconds ∧ c.terms.lifetimeSeconds ≤ 9223372036854775 := by
  unfold check Expiry.duration?
  by_cases hzero : c.terms.lifetimeSeconds = 0
  · rw [if_pos hzero]
    constructor
    · intro h
      cases h
    · omega
  · rw [if_neg hzero]
    by_cases hlong : c.terms.lifetimeSeconds ≤ 9223372036854775
    · rw [if_pos hlong]
      exact iff_of_true rfl ⟨by omega, hlong⟩
    · rw [if_neg hlong]
      constructor
      · intro h
        cases h
      · omega

theorem ofText_eq_ok {path text : String} {c : Config} :
    ofText path text = .ok c ↔
      ∃ entries, Toml.parse? .standard text = some entries ∧ ofDocument entries = .ok c ∧
        c.check = .ok () := by
  unfold ofText
  cases hparse : Toml.parse? .standard text with
  | none => simp
  | some entries =>
    cases hdoc : ofDocument entries with
    | error fault => simp [hdoc]
    | ok found =>
      simp only [Option.some.injEq, exists_eq_left', hdoc, Except.ok.injEq]
      cases hcheck : found.check with
      | error fault =>
        constructor
        · intro h
          cases h
        · rintro ⟨rfl, h⟩
          rw [hcheck] at h
          cases h
      | ok =>
        constructor
        · intro h
          cases h
          exact ⟨rfl, hcheck⟩
        · rintro ⟨rfl, _⟩
          rfl

theorem load_eq_ok {disk : Disk} {path : String} {token : EnvironmentValue} {c : Config} :
    load disk path token = .ok c ↔
      ∃ bytes text found, disk.read path = .ok bytes ∧ Utf8.decode? bytes = some text ∧
        ofText path text = .ok found ∧ c = { found with token := token.text? <|> found.token } := by
  unfold load
  cases hread : disk.read path with
  | error fault => simp
  | ok bytes =>
    cases htext : Utf8.decode? bytes with
    | none => simp [htext]
    | some text =>
      cases hfound : ofText path text with
      | error fault => simp [htext, hfound, Except.map]
      | ok found => simp [htext, hfound, Except.map, eq_comm]

/-! ## A disk with one file -/

def diskOf (text : String) : Disk := ⟨[(["c"], .file (Utf8.encode text))]⟩

theorem read_diskOf (text : String) : (diskOf text).read "c" = .ok (Utf8.encode text) := by
  have hnames : ("c".toList.splitOn '/').map String.ofList = ["c"] := by decide
  unfold Disk.read Disk.locate
  rw [if_neg (by decide), hnames]
  rfl

theorem load_diskOf (text : String) (token : EnvironmentValue) :
    load (diskOf text) "c" token
      = (ofText "c" text).map fun c => { c with token := token.text? <|> c.token } := by
  unfold load
  rw [read_diskOf]
  dsimp only
  rw [Utf8.decode?_encode]

theorem load_diskOf_eq_ok {text : String} {file : Config}
    (h : (ofText "c" text).toOption = some file) (token : EnvironmentValue) :
    load (diskOf text) "c" token = .ok { file with token := token.text? <|> file.token } := by
  rw [load_diskOf]
  generalize ofText "c" text = result at h
  cases result with
  | error fault => cases h
  | ok found =>
    cases h
    rfl

end Rendezvous.Config
