import Mathlib.Data.List.Nodup
import Mathlib.Tactic.ByContra
import Rendezvous.Proofs.Distinct
import Rendezvous.Proofs.Limits
import Rendezvous.Proofs.Loading

/-!
# The file over the defaults, the environment over the file

`settings` lists what a file can set: where it stands, what it is otherwise, and which values it
takes. `Config.load_settles` says for every document whose sections are tables that it is accepted
exactly if all of that fits and the lifetime is in range, that each setting is what the document
says about it and nothing else, whatever the order and whatever else is there, and that the
environment only replaces the token.
-/

namespace Rendezvous.Config

open Toml

/-! ## What values mean -/

/-- A table or an array without content. -/
inductive Hollow : Value → Prop
  | table : Hollow (.table [])
  | array : Hollow (.array [])
  | tables : Hollow (.tables [])

/-- A backend goes by its name, or by a table with the name as the only key. -/
inductive Names : Value → Backend → Prop
  | plain (b : Backend) : Names (.string b.name) b
  | wrapped (b : Backend) {content : Value} (h : Hollow content) :
    Names (.table [(b.name, content)]) b

def IsText (v : Value) (s : String) : Prop := v = .string s

def IsCount (limit : Nat) (v : Value) (n : Nat) : Prop := v = .integer n ∧ n < limit

/-- The value is a text, and so there is one. -/
def IsGiven (v : Value) (s : Option String) : Prop := ∃ t, v = .string t ∧ some t = s

theorem backendNamed_eq_ok {name : String} {b : Backend} :
    backendNamed name = .ok b ↔ name = b.name := by
  have hne : Backend.database.name ≠ Backend.memory.name := by decide
  unfold backendNamed
  split
  · rename_i h
    subst h
    cases b with
    | database => simp
    | memory => simp [hne]
  · rename_i hdatabase
    split
    · rename_i h
      subst h
      cases b with
      | database => simp [hne.symm]
      | memory => simp
    · rename_i hmemory
      cases b with
      | database => simp [hdatabase]
      | memory => simp [hmemory]

theorem emptyContent_eq_ok {v : Value} : emptyContent v = .ok () ↔ Hollow v := by
  constructor
  · intro h
    unfold emptyContent at h
    split at h
    all_goals try cases h
    all_goals
      split at h
      · rename_i hempty
        obtain rfl := List.isEmpty_iff.mp hempty
        constructor
      · cases h
  · intro h
    cases h with
    | table => rfl
    | array => rfl
    | tables => rfl

theorem backendOf_eq_ok {v : Value} {b : Backend} : backendOf v = .ok b ↔ Names v b := by
  constructor
  · intro h
    unfold backendOf at h
    split at h
    · rw [backendNamed_eq_ok] at h
      subst h
      exact .plain b
    · cases h
    · rename_i name content
      cases hname : backendNamed name with
      | error fault =>
        rw [hname] at h
        cases h
      | ok found =>
        cases hcontent : emptyContent content with
        | error fault =>
          rw [hname, hcontent] at h
          cases h
        | ok =>
          rw [hname, hcontent] at h
          cases h
          obtain rfl := backendNamed_eq_ok.mp hname
          exact .wrapped b (emptyContent_eq_ok.mp hcontent)
    · cases h
    · cases h
  · intro h
    cases h with
    | plain => exact backendNamed_eq_ok.mpr rfl
    | @wrapped _ content hcontent =>
      show (do
        let found ← backendNamed b.name
        emptyContent content
        return found) = .ok b
      rw [backendNamed_eq_ok.mpr rfl, emptyContent_eq_ok.mpr hcontent]
      rfl

theorem text_eq_ok {expected : String} {v : Value} {s : String} :
    text expected v = .ok s ↔ IsText v s := by
  unfold text IsText
  split
  · simp
  · rename_i hv
    simp only [reduceCtorEq, false_iff]
    rintro rfl
    exact hv s rfl

theorem count_eq_ok {limit : Nat} {expected : String} {v : Value} {n : Nat} :
    count limit expected v = .ok n ↔ IsCount limit v n := by
  unfold count IsCount
  split
  · rename_i m
    split
    · rename_i hm
      rw [Except.ok.injEq, Value.integer.injEq]
      omega
    · rename_i hm
      simp only [reduceCtorEq, Value.integer.injEq, false_iff]
      omega
  · rename_i hv
    simp only [reduceCtorEq, false_iff, not_and]
    rintro rfl
    exact absurd rfl (hv _)

/-! ## Settings -/

/-- Something that a file can set. -/
structure Setting where
  Content : Type
  /-- The section and the key. -/
  place : String × String
  /-- What it is when the file says nothing. -/
  standard : Content
  /-- The value in a file says this. -/
  Means : Value → Content → Prop
  get : Config → Content

def lifetimeSetting : Setting where
  Content := Nat
  place := ("directory", "ttl_secs")
  standard := 432000
  Means := IsCount 18446744073709551616
  get c := c.terms.lifetimeSeconds

def settings : List Setting :=
  [{ Content := Backend, place := ("directory", "backend"), standard := .database, Means := Names
     get := fun c => c.backend },
   { Content := String, place := ("directory", "db_path"), standard := "/var/lib/hostdir/hosts.db"
     Means := IsText, get := fun c => c.databasePath },
   lifetimeSetting,
   { Content := Nat, place := ("directory", "code_attempts"), standard := 8
     Means := IsCount 4294967296, get := fun c => c.terms.codeAttempts },
   { Content := Nat, place := ("directory", "storage_timeout_ms"), standard := 2000
     Means := IsCount 18446744073709551616, get := fun c => c.terms.storageLimit },
   { Content := Nat, place := ("directory", "sweep_delete_timeout_ms"), standard := 250
     Means := IsCount 18446744073709551616, get := fun c => c.terms.evictionLimit },
   { Content := String, place := ("api", "listen"), standard := "[::]:8080", Means := IsText
     get := fun c => c.listen },
   { Content := Option String, place := ("settings", "token"), standard := none, Means := IsGiven
     get := fun c => c.token }]

theorem standard_eq : ∀ s ∈ settings, s.get {} = s.standard := by
  simp only [settings, lifetimeSetting, List.forall_mem_cons]
  simp

/-- The settings are all that there is to a configuration. -/
theorem eq_of_settings {c c' : Config} (h : ∀ s ∈ settings, s.get c = s.get c') : c = c' := by
  obtain ⟨backend, path, ⟨lifetime, attempts, storage, eviction⟩, listen, token⟩ := c
  obtain ⟨backend', path', ⟨lifetime', attempts', storage', eviction'⟩, listen', token'⟩ := c'
  simp only [settings, lifetimeSetting, List.forall_mem_cons] at h
  obtain ⟨rfl, rfl, rfl, rfl, rfl, rfl, rfl, rfl, _⟩ := h
  rfl

/-- A value says one thing at most. -/
theorem means_unique : ∀ s ∈ settings, ∀ v a b, s.Means v a → s.Means v b → a = b := by
  have hnames : ∀ v a b, Names v a → Names v b → a = b := by
    intro v a b ha hb
    rw [← backendOf_eq_ok] at ha hb
    exact Except.ok.inj (ha.symm.trans hb)
  have htext : ∀ v a b, IsText v a → IsText v b → a = b := by
    rintro v a b rfl hb
    exact Value.string.inj hb
  have hcount : ∀ limit v a b, IsCount limit v a → IsCount limit v b → a = b := by
    rintro limit v a b ⟨rfl, _⟩ ⟨hb, _⟩
    exact Int.ofNat.inj (Value.integer.inj hb)
  have hgiven : ∀ v a b, IsGiven v a → IsGiven v b → a = b := by
    rintro v a b ⟨s, rfl, rfl⟩ ⟨t, ht, rfl⟩
    exact congrArg some (Value.string.inj ht)
  simp only [settings, lifetimeSetting, List.forall_mem_cons]
  exact ⟨hnames, htext, hcount _, hcount _, hcount _, hcount _, htext, hgiven, by simp⟩

/-! ## Setters -/

/-- The setter takes the values of a setting, and sets that and nothing else. -/
structure Sets (s : Setting) (set : Setter) : Prop where
  accepts : ∀ v c, (∃ c', set v c = .ok c') ↔ ∃ a, s.Means v a
  sets : ∀ v c c', set v c = .ok c' → s.Means v (s.get c')
  keeps : ∀ v c c', set v c = .ok c' →
    ∀ other ∈ settings, other.place ≠ s.place → other.get c' = other.get c

/-- A setter reads the value and puts what it read, as `what` has it, into the configuration. -/
theorem sets_of_read {α : Type} {s : Setting} {read : Value → Except ValueFault α}
    {put : α → Config → Config} (what : α → s.Content)
    (hmeans : ∀ v b, s.Means v b ↔ ∃ a, read v = .ok a ∧ what a = b)
    (hget : ∀ a c, s.get (put a c) = what a)
    (hkeeps : ∀ a c, ∀ other ∈ settings, other.place ≠ s.place →
      other.get (put a c) = other.get c) :
    Sets s fun v c => do return put (← read v) c := by
  have hset : ∀ v c c', (do return put (← read v) c : Except ValueFault Config) = .ok c' ↔
      ∃ a, read v = .ok a ∧ put a c = c' := by
    intro v c c'
    cases read v with
    | error fault =>
      constructor
      · intro h
        cases h
      · rintro ⟨_, h, _⟩
        cases h
    | ok a =>
      constructor
      · intro h
        exact ⟨a, rfl, Except.ok.inj h⟩
      · rintro ⟨_, h, rfl⟩
        cases h
        rfl
  constructor
  · intro v c
    simp only [hset, hmeans]
    constructor
    · rintro ⟨_, a, ha, _⟩
      exact ⟨_, a, ha, rfl⟩
    · rintro ⟨_, a, ha, _⟩
      exact ⟨_, a, ha, rfl⟩
  · intro v c c' h
    obtain ⟨a, ha, rfl⟩ := (hset v c c').mp h
    exact (hmeans v _).mpr ⟨a, ha, (hget a c).symm⟩
  · intro v c c' h
    obtain ⟨a, _, rfl⟩ := (hset v c c').mp h
    exact hkeeps a c

/-- The keys of a section; one without a meaning has none. -/
def keysOf (name : String) : List (String × Setter) :=
  if name = "directory" then directoryKeys
  else if name = "api" then apiKeys
  else if name = "settings" then settingsKeys
  else []

def setter? (place : String × String) : Option Setter := (keysOf place.1).lookup place.2

theorem setter?_of_mem : ∀ s ∈ settings, ∃ set, setter? s.place = some set ∧ Sets s set := by
  have hnames : ∀ v b, Names v b ↔ ∃ a, backendOf v = .ok a ∧ a = b := by
    simp [backendOf_eq_ok]
  have htext : ∀ expected v b, IsText v b ↔ ∃ a, text expected v = .ok a ∧ a = b := by
    simp [text_eq_ok]
  have hcount : ∀ limit expected v b, IsCount limit v b ↔
      ∃ a, count limit expected v = .ok a ∧ a = b := by
    simp [count_eq_ok]
  have hgiven : ∀ expected v b, IsGiven v b ↔ ∃ a, text expected v = .ok a ∧ some a = b := by
    simp [IsGiven, text_eq_ok, IsText]
  simp only [settings, lifetimeSetting, List.forall_mem_cons]
  refine ⟨⟨_, rfl, ?_⟩, ⟨_, rfl, ?_⟩, ⟨_, rfl, ?_⟩, ⟨_, rfl, ?_⟩, ⟨_, rfl, ?_⟩, ⟨_, rfl, ?_⟩,
    ⟨_, rfl, ?_⟩, ⟨_, rfl, ?_⟩, by simp⟩
  · refine sets_of_read id hnames (fun _ _ => rfl) ?_
    simp [settings, lifetimeSetting]
  · refine sets_of_read id (htext _) (fun _ _ => rfl) ?_
    simp [settings, lifetimeSetting]
  · refine sets_of_read id (hcount _ _) (fun _ _ => rfl) ?_
    simp [settings, lifetimeSetting]
  · refine sets_of_read id (hcount _ _) (fun _ _ => rfl) ?_
    simp [settings, lifetimeSetting]
  · refine sets_of_read id (hcount _ _) (fun _ _ => rfl) ?_
    simp [settings, lifetimeSetting]
  · refine sets_of_read id (hcount _ _) (fun _ _ => rfl) ?_
    simp [settings, lifetimeSetting]
  · refine sets_of_read id (htext _) (fun _ _ => rfl) ?_
    simp [settings, lifetimeSetting]
  · refine sets_of_read some (hgiven _) (fun _ _ => rfl) ?_
    simp [settings, lifetimeSetting]

/-- The settings stand at the keys of the sections. -/
theorem places_eq : settings.map (·.place)
    = ["directory", "api", "settings"].flatMap fun name =>
        (keysOf name).map fun p => (name, p.1) := rfl

theorem mem_of_setter? {place : String × String} {set : Setter} (h : setter? place = some set) :
    ∃ s ∈ settings, s.place = place := by
  obtain ⟨name, key⟩ := place
  obtain ⟨before, after, hkeys, _⟩ := List.lookup_eq_some_iff.mp h
  have hkey : (key, set) ∈ keysOf name := by
    rw [hkeys]
    simp
  have hname : name ∈ ["directory", "api", "settings"] := by
    by_contra hname
    have hnone : keysOf name = [] := by
      simp only [List.mem_cons, List.not_mem_nil, or_false, not_or] at hname
      unfold keysOf
      rw [if_neg hname.1, if_neg hname.2.1, if_neg hname.2.2]
    rw [hnone] at hkey
    cases hkey
  have hplace : (name, key) ∈ settings.map (·.place) := by
    rw [places_eq, List.mem_flatMap]
    exact ⟨name, hname, List.mem_map_of_mem (f := fun p => (name, p.1)) hkey⟩
  obtain ⟨s, hs, hplace⟩ := List.mem_map.mp hplace
  exact ⟨s, hs, hplace⟩

theorem eq_of_place : ∀ s ∈ settings, ∀ t ∈ settings, s.place = t.place → s = t := by
  have hnodup : (settings.map (·.place)).Nodup := by decide
  exact fun s hs t ht => List.inj_on_of_nodup_map hnodup hs ht

/-- A place has no meaning, or it is that of one setting. -/
theorem setter?_cases (place : String × String) :
    (setter? place = none ∧ ∀ s ∈ settings, s.place ≠ place) ∨
      ∃ s ∈ settings, s.place = place ∧ ∃ set, setter? place = some set ∧ Sets s set := by
  cases hset : setter? place with
  | none =>
    refine .inl ⟨rfl, ?_⟩
    rintro s hs rfl
    obtain ⟨set, hsome, _⟩ := setter?_of_mem s hs
    rw [hset] at hsome
    cases hsome
  | some set =>
    obtain ⟨s, hs, rfl⟩ := mem_of_setter? hset
    obtain ⟨found, hfound, hsets⟩ := setter?_of_mem s hs
    rw [hset] at hfound
    cases hfound
    exact .inr ⟨s, hs, rfl, _, rfl, hsets⟩

/-! ## What a document says -/

/-- The section and the key have this value. -/
def Says (entries : List (String × Value)) (place : String × String) (v : Value) : Prop :=
  ∃ table, (place.1, .table table) ∈ entries ∧ (place.2, v) ∈ table

/-- Every section with a meaning is a table. -/
def Tabular (entries : List (String × Value)) : Prop :=
  ∀ p ∈ entries, p.1 ∈ ["directory", "api", "settings"] → ∃ table, p.2 = .table table

def saidIn (name : String) : Value → List ((String × String) × Value)
  | .table table => table.map fun p => ((name, p.1), p.2)
  | _ => []

/-- All keys of all sections, with their values. -/
def said (entries : List (String × Value)) : List ((String × String) × Value) :=
  entries.flatMap fun p => saidIn p.1 p.2

theorem mem_said {entries : List (String × Value)} {place : String × String} {v : Value} :
    (place, v) ∈ said entries ↔ Says entries place v := by
  unfold said Says
  rw [List.mem_flatMap]
  constructor
  · rintro ⟨⟨name, content⟩, hentry, hsaid⟩
    unfold saidIn at hsaid
    split at hsaid
    · rename_i table htable
      obtain ⟨⟨key, _⟩, hkey, he⟩ := List.mem_map.mp hsaid
      cases he
      dsimp only at htable
      subst htable
      exact ⟨table, hentry, hkey⟩
    · cases hsaid
  · rintro ⟨table, hentry, hkey⟩
    exact ⟨_, hentry, List.mem_map.mpr ⟨_, hkey, rfl⟩⟩

/-- What a document says is said once. -/
theorem nodup_said {entries : List (String × Value)} (h : (Value.table entries).Distinct) :
    ((said entries).map (·.1)).Nodup := by
  cases h with
  | table keys parts =>
    unfold said
    rw [List.map_flatMap, List.nodup_flatMap]
    constructor
    · intro p hp
      have hdistinct := parts p hp
      unfold saidIn
      split
      · rename_i table htable
        rw [htable] at hdistinct
        cases hdistinct with
        | table inner _ =>
          have hplaces : (table.map fun q => ((p.1, q.1), q.2)).map (·.1)
              = (table.map (·.1)).map fun key => (p.1, key) := by
            simp
          rw [hplaces]
          exact inner.map fun a b hab => congrArg Prod.snd hab
      · exact .nil
    · refine (List.pairwise_map.mp keys).imp ?_
      intro p q hne place hp hq
      have hin : ∀ r : String × Value, place ∈ (saidIn r.1 r.2).map (·.1) → place.1 = r.1 := by
        intro r hr
        unfold saidIn at hr
        split at hr
        · simp only [List.map_map, List.mem_map] at hr
          obtain ⟨_, _, rfl⟩ := hr
          rfl
        · cases hr
      exact hne ((hin p hp).symm.trans (hin q hq))

/-- Sets all that is said, in its order. -/
def setAll : List ((String × String) × Value) → Config → Except ValueFault Config
  | [], c => .ok c
  | (place, v) :: rest, c =>
    match setter? place with
    | none => setAll rest c
    | some set => do setAll rest (← set v c)

theorem setAll_section (name : String) (rest : List ((String × String) × Value)) :
    ∀ (table : List (String × Value)) (c : Config),
      setAll (saidIn name (.table table) ++ rest) c
        = (do setAll rest (← setEntries (keysOf name) table c)) := by
  intro table
  induction table with
  | nil => exact fun c => rfl
  | cons p table ih =>
    intro c
    unfold setEntries
    show (match setter? (name, p.1) with
      | none => setAll (saidIn name (.table table) ++ rest) c
      | some set => do setAll (saidIn name (.table table) ++ rest) (← set p.2 c)) = _
    unfold setter?
    dsimp only
    cases (keysOf name).lookup p.1 with
    | none => exact ih c
    | some set =>
      dsimp only
      cases set p.2 c with
      | error fault => rfl
      | ok c' => exact ih c'

theorem setEntries_nil (entries : List (String × Value)) (c : Config) :
    setEntries [] entries c = .ok c := by
  induction entries with
  | nil => rfl
  | cons p rest ih => exact ih

/-- A section has its keys, and one without a meaning is passed over. -/
theorem sections_cases (name : String) :
    name ∈ ["directory", "api", "settings"] ∧
        (∃ label, sections.lookup name = some (sectionOf label (keysOf name))) ∨
      sections.lookup name = none ∧ keysOf name = [] := by
  by_cases hd : name = "directory"
  · subst hd
    exact .inl ⟨by simp, _, rfl⟩
  · by_cases ha : name = "api"
    · subst ha
      exact .inl ⟨by simp, _, rfl⟩
    · by_cases hs : name = "settings"
      · subst hs
        exact .inl ⟨by simp, _, rfl⟩
      · refine .inr ⟨?_, ?_⟩
        · simp [sections, List.lookup_eq_none_iff, hd, ha, hs]
        · unfold keysOf
          rw [if_neg hd, if_neg ha, if_neg hs]

/-- The configuration of a document is made of what it says, in its order. -/
theorem setEntries_sections {entries : List (String × Value)} (h : Tabular entries) :
    ∀ c, setEntries sections entries c = setAll (said entries) c := by
  induction entries with
  | nil => exact fun c => rfl
  | cons p rest ih =>
    intro c
    obtain ⟨name, v⟩ := p
    have ih := ih fun q hq => h q (.tail _ hq)
    have hsaid : said ((name, v) :: rest) = saidIn name v ++ said rest := rfl
    unfold setEntries
    rw [hsaid]
    rcases sections_cases name with ⟨hname, label, hlookup⟩ | ⟨hlookup, hnone⟩
    · obtain ⟨table, htable⟩ := h (name, v) (.head _) hname
      dsimp only at htable
      subst htable
      rw [hlookup, setAll_section]
      show (setEntries (keysOf name) table c >>= setEntries sections rest) = _
      rw [funext ih]
    · rw [hlookup]
      dsimp only
      rw [ih c]
      cases v with
      | table table =>
        rw [setAll_section, hnone, setEntries_nil]
        rfl
      | _ => rfl

/-! ## Setting everything -/

/-- All is set exactly if every value fits its setting. -/
theorem setAll_succeeds {said : List ((String × String) × Value)} :
    ∀ c, (∃ c', setAll said c = .ok c') ↔
      ∀ s ∈ settings, ∀ v, (s.place, v) ∈ said → ∃ a, s.Means v a := by
  induction said with
  | nil => exact fun c => iff_of_true ⟨c, rfl⟩ (by simp)
  | cons p rest ih =>
    intro c
    obtain ⟨place, v⟩ := p
    unfold setAll
    rcases setter?_cases place with ⟨hset, hne⟩ | ⟨s, hs, rfl, set, hset, hsets⟩
    · rw [hset]
      dsimp only
      rw [ih c]
      refine forall₂_congr fun s hs => forall_congr' fun w => ?_
      simp [hne s hs]
    · rw [hset]
      dsimp only
      constructor
      · rintro ⟨c', h⟩ t ht w hw
        cases hv : set v c with
        | error fault =>
          rw [hv] at h
          cases h
        | ok c₁ =>
          rw [hv] at h
          rcases List.mem_cons.mp hw with he | hw
          · obtain ⟨hplace, rfl⟩ := Prod.mk.inj he
            obtain rfl := eq_of_place t ht s hs hplace
            exact (hsets.accepts w c).mp ⟨c₁, hv⟩
          · exact (ih c₁).mp ⟨c', h⟩ t ht w hw
      · intro h
        obtain ⟨c₁, hv⟩ := (hsets.accepts v c).mpr (h s hs v (.head _))
        obtain ⟨c', hrest⟩ := (ih c₁).mpr fun t ht w hw => h t ht w (.tail _ hw)
        rw [hv]
        exact ⟨c', hrest⟩

/-- Of what is said once, each setting gets what is said about it, and is kept if nothing is. -/
theorem setAll_sets {said : List ((String × String) × Value)} (hn : (said.map (·.1)).Nodup) :
    ∀ c c', setAll said c = .ok c' → ∀ s ∈ settings,
      (∀ v, (s.place, v) ∈ said → s.Means v (s.get c')) ∧
        ((∀ v, (s.place, v) ∉ said) → s.get c' = s.get c) := by
  induction said with
  | nil =>
    intro c c' h s _
    cases h
    simp
  | cons p rest ih =>
    intro c c' h t ht
    obtain ⟨place, v⟩ := p
    obtain ⟨hnew, hn⟩ := List.nodup_cons.mp hn
    have ih := ih hn
    unfold setAll at h
    rcases setter?_cases place with ⟨hset, hne⟩ | ⟨s, hs, rfl, set, hset, hsets⟩
    · rw [hset] at h
      simpa [hne t ht] using ih c c' h t ht
    · rw [hset] at h
      dsimp only at h
      cases hv : set v c with
      | error fault =>
        rw [hv] at h
        cases h
      | ok c₁ =>
        rw [hv] at h
        obtain ⟨hmeans, hkept⟩ := ih c₁ c' h t ht
        by_cases hplace : t.place = s.place
        · obtain rfl := eq_of_place t ht s hs hplace
          have hrest : ∀ w, (t.place, w) ∉ rest := by
            intro w hw
            exact hnew (List.mem_map_of_mem (f := (·.1)) hw)
          constructor
          · intro w hw
            rcases List.mem_cons.mp hw with he | hw
            · cases he
              rw [hkept hrest]
              exact hsets.sets v c c₁ hv
            · exact absurd hw (hrest w)
          · intro h
            exact absurd (.head _) (h v)
        · rw [← hsets.keeps v c c₁ hv t ht hplace]
          simpa [hplace] using ⟨hmeans, hkept⟩

/-! ## What a setting is -/

/-- What the document says about a setting, and the standard if it says nothing. -/
inductive Setting.Is (s : Setting) (entries : List (String × Value)) : s.Content → Prop
  | said {v : Value} {a : s.Content} (h : Says entries s.place v) (means : s.Means v a) :
    s.Is entries a
  | standard (h : ∀ v, ¬ Says entries s.place v) : s.Is entries s.standard

variable {entries entries' : List (String × Value)}

theorem Setting.is_unique (hd : (Value.table entries).Distinct) : ∀ s ∈ settings, ∀ a b,
    s.Is entries a → s.Is entries b → a = b := by
  intro s hs a b ha hb
  cases ha with
  | said hv hmeans =>
    cases hb with
    | said hw hmeans' =>
      have he := List.inj_on_of_nodup_map (nodup_said hd) (mem_said.mpr hv) (mem_said.mpr hw) rfl
      cases he
      exact means_unique s hs _ _ _ hmeans hmeans'
    | standard hnone => exact absurd hv (hnone _)
  | standard hnone =>
    cases hb with
    | said hw _ => exact absurd hw (hnone _)
    | standard => rfl

theorem is_of_setAll {file : Config} (hd : (Value.table entries).Distinct)
    (h : setAll (said entries) {} = .ok file) : ∀ s ∈ settings, s.Is entries (s.get file) := by
  intro s hs
  obtain ⟨hmeans, hkept⟩ := setAll_sets (nodup_said hd) _ _ h s hs
  by_cases hsaid : ∃ v, Says entries s.place v
  · obtain ⟨v, hv⟩ := hsaid
    exact .said hv (hmeans v (mem_said.mpr hv))
  · have hnone : ∀ v, ¬ Says entries s.place v := fun v hv => hsaid ⟨v, hv⟩
    rw [hkept fun v hv => hnone v (mem_said.mp hv), standard_eq s hs]
    exact .standard hnone

/-! ## Documents that say the same -/

/-- Tables in a section that differ in the order of keys, and in keys without a meaning. -/
inductive SameTable (name : String) : List (String × Value) → List (String × Value) → Prop
  | reordered {table table' : List (String × Value)} (h : table.Perm table') :
    SameTable name table table'
  | added {key : String} {v : Value} {table : List (String × Value)}
      (h : ∀ s ∈ settings, s.place ≠ (name, key)) : SameTable name table ((key, v) :: table)
  | symm {table table' : List (String × Value)} (h : SameTable name table table') :
    SameTable name table' table
  | trans {table table' table'' : List (String × Value)} (h : SameTable name table table')
      (h' : SameTable name table' table'') : SameTable name table table''

/-- Documents that differ in the order of sections and of keys in them, in sections without a
meaning, and in keys without a meaning. -/
inductive SameDocument : List (String × Value) → List (String × Value) → Prop
  | reordered {entries entries' : List (String × Value)} (h : entries.Perm entries') :
    SameDocument entries entries'
  | added {name : String} {v : Value} {entries : List (String × Value)}
      (h : ∀ s ∈ settings, s.place.1 ≠ name) : SameDocument entries ((name, v) :: entries)
  | inside {name : String} {table table' entries : List (String × Value)}
      (h : SameTable name table table') :
    SameDocument ((name, .table table) :: entries) ((name, .table table') :: entries)
  | symm {entries entries' : List (String × Value)} (h : SameDocument entries entries') :
    SameDocument entries' entries
  | trans {entries entries' entries'' : List (String × Value)} (h : SameDocument entries entries')
      (h' : SameDocument entries' entries'') : SameDocument entries entries''

theorem SameTable.mem_iff {name : String} {table table' : List (String × Value)} {s : Setting}
    (h : SameTable name table table') (hs : s ∈ settings) (hname : s.place.1 = name) (v : Value) :
    (s.place.2, v) ∈ table ↔ (s.place.2, v) ∈ table' := by
  induction h with
  | reordered h => exact h.mem_iff
  | added h =>
    have hkey := h s hs
    rw [← hname] at hkey
    simp [Prod.ext_iff] at hkey
    simp [hkey]
  | symm _ ih => exact ih.symm
  | trans _ _ ih ih' => exact ih.trans ih'

theorem SameDocument.says_iff {s : Setting} (h : SameDocument entries entries')
    (hs : s ∈ settings) (v : Value) : Says entries s.place v ↔ Says entries' s.place v := by
  induction h with
  | reordered h => simp only [Says, h.mem_iff]
  | added h =>
    have hname := h s hs
    simp [Says, hname]
  | @inside name table table' _ h =>
    by_cases hname : s.place.1 = name
    · simp [Says, hname, or_and_right, exists_or, h.mem_iff hs hname]
    · simp [Says, hname]
  | symm _ ih => exact ih.symm
  | trans _ _ ih ih' => exact ih.trans ih'

theorem Setting.Is.congr {s : Setting} {a : s.Content} (ha : s.Is entries a)
    (h : SameDocument entries entries') (hs : s ∈ settings) : s.Is entries' a := by
  cases ha with
  | said hv hmeans => exact .said ((h.says_iff hs _).mp hv) hmeans
  | standard hnone => exact .standard fun v hv => hnone v ((h.says_iff hs v).mpr hv)

/-! ## Loading a document -/

/-- The file at a path is TOML with these entries, and its sections are tables. -/
structure Holds (disk : Disk) (path : String) (entries : List (String × Value)) : Prop where
  valid : ∃ bytes text, disk.read path = .ok bytes ∧ Utf8.decode? bytes = some text ∧
    Valid text entries
  tabular : Tabular entries

/-- The file at a path keeps to the limits of the reader. -/
def Readable (disk : Disk) (path : String) : Prop :=
  ∃ bytes text, disk.read path = .ok bytes ∧ Utf8.decode? bytes = some text ∧
    (Toml.parse? .standard text).isSome

variable {disk disk' : Disk} {path path' : String} {token : EnvironmentValue} {c : Config}

theorem Holds.distinct (h : Holds disk path entries) : (Value.table entries).Distinct := by
  obtain ⟨_, _, _, _, _, hparse⟩ := h.valid
  exact distinct_of_parse? hparse

theorem Holds.load_eq_ok (h : Holds disk path entries) :
    load disk path token = .ok c ↔ Readable disk path ∧
      ∃ file, setAll (said entries) {} = .ok file ∧
        (1 ≤ file.terms.lifetimeSeconds ∧ file.terms.lifetimeSeconds ≤ 9223372036854775) ∧
        c = { file with token := token.text? <|> file.token } := by
  obtain ⟨bytes, text, hread, htext, hvalid⟩ := h.valid
  have hdocument : ofDocument entries = setAll (said entries) {} := setEntries_sections h.tabular {}
  simp only [Config.load_eq_ok, Readable, hread, ofText_eq_ok, check_eq_ok]
  constructor
  · rintro ⟨_, _, file, hbytes, htext', ⟨found, hparse, hfile, hcheck⟩, hc⟩
    cases hbytes
    obtain rfl := Option.some.inj (htext.symm.trans htext')
    obtain rfl := hvalid.unique (valid_of_parse? hparse)
    exact ⟨⟨bytes, text, rfl, htext, hparse ▸ rfl⟩, file, hdocument ▸ hfile, hcheck, hc⟩
  · rintro ⟨⟨_, _, hbytes, htext', hparse⟩, file, hfile, hcheck, hc⟩
    cases hbytes
    obtain rfl := Option.some.inj (htext.symm.trans htext')
    obtain ⟨found, hparse⟩ := Option.isSome_iff_exists.mp hparse
    obtain rfl := hvalid.unique (valid_of_parse? hparse)
    exact ⟨bytes, text, file, rfl, htext, ⟨entries, hparse, hdocument ▸ hfile, hcheck⟩, hc⟩

theorem Holds.load_congr (h : Holds disk path entries) (h' : Holds disk' path' entries')
    (hsame : SameDocument entries entries') (hreadable : Readable disk path → Readable disk' path')
    (hload : load disk path token = .ok c) : load disk' path' token = .ok c := by
  obtain ⟨hread, file, hfile, hcheck, rfl⟩ := h.load_eq_ok.mp hload
  have hfits := (setAll_succeeds {}).mp ⟨file, hfile⟩
  obtain ⟨file', hfile'⟩ := (setAll_succeeds {}).mpr fun s hs v hv =>
    hfits s hs v (mem_said.mpr ((hsame.says_iff hs v).mpr (mem_said.mp hv)))
  have hfiles : file = file' := by
    refine eq_of_settings fun s hs => ?_
    exact s.is_unique h'.distinct hs _ _ ((is_of_setAll h.distinct hfile s hs).congr hsame hs)
      (is_of_setAll h'.distinct hfile' s hs)
  subst hfiles
  exact h'.load_eq_ok.mpr ⟨hreadable hread, file, hfile', hcheck, rfl⟩

/-- Valid as the file may be, it is refused if it goes beyond the limits. -/
theorem Holds.load_unreadable (h : Holds disk path entries) (hread : ¬ Readable disk path) :
    load disk path token = .error (.malformed path) := by
  obtain ⟨bytes, text, hbytes, htext, -⟩ := h.valid
  have hnone : Toml.parse? .standard text = none := by
    rw [← Option.not_isSome_iff_eq_none]
    exact fun hparse => hread ⟨bytes, text, hbytes, htext, hparse⟩
  simp only [load, hbytes, htext, ofText, hnone]
  rfl

/-- What loading makes of a document. -/
structure Settles (disk : Disk) (path : String) (token : EnvironmentValue)
    (entries : List (String × Value)) : Prop where
  /-- It is accepted exactly if it keeps to the limits of the reader, every value with a meaning
  fits and the lifetime is in range. -/
  accepted_iff : (∃ c, load disk path token = .ok c) ↔ Readable disk path ∧
    (∀ s ∈ settings, ∀ v, Says entries s.place v → ∃ a, s.Means v a) ∧
      ∃ seconds : Nat, lifetimeSetting.Is entries seconds ∧ 1 ≤ seconds ∧
        seconds ≤ 9223372036854775
  unreadable : ¬ Readable disk path → load disk path token = .error (.malformed path)
  /-- Every setting is what the document says about it, and then the token of the environment
  replaces that of the file if it is text. -/
  settled : ∀ c, load disk path token = .ok c →
    ∃ file : Config, (∀ s ∈ settings, s.Is entries (s.get file)) ∧
      c = { file with token := token.text? <|> file.token }
  /-- All documents that say the same are accepted alike, if they keep to the limits alike. -/
  unmoved : ∀ disk' path' entries', Holds disk' path' entries' → SameDocument entries entries' →
    (Readable disk path ↔ Readable disk' path') →
    ∀ c, load disk path token = .ok c ↔ load disk' path' token = .ok c

theorem Holds.settles (h : Holds disk path entries) (token : EnvironmentValue) :
    Settles disk path token entries where
  accepted_iff := by
    constructor
    · rintro ⟨c, hc⟩
      obtain ⟨hread, file, hfile, hcheck, _⟩ := h.load_eq_ok.mp hc
      have hfits := (setAll_succeeds {}).mp ⟨file, hfile⟩
      have hlifetime := is_of_setAll h.distinct hfile lifetimeSetting (by simp [settings])
      exact ⟨hread, fun s hs v hv => hfits s hs v (mem_said.mpr hv), _, hlifetime, hcheck⟩
    · rintro ⟨hread, hfits, seconds, hseconds, hcheck⟩
      obtain ⟨file, hfile⟩ := (setAll_succeeds {}).mpr fun s hs v hv =>
        hfits s hs v (mem_said.mp hv)
      have hmem : lifetimeSetting ∈ settings := by simp [settings]
      have hlifetime := is_of_setAll h.distinct hfile lifetimeSetting hmem
      obtain rfl : file.terms.lifetimeSeconds = seconds :=
        lifetimeSetting.is_unique h.distinct hmem _ _ hlifetime hseconds
      exact ⟨_, h.load_eq_ok.mpr ⟨hread, file, hfile, hcheck, rfl⟩⟩
  unreadable := h.load_unreadable
  settled := by
    intro c hc
    obtain ⟨_, file, hfile, _, rfl⟩ := h.load_eq_ok.mp hc
    exact ⟨file, is_of_setAll h.distinct hfile, rfl⟩
  unmoved := by
    intro disk' path' entries' h' hsame hread c
    exact ⟨h.load_congr h' hsame hread.mp, h'.load_congr h hsame.symm hread.mpr⟩

/-- The token of the environment has no part in what is accepted. -/
theorem load_eq_map (disk : Disk) (path : String) (token : EnvironmentValue) :
    load disk path token
      = (load disk path .unset).map fun c => { c with token := token.text? <|> c.token } := by
  unfold load
  cases disk.read path with
  | error fault => rfl
  | ok bytes =>
    cases htext : Utf8.decode? bytes with
    | none => simp [htext, Except.map]
    | some text =>
      cases hfile : ofText path text with
      | error fault => simp [htext, hfile, Except.map]
      | ok file => simp [htext, hfile, Except.map, EnvironmentValue.text?]

/-- A document decides alone, together with the defaults and the limits of the reader, what is
accepted and what it sets; the environment can only replace the token, and only by text. -/
theorem load_settles :
    (∀ disk path entries, Holds disk path entries → ∀ token, Settles disk path token entries) ∧
      ∀ disk path fault, load disk path .unset = .error fault →
        ∀ token, load disk path token = .error fault := by
  constructor
  · exact fun _ _ _ h => h.settles
  · intro disk path fault h token
    rw [load_eq_map, h]
    rfl

/-! ### Files on a disk of their own -/

theorem holds_diskOf {text : String} (hvalid : Valid text entries) (htabular : Tabular entries) :
    Holds (diskOf text) "c" entries :=
  ⟨⟨_, text, read_diskOf text, Utf8.decode?_encode text, hvalid⟩, htabular⟩

theorem readable_diskOf (text : String) :
    Readable (diskOf text) "c" ↔ (Toml.parse? .standard text).isSome := by
  constructor
  · rintro ⟨bytes, found, hbytes, hfound, hparse⟩
    cases (read_diskOf text).symm.trans hbytes
    obtain rfl := Option.some.inj ((Utf8.decode?_encode text).symm.trans hfound)
    exact hparse
  · exact fun hparse => ⟨_, text, read_diskOf text, Utf8.decode?_encode text, hparse⟩

/-! ### Two files that say the same -/

def plainFile : String := "api.listen='a'\nsettings.token='b'"

def shuffledFile : String := "x='c'\nsettings=\x7by='c',token='b'\x7d\napi.listen='a'"

def idleFile : String := "directory.ttl_secs=0"

def plainEntries : List (String × Value) :=
  [("api", .table [("listen", .string "a")]), ("settings", .table [("token", .string "b")])]

def shuffledEntries : List (String × Value) :=
  [("x", .string "c"), ("settings", .table [("y", .string "c"), ("token", .string "b")]),
    ("api", .table [("listen", .string "a")])]

theorem parse?_plainFile : Toml.parse? .standard plainFile = some plainEntries := by
  decide +kernel

theorem parse?_shuffledFile : Toml.parse? .standard shuffledFile = some shuffledEntries := by
  decide +kernel

theorem holds_plainFile : Holds (diskOf plainFile) "c" plainEntries :=
  holds_diskOf (valid_of_parse? parse?_plainFile)
    (by simp [Tabular, plainEntries])

theorem holds_shuffledFile : Holds (diskOf shuffledFile) "c" shuffledEntries :=
  holds_diskOf (valid_of_parse? parse?_shuffledFile)
    (by simp [Tabular, shuffledEntries])

theorem readable_plainFile : Readable (diskOf plainFile) "c" :=
  (readable_diskOf plainFile).mpr (parse?_plainFile ▸ rfl)

theorem readable_shuffledFile : Readable (diskOf shuffledFile) "c" :=
  (readable_diskOf shuffledFile).mpr (parse?_shuffledFile ▸ rfl)

theorem same_shuffledEntries : SameDocument plainEntries shuffledEntries := by
  have hkey : ∀ s ∈ settings, s.place ≠ ("settings", "y") := by
    simp [settings, lifetimeSetting]
  have hsection : ∀ s ∈ settings, s.place.1 ≠ "x" := by
    simp [settings, lifetimeSetting]
  exact (SameDocument.reordered (.swap _ _ _)).trans ((SameDocument.inside (.added hkey)).trans
    (.added hsection))

theorem load_settles_shuffled :
    (∃ c, load (diskOf plainFile) "c" (.text "z") = .ok c ∧
      load (diskOf shuffledFile) "c" (.text "z") = .ok c ∧ c.token = some "z" ∧
      c.terms.lifetimeSeconds = 432000) ∧
    ∃ fault, load (diskOf idleFile) "c" .unset = .error fault ∧
      load (diskOf idleFile) "c" (.text "z") = .error fault := by
  obtain ⟨settles, refused⟩ := load_settles
  constructor
  · have h := settles _ _ _ holds_plainFile (.text "z")
    have hsilent : ∀ v, ¬ Says plainEntries lifetimeSetting.place v := by
      simp [Says, plainEntries, lifetimeSetting]
    have hfits : ∀ s ∈ settings, ∀ v, Says plainEntries s.place v → ∃ a, s.Means v a := by
      simp [settings, lifetimeSetting, Says, plainEntries, IsText, IsGiven]
    obtain ⟨c, hc⟩ := h.accepted_iff.mpr
      ⟨readable_plainFile, hfits, 432000, .standard hsilent, by omega, by omega⟩
    have hshuffled := (h.unmoved _ _ _ holds_shuffledFile same_shuffledEntries
      (iff_of_true readable_plainFile readable_shuffledFile) c).mp hc
    obtain ⟨file, hfile, rfl⟩ := h.settled c hc
    refine ⟨_, hc, hshuffled, rfl, ?_⟩
    have hmem : lifetimeSetting ∈ settings := by simp [settings]
    exact lifetimeSetting.is_unique holds_plainFile.distinct hmem _ _ (hfile _ hmem)
      (.standard hsilent)
  · have hnone : (ofText "c" idleFile).toOption = none := by decide +kernel
    cases hfault : ofText "c" idleFile with
    | ok c =>
      rw [hfault] at hnone
      cases hnone
    | error fault =>
      have hload : load (diskOf idleFile) "c" .unset = .error fault := by
        rw [load_diskOf, hfault]
        rfl
      exact ⟨fault, hload, refused _ _ _ hload (.text "z")⟩

/-! ### A file beyond the limits -/

def plainConfig : Config := { listen := "a", token := some "b" }

/-- Next to an empty file, one with an unknown key is refused although nothing is wrong with it, for
the arrays in its value are too deep. A token that is no text leaves that of the file. -/
theorem not_every_fitting_loads :
    (Holds (diskOf "") "c" [] ∧ load (diskOf "") "c" .unset = .ok {} ∧
      Holds (diskOf (nestedText 199)) "c" [("x", nested 199)] ∧
      SameDocument [] [("x", nested 199)] ∧
      load (diskOf (nestedText 199)) "c" .unset = .error (.malformed "c")) ∧
    ∃ c, load (diskOf plainFile) "c" .notUnicode = .ok c ∧ c.token = some "b" := by
  have hempty : (ofText "c" "").toOption = some {} := by decide +kernel
  have hplain : (ofText "c" plainFile).toOption = some plainConfig := by decide +kernel
  have hunknown : ∀ s ∈ settings, s.place.1 ≠ "x" := by
    simp [settings, lifetimeSetting]
  have hnested : Holds (diskOf (nestedText 199)) "c" [("x", nested 199)] :=
    holds_diskOf (valid_nestedText 199) (by simp [Tabular])
  have hdeep : ¬ Readable (diskOf (nestedText 199)) "c" := by
    rw [readable_diskOf, parse?_nestedText]
    decide
  refine ⟨⟨?_, ?_, hnested, .added hunknown, hnested.load_unreadable hdeep⟩, ?_⟩
  · exact holds_diskOf ⟨0, by decide +kernel⟩ (by simp [Tabular])
  · exact load_diskOf_eq_ok hempty .unset
  · exact ⟨_, load_diskOf_eq_ok hplain .notUnicode, rfl⟩

end Rendezvous.Config
