import Rendezvous.Proofs.Loading
import Rendezvous.JoinCode
import Rendezvous.Proofs.Calendar
import Rendezvous.Proofs.Listing

/-!
# Time gone by, in bounded numbers

A `Span` is a duration in two parts, whole seconds and the nanoseconds they leave, as far as 64 bits
of milliseconds go. `Span.between?` takes the time between two instants from their dates and their
times of day; each step is checked and can fail. `Span.between?_eq` says that none does, so that the
difference is the exact one, and `expiry_exact` that a host is live exactly while less than its
lifetime has gone by.
-/

namespace Rendezvous

/-- A duration in whole seconds and nanoseconds of one second more, no longer than the longest one
in either direction. -/
structure Span where
  seconds : Int
  nanos : Nat
  nanos_lt : nanos < 1000000000
  least : -9223372036854775807000000 ≤ seconds * 1000000000 + nanos
  greatest : seconds * 1000000000 + nanos ≤ 9223372036854775807000000
  deriving DecidableEq

namespace Span

def duration (s : Span) : Duration := ⟨s.seconds * 1000000000 + s.nanos⟩

def of? (seconds : Int) (nanos : Nat) : Option Span :=
  if h : nanos < 1000000000 ∧ -9223372036854775807000000 ≤ seconds * 1000000000 + nanos ∧
      seconds * 1000000000 + nanos ≤ 9223372036854775807000000 then
    some ⟨seconds, nanos, h.1, h.2.1, h.2.2⟩
  else none

/-- A sum or product, if 64 bits hold it. -/
def word? (n : Int) : Option Int := if Seed.Fits n then some n else none

/-- A number of seconds, which is checked to fit a word first. -/
def ofSeconds? (seconds : Nat) : Option Span := (word? seconds).bind fun n => of? n 0

def longest : Span :=
  ⟨9223372036854775, 807000000, by omega, by omega, by omega⟩

def ofDays? (days : Int) : Option Span := (word? (days * 86400)).bind fun n => of? n 0

/-- The sum; the nanoseconds carry over into the seconds. -/
def add? (a b : Span) : Option Span := do
  let seconds ← word? (a.seconds + b.seconds)
  if a.nanos + b.nanos < 1000000000 then of? seconds (a.nanos + b.nanos)
  else of? (← word? (seconds + 1)) (a.nanos + b.nanos - 1000000000)

/-- The time between two times of day; the nanoseconds borrow from the seconds. -/
def betweenTimes? (a b : Instant) : Option Span :=
  let leap : Int :=
    if b.secondOfDay < a.secondOfDay ∧ b.isLeap then 1
    else if a.secondOfDay < b.secondOfDay ∧ a.isLeap then -1
    else 0
  let part : Int := a.nanos - b.nanos
  of? (a.secondOfDay - b.secondOfDay + leap + part / 1000000000) (part % 1000000000).toNat

/-- The time from `b` to `a`: that between their dates, and that between their times of day. -/
def between? (a b : Instant) : Option Span := do
  let days ← ofDays? (a.date.toDays - b.date.toDays)
  let time ← betweenTimes? a b
  days.add? time

def Shorter (a b : Span) : Prop :=
  a.seconds < b.seconds ∨ a.seconds = b.seconds ∧ a.nanos < b.nanos

instance (a b : Span) : Decidable (a.Shorter b) := by unfold Shorter; infer_instance

/-! ## Checks that succeed -/

theorem of?_eq (seconds : Int) {nanos : Nat} (hn : nanos < 1000000000)
    (hl : -9223372036854775807000000 ≤ seconds * 1000000000 + nanos)
    (hg : seconds * 1000000000 + nanos ≤ 9223372036854775807000000) :
    ∃ s, of? seconds nanos = some s ∧ s.seconds = seconds ∧ s.nanos = nanos := by
  unfold of?
  rw [dif_pos ⟨hn, hl, hg⟩]
  exact ⟨_, rfl, rfl, rfl⟩

theorem word?_eq {n : Int} (hl : -9223372036854775808 ≤ n) (hg : n ≤ 9223372036854775807) :
    word? n = some n := by
  have h : Seed.Fits n := by
    unfold Seed.Fits
    omega
  unfold word?
  rw [if_pos h]

theorem add?_eq {a b : Span} (ha : -9000000000000000 ≤ a.seconds ∧ a.seconds ≤ 9000000000000000)
    (hb : -90000000000 ≤ b.seconds ∧ b.seconds ≤ 90000000000) :
    ∃ s, a.add? b = some s ∧
      s.duration.nanoseconds = a.duration.nanoseconds + b.duration.nanoseconds := by
  have hanos := a.nanos_lt
  have hbnos := b.nanos_lt
  unfold add?
  rw [word?_eq (by omega) (by omega)]
  by_cases hcarry : a.nanos + b.nanos < 1000000000
  · obtain ⟨s, hs, hseconds, hnanos⟩ := of?_eq (a.seconds + b.seconds) hcarry
      (by omega) (by omega)
    refine ⟨s, ?_, ?_⟩
    · rw [Option.bind_eq_bind, Option.bind_some, if_pos hcarry, hs]
    · simp only [duration, hseconds, hnanos]
      omega
  · have hpart : a.nanos + b.nanos - 1000000000 < 1000000000 := by omega
    obtain ⟨s, hs, hseconds, hnanos⟩ := of?_eq (a.seconds + b.seconds + 1) hpart (by omega)
      (by omega)
    refine ⟨s, ?_, ?_⟩
    · rw [Option.bind_eq_bind, Option.bind_some, if_neg hcarry, word?_eq (by omega) (by omega),
        Option.bind_some, hs]
    · simp only [duration, hseconds, hnanos]
      omega

/-! ## Between two instants -/

theorem ofDays?_between (a b : Instant) :
    ∃ s, ofDays? (a.date.toDays - b.date.toDays) = some s ∧
      s.seconds = (a.seconds / 86400 - b.seconds / 86400) * 86400 ∧ s.nanos = 0 := by
  have ha := a.least
  have ha' := a.greatest
  have hb := b.least
  have hb' := b.greatest
  unfold ofDays? Instant.date
  rw [Date.toDays_ofDays, Date.toDays_ofDays, word?_eq (by omega) (by omega)]
  exact of?_eq _ (by omega) (by omega) (by omega)

theorem betweenTimes?_eq (a b : Instant) :
    ∃ s leap, betweenTimes? a b = some s ∧ -90000000000 ≤ s.seconds ∧ s.seconds ≤ 90000000000 ∧
      s.duration.nanoseconds
        = ((a.secondOfDay : Int) - b.secondOfDay + leap) * 1000000000 + (a.nanos - b.nanos) ∧
      leap = if b.secondOfDay < a.secondOfDay ∧ b.isLeap then 1
        else if a.secondOfDay < b.secondOfDay ∧ a.isLeap then -1 else 0 := by
  have ha := a.nanos_lt
  have hb := b.nanos_lt
  have haday : a.secondOfDay < 86400 := by unfold Instant.secondOfDay; omega
  have hbday : b.secondOfDay < 86400 := by unfold Instant.secondOfDay; omega
  have hleap : ∀ p q : Prop, [Decidable p] → [Decidable q] →
      -1 ≤ (if p then (1 : Int) else if q then -1 else 0) ∧
        (if p then (1 : Int) else if q then -1 else 0) ≤ 1 := by
    intro p q _ _
    split
    · omega
    · split <;> omega
  have hbounds := hleap (b.secondOfDay < a.secondOfDay ∧ b.isLeap = true)
    (a.secondOfDay < b.secondOfDay ∧ a.isLeap = true)
  unfold betweenTimes?
  dsimp only
  generalize (if b.secondOfDay < a.secondOfDay ∧ b.isLeap = true then (1 : Int)
    else if a.secondOfDay < b.secondOfDay ∧ a.isLeap = true then -1 else 0) = leap at hbounds ⊢
  have hpart : (((a.nanos : Int) - b.nanos) % 1000000000).toNat < 1000000000 := by omega
  obtain ⟨s, hs, hseconds, hnanos⟩ := of?_eq
    (a.secondOfDay - b.secondOfDay + leap + ((a.nanos : Int) - b.nanos) / 1000000000) hpart
    (by omega) (by omega)
  refine ⟨s, leap, hs, by omega, by omega, ?_, rfl⟩
  simp only [duration, hseconds, hnanos]
  omega

/-- No step of the subtraction overflows, and it is exact. -/
theorem between?_eq (a b : Instant) : ∃ s, between? a b = some s ∧ s.duration = a.since b := by
  have ha := a.least
  have ha' := a.greatest
  have hb := b.least
  have hb' := b.greatest
  obtain ⟨days, hdays, hseconds, hnanos⟩ := ofDays?_between a b
  obtain ⟨time, leap, htime, htl, htg, hexact, rfl⟩ := betweenTimes?_eq a b
  obtain ⟨s, hs, hsum⟩ := add?_eq (a := days) (b := time) (by omega) ⟨htl, htg⟩
  refine ⟨s, ?_, ?_⟩
  · unfold between?
    rw [hdays, htime, Option.bind_eq_bind, Option.bind_some, Option.bind_some, hs]
  · have hday : (a.secondOfDay : Int) - b.secondOfDay = a.seconds % 86400 - b.seconds % 86400 := by
      unfold Instant.secondOfDay
      omega
    apply Duration.mk.injEq .. |>.mpr
    rw [show s.seconds * 1000000000 + s.nanos = s.duration.nanoseconds from rfl, hsum, hexact]
    simp only [duration, hseconds, hnanos]
    generalize (if b.secondOfDay < a.secondOfDay ∧ b.isLeap = true then (1 : Int)
      else if a.secondOfDay < b.secondOfDay ∧ a.isLeap = true then -1 else 0) = leap
    omega

/-! ## The lifetime -/

/-- Both comparisons of the parts are one of the durations. -/
theorem shorter_iff {a b : Span} :
    a.Shorter b ↔ a.duration.nanoseconds < b.duration.nanoseconds := by
  have ha := a.nanos_lt
  have hb := b.nanos_lt
  unfold Shorter duration
  dsimp only
  omega

/-- The lifetime of a number of seconds, or the longest span. -/
def lifetime (seconds : Nat) : Span := (ofSeconds? seconds).getD longest

theorem ofSeconds?_within {seconds : Nat} (h : seconds ≤ 9223372036854775) :
    ∃ s, ofSeconds? seconds = some s ∧ s.duration = .ofSeconds seconds := by
  unfold ofSeconds?
  rw [word?_eq (by omega) (by omega)]
  obtain ⟨s, hs, hseconds, hnanos⟩ := of?_eq (seconds : Int) (by decide : 0 < 1000000000)
    (by omega) (by omega)
  refine ⟨s, by rw [Option.bind_some, hs], ?_⟩
  unfold duration Duration.ofSeconds
  rw [hseconds, hnanos, Int.natCast_zero, Int.add_zero]

theorem ofSeconds?_beyond {seconds : Nat} (h : 9223372036854775 < seconds) :
    ofSeconds? seconds = none := by
  have hpart : of? (seconds : Int) 0 = none := by
    unfold of?
    rw [dif_neg (by omega)]
  unfold ofSeconds? word?
  split
  · rw [Option.bind_some, hpart]
  · rw [Option.bind_none]

theorem duration_lifetime (seconds : Nat) :
    (lifetime seconds).duration = Expiry.lifetime seconds := by
  unfold lifetime Expiry.lifetime Expiry.duration?
  by_cases h : seconds ≤ 9223372036854775
  · obtain ⟨s, hs, hd⟩ := ofSeconds?_within h
    rw [hs, if_pos h]
    exact hd
  · rw [ofSeconds?_beyond (by omega), if_neg h]
    rfl

end Span

namespace Expiry

theorem lifetime_within {seconds : Nat} (h : seconds ≤ 9223372036854775) :
    lifetime seconds = .ofSeconds seconds := by
  unfold lifetime duration?
  rw [if_pos h]
  rfl

theorem lifetime_beyond {seconds : Nat} (h : 9223372036854775 < seconds) :
    lifetime seconds = .longest := by
  unfold lifetime duration?
  rw [if_neg (by omega)]
  rfl

theorem lifetime_mono {fewer seconds : Nat} (h : fewer ≤ seconds) :
    (lifetime fewer).nanoseconds ≤ (lifetime seconds).nanoseconds := by
  by_cases hs : seconds ≤ 9223372036854775
  · rw [lifetime_within hs, lifetime_within (by omega)]
    unfold Duration.ofSeconds
    dsimp only
    omega
  · rw [lifetime_beyond (by omega : 9223372036854775 < seconds), ← Span.duration_lifetime]
    exact (Span.lifetime fewer).greatest

/-- Without leap seconds, the time between two instants is that between their counts. -/
theorem since_of_notLeap {a b : Instant} (ha : a.isLeap = false) (hb : b.isLeap = false) :
    (a.since b).nanoseconds = a.totalNanos - b.totalNanos := by
  unfold Instant.since Instant.totalNanos
  rw [ha, hb, if_neg (by simp), if_neg (by simp)]
  dsimp only
  omega

theorem totalNanos_le {a b : Instant} (ha : a.isLeap = false) (h : a.le b = true) :
    a.totalNanos ≤ b.totalNanos := by
  have hnanos : a.nanos < 1000000000 := by simpa [Instant.isLeap] using ha
  rw [Instant.le_iff] at h
  unfold Instant.totalNanos
  omega

/-- The lifetime of a number of seconds is as many seconds as a duration can have, and it is over
when that much time has gone by, to the nanosecond. -/
structure Exact (seconds : Nat) : Prop where
  /-- What the checked conversion gives. -/
  converted : (Span.lifetime seconds).duration = lifetime seconds
  within : seconds ≤ 9223372036854775 → lifetime seconds = .ofSeconds seconds
  beyond : 9223372036854775 < seconds → lifetime seconds = .longest
  nonneg : 0 ≤ (lifetime seconds).nanoseconds
  mono : ∀ fewer ≤ seconds, (lifetime fewer).nanoseconds ≤ (lifetime seconds).nanoseconds
  /-- The checked subtraction succeeds; comparing its parts with those of the lifetime decides. -/
  decided : ∀ u n, ∃ elapsed, Span.between? n u = some elapsed ∧ elapsed.duration = n.since u ∧
    (isLive (lifetime seconds) u n = true ↔ elapsed.Shorter (Span.lifetime seconds))
  live_iff : ∀ u n : Instant, u.isLeap = false → n.isLeap = false →
    (isLive (lifetime seconds) u n = true ↔
      n.totalNanos - u.totalNanos < (lifetime seconds).nanoseconds)
  lasting : ∀ u n later : Instant, u.isLeap = false → n.isLeap = false → later.isLeap = false →
    n.le later = true → isLive (lifetime seconds) u n = false →
    isLive (lifetime seconds) u later = false
  future : ∀ u n : Instant, u.isLeap = false → n.isLeap = false → n.le u = true → 0 < seconds →
    isLive (lifetime seconds) u n = true

theorem live_iff {lifetime : Duration} {u n : Instant} (hu : u.isLeap = false)
    (hn : n.isLeap = false) :
    isLive lifetime u n = true ↔ n.totalNanos - u.totalNanos < lifetime.nanoseconds := by
  unfold isLive
  rw [decide_eq_true_iff, since_of_notLeap hn hu]

theorem exact (seconds : Nat) : Exact seconds where
  converted := Span.duration_lifetime seconds
  within := lifetime_within
  beyond := lifetime_beyond
  nonneg := by
    have h := lifetime_mono (Nat.zero_le seconds)
    rwa [lifetime_within (by omega)] at h
  mono _ := lifetime_mono
  decided := by
    intro u n
    obtain ⟨elapsed, hs, hd⟩ := Span.between?_eq n u
    refine ⟨elapsed, hs, hd, ?_⟩
    rw [Span.shorter_iff, hd, Span.duration_lifetime]
    exact decide_eq_true_iff
  live_iff _ _ := live_iff
  lasting := by
    intro u n later hu hn hlater hle hexpired
    have hmono := totalNanos_le hn hle
    rw [← Bool.not_eq_true, live_iff hu hn] at hexpired
    rw [← Bool.not_eq_true, live_iff hu hlater]
    omega
  future := by
    intro u n hu hn hle hpositive
    have hmono := totalNanos_le hn hle
    have hsecond : (1000000000 : Int) ≤ (lifetime seconds).nanoseconds := by
      have h := lifetime_mono hpositive
      rwa [lifetime_within (by omega)] at h
    rw [live_iff hu hn]
    omega

end Expiry

/-! ## Accepted configurations -/

/-- A configuration that was loaded is checked; the token of the environment is put in later. -/
theorem Config.checked_of_load {disk : Disk} {path : String} {token : EnvironmentValue} {c : Config}
    (h : load disk path token = .ok c) : c.check = .ok () := by
  obtain ⟨bytes, text, found, _, _, hfound, rfl⟩ := load_eq_ok.mp h
  obtain ⟨_, _, _, hcheck⟩ := ofText_eq_ok.mp hfound
  exact hcheck

/-- Every number of seconds gives an exact lifetime, and that of a loaded configuration is positive
and the very number that was set. -/
theorem expiry_exact (seconds : Nat) :
    Expiry.Exact seconds ∧
      ∀ (disk : Disk) (path : String) (token : EnvironmentValue) (c : Config),
        Config.load disk path token = .ok c →
          c.terms.lifetime = .ofSeconds c.terms.lifetimeSeconds ∧
            0 < c.terms.lifetime.nanoseconds := by
  refine ⟨Expiry.exact seconds, ?_⟩
  intro disk path token c h
  have hc := Config.check_eq_ok.mp (Config.checked_of_load h)
  have hlifetime : c.terms.lifetime = .ofSeconds c.terms.lifetimeSeconds :=
    Expiry.lifetime_within hc.2
  refine ⟨hlifetime, ?_⟩
  rw [hlifetime]
  unfold Duration.ofSeconds
  dsimp only
  omega

/-! ### The longest lifetime -/

/-- The longest lifetime that a file may set. -/
def patientFile : String := "[directory]\nttl_secs = 9223372036854775\n"

def patientConfig : Config := { terms.lifetimeSeconds := 9223372036854775 }

theorem load_patientFile :
    Config.load (Config.diskOf patientFile) "c" .unset = .ok patientConfig := by
  have hread : (Config.ofText "c" patientFile).toOption = some patientConfig := by decide +kernel
  exact Config.load_diskOf_eq_ok hread .unset

def yearEnd : Instant := ⟨1704067199, 500000000, by omega, by omega, by omega, by omega⟩

/-- A minute after `yearEnd`, less a nanosecond. -/
def almostMinute : Instant := ⟨1704067259, 499999999, by omega, by omega, by omega, by omega⟩

def fullMinute : Instant := ⟨1704067259, 500000000, by omega, by omega, by omega, by omega⟩

def nextYear : Instant := (Instant.of? 1735689600 0).getD .epoch

theorem expiry_exact_minute :
    Expiry.isLive (Expiry.lifetime 60) yearEnd almostMinute = true ∧
      Expiry.isLive (Expiry.lifetime 60) yearEnd fullMinute = false ∧
      Expiry.isLive (Expiry.lifetime 60) yearEnd nextYear = false ∧
      Expiry.isLive (Expiry.lifetime 60) nextYear yearEnd = true ∧
      patientConfig.terms.lifetime = .ofSeconds 9223372036854775 := by
  obtain ⟨exact, loaded⟩ := expiry_exact 60
  have hexpired : Expiry.isLive (Expiry.lifetime 60) yearEnd fullMinute = false := by decide
  refine ⟨?_, hexpired, ?_, ?_, (loaded _ _ _ _ load_patientFile).1⟩
  · exact (exact.live_iff yearEnd almostMinute rfl rfl).mpr (by decide)
  · exact exact.lasting yearEnd fullMinute nextYear rfl rfl rfl (by decide) hexpired
  · exact exact.future nextYear yearEnd rfl rfl (by decide) (by decide)

end Rendezvous
