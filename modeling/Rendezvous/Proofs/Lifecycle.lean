import Rendezvous.Proofs.Operations

/-!
# The life of a host

In a history that starts from an empty store every reply follows from the transactions before it:
`Transaction.Lawful` says so of one transaction, `history_lawful` of all of them. What carries it
through the history is `Mirrors`: the store holds the hosts that are `Present`, and no others.
-/

namespace Rendezvous

/-- The reply of a transaction is the one that the transactions before it call for. -/
structure Transaction.Lawful (terms : Terms) (past : List Transaction)
    (d : Transaction) : Prop where
  listing : d.demand = .listLive → ∃ hosts, d.reply = .hosts hosts ∧ hosts.Nodup ∧
    hosts.Pairwise Host.Before ∧
    ∀ h, h ∈ hosts ↔ Present terms past h ∧ ¬ terms.Expired h.updatedAt d.moment
  foundById : ∀ id, d.demand = .findById id →
    d.after = d.before ∧ d.Answers fun h => Present terms past h ∧ h.id = id
  foundByCode : ∀ code, d.demand = .findByCode code →
    d.after = d.before ∧ d.Answers fun h => Present terms past h ∧ h.code = code
  deletedById : ∀ id, d.demand = .deleteById id →
    d.Answers fun h => Present terms past h ∧ h.id = id
  deletedByCode : ∀ code, d.demand = .deleteByCode code →
    d.Answers fun h => Present terms past h ∧ h.code = code
  refreshed : ∀ id, d.demand = .refresh id →
    d.Answers fun h => ∃ g, Present terms past g ∧ g.id = id ∧ h = { g with updatedAt := d.moment }
  registered : ∀ a h, d.demand = .register a → d.reply = .host h →
    h.createdAt = d.moment ∧ h.updatedAt = d.moment ∧
      ∀ g, Present terms past g → g.id ≠ h.id ∧ g.code ≠ h.code

/-! ## One transaction more -/

section

variable {terms : Terms} {past : List Transaction} {d : Transaction} {h : Host}

theorem Transaction.renewed_of_registered {r : Host} (hr : d.registered? = some r) :
    d.renewed? = some r.id := by
  unfold Transaction.registered? at hr
  split at hr
  · next hd hp =>
    cases hr
    simp only [Transaction.renewed?, hd, hp]
  · cases hr

/-- A transaction that is no listing concerns no host but the one that it renewed or removed. -/
theorem present_append_other (hl : d.demand ≠ .listLive) (hr : d.renewed? ≠ some h.id)
    (hd : d.removed? ≠ some h.id) : Present terms (past ++ [d]) h ↔ Present terms past h := by
  constructor
  · rintro ⟨⟨d', hmem, r, hreg, he⟩, hren, hkept, hun⟩
    rw [lastRenewal_append, if_neg hr] at hren
    rw [removed_append, not_or] at hkept
    rw [evicted_append, not_or] at hun
    refine ⟨⟨d', ?_, r, hreg, he⟩, hren, hkept.1, hun.1⟩
    rw [List.mem_append, List.mem_singleton] at hmem
    rcases hmem with hmem | rfl
    · exact hmem
    · rw [he] at hr
      exact absurd (Transaction.renewed_of_registered hreg) hr
  · rintro ⟨⟨d', hmem, r, hreg, he⟩, hren, hkept, hun⟩
    refine ⟨⟨d', List.mem_append_left _ hmem, r, hreg, he⟩, ?_, ?_, ?_⟩
    · rw [lastRenewal_append, if_neg hr, hren]
    · rw [removed_append, not_or]
      exact ⟨hkept, hd⟩
    · rw [evicted_append, not_or]
      exact ⟨hun, fun hlist => hl hlist.1⟩

/-- A listing takes away the hosts that it finds expired. -/
theorem present_append_listing (hl : d.demand = .listLive) :
    Present terms (past ++ [d]) h ↔
      Present terms past h ∧ ¬ terms.Expired h.updatedAt d.moment := by
  have hreg : d.registered? = none := by simp only [Transaction.registered?, hl]
  have hren : d.renewed? = none := by simp only [Transaction.renewed?, hl]
  have hrem : d.removed? = none := by simp only [Transaction.removed?, hl]
  have hlast : lastRenewal (past ++ [d]) h.id = lastRenewal past h.id := by
    rw [lastRenewal_append, hren, if_neg (by simp)]
  constructor
  · rintro ⟨⟨d', hmem, r, hr, he⟩, hr', hkept, hun⟩
    rw [hlast] at hr'
    rw [removed_append, not_or] at hkept
    rw [evicted_append, not_or] at hun
    refine ⟨⟨⟨d', ?_, r, hr, he⟩, hr', hkept.1, hun.1⟩, fun hexp => ?_⟩
    · rw [List.mem_append, List.mem_singleton] at hmem
      rcases hmem with hmem | rfl
      · exact hmem
      · rw [hreg] at hr
        cases hr
    · exact hun.2 ⟨hl, _, hr', hexp⟩
  · rintro ⟨⟨⟨d', hmem, r, hr, he⟩, hr', hkept, hun⟩, hexp⟩
    refine ⟨⟨d', List.mem_append_left _ hmem, r, hr, he⟩, by rw [hlast, hr'], ?_, ?_⟩
    · rw [removed_append, hrem]
      exact not_or.mpr ⟨hkept, by simp⟩
    · rw [evicted_append]
      rintro (hev | ⟨_, t, ht, hev⟩)
      · exact hun hev
      · rw [hr'] at ht
        cases ht
        exact hexp hev

/-- A host that was removed is gone. -/
theorem not_present_removed (hd : d.removed? = some h.id) : ¬ Present terms (past ++ [d]) h :=
  fun hp => hp.kept (removed_append.mpr (.inr hd))

/-- The host as it was registered under an id, which is registered only once. -/
def RegisteredOnce (past : List Transaction) : Prop :=
  ∀ d ∈ past, ∀ r, d.registered? = some r → ∀ d' ∈ past, ∀ r', d'.registered? = some r' →
    r.id = r'.id → r = r'

theorem lastRenewal_eq_none {id : String} (hno : ∀ d ∈ past, d.renewed? ≠ some id) :
    lastRenewal past id = none := by
  have hnil : (past.filter fun d => d.renewed? = some id) = [] := by
    rw [List.filter_eq_nil_iff]
    simpa using hno
  rw [lastRenewal, hnil]
  rfl

theorem not_evicted {id : String} (hno : ∀ d ∈ past, d.renewed? ≠ some id) :
    ¬ Evicted terms past id := by
  rintro ⟨before, listing, rest, t, rfl, _, ht, _⟩
  have hnone := lastRenewal_eq_none fun d hmem => hno d (List.mem_append_left _ hmem)
  rw [hnone] at ht
  cases ht

/-- A host that was registered under a new id is there as it was registered. -/
theorem present_append_registered {r : Host} (hno : ∀ d ∈ past, d.renewed? ≠ some r.id)
    (hkept : ¬ Removed past r.id) (hl : d.demand ≠ .listLive) (hreg : d.registered? = some r)
    (hrem : d.removed? = none) (hu : r.updatedAt = d.moment) (hid : h.id = r.id) :
    Present terms (past ++ [d]) h ↔ h = r := by
  have hlast : lastRenewal (past ++ [d]) r.id = some r.updatedAt := by
    rw [lastRenewal_append, if_pos (Transaction.renewed_of_registered hreg), hu]
  constructor
  · rintro ⟨⟨d', hmem, r', hr', he⟩, hren, _, _⟩
    rw [hid, hlast] at hren
    rw [List.mem_append, List.mem_singleton] at hmem
    rcases hmem with hmem | rfl
    · have hid' : r'.id = r.id := by
        rw [he] at hid
        exact hid
      exact absurd (hid' ▸ Transaction.renewed_of_registered hr') (hno d' hmem)
    · rw [hreg] at hr'
      cases hr'
      rw [he, ← Option.some.inj hren]
  · rintro rfl
    refine ⟨⟨d, List.mem_append_right _ (List.mem_singleton_self d), h, hreg, rfl⟩, hlast, ?_, ?_⟩
    · rw [removed_append, hrem, not_or]
      exact ⟨hkept, by simp⟩
    · rw [evicted_append, not_or]
      exact ⟨not_evicted hno, fun hlist => hl hlist.1⟩

/-- A host that was refreshed is there as the refresh left it. -/
theorem present_append_refreshed {g : Host} (hu : RegisteredOnce past) (hg : Present terms past g)
    (hl : d.demand ≠ .listLive) (hreg : d.registered? = none) (hren : d.renewed? = some g.id)
    (hrem : d.removed? = none) (hid : h.id = g.id) :
    Present terms (past ++ [d]) h ↔ h = { g with updatedAt := d.moment } := by
  obtain ⟨⟨d₀, hmem₀, r₀, hr₀, he₀⟩, hrenew, hkept, hun⟩ := hg
  constructor
  · rintro ⟨⟨d', hmem, r, hr, he⟩, hlast, _, _⟩
    rw [lastRenewal_append, hid, if_pos hren] at hlast
    have hr' : r = r₀ := by
      refine hu d' ?_ r hr d₀ hmem₀ r₀ hr₀ ?_
      · rw [List.mem_append, List.mem_singleton] at hmem
        rcases hmem with hmem | rfl
        · exact hmem
        · rw [hreg] at hr
          cases hr
      · rw [he, he₀] at hid
        exact hid
    rw [he, he₀, hr', Option.some.inj hlast]
  · rintro rfl
    refine ⟨⟨d₀, List.mem_append_left _ hmem₀, r₀, hr₀, by rw [he₀]⟩, ?_, ?_, ?_⟩
    · exact (lastRenewal_append ..).trans (if_pos hren)
    · rw [removed_append, hrem, not_or]
      exact ⟨hkept, by simp⟩
    · rw [evicted_append, not_or]
      exact ⟨hun, fun hlist => hl hlist.1⟩

end

/-! ## The store and the history -/

variable {terms : Terms} {past : List Transaction} {m m' : Memory} {d : Transaction}

/-- The store is what the history makes of it. -/
structure Mirrors (terms : Terms) (past : List Transaction) (m : Memory) : Prop where
  consistent : m.Consistent
  holds_iff : ∀ h, m.Holds h ↔ Present terms past h
  once : RegisteredOnce past
  /-- Ids that occur were drawn. -/
  drawn : ∀ d ∈ past, ∀ id, d.renewed? = some id ∨ d.removed? = some id →
    id ∈ past.flatMap Transaction.ids

theorem mirrors_empty (terms : Terms) : Mirrors terms [] {} where
  consistent := Memory.consistent_empty
  holds_iff h := by
    refine iff_of_false (Memory.not_holds_empty h) ?_
    rintro ⟨⟨d, hmem, _⟩, _⟩
    cases hmem
  once := by
    intro d hmem
    cases hmem
  drawn := by
    intro d hmem
    cases hmem

namespace Mirrors

/-- The hosts apart, a transaction more keeps the agreement when a registration has a new id. -/
theorem append (hm : Mirrors terms past m) (hcons : m'.Consistent)
    (hholds : ∀ h, m'.Holds h ↔ Present terms (past ++ [d]) h)
    (hnew : ∀ r, d.registered? = some r → ∀ d' ∈ past, d'.renewed? ≠ some r.id)
    (hdrawn : ∀ id, d.renewed? = some id ∨ d.removed? = some id →
      id ∈ past.flatMap Transaction.ids ∨ id ∈ d.ids) : Mirrors terms (past ++ [d]) m' where
  consistent := hcons
  holds_iff := hholds
  once := by
    intro d₁ h₁ r₁ hr₁ d₂ h₂ r₂ hr₂ he
    rw [List.mem_append, List.mem_singleton] at h₁ h₂
    rcases h₁ with h₁ | rfl
    · rcases h₂ with h₂ | rfl
      · exact hm.once d₁ h₁ r₁ hr₁ d₂ h₂ r₂ hr₂ he
      · have hren := Transaction.renewed_of_registered hr₁
        rw [he] at hren
        exact absurd hren (hnew r₂ hr₂ d₁ h₁)
    · rcases h₂ with h₂ | rfl
      · have hren := Transaction.renewed_of_registered hr₂
        rw [← he] at hren
        exact absurd hren (hnew r₁ hr₁ d₂ h₂)
      · rw [hr₁] at hr₂
        exact Option.some.inj hr₂
  drawn := by
    intro d' h' id hid
    rw [List.flatMap_append, List.mem_append, List.flatMap_singleton]
    rw [List.mem_append, List.mem_singleton] at h'
    rcases h' with h' | rfl
    · exact .inl (hm.drawn d' h' id hid)
    · exact hdrawn id hid

/-- A transaction that registers, renews and removes nothing and is no listing changes nothing. -/
theorem inert (hm : Mirrors terms past m) (hl : d.demand ≠ .listLive) (hreg : d.registered? = none)
    (hren : d.renewed? = none) (hrem : d.removed? = none) : Mirrors terms (past ++ [d]) m := by
  refine hm.append hm.consistent (fun h => ?_) ?_ ?_
  · rw [hm.holds_iff, present_append_other hl (by simp [hren]) (by simp [hrem])]
  · simp [hreg]
  · simp [hren, hrem]

theorem mem_ids (hm : Mirrors terms past m) {h : Host} (hh : m.Holds h) :
    h.id ∈ past.flatMap Transaction.ids := by
  obtain ⟨d, hmem, r, hr, he⟩ := ((hm.holds_iff h).mp hh).registered
  rw [he]
  exact hm.drawn d hmem r.id (.inl (Transaction.renewed_of_registered hr))

theorem register (hm : Mirrors terms past m) {a : Announcement} {r : Host}
    (hd : d.demand = .register a) (hr : d.reply = .host r) (hcons : (m.add r).Consistent)
    (hu : r.updatedAt = d.moment) (hid : r.id ∈ d.ids)
    (hnew : r.id ∉ past.flatMap Transaction.ids) : Mirrors terms (past ++ [d]) (m.add r) := by
  have hreg : d.registered? = some r := by simp only [Transaction.registered?, hd, hr]
  have hren : d.renewed? = some r.id := Transaction.renewed_of_registered hreg
  have hrem : d.removed? = none := by simp only [Transaction.removed?, hd]
  have hl : d.demand ≠ .listLive := by simp [hd]
  -- an id that was not drawn before does not occur in the history
  have hno : ∀ d ∈ past, d.renewed? ≠ some r.id :=
    fun d hmem hren => hnew (hm.drawn d hmem _ (.inl hren))
  have hkept : ¬ Removed past r.id :=
    fun ⟨d, hmem, hrem⟩ => hnew (hm.drawn d hmem _ (.inr hrem))
  refine hm.append hcons (fun h => ?_) ?_ ?_
  · rw [Memory.holds_add]
    by_cases he : h.id = r.id
    · rw [present_append_registered hno hkept hl hreg hrem hu he]
      exact or_iff_left fun hne => hne.2 he
    · have hne : h ≠ r := fun heq => he (congrArg Host.id heq)
      rw [present_append_other hl (by simpa [hren] using Ne.symm he) (by simp [hrem]),
        hm.holds_iff, or_iff_right hne]
      exact and_iff_left he
  · intro r' hr'
    rw [hreg] at hr'
    cases hr'
    exact hno
  · rintro id (hid' | hid')
    · rw [hren] at hid'
      cases hid'
      exact .inr hid
    · rw [hrem] at hid'
      cases hid'

theorem refresh (hm : Mirrors terms past m) {id : String} {g : Host} (hg : m.Holds g)
    (hd : d.demand = .refresh id) (hr : d.reply = .host { g with updatedAt := d.moment }) :
    Mirrors terms (past ++ [d]) (m.renew { g with updatedAt := d.moment }) := by
  have hreg : d.registered? = none := by simp only [Transaction.registered?, hd]
  have hren : d.renewed? = some g.id := by simp only [Transaction.renewed?, hd, hr]
  have hrem : d.removed? = none := by simp only [Transaction.removed?, hd]
  have hl : d.demand ≠ .listLive := by simp [hd]
  refine hm.append (hm.consistent.renew hg rfl rfl) (fun h => ?_) ?_ ?_
  · rw [Memory.holds_renew]
    by_cases he : h.id = g.id
    · rw [present_append_refreshed hm.once ((hm.holds_iff g).mp hg) hl hreg hren hrem he]
      exact or_iff_left fun hne => hne.2 he
    · have hne : h ≠ { g with updatedAt := d.moment } := fun heq => he (by rw [heq])
      rw [present_append_other hl (by simpa [hren] using Ne.symm he) (by simp [hrem]),
        hm.holds_iff, or_iff_right hne]
      exact and_iff_left he
  · simp [hreg]
  · rintro id' (hid' | hid')
    · rw [hren] at hid'
      cases hid'
      exact .inl (hm.mem_ids hg)
    · rw [hrem] at hid'
      cases hid'

theorem delete (hm : Mirrors terms past m) {g : Host} (hg : m.Holds g)
    (hl : d.demand ≠ .listLive) (hreg : d.registered? = none) (hren : d.renewed? = none)
    (hrem : d.removed? = some g.id) : Mirrors terms (past ++ [d]) (m.remove g) := by
  refine hm.append (hm.consistent.remove hg) (fun h => ?_) ?_ ?_
  · rw [Memory.holds_remove]
    by_cases he : h.id = g.id
    · refine iff_of_false (fun hne => hne.2 he) (not_present_removed ?_)
      rw [he, hrem]
    · rw [present_append_other hl (by simp [hren]) (by simpa [hrem] using Ne.symm he),
        hm.holds_iff]
      exact and_iff_left he
  · simp [hreg]
  · rintro id (hid | hid)
    · rw [hren] at hid
      cases hid
    · rw [hrem] at hid
      cases hid
      exact .inl (hm.mem_ids hg)

theorem listing (hm : Mirrors terms past m) (hd : d.demand = .listLive) (hcons : m'.Consistent)
    (hholds : ∀ h, m'.Holds h ↔ m.Holds h ∧ ¬ terms.Expired h.updatedAt d.moment) :
    Mirrors terms (past ++ [d]) m' := by
  refine hm.append hcons (fun h => ?_) ?_ ?_
  · rw [hholds, hm.holds_iff, present_append_listing hd]
  · simp [Transaction.registered?, hd]
  · simp [Transaction.renewed?, Transaction.removed?, hd]

/-- Every operation keeps the agreement, as long as it draws new ids. -/
theorem step (hm : Mirrors terms past m) (hop : d.demand.isOperation = true)
    (hc : d.Changes terms m m') (hnew : ∀ id ∈ d.ids, id ∉ past.flatMap Transaction.ids) :
    Mirrors terms (past ++ [d]) m' := by
  unfold Transaction.Changes at hc
  split at hc
  case h_1 a hd =>
    rcases hc with ⟨refusal, hr, rfl⟩ | ⟨r, hr, rfl, hid, hcode, -, hu, hmem⟩
    · refine hm.inert ?_ ?_ ?_ ?_ <;>
        simp [Transaction.registered?, Transaction.renewed?, Transaction.removed?, hd, hr]
    · exact hm.register hd hr (hm.consistent.add hid hcode) hu hmem (hnew _ hmem)
  case h_2 id hd =>
    rw [hc.1]
    refine hm.inert ?_ ?_ ?_ ?_ <;>
        simp [Transaction.registered?, Transaction.renewed?, Transaction.removed?, hd]
  case h_3 code hd =>
    rw [hc.1]
    refine hm.inert ?_ ?_ ?_ ?_ <;>
        simp [Transaction.registered?, Transaction.renewed?, Transaction.removed?, hd]
  case h_4 id hd =>
    rcases hc with ⟨g, hg, -, hr, rfl⟩ | ⟨-, hr, rfl⟩
    · refine hm.delete hg ?_ ?_ ?_ ?_ <;>
        simp [Transaction.registered?, Transaction.renewed?, Transaction.removed?, hd, hr]
    · refine hm.inert ?_ ?_ ?_ ?_ <;>
        simp [Transaction.registered?, Transaction.renewed?, Transaction.removed?, hd, hr]
  case h_5 code hd =>
    rcases hc with ⟨g, hg, -, hr, rfl⟩ | ⟨-, hr, rfl⟩
    · refine hm.delete hg ?_ ?_ ?_ ?_ <;>
        simp [Transaction.registered?, Transaction.renewed?, Transaction.removed?, hd, hr]
    · refine hm.inert ?_ ?_ ?_ ?_ <;>
        simp [Transaction.registered?, Transaction.renewed?, Transaction.removed?, hd, hr]
  case h_6 id hd =>
    rcases hc with ⟨g, hg, -, hr, rfl⟩ | ⟨-, hr, rfl⟩
    · exact hm.refresh hg hd hr
    · refine hm.inert ?_ ?_ ?_ ?_ <;>
        simp [Transaction.registered?, Transaction.renewed?, Transaction.removed?, hd, hr]
  case h_7 hd => exact hm.listing hd hc.2.1 hc.2.2
  all_goals next hd => simp [hd, Demand.isOperation] at hop

/-- The reply to an operation follows from the history. -/
theorem lawful (hm : Mirrors terms past m) (hc : d.Changes terms m m')
    (hb : d.before = .memory m) (ha : d.after = .memory m') : d.Lawful terms past where
  listing hd := by
    simp only [Transaction.Changes, hd] at hc
    have hbefore := (Memory.before_list hm.consistent).filter
      fun h => Expiry.isLive terms.lifetime h.updatedAt d.moment
    refine ⟨_, hc.1, Host.nodup_of_before hbefore, hbefore, fun h => ?_⟩
    rw [List.mem_filter, Memory.mem_list_iff hm.consistent, hm.holds_iff, Terms.isLive_iff]
  foundById id hd := by
    simp only [Transaction.Changes, hd] at hc
    have hans : d.Answers _ := hc.2
    exact ⟨by rw [ha, hb, hc.1], hans.of_iff fun h => and_congr_left' (hm.holds_iff h)⟩
  foundByCode code hd := by
    simp only [Transaction.Changes, hd] at hc
    have hans : d.Answers _ := hc.2
    exact ⟨by rw [ha, hb, hc.1], hans.of_iff fun h => and_congr_left' (hm.holds_iff h)⟩
  deletedById id hd := by
    simp only [Transaction.Changes, hd] at hc
    rcases hc with ⟨g, hg, hid, hr, -⟩ | ⟨hno, hr, -⟩
    · exact .inl ⟨g, ⟨(hm.holds_iff g).mp hg, hid⟩, hr⟩
    · exact .inr ⟨fun g hg => hno g ((hm.holds_iff g).mpr hg.1) hg.2, hr⟩
  deletedByCode code hd := by
    simp only [Transaction.Changes, hd] at hc
    rcases hc with ⟨g, hg, hcode, hr, -⟩ | ⟨hno, hr, -⟩
    · exact .inl ⟨g, ⟨(hm.holds_iff g).mp hg, hcode⟩, hr⟩
    · exact .inr ⟨fun g hg => hno g ((hm.holds_iff g).mpr hg.1) hg.2, hr⟩
  refreshed id hd := by
    simp only [Transaction.Changes, hd] at hc
    rcases hc with ⟨g, hg, hid, hr, -⟩ | ⟨hno, hr, -⟩
    · exact .inl ⟨_, ⟨g, (hm.holds_iff g).mp hg, hid, rfl⟩, hr⟩
    · exact .inr ⟨fun _ ⟨g, hg, hid, _⟩ => hno g ((hm.holds_iff g).mpr hg) hid, hr⟩
  registered a h hd hr := by
    simp only [Transaction.Changes, hd] at hc
    rcases hc with ⟨refusal, hr', -⟩ | ⟨r, hr', -, hid, hcode, hcr, hu, -⟩
    · rw [hr] at hr'
      cases hr'
    · rw [hr] at hr'
      cases hr'
      exact ⟨hcr, hu, fun g hg =>
        ⟨hid g ((hm.holds_iff g).mpr hg), hcode g ((hm.holds_iff g).mpr hg)⟩⟩

end Mirrors

/-! ## Whole histories -/

section

variable {guard : Guard} {clock : Nat → Instant} {w : World} {demands : List Demand}

/-- A history that goes on from one that the store mirrors has a lawful transaction at every
place. -/
theorem lawful_of_mirrors (hm : Mirrors terms past m) (hw : w.Quiet m)
    (hops : ∀ demand ∈ demands, demand.isOperation = true)
    (hids : ((past ++ history terms guard clock w demands).flatMap Transaction.ids).Nodup) {k : Nat}
    (hd : (history terms guard clock w demands)[k]? = some d) :
    d.Lawful terms (past ++ (history terms guard clock w demands).take k) := by
  induction demands generalizing w m past k with
  | nil => cases hd
  | cons demand rest ih =>
    rw [List.forall_mem_cons] at hops
    obtain ⟨first, after, m', hs⟩ :
        ∃ first after m', Served terms guard clock w m demand first after m' :=
      serve_changes hw hm.consistent hops.1
    have hcons : history terms guard clock w (demand :: rest)
        = first :: history terms guard clock after rest := by
      simp only [history, hs.serve_eq]
    rw [hcons] at hids hd ⊢
    cases k with
    | zero =>
      cases hd
      rw [List.take_zero, List.append_nil]
      exact hm.lawful hs.changes hs.before hs.after
    | succ k =>
      rw [List.append_cons] at hids
      have hnew : ∀ id ∈ first.ids, id ∉ past.flatMap Transaction.ids := by
        rw [List.flatMap_append, List.flatMap_append, List.flatMap_singleton,
          List.nodup_append, List.nodup_append] at hids
        exact fun id hid hpast => hids.1.2.2 id hpast id hid rfl
      have hm' := hm.step (by rw [hs.demand, hops.1]) hs.changes hnew
      have hlaw := ih hm' hs.quiet hops.2 hids hd
      rwa [List.append_assoc, List.singleton_append] at hlaw

/-- In a history that starts from an empty store and draws no id twice, every reply follows from
the transactions before it. -/
theorem history_lawful (hw : w.Quiet {}) (hops : ∀ demand ∈ demands, demand.isOperation = true)
    (hids : ((history terms guard clock w demands).flatMap Transaction.ids).Nodup) {k : Nat}
    (hd : (history terms guard clock w demands)[k]? = some d) :
    d.Lawful terms ((history terms guard clock w demands).take k) :=
  lawful_of_mirrors (mirrors_empty terms) hw hops hids hd

end

/-- A host is registered, refreshed after its lifetime of ten seconds, and then listed. -/
def revival : List Demand :=
  [.register ⟨some "10.0.0.1", Port.ofInt? 7777⟩, .refresh "00000000000040008000000000000002",
    .listLive]

def revivalTerms : Terms := { lifetimeSeconds := 10 }

def revivalClock : Nat → Instant
  | 1 => (Instant.of? 20 0).getD .epoch
  | 2 => (Instant.of? 25 0).getD .epoch
  | _ => .epoch

def revivalHistory : List Transaction :=
  history revivalTerms {} revivalClock { clock := .epoch, backing := .memory {} } revival

theorem history_lawful_revival :
    (revivalHistory.flatMap Transaction.ids).Nodup ∧
      ∃ d, revivalHistory[2]? = some d ∧ d.Lawful revivalTerms (revivalHistory.take 2) := by
  have hids : (revivalHistory.flatMap Transaction.ids).Nodup := by decide +kernel
  exact ⟨hids, _, rfl, history_lawful ⟨rfl, rfl⟩ (by decide) hids rfl⟩

end Rendezvous
