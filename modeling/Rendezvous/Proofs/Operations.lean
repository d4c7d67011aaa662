import Rendezvous.Proofs.History

/-!
# What the directory's operations do

`Transaction.Changes` says of each operation, in a quiet world, how its reply and the store after it
come from the store before it. `serve_changes` is the only place where the operations are followed
step by step.
-/

namespace Rendezvous

/-- The reply is the host that fits, or that there is none. -/
def Transaction.Answers (d : Transaction) (fits : Host → Prop) : Prop :=
  (∃ h, fits h ∧ d.reply = .host h) ∨ ((∀ h, ¬ fits h) ∧ d.reply = .refused .notFound)

theorem Transaction.Answers.of_iff {d : Transaction} {fits fits' : Host → Prop}
    (ha : d.Answers fits) (hf : ∀ h, fits h ↔ fits' h) : d.Answers fits' := by
  rcases ha with ⟨h, hfit, hr⟩ | ⟨hno, hr⟩
  · exact .inl ⟨h, (hf h).mp hfit, hr⟩
  · exact .inr ⟨fun h hfit => hno h ((hf h).mpr hfit), hr⟩

/-- How a transaction found the store and left it. -/
def Transaction.Changes (terms : Terms) (d : Transaction) (m m' : Memory) : Prop :=
  match d.demand with
  | .register _ =>
    (∃ refusal, d.reply = .refused refusal ∧ m' = m) ∨
      ∃ h, d.reply = .host h ∧ m' = m.add h ∧ (∀ g, m.Holds g → g.id ≠ h.id) ∧
        (∀ g, m.Holds g → g.code ≠ h.code) ∧ h.createdAt = d.moment ∧ h.updatedAt = d.moment ∧
        h.id ∈ d.ids
  | .findById id => m' = m ∧ d.Answers fun h => m.Holds h ∧ h.id = id
  | .findByCode code => m' = m ∧ d.Answers fun h => m.Holds h ∧ h.code = code
  | .deleteById id =>
    (∃ h, m.Holds h ∧ h.id = id ∧ d.reply = .host h ∧ m' = m.remove h) ∨
      ((∀ h, m.Holds h → h.id ≠ id) ∧ d.reply = .refused .notFound ∧ m' = m)
  | .deleteByCode code =>
    (∃ h, m.Holds h ∧ h.code = code ∧ d.reply = .host h ∧ m' = m.remove h) ∨
      ((∀ h, m.Holds h → h.code ≠ code) ∧ d.reply = .refused .notFound ∧ m' = m)
  | .refresh id =>
    (∃ h, m.Holds h ∧ h.id = id ∧ d.reply = .host { h with updatedAt := d.moment } ∧
        m' = m.renew { h with updatedAt := d.moment }) ∨
      ((∀ h, m.Holds h → h.id ≠ id) ∧ d.reply = .refused .notFound ∧ m' = m)
  | .listLive =>
    d.reply = .hosts (m.list.filter fun h => Expiry.isLive terms.lifetime h.updatedAt d.moment) ∧
      m'.Consistent ∧ ∀ h, m'.Holds h ↔ m.Holds h ∧ ¬ terms.Expired h.updatedAt d.moment
  | .readSettings | .updateSettings _ _ | .authorize _ | .http _ => True

namespace World.Quiet

variable {w : World} {m : Memory} {α : Type} (clock : Nat → Instant)

theorem ask (h : w.Quiet m) (command : Command) (limit : Nat) (late : Trouble) :
    ∃ after, after.Quiet (m.run w.draws command).2.1 ∧ w.SameClock after ∧
      after.draws = (m.run w.draws command).2.2 ∧
      ∀ next : command.Answer → Attempt α,
        (Attempt.ask command limit late next).runBy clock w
          = (next (m.run w.draws command).1).runBy clock after ∧
        (Attempt.ask command limit late next).idsBy clock w = w.draws.idsUntil after.draws
          ++ (next (m.run w.draws command).1).idsBy clock after := by
  obtain ⟨after, hc, hq, hs, hd⟩ := h.call command limit
  refine ⟨after, hq, hs, hd, fun next => ⟨?_, ?_⟩⟩
  · simp only [Attempt.ask, Interaction.runBy, hc]
  · simp only [Attempt.ask, Interaction.idsBy, hc]

/-- A registration failed without a trace, or it stored a host under a new id that it drew and a
free code, at the time that was read last. -/
inductive Registration (clock : Nat → Instant) (m : Memory) (ids : List String) (after : World) :
    Except Refusal Host → Prop
  | refused (refusal : Refusal) (quiet : after.Quiet m) :
    Registration clock m ids after (.error refusal)
  | stored (host : Host) (quiet : after.Quiet (m.add host)) (newId : m.findById host.id = none)
    (freeCode : m.codes.get? host.code = none)
    (createdAt : host.createdAt = clock (after.clockReads - 1))
    (updatedAt : host.updatedAt = clock (after.clockReads - 1)) (drawn : host.id ∈ ids) :
    Registration clock m ids after (.ok host)

theorem Registration.mono {m : Memory} {ids more : List String} {after : World}
    {result : Except Refusal Host} (h : Registration clock m more after result)
    (hsub : more ⊆ ids) : Registration clock m ids after result := by
  cases h with
  | refused refusal quiet => exact .refused refusal quiet
  | stored host quiet newId freeCode createdAt updatedAt drawn =>
    exact .stored host quiet newId freeCode createdAt updatedAt (hsub drawn)

theorem tryCodes (h : w.Quiet m) (terms : Terms) (address : String) (port : Port)
    (left number : Nat) :
    ∃ result after, (Directory.tryCodes terms address port left number).runBy clock w
        = (result, after) ∧
      Registration clock m ((Directory.tryCodes terms address port left number).idsBy clock w)
        after result := by
  induction left generalizing w number with
  | zero =>
    exact ⟨_, _, rfl, .refused _ (h.note _)⟩
  | succ left ih =>
    -- the reading, the draw of the seed, and then one insert
    have hr : World.Quiet { w with clock := clock w.clockReads }.readClock.2.draw.2 m :=
      ⟨h.backing, h.disturbances⟩
    simp only [Directory.tryCodes, Interaction.runBy, Interaction.idsBy, Directory.ask]
    generalize hb : { w with clock := clock w.clockReads }.readClock.2.draw.2 = b at hr
    have hreads : b.clockReads = w.clockReads + 1 := by
      rw [← hb]
      rfl
    have hnow : { w with clock := clock w.clockReads }.readClock.1 = clock w.clockReads := rfl
    rw [hnow]
    generalize JoinCode.ofSeed (Seed.ofDraw (clock w.clockReads)
      { w with clock := clock w.clockReads }.readClock.2.draw.1) = code
    generalize hcand : (⟨address, port, code, clock w.clockReads⟩ : Candidate) = candidate
    have hmoment : candidate.moment = clock w.clockReads := by rw [← hcand]
    obtain ⟨c, hc, hs, hd, hnext⟩ := hr.ask clock (.insert candidate) terms.storageLimit
      (.noResponse terms.storageLimit)
    rw [(hnext _).1, (hnext _).2]
    rcases m.insert_cases candidate b.draws with ⟨rest, hi⟩ | ⟨id, rest, hi, hid, hcode⟩
    · simp only [Memory.run, hi] at hc ⊢
      obtain ⟨result, after, he, hres⟩ := ih (hc.note (.codeTaken code number)) (number + 1)
      exact ⟨result, after, he, hres.mono clock (List.subset_append_right _ _)⟩
    · simp only [Memory.run, hi] at hc hd ⊢
      have hlast : clock ((c.note (.registered (candidate.host id))).clockReads - 1)
          = candidate.moment := by
        show clock (c.clockReads - 1) = _
        rw [hs.clockReads, hreads, Nat.add_sub_cancel, hmoment]
      refine ⟨_, _, rfl, .stored (candidate.host id) (hc.note _) hid hcode hlast.symm
        hlast.symm ?_⟩
      rw [hd]
      exact List.mem_append_left _ (Memory.insert_drawn hi)

theorem register (h : w.Quiet m) (terms : Terms) (a : Announcement) :
    ∃ result after, (Directory.register terms a).runBy clock w = (result, after) ∧
      Registration clock m ((Directory.register terms a).idsBy clock w) after result := by
  unfold Directory.register
  split
  · exact ⟨_, _, rfl, .refused _ h⟩
  · exact ⟨_, _, rfl, .refused _ h⟩
  · exact h.tryCodes clock terms _ _ _ _

theorem findById (h : w.Quiet m) (terms : Terms) (id : String) :
    ∃ after, (Directory.findById terms id).runBy clock w
        = (Directory.found (m.findById id), after) ∧ after.Quiet m := by
  obtain ⟨after, hq, _, _, hnext⟩ := h.ask clock (.findById id) terms.storageLimit
    (.noResponse terms.storageLimit)
  exact ⟨after, (hnext _).1, hq⟩

theorem findByCode (h : w.Quiet m) (terms : Terms) (code : String) :
    ∃ after, (Directory.findByCode terms code).runBy clock w
        = (Directory.found (m.findByCode code), after) ∧ after.Quiet m := by
  obtain ⟨after, hq, _, _, hnext⟩ := h.ask clock (.findByCode code) terms.storageLimit
    (.noResponse terms.storageLimit)
  exact ⟨after, (hnext _).1, hq⟩

theorem removed (h : w.Quiet m) (host : Option Host) :
    ∃ after, (Directory.removed host).runBy clock w = (Directory.found host, after) ∧
      after.Quiet m := by
  cases host with
  | none => exact ⟨w, rfl, h⟩
  | some host => exact ⟨_, rfl, h.note _⟩

theorem deleteById (h : w.Quiet m) (terms : Terms) (id : String) :
    ∃ after, (Directory.deleteById terms id).runBy clock w
        = (Directory.found (m.deleteById id).1, after) ∧ after.Quiet (m.deleteById id).2 := by
  obtain ⟨b, hb, _, _, hnext⟩ := h.ask clock (.deleteById id) terms.storageLimit
    (.noResponse terms.storageLimit)
  obtain ⟨after, he, hq⟩ := hb.removed clock (m.deleteById id).1
  exact ⟨after, (hnext _).1.trans he, hq⟩

theorem deleteByCode (h : w.Quiet m) (terms : Terms) (code : String) :
    ∃ after, (Directory.deleteByCode terms code).runBy clock w
        = (Directory.found (m.deleteByCode code).1, after) ∧
      after.Quiet (m.deleteByCode code).2 := by
  obtain ⟨b, hb, _, _, hnext⟩ := h.ask clock (.deleteByCode code) terms.storageLimit
    (.noResponse terms.storageLimit)
  obtain ⟨after, he, hq⟩ := hb.removed clock (m.deleteByCode code).1
  exact ⟨after, (hnext _).1.trans he, hq⟩

theorem refresh (h : w.Quiet m) (terms : Terms) (id : String) :
    ∃ after, (Directory.refresh terms id).runBy clock w
        = (Directory.found (m.touch id (clock w.clockReads)).1, after) ∧
      after.Quiet (m.touch id (clock w.clockReads)).2 ∧
      after.clockReads = w.clockReads + 1 := by
  have hr : World.Quiet { w with clock := clock w.clockReads }.readClock.2 m :=
    ⟨h.backing, h.disturbances⟩
  obtain ⟨after, hq, hs, _, hnext⟩ := hr.ask clock (.touch id (clock w.clockReads))
    terms.storageLimit (.noResponse terms.storageLimit)
  exact ⟨after, (hnext _).1, hq, hs.clockReads⟩

/-- A listing answers with the live ones of the stored hosts and removes the others. -/
theorem listLive (h : w.Quiet m) (hm : m.Consistent) (terms : Terms) :
    ∃ after m', (Directory.listLive terms).runBy clock w
        = (.ok (m.list.filter fun h =>
            Expiry.isLive terms.lifetime h.updatedAt (clock w.clockReads)), after) ∧
      after.Quiet m' ∧ m'.Consistent ∧ after.clockReads = w.clockReads + 1 ∧
      ∀ h, m'.Holds h ↔ m.Holds h ∧ ¬ terms.Expired h.updatedAt (clock w.clockReads) := by
  obtain ⟨a, ha, hs, _, hnext⟩ := h.ask clock .list terms.storageLimit
    (.noResponse terms.storageLimit)
  have hreads : a.clockReads = w.clockReads := hs.clockReads
  have hb : World.Quiet { a with clock := clock a.clockReads }.readClock.2 m :=
    ⟨ha.backing, ha.disturbances⟩
  generalize hbw : { a with clock := clock a.clockReads }.readClock.2 = b at hb
  have hbreads : b.clockReads = w.clockReads + 1 := by
    rw [← hreads, ← hbw]
    rfl
  simp only [Directory.listLive, Directory.ask]
  rw [(hnext _).1]
  simp only [Interaction.runBy, hbw]
  have hnow : { a with clock := clock a.clockReads }.readClock.1 = clock w.clockReads :=
    congrArg clock hreads
  rw [hnow]
  simp only [Memory.run, List.partition_eq_filter_filter]
  generalize hexp : m.list.filter (not ∘ fun h =>
    Expiry.isLive terms.lifetime h.updatedAt (clock w.clockReads)) = expired
  have hmem : ∀ host, host ∈ expired ↔
      m.Holds host ∧ terms.Expired host.updatedAt (clock w.clockReads) := by
    intro host
    rw [← hexp, List.mem_filter, Memory.mem_list_iff hm, Function.comp_apply,
      Bool.not_eq_true', ← Bool.not_eq_true, Terms.isLive_iff, Decidable.not_not]
  have hout : ∀ host, (m.Holds host ∧ ∀ e ∈ expired, host.id ≠ e.id) ↔
      m.Holds host ∧ ¬ terms.Expired host.updatedAt (clock w.clockReads) := by
    refine fun host => and_congr_right fun hh => ⟨fun hne he => ?_, fun hl e he hid => ?_⟩
    · exact hne host ((hmem host).mpr ⟨hh, he⟩) rfl
    · have heq := hh.eq_of_id ((hmem e).mp he).1 hid
      rw [heq] at hl
      exact hl ((hmem e).mp he).2
  obtain ⟨hcons, hholds⟩ := Memory.removeAll_spec hm expired
  split
  · next hnil =>
    rw [List.isEmpty_iff.mp hnil] at hcons hholds hout
    exact ⟨b, _, rfl, hb, hcons, hbreads, fun h => (hholds h).trans (hout h)⟩
  · obtain ⟨removed, c, he, hc, hsc, _⟩ := hb.evict expired terms.evictionLimit
    simp only [Interaction.runBy, he]
    exact ⟨_, _, rfl, hc.note _, hcons, hsc.clockReads.trans hbreads,
      fun h => (hholds h).trans (hout h)⟩

end World.Quiet

/-! ## Demands -/

section

variable {terms : Terms} {guard : Guard} {clock : Nat → Instant} {w after : World}

theorem serve_eq {demand : Demand} {reply : Reply}
    (h : (demand.interaction terms guard).runBy clock w = (reply, after)) :
    serve terms guard clock w demand = (⟨demand, clock (after.clockReads - 1), reply,
      (demand.interaction terms guard).idsBy clock w, w.backing, after.backing⟩, after) := by
  simp only [serve, h]

/-- The reply to a demand that comes down to a value. -/
theorem serve_map {α : Type} {demand : Demand} {i : Interaction α} {f : α → Reply} {value : α}
    (hd : demand.interaction terms guard = i.map f) (hi : i.runBy clock w = (value, after)) :
    serve terms guard clock w demand = (⟨demand, clock (after.clockReads - 1), f value,
      i.idsBy clock w, w.backing, after.backing⟩, after) := by
  rw [← Interaction.idsBy_map clock f i w, ← hd]
  refine serve_eq ?_
  rw [hd, Interaction.runBy_map, hi]

/-- A demand that ended is known with the stores before and after it. -/
structure Served (terms : Terms) (guard : Guard) (clock : Nat → Instant) (w : World) (m : Memory)
    (demand : Demand) (d : Transaction) (after : World) (m' : Memory) : Prop where
  serve_eq : serve terms guard clock w demand = (d, after)
  demand : d.demand = demand
  quiet : after.Quiet m'
  before : d.before = .memory m
  after : d.after = .memory m'
  changes : d.Changes terms m m'

variable {m : Memory}

theorem Transaction.answers_found {d : Transaction} {fits : Host → Prop} {host : Option Host}
    (hd : d.reply = .ofAttempt .host (Directory.found host))
    (hf : ∀ {h}, host = some h ↔ fits h) : d.Answers fits := by
  cases host with
  | none =>
    refine .inr ⟨fun h hfit => ?_, hd⟩
    cases hf.mpr hfit
  | some h => exact .inl ⟨h, hf.mp rfl, hd⟩

/-- Every operation in a quiet world ends, and changes the store as it should. -/
theorem serve_changes (h : w.Quiet m) (hm : m.Consistent) {demand : Demand}
    (hop : demand.isOperation = true) :
    ∃ d after m', Served terms guard clock w m demand d after m' := by
  cases demand with
  | register a =>
    obtain ⟨result, after, he, hr⟩ := h.register clock terms a
    cases hr with
    | refused refusal hq =>
      exact ⟨_, _, _, serve_map rfl he, rfl, hq, h.backing, hq.backing, .inl ⟨refusal, rfl, rfl⟩⟩
    | stored host hq hid hcode hcreated hupdated hdrawn =>
      exact ⟨_, _, _, serve_map rfl he, rfl, hq, h.backing, hq.backing, .inr ⟨host, rfl, rfl,
        (Memory.findById_eq_none_iff hm).mp hid, (Memory.codes_eq_none_iff hm).mp hcode,
        hcreated, hupdated, hdrawn⟩⟩
  | findById id =>
    obtain ⟨after, he, hq⟩ := h.findById clock terms id
    refine ⟨_, _, _, serve_map rfl he, rfl, hq, h.backing, hq.backing, rfl, ?_⟩
    exact Transaction.answers_found rfl (Memory.findById_eq_some_iff hm)
  | findByCode code =>
    obtain ⟨after, he, hq⟩ := h.findByCode clock terms code
    refine ⟨_, _, _, serve_map rfl he, rfl, hq, h.backing, hq.backing, rfl, ?_⟩
    exact Transaction.answers_found rfl (Memory.findByCode_eq_some_iff hm)
  | deleteById id =>
    obtain ⟨after, he, hq⟩ := h.deleteById clock terms id
    rcases m.deleteById_cases hm id with ⟨hd, hn⟩ | ⟨g, hd, hh, hid⟩
    · rw [hd] at he hq
      refine ⟨_, _, _, serve_map rfl he, rfl, hq, h.backing, hq.backing, .inr ⟨?_, rfl, rfl⟩⟩
      exact (Memory.findById_eq_none_iff hm).mp hn
    · rw [hd] at he hq
      exact ⟨_, _, _, serve_map rfl he, rfl, hq, h.backing, hq.backing, .inl ⟨g, hh, hid, rfl, rfl⟩⟩
  | deleteByCode code =>
    obtain ⟨after, he, hq⟩ := h.deleteByCode clock terms code
    rcases m.deleteByCode_cases hm code with ⟨hd, hn⟩ | ⟨g, hd, hh, hcode⟩
    · rw [hd] at he hq
      refine ⟨_, _, _, serve_map rfl he, rfl, hq, h.backing, hq.backing, .inr ⟨?_, rfl, rfl⟩⟩
      exact (Memory.findByCode_eq_none_iff hm).mp hn
    · rw [hd] at he hq
      refine ⟨_, _, _, serve_map rfl he, rfl, hq, h.backing, hq.backing, .inl ?_⟩
      exact ⟨g, hh, hcode, rfl, rfl⟩
  | refresh id =>
    obtain ⟨after, he, hq, hreads⟩ := h.refresh clock terms id
    have hlast : clock w.clockReads = clock (after.clockReads - 1) := by
      rw [hreads, Nat.add_sub_cancel]
    rw [hlast] at he hq
    rcases m.touch_cases hm id (clock (after.clockReads - 1)) with ⟨ht, hn⟩ | ⟨g, ht, hh, hid⟩
    · rw [ht] at he hq
      refine ⟨_, _, _, serve_map rfl he, rfl, hq, h.backing, hq.backing, .inr ⟨?_, rfl, rfl⟩⟩
      exact (Memory.findById_eq_none_iff hm).mp hn
    · rw [ht] at he hq
      exact ⟨_, _, _, serve_map rfl he, rfl, hq, h.backing, hq.backing, .inl ⟨g, hh, hid, rfl, rfl⟩⟩
  | listLive =>
    obtain ⟨after, m', he, hq, hcons, hreads, hholds⟩ := h.listLive clock hm terms
    have hlast : clock w.clockReads = clock (after.clockReads - 1) := by
      rw [hreads, Nat.add_sub_cancel]
    rw [hlast] at he hholds
    exact ⟨_, _, _, serve_map rfl he, rfl, hq, h.backing, hq.backing, rfl, hcons, hholds⟩
  | readSettings => cases hop
  | updateSettings token body => cases hop
  | authorize token => cases hop
  | http request => cases hop

end

end Rendezvous
