import Rendezvous.Proofs.Requests

/-!
# Callers without the token

A request for a change of the settings that does not present the configured token is refused before
anything else of it is looked at: with one response for all such requests and all states, and
without asking anything of the world.
-/

namespace Rendezvous.Api

/-! ## Tokens -/

/-- A byte that a token may have: visible ASCII, a space or a tab. -/
def IsVisible (b : UInt8) : Prop := b = 9 ∨ 32 ≤ b.toNat ∧ b.toNat < 127

theorem Request.all_visible_iff {value : List UInt8} :
    (value.all fun b => b == 9 || (32 ≤ b.toNat && b.toNat < 127)) = true ↔
      ∀ b ∈ value, IsVisible b := by
  simp only [List.all_eq_true, Bool.or_eq_true, beq_iff_eq, Bool.and_eq_true, decide_eq_true_eq,
    IsVisible]

theorem utf8EncodeChar_of_visible {b : UInt8} (h : IsVisible b) :
    String.utf8EncodeChar (Char.ofNat b.toNat) = [b] := by
  have hascii : ∀ n < 128, String.utf8EncodeChar (Char.ofNat n) = [UInt8.ofNat n] := by decide
  have hlt : b.toNat < 128 := by
    rcases h with rfl | h
    · decide
    · omega
  rw [hascii _ hlt, UInt8.ofNat_toNat]

theorem Request.encode_visible {value : List UInt8} {text : String}
    (h : visible? value = some text) : Utf8.encode text = value := by
  unfold visible? at h
  split at h
  · rename_i hall
    rw [all_visible_iff] at hall
    rw [← Option.some.inj h, Utf8.encode, String.toList_ofList, List.flatMap_map]
    clear h
    induction value with
    | nil => rfl
    | cons b value ih =>
      rw [List.flatMap_cons, utf8EncodeChar_of_visible (hall b (.head _)),
        ih fun x hx => hall x (.tail _ hx)]
      rfl
  · cases h

/-- The first `token` header is the configured token, byte for byte. -/
def Request.Proves (r : Request) (guard : Guard) : Prop :=
  ∃ expected, guard.token = some expected ∧ r.header? "token" = some (Utf8.encode expected)

/-- The first `token` header is missing, or is not visible ASCII, or is another one than the
configured token; every one is when no token is configured. -/
inductive Request.Unproven (r : Request) (guard : Guard) : Prop
  | missing (h : r.header? "token" = none)
  | notVisible {value : List UInt8} (h : r.header? "token" = some value) {b : UInt8}
    (mem : b ∈ value) (hidden : ¬ IsVisible b)
  | different {value : List UInt8} (h : r.header? "token" = some value)
    (other : ∀ expected, guard.token = some expected → value ≠ Utf8.encode expected)

variable {r : Request} {guard : Guard}

theorem Request.unproven_or_proves (r : Request) (guard : Guard) :
    r.Unproven guard ∨ r.Proves guard := by
  cases hheader : r.header? "token" with
  | none => exact .inl (.missing hheader)
  | some value =>
    by_cases hproves : ∃ expected, guard.token = some expected ∧ value = Utf8.encode expected
    · obtain ⟨expected, htoken, rfl⟩ := hproves
      exact .inr ⟨expected, htoken, hheader⟩
    · exact .inl (.different hheader fun expected htoken hvalue =>
        hproves ⟨expected, htoken, hvalue⟩)

theorem Request.Unproven.authorize (h : r.Unproven guard) :
    guard.authorize (r.headerText? "token") = .error .unauthorized := by
  unfold Guard.authorize
  split
  · rename_i expected given htoken htext
    rw [if_neg]
    rintro rfl
    obtain ⟨value, hheader, hvisible⟩ := Option.bind_eq_some_iff.mp htext
    cases h with
    | missing hnone => cases hheader.symm.trans hnone
    | notVisible hvalue mem hidden =>
      obtain rfl := Option.some.inj (hheader.symm.trans hvalue)
      unfold Request.visible? at hvisible
      split at hvisible
      · rename_i hall
        exact hidden (Request.all_visible_iff.mp hall _ mem)
      · cases hvisible
    | different hvalue other =>
      obtain rfl := Option.some.inj (hheader.symm.trans hvalue)
      exact other _ htoken (Request.encode_visible hvisible).symm
  · rfl

/-! ## Responses -/

def Request.IsUpdate (r : Request) : Prop :=
  r.method = "POST" ∧ segments (pathOf r.target) = ["", "api", "config"]

theorem Request.IsUpdate.fits (h : r.IsUpdate) : Row.updateSettings.Fits r "" "" :=
  ⟨h.1, h.2, fun hparameter => absurd hparameter (by decide)⟩

/-- The response to all who do not present the token. -/
def denied : Response := .ofRefusal .unauthorized

theorem handle_unproven (terms : Terms) (hupdate : r.IsUpdate) (h : r.Unproven guard) :
    handle terms guard r = .done denied := by
  rw [hupdate.fits.handle (fun hrow => by cases hrow)]
  show (updateSettings guard r).map Response.whole = _
  unfold updateSettings
  simp only [h.authorize]
  rfl

/-- What a caller without the token can learn and change: nothing. -/
structure Sealed (terms : Terms) (guard : Guard) : Prop where
  /-- Two requests without the token, in any two states, are told the same; nothing is asked of the
  world, in particular no store is called, and the states stay as they are. -/
  silent : ∀ (r₁ r₂ : Request) (w₁ w₂ : World), r₁.IsUpdate → r₂.IsUpdate →
    r₁.Unproven guard → r₂.Unproven guard → ∃ response,
      handle terms guard r₁ = .done response ∧ handle terms guard r₂ = .done response ∧
      (handle terms guard r₁).run w₁ = (response, w₁) ∧
      (handle terms guard r₂).run w₂ = (response, w₂) ∧
      response.status = 401 ∧ response.text = complaint "invalid API key"
  /-- Only a request with the token changes anything, the settings or something else. -/
  locked : ∀ (r : Request) (w : World), r.IsUpdate → ((handle terms guard r).run w).2 ≠ w →
    r.Proves guard

theorem updates_sealed (terms : Terms) (guard : Guard) : Sealed terms guard where
  silent r₁ r₂ w₁ w₂ hupdate₁ hupdate₂ h₁ h₂ := by
    have hdenied₁ := handle_unproven terms hupdate₁ h₁
    have hdenied₂ := handle_unproven terms hupdate₂ h₂
    refine ⟨denied, hdenied₁, hdenied₂, ?_, ?_, rfl, rfl⟩
    · rw [hdenied₁]
      rfl
    · rw [hdenied₂]
      rfl
  locked r w hupdate hchanged := by
    rcases r.unproven_or_proves guard with h | h
    · rw [handle_unproven terms hupdate h] at hchanged
      exact absurd rfl hchanged
    · exact h

def letmein : Guard := { token := some "letmein" }

def bareUpdate : Request := { method := "POST", target := "/api/config", body := [0x7B, 0x22] }

def wrongUpdate : Request :=
  { method := "POST", target := "/api/config?now", body := Utf8.encode "\x7b\"a\":1\x7d"
    headers := [("Token", Utf8.encode "letmeout"), ("token", Utf8.encode "letmein"),
      ("content-type", Utf8.encode "application/json")] }

def provenUpdate : Request :=
  { method := "POST", target := "/api/config", body := Utf8.encode "\x7b\"a\":1\x7d"
    headers := [("Token", Utf8.encode "letmein"),
      ("content-type", Utf8.encode "application/json")] }

theorem wrongUpdate_unproven : wrongUpdate.Unproven letmein := by
  have hheader : wrongUpdate.header? "token" = some (Utf8.encode "letmeout") := by
    decide +kernel
  refine .different hheader fun expected htoken => ?_
  cases htoken
  decide +kernel

/-- A malformed request without a token and a good one with another token are told the same, in a
world without settings and in one with some; the request with the token changes the first. -/
theorem updates_sealed_letmein :
    let fresh : World := { clock := .epoch, backing := .memory {} }
    let set : World := { fresh with backing := .memory { settings := some (.object []) } }
    (∃ response, handle {} letmein bareUpdate = .done response ∧
      handle {} letmein wrongUpdate = .done response ∧
      (handle {} letmein bareUpdate).run fresh = (response, fresh) ∧
      (handle {} letmein wrongUpdate).run set = (response, set) ∧
      response.status = 401 ∧ response.text = complaint "invalid API key") ∧
    ((handle {} letmein provenUpdate).run fresh).2 ≠ fresh ∧ provenUpdate.Proves letmein := by
  intro fresh set
  have hchanged : ((handle {} letmein provenUpdate).run fresh).2 ≠ fresh := by
    intro hsame
    have hcalls : ((handle {} letmein provenUpdate).run fresh).2.calls.length = 1 := by
      decide +kernel
    rw [hsame] at hcalls
    cases hcalls
  have hbare : bareUpdate.header? "token" = none := by decide
  exact ⟨(updates_sealed {} letmein).silent bareUpdate wrongUpdate fresh set ⟨rfl, by decide⟩
    ⟨rfl, by decide⟩ (.missing hbare) wrongUpdate_unproven, hchanged,
    (updates_sealed {} letmein).locked provenUpdate fresh ⟨rfl, by decide⟩ hchanged⟩

end Rendezvous.Api
