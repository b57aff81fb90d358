import ContextqlServer.Deepsee.Bootstrap

namespace ContextqlServer.Deepsee.Wire

open ContextqlServer.Lib.Effect ContextqlServer.Lib.Mapping ContextqlServer.Lib.Python
open ContextqlServer.Deepsee.Models ContextqlServer.Deepsee.MockService
open ContextqlServer.Deepsee.Client ContextqlServer.Deepsee.Bootstrap

variable {c : DeepSeeClient} {now : Timestamp} {page : SnapshotPage} {batch : ChangeBatch}

/-- `DeepSeeContractError` and its subclass for stale data. -/
def IsContractError (e : Exn) : Prop :=
  ∃ d, e = .deepSee d ∧ (d.errorClass = .contract ∨ d.errorClass = .staleData)

theorem isContractError (message : String) : IsContractError (contractError message) := ⟨_, rfl, .inl rfl⟩

/-- A text that is no time is refused with a `ValueError`. -/
theorem parseIso_not_contract {dataAsOf : WireTime} {e : Exn} (h : parseIso dataAsOf = .error e) :
    ¬ IsContractError e := by
  cases dataAsOf with
  | iso t => cases h
  | other text message =>
    obtain rfl := Except.error.inj h
    rintro ⟨d, hd, -⟩
    cases hd

def validateMembers (c : DeepSeeClient) (page : SnapshotPage) : Except Exn Unit :=
  match page.membershipBitmap with
  | some payload => c.validateBitmapPayload payload page.bitmapEncoding
  | none => DeepSeeClient.validateEntityIds page.entityIds

/-- What `fetch_snapshot` makes of a page, whoever has sent it. -/
def receiveSnapshot (c : DeepSeeClient) (now : Timestamp) (page : SnapshotPage) : Except Exn SnapshotPage := do
  c.validateFreshness now page.dataAsOf
  DeepSeeClient.validateKeyType page.entityKeyType
  validateMembers c page
  return page

def receiveChanges (c : DeepSeeClient) (now : Timestamp) (batch : ChangeBatch) : Except Exn ChangeBatch := do
  c.validateFreshness now batch.dataAsOf
  return batch

theorem fetchSnapshot_eq (s : MockDeepSeeService) (cursor : Option String) :
    c.fetchSnapshot now s cursor = s.snapshot c.bitMap64 cursor c.token >>= receiveSnapshot c now := by
  rw [DeepSeeClient.fetchSnapshot]
  apply bind_congr
  intro page
  simp only [receiveSnapshot, validateMembers]
  cases page.membershipBitmap <;> rfl

theorem fetchChanges_eq (s : MockDeepSeeService) (since : String) (cursor : Option String) :
    c.fetchChanges now s since cursor = s.changes since cursor c.token >>= receiveChanges c now := rfl

def Fresh (c : DeepSeeClient) (now : Timestamp) (dataAsOf : WireTime) : Prop :=
  ∀ bound, c.maxDataAge = some bound → ∃ t, parseIso dataAsOf = .ok t ∧ now - t ≤ bound

theorem validateFreshness_ok {dataAsOf : WireTime} :
    c.validateFreshness now dataAsOf = .ok () ↔ Fresh c now dataAsOf := by
  rw [DeepSeeClient.validateFreshness, Fresh]
  cases c.maxDataAge with
  | none => simp
  | some bound =>
    simp only [Option.some.injEq, forall_eq']
    cases parseIso dataAsOf with
    | error e => simp [bind, Except.bind]
    | ok t =>
      simp only [bind, Except.bind, Except.ok.injEq, exists_eq_left']
      split
      · rename_i h
        simp [not_le.mpr h]
      · rename_i h
        simp [not_lt.mp h]

/-- Only where an age is required the text of a time is looked at. -/
def Legible (c : DeepSeeClient) (dataAsOf : WireTime) : Prop :=
  c.maxDataAge = none ∨ ∃ t, parseIso dataAsOf = .ok t

theorem validateKeyType_ok {keyType : String} :
    DeepSeeClient.validateKeyType keyType = .ok () ↔ keyType = supportedEntityKeyType := by
  rw [DeepSeeClient.validateKeyType]
  split
  · rename_i h
    simp [h]
  · rename_i h
    simpa using h

theorem validateBitmapPayload_ok {payload : List UInt8} {encoding : Option String} :
    c.validateBitmapPayload payload encoding = .ok () ↔
      payload.length ≤ c.maxPayloadBytes ∧ encoding = some supportedBitmapEncoding := by
  rw [DeepSeeClient.validateBitmapPayload]
  split
  · rename_i h
    simp [not_le.mpr h]
  · rename_i h
    simp only [not_lt.mp h, true_and]
    split
    · rename_i hencoding
      simp [hencoding]
    · rename_i hencoding
      simpa using hencoding

/-- The pages that the client takes: recent enough, with keys of the one type, and either
a bitmap of a legal size and encoding or a list of ids that are not negative. -/
structure Accepted (c : DeepSeeClient) (now : Timestamp) (page : SnapshotPage) : Prop where
  fresh : Fresh c now page.dataAsOf
  keyType : page.entityKeyType = supportedEntityKeyType
  bitmap : ∀ payload, page.membershipBitmap = some payload →
    payload.length ≤ c.maxPayloadBytes ∧ page.bitmapEncoding = some supportedBitmapEncoding
  ids : page.membershipBitmap = none → ∃ ids, page.entityIds = some ids ∧ ∀ i ∈ ids, 0 ≤ i

theorem validateMembers_ok : validateMembers c page = .ok () ↔
    (∀ payload, page.membershipBitmap = some payload →
      payload.length ≤ c.maxPayloadBytes ∧ page.bitmapEncoding = some supportedBitmapEncoding) ∧
    (page.membershipBitmap = none → ∃ ids, page.entityIds = some ids ∧ ∀ i ∈ ids, 0 ≤ i) := by
  rw [validateMembers]
  cases page.membershipBitmap with
  | some payload => simp [validateBitmapPayload_ok]
  | none =>
    cases page.entityIds with
    | none => simp [DeepSeeClient.validateEntityIds]
    | some ids => simp [validateEntityIds_eq_ok]

theorem receiveSnapshot_ok {page' : SnapshotPage} :
    receiveSnapshot c now page = .ok page' ↔ Accepted c now page ∧ page' = page := by
  rw [receiveSnapshot, bind_eq_ok]
  constructor
  · rintro ⟨_, hfresh, h⟩
    obtain ⟨_, htype, h⟩ := bind_eq_ok.mp h
    obtain ⟨_, hmembers, h⟩ := bind_eq_ok.mp h
    obtain ⟨hbitmap, hids⟩ := validateMembers_ok.mp hmembers
    exact ⟨⟨validateFreshness_ok.mp hfresh, validateKeyType_ok.mp htype, hbitmap, hids⟩, (Except.ok.inj h).symm⟩
  · rintro ⟨h, rfl⟩
    exact ⟨(), validateFreshness_ok.mpr h.fresh, bind_eq_ok.mpr ⟨(), validateKeyType_ok.mpr h.keyType,
      bind_eq_ok.mpr ⟨(), validateMembers_ok.mpr ⟨h.bitmap, h.ids⟩, rfl⟩⟩⟩

theorem receiveChanges_ok {batch' : ChangeBatch} :
    receiveChanges c now batch = .ok batch' ↔ Fresh c now batch.dataAsOf ∧ batch' = batch := by
  rw [receiveChanges, bind_eq_ok]
  constructor
  · rintro ⟨_, hfresh, h⟩
    exact ⟨validateFreshness_ok.mp hfresh, (Except.ok.inj h).symm⟩
  · rintro ⟨hfresh, rfl⟩
    exact ⟨(), validateFreshness_ok.mpr hfresh, rfl⟩

section Refused

variable {α β : Type}

def Contractual (x : Except Exn α) : Prop := ∀ e, x = .error e → IsContractError e

theorem Contractual.ok (a : α) : Contractual (.ok a) := nofun

theorem Contractual.bind {x : Except Exn α} {f : α → Except Exn β} (hx : Contractual x)
    (hf : ∀ a, Contractual (f a)) : Contractual (x >>= f) := by
  cases x with
  | ok a => exact hf a
  | error e =>
    intro e' he
    obtain rfl := Except.error.inj he
    exact hx _ rfl

theorem contractual_freshness {dataAsOf : WireTime} (h : Legible c dataAsOf) :
    Contractual (c.validateFreshness now dataAsOf) := by
  rw [DeepSeeClient.validateFreshness]
  obtain hage | ⟨t, ht⟩ := h
  · rw [hage]
    exact .ok ()
  · split
    · exact .ok ()
    · simp only [ht, bind, Except.bind]
      split
      · rintro e ⟨⟩
        exact ⟨_, rfl, .inr rfl⟩
      · exact .ok ()

theorem legible_of_fresh {dataAsOf : WireTime} {u : Unit} (h : c.validateFreshness now dataAsOf = .ok u) :
    Legible c dataAsOf := by
  rw [DeepSeeClient.validateFreshness] at h
  cases hage : c.maxDataAge with
  | none => exact .inl hage
  | some bound =>
    rw [hage] at h
    obtain ⟨t, ht, -⟩ := bind_eq_ok.mp h
    exact .inr ⟨t, ht⟩

theorem legible_of_contract {dataAsOf : WireTime} {e : Exn} (h : c.validateFreshness now dataAsOf = .error e)
    (he : IsContractError e) : Legible c dataAsOf := by
  rw [DeepSeeClient.validateFreshness] at h
  cases hage : c.maxDataAge with
  | none => exact .inl hage
  | some bound =>
    rw [hage] at h
    cases ht : parseIso dataAsOf with
    | ok t => exact .inr ⟨t, ht⟩
    | error e' =>
      rw [ht] at h
      obtain rfl := Except.error.inj h
      exact absurd he (parseIso_not_contract ht)

theorem contractual_members : Contractual (validateMembers c page) := by
  rw [validateMembers]
  split
  · rw [DeepSeeClient.validateBitmapPayload]
    split
    · rintro e ⟨⟩
      exact isContractError _
    · split
      · rintro e ⟨⟩
        exact isContractError _
      · exact .ok ()
  · cases page.entityIds with
    | none =>
      rintro e ⟨⟩
      exact isContractError _
    | some ids =>
      rw [DeepSeeClient.validateEntityIds]
      split
      · rintro e ⟨⟩
        exact isContractError _
      · exact .ok ()

theorem receiveSnapshot_contractual (h : Legible c page.dataAsOf) : Contractual (receiveSnapshot c now page) := by
  apply (contractual_freshness h).bind
  intro _
  apply Contractual.bind
  · rw [DeepSeeClient.validateKeyType]
    split
    · rintro e ⟨⟩
      exact isContractError _
    · exact .ok ()
  · exact fun _ => contractual_members.bind fun _ => .ok page

theorem receiveChanges_contractual (h : Legible c batch.dataAsOf) : Contractual (receiveChanges c now batch) :=
  (contractual_freshness h).bind fun _ => .ok batch

end Refused

end ContextqlServer.Deepsee.Wire
