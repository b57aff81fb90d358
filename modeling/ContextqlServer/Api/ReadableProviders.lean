import ContextqlServer.Api.Providers
import ContextqlServer.Db.Calls

namespace ContextqlServer.Api.ReadableProviders

open ContextqlServer.Lib.Effect ContextqlServer.Lib.JsonText ContextqlServer.Lib.Sql
open ContextqlServer.Db.Schema ContextqlServer.Db.Statements ContextqlServer.Db.Services
open ContextqlServer.Db.Calls ContextqlServer.Api.Providers

variable {T : FloatText} {service : ProviderService} {c c' : Connection catalog}

abbrev providersOf (c : Connection catalog) : List ProviderRow := c.pending.providers.rows

theorem providersOf_advance : providersOf c.advance = providersOf c := rfl

section Calls

variable {name namespaceName eventType : String} {detail : Option Json}

def isNamed (name namespaceName : String) (r : ProviderRow) : Bool :=
  r.name = name && r.namespaceName = namespaceName

theorem exec_get :
    (Connection.handler catalog).exec (ProviderService.get T name namespaceName) c =
      (.ok (((providersOf c).find? (isNamed name namespaceName)).map (ProviderService.rowToDict T)), c.advance) :=
  rfl

theorem exec_reply : ∃ p c', (Connection.handler catalog).exec (do
      service.auditLog T eventType name namespaceName detail
      ProviderService.get T name namespaceName) c = (.ok p, c') ∧ providersOf c' = providersOf c := by
  obtain ⟨c₁, haudit, hpending, -⟩ := @exec_auditLog T service.audit eventType "provider" name namespaceName detail c
  refine ⟨_, c₁.advance, (Handler.exec_bind _ haudit).trans exec_get, ?_⟩
  change c₁.pending.providers.rows = _
  rw [hpending]

theorem exec_change {change : ProviderChange} {p : Option ProviderService.Provider}
    (h : (Connection.handler catalog).exec (service.change T change eventType name namespaceName detail) c =
      (.ok p, c')) : providersOf c' = (providersOf c).map (fun r =>
        if isNamed name namespaceName r then change.apply c.reading.now.strftime r else r) := by
  rw [ProviderService.change, Handler.exec_bind _ exec_sense] at h
  obtain ⟨t, c₁, hexec, h⟩ := Handler.exec_bind_ok.mp h
  obtain ⟨hrun, rfl⟩ := exec_execute_iff.mp hexec
  obtain rfl := Except.ok.inj (Statement.run_ok.mp hrun).2
  rw [Handler.exec_bind _ exec_commit] at h
  obtain ⟨p', c₂, hreply, hproviders⟩ := @exec_reply T service _ name namespaceName eventType detail
  obtain ⟨-, rfl⟩ := Prod.mk.inj (hreply.symm.trans h)
  exact hproviders

theorem exec_current {p : ProviderService.Provider} :
    (Connection.handler catalog).exec (ProviderService.current T name namespaceName) c = (.ok p, c') ↔
      ∃ r, (providersOf c).find? (isNamed name namespaceName) = some r ∧ p = ProviderService.rowToDict T r ∧
        c' = c.advance := by
  rw [ProviderService.current, Handler.exec_bind _ exec_get]
  cases (providersOf c).find? (isNamed name namespaceName) with
  | none =>
    constructor
    · exact fun h => by cases h
    · rintro ⟨r, h, -⟩
      cases h
  | some r =>
    constructor
    · intro h
      obtain ⟨hp, hc⟩ := Prod.mk.inj h
      exact ⟨r, rfl, (Except.ok.inj hp).symm, hc.symm⟩
    · rintro ⟨r', h, rfl, rfl⟩
      obtain rfl := Option.some.inj h
      rfl

theorem exec_register {v : ProviderValues} {p : Option ProviderService.Provider}
    (h : (Connection.handler catalog).exec (service.register T v) c = (.ok p, c')) :
    ∃ r, providersOf c' = providersOf c ++ [r] ∧ r.timeoutMs = some v.timeoutMs ∧
      r.healthState = some "unknown" ∧ r.trustTier = some v.trustTier ∧ r.resourceShape = none := by
  obtain ⟨t, c₁, hexec, h⟩ := Handler.exec_bind_ok.mp h
  obtain ⟨hrun, rfl⟩ := exec_execute_iff.mp hexec
  rw [Handler.exec_bind _ exec_commit] at h
  obtain ⟨p', c₂, hreply, hproviders⟩ := @exec_reply T service (((c.working t).advance.settled t).advance) v.name
    v.namespaceName "provider.registered" none
  obtain ⟨-, rfl⟩ := Prod.mk.inj (hreply.symm.trans h)
  obtain ⟨-, rfl⟩ := bind_unique_ok (Statement.run_ok.mp hrun).2
  rw [hproviders]
  exact ⟨_, rfl, rfl, rfl, rfl, rfl⟩

end Calls

section Rows

variable {r : ProviderRow}

/-- What a row needs to be a response, where the shape of its resource is not set. -/
structure Complete (r : ProviderRow) : Prop where
  timeoutMs : r.timeoutMs.isSome
  healthState : r.healthState.isSome
  trustTier : r.trustTier.isSome
  resourceShape : r.resourceShape = none

def Responds (T : FloatText) (r : ProviderRow) : Prop :=
  (ProviderResponse.validate (ProviderService.rowToDict T r)).isSome

theorem Complete.responds (h : Complete r) : Responds T r := by
  obtain ⟨timeoutMs, ht⟩ := Option.isSome_iff_exists.mp h.timeoutMs
  obtain ⟨healthState, hh⟩ := Option.isSome_iff_exists.mp h.healthState
  obtain ⟨trustTier, htt⟩ := Option.isSome_iff_exists.mp h.trustTier
  simp [Responds, ProviderResponse.validate, ProviderService.rowToDict, ht, hh, htt, h.resourceShape, textOrNull]

theorem Responds.timeoutMs (h : Responds T r) : r.timeoutMs.isSome := by
  cases ht : r.timeoutMs with
  | some t => rfl
  | none => simp [Responds, ProviderResponse.validate, ProviderService.rowToDict, ht] at h

theorem Responds.trustTier (h : Responds T r) : r.trustTier.isSome := by
  cases ht : r.trustTier with
  | some t => rfl
  | none => simp [Responds, ProviderResponse.validate, ProviderService.rowToDict, ht] at h

end Rows

section Runs

/-- The requests that were accepted, one after the other: each request function returned. -/
inductive Serves (T : FloatText) (service : ProviderService) :
    Connection catalog → List Request → Connection catalog → Prop
  | nil (c : Connection catalog) : Serves T service c [] c
  | snoc {c c' c'' : Connection catalog} {requests : List Request} {request : Request}
      {p : Option ProviderService.Provider} (h : Serves T service c requests c')
      (hexec : (Connection.handler catalog).exec (request.program T service) c' = (.ok (.returned p), c'')) :
      Serves T service c (requests ++ [request]) c''

/-- Every row is read as a response, and neither the description of a provider nor a
list of them fails for one. -/
structure Readable (T : FloatText) (c : Connection catalog) : Prop where
  rows : ∀ r ∈ providersOf c, Responds T r
  described : ∀ name namespaceName p c', (Connection.handler catalog).exec
    (describeProvider T name namespaceName) c = (.ok (.returned p), c') → (ProviderResponse.validate p).isSome
  listed : ∀ namespaceName providerType limit offset, Storable limit → Storable offset → ∃ response c',
    (Connection.handler catalog).exec (listProviders T namespaceName providerType limit offset) c = (.ok response, c')

/-- A field that the response requires is set to null. -/
def nulls : Request → Bool
  | .update _ body _ => body.timeoutMs = some none || body.trustTier = some none
  | _ => false

end Runs

section Reads

theorem mapM_isSome {α β : Type} {f : α → Option β} {xs : List α} (h : ∀ x ∈ xs, (f x).isSome) :
    ∃ ys, xs.mapM f = some ys := by
  induction xs with
  | nil => exact ⟨[], rfl⟩
  | cons x xs ih =>
    obtain ⟨y, hy⟩ := Option.isSome_iff_exists.mp (h x (by simp))
    obtain ⟨ys, hys⟩ := ih (fun z hz => h z (by simp [hz]))
    exact ⟨y :: ys, by simp [List.mapM_cons, hy, hys]⟩

theorem mem_of_mem_page {α : Type} {limit offset : Int} {xs : List α} {x : α} (h : x ∈ page limit offset xs) :
    x ∈ xs := by
  unfold page at h
  split at h
  · exact List.mem_of_mem_drop h
  · exact List.mem_of_mem_drop (List.mem_of_mem_take h)

def asked (namespaceName providerType : Option String) (c : Connection catalog) : List ProviderRow :=
  (providersOf c).filter (fun r =>
    namespaceName.all (· = r.namespaceName) && providerType.all (· = r.providerType))

def ordered (namespaceName providerType : Option String) (c : Connection catalog) : List ProviderRow :=
  orderByName (fun r => r.name) (fun r => r.namespaceName) (asked namespaceName providerType c)

theorem exec_list (namespaceName providerType : Option String) {limit offset : Int} (hlimit : Storable limit)
    (hoffset : Storable offset) :
    (Connection.handler catalog).exec (ProviderService.list T namespaceName providerType limit offset) c =
      (.ok ((page limit offset (ordered namespaceName providerType c)).map (ProviderService.rowToDict T),
        (asked namespaceName providerType c).length), c.advance.advance) := by
  rw [ProviderService.list, bindIntegers_pair hlimit hoffset]
  rfl

theorem readable_of_rows (h : ∀ r ∈ providersOf c, Responds T r) : Readable T c := by
  refine ⟨h, ?_, ?_⟩
  · intro name namespaceName p c' hexec
    rw [describeProvider, Handler.exec_bind _ exec_get] at hexec
    cases hfind : (providersOf c).find? (isNamed name namespaceName) with
    | none =>
      rw [hfind] at hexec
      cases hexec
    | some r =>
      rw [hfind] at hexec
      cases hexec
      exact h r (List.mem_of_find?_eq_some hfind)
  · intro namespaceName providerType limit offset hlimit hoffset
    have hasked : ∀ r ∈ page limit offset (ordered namespaceName providerType c), Responds T r := by
      intro r hr
      have hmem := (List.mem_insertionSort _).mp (mem_of_mem_page hr)
      exact h r (List.mem_filter.mp hmem).1
    obtain ⟨responses, hresponses⟩ := mapM_isSome (List.forall_mem_map.mpr hasked)
    refine ⟨⟨responses, (asked namespaceName providerType c).length⟩, c.advance.advance, ?_⟩
    rw [listProviders, Handler.exec_bind _ (exec_list namespaceName providerType hlimit hoffset)]
    dsimp only
    rw [hresponses]
    rfl

end Reads

section Step

variable {r : ProviderRow} {name namespaceName now : String}

def changeNulls : ProviderChange → Bool
  | .update u => u.timeoutMs = some none || u.trustTier = some none
  | _ => false

theorem Complete.change {change : ProviderChange} (h : Complete r) (hnulls : changeNulls change = false)
    (hshape : ∀ u, change = .update u → u.resourceShape = none) : Complete (change.apply now r) := by
  cases change with
  | update u =>
    simp only [changeNulls, Bool.or_eq_false_iff, decide_eq_false_iff_not] at hnulls
    refine ⟨?_, h.healthState, ?_, ?_⟩
    · cases ht : u.timeoutMs with
      | none => simpa [ProviderChange.apply, ProviderUpdate.apply, ht] using h.timeoutMs
      | some t => simpa [ProviderChange.apply, ProviderUpdate.apply, ht, Option.isSome_iff_ne_none] using hnulls.1
    · cases ht : u.trustTier with
      | none => simpa [ProviderChange.apply, ProviderUpdate.apply, ht] using h.trustTier
      | some t => simpa [ProviderChange.apply, ProviderUpdate.apply, ht, Option.isSome_iff_ne_none] using hnulls.2
    · simpa [ProviderChange.apply, ProviderUpdate.apply, hshape u rfl] using h.resourceShape
  | healthy => exact ⟨h.timeoutMs, rfl, h.trustTier, h.resourceShape⟩
  | unhealthy => exact ⟨h.timeoutMs, rfl, h.trustTier, h.resourceShape⟩
  | setEnabled enabled => exact ⟨h.timeoutMs, h.healthState, h.trustTier, h.resourceShape⟩

theorem not_responds_of_nulls {change : ProviderChange} (hnulls : changeNulls change = true) :
    ¬ Responds T (change.apply now r) := by
  intro h
  cases change with
  | update u =>
    simp only [changeNulls, Bool.or_eq_true, decide_eq_true_eq] at hnulls
    obtain ht | ht := hnulls
    · have := h.timeoutMs
      simp [ProviderChange.apply, ProviderUpdate.apply, ht] at this
    · have := h.trustTier
      simp [ProviderChange.apply, ProviderUpdate.apply, ht] at this
  | healthy => cases hnulls
  | unhealthy => cases hnulls
  | setEnabled enabled => cases hnulls

/-- A function that turns what is raised into a reply of its own. -/
theorem exec_of_returned {q : DbProg (Option ProviderService.Provider)}
    {g : DbError → DbProg (Reply (Option ProviderService.Provider))} {p : Option ProviderService.Provider}
    (hg : ∀ e w w', (Connection.handler catalog).exec (g e) w ≠ (.ok (.returned p), w'))
    (h : (Connection.handler catalog).exec (tryCatch (do
      let p ← q
      pure (.returned p)) g) c = (.ok (.returned p), c')) :
    (Connection.handler catalog).exec q c = (.ok p, c') := by
  have hhandle := (Connection.handler catalog).exec_handle
    (q >>= fun p => pure (Reply.returned p)) .pure g c
  have hhandle := hhandle.symm.trans h
  cases hbind : (Connection.handler catalog).exec (q >>= fun p => pure (Reply.returned p)) c with
  | mk out c₁ =>
    rw [hbind] at hhandle
    cases out with
    | error e => exact absurd hhandle (hg e c₁ c')
    | ok reply =>
      obtain ⟨hreply, rfl⟩ := Prod.mk.inj hhandle
      obtain rfl := Except.ok.inj hreply
      obtain ⟨p', c₂, hq, hpure⟩ := Handler.exec_bind_ok.mp hbind
      cases hpure
      exact hq

/-- A request about a provider that is there goes on. -/
theorem exec_existing {k : DbProg (Reply (Option ProviderService.Provider))} {p : Option ProviderService.Provider}
    (h : (Connection.handler catalog).exec (existing T name namespaceName k) c = (.ok (.returned p), c')) :
    (Connection.handler catalog).exec k c.advance = (.ok (.returned p), c') := by
  rw [existing, Handler.exec_bind _ exec_get] at h
  cases hfind : (providersOf c).find? (isNamed name namespaceName) with
  | none =>
    rw [hfind] at h
    cases h
  | some r =>
    rw [hfind] at h
    exact h

structure Changed (name namespaceName : String) (change : ProviderChange) (rs rs' : List ProviderRow) : Prop where
  found : ∃ r ∈ rs, isNamed name namespaceName r
  rows : ∃ now, rs' = rs.map (fun r => if isNamed name namespaceName r then change.apply now r else r)

theorem changed_of_find {p : Option ProviderService.Provider} {change : ProviderChange} {eventType : String}
    {detail : Option Json} (hr : (providersOf c).find? (isNamed name namespaceName) = some r)
    (h : (Connection.handler catalog).exec (service.change T change eventType name namespaceName detail) c.advance =
      (.ok p, c')) : Changed name namespaceName change (providersOf c) (providersOf c') := by
  have hrows := exec_change h
  exact ⟨⟨r, List.mem_of_find?_eq_some hr, List.find?_some hr⟩, _, hrows⟩

theorem changed_of_exec {p : Option ProviderService.Provider} {change : ProviderChange} {eventType : String}
    {detail : Option Json} (h : (Connection.handler catalog).exec (do
      let _ ← ProviderService.current T name namespaceName
      service.change T change eventType name namespaceName detail) c = (.ok p, c')) :
    Changed name namespaceName change (providersOf c) (providersOf c') := by
  obtain ⟨d, c₁, hcurrent, h⟩ := Handler.exec_bind_ok.mp h
  obtain ⟨r, hr, -, rfl⟩ := exec_current.mp hcurrent
  exact changed_of_find hr h

theorem accepted_cases {request : Request} {p : Option ProviderService.Provider}
    (h : (Connection.handler catalog).exec (request.program T service) c = (.ok (.returned p), c')) :
    (∃ r, providersOf c' = providersOf c ++ [r] ∧ Complete r ∧ nulls request = false) ∨
      (providersOf c' = providersOf c ∧ nulls request = false) ∨
      ∃ name namespaceName change, nulls request = changeNulls change ∧
        (∀ u, change = .update u → u.resourceShape = none) ∧
        Changed name namespaceName change (providersOf c) (providersOf c') := by
  cases request with
  | register body =>
    left
    have hregister := exec_of_returned (fun e w w' heq => by cases heq) h
    obtain ⟨r, hrows, htimeout, hhealth, htrust, hshape⟩ := exec_register hregister
    refine ⟨r, hrows, ⟨?_, ?_, ?_, hshape⟩, rfl⟩
    · rw [htimeout]
      rfl
    · rw [hhealth]
      rfl
    · rw [htrust]
      rfl
  | update name body namespaceName =>
    right
    have hupdate := exec_of_returned (fun e w w' heq => by cases e <;> cases heq) (exec_existing h)
    obtain ⟨d, c₁, hcurrent, hupdate⟩ := Handler.exec_bind_ok.mp hupdate
    obtain ⟨r, hr, -, rfl⟩ := exec_current.mp hcurrent
    dsimp only at hupdate
    split at hupdate
    · rename_i hsets
      left
      cases hupdate
      obtain ⟨endpoint, timeoutMs, entityKeyType, trustTier⟩ := body
      obtain ⟨-, rfl, -, rfl, -, -⟩ := ProviderUpdate.mk.inj hsets
      exact ⟨rfl, rfl⟩
    · right
      refine ⟨name, namespaceName, .update (body.modelDump.sets T), rfl, ?_, ?_⟩
      · rintro u ⟨⟩
        rfl
      · have hchanged := changed_of_find hr hupdate
        rwa [providersOf_advance] at hchanged
  | enable name namespaceName =>
    obtain ⟨p', c₁, hset, h⟩ := Handler.exec_bind_ok.mp (exec_existing h)
    cases h
    have hchanged := changed_of_exec hset
    rw [providersOf_advance] at hchanged
    exact .inr (.inr ⟨name, namespaceName, .setEnabled true, rfl, (fun u hu => by cases hu), hchanged⟩)
  | disable name namespaceName =>
    obtain ⟨p', c₁, hset, h⟩ := Handler.exec_bind_ok.mp (exec_existing h)
    cases h
    have hchanged := changed_of_exec hset
    rw [providersOf_advance] at hchanged
    exact .inr (.inr ⟨name, namespaceName, .setEnabled false, rfl, (fun u hu => by cases hu), hchanged⟩)
  | recordHealth name namespaceName success =>
    obtain ⟨p', c₁, hset, h⟩ := Handler.exec_bind_ok.mp h
    cases h
    refine .inr (.inr ⟨name, namespaceName, if success then .healthy else .unhealthy, ?_, ?_, changed_of_exec hset⟩)
    · cases success <;> rfl
    · intro u hu
      cases success <;> cases hu

end Step

section Runs

variable {c₀ : Connection catalog} {requests front : List Request}

theorem Serves.complete (h : Serves T service c₀ requests c) (h₀ : providersOf c₀ = [])
    (hnulls : ∀ request ∈ requests, nulls request = false) : ∀ r ∈ providersOf c, Complete r := by
  induction h with
  | nil => simp [h₀]
  | snoc _ hexec ih =>
    have ih := ih (fun request hrequest => hnulls request (by simp [hrequest]))
    obtain ⟨r, hrows, hr, -⟩ | ⟨hrows, -⟩ | ⟨name, namespaceName, change, hchange, hshape, hchanged⟩ :=
      accepted_cases hexec
    · rw [hrows, List.forall_mem_append, List.forall_mem_singleton]
      exact ⟨ih, hr⟩
    · rw [hrows]
      exact ih
    · obtain ⟨now, hrows⟩ := hchanged.rows
      rw [hrows, List.forall_mem_map]
      intro r hr
      split
      · exact (ih r hr).change (hchange.symm.trans (hnulls _ (by simp))) hshape
      · exact ih r hr

theorem Serves.before (h : Serves T service c₀ requests c) (hfront : front <+: requests) :
    ∃ c', Serves T service c₀ front c' := by
  induction h with
  | nil =>
    rw [List.prefix_nil.mp hfront]
    exact ⟨_, .nil _⟩
  | snoc h hexec ih =>
    obtain rfl | hfront := List.prefix_concat_iff.mp hfront
    · exact ⟨_, .snoc h hexec⟩
    · exact ih hfront

theorem Serves.not_readable {request : Request} (h : Serves T service c₀ (front ++ [request]) c)
    (hnulls : nulls request = true) : ¬ Readable T c := by
  generalize hrequests : front ++ [request] = requests at h
  cases h with
  | nil => simp at hrequests
  | snoc _ hexec =>
    obtain ⟨-, rfl⟩ := List.append_singleton_inj.mp hrequests
    intro hreadable
    obtain ⟨-, -, -, hfalse⟩ | ⟨-, hfalse⟩ | ⟨name, namespaceName, change, hchange, -, hchanged⟩ :=
      accepted_cases hexec
    · rw [hnulls] at hfalse
      cases hfalse
    · rw [hnulls] at hfalse
      cases hfalse
    · obtain ⟨r, hr, hnamed⟩ := hchanged.found
      obtain ⟨now, hrows⟩ := hchanged.rows
      apply not_responds_of_nulls (T := T) (r := r) (hchange.symm.trans hnulls)
      apply hreadable.rows
      rw [hrows]
      exact List.mem_map.mpr ⟨r, hr, if_pos hnamed⟩

/-- Providers stay readable all through a run of accepted requests exactly when none of
them sets the timeout or the trust tier to null. -/
theorem readable_iff (h₀ : providersOf c₀ = []) (h : Serves T service c₀ requests c) :
    (∀ front c', front <+: requests → Serves T service c₀ front c' → Readable T c') ↔
      ∀ request ∈ requests, nulls request = false := by
  constructor
  · intro hreadable request hrequest
    rw [← Bool.not_eq_true]
    intro hnulls
    obtain ⟨front, back, rfl⟩ := List.append_of_mem hrequest
    have hprefix : front ++ [request] <+: front ++ request :: back := ⟨back, by simp⟩
    obtain ⟨c', hserves⟩ := h.before hprefix
    exact hserves.not_readable hnulls (hreadable _ c' hprefix hserves)
  · intro hnulls front c' hfront hserves
    have hcomplete := hserves.complete h₀ (fun request hrequest => hnulls request (hfront.subset hrequest))
    exact readable_of_rows (fun r hr => (hcomplete r hr).responds)

end Runs

section Sample

def sampleCreate : ProviderCreate :=
  ⟨"prices", .mcp, "default", some "http://localhost", 30000, none, "standard"⟩

def sampleRequests : List Request := [.register sampleCreate, .recordHealth "prices" "default" true]

def cleared : Request := .update "prices" ⟨none, some none, none, none⟩ "default"

def sampleState : Connection catalog :=
  ((Connection.handler catalog).exec
    ((Request.recordHealth "prices" "default" true).program samplePackages.floatText ⟨true⟩)
    ((Connection.handler catalog).exec ((Request.register sampleCreate).program samplePackages.floatText ⟨true⟩)
      (sampleConnection .empty)).2).2

theorem readable_iff_sample : Readable samplePackages.floatText sampleState := by
  have hserves : Serves samplePackages.floatText ⟨true⟩ (sampleConnection .empty) sampleRequests sampleState :=
    .snoc (.snoc (.nil (sampleConnection .empty)) rfl) rfl
  exact (readable_iff rfl hserves).mpr (by decide) _ _ (List.prefix_refl _) hserves

/-- The provider registered, and its timeout cleared. -/
def clearedState : Connection catalog :=
  ((Connection.handler catalog).exec (cleared.program samplePackages.floatText ⟨true⟩)
    ((Connection.handler catalog).exec ((Request.register sampleCreate).program samplePackages.floatText ⟨true⟩)
      (sampleConnection .empty)).2).2

theorem serves_cleared :
    Serves samplePackages.floatText ⟨true⟩ (sampleConnection .empty)
      ([.register sampleCreate] ++ [cleared]) clearedState :=
  .snoc (.snoc (.nil (sampleConnection .empty)) rfl) rfl

/-- After the timeout is cleared no list of the providers is answered. -/
theorem cleared_timeout : ¬ Readable samplePackages.floatText clearedState ∧
    ((Connection.handler catalog).exec (listProviders samplePackages.floatText none none 100 0) clearedState).1 =
      .error (.valueError "validation error for ProviderListResponse") :=
  ⟨serves_cleared.not_readable rfl, rfl⟩

end Sample

end ContextqlServer.Api.ReadableProviders
