import ContextqlServer.Db.Restart
import ContextqlServer.Lib.Log
import ContextqlServer.Lib.Numerals
import Mathlib.Data.Set.Function

namespace ContextqlServer.Db.MembershipEvents

open ContextqlServer.Lib.Effect ContextqlServer.Lib.Isoformat ContextqlServer.Lib.Log
open ContextqlServer.Lib.Numbering ContextqlServer.Lib.Numerals ContextqlServer.Lib.Python
open ContextqlServer.Lib.Sql
open ContextqlServer.Db.Schema ContextqlServer.Db.Statements ContextqlServer.Db.ContextCatalog
open ContextqlServer.Db.ContextCatalog.SQLiteContextRuntimeRepository
open ContextqlServer.Db.Calls ContextqlServer.Db.Codec ContextqlServer.Db.Shelf
open ContextqlServer.Db.Snapshots ContextqlServer.Db.Runs ContextqlServer.Db.Promotions
open ContextqlServer.Db.Hydration ContextqlServer.Db.Restart

variable {P : Packages} {t t' : Tables} {calls : List (Call P)} {p p' : Promotion P}
  {e e' : MembershipChange}

section Keys

theorem hexText_length (u : Uuid) : 32 ≤ u.hexText.length := by
  simp only [Uuid.hexText, List.length_append, List.length_replicate]
  omega

theorem hexText_injective {u v : Uuid} (h : u.hexText = v.hexText) : u = v := by
  have hbits := padded_injective (by decide) (by decide) h
  rw [Uuid.mk.injEq]
  exact Fin.ext hbits

theorem group_cancel {n : Nat} {xs ys us vs : List Char} (hxs : n ≤ xs.length) (hys : n ≤ ys.length)
    (h : xs.take n ++ '-' :: us = ys.take n ++ '-' :: vs) : xs.take n = ys.take n ∧ us = vs := by
  obtain ⟨htake, hrest⟩ := List.append_inj h (by simp [hxs, hys])
  exact ⟨htake, (List.cons.inj hrest).2⟩

theorem drop_of_group {a n : Nat} {xs ys : List Char} (htake : (xs.drop a).take n = (ys.drop a).take n)
    (hdrop : xs.drop (a + n) = ys.drop (a + n)) : xs.drop a = ys.drop a := by
  rw [← List.take_append_drop n (xs.drop a), ← List.take_append_drop n (ys.drop a), htake, List.drop_drop,
    List.drop_drop, hdrop]

theorem str_injective : Function.Injective Uuid.str := by
  intro u v h
  have hu := hexText_length u
  have hv := hexText_length v
  have hl := String.ofList_injective h
  simp only [List.append_assoc, List.cons_append] at hl
  obtain ⟨h₁, hl⟩ := group_cancel (by omega) (by omega) hl
  obtain ⟨h₂, hl⟩ := group_cancel (by simp; omega) (by simp; omega) hl
  obtain ⟨h₃, hl⟩ := group_cancel (by simp; omega) (by simp; omega) hl
  obtain ⟨h₄, hl⟩ := group_cancel (by simp; omega) (by simp; omega) hl
  have h₀ := drop_of_group (a := 0) h₁ (drop_of_group h₂ (drop_of_group h₃ (drop_of_group h₄ hl)))
  exact hexText_injective h₀

def eventText (p : Promotion P) (e : MembershipChange) : String :=
  s!"{p.entry.contextId}:{p.snapshot.version}:{e.entityId}:{e.changeType}"

def eventKey (e : MembershipChange) : Int × String := (e.entityId, e.changeType)

theorem eventText_injective (hid : p.entry.contextId = p'.entry.contextId) (h : eventText p e = eventText p' e') :
    p.snapshot.version = p'.snapshot.version ∧ eventKey e = eventKey e' := by
  have hcolon : (toString ":").toList = [':'] := by decide
  have hl := congrArg String.toList h
  simp only [eventText, hid, String.toList_append, List.append_assoc, hcolon, List.singleton_append] at hl
  have htail := (List.cons.inj (List.append_cancel_left hl)).2
  obtain ⟨hversion, htail⟩ := split_cancel (colon_notMem _) (colon_notMem _) htail
  obtain ⟨hentity, htype⟩ := split_cancel (colon_notMem _) (colon_notMem _) htail
  refine ⟨toString_injective (String.toList_injective hversion), ?_⟩
  rw [eventKey, eventKey, toString_injective (String.toList_injective hentity), Prod.mk.injEq]
  exact ⟨rfl, String.toList_injective htype⟩

def hashedTexts (calls : List (Call P)) : Set String :=
  {text | ∃ p, .promote p ∈ calls ∧ ∃ e ∈ p.historyEvents, text = eventText p e}

theorem eventId_injective (huuid : Set.InjOn P.uuid5 (hashedTexts calls)) (hp : .promote p ∈ calls)
    (hp' : .promote p' ∈ calls) (he : e ∈ p.historyEvents) (he' : e' ∈ p'.historyEvents)
    (hid : p.entry.contextId = p'.entry.contextId) (h : p.eventId e = p'.eventId e') :
    p.snapshot.version = p'.snapshot.version ∧ eventKey e = eventKey e' := by
  apply eventText_injective hid
  exact huuid ⟨p, hp, e, he, rfl⟩ ⟨p', hp', e', he', rfl⟩ (str_injective h)

theorem eventId_congr (h : eventKey e = eventKey e') : p.eventId e = p.eventId e' := by
  obtain ⟨hentity, htype⟩ := Prod.mk.inj h
  rw [Promotion.eventId, Promotion.eventId, hentity, htype]

end Keys

section Rows

/-- What the columns of the table ask of an event. -/
def allowed (e : MembershipChange) : Bool :=
  e.recordedAt.isSome && e.effectiveAt.isSome && decide (e.changeType ∈ ["added", "removed", "score_changed"])

def rowOf (p : Promotion P) (e : MembershipChange) : HistoryRow :=
  { p.eventValues e with
    recordedAt := (iso e.recordedAt).getD ""
    effectiveAt := (iso e.effectiveAt).getD ""
    previousScore := stored e.previousScore
    newScore := stored e.newScore
    eventId := some (p.eventId e) }

def kept (p : Promotion P) : List MembershipChange := firsts allowed eventKey p.historyEvents

theorem insertEvent_eq (p : Promotion P) (e : MembershipChange) (t : Tables) :
    (insertEvent t (p.eventValues e)).contextMembershipHistory =
      if allowed e ∧ ∀ r ∈ t.contextMembershipHistory,
          r.contextId = p.entry.contextId → r.eventId ≠ some (p.eventId e) then
        t.contextMembershipHistory ++ [rowOf p e]
      else t.contextMembershipHistory := by
  cases hrecorded : e.recordedAt with
  | none => simp [insertEvent, Promotion.eventValues, iso, allowed, hrecorded]
  | some recordedAt =>
    cases heffective : e.effectiveAt with
    | none => simp [insertEvent, Promotion.eventValues, iso, allowed, heffective]
    | some effectiveAt =>
      have hvalues : (p.eventValues e).recordedAt = some recordedAt.isoformat ∧
          (p.eventValues e).effectiveAt = some effectiveAt.isoformat := by
        simp [Promotion.eventValues, iso, hrecorded, heffective]
      rw [insertEvent, hvalues.1, hvalues.2]
      dsimp only
      rw [apply_ite Tables.contextMembershipHistory]
      apply if_congr
      · simp [allowed, hrecorded, heffective, Promotion.eventValues]
      · simp only [rowOf, iso, hrecorded, heffective, Option.map_some, Option.getD_some]
        rfl
      · rfl

/-- A promotion stores its kept events after what the history holds, where that has
no event of its identities. -/
theorem insertEvents_kept (huuid : Set.InjOn P.uuid5 (hashedTexts calls)) (hp : .promote p ∈ calls)
    (hfresh : ∀ r ∈ t.contextMembershipHistory, r.contextId = p.entry.contextId →
      ∀ e ∈ p.historyEvents, r.eventId ≠ some (p.eventId e))
    (events : List MembershipChange) (hevents : ∀ e ∈ events, e ∈ p.historyEvents) :
    (events.foldl (fun t e => insertEvent t (p.eventValues e)) t).contextMembershipHistory =
      t.contextMembershipHistory ++ (firsts allowed eventKey events).map (rowOf p) := by
  induction events using List.reverseRecOn with
  | nil => exact (List.append_nil _).symm
  | append_singleton events e ih =>
    have ih := ih (fun x hx => hevents x (List.mem_append_left _ hx))
    have he := hevents e (by simp)
    rw [List.foldl_append, List.foldl_cons, List.foldl_nil, insertEvent_eq, ih, firsts_snoc, add]
    have hnew : (∀ r ∈ t.contextMembershipHistory ++ (firsts allowed eventKey events).map (rowOf p),
        r.contextId = p.entry.contextId → r.eventId ≠ some (p.eventId e)) ↔
        eventKey e ∉ (firsts allowed eventKey events).map eventKey := by
      rw [List.forall_mem_append, List.forall_mem_map]
      constructor
      · rintro ⟨-, hkept⟩ hmem
        obtain ⟨x, hx, hkey⟩ := List.mem_map.mp hmem
        exact hkept x hx rfl (congrArg some (eventId_congr hkey))
      · intro hkey
        refine ⟨fun r hr hid => hfresh r hr hid e he, fun x hx _ hsame => hkey ?_⟩
        have hmem := hevents x (List.mem_append_left _ ((firsts_sublist ..).subset hx))
        obtain ⟨-, heq⟩ := eventId_injective huuid hp hp hmem he rfl (Option.some.inj hsame)
        exact List.mem_map.mpr ⟨x, hx, heq⟩
    simp only [hnew]
    split
    · rw [List.map_append, List.append_assoc, List.map_singleton]
    · rfl

end Rows

section Runs

def promotion : Call P → Option (Promotion P)
  | .promote p => some p
  | _ => none

def promotions (calls : List (Call P)) : List (Promotion P) := calls.filterMap promotion

theorem mem_promotions : p ∈ promotions calls ↔ .promote p ∈ calls := by
  rw [promotions, List.mem_filterMap]
  constructor
  · rintro ⟨call, hcall, hp⟩
    cases call with
    | promote q =>
      obtain rfl := Option.some.inj hp
      exact hcall
    | _ => cases hp
  · exact fun hp => ⟨_, hp, rfl⟩

theorem promotions_snoc (calls : List (Call P)) (call : Call P) :
    promotions (calls ++ [call]) = promotions calls ++ (promotion call).toList := by
  rw [promotions, List.filterMap_append]
  cases h : promotion call <;> simp [promotions, h]

def storedRows (calls : List (Call P)) : List HistoryRow :=
  (promotions calls).flatMap (fun p => (kept p).map (rowOf p))

theorem mem_versionsOf (hp : .promote p ∈ calls) : p.snapshot.version ∈ versionsOf calls p.entry.contextId := by
  refine List.mem_map.mpr ⟨(p.entry.contextId, p.snapshot.version), ?_, rfl⟩
  refine List.mem_filter.mpr ⟨List.mem_filterMap.mpr ⟨_, hp, rfl⟩, ?_⟩
  simp

theorem storedRows_fresh (hasc : Ascending (calls ++ [.promote p]))
    (huuid : Set.InjOn P.uuid5 (hashedTexts (calls ++ [.promote p]))) :
    ∀ r ∈ storedRows calls, r.contextId = p.entry.contextId →
      ∀ e ∈ p.historyEvents, r.eventId ≠ some (p.eventId e) := by
  intro r hr hid e he hsame
  obtain ⟨q, hq, hr⟩ := List.mem_flatMap.mp hr
  obtain ⟨x, hx, rfl⟩ := List.mem_map.mp hr
  have hq := mem_promotions.mp hq
  have hlast := hasc p.entry.contextId
  rw [versionsOf_append, versionsOf_promote, List.pairwise_append] at hlast
  have hlt : q.snapshot.version < p.snapshot.version :=
    hlast.2.2 _ (hid ▸ mem_versionsOf hq) _ (List.mem_singleton_self _)
  obtain ⟨hversion, -⟩ := eventId_injective huuid (List.mem_append_left _ hq) (by simp)
    ((firsts_sublist ..).subset hx) he hid (Option.some.inj hsame)
  exact hlt.ne hversion

theorem performs_storedRows (h₀ : Bare t) (hp : Performs calls t t')
    (hprune : ∀ entry cutoff, .prune entry cutoff ∉ calls) (hasc : Ascending calls)
    (huuid : Set.InjOn P.uuid5 (hashedTexts calls)) : t'.contextMembershipHistory = storedRows calls := by
  induction hp with
  | nil t => exact h₀.history
  | @snoc calls call t₀ t₁ t₂ hp hc ih =>
    have hmono : hashedTexts calls ⊆ hashedTexts (calls ++ [call]) := by
      rintro text ⟨q, hq, hmem⟩
      exact ⟨q, List.mem_append_left _ hq, hmem⟩
    have ih := ih h₀ (fun entry cutoff hmem => hprune entry cutoff (List.mem_append_left _ hmem))
      (ascending_of_append hasc) (huuid.mono hmono)
    have hsame (hs : SameShelf t₁ t₂) (hnone : promotion call = none) :
        t₂.contextMembershipHistory = storedRows (calls ++ [call]) := by
      rw [hs.history, ih, storedRows, storedRows, promotions_snoc, hnone]
      simp
    cases call with
    | promote p =>
      obtain ⟨row, hpromoted⟩ := Promoted.of_applies hc
      have hfresh := storedRows_fresh hasc huuid
      rw [← ih] at hfresh
      rw [hpromoted.history, insertEvents, insertEvents_kept huuid (by simp) hfresh _ (fun _ he => he), ih,
        storedRows, storedRows, promotions_snoc, List.flatMap_append]
      simp [promotion, kept]
    | prune entry cutoff => exact absurd (List.mem_append_right _ (List.mem_singleton_self _)) (hprune entry cutoff)
    | save e rawDdl =>
      obtain ⟨a, hrun⟩ := hc
      exact hsame (run_sameShelf (Call.saveStatement_notShelf e rawDdl t₁) hrun) rfl
    | drop e =>
      obtain ⟨a, now, hrun⟩ := hc
      exact hsame (run_sameShelf rfl hrun) rfl
    | record contextId version executedAt =>
      obtain ⟨a, hrun⟩ := hc
      exact hsame (run_sameShelf rfl hrun) rfl

end Runs

section Read

def eventRead (p : Promotion P) (e : MembershipChange) : MembershipChange :=
  { e with
    contextId := p.entry.contextId
    recordedAt := e.recordedAt.map assumeUtc
    effectiveAt := e.effectiveAt.map assumeUtc
    previousScore := stored e.previousScore
    newScore := stored e.newScore }

theorem datetime_getD {d : Option Datetime} (h : d.isSome) :
    datetime (some ((iso d).getD "")) = .ok (d.map assumeUtc) := by
  obtain ⟨d, rfl⟩ := Option.isSome_iff_exists.mp h
  exact datetime_iso (some d)

theorem changeFromRow_rowOf (h : allowed e) : changeFromRow (rowOf p e) = .ok (eventRead p e) := by
  simp only [allowed, Bool.and_eq_true] at h
  rw [changeFromRow, rowOf]
  dsimp only
  rw [datetime_getD h.1.1, datetime_getD h.1.2]
  rfl

theorem mapM_kept (p : Promotion P) (events : List MembershipChange) (h : ∀ e ∈ events, allowed e) :
    (events.map (rowOf p)).mapM changeFromRow = .ok (events.map (eventRead p)) := by
  induction events with
  | nil => rfl
  | cons e events ih =>
    rw [List.map_cons, List.mapM_cons, changeFromRow_rowOf (h e (List.mem_cons_self ..)),
      ih (fun x hx => h x (List.mem_cons_of_mem e hx))]
    rfl

def eventsRead (calls : List (Call P)) : List MembershipChange :=
  (promotions calls).flatMap (fun p => (kept p).map (eventRead p))

def eventsPromoted (calls : List (Call P)) : List MembershipChange :=
  (promotions calls).flatMap (fun p => p.historyEvents)

theorem storedRows_read (calls : List (Call P)) : (storedRows calls).mapM changeFromRow = .ok (eventsRead calls) := by
  rw [storedRows, eventsRead]
  induction promotions calls with
  | nil => rfl
  | cons p ps ih =>
    rw [List.flatMap_cons, List.mapM_append, mapM_kept p (kept p) (firsts_allowed allowed eventKey), ih]
    rfl

/-- The events of a promotion have both times with an offset, a type that the table
knows and scores that are numbers, and no two are of one entity and type. -/
structure Recorded (p : Promotion P) : Prop where
  recordedAt : ∀ e ∈ p.historyEvents, ∃ d, e.recordedAt = some d ∧ Aware d
  effectiveAt : ∀ e ∈ p.historyEvents, ∃ d, e.effectiveAt = some d ∧ Aware d
  changeType : ∀ e ∈ p.historyEvents, e.changeType ∈ ["added", "removed", "score_changed"]
  scores : ∀ e ∈ p.historyEvents, e.previousScore ≠ some .nan ∧ e.newScore ≠ some .nan
  distinct : (p.historyEvents.map eventKey).Nodup

theorem stored_eq_self {x : Option Float64} : Schema.stored x = x ↔ x ≠ some .nan := by
  cases x with
  | none => simp [Schema.stored]
  | some x => cases x <;> simp [Schema.stored]

theorem eventRead_eq_self (hid : e.contextId = p.entry.contextId) : eventRead p e = e ↔
    (∀ d, e.recordedAt = some d → Aware d) ∧ (∀ d, e.effectiveAt = some d → Aware d) ∧
      e.previousScore ≠ some .nan ∧ e.newScore ≠ some .nan := by
  rw [← map_assumeUtc, ← map_assumeUtc, ← stored_eq_self, ← stored_eq_self]
  constructor
  · intro h
    exact ⟨congrArg MembershipChange.recordedAt h, congrArg MembershipChange.effectiveAt h,
      congrArg MembershipChange.previousScore h, congrArg MembershipChange.newScore h⟩
  · rintro ⟨hrecorded, heffective, hprevious, hnew⟩
    rw [eventRead, hrecorded, heffective, hprevious, hnew, ← hid]

theorem some_aware_iff {d : Option Datetime} :
    (d.isSome ∧ ∀ x, d = some x → Aware x) ↔ ∃ x, d = some x ∧ Aware x := by
  cases d with
  | none => simp
  | some d => simp

theorem event_recorded_iff (hid : e.contextId = p.entry.contextId) : allowed e ∧ eventRead p e = e ↔
    (∃ d, e.recordedAt = some d ∧ Aware d) ∧ (∃ d, e.effectiveAt = some d ∧ Aware d) ∧
      e.changeType ∈ ["added", "removed", "score_changed"] ∧ e.previousScore ≠ some .nan ∧ e.newScore ≠ some .nan := by
  rw [eventRead_eq_self hid, ← some_aware_iff, ← some_aware_iff, allowed, Bool.and_eq_true, Bool.and_eq_true,
    decide_eq_true_eq]
  tauto

theorem recorded_iff (hids : ∀ e ∈ p.historyEvents, e.contextId = p.entry.contextId) :
    (kept p).map (eventRead p) = p.historyEvents ↔ Recorded p := by
  have hall : (kept p).map (eventRead p) = p.historyEvents ↔
      kept p = p.historyEvents ∧ ∀ e ∈ p.historyEvents, eventRead p e = e := by
    constructor
    · intro h
      have hlen := congrArg List.length h
      rw [List.length_map] at hlen
      have hkept : kept p = p.historyEvents := (firsts_sublist ..).eq_of_length hlen
      rw [hkept] at h
      exact ⟨hkept, List.map_eq_map_iff.mp (h.trans (List.map_id _).symm)⟩
    · rintro ⟨hkept, hread⟩
      rw [hkept, List.map_congr_left hread, List.map_id']
  rw [hall, kept, firsts_eq_self_iff]
  constructor
  · rintro ⟨⟨hallowed, hdistinct⟩, hread⟩
    have hevent (e : MembershipChange) (he : e ∈ p.historyEvents) :=
      (event_recorded_iff (hids e he)).mp ⟨hallowed e he, hread e he⟩
    exact ⟨fun e he => (hevent e he).1, fun e he => (hevent e he).2.1, fun e he => (hevent e he).2.2.1,
      fun e he => (hevent e he).2.2.2, hdistinct⟩
  · intro h
    have hevent (e : MembershipChange) (he : e ∈ p.historyEvents) := (event_recorded_iff (hids e he)).mpr
      ⟨h.recordedAt e he, h.effectiveAt e he, h.changeType e he, h.scores e he⟩
    exact ⟨⟨fun e he => (hevent e he).1, h.distinct⟩, fun e he => (hevent e he).2⟩

theorem eventsRead_iff
    (hids : ∀ p, .promote p ∈ calls → ∀ e ∈ p.historyEvents, e.contextId = p.entry.contextId) :
    eventsRead calls = eventsPromoted calls ↔ ∀ p, .promote p ∈ calls → Recorded p := by
  have hle : ∀ p ∈ promotions calls, ((kept p).map (eventRead p)).length ≤ p.historyEvents.length := by
    intro p _
    rw [List.length_map]
    exact (firsts_sublist ..).length_le
  rw [eventsRead, eventsPromoted, flatMap_eq_iff hle]
  apply forall_congr'
  intro p
  rw [mem_promotions]
  apply imp_congr_right
  exact fun hp => recorded_iff (hids p hp)

end Read

section Hydrate

variable {c₀ c : Connection catalog} {h : List (Entry P)} {history : List MembershipChange}

/-- Where nothing was pruned, the snapshots are restored exactly if each context has
them numbered from 1 on. -/
theorem restores_iff (hk : Kept calls t)
    (hversions : ∀ contextId, (snapshotsOf t contextId).map (fun r => r.version) = versionsOf calls contextId)
    (hscores : ∀ p, .promote p ∈ calls → ScoresReadBack p) :
    (∃ restored, (ContextCatalog.stored t).foldlM (restore P) [] = .ok restored) ↔ Numbered calls := by
  have hnumbered : Continues [] (ContextCatalog.stored t) ↔ Numbered calls := by
    apply forall_congr'
    intro contextId
    rw [stored_versions hk, hversions]
    rfl
  rw [← hnumbered]
  constructor
  · rintro ⟨restored, hrestored⟩
    obtain ⟨_, -, -, hc⟩ := restore_rows.mp hrestored
    exact hc
  · intro hc
    obtain ⟨ss, hss⟩ := mapM_total (fun x hx => (opened_stored hk hscores hx).elim fun p hp => ⟨_, hp.2.2⟩)
    exact ⟨ss, restore_rows.mpr ⟨ss, hss, rfl, hc⟩⟩

/-- After promotions of ever greater versions, any of which may raise, `hydrate_runtime`
appends to the history exactly the events promoted, in their order, if and only if the
versions of each context go on from 1 and each promotion has its events recorded as they are. -/
theorem events_hydrated_iff (h₀ : Bare c₀.committed) (hnone : c₀.transaction = none) (hr : Reaches c₀ h c)
    (hcalls : ∀ e ∈ h, Settled e) (hprune : ∀ entry cutoff, .prune entry cutoff ∉ returnedCalls h)
    (hasc : Ascending (returnedCalls h))
    (hids : ∀ p, .promote p ∈ returnedCalls h → ∀ e ∈ p.historyEvents, e.contextId = p.entry.contextId)
    (huuid : Set.InjOn P.uuid5 (hashedTexts (returnedCalls h)))
    (hscores : ∀ p, .promote p ∈ returnedCalls h → ScoresReadBack p) :
    (∃ restored, ((Connection.handler catalog).exec (hydrateRuntime P [] history) c).1 =
        .ok (restored, history ++ eventsPromoted (returnedCalls h))) ↔
      Numbered (returnedCalls h) ∧ ∀ p, .promote p ∈ returnedCalls h → Recorded p := by
  obtain ⟨hnone', hp⟩ := performs_of_settled hr hcalls hnone
  have hk := performs_kept h₀ hp hasc
  rw [exec_hydrateRuntime, Connection.pending_of_none hnone', performs_storedRows h₀ hp hprune hasc huuid,
    storedRows_read, ← eventsRead_iff hids, ← restores_iff hk (performs_versions h₀ hp hprune) hscores]
  constructor
  · rintro ⟨restored, hexec⟩
    obtain ⟨restored', hfold, hexec⟩ := bind_eq_ok.mp hexec
    obtain ⟨-, heq⟩ := Prod.mk.inj (Except.ok.inj hexec)
    exact ⟨⟨restored', hfold⟩, List.append_cancel_left heq⟩
  · rintro ⟨⟨restored, hfold⟩, heq⟩
    refine ⟨restored, ?_⟩
    rw [hfold, heq]
    rfl

end Hydrate

section Sample

def sampleUuid5 (text : String) : Uuid :=
  if text = "a:1:7:added" then ⟨⟨91124462012553811835001075763019069077, by decide⟩⟩
  else if text = "a:1:7:removed" then ⟨⟨24320606624344294599349283605285846071, by decide⟩⟩
  else if text = "a:2:7:added" then ⟨⟨112945046820839403594099507393843422140, by decide⟩⟩
  else ⟨⟨0, by decide⟩⟩

def eventPackages : Packages := { samplePackages with uuid5 := sampleUuid5 }

def moved (changeType : String) (version : Int) (day : Fin 28) : MembershipChange where
  contextId := "a"
  entityId := 7
  changeType
  recordedAt := some (sampleDay day)
  effectiveAt := some (sampleDay day)
  contextVersion := version
  source := "refresh"
  evidenceRef := none
  previousScore := none
  newScore := none

def eventPromotion (version : Int) (day : Fin 28) (historyEvents : List MembershipChange) :
    Promotion eventPackages where
  entry := { sampleEntry "a" "name" 1 with }
  snapshot := (samplePromotion "a" version day [1]).snapshot
  membershipPayload := [1]
  scores := ∅
  historyEvents

/-- Entity 7 joins and leaves before one promotion, and joins again before the next. -/
def joinedCalls : List (Call eventPackages) :=
  [.promote (eventPromotion 1 2 [moved "added" 1 1, moved "removed" 1 2]),
    .promote (eventPromotion 2 3 [moved "added" 2 3])]

/-- Entity 7 joins, leaves and joins again before one promotion. -/
def rejoinedCalls : List (Call eventPackages) :=
  [.promote (eventPromotion 1 3 [moved "added" 1 1, moved "removed" 1 2, moved "added" 1 3])]

theorem mem_joinedCalls {p : Promotion eventPackages} (h : .promote p ∈ joinedCalls) :
    p = eventPromotion 1 2 [moved "added" 1 1, moved "removed" 1 2] ∨ p = eventPromotion 2 3 [moved "added" 2 3] := by
  simpa only [joinedCalls, List.mem_cons, List.not_mem_nil, or_false, Call.promote.injEq] using h

theorem mem_rejoinedCalls {p : Promotion eventPackages} (h : .promote p ∈ rejoinedCalls) :
    p = eventPromotion 1 3 [moved "added" 1 1, moved "removed" 1 2, moved "added" 1 3] := by
  simpa only [rejoinedCalls, List.mem_cons, List.not_mem_nil, or_false, Call.promote.injEq] using h

theorem numbered_joinedCalls : Numbered joinedCalls := by
  intro contextId
  by_cases ha : contextId = "a"
  · subst ha
    exact ⟨rfl, rfl, trivial⟩
  · have hnone : versionsOf joinedCalls contextId = [] := by
      have hpromoted : joinedCalls.filterMap promoted = [("a", 1), ("a", 2)] := rfl
      rw [versionsOf, hpromoted]
      simp [Ne.symm ha]
    rw [hnone]
    trivial

theorem numbered_rejoinedCalls : Numbered rejoinedCalls := by
  intro contextId
  by_cases ha : contextId = "a"
  · subst ha
    exact ⟨rfl, trivial⟩
  · have hnone : versionsOf rejoinedCalls contextId = [] := by
      have hpromoted : rejoinedCalls.filterMap promoted = [("a", 1)] := rfl
      rw [versionsOf, hpromoted]
      simp [Ne.symm ha]
    rw [hnone]
    trivial

/-- Events of one entity that go both ways once. -/
theorem recorded_eventPromotion {version : Int} {day : Fin 28} {events : List MembershipChange}
    (h : ∀ e ∈ events, ∃ changeType version day, e = moved changeType version day ∧
      changeType ∈ ["added", "removed", "score_changed"])
    (hdistinct : (events.map eventKey).Nodup) : Recorded (eventPromotion version day events) := by
  have htime (d : Fin 28) : ∃ x, some (sampleDay d) = some x ∧ Aware x := ⟨sampleDay d, rfl, fun h => by cases h⟩
  refine ⟨?_, ?_, ?_, ?_, hdistinct⟩ <;> intro e he <;> obtain ⟨changeType, _, d, rfl, htype⟩ := h e he
  · exact htime d
  · exact htime d
  · exact htype
  · simp [moved]

theorem sampleUuid5_injOn :
    Set.InjOn sampleUuid5 {text | text = "a:1:7:added" ∨ text = "a:1:7:removed" ∨ text = "a:2:7:added"} := by
  rintro x (rfl | rfl | rfl) y (rfl | rfl | rfl) h <;> first | rfl | exact absurd h (by decide)

theorem injOn_of_events {calls : List (Call eventPackages)} (h : ∀ p, .promote p ∈ calls → ∀ e ∈ p.historyEvents,
    eventText p e = "a:1:7:added" ∨ eventText p e = "a:1:7:removed" ∨ eventText p e = "a:2:7:added") :
    Set.InjOn eventPackages.uuid5 (hashedTexts calls) := by
  apply sampleUuid5_injOn.mono
  rintro text ⟨p, hp, e, he, rfl⟩
  exact h p hp e he

/-- Each of the three events is of another promotion or of another type, and all are read back. -/
theorem events_hydrated_joined :
    ∃ restored, ((Connection.handler catalog).exec (hydrateRuntime eventPackages [] [])
      (runCalls (sampleConnection .empty) joinedCalls)).1 =
        .ok (restored, [moved "added" 1 1, moved "removed" 1 2, moved "added" 2 3]) := by
  have hr := runCalls_reaches (c := sampleConnection .empty) .start joinedCalls
  have hevents (p : Promotion eventPackages) (hp : .promote p ∈ joinedCalls) (e : MembershipChange)
      (he : e ∈ p.historyEvents) : e.contextId = p.entry.contextId ∧
        (eventText p e = "a:1:7:added" ∨ eventText p e = "a:1:7:removed" ∨ eventText p e = "a:2:7:added") := by
    rcases mem_joinedCalls hp with rfl | rfl
    · have he : e = moved "added" 1 1 ∨ e = moved "removed" 1 2 := by simpa [eventPromotion] using he
      rcases he with rfl | rfl <;> exact ⟨rfl, by decide⟩
    · obtain rfl : e = moved "added" 2 3 := by simpa [eventPromotion] using he
      exact ⟨rfl, by decide⟩
  refine (events_hydrated_iff bare_empty rfl hr (settled_of_successful (successful_iff.mpr (by decide)))
    ?_ numbered_joinedCalls.ascending (fun p hp e he => (hevents p hp e he).1)
    (injOn_of_events (fun p hp e he => (hevents p hp e he).2)) ?_).mpr ⟨numbered_joinedCalls, ?_⟩
  · intro entry cutoff h
    change _ ∈ joinedCalls at h
    simp [joinedCalls] at h
  · intro p hp
    rcases mem_joinedCalls hp with rfl | rfl <;> rfl
  · intro p hp
    rcases mem_joinedCalls hp with rfl | rfl
    · apply recorded_eventPromotion
      · simp only [List.mem_cons, List.not_mem_nil, or_false, forall_eq_or_imp, forall_eq]
        exact ⟨⟨_, _, _, rfl, by decide⟩, ⟨_, _, _, rfl, by decide⟩⟩
      · decide
    · apply recorded_eventPromotion
      · simp only [List.mem_cons, List.not_mem_nil, or_false, forall_eq]
        exact ⟨_, _, _, rfl, by decide⟩
      · decide

/-- The second joining has the identity of the first, and is not stored. -/
theorem rejoined_lost :
    Successful (outcomes (sampleConnection .empty) rejoinedCalls) ∧ Ascending rejoinedCalls ∧
      (∀ p, .promote p ∈ rejoinedCalls → ∀ e ∈ p.historyEvents, e.contextId = p.entry.contextId) ∧
      Set.InjOn eventPackages.uuid5 (hashedTexts rejoinedCalls) ∧
      ((Connection.handler catalog).exec (hydrateRuntime eventPackages [] [])
        (runCalls (sampleConnection .empty) rejoinedCalls)).1.map Prod.snd =
          .ok [moved "added" 1 1, moved "removed" 1 2] ∧
      eventsPromoted rejoinedCalls = [moved "added" 1 1, moved "removed" 1 2, moved "added" 1 3] := by
  have hevents (p : Promotion eventPackages) (hp : .promote p ∈ rejoinedCalls) (e : MembershipChange)
      (he : e ∈ p.historyEvents) : e.contextId = p.entry.contextId ∧
        (eventText p e = "a:1:7:added" ∨ eventText p e = "a:1:7:removed" ∨ eventText p e = "a:2:7:added") := by
    obtain rfl := mem_rejoinedCalls hp
    have he : e = moved "added" 1 1 ∨ e = moved "removed" 1 2 ∨ e = moved "added" 1 3 := by
      simpa [eventPromotion] using he
    rcases he with rfl | rfl | rfl <;> exact ⟨rfl, by decide⟩
  exact ⟨successful_iff.mpr (by decide), numbered_rejoinedCalls.ascending, fun p hp e he => (hevents p hp e he).1,
    injOn_of_events (fun p hp e he => (hevents p hp e he).2), rfl, rfl⟩

end Sample

end ContextqlServer.Db.MembershipEvents
