import ContextqlServer.Db.Runs
import ContextqlServer.Db.Snapshots
import ContextqlServer.Lib.Log
import ContextqlServer.Lib.Ordering

namespace ContextqlServer.Db.RetainedHistory

open ContextqlServer.Lib.Effect ContextqlServer.Lib.Isoformat ContextqlServer.Lib.Log
open ContextqlServer.Lib.Sql
open ContextqlServer.Db.Schema ContextqlServer.Db.Statements ContextqlServer.Db.Services
open ContextqlServer.Db.ContextCatalog ContextqlServer.Db.ContextCatalog.SQLiteContextRuntimeRepository
open ContextqlServer.Db.Calls ContextqlServer.Db.Shelf ContextqlServer.Db.Snapshots ContextqlServer.Db.Runs

variable {P : Packages} {t t' : Tables} {contextId : String}

/-- What an event says of the membership of an entity. -/
def writeMember (r : HistoryRow) (entity : Int) : Option Bool :=
  if r.transactionId = entity then
    if r.changeType = "added" then some true
    else if r.changeType = "removed" then some false
    else none
  else none

/-- The events of the versions after `u` and up to `v`, in the order of versions and
then of ids. -/
def changes (t : Tables) (contextId : String) (u v : Int) : List HistoryRow :=
  orderBy (fun r => r.contextVersion)
    ((eventsOf t contextId).filter (fun r => u < r.contextVersion && r.contextVersion ≤ v))

section Agreement

-- Whether an entity is a member in what a blob encodes.
variable (decode : Bytes → Int → Bool)

/-- The members of a stored snapshot. -/
def membersOf (t : Tables) (contextId : String) (version : Int) (entity : Int) : Bool :=
  ((payloadsOf t contextId).find? (fun r => r.version = version)).any (fun r =>
    match bytesOf r.membershipBlob with
    | .ok b => decode b entity
    | .error _ => false)

/-- The events between two snapshots lead from the members of one to those of the other. -/
def Agrees (t : Tables) (contextId : String) (u v : Int) : Prop :=
  replay writeMember (membersOf decode t contextId u) (changes t contextId u v) =
    membersOf decode t contextId v

def Replayable (t : Tables) (contextId : String) : Prop :=
  ∀ r ∈ snapshotsOf t contextId, ∀ s ∈ snapshotsOf t contextId, r.version < s.version →
    Agrees decode t contextId r.version s.version

def retained (cutoff : Datetime) (r : HistoryRow) : Bool := !(r.effectiveAt < cutoff.isoformat)

/-- Where the last event of an entity up to a later snapshot is deleted, the events
that are retained lead to the same membership. -/
def EventsSpare (t : Tables) (contextId : String) (version : Int) (cutoff : Datetime) : Prop :=
  ∀ s ∈ snapshotsOf t contextId, version < s.version → ∀ entity e,
    lastAt writeMember (changes t contextId version s.version) entity = some e →
    retained cutoff e = false →
    writeMember e entity = some (replay writeMember (membersOf decode t contextId version)
      ((changes t contextId version s.version).filter (retained cutoff)) entity)

end Agreement

section Pruning

variable {decode : Bytes → Int → Bool} {version : Int} {cutoff : Datetime}

theorem pruned_eventsOf : eventsOf (pruned t contextId version (some cutoff)) contextId =
    (eventsOf t contextId).filter (retained cutoff) := by
  simp only [pruned, deleteEvents, deleteSnapshots, deletePayloads, eventsOf, List.filter_filter]
  apply List.filter_congr
  intro r _
  by_cases h : r.contextId = contextId <;> simp [h, iso, retained]

theorem pruned_changes (u v : Int) : changes (pruned t contextId version (some cutoff)) contextId u v =
    (changes t contextId u v).filter (retained cutoff) := by
  rw [changes, changes, orderBy, orderBy, Lib.Ordering.filter_insertionSort, pruned_eventsOf,
    List.filter_filter, List.filter_filter]
  congr 1
  apply List.filter_congr
  intro r _
  exact Bool.and_comm _ _

theorem pruned_membersOf {v : Int} (h : version ≤ v) :
    membersOf decode (pruned t contextId version (some cutoff)) contextId v =
      membersOf decode t contextId v := by
  funext entity
  rw [membersOf, membersOf, pruned_payloadsOf]
  congr 1
  rw [List.find?_filter]
  congr 1
  funext r
  by_cases hr : r.version = v
  · simp [hr, h]
  · simp [hr]

theorem agrees_iff {entry : ContextCatalogEntry P} (hreplay : Replayable decode t entry.contextId)
    (heffect : (Call.prune entry (some cutoff)).Effect t t')
    (ha : anchor t entry.contextId (iso (some cutoff)) = some version) :
    (∀ s ∈ snapshotsOf t' entry.contextId, version < s.version →
        Agrees decode t' entry.contextId version s.version) ↔
      EventsSpare decode t entry.contextId version cutoff := by
  obtain ⟨hnone, -⟩ | ⟨version', ha', rfl⟩ := prune_cases heffect
  · rw [ha] at hnone
    cases hnone
  obtain rfl : version = version' := Option.some.inj (ha.symm.trans ha')
  obtain ⟨r, hr, hversion⟩ := anchor_mem ha
  have hsnapshots : ∀ s : SnapshotRow, version < s.version →
      (s ∈ snapshotsOf (pruned t entry.contextId version (some cutoff)) entry.contextId ↔
        s ∈ snapshotsOf t entry.contextId) := by
    intro s hlt
    rw [pruned_snapshotsOf, List.mem_filter]
    simp [not_lt.mpr hlt.le]
  -- The snapshots and their members are those of before; what differs is the events.
  have hagrees : ∀ s ∈ snapshotsOf t entry.contextId, version < s.version →
      (Agrees decode (pruned t entry.contextId version (some cutoff)) entry.contextId version s.version ↔
        replay writeMember (membersOf decode t entry.contextId version)
            ((changes t entry.contextId version s.version).filter (retained cutoff)) =
          replay writeMember (membersOf decode t entry.contextId version)
            (changes t entry.contextId version s.version)) := by
    intro s hs hlt
    have hbefore := hreplay r hr s hs (by rwa [hversion])
    rw [hversion] at hbefore
    rw [Agrees, pruned_changes, pruned_membersOf le_rfl, pruned_membersOf hlt.le, hbefore]
  constructor
  · intro h s hs hlt
    have hsame := (hagrees s hs hlt).mp (h s ((hsnapshots s hlt).mpr hs) hlt)
    exact (replay_filter_iff writeMember _ _ _).mp hsame
  · intro h s hs hlt
    have hs := (hsnapshots s hlt).mp hs
    exact (hagrees s hs hlt).mpr ((replay_filter_iff writeMember _ _ _).mpr (h s hs hlt))

/-- A pruning keeps the history between its anchor and the later snapshots replayable
exactly if the events that it deletes are spare. -/
theorem prune_keeps_history_iff {c c' : Connection catalog} {entry : ContextCatalogEntry P}
    (hnone : c.transaction = none) (hreplay : Replayable decode c.committed entry.contextId)
    (hrun : Runs (Answers catalog) Eq (pruneHistory entry (some cutoff)) c (.ok ()) c')
    (ha : anchor c.committed entry.contextId (iso (some cutoff)) = some version) :
    (∀ s ∈ snapshotsOf c'.committed entry.contextId, version < s.version →
        Agrees decode c'.committed entry.contextId version s.version) ↔
      EventsSpare decode c.committed entry.contextId version cutoff :=
  agrees_iff hreplay (effect_of_runs (.prune entry (some cutoff)) hnone hrun).2 ha

end Pruning

section Sample

def sampleDecode (b : Bytes) (entity : Int) : Bool := b = [2] && entity = 7

def joinDay (late : Bool) : Fin 28 := if late then 2 else 0

def joined (late : Bool) : MembershipChange where
  contextId := "a"
  entityId := 7
  changeType := "added"
  recordedAt := some (sampleDay 2)
  effectiveAt := some (sampleDay (joinDay late))
  contextVersion := 2
  source := "refresh"
  evidenceRef := none
  previousScore := none
  newScore := none

/-- Two snapshots, of the days 1 and 2, and an entity that joins in between. -/
def joinCalls (late : Bool) : List (Call samplePackages) :=
  [.promote (samplePromotion "a" 1 1 [1]),
    .promote { samplePromotion "a" 2 2 [2] with historyEvents := [joined late] }]

def afterJoin (late : Bool) : Connection catalog :=
  runCalls (sampleConnection .empty) (joinCalls late)

theorem afterJoin_versions (late : Bool) :
    (snapshotsOf (afterJoin late).committed "a").map (fun r => r.version) = [1, 2] := by
  cases late <;> decide

theorem afterJoin_changes (late : Bool) : ∃ r, changes (afterJoin late).committed "a" 1 2 = [r] ∧
    (r.transactionId, r.changeType, r.effectiveAt) =
      (7, "added", (sampleDay (joinDay late)).isoformat) := by
  have h : (changes (afterJoin late).committed "a" 1 2).map
      (fun r => (r.transactionId, r.changeType, r.effectiveAt)) =
      [(7, "added", (sampleDay (joinDay late)).isoformat)] := by
    cases late <;> decide
  obtain ⟨r, hr, heq⟩ := List.map_eq_singleton_iff.mp h
  exact ⟨r, hr, heq⟩

theorem afterJoin_members (late : Bool) (entity : Int) :
    membersOf sampleDecode (afterJoin late).committed "a" 1 entity = sampleDecode [1] entity ∧
      membersOf sampleDecode (afterJoin late).committed "a" 2 entity = sampleDecode [2] entity := by
  cases late <;> exact ⟨rfl, rfl⟩

theorem afterJoin_agrees (late : Bool) : Agrees sampleDecode (afterJoin late).committed "a" 1 2 := by
  obtain ⟨r, hr, heq⟩ := afterJoin_changes late
  obtain ⟨hid, htype, -⟩ := Prod.mk.inj heq |>.imp id Prod.mk.inj
  funext entity
  obtain ⟨hbefore, hafter⟩ := afterJoin_members late entity
  rw [hr, replay_apply, hbefore, hafter, net, net, Option.none_or, writeMember, hid, htype]
  by_cases h : 7 = entity
  · simp [← h, sampleDecode]
  · simp [h, Ne.symm h, sampleDecode]

theorem afterJoin_replayable (late : Bool) : Replayable sampleDecode (afterJoin late).committed "a" := by
  have hversion : ∀ r ∈ snapshotsOf (afterJoin late).committed "a", r.version = 1 ∨ r.version = 2 := by
    intro r hr
    have hmem := List.mem_map_of_mem (f := fun r => r.version) hr
    rw [afterJoin_versions] at hmem
    simpa using hmem
  intro r hr s hs hlt
  obtain hrv | hrv := hversion r hr <;> obtain hsv | hsv := hversion s hs <;> rw [hrv, hsv] at hlt ⊢
  · exact absurd hlt (by decide)
  · exact afterJoin_agrees late
  · exact absurd hlt (by decide)
  · exact absurd hlt (by decide)

/-- The database pruned with the cutoff at the first snapshot. -/
def afterPrune (late : Bool) : Connection catalog :=
  ((Connection.handler catalog).exec
    (pruneHistory (sampleEntry "a" "name" 1) (some (sampleDay 1))) (afterJoin late)).2

theorem prune_keeps_history_iff_sample :
    EventsSpare sampleDecode (afterJoin true).committed "a" 1 (sampleDay 1) ∧
      ∀ s ∈ snapshotsOf (afterPrune true).committed "a", 1 < s.version →
        Agrees sampleDecode (afterPrune true).committed "a" 1 s.version := by
  have hrun := Runs.of_exec (H := Connection.handler catalog) (R := Eq) (fun _ => rfl)
    (rfl : (Connection.handler catalog).exec
      (pruneHistory (sampleEntry "a" "name" 1) (some (sampleDay 1))) (afterJoin true) = (.ok (), _))
  refine and_iff_left_of_imp
    (prune_keeps_history_iff rfl (afterJoin_replayable true) hrun (by decide)).mpr |>.mpr ?_
  intro s hs hlt entity e he hdeleted
  have hversion : s.version = 2 := by
    have hmem : s.version ∈ (snapshotsOf (afterJoin true).committed "a").map (fun r => r.version) :=
      List.mem_map_of_mem hs
    rw [afterJoin_versions] at hmem
    simp only [List.mem_cons, List.not_mem_nil, or_false] at hmem
    omega
  obtain ⟨r, hr, heq⟩ := afterJoin_changes true
  have heffective : r.effectiveAt = (sampleDay 2).isoformat := congrArg (fun x => x.2.2) heq
  have hre : r = e := by
    rw [hversion] at he
    have he : lastAt writeMember (changes (afterJoin true).committed "a" 1 2) entity = some e := he
    rw [hr, lastAt, lastAt, Option.none_or] at he
    exact Option.some.inj (Option.ite_none_right_eq_some.mp he).2
  rw [retained, ← hre, heffective] at hdeleted
  exact absurd hdeleted (by decide)

/-- The event between the two snapshots is deleted, and both snapshots are retained. -/
theorem pruned_join : Successful (outcomes (sampleConnection .empty) (joinCalls false)) ∧
    Replayable sampleDecode (afterJoin false).committed "a" ∧
    anchor (afterJoin false).committed "a" (iso (some (sampleDay 1))) = some 1 ∧
    (snapshotsOf (afterPrune false).committed "a").map (fun r => r.version) = [1, 2] ∧
    ¬ Agrees sampleDecode (afterPrune false).committed "a" 1 2 := by
  refine ⟨successful_iff.mpr (by decide), afterJoin_replayable false, by decide, by decide, ?_⟩
  intro h
  exact absurd (congrFun h 7) (by decide)

end Sample

end ContextqlServer.Db.RetainedHistory
