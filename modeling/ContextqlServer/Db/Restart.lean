import ContextqlServer.Db.Hydration

namespace ContextqlServer.Db.Restart

open ContextqlServer.Lib.Effect ContextqlServer.Lib.Isoformat ContextqlServer.Lib.Numbering
open ContextqlServer.Lib.Sql
open ContextqlServer.Db.Schema ContextqlServer.Db.Statements ContextqlServer.Db.ContextCatalog
open ContextqlServer.Db.ContextCatalog.SQLiteContextRuntimeRepository
open ContextqlServer.Db.Calls ContextqlServer.Db.Codec ContextqlServer.Db.Shelf
open ContextqlServer.Db.Snapshots ContextqlServer.Db.Runs ContextqlServer.Db.Promotions
open ContextqlServer.Db.Hydration

variable {P : Packages} {t : Tables} {calls : List (Call P)} {p p' : Promotion P}

section Restored

variable {restored : List Restored} {contextId : String}

def restoredFor (restored : List Restored) (contextId : String) : List Restored :=
  restored.filter (fun s => s.contextId = contextId)

/-- What is restored are the promotions whose snapshots the tables retain, in the
order of their versions, so that the last one of a context is the current one. -/
structure Restores (calls : List (Call P)) (t : Tables) (restored : List Restored) : Prop where
  promoted : ∀ s ∈ restored, ∃ p, .promote p ∈ calls ∧ s = restoredOf p
  snapshots : ∀ contextId, (restoredFor restored contextId).map (fun s => s.version) =
    (snapshotsOf t contextId).map (fun r => r.version)
  current : ∀ contextId, ∀ s ∈ (restoredFor restored contextId).getLast?,
    ∃ r ∈ snapshotsOf t contextId, r.version = s.version ∧ r.state = .current

def FirstKept (t : Tables) : Prop :=
  ∀ r ∈ t.contextSnapshots, ∃ s ∈ snapshotsOf t r.contextId, s.version = 1

instance decidableFirstKept (t : Tables) : Decidable (FirstKept t) :=
  inferInstanceAs (Decidable (∀ r ∈ t.contextSnapshots, ∃ s ∈ snapshotsOf t r.contextId, s.version = 1))

/-- The promotions whose rows the tables retain were dated with a UTC offset. -/
def KeptDated (calls : List (Call P)) (t : Tables) : Prop :=
  ∀ p, .promote p ∈ calls → ∀ r ∈ t.contextSnapshots, Holds p t r → Dated p

end Restored

section Kept

theorem promotion_unique (hnum : Numbered calls) (hp : .promote p ∈ calls) (hp' : .promote p' ∈ calls)
    (hid : p.entry.contextId = p'.entry.contextId)
    (hversion : p.snapshot.version = p'.snapshot.version) : p = p' := by
  induction calls using List.reverseRecOn with
  | nil => cases hp
  | append_singleton calls call ih =>
    -- The version of the last call is above those of the calls before it.
    have hlast : ∀ q q' : Promotion P, call = .promote q → .promote q' ∈ calls →
        q.entry.contextId = q'.entry.contextId → q.snapshot.version ≠ q'.snapshot.version := by
      rintro q q' rfl hq' hqid hqversion
      have hcons := hnum q.entry.contextId
      rw [versionsOf_append, versionsOf_promote, Consecutive.append_iff] at hcons
      have hmem : q'.snapshot.version ∈ versionsOf calls q.entry.contextId := by
        refine List.mem_map.mpr ⟨(q'.entry.contextId, q'.snapshot.version), ?_, rfl⟩
        refine List.mem_filter.mpr ⟨List.mem_filterMap.mpr ⟨_, hq', rfl⟩, ?_⟩
        simp [hqid]
      have hle := (hcons.1.lt _ hmem).2
      have heq := hcons.2.1
      omega
    obtain hp | hp := List.mem_append.mp hp
    · obtain hp' | hp' := List.mem_append.mp hp'
      · exact ih (numbered_of_append hnum) hp hp'
      · exact absurd hversion.symm (hlast p' p (List.mem_singleton.mp hp').symm hp hid.symm)
    · obtain hp' | hp' := List.mem_append.mp hp'
      · exact absurd hversion (hlast p p' (List.mem_singleton.mp hp).symm hp' hid)
      · have h := (List.mem_singleton.mp hp).trans (List.mem_singleton.mp hp').symm
        cases h
        rfl

theorem payloadOf_kept (hk : Kept calls t) {r : SnapshotRow} (hr : r ∈ t.contextSnapshots) :
    ∃ p q, .promote p ∈ calls ∧ Holds p t r ∧ payloadOf t r = some q ∧
      q.membershipBlob = .blob p.membershipPayload ∧ q.scoreBlob = some (.blob p.scorePayload) := by
  obtain ⟨p, hp, hholds⟩ := hk.rows r hr
  obtain ⟨q, hq, hid, hversion, hblobs⟩ := hholds.payload
  exact ⟨p, q, hp, hholds, (payloadOf_eq (shelves hk)).mpr ⟨hq, hid, hversion⟩, hblobs⟩

theorem stored_versions (hk : Kept calls t) (contextId : String) :
    ((stored t).filter (fun x => x.1.contextId = contextId)).map (fun x => x.1.version) =
      (snapshotsOf t contextId).map (fun r => r.version) := by
  rw [stored_filter (shelves hk), List.map_filterMap, ← List.filterMap_eq_map]
  apply List.filterMap_congr
  intro r hr
  obtain ⟨_, q, -, -, hq, -⟩ := payloadOf_kept hk (List.mem_filter.mp hr).1
  rw [hq]
  rfl

theorem continues_iff (hk : Kept calls t) (hnum : Numbered calls) :
    Continues [] (stored t) ↔ FirstKept t := by
  have hcontext : ∀ contextId, snapshotsOf t contextId ≠ [] →
      (Consecutive 0 ((snapshotsOf t contextId).map (fun r => r.version)) ↔
        ∃ s ∈ snapshotsOf t contextId, s.version = 1) := by
    intro contextId hne
    refine (Consecutive.tail_iff (hnum contextId) (hk.versions contextId) ?_).trans ?_
    · simpa using hne
    · exact List.mem_map
  constructor
  · intro h r hr
    have hc := h r.contextId
    rw [stored_versions hk] at hc
    have hmem : r ∈ snapshotsOf t r.contextId := List.mem_filter.mpr ⟨hr, by simp⟩
    exact (hcontext _ (List.ne_nil_of_mem hmem)).mp hc
  · intro h contextId
    rw [stored_versions hk]
    cases hrows : snapshotsOf t contextId with
    | nil => trivial
    | cons r rows =>
      have hne : snapshotsOf t contextId ≠ [] := by
        rw [hrows]
        exact List.cons_ne_nil r rows
      have hmem : r ∈ snapshotsOf t contextId := by
        rw [hrows]
        exact List.mem_cons_self ..
      have hid : r.contextId = contextId := by simpa using (List.mem_filter.mp hmem).2
      have hfirst := h r (List.mem_filter.mp hmem).1
      rw [hid] at hfirst
      rw [← hrows]
      exact (hcontext contextId hne).mpr hfirst

theorem opened_stored (hk : Kept calls t) (hscores : ∀ p, .promote p ∈ calls → ScoresReadBack p)
    {x : SnapshotRow × PayloadRow} (hx : x ∈ stored t) :
    ∃ p, .promote p ∈ calls ∧ Holds p t x.1 ∧ opened P x = .ok (readBack p) := by
  obtain ⟨hr, hq⟩ := (mem_stored (shelves hk)).mp hx
  obtain ⟨p, q, hp, hholds, hq', hmembership, hscore⟩ := payloadOf_kept hk hr
  obtain rfl := Option.some.inj (hq.symm.trans hq')
  exact ⟨p, hp, hholds, opened_holds (hscores p hp) hholds.values hmembership hscore⟩

/-- Events are read back where their times are what `isoformat` wrote. -/
theorem history_timed (h : ∀ r ∈ t.contextMembershipHistory, Timed r) :
    ∃ events, t.contextMembershipHistory.mapM changeFromRow = .ok events := by
  apply mapM_total
  intro r hr
  obtain ⟨recordedAt, effectiveAt, hrecorded, heffective⟩ := h r hr
  have hrecorded : datetime (some r.recordedAt) = .ok (some (assumeUtc recordedAt)) := by
    rw [hrecorded]
    exact datetime_iso (some recordedAt)
  have heffective : datetime (some r.effectiveAt) = .ok (some (assumeUtc effectiveAt)) := by
    rw [heffective]
    exact datetime_iso (some effectiveAt)
  rw [changeFromRow, hrecorded, heffective]
  exact ⟨_, rfl⟩

theorem restored_versions {ss : List Restored} {rows : List (SnapshotRow × PayloadRow)}
    (h : rows.mapM (opened P) = .ok ss) (contextId : String) :
    (restoredFor ss contextId).map (fun s => s.version) =
      (rows.filter (fun x => x.1.contextId = contextId)).map (fun x => x.1.version) := by
  have hkeys : ss.map (fun s => (s.contextId, s.version)) = rows.map (fun x => (x.1.contextId, x.1.version)) := by
    apply map_of_mapM h
    intro x _ s hs
    obtain ⟨hid, hversion⟩ := opened_contextId hs
    rw [hid, hversion]
  have hfilter := congrArg (fun ks => (ks.filter (fun k => k.1 = contextId)).map Prod.snd) hkeys
  simp only [List.filter_map, List.map_map] at hfilter
  exact hfilter

theorem restores_of_opened (hk : Kept calls t) (hdated : KeptDated calls t)
    (hscores : ∀ p, .promote p ∈ calls → ScoresReadBack p) {ss : List Restored}
    (hss : (stored t).mapM (opened P) = .ok ss) : Restores calls t ss := by
  have hversions : ∀ contextId, (restoredFor ss contextId).map (fun s => s.version) =
      (snapshotsOf t contextId).map (fun r => r.version) := by
    intro contextId
    rw [restored_versions hss, stored_versions hk]
  refine ⟨?_, hversions, ?_⟩
  · intro s hs
    obtain ⟨x, hx, hopened⟩ := (mem_of_mapM hss).mp hs
    obtain ⟨p, hp, hholds, hopened'⟩ := opened_stored hk hscores hx
    have hr := ((mem_stored (shelves hk)).mp hx).1
    refine ⟨p, hp, ?_⟩
    rw [← readBack_eq.mpr (hdated p hp x.1 hr hholds)]
    exact Except.ok.inj (hopened.symm.trans hopened')
  · intro contextId s hs
    have hlast := congrArg List.getLast? (hversions contextId)
    rw [List.getLast?_map, List.getLast?_map, Option.mem_def.mp hs, Option.map_some] at hlast
    obtain ⟨r, hr, hversion⟩ := Option.map_eq_some_iff.mp hlast.symm
    have hmem := List.mem_of_getLast? hr
    obtain ⟨front, last, heq, hcurrent, -, -⟩ := (hk.shelved contextId).chain.states (List.ne_nil_of_mem hmem)
    rw [heq, List.getLast?_append_cons, List.getLast?_singleton] at hr
    obtain rfl := Option.some.inj hr
    exact ⟨last, hmem, hversion, hcurrent⟩

theorem dated_of_restores (hk : Kept calls t) (hnum : Numbered calls)
    (hscores : ∀ p, .promote p ∈ calls → ScoresReadBack p) {ss : List Restored}
    (hss : (stored t).mapM (opened P) = .ok ss) (hr : Restores calls t ss) : KeptDated calls t := by
  intro p hp r hmem hholds
  obtain ⟨p₁, q, hp₁, hholds₁, hq, hmembership, hscore⟩ := payloadOf_kept hk hmem
  obtain rfl := promotion_unique hnum hp hp₁ (hholds.contextId.symm.trans hholds₁.contextId)
    (hholds.version.symm.trans hholds₁.version)
  have hx : (r, q) ∈ stored t := (mem_stored (shelves hk)).mpr ⟨hmem, hq⟩
  have hopened := opened_holds (hscores p hp) hholds.values hmembership hscore
  obtain ⟨p₂, hp₂, heq⟩ := hr.promoted _ ((mem_of_mapM hss).mpr ⟨_, hx, hopened⟩)
  obtain rfl := promotion_unique hnum hp hp₂ (congrArg Restored.contextId heq)
    (congrArg Restored.version heq)
  exact readBack_eq.mp heq

end Kept

section Hydrate

variable {c : Connection catalog}

theorem exec_hydrateRuntime (membership : List Restored) (history : List MembershipChange) :
    ((Connection.handler catalog).exec (hydrateRuntime P membership history) c).1 = (do
      let restored ← (stored c.pending).foldlM (restore P) membership
      let events ← c.pending.contextMembershipHistory.mapM changeFromRow
      pure (restored, history ++ events)) := by
  have hrows : (Connection.handler catalog).exec (hydrateRuntime P membership history) c =
      (Connection.handler catalog).exec (do
        let restored ← Prog.ofExcept ((stored c.pending).foldlM (restore P) membership)
        let t ← select (M := catalog)
        let events ← Prog.ofExcept (t.contextMembershipHistory.mapM changeFromRow)
        pure (restored, history ++ events)) c.advance := rfl
  rw [hrows, Handler.exec_ofExcept_bind]
  cases (stored c.pending).foldlM (restore P) membership with
  | error e => rfl
  | ok restored =>
    have hevents : (Connection.handler catalog).exec (do
        let t ← select (M := catalog)
        let events ← Prog.ofExcept (t.contextMembershipHistory.mapM changeFromRow)
        pure (restored, history ++ events)) c.advance =
      (Connection.handler catalog).exec (do
        let events ← Prog.ofExcept (c.pending.contextMembershipHistory.mapM changeFromRow)
        pure (restored, history ++ events)) c.advance.advance := rfl
    simp only [hevents, Handler.exec_ofExcept_bind]
    cases c.pending.contextMembershipHistory.mapM changeFromRow <;> rfl

/-- `hydrate_runtime` of a fresh runtime raises nothing and restores the retained snapshots. -/
def Hydrates (calls : List (Call P)) (c : Connection catalog) : Prop :=
  ∃ restored events, ((Connection.handler catalog).exec (hydrateRuntime P [] []) c).1 =
    .ok (restored, events) ∧ Restores calls c.pending restored

theorem hydrates_of_kept (hk : Kept calls c.pending) (hnum : Numbered calls)
    (hscores : ∀ p, .promote p ∈ calls → ScoresReadBack p) :
    Hydrates calls c ↔ FirstKept c.pending ∧ KeptDated calls c.pending := by
  rw [Hydrates]
  constructor
  · rintro ⟨restored, events, hexec, hrestores⟩
    rw [exec_hydrateRuntime] at hexec
    obtain ⟨restored', hfold, hexec⟩ := bind_eq_ok.mp hexec
    obtain ⟨events', -, hexec⟩ := bind_eq_ok.mp hexec
    obtain ⟨rfl, -⟩ := Prod.mk.inj (Except.ok.inj hexec)
    obtain ⟨ss, hss, rfl, hc⟩ := restore_rows.mp hfold
    exact ⟨(continues_iff hk hnum).mp hc, dated_of_restores hk hnum hscores hss hrestores⟩
  · rintro ⟨hfirst, hdated⟩
    have hopened : ∀ x ∈ stored c.pending, ∃ s, opened P x = .ok s := by
      intro x hx
      obtain ⟨p, -, -, h⟩ := opened_stored hk hscores hx
      exact ⟨_, h⟩
    obtain ⟨ss, hss⟩ := mapM_total hopened
    obtain ⟨events, hevents⟩ := history_timed hk.history
    have hfold : (stored c.pending).foldlM (restore P) [] = .ok ss :=
      restore_rows.mpr ⟨ss, hss, rfl, (continues_iff hk hnum).mpr hfirst⟩
    refine ⟨ss, events, ?_, restores_of_opened hk hdated hscores hss⟩
    rw [exec_hydrateRuntime, hfold, hevents]
    rfl

/-- After promotions numbered in turn and prunings, any of which may raise, a restart
restores what is retained exactly if no pruning has deleted a first snapshot, and the
retained promotions were dated with an offset. -/
theorem hydrates_iff {c₀ : Connection catalog} {h : List (Entry P)} (h₀ : Bare c₀.committed)
    (hnone : c₀.transaction = none) (hr : Reaches c₀ h c) (hcalls : ∀ e ∈ h, Settled e)
    (hnum : Numbered (returnedCalls h))
    (hscores : ∀ p, .promote p ∈ returnedCalls h → ScoresReadBack p) :
    Hydrates (returnedCalls h) c ↔ FirstKept c.committed ∧ KeptDated (returnedCalls h) c.committed := by
  obtain ⟨hnone', hp⟩ := performs_of_settled hr hcalls hnone
  have hk : Kept (returnedCalls h) c.pending := by
    rw [Connection.pending_of_none hnone']
    exact performs_kept h₀ hp hnum.ascending
  rw [← Connection.pending_of_none hnone']
  exact hydrates_of_kept hk hnum hscores

end Hydrate

section Sample

/-- Two snapshots of one context, on the days 1 and 2, and one of another. -/
def restartCalls : List (Call samplePackages) :=
  [.promote (samplePromotion "a" 1 1 [1]), .promote (samplePromotion "b" 1 1 [1]),
    .promote (samplePromotion "a" 2 2 [2])]

def prunedCalls : List (Call samplePackages) :=
  restartCalls ++ [.prune (sampleEntry "a" "name" 1) (some (sampleDay 2))]

/-- The same, and a pruning that retains the only snapshot of its context. -/
def retainedCalls : List (Call samplePackages) :=
  restartCalls ++ [.prune (sampleEntry "b" "name" 1) (some (sampleDay 2))]

theorem settled_of_successful {h : List (Entry P)} (hok : Successful h) : ∀ e ∈ h, Settled e := by
  intro e he
  left
  rw [returned, hok e he]

theorem bare_empty : Bare .empty := ⟨rfl, rfl, rfl⟩

theorem versionsOf_restartCalls (contextId : String) : versionsOf restartCalls contextId =
    if contextId = "a" then [1, 2] else if contextId = "b" then [1] else [] := by
  have hpromoted : restartCalls.filterMap promoted = [("a", 1), ("b", 1), ("a", 2)] := rfl
  rw [versionsOf, hpromoted]
  by_cases ha : contextId = "a"
  · rw [ha]
    rfl
  · by_cases hb : contextId = "b"
    · rw [hb]
      rfl
    · simp [ha, hb, Ne.symm ha, Ne.symm hb]

theorem mem_restartCalls {p : Promotion samplePackages} (h : .promote p ∈ restartCalls) :
    p = samplePromotion "a" 1 1 [1] ∨ p = samplePromotion "b" 1 1 [1] ∨ p = samplePromotion "a" 2 2 [2] := by
  simpa only [restartCalls, List.mem_cons, List.not_mem_nil, or_false, Call.promote.injEq] using h

theorem numbered_restartCalls : Numbered restartCalls := by
  intro contextId
  rw [versionsOf_restartCalls]
  split
  · exact ⟨rfl, rfl, trivial⟩
  · split
    · exact ⟨rfl, trivial⟩
    · trivial

theorem numbered_prunedCalls : Numbered prunedCalls := numbered_restartCalls

theorem mem_retainedCalls {p : Promotion samplePackages} (h : .promote p ∈ retainedCalls) :
    .promote p ∈ restartCalls := by
  obtain h | h := List.mem_append.mp h
  · exact h
  · cases List.mem_singleton.mp h

theorem dated_sample (contextId : String) (version : Int) (day : Fin 28) (payload : Bytes) :
    Dated (samplePromotion contextId version day payload) := by
  constructor <;> rintro d ⟨⟩ <;> exact fun h => by cases h

/-- The pruning deletes no snapshot, and those of both contexts are restored. -/
theorem hydrates_iff_sample :
    Hydrates retainedCalls (runCalls (sampleConnection .empty) retainedCalls) := by
  have hr := runCalls_reaches (c := sampleConnection .empty) .start retainedCalls
  have hnumbered : Numbered retainedCalls := numbered_restartCalls
  refine (hydrates_iff bare_empty rfl hr (settled_of_successful (successful_iff.mpr (by decide)))
    hnumbered ?_).mpr ⟨?_, ?_⟩
  · intro p hp
    obtain rfl | rfl | rfl := mem_restartCalls (mem_retainedCalls hp) <;> rfl
  · exact @of_decide_eq_true _ (decidableFirstKept _) rfl
  · intro p hp r _ _
    obtain rfl | rfl | rfl := mem_restartCalls (mem_retainedCalls hp) <;> exact dated_sample _ _ _ _

/-- The first snapshot of a context is pruned, and the server does not start again. -/
theorem pruned_restart : Successful (outcomes (sampleConnection .empty) prunedCalls) ∧
    Numbered prunedCalls ∧
    ((Connection.handler catalog).exec (hydrateRuntime samplePackages [] [])
      (runCalls (sampleConnection .empty) prunedCalls)).1 = .error (nonContiguous "a") ∧
    ¬ Hydrates prunedCalls (runCalls (sampleConnection .empty) prunedCalls) := by
  have herror : ((Connection.handler catalog).exec (hydrateRuntime samplePackages [] [])
      (runCalls (sampleConnection .empty) prunedCalls)).1 = .error (nonContiguous "a") := rfl
  refine ⟨successful_iff.mpr (by decide), numbered_prunedCalls, herror, ?_⟩
  rintro ⟨restored, events, hexec, -⟩
  rw [herror] at hexec
  cases hexec

end Sample

end ContextqlServer.Db.Restart
