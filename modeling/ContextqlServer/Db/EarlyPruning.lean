import ContextqlServer.Db.MembershipEvents
import ContextqlServer.Db.Outcomes
import ContextqlServer.Lib.Ordering
import ContextqlServer.Lib.Stutter

namespace ContextqlServer.Db.EarlyPruning

open ContextqlServer.Lib.Effect ContextqlServer.Lib.Isoformat ContextqlServer.Lib.Log
open ContextqlServer.Lib.Sql ContextqlServer.Lib.Stutter
open ContextqlServer.Db.Schema ContextqlServer.Db.Statements ContextqlServer.Db.Services
open ContextqlServer.Db.ContextCatalog ContextqlServer.Db.ContextCatalog.SQLiteContextRuntimeRepository
open ContextqlServer.Db.Calls ContextqlServer.Db.Shelf ContextqlServer.Db.Snapshots ContextqlServer.Db.Runs
open ContextqlServer.Db.Promotions ContextqlServer.Db.MembershipEvents ContextqlServer.Db.Outcomes

variable {P : Packages} {t t' u u' : Tables} {contextId : String} {calls : List (Call P)} {call : Call P}
  {p : Promotion P}

section Promote

def shelve (p : Promotion P) (row : SnapshotRow) (a a' : Ambient) (t : Tables) : Tables :=
  { t with
    contexts := (Statements.pointContext t a'.now.strftime p.snapshot.version (iso p.entry.lastRefreshedAt)
      (iso p.entry.dataAsOf) p.entry.contextId p.entry.version).contexts
    contextSnapshots := t.contextSnapshots.map (supersededBy row) ++ [row]
    contextSnapshotPayloads := t.contextSnapshotPayloads ++
      [⟨p.entry.contextId, p.snapshot.version, .blob p.membershipPayload, some (.blob p.scorePayload),
        a.now.strftime⟩]
    contextMembershipHistory := (insertEvents p t).contextMembershipHistory }

theorem shelve_of_applies (h : Applies (M := catalog) p.statements t t') :
    ∃ row a a', RowOf p row ∧ t' = shelve p row a a' t := by
  obtain ⟨a₁, t₁, h₁, h⟩ := Applies.cons_iff.mp h
  obtain ⟨a₂, t₂, h₂, h⟩ := Applies.cons_iff.mp h
  obtain ⟨a₃, t₃, h₃, h⟩ := Applies.cons_iff.mp h
  obtain ⟨a₄, t₄, h₄, h⟩ := Applies.cons_iff.mp h
  obtain ⟨a₅, t₅, h₅, h⟩ := Applies.cons_iff.mp h
  obtain rfl := insertPayload_ok (a := a₁) h₁
  obtain ⟨r, hvalues, hvalidTo, hstate, hfresh, rfl⟩ := insertSnapshot_ok (a := a₂) h₂
  cases (Statement.run_ok.mp h₃).2
  obtain rfl := makeCurrent_ok (a := a₄) h₄
  cases (Statement.run_ok.mp h₅).2
  obtain rfl := applies_events h
  have hid : r.contextId = p.entry.contextId := congrArg SnapshotValues.contextId hvalues
  have hversion : r.version = p.snapshot.version := congrArg SnapshotValues.version hvalues
  have hcomputed : some r.computedAt = iso p.snapshot.computedAt :=
    congrArg SnapshotValues.computedAt hvalues
  have hrows := rows_promoted hid hversion hcomputed hstate hfresh
  refine ⟨{ r with state := .current }, a₁, a₅, ⟨hvalues, rfl, hvalidTo⟩, ?_⟩
  rw [insertEvents_frame]
  simp only [shelve, Tables.mk.injEq]
  exact ⟨rfl, rfl, rfl, rfl, hrows, rfl, insertEvents_congr p _ rfl, rfl⟩

theorem current_promoted {row : SnapshotRow} (hstate : row.state = .current) (rows : List SnapshotRow) :
    ((rows.map (supersededBy row) ++ [row]).filter (fun r =>
      r.contextId = row.contextId && r.state = .current)).length = 1 := by
  have hnone : (rows.map (supersededBy row)).filter (fun r =>
      r.contextId = row.contextId && r.state = .current) = [] := by
    rw [List.filter_eq_nil_iff]
    intro x hx
    obtain ⟨r, -, rfl⟩ := List.mem_map.mp hx
    rw [supersededBy]
    split
    · simp
    · rename_i hc
      simpa using hc
  rw [List.filter_append, hnone]
  simp [hstate]

theorem unique_run {columns : String} {clash : Bool} (h : clash = false) (t : Tables) :
    (do unique columns clash; pure t : Except DbError Tables) = .ok t := by
  subst h
  rfl

theorem insertPayload_effect {version : Int} {m s : Bytes} {a : Ambient}
    (h : ∀ r ∈ t.contextSnapshotPayloads, r.contextId = contextId → r.version ≠ version) :
    (Statement.insertPayload contextId version m s).effect a t =
      .ok { t with contextSnapshotPayloads := t.contextSnapshotPayloads ++
        [⟨contextId, version, .blob m, some (.blob s), a.now.strftime⟩] } := by
  apply unique_run
  simpa using h

theorem insertSnapshot_effect (row : SnapshotRow) {a : Ambient} (hstate : row.state = .building)
    (hvalidTo : row.validTo = none)
    (h : ∀ r ∈ t.contextSnapshots, r.contextId = row.contextId → r.version ≠ row.version) :
    (Statement.insertSnapshot (rowValues row)).effect a t =
      .ok { t with contextSnapshots := t.contextSnapshots ++ [row] } := by
  obtain ⟨⟩ := row
  cases hstate
  cases hvalidTo
  apply unique_run
  simp only [List.any_eq_false, Bool.and_eq_true, decide_eq_true_eq, not_and]
  exact h

theorem makeCurrent_effect {version : Int} (rows : List SnapshotRow) {a : Ambient}
    (hrows : t.contextSnapshots.map (fun r =>
      if r.contextId = contextId ∧ r.version = version then { r with state := .current } else r) = rows)
    (hcurrent : (rows.filter (fun r => r.contextId = contextId && r.state = .current)).length = 1) :
    (Statement.makeCurrent contextId version).effect a t = .ok { t with contextSnapshots := rows } := by
  subst hrows
  apply unique_run
  simp [hcurrent]

def Bindable (p : Promotion P) : Prop := ∀ s ∈ p.statements, ∀ n ∈ s.integers, Storable n

theorem bound_of_applies {ss : List Statement} (h : Applies (M := catalog) ss t t') :
    ∀ s ∈ ss, ∀ n ∈ s.integers, Storable n := by
  induction ss generalizing t with
  | nil => exact List.forall_mem_nil _
  | cons s ss ih =>
    obtain ⟨a, t₁, hrun, h⟩ := Applies.cons_iff.mp h
    exact List.forall_mem_cons.mpr ⟨(Statement.run_ok.mp hrun).1, ih h⟩

theorem events_applies (p : Promotion P) {events : List MembershipChange} (a : Ambient) (t : Tables)
    (hbound : ∀ e ∈ events, ∀ n ∈ (Statement.insertEvent (p.eventValues e)).integers, Storable n) :
    Applies (M := catalog) (events.map (fun e => .insertEvent (p.eventValues e))) t
      (events.foldl (fun t e => insertEvent t (p.eventValues e)) t) := by
  induction events generalizing t with
  | nil => exact Applies.nil_iff.mpr rfl
  | cons e events ih =>
    obtain ⟨he, hbound⟩ := List.forall_mem_cons.mp hbound
    exact .cons (a := a) (Statement.run_ok.mpr ⟨he, rfl⟩) (ih _ hbound)

theorem applies_of_fresh {row : SnapshotRow} (hbound : Bindable p) (hrow : RowOf p row) (a a' : Ambient)
    (hrows : ∀ r ∈ t.contextSnapshots, r.contextId = p.entry.contextId → r.version ≠ p.snapshot.version)
    (hpayloads : ∀ r ∈ t.contextSnapshotPayloads, r.contextId = p.entry.contextId →
      r.version ≠ p.snapshot.version) :
    Applies (M := catalog) p.statements t (shelve p row a a' t) := by
  let t₁ : Tables := { t with contextSnapshotPayloads := (shelve p row a a' t).contextSnapshotPayloads }
  let t₂ : Tables := { t₁ with contextSnapshots := t.contextSnapshots ++ [{ row with state := .building }] }
  let t₄ : Tables := { t₁ with contextSnapshots := t.contextSnapshots.map (supersededBy row) ++ [row] }
  let t₅ : Tables := { t₄ with contexts := (shelve p row a a' t).contexts }
  have h₁ : (Statement.insertPayload p.entry.contextId p.snapshot.version p.membershipPayload
      p.scorePayload).effect a t = .ok t₁ := insertPayload_effect hpayloads
  have h₂ : (Statement.insertSnapshot p.snapshotValues).effect a t₁ = .ok t₂ := by
    rw [← hrow.values]
    refine insertSnapshot_effect { row with state := .building } rfl hrow.validTo ?_
    rwa [hrow.contextId, hrow.version]
  have h₄ : (Statement.makeCurrent p.entry.contextId p.snapshot.version).effect a
      (Statements.supersede t₂ (iso p.snapshot.computedAt) p.entry.contextId) = .ok t₄ := by
    refine makeCurrent_effect (t.contextSnapshots.map (supersededBy row) ++ [row]) ?_ ?_
    · have hbuilding := @rows_promoted t.contextSnapshots { row with state := .building } p.entry.contextId
        p.snapshot.version (iso p.snapshot.computedAt) hrow.contextId hrow.version hrow.computedAt.symm rfl hrows
      have hcurrent : ({ row with state := .current } : SnapshotRow) = row := by rw [← hrow.state]
      change _ = t.contextSnapshots.map (supersededBy { row with state := .current }) ++
        [{ row with state := .current }] at hbuilding
      rw [hcurrent] at hbuilding
      exact hbuilding
    · have hone := current_promoted hrow.state t.contextSnapshots
      rwa [hrow.contextId] at hone
  have hevents := (List.forall_mem_append.mp hbound).2
  have h₆ : Applies (M := catalog) (p.historyEvents.map (fun e => .insertEvent (p.eventValues e))) t₅
      (shelve p row a a' t) := by
    have hframe : p.historyEvents.foldl (fun t e => insertEvent t (p.eventValues e)) t₅ = shelve p row a a' t := by
      have hsame : t₅.contextMembershipHistory = t.contextMembershipHistory := rfl
      rw [insertEvents_frame, insertEvents_congr p p.historyEvents hsame]
      rfl
    exact hframe ▸ events_applies p a t₅ (List.forall_mem_map.mp hevents)
  have h₅ : (Statement.pointContext p.snapshot.version (iso p.entry.lastRefreshedAt) (iso p.entry.dataAsOf)
      p.entry.contextId p.entry.version).effect a' t₄ = .ok t₅ := rfl
  have hrun {s : Statement} {a : Ambient} {t t' : Tables} (hs : s ∈ p.statements) (h : s.effect a t = .ok t') :
      s.run a t = .ok t' := Statement.run_ok.mpr ⟨hbound s hs, h⟩
  refine Applies.cons_iff.mpr ⟨a, t₁, hrun (by simp [Promotion.statements]) h₁, ?_⟩
  refine Applies.cons_iff.mpr ⟨a, t₂, hrun (by simp [Promotion.statements]) h₂, ?_⟩
  refine Applies.cons_iff.mpr ⟨a, _, hrun (by simp [Promotion.statements]) rfl, ?_⟩
  refine Applies.cons_iff.mpr ⟨a, t₄, hrun (by simp [Promotion.statements]) h₄, ?_⟩
  exact Applies.cons_iff.mpr ⟨a', t₅, hrun (by simp [Promotion.statements]) h₅, h₆⟩

/-- A promotion that is newer than what is stored goes through exactly if its integers can be
stored and its row has all it needs. -/
theorem applies_iff (hs : Shelved t p.entry.contextId)
    (hnew : ∀ r ∈ snapshotsOf t p.entry.contextId, r.version < p.snapshot.version) :
    Applies (M := catalog) p.statements t t' ↔
      Bindable p ∧ ∃ row a a', RowOf p row ∧ t' = shelve p row a a' t := by
  refine ⟨fun h => ⟨bound_of_applies h, shelve_of_applies h⟩, ?_⟩
  rintro ⟨hbound, row, a, a', hrow, rfl⟩
  apply applies_of_fresh hbound hrow
  · intro r hr hid
    exact (hnew r (List.mem_filter.mpr ⟨hr, by simpa using hid⟩)).ne
  · intro r hr hid hversion
    have hmem : p.snapshot.version ∈ (payloadsOf t p.entry.contextId).map (fun r => r.version) :=
      List.mem_map.mpr ⟨r, List.mem_filter.mpr ⟨hr, by simpa using hid⟩, hversion⟩
    rw [hs.payloads] at hmem
    obtain ⟨r', hr', hversion'⟩ := List.mem_map.mp hmem
    exact (hnew r' hr').ne hversion'

end Promote

section Contexts

/-- The statements on the rows of `contexts` that the calls execute. -/
def aboutContexts : Statement → Bool
  | .insertContext _ | .updateContext _ | .dropContext .. | .recordExecution .. => true
  | _ => false

theorem run_contexts {s : Statement} {a : Ambient} (hs : aboutContexts s = true) (h : s.run a t = .ok t') :
    t' = { t with contexts := t'.contexts } ∧
      ∀ u : Tables, u.contexts = t.contexts → s.run a u = .ok { u with contexts := t'.contexts } := by
  obtain ⟨hbound, h⟩ := Statement.run_ok.mp h
  suffices heffect : t' = { t with contexts := t'.contexts } ∧
      ∀ u : Tables, u.contexts = t.contexts → s.effect a u = .ok { u with contexts := t'.contexts } from
    ⟨heffect.1, fun u hu => Statement.run_ok.mpr ⟨hbound, heffect.2 u hu⟩⟩
  cases s with
  | insertContext v =>
    obtain ⟨x, hx, h⟩ := bind_eq_ok.mp h
    obtain ⟨y, hy, h⟩ := bind_eq_ok.mp h
    obtain ⟨hclash, rfl⟩ := bind_unique_ok h
    refine ⟨rfl, ?_⟩
    intro u hu
    refine bind_eq_ok.mpr ⟨x, hx, bind_eq_ok.mpr ⟨y, ?_, ?_⟩⟩
    · rw [hu]
      exact hy
    · rw [hu, unique_run hclash]
  | updateContext v =>
    obtain ⟨x, hx, h⟩ := bind_eq_ok.mp h
    cases h
    refine ⟨rfl, ?_⟩
    intro u hu
    refine bind_eq_ok.mpr ⟨x, ?_, ?_⟩
    · rw [checkUpdate, hu]
      exact hx
    · rw [hu]
      rfl
  | dropContext | recordExecution =>
    cases h
    refine ⟨rfl, ?_⟩
    intro u hu
    simp only [Statement.effect, Statements.dropContext, Statements.recordExecution, hu]
    rfl
  | _ => cases hs

/-- What the calls that write neither snapshots nor history do, they do to the contexts alone. -/
theorem effect_contexts (hcall : ¬ OneTransaction call) (h : call.Effect t t') :
    t' = { t with contexts := t'.contexts } ∧
      ∀ u : Tables, u.contexts = t.contexts → call.Effect u { u with contexts := t'.contexts } := by
  cases call with
  | save entry rawDdl =>
    obtain ⟨a, h⟩ := h
    have hs : aboutContexts (Call.saveStatement entry rawDdl t) = true := by
      rw [Call.saveStatement]
      split <;> rfl
    refine ⟨(run_contexts hs h).1, ?_⟩
    intro u hu
    have hsame : Call.saveStatement entry rawDdl u = Call.saveStatement entry rawDdl t := by
      rw [Call.saveStatement, Call.saveStatement, hu]
    refine ⟨a, ?_⟩
    rw [hsame]
    exact (run_contexts hs h).2 u hu
  | drop entry =>
    obtain ⟨a, now, h⟩ := h
    exact ⟨(run_contexts rfl h).1, fun u hu => ⟨a, now, (run_contexts rfl h).2 u hu⟩⟩
  | record contextId version executedAt =>
    obtain ⟨a, h⟩ := h
    exact ⟨(run_contexts rfl h).1, fun u hu => ⟨a, (run_contexts rfl h).2 u hu⟩⟩
  | _ => exact absurd trivial hcall

end Contexts

section History

theorem hashedTexts_mono (calls : List (Call P)) (call : Call P) :
    hashedTexts calls ⊆ hashedTexts (calls ++ [call]) := by
  rintro text ⟨q, hq, hmem⟩
  exact ⟨q, List.mem_append_left _ hq, hmem⟩

theorem performs_history (h₀ : Bare t) (hp : Performs calls t t') (hasc : Ascending calls)
    (huuid : Set.InjOn P.uuid5 (hashedTexts calls)) : ∀ r ∈ t'.contextMembershipHistory, r ∈ storedRows calls := by
  induction hp with
  | nil t =>
    rw [h₀.history]
    exact List.forall_mem_nil _
  | @snoc calls call t₀ t₁ t₂ hp hc ih =>
    have ih := ih h₀ (ascending_of_append hasc) (huuid.mono (hashedTexts_mono calls call))
    have hold : ∀ r ∈ storedRows calls, r ∈ storedRows (calls ++ [call]) := by
      intro r hr
      rw [storedRows, promotions_snoc, List.flatMap_append]
      exact List.mem_append_left _ hr
    cases call with
    | promote p =>
      obtain ⟨row, hpromoted⟩ := Promoted.of_applies hc
      have hfresh := storedRows_fresh hasc huuid
      intro r hr
      rw [hpromoted.history, insertEvents, insertEvents_kept huuid (by simp)
        (fun x hx => hfresh x (ih x hx)) _ (fun _ he => he)] at hr
      obtain hr | hr := List.mem_append.mp hr
      · exact hold r (ih r hr)
      · rw [storedRows, promotions_snoc, List.flatMap_append]
        exact List.mem_append_right _ (by simpa [promotion, kept] using hr)
    | prune entry cutoff =>
      obtain ⟨-, rfl⟩ | ⟨version, -, rfl⟩ := prune_cases hc
      · exact fun r hr => hold r (ih r hr)
      · exact fun r hr => hold r (ih r (List.mem_filter.mp hr).1)
    | _ =>
      rw [(effect_contexts (by exact id) hc).1]
      exact fun r hr => hold r (ih r hr)

end History

section Trim

variable {version : Int} {history : List HistoryRow} {last : String}

def trimmed (contextId : String) (version : Int) (history : List HistoryRow) (u : Tables) : Tables :=
  { u with
    contextSnapshots := u.contextSnapshots.filter (fun r => !(r.contextId = contextId && r.version < version))
    contextSnapshotPayloads :=
      u.contextSnapshotPayloads.filter (fun r => !(r.contextId = contextId && r.version < version))
    contextMembershipHistory := history }

def since (contextId last : String) (rows : List HistoryRow) : List HistoryRow :=
  rows.filter (fun r => !(r.contextId = contextId && r.effectiveAt < last))

/-- What was pruned so far, a pruning with a later cutoff deletes as well. -/
structure Cut (contextId last : String) (version : Int) (history : List HistoryRow) (u : Tables) : Prop where
  anchored : ∃ r ∈ snapshotsOf u contextId, r.version = version ∧ r.dataAsOf ≤ last
  history : since contextId last history = since contextId last u.contextMembershipHistory

/-- How the tables of a context that is pruned now and then stand to those of one that is not. -/
def Trims (contextId last : String) (t u : Tables) : Prop :=
  t = u ∨ ∃ version history, t = trimmed contextId version history u ∧ Cut contextId last version history u

theorem Trims.contexts (h : Trims contextId last t u) : t.contexts = u.contexts := by
  obtain rfl | ⟨version, history, rfl, -⟩ := h
  · rfl
  · rfl

theorem Trims.withContexts (h : Trims contextId last t u) (contexts : Table ContextRow) :
    Trims contextId last { t with contexts } { u with contexts } := by
  obtain rfl | ⟨version, history, rfl, hcut⟩ := h
  · exact .inl rfl
  · exact .inr ⟨version, history, rfl, hcut.anchored, hcut.history⟩

theorem Trims.promote (h : Trims contextId last t u) {row : SnapshotRow} (hrow : RowOf p row)
    (hnew : ∀ r ∈ snapshotsOf u p.entry.contextId, r.version < p.snapshot.version) {events : List HistoryRow}
    (ht : (insertEvents p t).contextMembershipHistory = t.contextMembershipHistory ++ events)
    (hu : (insertEvents p u).contextMembershipHistory = u.contextMembershipHistory ++ events) (a a' : Ambient) :
    Trims contextId last (shelve p row a a' t) (shelve p row a a' u) := by
  obtain rfl | ⟨version, history, rfl, ⟨r, hr, rfl, hdata⟩, hhistory⟩ := h
  · exact .inl rfl
  · have hnew' : contextId = p.entry.contextId → r.version < p.snapshot.version := by
      rintro rfl
      exact hnew r hr
    refine .inr ⟨r.version, history ++ events, ?_, ?_, ?_⟩
    · have hkept : ((row.contextId = contextId && row.version < r.version) : Bool) = false := by
        rw [hrow.contextId, hrow.version]
        simp only [Bool.and_eq_false_imp, decide_eq_true_eq, decide_eq_false_iff_not, not_lt]
        exact fun hid => (hnew' hid.symm).le
      have hsuperseded : ∀ s : SnapshotRow,
          ((supersededBy row s).contextId = contextId && (supersededBy row s).version < r.version : Bool) =
            (s.contextId = contextId && s.version < r.version : Bool) := by
        intro s
        rw [supersededBy_contextId, supersededBy_version]
      simp only [shelve, ht]
      simp only [trimmed, Tables.mk.injEq, true_and, and_true]
      refine ⟨rfl, ?_, ?_⟩
      · rw [List.filter_append, List.filter_map]
        simp only [Function.comp_def, hsuperseded, List.filter_cons, hkept]
        rfl
      · rw [hrow.contextId, hrow.version] at hkept
        simp only [List.filter_append, List.filter_cons, hkept]
        rfl
    · refine ⟨supersededBy row r, ?_, supersededBy_version row r, ?_⟩
      · refine List.mem_filter.mpr ⟨List.mem_append_left _ (List.mem_map_of_mem (List.mem_filter.mp hr).1), ?_⟩
        rw [supersededBy_contextId]
        exact (List.mem_filter.mp hr).2
      · rw [supersededBy]
        split <;> exact hdata
    · rw [since, List.filter_append]
      change _ = ((insertEvents p u).contextMembershipHistory).filter _
      rw [hu, List.filter_append]
      exact congrArg (· ++ _) hhistory

theorem since_filter (q : HistoryRow → Bool) (rows : List HistoryRow) :
    since contextId last (rows.filter q) = (since contextId last rows).filter q := List.filter_comm ..

theorem Trims.pruneOther (h : Trims contextId last t u) {other : String} (hne : contextId ≠ other)
    (cutoff : Option Datetime) : anchor t other (iso cutoff) = anchor u other (iso cutoff) ∧
      ∀ version, Trims contextId last (pruned t other version cutoff) (pruned u other version cutoff) := by
  obtain rfl | ⟨version, history, rfl, ⟨r, hr, rfl, hdata⟩, hhistory⟩ := h
  · exact ⟨rfl, fun _ => .inl rfl⟩
  · refine ⟨?_, ?_⟩
    · have hcandidate : ∀ s : SnapshotRow, (s.contextId = other && (iso cutoff).any (fun c => s.dataAsOf ≤ c) : Bool) =
          true → (!(s.contextId = contextId && s.version < r.version) : Bool) = true := by
        intro s hs
        have hid : s.contextId = other := of_decide_eq_true (Bool.and_eq_true_iff.mp hs).1
        simp [hid, hne.symm]
      rw [anchor, anchor, trimmed, List.filter_filter]
      congr 4
      funext s
      cases hs : (s.contextId = other && (iso cutoff).any (fun c => s.dataAsOf ≤ c) : Bool) with
      | false => rfl
      | true => exact hcandidate s hs
    · intro version
      refine .inr ⟨r.version, history.filter (fun s => !(s.contextId = other &&
        (iso cutoff).any (fun c => s.effectiveAt < c))), ?_, ⟨r, ?_, rfl, hdata⟩, ?_⟩
      · simp only [pruned, deleteEvents, deleteSnapshots, deletePayloads, trimmed, Tables.mk.injEq, true_and, and_true]
        exact ⟨List.filter_comm .., List.filter_comm ..⟩
      · rw [(pruned_frame hne.symm).snapshots]
        exact hr
      · rw [since_filter, hhistory, ← since_filter]
        rfl

theorem since_pruned {cutoff : Option String} (h : ∀ c, cutoff = some c → c ≤ last) (rows : List HistoryRow) :
    since contextId last (rows.filter (fun s =>
      !(s.contextId = contextId && cutoff.any (fun c => s.effectiveAt < c)))) = since contextId last rows := by
  rw [since, since, List.filter_filter]
  apply List.filter_congr
  intro s _
  cases cutoff with
  | none => simp
  | some c =>
    have hle := h c rfl
    rw [Option.any_some]
    by_cases hlt : s.effectiveAt < c
    · rw [decide_eq_true (hlt.trans_le hle), decide_eq_true hlt, Bool.and_self]
    · rw [decide_eq_false hlt, Bool.and_false, Bool.not_false, Bool.and_true]

/-- Nor does a pruning at an earlier snapshot leave more or less for one at a later. -/
theorem below_below {α : Type} (id : α → String) (versionOf : α → Int) {v w : Int} (h : v ≤ w) (rows : List α) :
    (rows.filter (fun r => !(id r = contextId && versionOf r < v))).filter (fun r =>
      !(id r = contextId && versionOf r < w)) = rows.filter (fun r => !(id r = contextId && versionOf r < w)) := by
  rw [List.filter_filter]
  apply List.filter_congr
  intro r _
  by_cases hlt : versionOf r < v
  · rw [decide_eq_true (hlt.trans_le h), decide_eq_true hlt, Bool.and_self]
  · rw [decide_eq_false hlt, Bool.and_false, Bool.not_false, Bool.and_true]

theorem anchor_row {cutoff : Option String} (h : anchor t contextId cutoff = some version) :
    ∃ r ∈ snapshotsOf t contextId, r.version = version ∧ ∃ c, cutoff = some c ∧ r.dataAsOf ≤ c := by
  obtain ⟨r, hr, hversion⟩ := Option.map_eq_some_iff.mp h
  have hrow := (List.mem_insertionSort _).mp (List.mem_of_mem_head? hr)
  obtain ⟨hmem, hp⟩ := List.mem_filter.mp hrow
  obtain ⟨hid, hany⟩ := Bool.and_eq_true_iff.mp hp
  obtain ⟨c, hc, hle⟩ := (Option.any_eq_true _ _).mp hany
  exact ⟨r, List.mem_filter.mpr ⟨hmem, hid⟩, hversion, c, hc, of_decide_eq_true hle⟩

theorem mem_trimmed {r : SnapshotRow} (hr : r ∈ snapshotsOf (trimmed contextId version history u) contextId) :
    r ∈ snapshotsOf u contextId ∧ version ≤ r.version := by
  obtain ⟨hmem, hid⟩ := List.mem_filter.mp hr
  obtain ⟨hmem, hkept⟩ := List.mem_filter.mp hmem
  rw [hid, Bool.true_and, Bool.not_eq_true', decide_eq_false_iff_not, not_lt] at hkept
  exact ⟨List.mem_filter.mpr ⟨hmem, hid⟩, hkept⟩

theorem Trims.prune (h : Trims contextId last t u) {cutoff : Option Datetime}
    (hcutoff : ∀ c, iso cutoff = some c → c ≤ last) (ha : anchor t contextId (iso cutoff) = some version) :
    Trims contextId last (pruned t contextId version cutoff) u := by
  obtain ⟨r, hr, rfl, c, hc, hdata⟩ := anchor_row ha
  obtain rfl | ⟨version, history, rfl, ⟨r', hr', rfl, hdata'⟩, hhistory⟩ := h
  · exact .inr ⟨r.version, _, rfl, ⟨r, hr, rfl, hdata.trans (hcutoff c hc)⟩, since_pruned hcutoff _⟩
  · obtain ⟨hmem, hle⟩ := mem_trimmed hr
    refine .inr ⟨r.version, (pruned (trimmed contextId r'.version history u) contextId r.version
      cutoff).contextMembershipHistory, ?_, ⟨r, hmem, rfl, hdata.trans (hcutoff c hc)⟩, ?_⟩
    · simp only [pruned, deleteEvents, deleteSnapshots, deletePayloads, trimmed, Tables.mk.injEq, true_and, and_true]
      exact ⟨below_below _ _ hle _, below_below _ _ hle _⟩
    · exact (since_pruned hcutoff history).trans hhistory

theorem head?_filter {α : Type} {q : α → Bool} {xs : List α} (h : ∀ x, xs.head? = some x → q x = true) :
    (xs.filter q).head? = xs.head? := by
  cases xs with
  | nil => rfl
  | cons x xs => rw [List.filter_cons_of_pos (h x rfl)]; rfl

theorem anchor_trimmed (history : List HistoryRow) {r : SnapshotRow} (hr : r ∈ snapshotsOf u contextId)
    (hdata : r.dataAsOf ≤ last)
    (hordered : ∀ r ∈ snapshotsOf u contextId, ∀ s ∈ snapshotsOf u contextId, r.version < s.version →
      r.dataAsOf ≤ s.dataAsOf) :
    anchor (trimmed contextId r.version history u) contextId (some last) = anchor u contextId (some last) := by
  rw [anchor, anchor, trimmed, List.filter_comm, orderBy, ← Lib.Ordering.filter_insertionSort]
  rw [head?_filter]
  · rfl
  · intro s hs
    obtain ⟨hmem, hleast⟩ := Lib.Ordering.head?_least _ hs
    obtain ⟨hmem, hcandidate⟩ := List.mem_filter.mp hmem
    obtain ⟨hr, hid⟩ := List.mem_filter.mp hr
    have hle := hleast r (List.mem_filter.mpr ⟨hr, by rw [hid]; simpa using hdata⟩)
    rw [OrderDual.toDual_le_toDual, Prod.Lex.toLex_le_toLex] at hle
    -- The anchor has data no older than the snapshot that was one before, so it is no older itself.
    have hversion : ¬ s.version < r.version := by
      intro hlt
      have hold := hordered s (List.mem_filter.mpr ⟨hmem, (Bool.and_eq_true_iff.mp hcandidate).1⟩) r
        (List.mem_filter.mpr ⟨hr, hid⟩) hlt
      obtain hnew | ⟨-, hnew⟩ := hle
      · exact absurd hold (not_le.mpr hnew)
      · exact absurd hlt (not_lt.mpr hnew)
    rw [decide_eq_false hversion, Bool.and_false, Bool.not_false]

/-- What `prune_history` makes of the tables. -/
def afterPruning (t : Tables) (contextId : String) (cutoff : Option Datetime) : Tables :=
  (anchor t contextId (iso cutoff)).elim t (fun version => pruned t contextId version cutoff)

theorem effect_prune {entry : ContextCatalogEntry P} {cutoff : Option Datetime} :
    (Call.prune entry cutoff).Effect t t' ↔ t' = afterPruning t entry.contextId cutoff := by
  rw [afterPruning]
  simp only [Call.Effect]
  cases anchor t entry.contextId (iso cutoff) with
  | none => rfl
  | some version =>
    refine ⟨applies_prune, ?_⟩
    rintro rfl
    have a : Ambient := (sampleConnection .empty).reading
    refine Applies.cons_iff.mpr ⟨a, _, rfl, Applies.cons_iff.mpr ⟨a, _, rfl, Applies.cons_iff.mpr ⟨a, _, rfl, ?_⟩⟩⟩
    exact Applies.nil_iff.mpr rfl

theorem Trims.afterPruning (h : Trims contextId last t u) {cutoff : Option Datetime}
    (hcutoff : ∀ c, iso cutoff = some c → c ≤ last) :
    Trims contextId last (EarlyPruning.afterPruning t contextId cutoff) u := by
  rw [EarlyPruning.afterPruning]
  cases ha : anchor t contextId (iso cutoff) with
  | none => exact h
  | some version => exact h.prune hcutoff ha

theorem Trims.afterOther (h : Trims contextId last t u) {other : String} (hne : contextId ≠ other)
    (cutoff : Option Datetime) :
    Trims contextId last (EarlyPruning.afterPruning t other cutoff) (EarlyPruning.afterPruning u other cutoff) := by
  obtain ⟨ha, hpruned⟩ := h.pruneOther hne cutoff
  rw [EarlyPruning.afterPruning, EarlyPruning.afterPruning, ha]
  cases anchor u other (iso cutoff) with
  | none => exact h
  | some version => exact hpruned version

theorem Trims.afterLast {cutoff : Datetime} (h : Trims contextId cutoff.isoformat t u)
    (hordered : ∀ r ∈ snapshotsOf u contextId, ∀ s ∈ snapshotsOf u contextId, r.version < s.version →
      r.dataAsOf ≤ s.dataAsOf) :
    EarlyPruning.afterPruning t contextId (some cutoff) = EarlyPruning.afterPruning u contextId (some cutoff) := by
  obtain rfl | ⟨version, history, rfl, ⟨r, hr, rfl, hdata⟩, hhistory⟩ := h
  · rfl
  · have ha := anchor_trimmed history hr hdata hordered
    rw [EarlyPruning.afterPruning, EarlyPruning.afterPruning, iso, Option.map_some, ha]
    cases hanchor : anchor u contextId (some cutoff.isoformat) with
    | none =>
      obtain ⟨hmem, hid⟩ := List.mem_filter.mp hr
      rw [anchor, Option.map_eq_none_iff, orderBy, Lib.Ordering.head?_eq_none, List.filter_eq_nil_iff] at hanchor
      refine absurd ?_ (hanchor r hmem)
      rw [hid]
      simpa using hdata
    | some version =>
      rw [hanchor] at ha
      obtain ⟨s, hs, rfl, -⟩ := anchor_row ha
      have hle := (mem_trimmed hs).2
      simp only [Option.elim_some, pruned, deleteEvents, deleteSnapshots, deletePayloads, trimmed, Tables.mk.injEq,
        true_and, and_true]
      exact ⟨below_below _ _ hle _, below_below _ _ hle _, hhistory⟩

end Trim

section Runs

variable {last : String} {t₀ : Tables}

def prunes (contextId : String) : Call P → Bool
  | .prune entry _ => entry.contextId = contextId
  | _ => false

/-- Of two snapshots that are promoted for a context, the later one has data no older: times are
compared as the texts that are stored of them. -/
def DataAscend (contextId : String) (calls : List (Call P)) : Prop :=
  ∀ p q, .promote p ∈ calls → .promote q ∈ calls → p.entry.contextId = contextId →
    q.entry.contextId = contextId → p.snapshot.version < q.snapshot.version →
    ∀ d d', iso p.snapshot.dataAsOf = some d → iso q.snapshot.dataAsOf = some d' → d ≤ d'

/-- Calls with ever greater versions, with distinct events, with data that grow no older
and with no pruning of the context beyond a cutoff, in the order of the stored texts. -/
structure Orderly (contextId last : String) (calls : List (Call P)) : Prop where
  versions : Ascending calls
  identities : Set.InjOn P.uuid5 (hashedTexts calls)
  data : DataAscend contextId calls
  cutoffs : ∀ entry cutoff, .prune entry cutoff ∈ calls → entry.contextId = contextId →
    ∀ c, iso cutoff = some c → c ≤ last

theorem Orderly.of_subset {calls calls' : List (Call P)} (h : Orderly contextId last calls')
    (hasc : Ascending calls) (hsub : ∀ call ∈ calls, call ∈ calls') : Orderly contextId last calls where
  versions := hasc
  identities := h.identities.mono (by
    rintro text ⟨q, hq, hmem⟩
    exact ⟨q, hsub _ hq, hmem⟩)
  data p q hp hq := h.data p q (hsub _ hp) (hsub _ hq)
  cutoffs entry cutoff hmem := h.cutoffs entry cutoff (hsub _ hmem)

theorem versionsOf_visible (calls : List (Call P)) (other : String) :
    versionsOf (visible (prunes contextId) calls) other = versionsOf calls other := by
  rw [versionsOf, versionsOf, visible, List.filterMap_filter]
  congr 3
  funext call
  cases call <;> simp [prunes, promoted]

theorem Orderly.spared (h : Orderly contextId last calls) :
    Orderly contextId last (visible (prunes contextId) calls) := by
  refine h.of_subset ?_ (fun call hcall => (List.mem_filter.mp hcall).1)
  intro other
  rw [versionsOf_visible]
  exact h.versions other

theorem Orderly.prefix (h : Orderly contextId last (calls ++ [call])) : Orderly contextId last calls :=
  h.of_subset (ascending_of_append h.versions) (fun _ hcall => List.mem_append_left _ hcall)

theorem rows_ordered (hk : Kept calls t) (h : Orderly contextId last calls) :
    ∀ r ∈ snapshotsOf t contextId, ∀ s ∈ snapshotsOf t contextId, r.version < s.version →
      r.dataAsOf ≤ s.dataAsOf := by
  intro r hr s hs hlt
  obtain ⟨hr, hrid⟩ := List.mem_filter.mp hr
  obtain ⟨hs, hsid⟩ := List.mem_filter.mp hs
  obtain ⟨p, hp, hholds⟩ := hk.rows r hr
  obtain ⟨q, hq, hholds'⟩ := hk.rows s hs
  refine h.data p q hp hq ?_ ?_ ?_ _ _ ?_ ?_
  · rw [← hholds.contextId]
    exact of_decide_eq_true hrid
  · rw [← hholds'.contextId]
    exact of_decide_eq_true hsid
  · rwa [← hholds.version, ← hholds'.version]
  · exact (congrArg SnapshotValues.dataAsOf hholds.values).symm
  · exact (congrArg SnapshotValues.dataAsOf hholds'.values).symm

structure Apart (t₀ : Tables) (contextId last : String) (calls : List (Call P)) (t u : Tables) : Prop where
  pruned : Performs calls t₀ t
  spared : Performs (visible (prunes contextId) calls) t₀ u
  trims : Trims contextId last t u

theorem events_appended (h₀ : Bare t₀) (hp : Performs calls t₀ t) (h : Orderly contextId last (calls ++ [.promote p])) :
    (insertEvents p t).contextMembershipHistory = t.contextMembershipHistory ++ (kept p).map (rowOf p) := by
  have hstored := performs_history h₀ hp h.prefix.versions h.prefix.identities
  have hfresh := storedRows_fresh h.versions h.identities
  exact insertEvents_kept h.identities (by simp) (fun r hr => hfresh r (hstored r hr)) _ (fun _ he => he)

theorem Apart.step (h₀ : Bare t₀) (h : Orderly contextId last (calls ++ [call]))
    (hcall : prunes contextId call = false) (hapart : Apart t₀ contextId last calls t u) :
    (∀ t', call.Effect t t' → ∃ u', call.Effect u u' ∧ Trims contextId last t' u') ∧
      ∀ u', call.Effect u u' → ∃ t', call.Effect t t' ∧ Trims contextId last t' u' := by
  have hspared := h.spared
  rw [visible_snoc hcall] at hspared
  have hk := performs_kept h₀ hapart.pruned h.prefix.versions
  have hk' := performs_kept h₀ hapart.spared hspared.prefix.versions
  by_cases hone : OneTransaction call
  · cases call with
    | promote p =>
      have hnew := hk.newer h.versions p rfl
      have hnew' := hk'.newer hspared.versions p rfl
      have ht := events_appended h₀ hapart.pruned h
      have hu := events_appended h₀ hapart.spared hspared
      constructor
      · intro t' heffect
        obtain ⟨hbound, row, a, a', hrow, rfl⟩ := (applies_iff (hk.shelved _) hnew).mp heffect
        exact ⟨_, (applies_iff (hk'.shelved _) hnew').mpr ⟨hbound, row, a, a', hrow, rfl⟩,
          hapart.trims.promote hrow hnew' ht hu a a'⟩
      · intro u' heffect
        obtain ⟨hbound, row, a, a', hrow, rfl⟩ := (applies_iff (hk'.shelved _) hnew').mp heffect
        exact ⟨_, (applies_iff (hk.shelved _) hnew).mpr ⟨hbound, row, a, a', hrow, rfl⟩,
          hapart.trims.promote hrow hnew' ht hu a a'⟩
    | prune entry cutoff =>
      have hne : contextId ≠ entry.contextId := fun hid => of_decide_eq_false hcall hid.symm
      have htrims := hapart.trims.afterOther hne cutoff
      constructor
      · intro t' heffect
        rw [effect_prune.mp heffect]
        exact ⟨_, effect_prune.mpr rfl, htrims⟩
      · intro u' heffect
        rw [effect_prune.mp heffect]
        exact ⟨_, effect_prune.mpr rfl, htrims⟩
    | _ => cases hone
  · constructor
    · intro t' heffect
      obtain ⟨ht, hrun⟩ := effect_contexts hone heffect
      refine ⟨_, hrun u hapart.trims.contexts.symm, ?_⟩
      rw [ht]
      exact hapart.trims.withContexts _
    · intro u' heffect
      obtain ⟨hu, hrun⟩ := effect_contexts hone heffect
      refine ⟨_, hrun t hapart.trims.contexts, ?_⟩
      rw [hu]
      exact hapart.trims.withContexts _

theorem Apart.silent (h : Orderly contextId last (calls ++ [call])) (hcall : prunes contextId call = true)
    (hapart : Apart t₀ contextId last calls t u) (heffect : call.Effect t t') : Trims contextId last t' u := by
  cases call with
  | prune entry cutoff =>
    obtain rfl : entry.contextId = contextId := of_decide_eq_true hcall
    rw [effect_prune.mp heffect]
    exact hapart.trims.afterPruning (h.cutoffs entry cutoff (by simp) rfl)
  | _ => cases hcall

theorem performs_iff_path : Performs calls t t' ↔ Path Call.Effect calls t t' := by
  constructor
  · intro h
    induction h with
    | nil t => exact .nil t
    | snoc _ hc ih => exact ih.snoc hc
  · intro h
    induction h with
    | nil t => exact .nil t
    | snoc _ hc ih => exact ih.snoc hc

theorem performs_snoc_iff : Performs (calls ++ [call]) t t' ↔ ∃ t₁, Performs calls t t₁ ∧ call.Effect t₁ t' := by
  simp only [performs_iff_path]
  exact Path.snoc_iff

theorem performs_apart (h₀ : Bare t₀) (h : Orderly contextId last calls) :
    (∀ t, Performs calls t₀ t → ∃ u, Apart t₀ contextId last calls t u) ∧
      ∀ u, Performs (visible (prunes contextId) calls) t₀ u → ∃ t, Apart t₀ contextId last calls t u := by
  have hnil : Apart t₀ contextId last ([] : List (Call P)) t₀ t₀ := ⟨.nil t₀, .nil t₀, .inl rfl⟩
  have hprefix : ∀ (calls : List (Call P)) call, Orderly contextId last (calls ++ [call]) →
      Orderly contextId last calls := fun _ _ h => h.prefix
  have hsilent : ∀ (calls : List (Call P)) call t t' u, Orderly contextId last (calls ++ [call]) →
      prunes contextId call = true → Apart t₀ contextId last calls t u → call.Effect t t' →
      Apart t₀ contextId last (calls ++ [call]) t' u := by
    intro calls call t t' u h hcall hapart heffect
    refine ⟨hapart.pruned.snoc heffect, ?_, hapart.silent h hcall heffect⟩
    rw [visible_snoc_silent hcall]
    exact hapart.spared
  constructor
  · intro t hp
    have hstep : ∀ (calls : List (Call P)) call t t' u, Orderly contextId last (calls ++ [call]) →
        prunes contextId call = false → Apart t₀ contextId last calls t u → call.Effect t t' →
        ∃ u', call.Effect u u' ∧ Apart t₀ contextId last (calls ++ [call]) t' u' := by
      intro calls call t t' u h hcall hapart heffect
      obtain ⟨u', heffect', htrims⟩ := (hapart.step h₀ h hcall).1 t' heffect
      refine ⟨u', heffect', hapart.pruned.snoc heffect, ?_, htrims⟩
      rw [visible_snoc hcall]
      exact hapart.spared.snoc heffect'
    obtain ⟨u, -, hapart⟩ := (performs_iff_path.mp hp).erase hprefix hstep hsilent h hnil
    exact ⟨u, hapart⟩
  · intro u hp
    have hstep : ∀ (calls : List (Call P)) call t u u', Orderly contextId last (calls ++ [call]) →
        prunes contextId call = false → Apart t₀ contextId last calls t u → call.Effect u u' →
        ∃ t', call.Effect t t' ∧ Apart t₀ contextId last (calls ++ [call]) t' u' := by
      intro calls call t u u' h hcall hapart heffect
      obtain ⟨t', heffect', htrims⟩ := (hapart.step h₀ h hcall).2 u' heffect
      refine ⟨t', heffect', hapart.pruned.snoc heffect', ?_, htrims⟩
      rw [visible_snoc hcall]
      exact hapart.spared.snoc heffect
    have hpruned : ∀ (calls : List (Call P)) call t u, Orderly contextId last (calls ++ [call]) →
        prunes contextId call = true → Apart t₀ contextId last calls t u →
        ∃ t', call.Effect t t' ∧ Apart t₀ contextId last (calls ++ [call]) t' u := by
      intro calls call t u h hcall hapart
      cases call with
      | prune entry cutoff => exact ⟨_, effect_prune.mpr rfl, hsilent _ _ _ _ _ h hcall hapart (effect_prune.mpr rfl)⟩
      | _ => cases hcall
    obtain ⟨t, -, hapart⟩ := (performs_iff_path.mp hp).restore hprefix hstep hpruned h hnil
    exact ⟨t, hapart⟩

/-- What a context is pruned of before the last pruning makes no difference where the stored
texts of times are in order: runs of the calls with the earlier prunings and runs without them
come to the same tables. -/
theorem early_pruning_spared {entry : ContextCatalogEntry P} {cutoff : Datetime} (h₀ : Bare t₀)
    (h : Orderly entry.contextId cutoff.isoformat calls) :
    Outcome (calls ++ [.prune entry (some cutoff)]) t₀ t' ↔
      Outcome (visible (prunes entry.contextId) calls ++ [.prune entry (some cutoff)]) t₀ t' := by
  rw [outcome_iff, outcome_iff, performs_snoc_iff, performs_snoc_iff]
  have hlast : ∀ t u, Apart t₀ entry.contextId cutoff.isoformat calls t u →
      afterPruning t entry.contextId (some cutoff) = afterPruning u entry.contextId (some cutoff) :=
    fun t u hapart => hapart.trims.afterLast (rows_ordered (performs_kept h₀ hapart.spared h.spared.versions) h.spared)
  constructor
  · rintro ⟨t, hp, heffect⟩
    obtain ⟨u, hapart⟩ := (performs_apart h₀ h).1 t hp
    refine ⟨u, hapart.spared, effect_prune.mpr ?_⟩
    rw [effect_prune.mp heffect, hlast t u hapart]
  · rintro ⟨u, hp, heffect⟩
    obtain ⟨t, hapart⟩ := (performs_apart h₀ h).2 u hp
    refine ⟨t, hapart.pruned, effect_prune.mpr ?_⟩
    rw [effect_prune.mp heffect, hlast t u hapart]

end Runs

section Sample

def sampleContext : ContextCatalogEntry eventPackages := { sampleEntry "a" "name" 1 with }

/-- The calls of `joinedCalls`, with a pruning in between. -/
def prunedCalls : List (Call eventPackages) :=
  [.promote (eventPromotion 1 2 [moved "added" 1 1, moved "removed" 1 2]),
    .prune sampleContext (some (sampleDay 2)),
    .promote (eventPromotion 2 3 [moved "added" 2 3])]

theorem mem_prunedCalls {p : Promotion eventPackages} (h : .promote p ∈ prunedCalls) :
    p = eventPromotion 1 2 [moved "added" 1 1, moved "removed" 1 2] ∨ p = eventPromotion 2 3 [moved "added" 2 3] := by
  simpa [prunedCalls] using h

theorem prunedCalls_orderly : Orderly sampleContext.contextId (sampleDay 3).isoformat prunedCalls where
  versions := numbered_joinedCalls.ascending
  identities := by
    apply injOn_of_events
    intro p hp e he
    rcases mem_prunedCalls hp with rfl | rfl
    · have he : e = moved "added" 1 1 ∨ e = moved "removed" 1 2 := by simpa [eventPromotion] using he
      rcases he with rfl | rfl <;> decide
    · obtain rfl : e = moved "added" 2 3 := by simpa [eventPromotion] using he
      decide
  data := by
    intro p q hp hq _ _ hlt d d' hd hd'
    rcases mem_prunedCalls hp with rfl | rfl <;> rcases mem_prunedCalls hq with rfl | rfl
    · exact absurd hlt (by decide)
    · obtain rfl := Option.some.inj hd
      obtain rfl := Option.some.inj hd'
      decide
    · exact absurd hlt (by decide)
    · exact absurd hlt (by decide)
  cutoffs := by
    intro entry cutoff h _ c hc
    obtain ⟨-, rfl⟩ : entry = sampleContext ∧ cutoff = some (sampleDay 2) := by simpa [prunedCalls] using h
    obtain rfl := Option.some.inj hc
    decide

/-- One snapshot is left, and the run that pruned once only has come to it as well. -/
theorem early_pruning_spared_sample :
    (runCalls (sampleConnection .empty)
        (prunedCalls ++ [.prune sampleContext (some (sampleDay 3))])).committed.contextSnapshots.length = 1 ∧
      Outcome (joinedCalls ++ [.prune sampleContext (some (sampleDay 3))]) .empty
        (runCalls (sampleConnection .empty)
          (prunedCalls ++ [.prune sampleContext (some (sampleDay 3))])).committed := by
  have hr := runCalls_reaches (c := sampleConnection .empty) .start
    (prunedCalls ++ [.prune sampleContext (some (sampleDay 3))])
  refine ⟨by decide, (early_pruning_spared Restart.bare_empty prunedCalls_orderly).mp ?_⟩
  exact ⟨_, _, _, rfl, rfl, hr, successful_iff.mpr (by decide), outcomes_calls _ _, rfl⟩

end Sample

end ContextqlServer.Db.EarlyPruning
