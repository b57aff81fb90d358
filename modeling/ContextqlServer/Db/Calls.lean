import ContextqlServer.Db.ContextCatalog

namespace ContextqlServer.Db.Calls

open ContextqlServer.Lib.Effect ContextqlServer.Lib.Isoformat ContextqlServer.Lib.Rely
open ContextqlServer.Lib.Sql
open ContextqlServer.Db.Schema ContextqlServer.Db.Statements ContextqlServer.Db.ContextCatalog
open ContextqlServer.Db.ContextCatalog.SQLiteContextRuntimeRepository

section Tables

variable (t : Tables) (contextId : String)

def snapshotsOf : List SnapshotRow := t.contextSnapshots.filter (fun r => r.contextId = contextId)

def payloadsOf : List PayloadRow :=
  t.contextSnapshotPayloads.filter (fun r => r.contextId = contextId)

def eventsOf : List HistoryRow :=
  t.contextMembershipHistory.filter (fun r => r.contextId = contextId)

end Tables

structure SameShelf (t t' : Tables) : Prop where
  snapshots : t'.contextSnapshots = t.contextSnapshots
  payloads : t'.contextSnapshotPayloads = t.contextSnapshotPayloads
  history : t'.contextMembershipHistory = t.contextMembershipHistory

theorem SameShelf.refl (t : Tables) : SameShelf t t := ⟨rfl, rfl, rfl⟩

theorem SameShelf.symm {t t' : Tables} (h : SameShelf t t') : SameShelf t' t :=
  ⟨h.snapshots.symm, h.payloads.symm, h.history.symm⟩

theorem SameShelf.trans {t t' t'' : Tables} (h : SameShelf t t') (h' : SameShelf t' t'') :
    SameShelf t t'' :=
  ⟨h'.snapshots.trans h.snapshots, h'.payloads.trans h.payloads, h'.history.trans h.history⟩

def aboutShelf : Statement → Bool
  | .insertPayload .. | .insertSnapshot _ | .supersede .. | .makeCurrent .. | .insertEvent _
  | .deletePayloads .. | .deleteSnapshots .. | .deleteEvents .. => true
  | _ => false

/-- The inversion of a statement whose constraint was met. -/
theorem bind_unique_ok {columns : String} {clash : Bool} {t t' : Tables}
    (h : (do unique columns clash; pure t : Except DbError Tables) = .ok t') : clash = false ∧ t' = t := by
  obtain ⟨_, hu, ht⟩ := bind_eq_ok.mp h
  exact ⟨unique_ok.mp hu, (Except.ok.inj ht).symm⟩

section Frames

variable {s : Statement} {a : Ambient} {t t' : Tables}

theorem run_sameShelf (hs : aboutShelf s = false) (h : s.run a t = .ok t') : SameShelf t t' := by
  replace h := (Statement.run_ok.mp h).2
  cases s with
  | backfillContext contextId definitionHash name namespaceName =>
    obtain ⟨-, rfl⟩ := bind_unique_ok h
    exact ⟨rfl, rfl, rfl⟩
  | insertContext v =>
    obtain ⟨_, -, h⟩ := bind_eq_ok.mp h
    obtain ⟨_, -, h⟩ := bind_eq_ok.mp h
    obtain ⟨-, rfl⟩ := bind_unique_ok h
    exact ⟨rfl, rfl, rfl⟩
  | updateContext v =>
    obtain ⟨_, -, h⟩ := bind_eq_ok.mp h
    cases h
    exact ⟨rfl, rfl, rfl⟩
  | insertProvider v =>
    obtain ⟨-, rfl⟩ := bind_unique_ok h
    exact ⟨rfl, rfl, rfl⟩
  | insertIdentityMap v =>
    obtain ⟨-, rfl⟩ := bind_unique_ok h
    exact ⟨rfl, rfl, rfl⟩
  | _ => first | (cases h; exact ⟨rfl, rfl, rfl⟩) | cases hs

end Frames

variable {P : Packages}

/-- The calls of the repository that write, by one caller at a time. -/
inductive Call (P : Packages) where
  | promote (p : Promotion P)
  | prune (entry : ContextCatalogEntry P) (cutoff : Option Datetime)
  | save (entry : ContextCatalogEntry P) (rawDdl : Option String)
  | drop (entry : ContextCatalogEntry P)
  | record (contextId : String) (version : Int) (executedAt : Datetime)

namespace Call

def program : Call P → DbProg Unit
  | .promote p => promoteSnapshot p
  | .prune entry cutoff => pruneHistory entry cutoff
  | .save entry rawDdl => saveContext entry rawDdl
  | .drop entry => dropContext entry
  | .record contextId version executedAt => recordExecution contextId version executedAt

def contextId : Call P → String
  | .promote p => p.entry.contextId
  | .prune entry _ | .save entry _ | .drop entry => entry.contextId
  | .record contextId _ _ => contextId

/-- The statement with which `save_context` writes an entry. -/
def saveStatement (entry : ContextCatalogEntry P) (rawDdl : Option String) (t : Tables) : Statement :=
  if t.contexts.rows.any (atVersion entry.contextId entry.version) then
    .updateContext (entry.values rawDdl)
  else .insertContext (entry.values rawDdl)

theorem saveStatement_notShelf (entry : ContextCatalogEntry P) (rawDdl : Option String)
    (t : Tables) : aboutShelf (saveStatement entry rawDdl t) = false := by
  rw [saveStatement]
  split <;> rfl

theorem saveStatement_integers (entry : ContextCatalogEntry P) (rawDdl : Option String) (t : Tables) :
    (saveStatement entry rawDdl t).integers = integers (entry.values rawDdl) := by
  rw [saveStatement]
  split <;> rfl

theorem version_bound {entry : ContextCatalogEntry P} {rawDdl : Option String} {a : Ambient} {t t' : Tables}
    (h : (saveStatement entry rawDdl t).run a t = .ok t') : bindIntegers [entry.version] = .ok () := by
  refine bindIntegers_ok.mpr (List.forall_mem_singleton.mpr ?_)
  exact (Statement.run_ok.mp h).1 _ (saveStatement_integers entry rawDdl t ▸ List.mem_cons_self ..)

def Effect (call : Call P) (t t' : Tables) : Prop :=
  match call with
  | .promote p => Applies (M := catalog) p.statements t t'
  | .prune entry cutoff =>
    match anchor t entry.contextId (iso cutoff) with
    | none => t' = t
    | some version => Applies (M := catalog) (pruneStatements entry.contextId version cutoff) t t'
  | .save entry rawDdl => ∃ a, (saveStatement entry rawDdl t).run a t = .ok t'
  | .drop entry => ∃ a now, (Statement.dropContext (iso (some now)) entry.contextId).run a t = .ok t'
  | .record contextId version executedAt =>
    ∃ a, (Statement.recordExecution (iso (some executedAt)) contextId version).run a t = .ok t'

/-- How a call returns. A pruning without an anchor leaves a transaction that is open. -/
def Returns (call : Call P) (c c' : Connection catalog) : Prop :=
  (call.Effect c.pending c'.committed ∧ c'.transaction = none) ∨
    (call.Effect c.committed c.committed ∨ c.transaction ≠ none) ∧
      c'.committed = c.committed ∧ c'.transaction = c.transaction

/-- How a call raises: what it was writing is taken back or left open. -/
def Raises (c c' : Connection catalog) : Prop :=
  c'.committed = c.committed ∧
    (c'.transaction = none ∨ c'.pending = c.pending ∨
      ∃ s a, aboutShelf s = false ∧ Statement.run s a c.pending = .ok c'.pending)

section Keeps

variable {I : Connection catalog → Prop} {Q : Except DbError Unit → Connection catalog → Prop}
  {c : Connection catalog}

theorem write_keeps {call : Call P} {s : Statement} (hs : aboutShelf s = false)
    (heffect : ∀ a t', s.run a c.pending = .ok t' → call.Effect c.pending t')
    (hI : ∀ c', c'.committed = c.committed → I c')
    (hok : ∀ c', call.Returns c c' → Q (.ok ()) c')
    (herr : ∀ e c', Raises c c' → Q (.error e) c') :
    Keeps (Answers catalog) Eq I Q (do let _ ← execute (M := catalog) s; commit) c := by
  apply write_alone hI
  · rintro a t c' ht rfl hnone
    exact hok c' (.inl ⟨heffect a _ ht, hnone⟩)
  · intro e c' hc' hp
    refine herr e c' ⟨hc', .inr (hp.imp id ?_)⟩
    rintro ⟨a, ha⟩
    exact ⟨s, a, hs, ha⟩

theorem program_keeps (call : Call P) (hI : ∀ c', c'.committed = c.committed → I c')
    (hok : ∀ c', call.Returns c c' → Q (.ok ()) c')
    (herr : ∀ e c', Raises c c' → Q (.error e) c') :
    Keeps (Answers catalog) Eq I Q call.program c := by
  have hraise : ∀ e, Q (.error e) c.advance := fun e => herr e _ ⟨rfl, .inr (.inl rfl)⟩
  cases call with
  | promote p =>
    apply immediate_alone hI
    · intro c' hnone hnone' hs
      rw [← Connection.pending_of_none hnone] at hs
      exact hok c' (.inl ⟨hs, hnone'⟩)
    · exact fun e c' hnone hc' => herr e c' ⟨hc', .inl hnone⟩
  | prune entry cutoff =>
    refine .bind (select_alone (hI c rfl) ?_ hraise)
    dsimp only
    cases ha : anchor c.pending entry.contextId (iso cutoff) with
    | none =>
      refine hok _ (.inr ⟨?_, rfl, rfl⟩)
      cases hnone : c.transaction with
      | none =>
        left
        rw [Connection.pending_of_none hnone] at ha
        simp only [Effect, ha]
        trivial
      | some t => exact .inr (by simp)
    | some version =>
      apply immediate_alone (c := c.advance) hI
      · intro c' hnone hnone' hs
        refine hok c' (.inl ⟨?_, hnone'⟩)
        simp only [Effect, ha]
        rwa [Connection.pending_of_none (c := c) hnone]
      · exact fun e c' hnone hc' => herr e c' ⟨hc', .inl hnone⟩
  | save entry rawDdl =>
    refine .bind (.ofExcept ?_)
    cases bindIntegers [entry.version] with
    | error e => exact herr e c ⟨rfl, .inr (.inl rfl)⟩
    | ok _ =>
    refine .bind (select_alone (hI c rfl) ?_ hraise)
    apply write_keeps (c := c.advance) (saveStatement_notShelf entry rawDdl _) _ hI hok herr
    exact fun a t' h => ⟨a, h⟩
  | drop entry =>
    refine .bind (sense_alone (hI c rfl) ?_)
    intro ambient
    apply write_keeps (c := c.advance) rfl _ hI hok herr
    exact fun a t' h => ⟨a, ambient.now, h⟩
  | record contextId version executedAt =>
    apply write_keeps rfl _ hI hok herr
    exact fun a t' h => ⟨a, h⟩

end Keeps

end Call

/-- A call in a run: how it ended, or that the process was stopped while it ran. -/
abbrev Entry (P : Packages) := Call P × Option (Except DbError Unit)

/-- The runs of one caller after another, in which any statement may fail and the
process may stop anywhere. -/
inductive Reaches (c₀ : Connection catalog) : List (Entry P) → Connection catalog → Prop
  | start : Reaches c₀ [] c₀
  | call {h : List (Entry P)} {c c' : Connection catalog} {call : Call P} {out : Except DbError Unit}
      (hr : Reaches c₀ h c) (hc : Runs (Answers catalog) Eq call.program c out c') :
      Reaches c₀ (h ++ [(call, some out)]) c'
  | stop {h : List (Entry P)} {c c' : Connection catalog} {call : Call P} (hr : Reaches c₀ h c)
      (hc : Visits (Answers catalog) Eq call.program c c') :
      Reaches c₀ (h ++ [(call, none)]) c'.reopen

section Sample

def sampleSha256 (b : Bytes) : String :=
  if b = [] then "e3b0c44298fc1c149afbf4c8996fb92427ae41e4649b934ca495991b7852b855"
  else if b = [1] then "4bf5122f344554c53bde2ebb8cd2b7e3d1600ad631c385a5d7cce23c7785459a"
  else if b = [2] then "dbc1b4c900ffe48d575b5da5c638040125f65db0fe3e24494b76ea986457d986"
  else ""

def samplePackages : Packages where
  floatText := ⟨fun _ => "0.0", fun _ => 0⟩
  sha256 := sampleSha256
  uuid5 _ := ⟨0⟩
  encodeScores _ := []
  decodeScores _ := .ok ∅
  EntityKeyType := Unit
  keyTypeValue _ := "UNKNOWN"
  keyTypeOf s := if s = "UNKNOWN" then some () else none
  keyTypeUnknown := ()
  MaterializationSettings := Unit
  asdict _ := []
  settingsOf _ := .ok ()

instance neZero_days : NeZero 28 := ⟨by decide⟩

def sampleDay (day : Fin 28) : Datetime where
  fields := ⟨2024, 1, day + 1, 0, 0, 0, 0, some 0⟩
  valid := by
    revert day
    decide

def sampleEntry (contextId name : String) (version : Int) : ContextCatalogEntry samplePackages where
  name
  namespaceName := "default"
  contextId
  version
  definitionHash := some "hash"
  entityKeyName := some "txn_id"
  entityKeyType := ()
  hasScore := false
  isTemporal := false
  lifecycleState := "draft"
  materialization := ()
  currentSnapshotVersion := none
  lastRefreshedAt := some (sampleDay 1)
  dataAsOf := some (sampleDay 1)
  description := none
  tags := .arr []
  dependencies := .arr []
  definitionSql := some "SELECT txn_id FROM txns"
  composition := none
  scoreExpression := none
  temporalColumn := none
  temporalGranularity := none
  sourceKind := "native"
  historyAvailableFrom := none
  lastRefreshError := none

def samplePromotion (contextId : String) (version : Int) (day : Fin 28) (payload : Bytes) :
    Promotion samplePackages where
  entry := sampleEntry contextId "name" 1
  snapshot := {
    version
    storageKind := some "set"
    memberCount := some 1
    computedAt := some (sampleDay day)
    dataAsOf := some (sampleDay day)
    validFrom := some (sampleDay day)
    definitionHash := some "hash"
    sourceWatermark := none }
  membershipPayload := payload
  scores := ∅
  historyEvents := []

/-- A newly migrated database at noon, so to speak: its clock stands still. -/
def sampleConnection (t : Tables) : Connection catalog where
  committed := t
  transaction := none
  ambient n := ⟨sampleDay 9, ⟨Fin.ofNat _ n⟩⟩
  tick := 0

/-- The connection after calls in which nothing fails but what the tables refuse. -/
def runCalls (c : Connection catalog) : List (Call P) → Connection catalog
  | [] => c
  | call :: calls => runCalls ((Connection.handler catalog).exec call.program c).2 calls

/-- The run of `runCalls`, with how each call ended. -/
def outcomes (c : Connection catalog) : List (Call P) → List (Entry P)
  | [] => []
  | call :: calls =>
    (call, some ((Connection.handler catalog).exec call.program c).1) ::
      outcomes ((Connection.handler catalog).exec call.program c).2 calls

theorem outcomes_calls (c : Connection catalog) (calls : List (Call P)) :
    (outcomes c calls).map Prod.fst = calls := by
  induction calls generalizing c with
  | nil => rfl
  | cons call calls ih => rw [outcomes, List.map_cons, ih]

theorem runCalls_reaches {c₀ c : Connection catalog} {h : List (Entry P)} (hr : Reaches c₀ h c)
    (calls : List (Call P)) : Reaches c₀ (h ++ outcomes c calls) (runCalls c calls) := by
  induction calls generalizing h c with
  | nil =>
    rw [outcomes, List.append_nil]
    exact hr
  | cons call calls ih =>
    have hrun := Runs.of_exec (H := Connection.handler catalog) (R := Eq) (fun _ => rfl)
      (rfl : (Connection.handler catalog).exec call.program c = (_, _))
    have hc := ih (hr.call hrun)
    rwa [List.append_assoc] at hc

end Sample

end ContextqlServer.Db.Calls
