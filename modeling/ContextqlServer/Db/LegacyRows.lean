import ContextqlServer.Db.Backfill
import Mathlib.Data.List.MinMax

namespace ContextqlServer.Db.LegacyRows

open ContextqlServer.Lib.Effect ContextqlServer.Lib.Sql
open ContextqlServer.Db.Schema ContextqlServer.Db.Statements ContextqlServer.Db.ContextCatalog
open ContextqlServer.Db.ContextCatalog.SQLiteContextRuntimeRepository
open ContextqlServer.Db.Calls ContextqlServer.Db.Codec ContextqlServer.Db.ContextRows ContextqlServer.Db.Backfill

variable {P : Packages}

/-- A row of `contexts` under the schema of version 2. -/
structure LegacyRow where
  id : Nat
  name : String
  namespaceName : String
  version : Int
  definitionText : String
  entityKey : String
  hasScore : Int
  scoreColumn : Option String
  description : Option String
  tags : Option String
  classification : Option String
  lifecycleState : String
  dependencyRefs : Option String
  providerRefs : Option String
  createdAt : String
  updatedAt : String
  lastValidatedAt : Option String
  lastExecutedAt : Option String
  freshnessMetadata : Option String

/-- The row after migration 003: the columns that it adds are NULL. -/
def LegacyRow.migrated (r : LegacyRow) : ContextRow :=
  { r with
    entityKey := some r.entityKey, entityKeyType := none, contextId := none, definitionHash := none
    rawDdl := none, materializationJson := none, currentSnapshotVersion := none
    lastRefreshedAt := none, dataAsOf := none, lastRefreshError := none, historyAvailableFrom := none
    droppedAt := none, definitionSql := none, scoreExpression := none, compositionJson := none
    temporalColumn := none, temporalGranularity := none, sourceKind := "native" }

section Backfill

def tagged (ids hashes : String × String → Option String) (r : ContextRow) : ContextRow :=
  { r with contextId := ids (nameOf r), definitionHash := hashes (nameOf r) }

theorem assigned_eq_tagged {given : String × String → Option (String × String)} {r : ContextRow}
    (hid : r.contextId = none) (hhash : r.definitionHash = none) :
    assigned given r = tagged (fun g => (given g).map Prod.fst) (fun g => (given g).map Prod.snd) r := by
  cases r with
  | mk values =>
    cases values
    cases hid
    cases hhash
    unfold assigned tagged
    dsimp only
    split <;> simp [*]

theorem backfilled {choice : List ContextRow → Nat} {rs : List ContextRow} {c c' : Connection catalog}
    (hrs : rows c.pending = rs) (hnone : ∀ r ∈ rs, r.contextId = none ∧ r.definitionHash = none)
    (h : (Connection.handler catalog).exec (backfillV2Rows P choice) c = (.ok (), c')) :
    ∃ ids hashes, rows c'.pending = rs.map (tagged ids hashes) ∧ ∀ r ∈ rs, (ids (nameOf r)).isSome := by
  subst hrs
  obtain ⟨given, index, hrows, hdraws⟩ := backfillV2Rows_assigns h
  refine ⟨fun g => (given g).map Prod.fst, fun g => (given g).map Prod.snd, ?_, ?_⟩
  · rw [hrows]
    apply List.map_congr_left
    exact fun r hr => assigned_eq_tagged (hnone r hr).1 (hnone r hr).2
  · intro r hr
    have hgiven := (hdraws.drawn _ (mem_unnamed.mpr ⟨r, hr, (hnone r hr).1, rfl⟩)).2.2
    exact congrArg (fun x => (x.map Prod.fst).isSome) hgiven

end Backfill

section Survival

/-- What a version of a context holds since the schema of version 2. -/
structure SameColumns (r s : ContextRow) : Prop where
  definitionText : s.definitionText = r.definitionText
  scoreColumn : s.scoreColumn = r.scoreColumn
  entityKey : s.entityKey = r.entityKey
  description : s.description = r.description
  tags : s.tags = r.tags
  lifecycleState : s.lifecycleState = r.lifecycleState

/-- Entries are read with the definition and the score of their rows, and saving one
as it was read leaves its row as it is. -/
structure Survives (P : Packages) (c : Connection catalog) : Prop where
  read : ∀ es c₁, (Connection.handler catalog).exec (loadContexts P) c = (.ok es, c₁) → ∀ e ∈ es,
    ∀ r ∈ rows c.pending, atVersion e.contextId e.version r →
      e.definitionSql = some r.definitionText ∧ e.scoreExpression = r.scoreColumn
  written : ∀ es c₁, (Connection.handler catalog).exec (loadContexts P) c = (.ok es, c₁) → ∀ e ∈ es,
    ∀ rawDdl, ∀ r ∈ rows c.pending, atVersion e.contextId e.version r →
      ∃ s ∈ rows ((Connection.handler catalog).exec (saveContext e rawDdl) c₁).2.pending,
        atVersion e.contextId e.version s ∧ SameColumns r s

/-- The highest version of a context. -/
structure Newest (legacy : List LegacyRow) (r : LegacyRow) : Prop where
  mem : r ∈ legacy
  highest : ∀ s ∈ legacy, s.name = r.name → s.namespaceName = r.namespaceName → s.version ≤ r.version

/-- Different contexts got different ids. -/
def DistinctIds (t : Tables) : Prop :=
  ∀ r ∈ rows t, ∀ s ∈ rows t, r.contextId = s.contextId → nameOf r = nameOf s

variable {legacy : List LegacyRow} {t : Tables} {ids hashes : String × String → Option String}

theorem legible_tagged {r : ContextRow} : Legible P (tagged ids hashes r) ↔ Legible P r :=
  exists_congr fun _ => ⟨fun h => ⟨h.1, h.2, h.3, h.4, h.5, h.6, h.7⟩,
    fun h => ⟨h.1, h.2, h.3, h.4, h.5, h.6, h.7⟩⟩

theorem exists_newest (hne : legacy ≠ []) : ∃ r, Newest legacy r := by
  obtain ⟨r, hr⟩ : ∃ r, r ∈ legacy.argmax (fun r => r.version) := by
    cases h : legacy.argmax (fun r => r.version) with
    | none => exact absurd (List.argmax_eq_none.mp h) hne
    | some r => exact ⟨r, rfl⟩
  exact ⟨r, List.argmax_mem hr, fun s hs _ _ => List.le_of_mem_argmax hs hr⟩

/-- The newest legacy rows are those that `load_contexts` reads. -/
theorem isLatest_iff (ht : rows t = (legacy.map LegacyRow.migrated).map (tagged ids hashes))
    (hids : DistinctIds t) {contextId : String}
    {x : ContextRow} : IsLatest (rows t) contextId x ↔
      ∃ r, Newest legacy r ∧ x = tagged ids hashes r.migrated ∧ ids (nameOf r.migrated) = some contextId := by
  have hmem : ∀ y, y ∈ rows t ↔ ∃ r ∈ legacy, tagged ids hashes r.migrated = y := by
    intro y
    rw [ht, List.map_map]
    exact List.mem_map
  constructor
  · intro h
    obtain ⟨r, hr, rfl⟩ := (hmem x).mp h.mem
    refine ⟨r, ⟨hr, ?_⟩, rfl, h.identified⟩
    intro s hs hname hns
    have hid : ids (nameOf s.migrated) = some contextId := by
      have hsame : nameOf s.migrated = nameOf r.migrated := Prod.ext hname hns
      rw [hsame]
      exact h.identified
    exact h.highest _ ((hmem _).mpr ⟨s, hs, rfl⟩) hid rfl
  · rintro ⟨r, hr, rfl, hid⟩
    have hrow : tagged ids hashes r.migrated ∈ rows t := (hmem _).mpr ⟨r, hr.mem, rfl⟩
    refine ⟨hrow, hid, rfl, ?_⟩
    intro y hy hyid _
    obtain ⟨s, hs, rfl⟩ := (hmem y).mp hy
    have hsame := hids _ hy _ hrow (hyid.trans hid.symm)
    exact hr.highest s hs (congrArg Prod.fst hsame) (congrArg Prod.snd hsame)

/-- After migration 003 and the backfill, definitions survive exactly where no entry is
read: there is no context, or a newest row cannot be read. -/
theorem legacy_survives_iff {choice : List ContextRow → Nat} {c c' : Connection catalog}
    (hrows : rows c.pending = legacy.map LegacyRow.migrated)
    (h : (Connection.handler catalog).exec (backfillV2Rows P choice) c = (.ok (), c'))
    (hids : DistinctIds c'.pending) :
    Survives P c' ↔ legacy = [] ∨ ∃ r, Newest legacy r ∧ ¬ Legible P r.migrated := by
  obtain ⟨ids, hashes, ht, hsome⟩ := backfilled hrows (by simp [LegacyRow.migrated]) h
  have hsome : ∀ r ∈ legacy, (ids (nameOf r.migrated)).isSome :=
    fun r hr => hsome _ (List.mem_map_of_mem hr)
  have hlatest := fun contextId x => @isLatest_iff legacy c'.pending ids hashes ht hids contextId x
  constructor
  · intro hsurvives
    by_contra hnot
    rw [not_or, not_exists] at hnot
    obtain ⟨hne, hlegible⟩ := hnot
    have hread : ∀ r, Newest legacy r → Legible P (tagged ids hashes r.migrated) := fun r hr =>
      legible_tagged.mpr (not_not.mp fun hill => hlegible r ⟨hr, hill⟩)
    obtain ⟨es, hes⟩ : ∃ es, loaded P c'.pending = .ok es := by
      apply mapM_total
      rintro ⟨contextId, x⟩ hx
      obtain ⟨r, hr, rfl, -⟩ := (hlatest contextId x).mp (mem_latestRows.mp hx)
      exact (hread r hr).entry contextId
    obtain ⟨r, hr⟩ := exists_newest hne
    obtain ⟨contextId, hid⟩ := Option.isSome_iff_exists.mp (hsome r hr.mem)
    have hl := (hlatest contextId _).mpr ⟨r, hr, rfl, hid⟩
    obtain ⟨e, he⟩ := (hread r hr).entry contextId
    have hcopied := copied he
    have hcid : e.contextId = contextId := congrArg ContextCatalogEntry.contextId hcopied
    have hmem : e ∈ es := (mem_loaded hes).mpr ⟨_, hcid ▸ hl, hcid ▸ he⟩
    have hat : atVersion e.contextId e.version (tagged ids hashes r.migrated) := by
      rw [atVersion_iff, hcid]
      exact ⟨hl.identified, (congrArg ContextCatalogEntry.version hcopied).symm⟩
    have hexec := exec_loadContexts P c'
    rw [hes] at hexec
    have hsql := (hsurvives.read es _ hexec e hmem _ hl.mem hat).1
    rw [hcopied] at hsql
    cases hsql
  · intro hempty
    have hnothing : ∀ es c₁, (Connection.handler catalog).exec (loadContexts P) c' = (.ok es, c₁) → ∀ e, e ∉ es := by
      intro es c₁ hexec e he
      rw [exec_loadContexts] at hexec
      have hes : loaded P c'.pending = .ok es := congrArg Prod.fst hexec
      obtain rfl | ⟨r, hr, hill⟩ := hempty
      · obtain ⟨x, hl, -⟩ := (mem_loaded hes).mp he
        obtain ⟨r, hr, -⟩ := (hlatest _ x).mp hl
        exact List.not_mem_nil hr.mem
      · obtain ⟨contextId, hid⟩ := Option.isSome_iff_exists.mp (hsome r hr.mem)
        have hl := (hlatest contextId _).mpr ⟨r, hr, rfl, hid⟩
        obtain ⟨e', he'⟩ := ok_of_mapM hes (mem_latestRows.mpr hl)
        exact hill (legible_tagged.mp ⟨e', (entryFromRow_ok.mp he').1⟩)
    exact ⟨fun es c₁ hexec e he => absurd he (hnothing es c₁ hexec e),
      fun es c₁ hexec e he => absurd he (hnothing es c₁ hexec e)⟩

end Survival

section Sample

def sampleLegacy : LegacyRow where
  id := 1
  name := "large"
  namespaceName := "default"
  version := 1
  definitionText := "SELECT txn_id, amount FROM txns"
  entityKey := "txn_id"
  hasScore := 1
  scoreColumn := some "amount"
  description := none
  tags := some "[]"
  classification := some "internal"
  lifecycleState := "active"
  dependencyRefs := none
  providerRefs := none
  createdAt := "2024-01-01 00:00:00"
  updatedAt := "2024-01-01 00:00:00"
  lastValidatedAt := none
  lastExecutedAt := none
  freshnessMetadata := none

/-- A migrated database with the given legacy rows, after the repository was constructed. -/
def constructed (legacy : List LegacyRow) : Connection catalog :=
  ((Connection.handler catalog).exec (backfillV2Rows samplePackages (fun _ => 0))
    (sampleConnection { Tables.empty with contexts := ⟨legacy.map LegacyRow.migrated, legacy.length⟩ })).2

def garbled : LegacyRow := { sampleLegacy with tags := some "[" }

theorem constructed_ok (r : LegacyRow) (hr : r = sampleLegacy ∨ r = garbled) :
    (Connection.handler catalog).exec (backfillV2Rows samplePackages (fun _ => 0))
      (sampleConnection { Tables.empty with contexts := ⟨[r].map LegacyRow.migrated, 1⟩ }) =
        (.ok (), constructed [r]) ∧ DistinctIds (constructed [r]).pending := by
  obtain rfl | rfl := hr
  all_goals
    refine ⟨rfl, ?_⟩
    intro x hx y hy _
    rw [List.mem_singleton.mp hx, List.mem_singleton.mp hy]

theorem garbled_illegible : ¬ Legible samplePackages garbled.migrated := by
  rintro ⟨e, he⟩
  cases he.tags

theorem legacy_survives_iff_sample : (Survives samplePackages (constructed [sampleLegacy]) ↔
      [sampleLegacy] = [] ∨ ∃ r, Newest [sampleLegacy] r ∧ ¬ Legible samplePackages r.migrated) ∧
    Survives samplePackages (constructed [garbled]) := by
  obtain ⟨hsample, hids⟩ := constructed_ok sampleLegacy (.inl rfl)
  obtain ⟨hgarbled, hids'⟩ := constructed_ok garbled (.inr rfl)
  have hnewest : Newest [garbled] garbled := ⟨List.mem_singleton_self _, fun s hs _ _ => by
    rw [List.mem_singleton.mp hs]⟩
  exact ⟨legacy_survives_iff rfl hsample hids,
    (legacy_survives_iff rfl hgarbled hids').mpr (.inr ⟨garbled, hnewest, garbled_illegible⟩)⟩

/-- What `load_contexts` reads of the legacy row, and its entry saved as it was read. -/
def reread : List (Option String × Option String) × List (String × Option String) :=
  let read := (Connection.handler catalog).exec (loadContexts samplePackages) (constructed [sampleLegacy])
  match read.1 with
  | .ok (e :: _) =>
    ([(e.definitionSql, e.scoreExpression)],
      (rows ((Connection.handler catalog).exec (saveContext e none) read.2).2.pending).map
        (fun r => (r.definitionText, r.scoreColumn)))
  | _ => ([], [])

/-- The definition and the score of a legacy row are neither read nor kept. -/
theorem erased_definition : reread = ([(none, none)], [("", none)]) ∧
    ¬ Survives samplePackages (constructed [sampleLegacy]) := by
  refine ⟨rfl, ?_⟩
  intro h
  have hread := (h.read _ _ rfl _ (List.mem_cons_self ..) _ (List.mem_cons_self ..) rfl).1
  cases hread

end Sample

end ContextqlServer.Db.LegacyRows
