import ContextqlServer.Db.Calls
import ContextqlServer.Lib.JsonRead

namespace ContextqlServer.Db.Codec

open ContextqlServer.Lib.Effect ContextqlServer.Lib.Isoformat ContextqlServer.Lib.JsonRead
open ContextqlServer.Lib.JsonText
open ContextqlServer.Db.Schema ContextqlServer.Db.ContextCatalog

variable {P : Packages}

section Datetimes

/-- A datetime with a UTC offset. -/
def Aware (d : Datetime) : Prop := d.fields.utcoffset ≠ none

instance (d : Datetime) : Decidable (Aware d) := inferInstanceAs (Decidable (_ ≠ _))

@[simp] theorem assumeUtc_aware {d : Datetime} (h : Aware d) : assumeUtc d = d := if_neg h

theorem replaceZ_eq {s : String} (h : 'Z' ∉ s.toList) : replaceZ s = s := by
  have hmap : s.toList.flatMap (fun c => if c = 'Z' then "+00:00".toList else [c]) = s.toList := by
    generalize s.toList = cs at h
    induction cs with
    | nil => rfl
    | cons c cs ih =>
      rw [List.mem_cons, not_or] at h
      rw [List.flatMap_cons, if_neg (Ne.symm h.1), ih h.2, List.singleton_append]
  rw [replaceZ, hmap, String.ofList_toList]

theorem isoformat_ne_empty (d : Datetime) : d.isoformat ≠ "" := by
  intro h
  have hlen := congrArg (fun s => s.toList.length) h
  simp [Datetime.isoformat] at hlen

/-- Reading back an instant that `_iso` wrote. -/
theorem datetime_iso (d : Option Datetime) : datetime (iso d) = .ok (d.map assumeUtc) := by
  cases d with
  | none => rfl
  | some d =>
    have hz : 'Z' ∉ d.isoformat.toList := by
      intro hmem
      exact absurd (isoformat_chars hmem) (by decide)
    rw [iso, Option.map_some, datetime, replaceZ_eq hz, fromisoformat_isoformat]
    · rfl
    · exact isoformat_ne_empty d

theorem datetime_iso_aware {d : Option Datetime} (h : ∀ x, d = some x → Aware x) :
    datetime (iso d) = .ok d := by
  rw [datetime_iso]
  cases d with
  | none => rfl
  | some d => rw [Option.map_some, assumeUtc_aware (h d rfl)]

end Datetimes

theorem orElse_some {s : String} (h : s ≠ "") (default : String) : orElse (some s) default = s := by
  rw [orElse]
  exact h

theorem jsonOf_dumps {j : Json} (h : Plain P.floatText j) :
    jsonOf P (dumps P.floatText j) = .ok j := by
  rw [jsonOf, loads_dumps h]
  rfl

theorem jsonOf_column {j : Json} (h : Plain P.floatText j) (default : String) :
    jsonOf P (orElse (some (dumps P.floatText j)) default) = .ok j := by
  rw [orElse_some (dumps_ne_empty h), jsonOf_dumps h]

theorem decode_encode (c : ContextComposition) : ContextComposition.decode c.encode = .ok c := by
  have hitems : (c.items.map (fun i => Json.obj [("name", i.name), ("weight", i.weight)])).mapM
      (fun i => do
        pure (⟨← item "name" i, ← member "weight" i⟩ : ContextCompositionItem)) =
      (.ok c.items : Except DbError _) := by
    induction c.items with
    | nil => rfl
    | cons i is ih =>
      rw [List.map_cons, List.mapM_cons, ih]
      rfl
  obtain ⟨strategy, items⟩ := c
  have h := congrArg (fun x => do pure (⟨strategy, ← x⟩ : ContextComposition)) hitems
  exact h

/-- What the code relies on of the packages: an enumeration is found by its value. -/
structure Lawful (P : Packages) : Prop where
  keyTypeOf : ∀ k, P.keyTypeOf (P.keyTypeValue k) = some k
  keyTypeValue : ∀ k, P.keyTypeValue k ≠ ""

/-- The values of an entry that are stored as JSON read back as they are. -/
structure JsonPlain (e : ContextCatalogEntry P) : Prop where
  tags : Plain P.floatText e.tags
  dependencies : Plain P.floatText e.dependencies
  composition : ∀ c, e.composition = some c → Plain P.floatText c.encode
  materialization : Plain P.floatText (.obj (P.asdict e.materialization))
  rebuilt : P.settingsOf (P.asdict e.materialization) = .ok e.materialization

structure WellFormed (e : ContextCatalogEntry P) : Prop extends JsonPlain e where
  namespaceName : e.namespaceName ≠ ""
  sourceKind : e.sourceKind ≠ ""
  isTemporal : e.isTemporal = true ↔ orElse e.temporalColumn "" ≠ ""
  lastRefreshedAt : ∀ d, e.lastRefreshedAt = some d → Aware d
  dataAsOf : ∀ d, e.dataAsOf = some d → Aware d
  historyAvailableFrom : ∀ d, e.historyAvailableFrom = some d → Aware d

def Stores (r : ContextRow) (e : ContextCatalogEntry P) : Prop :=
  ∃ rawDdl, r.toContextValues = e.values rawDdl

section Decode

variable {contextId : String} {r : ContextRow}

/-- The composition column as `_entry_from_row` reads it. -/
def compositionOf (P : Packages) (text : Option String) : Except DbError (Option ContextComposition) :=
  match text with
  | none | some "" => pure none
  | some text => do
    let raw ← jsonOf P text
    pure (some (← ContextComposition.decode raw))

theorem compositionOf_values {c : Option ContextComposition}
    (h : ∀ x, c = some x → Plain P.floatText x.encode) :
    compositionOf P (c.map (fun c => dumps P.floatText c.encode)) = .ok c := by
  cases c with
  | none => rfl
  | some c =>
    have hc := h c rfl
    rw [Option.map_some, compositionOf, jsonOf_dumps hc]
    · have hd := decode_encode c
      change (do pure (some (← ContextComposition.decode c.encode))) = _
      rw [hd]
      rfl
    · exact dumps_ne_empty hc

def rowEntry (contextId : String) (r : ContextRow) (materialization : P.MaterializationSettings)
    (composition : Option ContextComposition) (lastRefreshedAt dataAsOf historyAvailableFrom : Option Datetime)
    (tags dependencies : Json) : ContextCatalogEntry P where
  name := r.name
  namespaceName := orElse (some r.namespaceName) "default"
  contextId
  version := r.version
  definitionHash := r.definitionHash
  entityKeyName := r.entityKey
  entityKeyType := (P.keyTypeOf (orElse r.entityKeyType "UNKNOWN")).getD P.keyTypeUnknown
  hasScore := r.hasScore ≠ 0
  isTemporal := orElse r.temporalColumn "" ≠ ""
  lifecycleState := r.lifecycleState
  materialization
  currentSnapshotVersion := r.currentSnapshotVersion
  lastRefreshedAt
  dataAsOf
  description := r.description
  tags
  dependencies
  definitionSql := r.definitionSql
  composition
  scoreExpression := r.scoreExpression
  temporalColumn := r.temporalColumn
  temporalGranularity := r.temporalGranularity
  sourceKind := orElse (some r.sourceKind) "native"
  historyAvailableFrom
  lastRefreshError := r.lastRefreshError

theorem entryFromRow_eq : entryFromRow P contextId r = (do
    let data ← jsonOf P (orElse r.materializationJson "\x7b\x7d")
    let composition ← compositionOf P r.compositionJson
    let materialization ← settings P data
    let lastRefreshedAt ← datetime r.lastRefreshedAt
    let dataAsOf ← datetime r.dataAsOf
    let tags ← jsonOf P (orElse r.tags "[]")
    let dependencies ← jsonOf P (orElse r.dependencyRefs "[]")
    let historyAvailableFrom ← datetime r.historyAvailableFrom
    pure (rowEntry contextId r materialization composition lastRefreshedAt dataAsOf historyAvailableFrom
      tags dependencies)) := by
  rw [entryFromRow]
  congr 1
  funext data
  split
  · rename_i heq
    rw [heq]
    rfl
  · rename_i heq
    rw [heq]
    rfl
  · rename_i text hne heq
    rw [heq, compositionOf]
    · cases jsonOf P text with
      | error e => rfl
      | ok raw =>
        simp only [bind, Except.bind]
        cases ContextComposition.decode raw <;> rfl
    · exact hne

/-- What has to be read of a row, and what it gives. -/
structure Parsed (P : Packages) (r : ContextRow) (e : ContextCatalogEntry P) : Prop where
  materialization : (jsonOf P (orElse r.materializationJson "\x7b\x7d") >>= settings P) =
    .ok e.materialization
  composition : compositionOf P r.compositionJson = .ok e.composition
  lastRefreshedAt : datetime r.lastRefreshedAt = .ok e.lastRefreshedAt
  dataAsOf : datetime r.dataAsOf = .ok e.dataAsOf
  tags : jsonOf P (orElse r.tags "[]") = .ok e.tags
  dependencies : jsonOf P (orElse r.dependencyRefs "[]") = .ok e.dependencies
  historyAvailableFrom : datetime r.historyAvailableFrom = .ok e.historyAvailableFrom

theorem entryFromRow_ok {e : ContextCatalogEntry P} :
    entryFromRow P contextId r = .ok e ↔
      Parsed P r e ∧ e = rowEntry contextId r e.materialization e.composition e.lastRefreshedAt
        e.dataAsOf e.historyAvailableFrom e.tags e.dependencies := by
  rw [entryFromRow_eq]
  constructor
  · intro h
    obtain ⟨data, hdata, h⟩ := bind_eq_ok.mp h
    obtain ⟨composition, hcomposition, h⟩ := bind_eq_ok.mp h
    obtain ⟨materialization, hmaterialization, h⟩ := bind_eq_ok.mp h
    obtain ⟨lastRefreshedAt, hrefreshed, h⟩ := bind_eq_ok.mp h
    obtain ⟨dataAsOf, hdataAsOf, h⟩ := bind_eq_ok.mp h
    obtain ⟨tags, htags, h⟩ := bind_eq_ok.mp h
    obtain ⟨dependencies, hdependencies, h⟩ := bind_eq_ok.mp h
    obtain ⟨historyAvailableFrom, hhistory, h⟩ := bind_eq_ok.mp h
    obtain rfl := Except.ok.inj h
    exact ⟨⟨bind_eq_ok.mpr ⟨data, hdata, hmaterialization⟩, hcomposition, hrefreshed, hdataAsOf, htags,
      hdependencies, hhistory⟩, rfl⟩
  · rintro ⟨⟨hmaterialization, hcomposition, hrefreshed, hdataAsOf, htags, hdependencies, hhistory⟩, he⟩
    obtain ⟨data, hdata, hmaterialization⟩ := bind_eq_ok.mp hmaterialization
    rw [hdata, hcomposition, hrefreshed, hdataAsOf, htags, hdependencies, hhistory]
    change (do
      let materialization ← settings P data
      pure (rowEntry contextId r materialization e.composition e.lastRefreshedAt e.dataAsOf
        e.historyAvailableFrom e.tags e.dependencies)) = _
    rw [hmaterialization]
    exact congrArg Except.ok he.symm

/-- A row that can be read. -/
def Legible (P : Packages) (r : ContextRow) : Prop := ∃ e, Parsed P r e

theorem Legible.entry (h : Legible P r) (contextId : String) :
    ∃ e, entryFromRow P contextId r = .ok e := by
  obtain ⟨e, he⟩ := h
  refine ⟨rowEntry contextId r e.materialization e.composition e.lastRefreshedAt e.dataAsOf
    e.historyAvailableFrom e.tags e.dependencies, entryFromRow_ok.mpr ⟨?_, rfl⟩⟩
  exact ⟨he.1, he.2, he.3, he.4, he.5, he.6, he.7⟩

end Decode

section Encode

variable {r : ContextRow} {e : ContextCatalogEntry P}

/-- An entry, read back from its row, with its datetimes in UTC where they are naive. -/
theorem Stores.parsed (h : Stores r e) (he : JsonPlain e) :
    Parsed P r { e with
      lastRefreshedAt := e.lastRefreshedAt.map assumeUtc
      dataAsOf := e.dataAsOf.map assumeUtc
      historyAvailableFrom := e.historyAvailableFrom.map assumeUtc } := by
  obtain ⟨rawDdl, h⟩ := h
  refine ⟨?_, ?_, ?_, ?_, ?_, ?_, ?_⟩
  · rw [h]
    exact bind_eq_ok.mpr ⟨_, jsonOf_column he.materialization _, he.rebuilt⟩
  · rw [h]
    exact compositionOf_values he.composition
  · rw [h]
    exact datetime_iso _
  · rw [h]
    exact datetime_iso _
  · rw [h]
    exact jsonOf_column he.tags _
  · rw [h]
    exact jsonOf_column he.dependencies _
  · rw [h]
    exact datetime_iso _

theorem Stores.legible (h : Stores r e) (he : JsonPlain e) : Legible P r := ⟨_, h.parsed he⟩

theorem Stores.entryFromRow (hP : Lawful P) (h : Stores r e) (he : WellFormed e) :
    ContextCatalog.entryFromRow P e.contextId r = .ok e := by
  have haware : ∀ d : Option Datetime, (∀ x, d = some x → Aware x) → d.map assumeUtc = d := by
    intro d hd
    cases d with
    | none => rfl
    | some d => rw [Option.map_some, assumeUtc_aware (hd d rfl)]
  have hparsed := h.parsed he.toJsonPlain
  rw [haware _ he.lastRefreshedAt, haware _ he.dataAsOf, haware _ he.historyAvailableFrom] at hparsed
  refine entryFromRow_ok.mpr ⟨hparsed, ?_⟩
  obtain ⟨rawDdl, h⟩ := h
  have hns := orElse_some he.namespaceName "default"
  have hkind := orElse_some he.sourceKind "native"
  have hkey := orElse_some (hP.keyTypeValue e.entityKeyType) "UNKNOWN"
  have hscore : decide ((if e.hasScore then (1 : Int) else 0) ≠ 0) = e.hasScore := by
    cases e.hasScore <;> rfl
  have htemporal : decide (orElse e.temporalColumn "" ≠ "") = e.isTemporal := by
    rw [Bool.eq_iff_iff, he.isTemporal, decide_eq_true_iff]
  simp only [rowEntry, h, ContextCatalogEntry.values, hns, hkind, hkey, hP.keyTypeOf, Option.getD_some,
    hscore, htemporal]

end Encode

end ContextqlServer.Db.Codec
