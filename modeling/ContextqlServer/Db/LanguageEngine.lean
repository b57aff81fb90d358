import ContextqlServer.Db.Lifecycle

namespace ContextqlServer.Db.LanguageEngine

open ContextqlServer.Lib.Effect ContextqlServer.Lib.JsonText ContextqlServer.Lib.Sql
open ContextqlServer.Db.Schema ContextqlServer.Db.Statements ContextqlServer.Db.Services
open ContextqlServer.Db.RestCatalog ContextqlServer.Db.Lifecycle

variable {name namespaceName : String} {t t' : Tables} {r : ContextRow}

section Rows

def isLive (name namespaceName : String) (r : ContextRow) : Bool := named name namespaceName r && r.droppedAt.isNone

theorem latestNamed_eq (t : Tables) : latestNamed t name namespaceName =
    (orderBy (fun r => OrderDual.toDual r.version) (t.contexts.rows.filter (isLive name namespaceName))).head? := rfl

theorem latestNamed_congr (h : t'.contexts.rows.filter (isLive name namespaceName) =
    t.contexts.rows.filter (isLive name namespaceName)) :
    latestNamed t' name namespaceName = latestNamed t name namespaceName := by
  rw [latestNamed_eq, latestNamed_eq, h]

theorem latestNamed_spec (h : latestNamed t name namespaceName = some r) :
    isLive name namespaceName r = true ∧
      ∀ x ∈ t.contexts.rows, isLive name namespaceName x = true → x.version ≤ r.version := by
  rw [latestNamed_eq] at h
  obtain ⟨hr, hle⟩ := Lib.Ordering.head?_least _ h
  exact ⟨(List.mem_filter.mp hr).2, fun x hx hlive => hle x (List.mem_filter.mpr ⟨hx, hlive⟩)⟩

theorem latestNamed_insert {row : Nat → ContextRow} (hcontexts : t'.contexts = t.contexts.insert row)
    (hlive : ∀ id, isLive name namespaceName (row id) = true)
    (hnewer : ∀ id, ∀ x ∈ t.contexts.rows, isLive name namespaceName x = true → x.version < (row id).version) :
    latestNamed t' name namespaceName = some (row (t.contexts.sequence + 1)) := by
  have hrows : t'.contexts.rows.filter (isLive name namespaceName) =
      t.contexts.rows.filter (isLive name namespaceName) ++ [row (t.contexts.sequence + 1)] := by
    rw [hcontexts, Table.insert, List.filter_append, List.filter_singleton, hlive]
    rfl
  cases hlatest : latestNamed t' name namespaceName with
  | none =>
    rw [latestNamed_eq, hrows] at hlatest
    exact absurd ((Lib.Ordering.head?_eq_none _).mp hlatest) (by simp)
  | some x =>
    rw [latestNamed_eq, hrows] at hlatest
    obtain ⟨hx, hle⟩ := Lib.Ordering.head?_least _ hlatest
    obtain hx | hx := List.mem_append.mp hx
    · have hversion : (row (t.contexts.sequence + 1)).version ≤ x.version := hle _ (by simp)
      have hlt := hnewer (t.contexts.sequence + 1) x (List.mem_filter.mp hx).1 (List.mem_filter.mp hx).2
      exact absurd hversion (not_le.mpr hlt)
    · rw [List.mem_singleton.mp hx]

theorem latestNamed_map {g : ContextRow → ContextRow} (hrows : t'.contexts.rows = t.contexts.rows.map g)
    (hlive : ∀ x, isLive name namespaceName (g x) = isLive name namespaceName x)
    (hversion : ∀ x, (g x).version = x.version) :
    latestNamed t' name namespaceName = (latestNamed t name namespaceName).map g := by
  have hfilter : t'.contexts.rows.filter (isLive name namespaceName) =
      (t.contexts.rows.filter (isLive name namespaceName)).map g := by
    rw [hrows, List.filter_map]
    congr 2
    funext x
    exact hlive x
  rw [latestNamed_eq, latestNamed_eq, hfilter, orderBy, ← List.map_insertionSort (r := fun a b : ContextRow =>
    OrderDual.toDual a.version ≤ OrderDual.toDual b.version), List.head?_map]
  · rfl
  · intro a _ b _
    rw [hversion, hversion]

theorem latestNamed_update {p : ContextRow → Bool} {f : ContextRow → ContextRow}
    (hcontexts : t'.contexts = t.contexts.update p f)
    (hother : ∀ x, p x = true → isLive name namespaceName x = false ∧ isLive name namespaceName (f x) = false) :
    latestNamed t' name namespaceName = latestNamed t name namespaceName := by
  apply latestNamed_congr
  rw [hcontexts, Table.update]
  induction t.contexts.rows with
  | nil => rfl
  | cons x xs ih =>
    rw [List.map_cons, List.filter_cons, List.filter_cons, ih]
    by_cases hp : p x = true
    · simp only [if_pos hp, (hother x hp).1, (hother x hp).2, Bool.false_eq_true, if_false]
    · rw [if_neg hp]

end Rows

section Engine

def tagsText : List String → String
  | [] => "[]"
  | tag :: tags => .ofList ('[' :: strText tag ++ tags.flatMap (fun t => ", ".toList ++ strText t) ++ [']'])

theorem tagsText_eq (T : FloatText) (tags : List String) : tagsText tags = dumps T (.arr (tags.map .str)) := by
  have hitems : ∀ rest : List String,
      itemsChars T (rest.map .str) = rest.flatMap (fun t => ", ".toList ++ strText t) ++ [']'] := by
    intro rest
    induction rest with
    | nil => rw [List.map_nil, itemsChars, List.flatMap_nil, List.nil_append]
    | cons tag rest ih =>
      rw [List.map_cons, itemsChars, chars, ih, List.flatMap_cons, List.append_assoc, List.append_assoc,
        List.append_assoc]
  cases tags with
  | nil => rw [dumps, List.map_nil, chars]; rfl
  | cons tag tags => rw [tagsText, dumps, List.map_cons, chars, chars, hitems, List.append_assoc]

/-- A context of version 1, in the state that `CREATE CONTEXT` leaves. -/
def created (name namespaceName entityKey : String) (scoreColumn description : Option String) (tags : List String)
    (definitionText : String) (id : Nat) : ContextRow where
  id
  name
  namespaceName
  version := 1
  definitionText := rstripSemicolons definitionText
  entityKey := some entityKey
  entityKeyType := some "INT64"
  hasScore := if scoreColumn.isSome then 1 else 0
  scoreColumn
  description
  tags := some (tagsText tags)
  lifecycleState := "active"
  dependencyRefs := none
  contextId := none
  definitionHash := none
  rawDdl := none
  materializationJson := none
  currentSnapshotVersion := none
  lastRefreshedAt := none
  dataAsOf := none
  lastRefreshError := none
  historyAvailableFrom := none
  definitionSql := some (rstripSemicolons definitionText)
  scoreExpression := scoreColumn
  compositionJson := none
  temporalColumn := none
  temporalGranularity := none
  sourceKind := "definition"
  classification := some "internal"
  providerRefs := none
  createdAt := "2024-01-01 00:00:00"
  updatedAt := "2024-01-01 00:00:00"
  lastValidatedAt := none
  lastExecutedAt := none
  freshnessMetadata := none
  droppedAt := none

/-- The property that an `ALTER` names. -/
def altered (r : ContextRow) : Ddl → ContextRow
  | .setDefinition _ text =>
    { r with definitionText := rstripSemicolons text, definitionSql := some (rstripSemicolons text) }
  | .setDescription _ description => { r with description := some description }
  | .setTags _ tags => { r with tags := some (tagsText tags) }
  | .setScore _ column => { r with hasScore := 1, scoreColumn := some column, scoreExpression := some column }
  | .dropScore _ => { r with hasScore := 0, scoreColumn := none, scoreExpression := none }
  | _ => r

def withRow (t : Tables) (row : Nat → ContextRow) : Tables := { t with contexts := t.contexts.insert row }

def withChanges (t : Tables) (p : ContextRow → Bool) (f : ContextRow → ContextRow) : Tables :=
  { t with contexts := t.contexts.update p f }

/-- What a statement makes of the tables, where it goes through. -/
def outcome (t : Tables) (ddl : Ddl) : Option Tables :=
  let (name, namespaceName) := resolve (target ddl)
  match latestNamed t name namespaceName, ddl with
  | none, .createContext _ entityKey scoreColumn description tags definitionText =>
    some (withRow t (created name namespaceName entityKey scoreColumn description tags definitionText))
  | none, _ | some _, .createContext _ _ _ _ _ _ => none
  | some r, .setState _ state =>
    some (withChanges t (fun x => isLive name namespaceName x && x.version = r.version)
      (fun x => { x with lifecycleState := state }))
  | some _, .validateContext _ | some _, .refreshContext _ => some t
  | some _, .dropContext _ =>
    some (withChanges t (isLive name namespaceName) (fun x => { x with droppedAt := some "2024-01-02 00:00:00" }))
  | some r, ddl => some (withRow t (fun id => { altered r ddl with id, version := r.version + 1 }))

/-- An engine with `ALTER` statements that make versions, which also rejects the texts it
cannot parse. -/
def languageEngine (parses : Ddl → Bool) : Engine where
  execute ddl c :=
    if parses ddl then
      match outcome c.pending ddl with
      | some t => (.ok (), c.settled t)
      | none => (.error (.engine "rejected"), c)
    else (.error (.engine "syntax error"), c)

variable {parses : Ddl → Bool} {ddl : Ddl} {c c' : Connection catalog}

theorem execute_ok {r : Except ServiceError Unit} (h : (languageEngine parses).execute ddl c = (r, c')) :
    (∃ e, r = .error e ∧ c' = c) ∨ r = .ok () ∧ ∃ t, outcome c.pending ddl = some t ∧ c' = c.settled t := by
  change (if _ then _ else _) = _ at h
  split at h
  · split at h
    · rename_i t ht
      obtain ⟨rfl, rfl⟩ := Prod.mk.inj h
      exact .inr ⟨rfl, t, ht, rfl⟩
    · obtain ⟨rfl, rfl⟩ := Prod.mk.inj h
      exact .inl ⟨_, rfl, rfl⟩
  · obtain ⟨rfl, rfl⟩ := Prod.mk.inj h
    exact .inl ⟨_, rfl, rfl⟩

/-- The new version that an `ALTER` makes. -/
def nextVersion (r : ContextRow) (ddl : Ddl) (id : Nat) : ContextRow :=
  { altered r ddl with id, version := r.version + 1 }

/-- What the statements about a context that go through have done. -/
inductive Done (name namespaceName : String) (t : Tables) : Ddl → Tables → Prop
  | create (h : latestNamed t name namespaceName = none) (q entityKey : String) (scoreColumn description : Option String)
      (tags : List String) (definitionText : String) :
      Done name namespaceName t (.createContext q entityKey scoreColumn description tags definitionText)
        (withRow t (created name namespaceName entityKey scoreColumn description tags definitionText))
  | setState {r : ContextRow} (h : latestNamed t name namespaceName = some r) (q state : String) :
      Done name namespaceName t (.setState q state)
        (withChanges t (fun x => isLive name namespaceName x && x.version = r.version)
          (fun x => { x with lifecycleState := state }))
  | validate (q : String) : Done name namespaceName t (.validateContext q) t
  | refresh (q : String) : Done name namespaceName t (.refreshContext q) t
  | drop {r : ContextRow} (h : latestNamed t name namespaceName = some r) (q : String) :
      Done name namespaceName t (.dropContext q)
        (withChanges t (isLive name namespaceName) (fun x => { x with droppedAt := some "2024-01-02 00:00:00" }))
  | alter {r : ContextRow} {ddl : Ddl} (h : latestNamed t name namespaceName = some r) (halter : IsAlteration ddl) :
      Done name namespaceName t ddl (withRow t (nextVersion r ddl))

theorem done_of_outcome (h : outcome t ddl = some t') (hq : resolve (target ddl) = (name, namespaceName)) :
    Done name namespaceName t ddl t' := by
  rw [outcome, hq] at h
  dsimp only at h
  cases hlatest : latestNamed t name namespaceName with
  | none =>
    rw [hlatest] at h
    cases ddl with
    | createContext => exact Option.some.inj h ▸ .create hlatest ..
    | _ => cases h
  | some r =>
    rw [hlatest] at h
    cases ddl with
    | createContext => cases h
    | setState => exact Option.some.inj h ▸ .setState hlatest ..
    | validateContext => exact Option.some.inj h ▸ .validate _
    | refreshContext => exact Option.some.inj h ▸ .refresh _
    | dropContext => exact Option.some.inj h ▸ .drop hlatest _
    | setDefinition q d => exact Option.some.inj h ▸ .alter hlatest (.setDefinition q d)
    | setDescription q d => exact Option.some.inj h ▸ .alter hlatest (.setDescription q d)
    | setTags q tags => exact Option.some.inj h ▸ .alter hlatest (.setTags q tags)
    | setScore q column => exact Option.some.inj h ▸ .alter hlatest (.setScore q column)
    | dropScore q => exact Option.some.inj h ▸ .alter hlatest (.dropScore q)

end Engine

section Laws

variable {ddl : Ddl}

theorem isLive_iff : isLive name namespaceName r = true ↔
    (r.name = name ∧ r.namespaceName = namespaceName) ∧ r.droppedAt = none := by
  rw [isLive, Bool.and_eq_true, ContextRows.named_iff, Option.isNone_iff_eq_none]

theorem isLive_other {name' namespaceName' : String} (hother : (name', namespaceName') ≠ (name, namespaceName))
    (h : isLive name' namespaceName' r = true) : isLive name namespaceName r = false := by
  rw [← Bool.not_eq_true, isLive_iff]
  rintro ⟨⟨rfl, rfl⟩, -⟩
  obtain ⟨⟨rfl, rfl⟩, -⟩ := isLive_iff.mp h
  exact hother rfl

theorem isLive_nextVersion (r : ContextRow) (ddl : Ddl) (id : Nat) :
    isLive name namespaceName (nextVersion r ddl id) = isLive name namespaceName r := by
  cases ddl <;> rfl

theorem Done.elsewhere {name' namespaceName' : String} (hother : (name', namespaceName') ≠ (name, namespaceName))
    (h : Done name' namespaceName' t ddl t') :
    latestNamed t' name namespaceName = latestNamed t name namespaceName := by
  have hinsert : ∀ row : Nat → ContextRow, (∀ id, isLive name' namespaceName' (row id) = true) →
      latestNamed (withRow t row) name namespaceName = latestNamed t name namespaceName := by
    intro row hrow
    apply latestNamed_congr
    change (t.contexts.rows ++ [row (t.contexts.sequence + 1)]).filter _ = _
    rw [List.filter_append, List.filter_singleton, isLive_other hother (hrow _)]
    exact List.append_nil _
  cases h with
  | create => exact hinsert _ fun id => isLive_iff.mpr ⟨⟨rfl, rfl⟩, rfl⟩
  | setState =>
    apply latestNamed_update rfl
    intro x hx
    rw [Bool.and_eq_true] at hx
    exact ⟨isLive_other hother hx.1, isLive_other hother hx.1⟩
  | validate => rfl
  | refresh => rfl
  | drop =>
    apply latestNamed_update rfl
    intro x hx
    refine ⟨isLive_other hother hx, ?_⟩
    rw [isLive, Bool.and_eq_false_iff]
    exact .inr rfl
  | @alter r ddl hlatest halter =>
    apply hinsert
    intro id
    rw [isLive_nextVersion]
    exact (latestNamed_spec hlatest).1

/-- An `ALTER` of a property makes the next version the latest one. -/
theorem latestNamed_alter (h : latestNamed t name namespaceName = some r) :
    latestNamed (withRow t (nextVersion r ddl)) name namespaceName =
      some (nextVersion r ddl (t.contexts.sequence + 1)) := by
  obtain ⟨hlive, hle⟩ := latestNamed_spec h
  apply latestNamed_insert rfl
  · intro id
    rw [isLive_nextVersion]
    exact hlive
  · intro id x hx hxlive
    exact Int.lt_add_one_of_le (hle x hx hxlive)

theorem latestNamed_setState (h : latestNamed t name namespaceName = some r) (state : String) :
    latestNamed (withChanges t (fun x => isLive name namespaceName x && x.version = r.version)
      (fun x => { x with lifecycleState := state })) name namespaceName = some { r with lifecycleState := state } := by
  rw [latestNamed_map (t := t) (g := fun x => if isLive name namespaceName x && x.version = r.version then
    { x with lifecycleState := state } else x) rfl]
  · rw [h, Option.map_some, if_pos]
    rw [(latestNamed_spec h).1]
    simp
  · intro x
    split <;> rfl
  · intro x
    split <;> rfl

theorem latestNamed_drop : latestNamed (withChanges t (isLive name namespaceName)
    (fun x => { x with droppedAt := some "2024-01-02 00:00:00" })) name namespaceName = none := by
  rw [latestNamed_eq]
  refine (Lib.Ordering.head?_eq_none _).mpr ?_
  rw [List.filter_eq_nil_iff]
  intro x hx
  obtain ⟨y, -, rfl⟩ := List.mem_map.mp hx
  rw [Bool.not_eq_true]
  split
  · rw [isLive, Bool.and_eq_false_iff]
    exact .inr rfl
  · rename_i hlive
    exact Bool.not_eq_true _ ▸ hlive

theorem Done.alters (h : Done name namespaceName t ddl t') (halter : IsAlteration ddl) :
    ∃ r id, latestNamed t name namespaceName = some r ∧
      latestNamed t' name namespaceName = some (nextVersion r ddl id) := by
  cases h with
  | alter hlatest => exact ⟨_, _, hlatest, latestNamed_alter hlatest⟩
  | _ => cases halter

theorem Done.setsState {q state : String} (h : Done name namespaceName t (.setState q state) t') :
    ∃ r, latestNamed t name namespaceName = some r ∧
      latestNamed t' name namespaceName = some { r with lifecycleState := state } := by
  cases h with
  | setState hlatest => exact ⟨_, hlatest, latestNamed_setState hlatest state⟩
  | alter _ halter => cases halter

theorem Done.validates {q : String} (h : Done name namespaceName t (.validateContext q) t') : t' = t := by
  cases h with
  | validate => rfl
  | alter _ halter => cases halter

theorem Done.drops {q : String} (h : Done name namespaceName t (.dropContext q) t') :
    latestNamed t' name namespaceName = none := by
  cases h with
  | drop => exact latestNamed_drop
  | alter _ halter => cases halter

theorem Done.absent (h : Done name namespaceName t ddl t') (hnone : latestNamed t name namespaceName = none) :
    (∃ q entityKey scoreColumn description tags definitionText,
      ddl = .createContext q entityKey scoreColumn description tags definitionText) ∨ t' = t := by
  cases h with
  | create => exact .inl ⟨_, _, _, _, _, _, rfl⟩
  | validate | refresh => exact .inr rfl
  | setState hlatest | drop hlatest | alter hlatest =>
    rw [hnone] at hlatest
    cases hlatest

variable {parses : Ddl → Bool} {c c' : Connection catalog}

theorem view_of_latestNamed (h : latestNamed c'.pending name namespaceName = latestNamed c.pending name namespaceName) :
    view name namespaceName c' = view name namespaceName c := by
  rw [view, view, h]

theorem done_of_execute (h : (languageEngine parses).execute ddl c = (.ok (), c'))
    (hq : resolve (target ddl) = (name, namespaceName)) : Done name namespaceName c.pending ddl c'.pending := by
  obtain ⟨e, he, -⟩ | ⟨-, t, ht, rfl⟩ := execute_ok h
  · cases he
  · exact done_of_outcome ht hq

theorem language_lawful (parses : Ddl → Bool) (name namespaceName : String) :
    Lawful (languageEngine parses) name namespaceName where
  rejects h := by
    obtain ⟨-, -, rfl⟩ | ⟨he, -⟩ := execute_ok h
    · rfl
    · cases he
  elsewhere {ddl c r c'} hother h := by
    obtain ⟨-, -, rfl⟩ | ⟨rfl, -⟩ := execute_ok h
    · rfl
    · exact view_of_latestNamed ((done_of_execute h rfl).elsewhere hother)
  alters {ddl c c' v} hq halter h hv := by
    obtain ⟨r, id, hr, hr'⟩ := (done_of_execute h hq).alters halter
    rw [view, hr] at hv
    obtain rfl := Option.some.inj hv
    refine ⟨viewOf (nextVersion r ddl id), congrArg (Option.map viewOf) hr', Int.lt_succ r.version, ?_⟩
    cases ddl <;> rfl
  setsState {q state c c' v} hq h hv := by
    obtain ⟨r, hr, hr'⟩ := (done_of_execute h hq).setsState
    rw [view, hr] at hv
    obtain rfl := Option.some.inj hv
    exact ⟨_, congrArg (Option.map viewOf) hr', rfl, rfl⟩
  validates {q c c'} h := by
    apply view_of_latestNamed
    rw [(done_of_execute h rfl).validates]
  drops hq h := by
    rw [view, (done_of_execute h hq).drops]
    rfl
  absent {ddl c r c'} hcreate h hnone := by
    obtain ⟨-, -, rfl⟩ | ⟨rfl, -⟩ := execute_ok h
    · exact hnone
    · have hlatest : latestNamed c.pending name namespaceName = none := Option.map_eq_none_iff.mp hnone
      by_cases hq : resolve (target ddl) = (name, namespaceName)
      · obtain ⟨q, entityKey, scoreColumn, description, tags, definitionText, rfl⟩ | hsame :=
          (done_of_execute h hq).absent hlatest
        · exact absurd rfl (hcreate q entityKey scoreColumn description tags definitionText)
        · rw [view, hsame]
          exact hnone
      · rw [view, (done_of_execute h rfl).elsewhere hq, hlatest]
        rfl

end Laws

end ContextqlServer.Db.LanguageEngine
