import ContextqlServer.Db.Migrations

namespace ContextqlServer.Db.Resumption

open ContextqlServer.Lib.Script
open ContextqlServer.Db.Migrations
open ContextqlServer.Db.Schema (Cell DbError)

variable {db db' db₀ : Database} {t : Table} {s : Statement}

section Runs

def scriptsAfter (version : Int) : List Statement :=
  (migrations.filter (fun m => version < m.1)).flatMap Prod.snd

/-- The statements that a run plays, as it finds the database. -/
def pending (db : Database) : List Statement := .createVersions :: scriptsAfter db.currentVersion

/-- A run that was cut off between two statements, or after one that raised. -/
def CutOff (db db' : Database) : Prop := Cut Statement.run (pending db) db db'

/-- What any number of runs that were cut off leave. -/
def Interrupted : Database → Database → Prop := Relation.ReflTransGen CutOff

/-- The next run completes, and ends as the first would have if nothing had cut it off. -/
def Resumes (db₀ db : Database) : Prop :=
  ∃ done, runMigrations db = .ok done ∧ runMigrations db₀ = .ok done

/-- Between the first and the last statement of `003_context_runtime_state.sql`. -/
def Inside (db : Database) : Prop :=
  db.currentVersion = 2 ∧ ∃ t, db.tables.lookup "contexts" = some t ∧ "context_id" ∈ t.names

def created (db : Database) : Database := { db with versions := some (db.versions.getD []) }

theorem createVersions_run (db : Database) : Statement.run .createVersions db = .ok (created db) := rfl

theorem play_migrations (version : Int) (ms : List (Int × List Statement)) (db : Database) :
    ms.foldlM (fun db m => if version < m.1 then play Statement.run m.2 db else .ok db) db =
      play Statement.run ((ms.filter (fun m => version < m.1)).flatMap Prod.snd) db := by
  induction ms generalizing db with
  | nil => rfl
  | cons m ms ih =>
    rw [List.foldlM_cons]
    by_cases h : version < m.1
    · rw [if_pos h, List.filter_cons_of_pos (by simpa using h), List.flatMap_cons, play_append]
      congr 1
      funext db
      exact ih db
    · rw [if_neg h, List.filter_cons_of_neg (by simpa using h)]
      exact ih db

theorem runMigrations_eq (db : Database) : runMigrations db = play Statement.run (pending db) db := by
  rw [pending, play_cons_ok (createVersions_run db)]
  exact play_migrations db.currentVersion migrations (created db)

theorem runMigrations_created (db : Database) :
    runMigrations db = play Statement.run (scriptsAfter db.currentVersion) (created db) := by
  rw [runMigrations_eq, pending, play_cons_ok (createVersions_run db)]

theorem scriptsAfter_eq (version : Int) : scriptsAfter version =
    (if version < 1 then script001 else []) ++ (if version < 2 then script002 else []) ++
      (if version < 3 then script003 else []) := by
  rw [scriptsAfter, migrations]
  by_cases h₁ : version < 1 <;> by_cases h₂ : version < 2 <;> by_cases h₃ : version < 3 <;> simp [h₁, h₂, h₃]

end Runs

section Statements

theorem lookup_cons_eq {α : Type} (key other : String) (x : α) (xs : List (String × α)) :
    ((key, x) :: xs).lookup other = if other = key then some x else xs.lookup other := by
  by_cases h : other = key
  · rw [h, List.lookup_cons_self, if_pos rfl]
  · have hne : (other == key) = false := by simpa using h
    rw [List.lookup_cons, hne, if_neg h]

theorem lookup_update (name other : String) (f : Table → Table) (db : Database) :
    (db.update name f).tables.lookup other =
      if other = name then (db.tables.lookup other).map f else db.tables.lookup other := by
  change (db.tables.map (fun p => if p.1 = name then (p.1, f p.2) else p)).lookup other = _
  induction db.tables with
  | nil => simp
  | cons p tables ih =>
    obtain ⟨key, t⟩ := p
    rw [List.map_cons, lookup_cons_eq key other t]
    dsimp only
    by_cases hname : key = name
    · subst hname
      rw [if_pos rfl, lookup_cons_eq, ih]
      by_cases hkey : other = key <;> simp [hkey]
    · rw [if_neg hname, lookup_cons_eq, ih]
      by_cases hkey : other = key <;> simp [hkey, hname]

theorem lookup_snoc {α : Type} {name other : String} {x : α} (xs : List (String × α)) :
    (xs ++ [(name, x)]).lookup other = (xs.lookup other).or (if other = name then some x else none) := by
  rw [List.lookup_append, lookup_cons_eq]
  rfl

/-- What a statement that goes through does with the tables. -/
structure Grows (s : Statement) (db db' : Database) : Prop where
  tables : ∀ name t, db.tables.lookup name = some t → db'.tables.lookup name = some t ∨
    ∃ column cell, s = .addColumn name column ∧ column.name ∉ t.names ∧
      (column.default = .null → cell = none) ∧ db'.tables.lookup name = some (t.extend column cell)
  fresh : ∀ name t, db.tables.lookup name = none → db'.tables.lookup name = some t → t.rows = []
  indexes : ∀ name, (db.indexes.lookup name).isSome → (db'.indexes.lookup name).isSome
  versions : ∀ vs, db.versions = some vs → ∃ vs', db'.versions = some vs' ∧ ∀ v ∈ vs, v ∈ vs'
  level : (∀ v, s ≠ .recordVersion v) → db'.currentVersion = db.currentVersion

theorem Grows.of_tables (htables : db'.tables = db.tables)
    (hindexes : ∀ name, (db.indexes.lookup name).isSome → (db'.indexes.lookup name).isSome)
    (hversions : ∀ vs, db.versions = some vs → ∃ vs', db'.versions = some vs' ∧ ∀ v ∈ vs, v ∈ vs')
    (hlevel : (∀ v, s ≠ .recordVersion v) → db'.currentVersion = db.currentVersion) : Grows s db db' := by
  refine ⟨?_, ?_, hindexes, hversions, hlevel⟩
  · intro name t ht
    rw [htables]
    exact .inl ht
  · intro name t hnone ht
    rw [htables, hnone] at ht
    cases ht

theorem Grows.refl (s : Statement) (db : Database) : Grows s db db :=
  .of_tables rfl (fun _ h => h) (fun vs h => ⟨vs, h, fun _ hv => hv⟩) (fun _ => rfl)

theorem alter_cases {table : String} {column : Column} (h : Statement.alter table column t db = .ok db') :
    column.name ∉ t.names ∧ ∃ cell, (column.default = .null → cell = none) ∧
      db' = db.update table (fun t => t.extend column cell) := by
  rw [Statement.alter] at h
  split at h
  · cases h
  · rename_i hnew
    refine ⟨hnew, ?_⟩
    cases hdefault : column.default with
    | null =>
      rw [hdefault] at h
      dsimp only at h
      split at h
      · cases h
      · exact ⟨none, fun _ => rfl, (Except.ok.inj h).symm⟩
    | value c =>
      rw [hdefault] at h
      refine ⟨some c, ?_, (Except.ok.inj h).symm⟩
      rintro ⟨⟩
    | now =>
      rw [hdefault] at h
      cases h

theorem buildIndex_cases {name : String} {index : Index} (h : Statement.buildIndex name index t db = .ok db') :
    ((db.indexes.lookup name).isSome ∧ db' = db) ∨
      ((db.indexes.lookup name).isSome = false ∧ (index.unique → (index.keys t).Nodup) ∧
        db' = { db with indexes := db.indexes ++ [(name, index)] }) := by
  rw [Statement.buildIndex] at h
  split at h
  · rename_i hsome
    exact .inl ⟨hsome, (Except.ok.inj h).symm⟩
  · rename_i hnone
    split at h
    · cases h
    · split at h
      · cases h
      · rename_i hkeys
        exact .inr ⟨Bool.eq_false_iff.mpr hnone, by tauto, (Except.ok.inj h).symm⟩

theorem run_grows (h : s.run db = .ok db') : Grows s db db' := by
  cases s with
  | createVersions =>
    obtain rfl := Except.ok.inj h
    refine .of_tables rfl (fun _ h => h) ?_ (fun _ => rfl)
    intro vs hvs
    exact ⟨vs, by rw [hvs]; rfl, fun _ hv => hv⟩
  | createTable name columns constraints =>
    rw [Statement.run] at h
    split at h
    · obtain rfl := Except.ok.inj h
      exact .refl _ _
    · rename_i hnone
      obtain rfl := Except.ok.inj h
      refine ⟨?_, ?_, fun _ h => h, fun vs h => ⟨vs, h, fun _ hv => hv⟩, fun _ => rfl⟩
      · intro other t ht
        left
        rw [lookup_snoc, ht, Option.some_or]
      · intro other t hnone ht
        rw [lookup_snoc, hnone, Option.none_or] at ht
        split at ht
        · rw [← Option.some.inj ht]
        · cases ht
  | createIndex name index =>
    rw [Statement.run] at h
    split at h
    · cases h
    · rcases buildIndex_cases h with ⟨-, rfl⟩ | ⟨-, -, rfl⟩
      · exact .refl _ _
      · refine .of_tables rfl ?_ (fun vs h => ⟨vs, h, fun _ hv => hv⟩) (fun _ => rfl)
        intro other hother
        rw [lookup_snoc, Option.isSome_or, hother]
        rfl
  | addColumn table column =>
    rw [Statement.run] at h
    split at h
    · cases h
    · rename_i t ht
      obtain ⟨hnew, cell, hcell, rfl⟩ := alter_cases h
      refine ⟨?_, ?_, fun _ h => h, fun vs h => ⟨vs, h, fun _ hv => hv⟩, fun _ => rfl⟩
      · intro name t' ht'
        by_cases hname : name = table
        · subst hname
          obtain rfl := Option.some.inj (ht.symm.trans ht')
          right
          refine ⟨column, cell, rfl, hnew, hcell, ?_⟩
          rw [lookup_update, if_pos rfl, ht]
          rfl
        · left
          rw [lookup_update, if_neg hname, ht']
      · intro name t' hnone ht'
        rw [lookup_update, hnone] at ht'
        split at ht' <;> cases ht'
  | recordVersion version =>
    rw [Statement.run] at h
    split at h
    · cases h
    · rename_i vs hvs
      obtain rfl := Except.ok.inj h
      refine .of_tables rfl (fun _ h => h) ?_ (fun hs => absurd rfl (hs version))
      intro vs' hvs'
      obtain rfl := Option.some.inj (hvs.symm.trans hvs')
      refine ⟨_, rfl, ?_⟩
      intro v hv
      split
      · exact hv
      · exact List.mem_append_left _ hv

/-- What a statement has done, as `IF NOT EXISTS` sees it. -/
def Done : Statement → Database → Prop
  | .createVersions, db => db.versions.isSome
  | .createTable name _ _, db => (db.tables.lookup name).isSome
  | .createIndex name index, db => (db.tables.lookup index.table).isSome ∧ (db.indexes.lookup name).isSome
  | .addColumn _ _, _ => False
  | .recordVersion version, db => ∃ vs, db.versions = some vs ∧ version ∈ vs

theorem lasting : Lasting Statement.run Done where
  again s db h := by
    cases s with
    | createVersions =>
      obtain ⟨vs, hvs⟩ := Option.isSome_iff_exists.mp h
      change Except.ok { db with versions := some (db.versions.getD []) } = _
      rw [hvs]
      exact congrArg (fun v => Except.ok { db with versions := v }) hvs.symm
    | createTable name columns constraints => exact if_pos h
    | createIndex name index =>
      obtain ⟨t, ht⟩ := Option.isSome_iff_exists.mp h.1
      rw [Statement.run, ht]
      exact if_pos h.2
    | addColumn table column => exact h.elim
    | recordVersion version =>
      obtain ⟨vs, hvs, hv⟩ := h
      rw [Statement.run, hvs]
      dsimp only
      rw [if_pos hv]
      exact congrArg (fun v => Except.ok { db with versions := v }) hvs.symm
  stays s s' db db' h hrun := by
    have hgrows := run_grows hrun
    have htable {name : String} (h : (db.tables.lookup name).isSome) : (db'.tables.lookup name).isSome := by
      obtain ⟨t, ht⟩ := Option.isSome_iff_exists.mp h
      rcases hgrows.tables name t ht with h | ⟨_, _, -, -, -, h⟩ <;> rw [h] <;> rfl
    cases s with
    | createVersions =>
      obtain ⟨vs, hvs⟩ := Option.isSome_iff_exists.mp h
      obtain ⟨vs', hvs', -⟩ := hgrows.versions vs hvs
      exact Option.isSome_iff_exists.mpr ⟨vs', hvs'⟩
    | createTable name columns constraints => exact htable h
    | createIndex name index => exact ⟨htable h.1, hgrows.indexes name h.2⟩
    | addColumn table column => exact h.elim
    | recordVersion version =>
      obtain ⟨vs, hvs, hv⟩ := h
      obtain ⟨vs', hvs', hsub⟩ := hgrows.versions vs hvs
      exact ⟨vs', hvs', hsub version hv⟩

theorem done_of_run (hs : ∀ table column, s ≠ .addColumn table column) (h : s.run db = .ok db') : Done s db' := by
  cases s with
  | createVersions =>
    obtain rfl := Except.ok.inj h
    rfl
  | createTable name columns constraints =>
    rw [Statement.run] at h
    split at h
    · rename_i hsome
      obtain rfl := Except.ok.inj h
      exact hsome
    · obtain rfl := Except.ok.inj h
      change (List.lookup _ _).isSome
      rw [lookup_snoc, if_pos rfl]
      simp
  | createIndex name index =>
    rw [Statement.run] at h
    split at h
    · cases h
    · rename_i t ht
      rcases buildIndex_cases h with ⟨hsome, rfl⟩ | ⟨-, -, rfl⟩
      · exact ⟨Option.isSome_iff_exists.mpr ⟨t, ht⟩, hsome⟩
      · refine ⟨Option.isSome_iff_exists.mpr ⟨t, ht⟩, ?_⟩
        rw [lookup_snoc, if_pos rfl]
        simp
  | addColumn table column => exact absurd rfl (hs table column)
  | recordVersion version =>
    rw [Statement.run] at h
    split at h
    · cases h
    · obtain rfl := Except.ok.inj h
      refine ⟨_, rfl, ?_⟩
      split
      · assumption
      · simp

theorem play_checked {ss : List Statement} (hss : ∀ s ∈ ss, ∀ table column, s ≠ .addColumn table column)
    (h : play Statement.run ss db = .ok db') (rest : List Statement) :
    play Statement.run (ss ++ rest) db' = play Statement.run (ss ++ rest) db :=
  play_again lasting (fun s hs _ _ hrun => done_of_run (hss s hs) hrun) h rest

end Statements

section Versions

theorem le_getD_max? {vs : List Int} {v : Int} (hv : v ∈ vs) : v ≤ vs.max?.getD 0 := by
  cases hmax : vs.max? with
  | none =>
    rw [List.max?_eq_none_iff.mp hmax] at hv
    cases hv
  | some m => exact (List.max?_eq_some_iff.mp hmax).2 v hv

theorem recordVersion_run {version : Int} (hlevel : db.currentVersion < version)
    (h : Statement.run (.recordVersion version) db = .ok db') : db'.currentVersion = version := by
  rw [Statement.run] at h
  split at h
  · cases h
  · rename_i vs hvs
    obtain rfl := Except.ok.inj h
    rw [Database.currentVersion, hvs] at hlevel
    rw [Database.currentVersion]
    dsimp only [Option.getD_some] at hlevel ⊢
    have hmax : (vs ++ [version]).max? = some version := by
      rw [List.max?_eq_some_iff]
      refine ⟨by simp, ?_⟩
      intro v hv
      rcases List.mem_append.mp hv with hv | hv
      · exact (le_getD_max? hv).trans hlevel.le
      · exact (List.mem_singleton.mp hv).le
    have hnew : version ∉ vs := fun hv => (le_getD_max? hv).not_gt hlevel
    rw [if_neg hnew, hmax, Option.getD_some]

theorem raisesTo {version : Int} {body : List Statement} (hbody : ∀ s ∈ body, ∀ v, s ≠ .recordVersion v) :
    RaisesTo Statement.run Database.currentVersion version body (.recordVersion version) where
  body s hs _ _ hrun := (run_grows hrun).level (hbody s hs)
  last _ _ hlevel hrun := recordVersion_run hlevel hrun

end Versions

section Interruption

def goOn (db : Database) : Except DbError Database := play Statement.run (scriptsAfter db.currentVersion) db

/-- A cut in a script whose statements check first changes nothing, and one after it is
a cut of the scripts that follow. -/
theorem cut_checked {version : Int} {body : List Statement}
    (hchecked : ∀ s ∈ body, (∀ table column, s ≠ .addColumn table column) ∧ ∀ v, s ≠ .recordVersion v)
    (hlevel : db.currentVersion < version)
    (hscripts : scriptsAfter db.currentVersion = body ++ .recordVersion version :: scriptsAfter version)
    (hcut : Cut Statement.run (scriptsAfter db.currentVersion) db db') :
    goOn db' = goOn db ∨ ∃ db₁, db₁.currentVersion = version ∧ goOn db = goOn db₁ ∧
      Cut Statement.run (scriptsAfter version) db₁ db' := by
  obtain ⟨done, rest, hsplit, hdone⟩ := hcut
  rw [hscripts] at hsplit
  rcases (raisesTo (fun s hs => (hchecked s hs).2)).cut hlevel hsplit hdone with
    ⟨rest', hbody, hsame⟩ | ⟨db₁, done', hfirst, hnow, hsplit', hdone'⟩
  · left
    rw [goOn, goOn, hsame, hscripts, hbody, List.append_assoc]
    refine play_checked ?_ hdone _
    intro s hs
    exact (hchecked s (by rw [hbody]; exact List.mem_append_left _ hs)).1
  · refine .inr ⟨db₁, hnow, ?_, done', rest, hsplit', hdone'⟩
    rw [goOn, goOn, hscripts, hnow, List.append_cons, play_append_ok hfirst]

theorem body001_checked : ∀ s ∈ script001.dropLast,
    (∀ table column, s ≠ .addColumn table column) ∧ ∀ v, s ≠ .recordVersion v := by
  simp [script001]

theorem body002_checked : ∀ s ∈ script002.dropLast,
    (∀ table column, s ≠ .addColumn table column) ∧ ∀ v, s ≠ .recordVersion v := by
  simp [script002]

theorem body003_unrecorded : ∀ s ∈ body003, ∀ v, s ≠ .recordVersion v := by
  simp [body003, runtimeColumns]

theorem addColumn_names {table : String} {column : Column} (h : Statement.run (.addColumn table column) db = .ok db') :
    ∃ t, db'.tables.lookup table = some t ∧ column.name ∈ t.names := by
  rw [Statement.run] at h
  split at h
  · cases h
  · rename_i t ht
    obtain ⟨-, cell, -, rfl⟩ := alter_cases h
    refine ⟨t.extend column cell, ?_, ?_⟩
    · rw [lookup_update, if_pos rfl, ht]
      rfl
    · simp [Table.names, Table.extend]

theorem names_stay {table column : String} (hrun : s.run db = .ok db')
    (h : ∃ t, db.tables.lookup table = some t ∧ column ∈ t.names) :
    ∃ t, db'.tables.lookup table = some t ∧ column ∈ t.names := by
  obtain ⟨t, ht, hmem⟩ := h
  rcases (run_grows hrun).tables table t ht with h | ⟨added, cell, -, -, -, h⟩
  · exact ⟨t, h, hmem⟩
  · refine ⟨_, h, ?_⟩
    simp only [Table.names, Table.extend, List.map_append, List.mem_append]
    exact .inl hmem

theorem cut_runtime (hlevel : db.currentVersion = 2)
    (hcut : Cut Statement.run (scriptsAfter 2) db db') : Inside db' ∨ goOn db' = goOn db := by
  have hscripts : scriptsAfter 2 = body003 ++ [.recordVersion 3] := by
    rw [scriptsAfter_eq]
    rfl
  obtain ⟨done, rest, hsplit, hdone⟩ := hcut
  rw [hscripts] at hsplit
  rcases (raisesTo body003_unrecorded).cut (by omega) hsplit hdone with
    ⟨rest', hbody, hsame⟩ | ⟨db₁, done', hfirst, hnow, hsplit', hdone'⟩
  · cases done with
    | nil =>
      obtain rfl := Except.ok.inj hdone
      exact .inr rfl
    | cons s done =>
      obtain rfl : s = .addColumn "contexts" (text "context_id") := (List.cons.inj hbody).1.symm
      left
      refine ⟨hsame.trans hlevel, ?_⟩
      cases hs : Statement.run (.addColumn "contexts" (text "context_id")) db with
      | error e =>
        rw [play_cons_error hs] at hdone
        cases hdone
      | ok db₁ =>
        rw [play_cons_ok hs] at hdone
        exact play_invariant (I := fun d => ∃ t, d.tables.lookup "contexts" = some t ∧ "context_id" ∈ t.names)
          (fun _ _ _ _ hrun h => names_stay hrun h) hdone (addColumn_names hs)
  · right
    obtain ⟨rfl, rfl⟩ := List.append_eq_nil_iff.mp hsplit'.symm
    obtain rfl := Except.ok.inj hdone'
    rw [goOn, goOn, hlevel, hnow, hscripts, hfirst, scriptsAfter_eq]
    rfl

theorem cut_goesOn (hcut : Cut Statement.run (scriptsAfter db.currentVersion) db db') :
    Inside db' ∨ goOn db' = goOn db := by
  have hsnapshots {db : Database} (hlevel : db.currentVersion = 1) (hcut : Cut Statement.run (scriptsAfter 1) db db') :
      Inside db' ∨ goOn db' = goOn db := by
    have hscripts : scriptsAfter 1 = script002.dropLast ++ .recordVersion 2 :: scriptsAfter 2 := by
      rw [scriptsAfter_eq, scriptsAfter_eq]
      rfl
    rw [← hlevel] at hscripts hcut
    rcases cut_checked body002_checked (by omega) hscripts hcut with h | ⟨db₁, hnow, hsame, hcut₁⟩
    · exact .inr h
    · rw [hsame]
      exact cut_runtime hnow hcut₁
  by_cases h₁ : db.currentVersion < 1
  · have hscripts : scriptsAfter db.currentVersion = script001.dropLast ++ .recordVersion 1 :: scriptsAfter 1 := by
      rw [scriptsAfter_eq, scriptsAfter_eq, if_pos h₁, if_pos (by omega), if_pos (by omega)]
      rfl
    rcases cut_checked body001_checked h₁ hscripts hcut with h | ⟨db₁, hnow, hsame, hcut₁⟩
    · exact .inr h
    · rw [hsame]
      exact hsnapshots hnow hcut₁
  · by_cases h₂ : db.currentVersion < 2
    · have hlevel : db.currentVersion = 1 := by omega
      rw [hlevel] at hcut
      exact hsnapshots hlevel hcut
    · by_cases h₃ : db.currentVersion < 3
      · have hlevel : db.currentVersion = 2 := by omega
        rw [hlevel] at hcut
        exact cut_runtime hlevel hcut
      · right
        obtain ⟨done, rest, hsplit, hdone⟩ := hcut
        rw [scriptsAfter_eq, if_neg h₁, if_neg h₂, if_neg h₃] at hsplit
        obtain ⟨rfl, -⟩ := List.append_eq_nil_iff.mp hsplit.symm
        obtain rfl := Except.ok.inj hdone
        rfl

theorem created_eq_self (h : db.versions.isSome) : created db = db :=
  Except.ok.inj (lasting.again .createVersions db h)

/-- A run that is cut off outside of `003_context_runtime_state.sql` leaves the next
one to do what it would have done. -/
theorem cutOff_runs (hcut : CutOff db db') : Inside db' ∨ runMigrations db' = runMigrations db := by
  obtain ⟨done, rest, hsplit, hdone⟩ := hcut
  cases done with
  | nil =>
    obtain rfl := Except.ok.inj hdone
    exact .inr rfl
  | cons s done =>
    obtain ⟨rfl, hrest⟩ := List.cons.inj hsplit
    rw [play_cons_ok (createVersions_run db)] at hdone
    have hversions : Done .createVersions db' :=
      play_invariant (fun x _ a b hrun h => lasting.stays .createVersions x a b h hrun) hdone rfl
    rw [runMigrations_created, runMigrations_created, created_eq_self hversions]
    have hcut : Cut Statement.run (scriptsAfter (created db).currentVersion) (created db) db' :=
      ⟨done, rest, hrest, hdone⟩
    exact cut_goesOn hcut

/-- Inside of `003_context_runtime_state.sql` its first statement fails. -/
theorem inside_first (h : Inside db) :
    ∃ rest, scriptsAfter db.currentVersion = .addColumn "contexts" (text "context_id") :: rest ∧
    Statement.run (.addColumn "contexts" (text "context_id")) (created db) =
      .error (.operationalError "duplicate column name: context_id") := by
  obtain ⟨hlevel, t, ht, hmem⟩ := h
  have hlookup : (created db).tables.lookup "contexts" = some t := ht
  refine ⟨script003.tail, ?_, ?_⟩
  · rw [hlevel, scriptsAfter_eq]
    rfl
  · rw [Statement.run, hlookup]
    exact if_pos hmem

theorem inside_fails (h : Inside db) :
    runMigrations db = .error (.operationalError "duplicate column name: context_id") := by
  obtain ⟨rest, hscripts, hfirst⟩ := inside_first h
  rw [runMigrations_created, hscripts, play_cons_error hfirst]

theorem inside_stays (h : Inside db) (hcut : CutOff db db') : Inside db' := by
  obtain ⟨rest, hscripts, hfirst⟩ := inside_first h
  obtain ⟨done, rest', hsplit, hdone⟩ := hcut
  rw [pending, hscripts] at hsplit
  cases done with
  | nil =>
    obtain rfl := Except.ok.inj hdone
    exact h
  | cons s done =>
    obtain ⟨rfl, hrest⟩ := List.cons.inj hsplit
    rw [play_cons_ok (createVersions_run db)] at hdone
    cases done with
    | nil =>
      obtain rfl := Except.ok.inj hdone
      exact h
    | cons s done =>
      obtain ⟨rfl, -⟩ := List.cons.inj hrest
      rw [play_cons_error hfirst] at hdone
      cases hdone

theorem interrupted_runs (h : Interrupted db₀ db) (hout : ¬ Inside db) : runMigrations db = runMigrations db₀ := by
  induction h with
  | refl => rfl
  | tail _ hcut ih =>
    rcases cutOff_runs hcut with hin | hsame
    · exact absurd hin hout
    · rw [hsame, ih (fun hin => hout (inside_stays hin hcut))]

/-- Runs that were interrupted resume exactly if the first could complete, and none of
them ended inside of `003_context_runtime_state.sql`. -/
theorem resumes_of_interrupted (h : Interrupted db₀ db) :
    Resumes db₀ db ↔ (∃ done, runMigrations db₀ = .ok done) ∧ ¬ Inside db := by
  constructor
  · rintro ⟨done, hdone, hdone₀⟩
    refine ⟨⟨done, hdone₀⟩, fun hin => ?_⟩
    rw [inside_fails hin] at hdone
    cases hdone
  · rintro ⟨⟨done, hdone⟩, hout⟩
    exact ⟨done, (interrupted_runs h hout).trans hdone, hdone⟩

end Interruption

end ContextqlServer.Db.Resumption
