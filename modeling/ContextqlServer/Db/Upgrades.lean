import ContextqlServer.Db.Resumption

namespace ContextqlServer.Db.Upgrades

open ContextqlServer.Lib.Script
open ContextqlServer.Db.Migrations ContextqlServer.Db.Resumption
open ContextqlServer.Db.Schema (Cell DbError)

variable {db db' : Database} {t : Table} {s : Statement} {index : Index} {column : Column} {cell : Option Cell}

section Blank

/-- A table without its rows. -/
def blankTable (t : Table) : Table := ⟨t.columns, t.constraints, [], List.forall_mem_nil _⟩

def blank (db : Database) : Database := { db with tables := db.tables.map (fun p => (p.1, blankTable p.2)) }

theorem lookup_blank (db : Database) (name : String) :
    (blank db).tables.lookup name = (db.tables.lookup name).map blankTable := by
  change (db.tables.map (fun p => (p.1, blankTable p.2))).lookup name = _
  induction db.tables with
  | nil => rfl
  | cons p tables ih =>
    obtain ⟨key, t⟩ := p
    rw [List.map_cons, lookup_cons_eq, lookup_cons_eq, ih]
    split <;> rfl

theorem blank_update (db : Database) (name : String) (column : Column) (cell : Option Cell) :
    blank (db.update name (fun t => t.extend column cell)) =
      (blank db).update name (fun t => t.extend column cell) := by
  simp only [blank, Database.update, List.map_map]
  congr 1
  apply List.map_congr_left
  intro p _
  simp only [Function.comp_apply]
  split <;> rfl

def Admits : Statement → Database → Prop
  | .createIndex name index, db => index.unique → (db.indexes.lookup name).isSome ∨
      ∀ t, db.tables.lookup index.table = some t → (index.keys t).Nodup
  | _, _ => True

theorem keys_blank (index : Index) (t : Table) : index.keys (blankTable t) = [] := rfl

theorem run_blank (h : Admits s db) : s.run (blank db) = (s.run db).map blank := by
  cases s with
  | createVersions => rfl
  | createTable name columns constraints =>
    rw [Statement.run, Statement.run, lookup_blank, Option.isSome_map]
    split
    · rfl
    · simp [Except.map, blank, blankTable]
  | createIndex name index =>
    rw [Statement.run, Statement.run, lookup_blank]
    cases ht : db.tables.lookup index.table with
    | none => rfl
    | some t =>
      rw [Option.map_some]
      dsimp only
      rw [Statement.buildIndex, Statement.buildIndex, keys_blank]
      have hnames : (blankTable t).names = t.names := rfl
      have hindexes : (blank db).indexes = db.indexes := rfl
      rw [hnames, hindexes]
      split
      · rfl
      · rename_i hnone
        split
        · rfl
        · have hkeys : ¬ (index.unique = true ∧ ¬ (index.keys t).Nodup) := by
            rintro ⟨hunique, hclash⟩
            rcases h hunique with hsome | hkeys
            · exact hnone hsome
            · exact hclash (hkeys t ht)
          rw [if_neg (fun h => h.2 List.nodup_nil), if_neg hkeys]
          rfl
  | addColumn table column =>
    rw [Statement.run, Statement.run, lookup_blank]
    cases ht : db.tables.lookup table with
    | none => rfl
    | some t =>
      rw [Option.map_some]
      dsimp only
      rw [Statement.alter, Statement.alter]
      have hnames : (blankTable t).names = t.names := rfl
      rw [hnames]
      split
      · rfl
      · cases column.default with
        | null =>
          dsimp only
          split
          · rfl
          · exact congrArg Except.ok (blank_update ..).symm
        | value c => exact congrArg Except.ok (blank_update ..).symm
        | now => rfl
  | recordVersion version =>
    rw [Statement.run, Statement.run]
    have hversions : (blank db).versions = db.versions := rfl
    rw [hversions]
    cases db.versions <;> rfl

end Blank

section Rows

theorem value_extend {row : List (Option Cell)} (hrow : row.length = t.columns.length) {name : String}
    (hne : name ≠ column.name) : (t.extend column cell).value (row ++ [cell]) name = t.value row name := by
  have hnames : (t.extend column cell).names = t.names ++ [column.name] := by
    simp [Table.names, Table.extend]
  have hlen : t.names.length = row.length := by
    rw [Table.names, List.length_map, hrow]
  rw [Table.value, Table.value, hnames]
  congr 1
  by_cases hmem : name ∈ t.names
  · have hlt := List.idxOf_lt_length_iff.mpr hmem
    rw [List.idxOf_append_of_mem hmem, List.getElem?_append_left (by omega)]
  · rw [List.idxOf_append_of_notMem hmem, List.idxOf_eq_length hmem]
    have hlast : [column.name].idxOf name = 1 := List.idxOf_eq_length (by simpa using hne)
    rw [hlast, List.getElem?_eq_none (by simp; omega), List.getElem?_eq_none (by omega)]

theorem value_extend_self {row : List (Option Cell)} (hrow : row.length = t.columns.length)
    (hnew : column.name ∉ t.names) : (t.extend column cell).value (row ++ [cell]) column.name = cell := by
  have hnames : (t.extend column cell).names = t.names ++ [column.name] := by
    simp [Table.names, Table.extend]
  have hlen : t.names.length = row.length := by
    rw [Table.names, List.length_map, hrow]
  rw [Table.value, hnames, List.idxOf_append_of_notMem hnew, List.idxOf_cons_self, Nat.add_zero, hlen]
  simp

def NullIn (table column : String) (db : Database) : Prop :=
  ∃ t, db.tables.lookup table = some t ∧ column ∈ t.names ∧ ∀ r ∈ t.rows, t.value r column = none

theorem nullIn_added (hdefault : column.default = .null) {table : String}
    (h : Statement.run (.addColumn table column) db = .ok db') : NullIn table column.name db' := by
  rw [Statement.run] at h
  split at h
  · cases h
  · rename_i t ht
    obtain ⟨hnew, cell, hcell, rfl⟩ := alter_cases h
    refine ⟨t.extend column cell, ?_, ?_, ?_⟩
    · rw [lookup_update, if_pos rfl, ht]
      rfl
    · simp [Table.names, Table.extend]
    · intro r hr
      obtain ⟨row, hrow, rfl⟩ := List.mem_map.mp hr
      rw [value_extend_self (t.width row hrow) hnew, hcell hdefault]

theorem nullIn_stays {table name : String} (hrun : s.run db = .ok db') (h : NullIn table name db) :
    NullIn table name db' := by
  obtain ⟨t, ht, hmem, hnull⟩ := h
  rcases (run_grows hrun).tables table t ht with h | ⟨column, cell, -, hnew, -, h⟩
  · exact ⟨t, h, hmem, hnull⟩
  · have hne : name ≠ column.name := by
      rintro rfl
      exact hnew hmem
    refine ⟨_, h, ?_, ?_⟩
    · simp only [Table.names, Table.extend, List.map_append, List.mem_append]
      exact .inl hmem
    · intro r hr
      obtain ⟨row, hrow, rfl⟩ := List.mem_map.mp hr
      rw [value_extend (t.width row hrow) hne, hnull row hrow]

theorem keys_null {name : String} (hcolumn : name ∈ index.columns) (h : NullIn index.table name db)
    (ht : db.tables.lookup index.table = some t) : index.keys t = [] := by
  obtain ⟨t', ht', -, hnull⟩ := h
  obtain rfl := Option.some.inj (ht.symm.trans ht')
  rw [Index.keys, List.filter_eq_nil_iff]
  intro key hkey hall
  obtain ⟨row, hrow, rfl⟩ := List.mem_map.mp hkey
  have hsome := List.all_eq_true.mp hall _ (List.mem_map_of_mem hcolumn)
  rw [hnull row (List.mem_filter.mp hrow).1] at hsome
  cases hsome

theorem keys_extend (hcolumns : column.name ∉ index.columns)
    (hcondition : ∀ c ∈ index.condition, c.column ≠ column.name) :
    index.keys (t.extend column cell) = index.keys t := by
  have hkey : ∀ row ∈ t.rows, index.columns.map ((t.extend column cell).value (row ++ [cell])) =
      index.columns.map (t.value row) := by
    intro row hrow
    apply List.map_congr_left
    intro name hname
    apply value_extend (t.width row hrow)
    rintro rfl
    exact hcolumns hname
  have hholds : ∀ row ∈ t.rows, index.condition.all (fun c => c.holds (t.extend column cell) (row ++ [cell])) =
      index.condition.all (fun c => c.holds t row) := by
    intro row hrow
    cases hc : index.condition with
    | none => rfl
    | some c =>
      have hvalue : (t.extend column cell).value (row ++ [cell]) c.column = t.value row c.column :=
        value_extend (t.width row hrow) (hcondition c hc)
      cases c with
      | isText name text => exact congrArg (fun v => decide (v = some (Cell.text text))) hvalue
      | notNull name => exact congrArg Option.isSome hvalue
  rw [Index.keys, Index.keys]
  congr 1
  change ((t.rows.map (fun r => r ++ [cell])).filter _).map _ = _
  rw [List.filter_map, List.map_map]
  have hfilter : t.rows.filter ((fun r => index.condition.all (fun c => c.holds (t.extend column cell) r)) ∘
      fun r => r ++ [cell]) = t.rows.filter (fun r => index.condition.all (fun c => c.holds t r)) := by
    apply List.filter_congr
    exact hholds
  rw [hfilter]
  apply List.map_congr_left
  intro row hrow
  exact hkey row (List.mem_filter.mp hrow).1

/-- No context has two snapshots in the state `current`. -/
def OneCurrent (db : Database) : Prop :=
  ∀ t, db.tables.lookup "context_snapshots" = some t → (oneCurrentIndex.keys t).Nodup

def spares : Statement → Bool
  | .addColumn table column => table ≠ "context_snapshots" || (column.name ≠ "context_id" && column.name ≠ "state")
  | _ => true

theorem oneCurrent_iff (hspares : spares s = true) (hrun : s.run db = .ok db') : OneCurrent db' ↔ OneCurrent db := by
  have hgrows := run_grows hrun
  have hsame (t : Table) (ht : db.tables.lookup "context_snapshots" = some t) :
      ∃ t', db'.tables.lookup "context_snapshots" = some t' ∧ oneCurrentIndex.keys t' = oneCurrentIndex.keys t := by
    rcases hgrows.tables _ t ht with h | ⟨column, cell, rfl, -, -, h⟩
    · exact ⟨t, h, rfl⟩
    · refine ⟨_, h, ?_⟩
      simp only [spares, ne_eq, not_true_eq_false, decide_false, Bool.false_or, Bool.and_eq_true,
        decide_eq_true_eq] at hspares
      apply keys_extend
      · simpa [oneCurrentIndex] using hspares.1
      · rintro c ⟨⟩
        exact Ne.symm hspares.2
  constructor
  · intro h t ht
    obtain ⟨t', ht', hkeys⟩ := hsame t ht
    rw [← hkeys]
    exact h t' ht'
  · intro h t' ht'
    cases ht : db.tables.lookup "context_snapshots" with
    | none =>
      have hrows := hgrows.fresh _ _ ht ht'
      rw [Index.keys, hrows]
      exact List.nodup_nil
    | some t =>
      obtain ⟨t'', ht'', hkeys⟩ := hsame t ht
      obtain rfl := Option.some.inj (ht'.symm.trans ht'')
      rw [hkeys]
      exact h t ht

end Rows

section Completion

def nulls (index : Index) : Statement → Bool
  | .addColumn table column => table = index.table && column.default = .null && column.name ∈ index.columns
  | _ => false

/-- After the statements `done`, no row can break a unique index that a statement builds,
but for the index of current snapshots. -/
def ready (done : List Statement) : Statement → Bool
  | .createIndex _ index => !index.unique || index = oneCurrentIndex || done.any (nulls index)
  | s => spares s

def prepared : List Statement → List Statement → Bool
  | _, [] => true
  | done, s :: rest => ready done s && prepared (s :: done) rest

theorem ready_spares {done : List Statement} (h : ready done s = true) : spares s = true := by
  cases s with
  | addColumn table column => exact h
  | _ => rfl

theorem ready_admits {done : List Statement} (h : ready done s = true)
    (hnull : ∀ table column, .addColumn table column ∈ done → column.default = .null → NullIn table column.name db)
    (hone : OneCurrent db) : Admits s db := by
  cases s with
  | createIndex name index =>
    intro hunique
    right
    intro t ht
    simp only [ready, hunique, Bool.not_true, Bool.false_or, Bool.or_eq_true, decide_eq_true_eq] at h
    rcases h with rfl | h
    · exact hone t ht
    · obtain ⟨s, hs, hnulls⟩ := List.any_eq_true.mp h
      cases s with
      | addColumn table column =>
        simp only [nulls, Bool.and_eq_true, decide_eq_true_eq] at hnulls
        obtain ⟨⟨rfl, hdefault⟩, hcolumn⟩ := hnulls
        rw [keys_null hcolumn (hnull _ column hs hdefault) ht]
        exact List.nodup_nil
      | _ => cases hnulls
  | _ => trivial

/-- Statements that go through without rows go through with rows whose current snapshots
are one for each context. -/
theorem play_blank {done rest : List Statement} {b : Database} (hprepared : prepared done rest = true)
    (hnull : ∀ table column, .addColumn table column ∈ done → column.default = .null → NullIn table column.name db)
    (hone : OneCurrent db) (h : play Statement.run rest (blank db) = .ok b) :
    ∃ db', play Statement.run rest db = .ok db' := by
  induction rest generalizing done db with
  | nil => exact ⟨db, rfl⟩
  | cons s rest ih =>
    obtain ⟨hready, hrest⟩ := Bool.and_eq_true_iff.mp hprepared
    have hblank := run_blank (ready_admits hready hnull hone)
    cases hs : s.run db with
    | error e =>
      rw [hs] at hblank
      rw [play_cons_error hblank] at h
      cases h
    | ok db₁ =>
      rw [hs] at hblank
      rw [play_cons_ok hblank] at h
      rw [play_cons_ok hs]
      apply ih hrest _ ((oneCurrent_iff (ready_spares hready) hs).mpr hone) h
      intro table column hmem hdefault
      rcases List.mem_cons.mp hmem with rfl | hmem
      · exact nullIn_added hdefault hs
      · exact nullIn_stays hs (hnull table column hmem hdefault)

theorem index_unchanged {name : String} (hs : ∀ index, s ≠ .createIndex name index) (hrun : s.run db = .ok db') :
    db'.indexes.lookup name = db.indexes.lookup name := by
  cases s with
  | createVersions =>
    obtain rfl := Except.ok.inj hrun
    rfl
  | createTable table columns constraints =>
    rw [Statement.run] at hrun
    split at hrun <;> obtain rfl := Except.ok.inj hrun <;> rfl
  | createIndex other index =>
    rw [Statement.run] at hrun
    split at hrun
    · cases hrun
    · rcases buildIndex_cases hrun with ⟨-, rfl⟩ | ⟨-, -, rfl⟩
      · rfl
      · have hne : name ≠ other := by
          rintro rfl
          exact hs index rfl
        rw [lookup_snoc, if_neg hne, Option.or_none]
  | addColumn table column =>
    rw [Statement.run] at hrun
    split at hrun
    · cases hrun
    · obtain ⟨-, cell, -, rfl⟩ := alter_cases hrun
      rfl
  | recordVersion version =>
    rw [Statement.run] at hrun
    split at hrun
    · cases hrun
    · obtain rfl := Except.ok.inj hrun
      rfl

theorem oneCurrent_of_play {rest : List Statement} {name : String} (hspares : ∀ s ∈ rest, spares s = true)
    (hbuilt : .createIndex name oneCurrentIndex ∈ rest)
    (honly : ∀ index, .createIndex name index ∈ rest → index = oneCurrentIndex)
    (hnew : (db.indexes.lookup name).isSome = false) (h : play Statement.run rest db = .ok db') : OneCurrent db := by
  induction rest generalizing db with
  | nil => cases hbuilt
  | cons s rest ih =>
    cases hs : s.run db with
    | error e =>
      rw [play_cons_error hs] at h
      cases h
    | ok db₁ =>
      rw [play_cons_ok hs] at h
      by_cases hhere : s = .createIndex name oneCurrentIndex
      · subst hhere
        intro t ht
        have htable : db.tables.lookup oneCurrentIndex.table = some t := ht
        rw [Statement.run, htable] at hs
        rcases buildIndex_cases hs with ⟨hsome, -⟩ | ⟨-, hkeys, -⟩
        · rw [hnew] at hsome
          cases hsome
        · exact hkeys rfl
      · have hother : ∀ index, s ≠ .createIndex name index := by
          rintro index rfl
          rw [honly index (List.mem_cons_self ..)] at hhere
          exact hhere rfl
        rw [← oneCurrent_iff (hspares s (List.mem_cons_self ..)) hs]
        apply ih (fun x hx => hspares x (List.mem_cons_of_mem s hx))
          ((List.mem_cons.mp hbuilt).resolve_left (Ne.symm hhere))
          (fun index hindex => honly index (List.mem_cons_of_mem s hindex)) _ h
        rw [index_unchanged hother hs]
        exact hnew

end Completion

section Resumed

variable {db₀ full : Database}

def scriptsUpTo (version : Int) : List Statement :=
  .createVersions :: (migrations.filter (fun m => m.1 ≤ version)).flatMap Prod.snd

/-- A database as it is before any run is interrupted: one that has all migrations or newer
ones, a new file, or one that the first migrations made, with any rows in its tables. -/
inductive Starting (db : Database) : Prop
  | current (h : 3 ≤ db.currentVersion)
  | file (h : db = .empty)
  | migrated (version : Int) (hversion : version ≤ 2)
      (h : play Statement.run (scriptsUpTo version) .empty = .ok (blank db))

theorem scriptsUpTo_cases {version : Int} (h : version ≤ 2) :
    ∃ n, (n = 0 ∨ n = 1 ∨ n = 2) ∧ scriptsUpTo version = scriptsUpTo n := by
  by_cases h₁ : version < 1
  · refine ⟨0, .inl rfl, ?_⟩
    simp [scriptsUpTo, migrations, show ¬ (1 ≤ version) by omega, show ¬ (2 ≤ version) by omega,
      show ¬ (3 ≤ version) by omega]
  · refine ⟨version, ?_, rfl⟩
    omega

theorem migrated_facts {n : Int} (hn : n = 0 ∨ n = 1 ∨ n = 2)
    (h : play Statement.run (scriptsUpTo n) .empty = .ok (blank db)) :
    db.currentVersion = n ∧ db.versions.isSome ∧
      (db.indexes.lookup "idx_context_snapshots_one_current").isSome = false := by
  have hmap := congrArg (Except.map (fun d : Database => (d.currentVersion, d.versions.isSome,
    (d.indexes.lookup "idx_context_snapshots_one_current").isSome))) h
  have hfacts : (db.currentVersion, db.versions.isSome,
      (db.indexes.lookup "idx_context_snapshots_one_current").isSome) = (n, true, false) := by
    rcases hn with rfl | rfl | rfl <;> exact (Except.ok.inj hmap).symm
  simpa only [Prod.mk.injEq] using hfacts

theorem completes_migrated {n : Int} (hn : n = 0 ∨ n = 1 ∨ n = 2)
    (h : play Statement.run (scriptsUpTo n) .empty = .ok (blank db)) :
    (∃ done, runMigrations db = .ok done) ↔ OneCurrent db := by
  obtain ⟨hversion, hversions, hnew⟩ := migrated_facts hn h
  rw [runMigrations_created, created_eq_self hversions, hversion]
  constructor
  · rintro ⟨done, hdone⟩
    apply oneCurrent_of_play _ _ _ hnew hdone
    · rcases hn with rfl | rfl | rfl <;> decide
    · rcases hn with rfl | rfl | rfl <;> decide
    · rcases hn with rfl | rfl | rfl <;> simp [scriptsAfter, migrations, script001, script002, script003, body003,
        runtimeColumns]
  · intro hone
    have hprepared : prepared [] (scriptsAfter n) = true := by
      rcases hn with rfl | rfl | rfl <;> decide
    have hrest : (play Statement.run (scriptsUpTo n ++ scriptsAfter n) .empty).isOk = true := by
      rcases hn with rfl | rfl | rfl <;> decide
    rw [play_append_ok h] at hrest
    cases hblank : play Statement.run (scriptsAfter n) (blank db) with
    | error e =>
      rw [hblank] at hrest
      cases hrest
    | ok b => exact play_blank hprepared (fun _ _ hmem => by cases hmem) hone hblank

theorem current_runs (h : 3 ≤ full.currentVersion) : runMigrations full = .ok full := by
  have hversions : full.versions.isSome = true := by
    cases hnone : full.versions with
    | none =>
      rw [Database.currentVersion, hnone] at h
      exact absurd h (by decide)
    | some vs => rfl
  rw [runMigrations_created, created_eq_self hversions, scriptsAfter_eq, if_neg (by omega), if_neg (by omega),
    if_neg (by omega)]
  rfl

/-- From a starting database, the migrations complete exactly if they are all done or no
context has two current snapshots. -/
theorem completes_iff (h : Starting db) :
    (∃ done, runMigrations db = .ok done) ↔ 3 ≤ db.currentVersion ∨ OneCurrent db := by
  cases h with
  | current h => exact iff_of_true ⟨db, current_runs h⟩ (.inl h)
  | file h =>
    subst h
    have hone (d : Database) (htables : d.tables = []) : OneCurrent d := by
      intro t ht
      rw [htables] at ht
      cases ht
    have hcreated : ∃ done, runMigrations (created .empty) = .ok done :=
      (completes_migrated (.inl rfl) rfl).mpr (hone _ rfl)
    exact iff_of_true hcreated (.inr (hone _ rfl))
  | migrated version hversion h =>
    obtain ⟨n, hn, heq⟩ := scriptsUpTo_cases hversion
    rw [heq] at h
    have hlt : ¬ (3 ≤ db.currentVersion) := by
      have := (migrated_facts hn h).1
      omega
    rw [completes_migrated hn h, or_iff_right hlt]

/-- After any number of interrupted runs of the migrations, the next one completes and
ends as the first would have, exactly if that could complete and no run was cut off inside
of `003_context_runtime_state.sql`; on a database with all migrations a run changes nothing. -/
theorem migrations_resume_iff (hstart : Starting db₀) (hcuts : Interrupted db₀ db) :
    (Resumes db₀ db ↔ (3 ≤ db₀.currentVersion ∨ OneCurrent db₀) ∧ ¬ Inside db) ∧
      ∀ full : Database, 3 ≤ full.currentVersion → runMigrations full = .ok full := by
  refine ⟨?_, fun _ h => current_runs h⟩
  rw [resumes_of_interrupted hcuts, completes_iff hstart]

end Resumed

section Sample

/-- The database that a run leaves when it is cut off after `k` statements. -/
def cutAfter (k : Nat) (db : Database) : Database :=
  match play Statement.run ((pending db).take k) db with
  | .ok db' => db'
  | .error _ => db

theorem cutAfter_cutOff (k : Nat) (db : Database) : CutOff db (cutAfter k db) := by
  cases h : play Statement.run ((pending db).take k) db with
  | ok db' =>
    rw [cutAfter, h]
    exact ⟨_, _, (List.take_append_drop k _).symm, h⟩
  | error e =>
    rw [cutAfter, h]
    exact ⟨[], _, rfl, rfl⟩

/-- `INSERT` of a row, if it has a cell for each column. -/
def insert (row : List (Option Cell)) (t : Table) : Table :=
  if h : row.length = t.columns.length then
    ⟨t.columns, t.constraints, t.rows ++ [row], by simpa [or_imp, forall_and] using ⟨t.width, h⟩⟩
  else t

def firstVersion : Database :=
  (cutAfter 7 .empty).update "contexts" (insert ([.integer 1, .text "large", .text "default", .integer 1,
    .text "SELECT txn_id FROM txns", .text "txn_id", .integer 0].map some ++ [none, none, none] ++
    [.text "internal", .text "draft"].map some ++ [none, none] ++
    [.text "2024-01-01 00:00:00", .text "2024-01-01 00:00:00"].map some ++ [none, none, none]))

/-- It is cut off in the second migration, once and once more, and resumes. -/
theorem migrations_resume_sample :
    ((firstVersion.tables.lookup "contexts").map (fun t => t.rows.length)) = some 1 ∧
      Resumes firstVersion (cutAfter 5 (cutAfter 3 firstVersion)) ∧
      ∀ full : Database, 3 ≤ full.currentVersion → runMigrations full = .ok full := by
  have hcuts : Interrupted firstVersion (cutAfter 5 (cutAfter 3 firstVersion)) :=
    (Relation.ReflTransGen.single (cutAfter_cutOff 3 _)).tail (cutAfter_cutOff 5 _)
  have hresume := migrations_resume_iff (.migrated 1 (by decide) rfl) hcuts
  refine ⟨by decide, hresume.1.mpr ⟨.inr ?_, ?_⟩, hresume.2⟩
  · intro t ht
    cases ht
  · rintro ⟨hlevel, -⟩
    exact absurd hlevel (by decide)

/-- On a new file the first run is cut off after the first column of the third migration,
and no run completes any more. -/
theorem cut_inside :
    Starting .empty ∧ CutOff .empty (cutAfter 14 .empty) ∧ (∃ done, runMigrations .empty = .ok done) ∧
      runMigrations (cutAfter 14 .empty) = .error (.operationalError "duplicate column name: context_id") ∧
      ¬ Resumes .empty (cutAfter 14 .empty) := by
  have hfails :
      runMigrations (cutAfter 14 .empty) = .error (.operationalError "duplicate column name: context_id") := rfl
  refine ⟨.file rfl, cutAfter_cutOff 14 _, (completes_iff (.file rfl)).mpr (.inr (fun t ht => by cases ht)), hfails, ?_⟩
  rintro ⟨done, hdone, -⟩
  rw [hfails] at hdone
  cases hdone

end Sample

end ContextqlServer.Db.Upgrades
