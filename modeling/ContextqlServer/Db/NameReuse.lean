import ContextqlServer.Db.CatalogViews

namespace ContextqlServer.Db.NameReuse

open ContextqlServer.Lib.Effect ContextqlServer.Lib.JsonText ContextqlServer.Lib.Sql
open ContextqlServer.Db.Schema ContextqlServer.Db.Statements ContextqlServer.Db.Services
open ContextqlServer.Db.ContextCatalog ContextqlServer.Db.ContextCatalog.SQLiteContextRuntimeRepository
open ContextqlServer.Db.Calls ContextqlServer.Db.Codec ContextqlServer.Db.ContextRows
open ContextqlServer.Db.RestCatalog ContextqlServer.Db.CatalogViews

variable {P : Packages} {t t' : Tables} {c c' : Connection catalog} {e : ContextCatalogEntry P}
  {rawDdl : Option String}

/-- An entry that is to take a name whose rows are all dropped, as version 1 of a
context that has no rows. -/
structure Reuses (e : ContextCatalogEntry P) (t : Tables) : Prop where
  version : e.version = 1
  storable : ∀ n ∈ e.currentSnapshotVersion, Storable n
  unused : ∀ r ∈ rows t, r.contextId ≠ some e.contextId
  dropped : ∀ r ∈ rows t, r.name = e.name → r.namespaceName = e.namespaceName → r.droppedAt ≠ none

def Free (e : ContextCatalogEntry P) (t : Tables) : Prop :=
  e.entityKeyName.isSome ∧
    ∀ r ∈ rows t, r.name = e.name → r.namespaceName = e.namespaceName → r.version ≠ 1

/-- The entry is saved, both views of the catalog return it, and no row changes. -/
def Reused (T : FloatText) (E : Engine) (e : ContextCatalogEntry P) (rawDdl : Option String)
    (c : Connection catalog) : Prop :=
  ∃ c', (Connection.handler catalog).exec (saveContext e rawDdl) c = (.ok (), c') ∧
    (∃ es, (Connection.handler catalog).exec (loadContexts P) c' = (.ok es, c'.advance) ∧ e ∈ es) ∧
    (∃ x, (handler T E).exec (CatalogService.get T e.name e.namespaceName) c' =
        (.ok (some x), c'.advance) ∧ Stores x.row e) ∧
    ∃ r, rows c'.pending = rows c.pending ++ [r]

theorem run_of_exec (h : (Connection.handler catalog).exec (saveContext e rawDdl) c = (.ok (), c')) :
    ∃ t' a, (Call.saveStatement e rawDdl c.pending).run a c.pending = .ok t' ∧ c'.pending = t' := by
  obtain ⟨_, c₀, hbind, h⟩ := Handler.exec_bind_ok.mp h
  obtain ⟨-, rfl⟩ := Prod.mk.inj ((Handler.exec_ofExcept _ _ _).symm.trans hbind)
  obtain ⟨t, c₁, hselect, h⟩ := Handler.exec_bind_ok.mp h
  cases hselect
  obtain ⟨t', c₂, hexecute, h⟩ := Handler.exec_bind_ok.mp h
  cases h
  cases hrun : (Call.saveStatement e rawDdl c.pending).run c.advance.reading c.pending with
  | ok t₁ =>
    have hok := (exec_execute_ok (c := c.advance) hrun).symm.trans hexecute
    cases hok
    exact ⟨t', _, hrun, rfl⟩
  | error err =>
    have herror := (exec_execute_error (c := c.advance) hrun).symm.trans hexecute
    cases herror

theorem run_insert (a : Ambient) (hstorable : ∀ n ∈ integers (e.values rawDdl), Storable n)
    (hnew : ∀ r ∈ rows t, atVersion e.contextId e.version r = false) (hkey : e.entityKeyName.isSome)
    (hname : ∀ r ∈ rows t, named e.name e.namespaceName r → r.version ≠ e.version) :
    ∃ t', (Call.saveStatement e rawDdl t).run a t = .ok t' := by
  obtain ⟨key, hkey⟩ := Option.isSome_iff_exists.mp hkey
  have hany : (rows t).any (atVersion e.contextId e.version) = false := by
    rw [List.any_eq_false]
    intro r hr
    rw [hnew r hr]
    exact Bool.false_ne_true
  rw [Call.saveStatement, hany]
  refine ⟨_, Statement.run_ok.mpr ⟨hstorable, bind_eq_ok.mpr ⟨key, notNull_ok.mpr hkey,
    bind_eq_ok.mpr ⟨(), unique_ok.mpr ?_, bind_eq_ok.mpr ⟨(), unique_ok.mpr ?_, rfl⟩⟩⟩⟩⟩
  · rw [List.any_eq_false]
    intro r hr
    simp only [Bool.and_eq_true, decide_eq_true_eq]
    rintro ⟨hnamed, hversion⟩
    exact hname r hr hnamed hversion
  · rw [sameVersion_values]
    exact hany

theorem inserted_latest {row : ContextRow} (hr : Reuses e t) (hrow : Inserted e rawDdl row)
    (ht : rows t' = rows t ++ [row]) :
    IsLatest (rows t') e.contextId row ∧ IsLatestNamed (rows t') e.name e.namespaceName row := by
  have hmem : row ∈ rows t' := by simp [ht]
  have hcases : ∀ s ∈ rows t', s ∈ rows t ∨ s = row := by
    intro s hs
    simpa [ht] using hs
  have hid : row.contextId = some e.contextId := by rw [hrow.values]; rfl
  have hname : row.name = e.name ∧ row.namespaceName = e.namespaceName := by
    rw [hrow.values]
    exact ⟨rfl, rfl⟩
  refine ⟨⟨hmem, hid, hrow.droppedAt, ?_⟩, ⟨hmem, hname, hrow.droppedAt, ?_⟩⟩
  · intro s hs hsid _
    obtain hs | rfl := hcases s hs
    · exact absurd hsid (hr.unused s hs)
    · exact le_rfl
  · intro s hs hsname hsns hd
    obtain hs | rfl := hcases s hs
    · exact absurd hd (hr.dropped s hs hsname hsns)
    · exact le_rfl

/-- A name that was dropped can be taken again exactly where no row of it, dropped as
it is, has version 1. -/
theorem reused_iff (hP : Lawful P) (T : FloatText) (E : Engine) {c₀ : Connection catalog}
    {h : List (Entry P)} (h₀ : Fresh c₀) (hr : Reaches c₀ h c) (hplain : ∀ x ∈ h, SavesPlain x.1)
    (he : WellFormed e) (hreuses : Reuses e c.pending) :
    Reused T E e rawDdl c ↔ Free e c.pending := by
  have hnew : ∀ r ∈ rows c.pending, atVersion e.contextId e.version r = false := by
    intro r hr
    rw [Bool.eq_false_iff]
    exact fun hat => hreuses.unused r hr (atVersion_iff.mp hat).1
  constructor
  · rintro ⟨c', hsave, -⟩
    obtain ⟨t', a, hrun, -⟩ := run_of_exec hsave
    cases saved_of_run hrun with
    | update now hexists hkey hname ht =>
      obtain ⟨r, hr, hat⟩ := hexists
      rw [hnew r hr] at hat
      cases hat
    | insert row hrow hkey hnew hname ht =>
      refine ⟨hkey, ?_⟩
      intro r hr hrname hrns
      rw [← hreuses.version]
      exact hname r hr (named_iff.mpr ⟨hrname, hrns⟩)
  · rintro ⟨hkey, hfree⟩
    have hname : ∀ r ∈ rows c.pending, named e.name e.namespaceName r → r.version ≠ e.version := by
      intro r hr hnamed
      rw [hreuses.version]
      exact hfree r hr (named_iff.mp hnamed).1 (named_iff.mp hnamed).2
    have hversion : Storable e.version := by
      rw [hreuses.version]
      decide
    obtain ⟨t', hrun⟩ := run_insert c.advance.reading (storable_values.mpr ⟨hversion, hreuses.storable⟩) hnew hkey hname
    have hsaved := saved_of_run hrun
    have hkeyed : Keyed (rows t') := (reaches_keyed h₀ hr).2.saved hsaved
    have hlegible : ∀ r ∈ rows t', Legible P r :=
      Rewrites.legible (.save hsaved) he.toJsonPlain (reaches_legible h₀ hr hplain)
    cases hsaved with
    | update now hexists hkey hname ht =>
      obtain ⟨r, hr, hat⟩ := hexists
      rw [hnew r hr] at hat
      cases hat
    | insert row hrow hkey _ _ ht =>
      have hrows : rows t' = rows c.pending ++ [row] := congrArg rows ht
      obtain ⟨hlatest, hlatestNamed⟩ := inserted_latest hreuses hrow hrows
      obtain ⟨es, hes⟩ := loaded_total hlegible
      have hread := Stores.entryFromRow hP ⟨rawDdl, hrow.values⟩ he
      refine ⟨_, exec_saveContext_ok hrun, ⟨es, ?_, ?_⟩, ⟨rowToDict T row, ?_, rawDdl, hrow.values⟩,
        row, hrows⟩
      · exact (exec_loadContexts P _).trans (by rw [← hes]; rfl)
      · exact (mem_loaded hes).mpr ⟨row, hlatest, hread⟩
      · refine (exec_get T E _ _ _).trans ?_
        have hget : latestNamed t' e.name e.namespaceName = some row :=
          (latestNamed_eq_some hkeyed.names).mpr hlatestNamed
        exact congrArg (fun r => (Except.ok (Option.map (rowToDict T) r), _)) hget

section Sample

open VersionedMap

def droppedCalls (version : Int) : List (Call samplePackages) :=
  [.save (sampleEntry "a" "name" version) none, .drop (sampleEntry "a" "name" version)]

theorem droppedCalls_plain (version : Int) :
    ∀ x ∈ outcomes (sampleConnection .empty) (droppedCalls version), SavesPlain x.1 := by
  intro x hx
  have hcall : x.1 ∈ droppedCalls version := by
    rw [← outcomes_calls (sampleConnection .empty) (droppedCalls version)]
    exact List.mem_map_of_mem hx
  simp only [droppedCalls, List.mem_cons, List.not_mem_nil, or_false] at hcall
  obtain hcall | hcall := hcall
  · rw [hcall]
    exact (sampleEntry_wellFormed "a" "name" version).toJsonPlain
  · rw [hcall]
    trivial

/-- A name is free again when its context never had a version 1. -/
theorem reused_iff_sample :
    Reused samplePackages.floatText sampleEngine (sampleEntry "b" "name" 1) none
      (runCalls (sampleConnection .empty) (droppedCalls 2)) := by
  have hr := runCalls_reaches (c := sampleConnection .empty) .start (droppedCalls 2)
  refine (reused_iff samplePackages_lawful samplePackages.floatText sampleEngine ⟨rfl, rfl⟩ hr
    (droppedCalls_plain 2) (sampleEntry_wellFormed "b" "name" 1) ⟨rfl, nofun, ?_, ?_⟩).mpr ⟨rfl, ?_⟩
  · decide
  · decide
  · decide

theorem reuse_refused :
    Reuses (sampleEntry "b" "name" 1) (runCalls (sampleConnection .empty) (droppedCalls 1)).pending ∧
      ¬ Reused samplePackages.floatText sampleEngine (sampleEntry "b" "name" 1) none
        (runCalls (sampleConnection .empty) (droppedCalls 1)) := by
  refine ⟨⟨rfl, nofun, by decide, by decide⟩, ?_⟩
  rintro ⟨c', hsave, -⟩
  have hrefused : ((Connection.handler catalog).exec (saveContext (sampleEntry "b" "name" 1) none)
      (runCalls (sampleConnection .empty) (droppedCalls 1))).1 = .error (.integrityError
        "UNIQUE constraint failed: contexts.name, contexts.namespace, contexts.version") := by decide
  rw [hsave] at hrefused
  cases hrefused

end Sample

end ContextqlServer.Db.NameReuse
