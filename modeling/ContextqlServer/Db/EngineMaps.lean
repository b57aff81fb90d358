import ContextqlServer.Db.Calls

namespace ContextqlServer.Db.EngineMaps

open ContextqlServer.Lib.Effect ContextqlServer.Lib.JsonText ContextqlServer.Lib.Mapping ContextqlServer.Lib.Sql
open ContextqlServer.Db.Schema ContextqlServer.Db.Statements ContextqlServer.Db.Services ContextqlServer.Db.Calls

/-- The identity maps of an engine: for each name the path that one path is mapped to. -/
abbrev Registry := Dict String (String × String)

def registerIdentityMap (registry : Registry) (m : String × String × String) : Registry := registry.insert m.1 m.2

/-- A running server: its connection, and the maps that its engine has. -/
structure Server where
  connection : Connection catalog
  registry : Registry

inductive Event where
  | register (v : IdentityMapValues)
  | restart

/-- `sync_to_engine` on the engine of a server that starts. -/
def start (c : Connection catalog) : Server :=
  let sync := (Connection.handler catalog).exec IdentityService.syncToEngine c
  ⟨sync.2, (sync.1.toOption.getD []).foldl registerIdentityMap ∅⟩

section Steps

variable (T : FloatText) (self : IdentityService)

def Server.step (s : Server) : Event → Server
  | .register v => { s with connection := ((Connection.handler catalog).exec (self.register T v) s.connection).2 }
  | .restart => start s.connection.reopen

def Server.run (s : Server) (events : List Event) : Server := events.foldl (Server.step T self) s

end Steps

abbrev mapsOf (c : Connection catalog) : List IdentityMapRow := c.pending.identityMaps.rows

def paths (r : IdentityMapRow) : String × String := (r.sourceEntityPath, r.targetEntityPath)

/-- Every map of the database is in the registry under its paths, and a restart builds
the same registry. -/
structure Consistent (s : Server) : Prop where
  represented : ∀ r ∈ mapsOf s.connection, s.registry.lookup r.name = some (paths r)
  rebuilt : (start s.connection.reopen).registry = s.registry

def Agree (rs : List IdentityMapRow) : Prop := ∀ r ∈ rs, ∀ s ∈ rs, r.name = s.name → paths r = paths s

section Loaded

def loaded (rs : List IdentityMapRow) : Registry :=
  (rs.map (fun r => (r.name, r.sourceEntityPath, r.targetEntityPath))).foldl registerIdentityMap ∅

theorem start_registry (c : Connection catalog) : (start c).registry = loaded (mapsOf c) := rfl

theorem loaded_snoc (rs : List IdentityMapRow) (r : IdentityMapRow) :
    loaded (rs ++ [r]) = (loaded rs).insert r.name (paths r) := by
  rw [loaded, List.map_append, List.foldl_append]
  rfl

theorem loaded_iff {rs : List IdentityMapRow} :
    (∀ r ∈ rs, (loaded rs).lookup r.name = some (paths r)) ↔ Agree rs := by
  constructor
  · intro h r hr s hs hname
    apply Option.some.inj
    rw [← h r hr, ← h s hs, hname]
  · intro h
    induction rs using List.reverseRecOn with
    | nil => simp
    | append_singleton rs s ih =>
      intro r hr
      rw [loaded_snoc, lookup_insert']
      split
      · rename_i hname
        rw [h s (by simp) r hr hname.symm]
      · rename_i hname
        obtain hr | hr := List.mem_append.mp hr
        · exact ih (fun x hx y hy => h x (by simp [hx]) y (by simp [hy])) r hr
        · rw [List.mem_singleton.mp hr] at hname
          exact absurd rfl hname

theorem insert_eq_iff {registry : Registry} {name : String} {p : String × String} :
    registry.insert name p = registry ↔ registry.lookup name = some p := by
  constructor
  · intro h
    rw [← h, lookup_insert', if_pos rfl]
  · intro h
    apply Finmap.ext_lookup
    intro k
    rw [lookup_insert']
    split
    · rename_i hk
      rw [hk, h]
    · rfl

end Loaded

section Register

variable {T : FloatText} {self : IdentityService} {v : IdentityMapValues} {c c' : Connection catalog}

def Free (v : IdentityMapValues) (c : Connection catalog) : Prop :=
  ∀ r ∈ mapsOf c, ¬ (r.name = v.name ∧ r.namespaceName = v.namespaceName)

/-- There is nothing uncommitted about the maps. -/
def Settled (c : Connection catalog) : Prop := c.committed.identityMaps = c.pending.identityMaps

theorem free_iff : Free v c ↔
    c.pending.identityMaps.rows.any (fun r => r.name = v.name && r.namespaceName = v.namespaceName) = false := by
  rw [List.any_eq_false]
  apply forall₂_congr
  intro r _
  simp

theorem register_free (hfree : Free v c) :
    ∃ r, mapsOf ((Connection.handler catalog).exec (self.register T v) c).2 = mapsOf c ++ [r] ∧
      r.name = v.name ∧ paths r = (v.sourceEntityPath, v.targetEntityPath) ∧
        Settled ((Connection.handler catalog).exec (self.register T v) c).2 := by
  obtain ⟨t, hrun, hrows⟩ : ∃ t, (Statement.insertIdentityMap v).run c.reading c.pending = .ok t ∧
      ∃ r, t.identityMaps.rows = mapsOf c ++ [r] ∧ r.name = v.name ∧
        paths r = (v.sourceEntityPath, v.targetEntityPath) := by
    exact ⟨_, Statement.run_ok.mpr ⟨List.forall_mem_nil _,
      congrArg (· >>= _) (unique_ok (u := ()).mpr (free_iff.mp hfree))⟩, _, rfl, rfl, rfl⟩
  obtain ⟨c₁, haudit, hpending, hnone⟩ := @exec_auditLog T self.audit "identity_map.registered" "identity_map" v.name
    v.namespaceName none ((c.working t).advance.settled t).advance
  have hexecute : (Connection.handler catalog).exec (execute (M := catalog) (.insertIdentityMap v)) c =
      (.ok t, (c.working t).advance) := exec_execute_ok hrun
  have hafter := (Handler.exec_bind (fun _ => IdentityService.get v.name v.namespaceName) haudit)
  have hexec := (Handler.exec_bind (fun _ => do
    commit
    auditLog T self.audit "identity_map.registered" "identity_map" v.name v.namespaceName none
    IdentityService.get v.name v.namespaceName) hexecute).trans ((Handler.exec_bind _ exec_commit).trans hafter)
  rw [IdentityService.register, hexec]
  obtain ⟨r, hr, hname, hpaths⟩ := hrows
  refine ⟨r, ?_, hname, hpaths, ?_⟩
  · change c₁.pending.identityMaps.rows = _
    rw [hpending]
    exact hr
  · change c₁.committed.identityMaps = c₁.pending.identityMaps
    rw [Connection.pending_of_none (hnone rfl)]

theorem register_taken (hfree : ¬ Free v c) :
    mapsOf ((Connection.handler catalog).exec (self.register T v) c).2 = mapsOf c ∧
      (Settled c → Settled ((Connection.handler catalog).exec (self.register T v) c).2) := by
  have hrun : ∃ e, (Statement.insertIdentityMap v).run c.reading c.pending = .error e := by
    rw [free_iff, Bool.not_eq_false] at hfree
    refine ⟨.integrityError s!"UNIQUE constraint failed: identity_maps.name, identity_maps.namespace", ?_⟩
    change (do unique _ _; pure _ : Except DbError Tables) = _
    rw [hfree]
    rfl
  obtain ⟨e, hrun⟩ := hrun
  have hexecute : (Connection.handler catalog).exec (execute (M := catalog) (.insertIdentityMap v)) c =
      (.error e, (c.working c.pending).advance) := exec_execute_error hrun
  have hexec := Handler.exec_bind_error (fun _ => do
    commit
    auditLog T self.audit "identity_map.registered" "identity_map" v.name v.namespaceName none
    IdentityService.get v.name v.namespaceName) hexecute
  rw [IdentityService.register, hexec]
  exact ⟨rfl, id⟩

end Register

section Runs

variable {T : FloatText} {self : IdentityService} {v : IdentityMapValues} {s : Server} {c c₀ : Connection catalog}
  {events : List Event}

theorem restart_registry (hsettled : Settled c) : (start c.reopen).registry = loaded (mapsOf c) := by
  rw [start_registry]
  change loaded c.committed.identityMaps.rows = _
  rw [hsettled]

theorem consistent_start (hsettled : Settled c₀) : Consistent (start c₀) ↔ Agree (mapsOf c₀) := by
  constructor
  · exact fun h => loaded_iff.mp h.represented
  · exact fun h => ⟨loaded_iff.mpr h, restart_registry hsettled⟩

theorem consistent_register (hsettled : Settled s.connection) (hfree : Free v s.connection) (h : Consistent s) :
    Consistent (s.step T self (.register v)) ↔
      s.registry.lookup v.name = some (v.sourceEntityPath, v.targetEntityPath) := by
  obtain ⟨r, hrows, hname, hpaths, hsettled'⟩ := @register_free T self v s.connection hfree
  have hrebuilt : (start (s.step T self (.register v)).connection.reopen).registry =
      s.registry.insert v.name (v.sourceEntityPath, v.targetEntityPath) := by
    rw [Server.step, restart_registry hsettled', hrows, loaded_snoc, hname, hpaths, ← restart_registry hsettled,
      h.rebuilt]
  constructor
  · intro h'
    rw [← insert_eq_iff, ← hrebuilt]
    exact h'.rebuilt
  · intro hlookup
    refine ⟨?_, ?_⟩
    · rw [Server.step, hrows, List.forall_mem_append, List.forall_mem_singleton, hname, hpaths]
      exact ⟨h.represented, hlookup⟩
    · rw [hrebuilt, insert_eq_iff.mpr hlookup]
      rfl

/-- Nothing changes where the name is taken. -/
theorem consistent_taken (hsettled : Settled s.connection) (hfree : ¬ Free v s.connection) (h : Consistent s) :
    Consistent (s.step T self (.register v)) := by
  obtain ⟨hrows, hsettled'⟩ := @register_taken T self v s.connection hfree
  refine ⟨?_, ?_⟩
  · rw [Server.step, hrows]
    exact h.represented
  · rw [Server.step, restart_registry (hsettled' hsettled), hrows, ← restart_registry hsettled]
    exact h.rebuilt

theorem consistent_restart (hsettled : Settled s.connection) (h : Consistent s) :
    Consistent (s.step T self .restart) := by
  have hreopened : Settled s.connection.reopen := rfl
  apply (consistent_start hreopened).mpr
  change Agree s.connection.committed.identityMaps.rows
  rw [hsettled, ← loaded_iff, ← restart_registry hsettled, h.rebuilt]
  exact h.represented

theorem step_settled (hsettled : Settled s.connection) (e : Event) : Settled (s.step T self e).connection := by
  cases e with
  | restart => rfl
  | register v =>
    by_cases hfree : Free v s.connection
    · obtain ⟨-, -, -, -, h⟩ := @register_free T self v s.connection hfree
      exact h
    · exact (register_taken hfree).2 hsettled

theorem run_snoc (s : Server) (events : List Event) (e : Event) :
    s.run T self (events ++ [e]) = (s.run T self events).step T self e := by
  rw [Server.run, List.foldl_append]
  rfl

theorem run_settled (hsettled : Settled c₀) (events : List Event) :
    Settled ((start c₀).run T self events).connection := by
  induction events using List.reverseRecOn with
  | nil => exact hsettled
  | append_singleton events e ih =>
    rw [run_snoc]
    exact step_settled ih e

/-- A map is registered whose paths the engine already has under its name, or one whose name is taken. -/
def Known (s : Server) : Event → Prop
  | .register v => Free v s.connection → s.registry.lookup v.name = some (v.sourceEntityPath, v.targetEntityPath)
  | .restart => True

/-- The engine and the database agree all through a run exactly when the maps agree at its
start and every map registered is one whose paths the engine already has. -/
theorem consistent_iff (T : FloatText) (self : IdentityService) (events : List Event) (hnone : c₀.transaction = none) :
    (∀ front, front <+: events → Consistent ((start c₀).run T self front)) ↔
      Agree (mapsOf c₀) ∧ ∀ front e, front ++ [e] <+: events → Known ((start c₀).run T self front) e := by
  have hsettled : Settled c₀ := by rw [Settled, Connection.pending_of_none hnone]
  constructor
  · intro h
    refine ⟨(consistent_start hsettled).mp (h [] List.nil_prefix), ?_⟩
    intro front e hprefix
    have hbefore := h front ((List.prefix_append _ _).trans hprefix)
    have hafter := h _ hprefix
    cases e with
    | restart => trivial
    | register v =>
      intro hfree
      rw [run_snoc] at hafter
      exact (consistent_register (run_settled hsettled front) hfree hbefore).mp hafter
  · rintro ⟨hagree, hknown⟩ front
    induction front using List.reverseRecOn with
    | nil => exact fun _ => (consistent_start hsettled).mpr hagree
    | append_singleton front e ih =>
      intro hprefix
      have hbefore := ih ((List.prefix_append _ _).trans hprefix)
      rw [run_snoc]
      cases e with
      | restart => exact consistent_restart (run_settled hsettled front) hbefore
      | register v =>
        by_cases hfree : Free v ((start c₀).run T self front).connection
        · exact (consistent_register (run_settled hsettled front) hfree hbefore).mpr (hknown front _ hprefix hfree)
        · exact consistent_taken (run_settled hsettled front) hfree hbefore

end Runs

section Sample

def sampleMap (name namespaceName source target : String) : IdentityMapValues where
  name
  namespaceName
  sourceSystem := "crm"
  sourceEntityPath := source
  targetSystem := "erp"
  targetEntityPath := target
  matchingMode := "exact"
  confidence := .finite 1
  description := none

/-- A database with one map, and the server started on it. -/
def mapped : Connection catalog :=
  ((start (sampleConnection .empty)).run samplePackages.floatText ⟨true⟩
    [.register (sampleMap "customers" "default" "crm.id" "erp.id")]).connection

def sampleEvents : List Event := [.register (sampleMap "customers" "other" "crm.id" "erp.id"), .restart]

theorem known_sample {front : List Event} {e : Event} (h : front ++ [e] <+: sampleEvents) :
    Known ((start mapped).run samplePackages.floatText ⟨true⟩ front) e := by
  cases front with
  | nil =>
    obtain ⟨rfl, -⟩ := List.cons_prefix_cons.mp h
    exact fun _ => by decide
  | cons first front =>
    have hlast : e = .restart := by
      obtain ⟨-, h⟩ := List.cons_prefix_cons.mp h
      have hlength : (front ++ [e]).length ≤ 1 := h.length_le
      obtain rfl : front = [] := by simpa using hlength
      exact (List.cons_prefix_cons.mp h).1
    rw [hlast]
    trivial

def sampleRun (front : List Event) : Server := (start mapped).run samplePackages.floatText ⟨true⟩ front

theorem consistent_iff_sample : (mapsOf mapped).length = 1 ∧
    ((∀ front, front <+: sampleEvents → Consistent (sampleRun front)) ↔
      Agree (mapsOf mapped) ∧ ∀ front e, front ++ [e] <+: sampleEvents → Known (sampleRun front) e) ∧
    Consistent (sampleRun sampleEvents) := by
  have hnone : mapped.transaction = none := rfl
  have hiff := consistent_iff samplePackages.floatText ⟨true⟩ sampleEvents hnone
  have hagree : Agree (mapsOf mapped) := by
    intro r hr s hs _
    rw [List.mem_singleton.mp hr, List.mem_singleton.mp hs]
  exact ⟨rfl, hiff, hiff.mpr ⟨hagree, fun _ _ => known_sample⟩ _ (List.prefix_refl _)⟩

/-- A map that is registered is not in the registry, and of two with one name a restart keeps one. -/
theorem unregistered_map :
    ¬ Consistent ((start (sampleConnection .empty)).run samplePackages.floatText ⟨true⟩
      [.register (sampleMap "customers" "default" "crm.id" "erp.id")]) ∧
    ¬ Consistent ((start (sampleConnection .empty)).run samplePackages.floatText ⟨true⟩
      [.register (sampleMap "customers" "default" "crm.id" "erp.id"),
        .register (sampleMap "customers" "other" "crm.key" "erp.key"), .restart]) := by
  constructor
  · intro h
    exact absurd (h.represented _ (List.mem_singleton_self _)) (by decide)
  · intro h
    exact absurd (h.represented _ (List.mem_cons_self ..)) (by decide)

end Sample

end ContextqlServer.Db.EngineMaps
