import ContextqlServer.Db.Codec
import ContextqlServer.Db.Runs
import ContextqlServer.Db.Shelf

namespace ContextqlServer.Db.ContextRows

open ContextqlServer.Lib.Effect ContextqlServer.Lib.Isoformat ContextqlServer.Lib.Rely
open ContextqlServer.Lib.Sql
open ContextqlServer.Db.Schema ContextqlServer.Db.Statements ContextqlServer.Db.Services
open ContextqlServer.Db.ContextCatalog ContextqlServer.Db.ContextCatalog.SQLiteContextRuntimeRepository
open ContextqlServer.Db.Calls ContextqlServer.Db.Codec ContextqlServer.Db.Runs ContextqlServer.Db.Shelf

variable {P : Packages} {t t' : Tables}

/-- The rows of `contexts`, in the order of their ids. -/
abbrev rows (t : Tables) : List ContextRow := t.contexts.rows

theorem atVersion_iff {contextId : String} {version : Int} {r : ContextRow} :
    atVersion contextId version r = true ↔ r.contextId = some contextId ∧ r.version = version := by
  simp [atVersion]

theorem named_iff {name namespaceName : String} {r : ContextRow} :
    named name namespaceName r = true ↔ r.name = name ∧ r.namespaceName = namespaceName := by
  simp [named]

theorem sameVersion_values (e : ContextCatalogEntry P) (rawDdl : Option String) :
    sameVersion (e.values rawDdl) = atVersion e.contextId e.version := by
  funext r
  rw [Bool.eq_iff_iff, atVersion_iff]
  simp only [sameVersion, Bool.and_eq_true, decide_eq_true_eq]
  exact ⟨fun h => ⟨h.1.2, h.2⟩, fun h => ⟨⟨rfl, h.1⟩, h.2⟩⟩

section Statements

/-- The row of `e` after `save_context` has updated it. -/
def savedOver (e : ContextCatalogEntry P) (rawDdl : Option String) (now : String) (r : ContextRow) :
    ContextRow :=
  if atVersion e.contextId e.version r then
    { r with toContextValues := e.values (rawDdl.or r.rawDdl), updatedAt := now }
  else r

/-- The row that `save_context` inserts. -/
structure Inserted (e : ContextCatalogEntry P) (rawDdl : Option String) (r : ContextRow) : Prop where
  values : r.toContextValues = e.values rawDdl
  droppedAt : r.droppedAt = none

/-- What `save_context` makes of the rows: it updates the row of the version or inserts it. -/
inductive Saved (e : ContextCatalogEntry P) (rawDdl : Option String) (t t' : Tables) : Prop
  | update (now : String) (hexists : ∃ r ∈ rows t, atVersion e.contextId e.version r)
      (hkey : e.entityKeyName.isSome)
      (hname : ∀ r ∈ rows t, atVersion e.contextId e.version r = false →
        named e.name e.namespaceName r → r.version ≠ e.version)
      (ht : t' = { t with contexts := { t.contexts with
        rows := (rows t).map (savedOver e rawDdl now) } })
  | insert (row : ContextRow) (hrow : Inserted e rawDdl row) (hkey : e.entityKeyName.isSome)
      (hnew : ∀ r ∈ rows t, atVersion e.contextId e.version r = false)
      (hname : ∀ r ∈ rows t, named e.name e.namespaceName r → r.version ≠ e.version)
      (ht : t' = { t with contexts := ⟨rows t ++ [row], t.contexts.sequence + 1⟩ })

theorem saved_of_run {e : ContextCatalogEntry P} {rawDdl : Option String} {a : Ambient}
    (h : (Call.saveStatement e rawDdl t).run a t = .ok t') : Saved e rawDdl t t' := by
  replace h := (Statement.run_ok.mp h).2
  rw [Call.saveStatement] at h
  split at h
  · rename_i hany
    obtain ⟨r, hr, hat⟩ := List.any_eq_true.mp hany
    obtain ⟨_, hcheck, h⟩ := bind_eq_ok.mp h
    rw [checkUpdate, sameVersion_values, if_pos hany] at hcheck
    obtain ⟨key, hkey, hunique⟩ := bind_eq_ok.mp hcheck
    have hclash := unique_ok.mp hunique
    refine .update a.now.strftime ⟨r, hr, hat⟩ ?_ ?_ ?_
    · have hsome : e.entityKeyName = some key := notNull_ok.mp hkey
      rw [hsome]
      rfl
    · intro r hr hne hnamed hversion
      have := List.any_eq_false.mp hclash r hr
      simp only [hne, Bool.not_false, Bool.true_and, Bool.and_eq_true, decide_eq_true_eq] at this
      exact this ⟨hnamed, hversion⟩
    · obtain rfl := Except.ok.inj h
      rw [sameVersion_values]
      rfl
  · rename_i hnone
    obtain ⟨key, hkey, h⟩ := bind_eq_ok.mp h
    obtain ⟨_, hunique, h⟩ := bind_eq_ok.mp h
    obtain ⟨_, rfl⟩ := bind_unique_ok h
    have hclash := unique_ok.mp hunique
    refine .insert _ ⟨rfl, rfl⟩ ?_ ?_ ?_ rfl
    · have hsome : e.entityKeyName = some key := notNull_ok.mp hkey
      rw [hsome]
      rfl
    · intro r hr
      simpa using List.any_eq_false.mp (Bool.eq_false_of_not_eq_true hnone) r hr
    · intro r hr hnamed hversion
      have := List.any_eq_false.mp hclash r hr
      simp only [Bool.and_eq_true, decide_eq_true_eq] at this
      exact this ⟨hnamed, hversion⟩

/-- The row of `entry` after `drop_context`. -/
def droppedAs (contextId : String) (now : String) (droppedAt : Option String) (r : ContextRow) : ContextRow :=
  if r.contextId = some contextId then { r with droppedAt, updatedAt := now } else r

def executedAs (contextId : String) (version : Int) (now : String) (executedAt : Option String)
    (r : ContextRow) : ContextRow :=
  if atVersion contextId version r then { r with lastExecutedAt := executedAt, updatedAt := now } else r

def pointedAs (p : Promotion P) (now : String) (r : ContextRow) : ContextRow :=
  if atVersion p.entry.contextId p.entry.version r then
    { r with
      currentSnapshotVersion := some p.snapshot.version, lastRefreshedAt := iso p.entry.lastRefreshedAt
      dataAsOf := iso p.entry.dataAsOf, lastRefreshError := none, updatedAt := now }
  else r

inductive Rewrites (t t' : Tables) : Call P → Prop
  | prune {e : ContextCatalogEntry P} {cutoff : Option Datetime} (h : rows t' = rows t) :
      Rewrites t t' (.prune e cutoff)
  | save {e : ContextCatalogEntry P} {rawDdl : Option String} (h : Saved e rawDdl t t') :
      Rewrites t t' (.save e rawDdl)
  | drop {e : ContextCatalogEntry P} (now : String) (droppedAt : Datetime)
      (h : rows t' = (rows t).map (droppedAs e.contextId now (iso (some droppedAt)))) :
      Rewrites t t' (.drop e)
  | record {contextId : String} {version : Int} {executedAt : Datetime} (now : String)
      (h : rows t' = (rows t).map (executedAs contextId version now (iso (some executedAt)))) :
      Rewrites t t' (.record contextId version executedAt)
  | promote {p : Promotion P} (now : String) (h : rows t' = (rows t).map (pointedAs p now)) :
      Rewrites t t' (.promote p)

theorem rewrites_of_effect {call : Call P} (h : call.Effect t t') : Rewrites t t' call := by
  cases call with
  | promote p =>
    obtain ⟨row, hp⟩ := Promoted.of_applies h
    obtain ⟨now, hnow⟩ := hp.contexts
    refine .promote now ?_
    rw [rows, hnow]
    rfl
  | prune entry cutoff =>
    obtain ⟨-, rfl⟩ | ⟨version, -, rfl⟩ := prune_cases h
    · exact .prune rfl
    · exact .prune rfl
  | save entry rawDdl =>
    obtain ⟨a, h⟩ := h
    exact .save (saved_of_run h)
  | drop entry =>
    obtain ⟨a, now, h⟩ := h
    obtain rfl := Except.ok.inj (Statement.run_ok.mp h).2
    refine .drop a.now.strftime now (List.map_congr_left ?_)
    intro r _
    simp only [droppedAs, decide_eq_true_eq]
  | record contextId version executedAt =>
    obtain ⟨a, h⟩ := h
    obtain rfl := Except.ok.inj (Statement.run_ok.mp h).2
    exact .record a.now.strftime rfl

end Statements

section Storable

variable {s : Statement} {a : Ambient}

/-- Every integer of the rows is one that a column can hold. -/
def AllStorable (rs : List ContextRow) : Prop := ∀ r ∈ rs, ∀ n ∈ integers r.toContextValues, Storable n

theorem storable_values {e : ContextCatalogEntry P} {rawDdl : Option String} :
    (∀ n ∈ integers (e.values rawDdl), Storable n) ↔
      Storable e.version ∧ ∀ n ∈ e.currentSnapshotVersion, Storable n := by
  have hscore : Storable (e.values rawDdl).hasScore := by
    change Storable (if e.hasScore then 1 else 0)
    split <;> decide
  rw [integers, List.forall_mem_cons, List.forall_mem_cons]
  exact ⟨fun h => ⟨h.1, fun n hn => h.2.2 n (Option.mem_toList.mpr hn)⟩,
    fun h => ⟨h.1, hscore, fun n hn => h.2 n (Option.mem_toList.mp hn)⟩⟩

theorem AllStorable.map {rs : List ContextRow} (h : AllStorable rs) {f : ContextRow → ContextRow}
    (hf : ∀ r ∈ rs, (∀ n ∈ integers r.toContextValues, Storable n) → ∀ n ∈ integers (f r).toContextValues, Storable n) :
    AllStorable (rs.map f) := by
  intro s hs
  obtain ⟨r, hr, rfl⟩ := List.mem_map.mp hs
  exact hf r hr (h r hr)

theorem AllStorable.run (ht : AllStorable (rows t)) (h : s.run a t = .ok t') : AllStorable (rows t') := by
  obtain ⟨hints, heffect⟩ := Statement.run_ok.mp h
  cases s with
  | insertContext v =>
    obtain ⟨_, -, heffect⟩ := bind_eq_ok.mp heffect
    obtain ⟨_, -, heffect⟩ := bind_eq_ok.mp heffect
    obtain ⟨-, rfl⟩ := bind_unique_ok heffect
    exact List.forall_mem_append.mpr ⟨ht, List.forall_mem_singleton.mpr hints⟩
  | updateContext v =>
    obtain ⟨_, -, heffect⟩ := bind_eq_ok.mp heffect
    obtain rfl := Except.ok.inj heffect
    apply ht.map
    intro r _ hr
    split
    · exact hints
    · exact hr
  | pointContext snapshotVersion lastRefreshedAt dataAsOf contextId version =>
    obtain rfl := Except.ok.inj heffect
    apply ht.map
    intro r _ hr
    obtain ⟨hversion, hscore, -⟩ := List.forall_mem_cons.mp hr |>.imp_right List.forall_mem_cons.mp
    split
    · exact List.forall_mem_cons.mpr ⟨hversion, List.forall_mem_cons.mpr ⟨hscore,
        List.forall_mem_singleton.mpr (hints _ (List.mem_cons_self ..))⟩⟩
    · exact hr
  | backfillContext =>
    obtain ⟨-, rfl⟩ := bind_unique_ok heffect
    apply ht.map
    intro r _ hr
    split <;> exact hr
  | dropContext | recordExecution =>
    obtain rfl := Except.ok.inj heffect
    apply ht.map
    intro r _ hr
    split <;> exact hr
  | insertSnapshot v =>
    obtain ⟨_, -, -, -, -, rfl⟩ := insertSnapshot_ok h
    exact ht
  | insertPayload | makeCurrent | insertProvider | insertIdentityMap =>
    obtain ⟨-, rfl⟩ := bind_unique_ok heffect
    exact ht
  | insertEvent v =>
    obtain rfl := Except.ok.inj heffect
    rw [insertEvent_frame]
    exact ht
  | _ =>
    obtain rfl := Except.ok.inj heffect
    exact ht

theorem AllStorable.applies {ss : List Statement} (ht : AllStorable (rows t))
    (h : Applies (M := catalog) ss t t') : AllStorable (rows t') := by
  induction ss generalizing t with
  | nil =>
    rw [Applies.nil_iff.mp h]
    exact ht
  | cons s ss ih =>
    obtain ⟨a, t₁, hrun, h⟩ := Applies.cons_iff.mp h
    have ht₁ : AllStorable (rows t₁) := ht.run hrun
    exact ih ht₁ h

theorem AllStorable.effect {call : Call P} (ht : AllStorable (rows t)) (h : call.Effect t t') :
    AllStorable (rows t') := by
  cases call with
  | promote p => exact ht.applies h
  | prune entry cutoff =>
    obtain ⟨-, rfl⟩ | ⟨version, -, rfl⟩ := prune_cases h
    · exact ht
    · exact ht
  | save entry rawDdl => exact ht.run h.choose_spec
  | drop entry => exact ht.run h.choose_spec.choose_spec
  | record contextId version executedAt => exact ht.run h.choose_spec

theorem performs_storable {calls : List (Call P)} (hp : Performs calls t t') (h : rows t = []) :
    AllStorable (rows t') := by
  induction hp with
  | nil t =>
    rw [h]
    exact List.forall_mem_nil _
  | snoc _ hc ih => exact (ih h).effect hc

end Storable

section SavedOver

variable (e : ContextCatalogEntry P) (rawDdl : Option String) (now : String) {r : ContextRow}

theorem savedOver_at (h : atVersion e.contextId e.version r = true) :
    (savedOver e rawDdl now r).toContextValues = e.values (rawDdl.or r.rawDdl) := by
  rw [savedOver, if_pos h]

theorem savedOver_off (h : atVersion e.contextId e.version r = false) :
    savedOver e rawDdl now r = r := by
  rw [savedOver, if_neg (by simp [h])]

theorem savedOver_place : (savedOver e rawDdl now r).contextId = r.contextId ∧
    (savedOver e rawDdl now r).version = r.version ∧
    (savedOver e rawDdl now r).droppedAt = r.droppedAt := by
  cases h : atVersion e.contextId e.version r with
  | false =>
    rw [savedOver_off e rawDdl now h]
    exact ⟨rfl, rfl, rfl⟩
  | true =>
    obtain ⟨hid, hversion⟩ := atVersion_iff.mp h
    rw [savedOver_at e rawDdl now h, hid, hversion]
    refine ⟨rfl, rfl, ?_⟩
    rw [savedOver, if_pos h]

end SavedOver

/-- `UNIQUE (name, namespace, version)` -/
def UniqueNames (rs : List ContextRow) : Prop :=
  rs.Pairwise (fun r s => r.name = s.name → r.namespaceName = s.namespaceName → r.version ≠ s.version)

instance (rs : List ContextRow) : Decidable (UniqueNames rs) :=
  inferInstanceAs (Decidable (rs.Pairwise _))

theorem UniqueNames.eq {rs : List ContextRow} (h : UniqueNames rs) {r s : ContextRow} (hr : r ∈ rs) (hs : s ∈ rs)
    (hname : r.name = s.name) (hns : r.namespaceName = s.namespaceName)
    (hversion : r.version = s.version) : r = s := by
  have hsymm : Std.Symm (fun r s : ContextRow => r.name = s.name →
      r.namespaceName = s.namespaceName → r.version ≠ s.version) :=
    ⟨fun _ _ hne hname hns hversion => hne hname.symm hns.symm hversion.symm⟩
  by_contra hne
  exact h.forall hr hs hne hname hns hversion

/-- What the constraints of `contexts` and the repository keep of the rows. -/
structure Keyed (rs : List ContextRow) : Prop where
  identified : ∀ r ∈ rs, r.contextId.isSome
  versions : rs.Pairwise (fun r s => r.contextId = s.contextId → r.version ≠ s.version)
  names : rs.Pairwise (fun r s => r.name = s.name → r.namespaceName = s.namespaceName →
    r.version ≠ s.version)
  entityKeys : ∀ r ∈ rs, r.entityKey.isSome

structure SamePlace (r s : ContextRow) : Prop where
  contextId : s.contextId = r.contextId
  version : s.version = r.version
  name : s.name = r.name
  namespaceName : s.namespaceName = r.namespaceName
  entityKey : s.entityKey = r.entityKey

/-- Every call but `save_context` leaves the rows at their places. -/
theorem Rewrites.saved_or_mapped {call : Call P} (hw : Rewrites t t' call) :
    (∃ e rawDdl, call = .save e rawDdl ∧ Saved e rawDdl t t') ∨
      ∃ f, rows t' = (rows t).map f ∧ ∀ r, SamePlace r (f r) := by
  cases hw with
  | prune hrows => exact .inr ⟨id, by rw [hrows, List.map_id], fun _ => ⟨rfl, rfl, rfl, rfl, rfl⟩⟩
  | save hs => exact .inl ⟨_, _, rfl, hs⟩
  | drop now droppedAt hrows =>
    refine .inr ⟨_, hrows, fun r => ?_⟩
    rw [droppedAs]
    split <;> exact ⟨rfl, rfl, rfl, rfl, rfl⟩
  | record now hrows =>
    refine .inr ⟨_, hrows, fun r => ?_⟩
    rw [executedAs]
    split <;> exact ⟨rfl, rfl, rfl, rfl, rfl⟩
  | promote now hrows =>
    refine .inr ⟨_, hrows, fun r => ?_⟩
    rw [pointedAs]
    split <;> exact ⟨rfl, rfl, rfl, rfl, rfl⟩

/-- A row after a `save_context` was there, or has the values of the entry. -/
theorem Saved.mem {e : ContextCatalogEntry P} {rawDdl : Option String} (h : Saved e rawDdl t t')
    {s : ContextRow} (hs : s ∈ rows t') : s ∈ rows t ∨ Stores s e := by
  cases h with
  | update now hexists hkey hname ht =>
    obtain rfl := ht
    obtain ⟨r, hr, rfl⟩ := List.mem_map.mp hs
    cases hat : atVersion e.contextId e.version r with
    | false =>
      rw [savedOver_off e rawDdl now hat]
      exact .inl hr
    | true => exact .inr ⟨_, savedOver_at e rawDdl now hat⟩
  | insert row hrow hkey hnew hname ht =>
    obtain rfl := ht
    obtain hs | hs := List.mem_append.mp hs
    · exact .inl hs
    · rw [List.mem_singleton.mp hs]
      exact .inr ⟨rawDdl, hrow.values⟩

namespace Keyed

variable {rs : List ContextRow}

theorem map (h : Keyed rs) {f : ContextRow → ContextRow} (hf : ∀ r ∈ rs, SamePlace r (f r)) :
    Keyed (rs.map f) := by
  have hpair : ∀ {R : ContextRow → ContextRow → Prop}, (∀ r ∈ rs, ∀ s ∈ rs, R r s → R (f r) (f s)) →
      rs.Pairwise R → (rs.map f).Pairwise R := by
    intro R hR hp
    rw [List.pairwise_map]
    exact hp.imp_of_mem (fun hr hs => hR _ hr _ hs)
  refine ⟨?_, hpair ?_ h.versions, hpair ?_ h.names, ?_⟩
  · intro s hs
    obtain ⟨r, hr, rfl⟩ := List.mem_map.mp hs
    rw [(hf r hr).contextId]
    exact h.identified r hr
  · intro r hr s hs
    rw [(hf r hr).contextId, (hf s hs).contextId, (hf r hr).version, (hf s hs).version]
    exact id
  · intro r hr s hs
    rw [(hf r hr).name, (hf s hs).name, (hf r hr).namespaceName, (hf s hs).namespaceName,
      (hf r hr).version, (hf s hs).version]
    exact id
  · intro s hs
    obtain ⟨r, hr, rfl⟩ := List.mem_map.mp hs
    rw [(hf r hr).entityKey]
    exact h.entityKeys r hr

theorem unique (h : Keyed rs) {r s : ContextRow} (hr : r ∈ rs) (hs : s ∈ rs)
    (hid : r.contextId = s.contextId) (hversion : r.version = s.version) : r = s := by
  have hsymm : Std.Symm (fun r s : ContextRow => r.contextId = s.contextId → r.version ≠ s.version) :=
    ⟨fun _ _ hne hid hversion => hne hid.symm hversion.symm⟩
  by_contra hne
  exact h.versions.forall hr hs hne hid hversion

theorem nil : Keyed [] := ⟨List.forall_mem_nil _, .nil, .nil, List.forall_mem_nil _⟩

/-- Rows of which one version is saved over, under a name that no other row has at that version. -/
theorem savedOver (h : Keyed rs) {e : ContextCatalogEntry P} {rawDdl : Option String} {now : String}
    (hkey : e.entityKeyName.isSome)
    (hname : ∀ r ∈ rs, atVersion e.contextId e.version r = false → named e.name e.namespaceName r →
      r.version ≠ e.version) : Keyed (rs.map (savedOver e rawDdl now)) := by
  have hplace := fun r : ContextRow => savedOver_place e rawDdl now (r := r)
  refine ⟨?_, ?_, ?_, ?_⟩
  · intro s hs
    obtain ⟨r, hr, rfl⟩ := List.mem_map.mp hs
    rw [(hplace r).1]
    exact h.identified r hr
  · rw [List.pairwise_map]
    refine h.versions.imp ?_
    intro r s hrs
    rw [(hplace r).1, (hplace s).1, (hplace r).2.1, (hplace s).2.1]
    exact hrs
  · rw [List.pairwise_map]
    refine (h.versions.and h.names).imp_of_mem ?_
    intro r s hr hs hrs
    cases hat : atVersion e.contextId e.version r with
    | false =>
      rw [savedOver_off e rawDdl now hat]
      cases hat' : atVersion e.contextId e.version s with
      | false =>
        rw [savedOver_off e rawDdl now hat']
        exact hrs.2
      | true =>
        rw [savedOver_at e rawDdl now hat']
        intro hrname hrns
        exact hname r hr hat (named_iff.mpr ⟨hrname, hrns⟩)
    | true =>
      rw [savedOver_at e rawDdl now hat]
      cases hat' : atVersion e.contextId e.version s with
      | false =>
        rw [savedOver_off e rawDdl now hat']
        intro hsname hsns hversion
        exact hname s hs hat' (named_iff.mpr ⟨hsname.symm, hsns.symm⟩) hversion.symm
      | true =>
        obtain ⟨hid, hversion⟩ := atVersion_iff.mp hat
        obtain ⟨hid', hversion'⟩ := atVersion_iff.mp hat'
        exact absurd (hversion.trans hversion'.symm) (hrs.1 (hid.trans hid'.symm))
  · intro s hs
    obtain ⟨r, hr, rfl⟩ := List.mem_map.mp hs
    cases hat : atVersion e.contextId e.version r with
    | false =>
      rw [savedOver_off e rawDdl now hat]
      exact h.entityKeys r hr
    | true =>
      rw [savedOver_at e rawDdl now hat]
      exact hkey

/-- Rows to which a new version is added, under a name that no row has at that version. -/
theorem inserted (h : Keyed rs) {e : ContextCatalogEntry P} {rawDdl : Option String} {row : ContextRow}
    (hrow : Inserted e rawDdl row) (hkey : e.entityKeyName.isSome)
    (hnew : ∀ r ∈ rs, atVersion e.contextId e.version r = false)
    (hname : ∀ r ∈ rs, named e.name e.namespaceName r → r.version ≠ e.version) : Keyed (rs ++ [row]) := by
  have hid : row.contextId = some e.contextId := by rw [hrow.values]; rfl
  have hversion : row.version = e.version := by rw [hrow.values]; rfl
  have hrowname : row.name = e.name := by rw [hrow.values]; rfl
  have hrowns : row.namespaceName = e.namespaceName := by rw [hrow.values]; rfl
  refine ⟨?_, ?_, ?_, ?_⟩
  · intro r hr
    obtain hr | hr := List.mem_append.mp hr
    · exact h.identified r hr
    · rw [List.mem_singleton.mp hr, hid]
      rfl
  · refine List.pairwise_append.mpr ⟨h.versions, List.pairwise_singleton _ _, ?_⟩
    intro r hr s hs
    rw [List.mem_singleton.mp hs, hid, hversion]
    intro hrid hrversion
    have := hnew r hr
    rw [atVersion_iff.mpr ⟨hrid, hrversion⟩] at this
    cases this
  · refine List.pairwise_append.mpr ⟨h.names, List.pairwise_singleton _ _, ?_⟩
    intro r hr s hs
    rw [List.mem_singleton.mp hs, hrowname, hrowns, hversion]
    intro hrname hrns
    exact hname r hr (named_iff.mpr ⟨hrname, hrns⟩)
  · intro r hr
    obtain hr | hr := List.mem_append.mp hr
    · exact h.entityKeys r hr
    · rw [List.mem_singleton.mp hr, hrow.values]
      exact hkey

theorem saved (h : Keyed (rows t)) {e : ContextCatalogEntry P} {rawDdl : Option String}
    (hs : Saved e rawDdl t t') : Keyed (rows t') := by
  cases hs with
  | update now hexists hkey hname ht =>
    obtain rfl := ht
    exact h.savedOver hkey hname
  | insert row hrow hkey hnew hname ht =>
    obtain rfl := ht
    exact h.inserted hrow hkey hnew hname

theorem rewrites (h : Keyed (rows t)) {call : Call P} (hw : Rewrites t t' call) : Keyed (rows t') := by
  obtain ⟨e, rawDdl, -, hs⟩ | ⟨f, hrows, hf⟩ := hw.saved_or_mapped
  · exact h.saved hs
  · rw [hrows]
    exact h.map (fun r _ => hf r)

end Keyed

section Reading

/-- The entries that a call saves can be read back. -/
def SavesPlain : Call P → Prop
  | .save e _ => JsonPlain e
  | _ => True

theorem Rewrites.legible {call : Call P} (hw : Rewrites t t' call) (hc : SavesPlain call)
    (h : ∀ r ∈ rows t, Legible P r) : ∀ r ∈ rows t', Legible P r := by
  have hmap : ∀ {f : ContextRow → ContextRow}, (∀ r, Legible P r → Legible P (f r)) →
      ∀ s ∈ (rows t).map f, Legible P s := by
    intro f hf s hs
    obtain ⟨r, hr, rfl⟩ := List.mem_map.mp hs
    exact hf r (h r hr)
  cases hw with
  | prune hrows => rwa [hrows]
  | save hs =>
    intro r hr
    obtain hr | hr := hs.mem hr
    · exact h r hr
    · exact hr.legible hc
  | drop now droppedAt hrows =>
    rw [hrows]
    apply hmap
    intro r hr
    rw [droppedAs]
    split
    · obtain ⟨e, he⟩ := hr
      exact ⟨e, he.1, he.2, he.3, he.4, he.5, he.6, he.7⟩
    · exact hr
  | record now hrows =>
    rw [hrows]
    apply hmap
    intro r hr
    rw [executedAs]
    split
    · obtain ⟨e, he⟩ := hr
      exact ⟨e, he.1, he.2, he.3, he.4, he.5, he.6, he.7⟩
    · exact hr
  | @promote p now hrows =>
    rw [hrows]
    apply hmap
    intro r hr
    rw [pointedAs]
    split
    · obtain ⟨e, he⟩ := hr
      exact ⟨{ e with
        lastRefreshedAt := p.entry.lastRefreshedAt.map assumeUtc
        dataAsOf := p.entry.dataAsOf.map assumeUtc },
        he.1, he.2, datetime_iso _, datetime_iso _, he.5, he.6, he.7⟩
    · exact hr

end Reading

section Reached

variable {c₀ c : Connection catalog} {h : List (Entry P)}

/-- A connection to a database without contexts, with no transaction. -/
structure Fresh (c₀ : Connection catalog) : Prop where
  rows : c₀.committed.contexts.rows = []
  transaction : c₀.transaction = none

theorem Fresh.invariant {Q : Call P → Prop} {J : Tables → Prop} (h₀ : Fresh c₀) (hr : Reaches c₀ h c)
    (hQ : ∀ e ∈ h, Q e.1) (hJ : ∀ call t t', Q call → Rewrites t t' call → J t → J t')
    (hnil : ∀ t, ContextRows.rows t = [] → J t) : J c.committed ∧ J c.pending :=
  (guarded_of_reaches hr hQ).invariant
    (fun call t t' hc heffect hj => hJ call t t' hc (rewrites_of_effect heffect) hj)
    (hnil _ h₀.rows) h₀.transaction

theorem reaches_keyed (h₀ : Fresh c₀) (hr : Reaches c₀ h c) :
    Keyed (rows c.committed) ∧ Keyed (rows c.pending) := by
  apply h₀.invariant (Q := fun _ => True) (J := fun t => Keyed (rows t)) hr (fun _ _ => trivial)
  · exact fun call t t' _ hw hk => hk.rewrites hw
  · intro t ht
    rw [ht]
    exact .nil

theorem reaches_legible (h₀ : Fresh c₀) (hr : Reaches c₀ h c) (hplain : ∀ e ∈ h, SavesPlain e.1) :
    ∀ r ∈ rows c.pending, Legible P r := by
  refine (h₀.invariant (J := fun t => ∀ r ∈ rows t, Legible P r) hr hplain ?_ ?_).2
  · exact fun call t t' hc hw hl => hw.legible hc hl
  · intro t ht
    rw [ht]
    exact List.forall_mem_nil _

end Reached

section Latest

variable {contextId : String} {r : ContextRow}

theorem mem_live : r ∈ live t contextId ↔
    r ∈ rows t ∧ r.contextId = some contextId ∧ r.droppedAt = none := by
  simp [live]

structure IsLatest (rs : List ContextRow) (contextId : String) (r : ContextRow) : Prop where
  mem : r ∈ rs
  identified : r.contextId = some contextId
  droppedAt : r.droppedAt = none
  highest : ∀ s ∈ rs, s.contextId = some contextId → s.droppedAt = none → s.version ≤ r.version

def latestOf (t : Tables) (r : ContextRow) : Option (String × ContextRow) :=
  r.contextId.bind (fun contextId =>
    if r.droppedAt.isNone ∧ ((live t contextId).map (fun r => r.version)).max? = some r.version then
      some (contextId, r)
    else none)

theorem latestOf_eq_some {x : String × ContextRow} (hr : r ∈ rows t) :
    latestOf t r = some x ↔ x.2 = r ∧ IsLatest (rows t) x.1 r := by
  have hmax : ∀ contextId, ((live t contextId).map (fun r => r.version)).max? = some r.version ↔
      (∃ s ∈ live t contextId, s.version = r.version) ∧
        ∀ s ∈ live t contextId, s.version ≤ r.version := by
    intro contextId
    rw [List.max?_eq_some_iff]
    simp only [List.mem_map, forall_exists_index, and_imp, forall_apply_eq_imp_iff₂]
  obtain ⟨contextId, s⟩ := x
  rw [latestOf, Option.bind_eq_some_iff]
  constructor
  · rintro ⟨id, hid, h⟩
    obtain ⟨⟨hdropped, hlatest⟩, hpair⟩ := Option.ite_none_right_eq_some.mp h
    obtain ⟨rfl, rfl⟩ := Prod.mk.inj (Option.some.inj hpair)
    refine ⟨rfl, hr, hid, Option.isNone_iff_eq_none.mp hdropped, ?_⟩
    exact fun s hs hsid hsd => ((hmax id).mp hlatest).2 s (mem_live.mpr ⟨hs, hsid, hsd⟩)
  · rintro ⟨rfl, h⟩
    refine ⟨contextId, h.identified, Option.ite_none_right_eq_some.mpr ⟨⟨?_, ?_⟩, rfl⟩⟩
    · rw [h.droppedAt]
      rfl
    · refine (hmax contextId).mpr ⟨⟨s, mem_live.mpr ⟨h.mem, h.identified, h.droppedAt⟩, rfl⟩, ?_⟩
      intro s' hs'
      obtain ⟨hmem, hid, hd⟩ := mem_live.mp hs'
      exact h.highest s' hmem hid hd

theorem mem_latestRows : (contextId, r) ∈ latestRows t ↔ IsLatest (rows t) contextId r := by
  have hmem : (contextId, r) ∈ latestRows t ↔ ∃ s ∈ rows t, latestOf t s = some (contextId, r) := by
    rw [latestRows, orderBy, List.mem_insertionSort]
    exact List.mem_filterMap
  rw [hmem]
  constructor
  · rintro ⟨s, hs, h⟩
    obtain ⟨rfl, hl⟩ := (latestOf_eq_some hs).mp h
    exact hl
  · intro h
    exact ⟨r, h.mem, (latestOf_eq_some h.mem).mpr ⟨rfl, h⟩⟩

theorem latestRows_sorted (t : Tables) : (latestRows t).Pairwise (fun x y =>
    toLex (x.2.namespaceName, x.2.name) ≤ toLex (y.2.namespaceName, y.2.name)) :=
  List.pairwise_insertionSort _ _

theorem IsLatest.unique {rs : List ContextRow} (h : Keyed rs) {r s : ContextRow}
    (hr : IsLatest rs contextId r) (hs : IsLatest rs contextId s) : r = s := by
  have hle := hr.highest s hs.mem hs.identified hs.droppedAt
  have hge := hs.highest r hr.mem hr.identified hr.droppedAt
  exact h.unique hr.mem hs.mem (hr.identified.trans hs.identified.symm) (le_antisymm hge hle)

theorem latestRows_nodup (h : Keyed (rows t)) : ((latestRows t).map Prod.fst).Nodup := by
  have hpair : ((rows t).filterMap (latestOf t)).Pairwise (fun x y => x.1 ≠ y.1) := by
    rw [List.pairwise_filterMap]
    refine h.versions.imp_of_mem ?_
    rintro r s hr hs hne x hx y hy heq
    obtain ⟨-, hrl⟩ := (latestOf_eq_some hr).mp hx
    obtain ⟨-, hsl⟩ := (latestOf_eq_some hs).mp hy
    rw [← heq] at hsl
    have hrs := IsLatest.unique h hrl hsl
    subst hrs
    exact hne rfl rfl
  have hperm : (latestRows t).Perm ((rows t).filterMap (latestOf t)) := List.perm_insertionSort _ _
  rw [(hperm.map Prod.fst).nodup_iff]
  exact List.pairwise_map.mpr hpair

theorem exists_isLatest (hr : r ∈ live t contextId) : ∃ s, IsLatest (rows t) contextId s := by
  have hmem : r.version ∈ (live t contextId).map (fun r => r.version) := List.mem_map_of_mem hr
  obtain ⟨version, hmax⟩ := Option.isSome_iff_exists.mp (List.isSome_max?_of_mem hmem)
  obtain ⟨hv, hle⟩ := List.max?_eq_some_iff.mp hmax
  obtain ⟨s, hs, rfl⟩ := List.mem_map.mp hv
  obtain ⟨hmem, hid, hd⟩ := mem_live.mp hs
  exact ⟨s, hmem, hid, hd, fun s' hs' hid' hd' =>
    hle _ (List.mem_map_of_mem (mem_live.mpr ⟨hs', hid', hd'⟩))⟩

end Latest

section Exec

variable {c : Connection catalog} {e : ContextCatalogEntry P} {rawDdl : Option String}

/-- A `save_context` whose statement goes through. -/
theorem exec_saveContext_ok
    (h : (Call.saveStatement e rawDdl c.pending).run c.advance.reading c.pending = .ok t') :
    (Connection.handler catalog).exec (saveContext e rawDdl) c =
      (.ok (), (((c.advance.working t').advance).settled t').advance) := by
  have hversion : bindIntegers [e.version] = .ok () := Call.version_bound h
  refine Handler.exec_bind_ok.mpr ⟨_, _, (Handler.exec_ofExcept _ _ _).trans (by rw [hversion]), ?_⟩
  refine Handler.exec_bind_ok.mpr ⟨_, _, exec_select, ?_⟩
  exact Handler.exec_bind_ok.mpr ⟨_, _, exec_execute_ok (c := c.advance) h, rfl⟩

theorem run_saveStatement (rawDdl : Option String) (a : Ambient)
    (hstorable : ∀ n ∈ integers (e.values rawDdl), Storable n) (hs : ∃ r ∈ rows t, atVersion e.contextId e.version r)
    (hkey : e.entityKeyName.isSome)
    (hname : ∀ r ∈ rows t, atVersion e.contextId e.version r = false →
      named e.name e.namespaceName r → r.version ≠ e.version) :
    ∃ t', (Call.saveStatement e rawDdl t).run a t = .ok t' := by
  obtain ⟨key, hkey⟩ := Option.isSome_iff_exists.mp hkey
  have hany : (rows t).any (atVersion e.contextId e.version) = true := by
    obtain ⟨r, hr, hat⟩ := hs
    exact List.any_eq_true.mpr ⟨r, hr, hat⟩
  have hcheck : checkUpdate t (e.values rawDdl) = .ok () := by
    rw [checkUpdate, sameVersion_values, if_pos hany]
    refine bind_eq_ok.mpr ⟨key, notNull_ok.mpr hkey, unique_ok.mpr ?_⟩
    rw [List.any_eq_false]
    intro r hr
    simp only [Bool.and_eq_true, decide_eq_true_eq, Bool.not_eq_true']
    rintro ⟨⟨hat, hnamed⟩, hversion⟩
    exact hname r hr hat hnamed hversion
  rw [Call.saveStatement, if_pos hany]
  exact ⟨_, Statement.run_ok.mpr ⟨hstorable, bind_eq_ok.mpr ⟨(), hcheck, rfl⟩⟩⟩

end Exec

/-- What `load_contexts` returns of the tables. -/
def loaded (P : Packages) (t : Tables) : Except DbError (List (ContextCatalogEntry P)) :=
  (latestRows t).mapM (fun r => entryFromRow P r.1 r.2)

theorem exec_loadContexts (P : Packages) (c : Connection catalog) :
    (Connection.handler catalog).exec (loadContexts P) c = (loaded P c.pending, c.advance) :=
  Handler.exec_ofExcept _ _ _

section Loaded

variable {es : List (ContextCatalogEntry P)} {contextId : String} {r : ContextRow}
  {e : ContextCatalogEntry P}

theorem copied (h : entryFromRow P contextId r = .ok e) :
    e = rowEntry contextId r e.materialization e.composition e.lastRefreshedAt e.dataAsOf
      e.historyAvailableFrom e.tags e.dependencies := (entryFromRow_ok.mp h).2

theorem mem_loaded (h : loaded P t = .ok es) :
    e ∈ es ↔ ∃ r, IsLatest (rows t) e.contextId r ∧ entryFromRow P e.contextId r = .ok e := by
  rw [mem_of_mapM h]
  constructor
  · rintro ⟨⟨id, r⟩, hr, he⟩
    have hid : e.contextId = id := congrArg ContextCatalogEntry.contextId (copied he)
    subst hid
    exact ⟨r, mem_latestRows.mp hr, he⟩
  · rintro ⟨r, hr, he⟩
    exact ⟨(e.contextId, r), mem_latestRows.mpr hr, he⟩

theorem loaded_ids (h : loaded P t = .ok es) :
    es.map (fun e => e.contextId) = (latestRows t).map Prod.fst :=
  map_of_mapM h (fun _ _ _ he => congrArg ContextCatalogEntry.contextId (copied he))

theorem loaded_total (h : ∀ r ∈ rows t, Legible P r) : ∃ es, loaded P t = .ok es := by
  apply mapM_total
  rintro ⟨id, r⟩ hr
  exact (h r (mem_latestRows.mp hr).mem).entry id

end Loaded

end ContextqlServer.Db.ContextRows
