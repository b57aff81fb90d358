import ContextqlServer.Db.Backfill
import ContextqlServer.Db.LegacyRows

namespace ContextqlServer.Db.ContextIds

open ContextqlServer.Lib.Effect ContextqlServer.Lib.Sql
open ContextqlServer.Db.Schema ContextqlServer.Db.Statements ContextqlServer.Db.ContextCatalog
open ContextqlServer.Db.ContextCatalog.SQLiteContextRuntimeRepository
open ContextqlServer.Db.Calls ContextqlServer.Db.ContextRows ContextqlServer.Db.Backfill

variable {P : Packages} {c c' : Connection catalog} {rs : List ContextRow}

def OneIdEach (rs : List ContextRow) : Prop :=
  ∀ r ∈ rs, ∀ s ∈ rs, r.contextId.isSome → s.contextId.isSome → (r.contextId = s.contextId ↔ nameOf r = nameOf s)

structure Assigned (rs rs' : List ContextRow) : Prop where
  identified : ∀ r ∈ rs', r.contextId.isSome
  shared : ∀ r ∈ rs', ∀ s ∈ rs', r.contextId = s.contextId ↔ nameOf r = nameOf s
  kept : List.Forall₂ (fun r r' => r'.id = r.id ∧ nameOf r' = nameOf r ∧
    (r.contextId.isSome → r'.contextId = r.contextId)) rs rs'

def constructions (P : Packages) : List (List ContextRow → Nat) → DbProg Unit
  | [] => pure ()
  | choice :: choices => do
    backfillV2Rows P choice
    constructions P choices

/-- Any number of constructions, and then one more. -/
def AssignedOnce (P : Packages) (c : Connection catalog) : Prop :=
  ∀ choice choices, ∃ c', (Connection.handler catalog).exec (constructions P (choice :: choices)) c = (.ok (), c') ∧
    Assigned (rows c.pending) (rows c'.pending) ∧
    ∀ again, ∃ c'', (Connection.handler catalog).exec (backfillV2Rows P again) c' = (.ok (), c'') ∧
      c''.pending = c'.pending

def Mixed (rs : List ContextRow) : Prop :=
  ∃ r ∈ rs, ∃ s ∈ rs, nameOf r = nameOf s ∧ r.contextId = none ∧ s.contextId.isSome

section Construction

variable {hash : String × String → String} {given : String × String → Option (String × String)}
  {index : String × String → Nat} {r s : ContextRow} {g k : String × String}

theorem assigned_cases (hdraws : Draws hash c c' (unnamed rs) (fun _ => none) given index) (r : ContextRow) :
    (nameOf r ∈ unnamed rs ∧ (assigned given r).contextId = some (uuidAt c (index (nameOf r)))) ∨
      (nameOf r ∉ unnamed rs ∧ assigned given r = r) := by
  by_cases hr : nameOf r ∈ unnamed rs
  · exact .inl ⟨hr, contextId_assigned (hdraws.drawn _ hr).2.2⟩
  · exact .inr ⟨hr, assigned_of_none (hdraws.kept _ hr)⟩

theorem identified_of_not_unnamed (hr : r ∈ rs) (h : nameOf r ∉ unnamed rs) : r.contextId.isSome := by
  rw [Option.isSome_iff_ne_none]
  exact fun hnone => h (mem_unnamed.mpr ⟨r, hr, hnone, rfl⟩)

theorem assigned_identified (hdraws : Draws hash c c' (unnamed rs) (fun _ => none) given index) (hr : r ∈ rs) :
    (assigned given r).contextId.isSome := by
  obtain ⟨-, h⟩ | ⟨h, heq⟩ := assigned_cases hdraws r
  · rw [h]
    rfl
  · rw [heq]
    exact identified_of_not_unnamed hr h

section Fresh

variable (hfresh : NeverRepeats c) (htick : c'.tick = c.tick + (2 * (unnamed (rows c.pending)).length + 2))
  (hdraws : Draws hash c c' (unnamed (rows c.pending)) (fun _ => none) given index)

include hfresh htick hdraws

theorem drawn_unused (hg : g ∈ unnamed (rows c.pending)) (hs : s ∈ rows c.pending) :
    s.contextId ≠ some (uuidAt c (index g)) :=
  hfresh.unused _ (hdraws.drawn g hg).1 (htick ▸ (hdraws.drawn g hg).2.1) s hs

theorem drawn_injective (hg : g ∈ unnamed (rows c.pending)) (hk : k ∈ unnamed (rows c.pending))
    (h : uuidAt c (index g) = uuidAt c (index k)) : g = k := by
  obtain ⟨hg₁, hg₂, -⟩ := hdraws.drawn g hg
  obtain ⟨hk₁, hk₂, -⟩ := hdraws.drawn k hk
  apply hdraws.apart g hg k hk
  obtain hlt | heq | hgt := Nat.lt_trichotomy (index g) (index k)
  · exact absurd h (hfresh.distinct _ _ hg₁ hlt (htick ▸ hk₂))
  · exact heq
  · exact absurd h.symm (hfresh.distinct _ _ hk₁ hgt (htick ▸ hg₂))

/-- A construction gives different contexts different ids. -/
theorem assigned_shared (hids : OneIdEach (rows c.pending)) (hr : r ∈ rows c.pending) (hs : s ∈ rows c.pending) :
    (assigned given r).contextId = (assigned given s).contextId ↔ nameOf r = nameOf s := by
  obtain ⟨hr', h⟩ | ⟨hr', h⟩ := assigned_cases hdraws r
  · obtain ⟨hs', h'⟩ | ⟨hs', h'⟩ := assigned_cases hdraws s
    · rw [h, h', Option.some.injEq]
      exact ⟨drawn_injective hfresh htick hdraws hr' hs', congrArg (fun g => uuidAt c (index g))⟩
    · rw [h, h']
      exact iff_of_false (drawn_unused hfresh htick hdraws hr' hs).symm (ne_of_mem_of_not_mem hr' hs')
  · obtain ⟨hs', h'⟩ | ⟨hs', h'⟩ := assigned_cases hdraws s
    · rw [h, h']
      exact iff_of_false (drawn_unused hfresh htick hdraws hs' hr) (ne_of_mem_of_not_mem hs' hr').symm
    · rw [h, h']
      exact hids r hr s hs (identified_of_not_unnamed hr hr') (identified_of_not_unnamed hs hs')

theorem assigned_kept_iff (hs : s ∈ rows c.pending) :
    (assigned given s).contextId = s.contextId ↔ nameOf s ∉ unnamed (rows c.pending) := by
  obtain ⟨hs', h⟩ | ⟨hs', h⟩ := assigned_cases hdraws s
  · rw [h]
    exact iff_of_false (drawn_unused hfresh htick hdraws hs' hs).symm (not_not.mpr hs')
  · rw [h]
    exact iff_of_true rfl hs'

theorem assigned_iff (hids : OneIdEach (rows c.pending)) :
    Assigned (rows c.pending) ((rows c.pending).map (assigned given)) ↔ ¬ Mixed (rows c.pending) := by
  constructor
  · rintro h ⟨r, hr, s, hs, hname, hnone, hsome⟩
    have hkept := (List.forall₂_same.mp (List.forall₂_map_right_iff.mp h.kept) s hs).2.2 hsome
    apply (assigned_kept_iff hfresh htick hdraws hs).mp hkept
    exact mem_unnamed.mpr ⟨r, hr, hnone, hname⟩
  · intro hmixed
    refine ⟨?_, ?_, ?_⟩
    · rw [List.forall_mem_map]
      exact fun r hr => assigned_identified hdraws hr
    · simp only [List.forall_mem_map, nameOf_assigned]
      exact fun r hr s hs => assigned_shared hfresh htick hdraws hids hr hs
    · rw [List.forall₂_map_right_iff, List.forall₂_same]
      intro s hs
      refine ⟨?_, nameOf_assigned, ?_⟩
      · unfold assigned
        split <;> rfl
      · intro hsome
        apply (assigned_kept_iff hfresh htick hdraws hs).mpr
        rw [mem_unnamed]
        rintro ⟨r, hr, hnone, hname⟩
        exact hmixed ⟨r, hr, s, hs, hname, hnone, hsome⟩

end Fresh

theorem unnamed_of_identified (h : ∀ r ∈ rs, r.contextId.isSome) : unnamed rs = [] := by
  apply List.eq_nil_iff_forall_not_mem.mpr
  intro g hg
  obtain ⟨r, hr, hnone, -⟩ := mem_unnamed.mp hg
  exact absurd hnone (Option.isSome_iff_ne_none.mp (h r hr))

end Construction

theorem constructions_idle (choices : List (List ContextRow → Nat)) (h : unnamed (rows c.pending) = []) :
    ∃ c', (Connection.handler catalog).exec (constructions P choices) c = (.ok (), c') ∧ c'.pending = c.pending := by
  induction choices generalizing c with
  | nil => exact ⟨c, rfl, rfl⟩
  | cons choice choices ih =>
    obtain ⟨c₁, hone, heq⟩ := backfillV2Rows_idle (P := P) h
    obtain ⟨c', hrest, heq'⟩ := @ih c₁ (heq ▸ h)
    exact ⟨c', (Handler.exec_bind _ hone).trans hrest, heq'.trans heq⟩

/-- Ids are assigned once exactly where no context has rows with an id and rows without. -/
theorem assigned_once_iff (hids : OneIdEach (rows c.pending)) (hfresh : NeverRepeats c) :
    AssignedOnce P c ↔ ¬ Mixed (rows c.pending) := by
  have hfirst : ∀ choice : List ContextRow → Nat, ∃ c₁,
      (Connection.handler catalog).exec (backfillV2Rows P choice) c = (.ok (), c₁) ∧
        (Assigned (rows c.pending) (rows c₁.pending) ↔ ¬ Mixed (rows c.pending)) ∧ unnamed (rows c₁.pending) = [] := by
    intro choice
    obtain ⟨c₁, hone, htick⟩ := hfresh.succeeds choice
    obtain ⟨given, index, hrows, hdraws⟩ := backfillV2Rows_assigns hone
    refine ⟨c₁, hone, ?_, ?_⟩
    · rw [hrows]
      exact assigned_iff hfresh htick hdraws hids
    · rw [hrows]
      apply unnamed_of_identified
      rw [List.forall_mem_map]
      exact fun r hr => assigned_identified hdraws hr
  have hruns : ∀ choice choices, ∃ c',
      (Connection.handler catalog).exec (constructions P (choice :: choices)) c = (.ok (), c') ∧
        (Assigned (rows c.pending) (rows c'.pending) ↔ ¬ Mixed (rows c.pending)) ∧ unnamed (rows c'.pending) = [] := by
    intro choice choices
    obtain ⟨c₁, hone, hiff, hempty⟩ := hfirst choice
    obtain ⟨c', hrest, heq⟩ := constructions_idle (P := P) choices hempty
    refine ⟨c', (Handler.exec_bind _ hone).trans hrest, ?_, ?_⟩
    · rw [heq]
      exact hiff
    · rw [heq]
      exact hempty
  constructor
  · intro h
    obtain ⟨c', hrun, hassigned, -⟩ := h (fun _ => 0) []
    obtain ⟨c'', hrun', hiff, -⟩ := hruns (fun _ => 0) []
    obtain rfl := (Prod.mk.inj (hrun.symm.trans hrun')).2
    exact hiff.mp hassigned
  · intro hmixed choice choices
    obtain ⟨c', hrun, hiff, hempty⟩ := hruns choice choices
    exact ⟨c', hrun, hiff.mpr hmixed, fun again => backfillV2Rows_idle hempty⟩

section Sample

open ContextqlServer.Db.LegacyRows

def sampleVersion (id : Nat) (version : Int) (contextId : Option String) : ContextRow :=
  { sampleLegacy.migrated with id, version, contextId }

def sampleRows (rs : List ContextRow) : Connection catalog :=
  sampleConnection { Tables.empty with contexts := ⟨rs, rs.length⟩ }

def mixedRows : List ContextRow := [sampleVersion 1 1 (some "large-id"), sampleVersion 2 2 none]

theorem oneIdEach_mixed : OneIdEach mixedRows := by
  intro r hr s hs hrid hsid
  simp only [mixedRows, List.mem_cons, List.not_mem_nil, or_false] at hr hs
  obtain rfl | rfl := hr
  · obtain rfl | rfl := hs
    · simp
    · cases hsid
  · cases hrid

theorem neverRepeats_sample : NeverRepeats (sampleRows mixedRows) := by
  have hdistinct : ∀ j < 4, ∀ i < j, uuidAt (sampleRows mixedRows) i ≠ uuidAt (sampleRows mixedRows) j := by
    decide
  constructor
  · decide
  · exact fun i j _ hij hj => hdistinct j hj i hij

theorem assigned_once_iff_sample :
    AssignedOnce samplePackages (sampleRows mixedRows) ↔ ¬ Mixed mixedRows :=
  assigned_once_iff oneIdEach_mixed neverRepeats_sample

/-- The id that the first version had is overwritten. -/
theorem overwritten_id : ¬ AssignedOnce samplePackages (sampleRows mixedRows) ∧
    (rows ((Connection.handler catalog).exec (backfillV2Rows samplePackages (fun _ => 0))
      (sampleRows mixedRows)).2.pending).map (fun r => r.contextId) =
        [some "00000000-0000-0000-0000-000000000001", some "00000000-0000-0000-0000-000000000001"] := by
  refine ⟨?_, by decide⟩
  intro h
  apply (assigned_once_iff (c := sampleRows mixedRows) oneIdEach_mixed neverRepeats_sample).mp h
  exact ⟨_, List.mem_cons_of_mem _ (List.mem_cons_self ..), _, List.mem_cons_self .., rfl, rfl, rfl⟩

end Sample

end ContextqlServer.Db.ContextIds
