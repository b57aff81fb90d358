import ContextqlServer.Db.ContextRows

namespace ContextqlServer.Db.Backfill

open ContextqlServer.Lib.Effect ContextqlServer.Lib.Sql
open ContextqlServer.Db.Schema ContextqlServer.Db.Statements ContextqlServer.Db.ContextCatalog
open ContextqlServer.Db.ContextCatalog.SQLiteContextRuntimeRepository
open ContextqlServer.Db.Calls ContextqlServer.Db.ContextRows

variable {P : Packages}

abbrev nameOf (r : ContextRow) : String × String := (r.name, r.namespaceName)

/-- The `i`-th id that `uuid4` gives. -/
abbrev uuidAt (c : Connection catalog) (i : Nat) : String := (c.ambient i).uuid4.str

/-- The contexts that the backfill goes through. -/
def unnamed (rs : List ContextRow) : List (String × String) :=
  ((rs.filter (fun r => r.contextId = none)).map nameOf).dedup

def assigned (given : String × String → Option (String × String)) (r : ContextRow) : ContextRow :=
  match given (nameOf r) with
  | none => r
  | some (contextId, hash) =>
    { r with contextId := some contextId, definitionHash := r.definitionHash.or (some hash) }

variable {given : String × String → Option (String × String)} {r : ContextRow}

@[simp] theorem nameOf_assigned : nameOf (assigned given r) = nameOf r := by
  unfold assigned
  split <;> rfl

theorem assigned_of_none (h : given (nameOf r) = none) : assigned given r = r := by
  rw [assigned, h]

theorem contextId_assigned {x : String × String} (h : given (nameOf r) = some x) :
    (assigned given r).contextId = some x.1 := by
  rw [assigned, h]

theorem mem_unnamed {rs : List ContextRow} {g : String × String} :
    g ∈ unnamed rs ↔ ∃ r ∈ rs, r.contextId = none ∧ nameOf r = g := by
  simp [unnamed, and_assoc]

section Step

variable {rs : List ContextRow} {t t' : Tables} {a : Ambient} {contextId hash : String} {g : String × String}

theorem named_nameOf : named g.1 g.2 r = true ↔ nameOf r = g := by
  rw [named_iff]
  exact (Prod.ext_iff (x := nameOf r) (y := g)).symm

theorem assigned_step (ht : rows t = rs.map (assigned given)) (hg : given g = none)
    (h : (Statement.backfillContext contextId hash g.1 g.2).run a t = .ok t') :
    rows t' = rs.map (assigned (Function.update given g (some (contextId, hash)))) := by
  obtain ⟨-, rfl⟩ := bind_unique_ok (Statement.run_ok.mp h).2
  change (rows t).map _ = _
  rw [ht, List.map_map]
  apply List.map_congr_left
  intro r _
  rw [Function.comp_apply]
  by_cases hr : nameOf r = g
  · have hnamed : nameOf (assigned given r) = g := nameOf_assigned.trans hr
    rw [if_pos (named_nameOf.mpr hnamed), assigned_of_none (hr ▸ hg), assigned, hr, Function.update_self]
  · have hnamed : nameOf (assigned given r) ≠ g := fun h => hr (nameOf_assigned.symm.trans h)
    rw [if_neg (fun h => hnamed (named_nameOf.mp h)), assigned, assigned, Function.update_of_ne hr]

theorem step_succeeds (h : ∀ r ∈ rows t, r.contextId ≠ some contextId) :
    ∃ t', (Statement.backfillContext contextId hash g.1 g.2).run a t = .ok t' := by
  refine ⟨_, Statement.run_ok.mpr ⟨List.forall_mem_nil _, congrArg (· >>= _) (unique_ok (u := ()).mpr ?_)⟩⟩
  rw [List.any_eq_false]
  intro r _
  rw [Bool.and_eq_true, not_and]
  intro _ hany
  obtain ⟨o, ho, hclash⟩ := List.any_eq_true.mp hany
  rw [Bool.and_eq_true] at hclash
  exact h o ho (atVersion_iff.mp hclash.2).1

end Step

section Loop

variable (hash : String × String → String)

def backfillOne (g : String × String) : DbProg Unit := do
  let ambient ← sense (M := catalog)
  let _ ← execute (M := catalog) (.backfillContext ambient.uuid4.str (hash g) g.1 g.2)

variable {hash} {c c' : Connection catalog} {groups : List (String × String)} {g : String × String}

theorem exec_backfillOne {u : Unit} :
    (Connection.handler catalog).exec (backfillOne hash g) c = (.ok u, c') ↔
      ∃ t, (Statement.backfillContext (uuidAt c c.tick) (hash g) g.1 g.2).run c.advance.reading c.pending = .ok t ∧
        c' = (c.advance.working t).advance := by
  constructor
  · intro h
    obtain ⟨ambient, c₁, hsense, h⟩ := Handler.exec_bind_ok.mp h
    obtain ⟨t, c₂, hexec, h⟩ := Handler.exec_bind_ok.mp h
    obtain ⟨hreading, rfl⟩ := Prod.mk.inj (exec_sense.symm.trans hsense)
    obtain rfl := Except.ok.inj hreading
    obtain ⟨hrun, rfl⟩ := exec_execute_iff.mp hexec
    exact ⟨t, hrun, (Prod.mk.inj h).2.symm⟩
  · rintro ⟨t, hrun, rfl⟩
    rw [backfillOne, Handler.exec_bind _ exec_sense]
    exact Handler.exec_bind_ok.mpr ⟨t, _, exec_execute_iff.mpr ⟨hrun, rfl⟩, rfl⟩

variable (hash) in
def backfillAll : List (String × String) → DbProg Unit
  | [] => pure ()
  | g :: groups => do
    backfillOne hash g
    backfillAll groups

theorem forIn_eq_backfillAll :
    (forIn groups PUnit.unit (fun g _ => do
      let ambient ← sense (M := catalog)
      let _ ← execute (M := catalog) (.backfillContext ambient.uuid4.str (hash g) g.1 g.2)
      pure (ForInStep.yield PUnit.unit)) : DbProg PUnit) = backfillAll hash groups := by
  induction groups with
  | nil => rfl
  | cons g groups ih =>
    rw [backfillAll, backfillOne, List.forIn_cons, Prog.bind_assoc, Prog.bind_assoc, ← ih]
    congr 1
    funext ambient
    rw [Prog.bind_assoc, Prog.bind_assoc]
    rfl

variable (hash) in
/-- The contexts are given ids read on the way, from readings that differ. -/
structure Draws (c c' : Connection catalog) (groups : List (String × String))
    (given given' : String × String → Option (String × String)) (index : String × String → Nat) : Prop where
  drawn : ∀ g ∈ groups, c.tick ≤ index g ∧ index g < c'.tick ∧ given' g = some (uuidAt c (index g), hash g)
  apart : ∀ g ∈ groups, ∀ k ∈ groups, index g = index k → g = k
  kept : ∀ g, g ∉ groups → given' g = given g

theorem Draws.cons {c₁ : Connection catalog} {given' : String × String → Option (String × String)}
    {index : String × String → Nat} (htick : c₁.tick = c.tick + 2) (hambient : c₁.ambient = c.ambient)
    (hle : c₁.tick ≤ c'.tick) (hg : g ∉ groups)
    (h : Draws hash c₁ c' groups (Function.update given g (some (uuidAt c c.tick, hash g))) given' index) :
    Draws hash c c' (g :: groups) given given' (Function.update index g c.tick) := by
  have hother : ∀ k ∈ groups, Function.update index g c.tick k = index k := by
    intro k hk
    exact Function.update_of_ne (ne_of_mem_of_not_mem hk hg) _ _
  refine ⟨?_, ?_, ?_⟩
  · intro k hk
    obtain rfl | hk := List.mem_cons.mp hk
    · rw [Function.update_self]
      refine ⟨le_rfl, by omega, ?_⟩
      rw [h.kept k hg, Function.update_self]
    · obtain ⟨hfrom, hto, hgiven⟩ := h.drawn k hk
      rw [hother k hk]
      refine ⟨by omega, hto, ?_⟩
      rw [hgiven, uuidAt, uuidAt, hambient]
  · intro k hk l hl heq
    obtain rfl | hk' := List.mem_cons.mp hk
    · obtain rfl | hl' := List.mem_cons.mp hl
      · rfl
      · rw [Function.update_self, hother l hl'] at heq
        have := (h.drawn l hl').1
        omega
    · obtain rfl | hl' := List.mem_cons.mp hl
      · rw [Function.update_self, hother k hk'] at heq
        have := (h.drawn k hk').1
        omega
      · rw [hother k hk', hother l hl'] at heq
        exact h.apart k hk' l hl' heq
  · intro k hk
    rw [List.mem_cons, not_or] at hk
    rw [h.kept k hk.2, Function.update_of_ne hk.1]

theorem backfillAll_assigns {rs : List ContextRow} {u : Unit} (ht : rows c.pending = rs.map (assigned given))
    (hnone : ∀ g ∈ groups, given g = none) (hnodup : groups.Nodup)
    (h : (Connection.handler catalog).exec (backfillAll hash groups) c = (.ok u, c')) :
    c.tick ≤ c'.tick ∧ ∃ given' index, rows c'.pending = rs.map (assigned given') ∧
      Draws hash c c' groups given given' index := by
  induction groups generalizing c given with
  | nil =>
    obtain ⟨-, rfl⟩ := Prod.mk.inj h
    exact ⟨le_rfl, given, fun _ => 0, ht, by simp, by simp, fun _ _ => rfl⟩
  | cons g groups ih =>
    obtain ⟨hg, hnodup⟩ := List.nodup_cons.mp hnodup
    obtain ⟨_, c₁, hone, h⟩ := Handler.exec_bind_ok.mp h
    obtain ⟨t, hrun, rfl⟩ := exec_backfillOne.mp hone
    have hrows := assigned_step ht (hnone g (List.mem_cons_self ..)) hrun
    obtain ⟨hle, given', index, hrows', hdraws⟩ := ih (c := (c.advance.working t).advance) hrows
      (fun k hk => (Function.update_of_ne (ne_of_mem_of_not_mem hk hg) _ _).trans
        (hnone k (List.mem_cons_of_mem _ hk))) hnodup h
    refine ⟨Nat.le_trans (Nat.le_add_right c.tick 2) hle, given', Function.update index g c.tick, hrows', ?_⟩
    have htick : (c.advance.working t).advance.tick = c.tick + 2 := rfl
    exact Draws.cons htick rfl hle hg hdraws

/-- Where the ids to come are new and differ, every context gets one. -/
theorem backfillAll_succeeds
    (hunused : ∀ i, c.tick ≤ i → i < c.tick + 2 * groups.length → ∀ r ∈ rows c.pending, r.contextId ≠ some (uuidAt c i))
    (hdistinct : ∀ i j, c.tick ≤ i → i < j → j < c.tick + 2 * groups.length → uuidAt c i ≠ uuidAt c j) :
    ∃ c', (Connection.handler catalog).exec (backfillAll hash groups) c = (.ok (), c') ∧
      c'.tick = c.tick + 2 * groups.length := by
  induction groups generalizing c with
  | nil => exact ⟨c, rfl, rfl⟩
  | cons g groups ih =>
    rw [List.length_cons] at hunused hdistinct
    obtain ⟨t, hrun⟩ := step_succeeds (a := c.advance.reading) (g := g)
      (hunused c.tick le_rfl (by omega))
    have hunused' : ∀ i, c.tick + 2 ≤ i → i < c.tick + 2 + 2 * groups.length →
        ∀ r ∈ rows t, r.contextId ≠ some (uuidAt c i) := by
      intro i hfrom hto r hr
      obtain ⟨-, rfl⟩ := bind_unique_ok hrun
      obtain ⟨s, hs, rfl⟩ := List.mem_map.mp hr
      split
      · intro heq
        exact hdistinct c.tick i le_rfl (by omega) (by omega) (Option.some.inj heq)
      · exact hunused i (by omega) (by omega) s hs
    have hdistinct' : ∀ i j, c.tick + 2 ≤ i → i < j → j < c.tick + 2 + 2 * groups.length →
        uuidAt c i ≠ uuidAt c j :=
      fun i j hfrom hij hto => hdistinct i j (by omega) hij (by omega)
    obtain ⟨c', h, htick⟩ := @ih (c.advance.working t).advance hunused' hdistinct'
    refine ⟨c', ?_, ?_⟩
    · exact Handler.exec_bind_ok.mpr ⟨(), _, exec_backfillOne.mpr ⟨t, hrun, rfl⟩, h⟩
    · rw [htick, List.length_cons]
      change c.tick + 2 + _ = _
      omega

end Loop

section Constructor

def hashOf (P : Packages) (choice : List ContextRow → Nat) (t : Tables) (g : String × String) : String :=
  let group := ((rows t).filter (fun r => r.contextId = none)).filter (named g.1 g.2)
  P.sha256 ((group[choice group % group.length]?).elim "" (fun r => r.definitionText)).toUTF8.toList

theorem backfillV2Rows_eq (choice : List ContextRow → Nat) :
    backfillV2Rows P choice = (do
      let t ← select (M := catalog)
      backfillAll (hashOf P choice t) (unnamed (rows t))
      commit) := by
  rw [backfillV2Rows]
  congr 1
  funext t
  rw [← forIn_eq_backfillAll]
  rfl

variable {choice : List ContextRow → Nat} {c c' : Connection catalog}

/-- What a construction that ends well has done. -/
theorem backfillV2Rows_assigns (h : (Connection.handler catalog).exec (backfillV2Rows P choice) c = (.ok (), c')) :
    ∃ given index, rows c'.pending = (rows c.pending).map (assigned given) ∧
      Draws (hashOf P choice c.pending) c c' (unnamed (rows c.pending)) (fun _ => none) given index := by
  rw [backfillV2Rows_eq, Handler.exec_bind _ exec_select] at h
  obtain ⟨_, c₁, hall, h⟩ := Handler.exec_bind_ok.mp h
  obtain ⟨-, rfl⟩ := Prod.mk.inj (exec_commit.symm.trans h)
  have hstart : rows c.advance.pending = (rows c.pending).map (assigned (fun _ => none)) :=
    (List.map_id' _).symm
  obtain ⟨-, given, index, hrows, hdraws⟩ :=
    backfillAll_assigns hstart (fun _ _ => rfl) (List.nodup_dedup _) hall
  refine ⟨given, index, hrows, ?_, hdraws.apart, hdraws.kept⟩
  intro g hg
  obtain ⟨hfrom, hto, hgiven⟩ := hdraws.drawn g hg
  exact ⟨Nat.le_of_succ_le hfrom, Nat.lt_succ_of_lt hto, hgiven⟩

/-- The ids that are read while the repository is constructed are new and differ. -/
structure NeverRepeats (c : Connection catalog) : Prop where
  unused : ∀ i, c.tick ≤ i → i < c.tick + (2 * (unnamed (rows c.pending)).length + 2) →
    ∀ r ∈ rows c.pending, r.contextId ≠ some (uuidAt c i)
  distinct : ∀ i j, c.tick ≤ i → i < j → j < c.tick + (2 * (unnamed (rows c.pending)).length + 2) →
    uuidAt c i ≠ uuidAt c j

theorem NeverRepeats.succeeds (hfresh : NeverRepeats c) (choice : List ContextRow → Nat) :
    ∃ c', (Connection.handler catalog).exec (backfillV2Rows P choice) c = (.ok (), c') ∧
      c'.tick = c.tick + (2 * (unnamed (rows c.pending)).length + 2) := by
  obtain ⟨c₁, hall, htick⟩ := @backfillAll_succeeds (hashOf P choice c.pending) c.advance (unnamed (rows c.pending))
    (fun i hfrom hto => hfresh.unused i (Nat.le_of_succ_le hfrom) (by
      change i < c.tick + 1 + _ at hto
      omega))
    (fun i j hfrom hij hto => hfresh.distinct i j (Nat.le_of_succ_le hfrom) hij (by
      change j < c.tick + 1 + _ at hto
      omega))
  refine ⟨(c₁.settled c₁.pending).advance, ?_, ?_⟩
  · rw [backfillV2Rows_eq, Handler.exec_bind _ exec_select, Handler.exec_bind _ hall]
    exact exec_commit
  · change c₁.tick + 1 = _
    rw [htick]
    change c.tick + 1 + _ + 1 = _
    omega

/-- Where every row has an id, a construction leaves the tables as they are. -/
theorem backfillV2Rows_idle (h : unnamed (rows c.pending) = []) :
    ∃ c', (Connection.handler catalog).exec (backfillV2Rows P choice) c = (.ok (), c') ∧ c'.pending = c.pending := by
  refine ⟨(c.advance.settled c.pending).advance, ?_, rfl⟩
  rw [backfillV2Rows_eq, Handler.exec_bind _ exec_select, h]
  rfl

end Constructor

end ContextqlServer.Db.Backfill
