import ContextqlServer.Db.Calls

namespace ContextqlServer.Db.Runs

open ContextqlServer.Lib.Effect ContextqlServer.Lib.Isoformat ContextqlServer.Lib.Rely
open ContextqlServer.Lib.Sql
open ContextqlServer.Db.Schema ContextqlServer.Db.Statements ContextqlServer.Db.ContextCatalog
open ContextqlServer.Db.ContextCatalog.SQLiteContextRuntimeRepository ContextqlServer.Db.Calls

variable {P : Packages} {c₀ c c' : Connection catalog} {h : List (Entry P)}

section Invariant

variable {J : Tables → Prop} {call : Call P}

theorem write_invariant {s : Statement} (hJ : ∀ a t', s.run a c.pending = .ok t' → J t')
    (hc : J c.committed) (hp : J c.pending) :
    Keeps (Answers catalog) Eq (fun c' => J c'.committed)
      (fun _ c' => J c'.committed ∧ J c'.pending) (do let _ ← execute (M := catalog) s; commit) c := by
  apply write_alone
  · intro c' hc'
    rwa [hc']
  · rintro a t c' ht rfl hnone
    rw [Connection.pending_of_none hnone]
    exact ⟨hJ a _ ht, hJ a _ ht⟩
  · rintro e c' hc' (hsame | ⟨a, ha⟩)
    · rw [hc', hsame]
      exact ⟨hc, hp⟩
    · rw [hc']
      exact ⟨hc, hJ a _ ha⟩

theorem immediate_invariant {ss : List Statement}
    (hJ : ∀ t', Applies (M := catalog) ss c.pending t' → J t') (hc : J c.committed) :
    Keeps (Answers catalog) Eq (fun c' => J c'.committed)
      (fun _ c' => J c'.committed ∧ J c'.pending) (immediate (M := catalog) ss) c := by
  apply immediate_alone
  · intro c' hc'
    rwa [hc']
  · intro c' hnone hnone' hs
    rw [← Connection.pending_of_none hnone] at hs
    rw [Connection.pending_of_none hnone']
    exact ⟨hJ _ hs, hJ _ hs⟩
  · intro e c' hnone hc'
    rw [Connection.pending_of_none hnone, hc']
    exact ⟨hc, hc⟩

/-- What every effect of a call on the pending tables establishes holds of the
committed and of the pending tables, wherever the call ends or is stopped. -/
theorem call_invariant (hJ : ∀ t', call.Effect c.pending t' → J t') (hc : J c.committed)
    (hp : J c.pending) :
    Keeps (Answers catalog) Eq (fun c' => J c'.committed)
      (fun _ c' => J c'.committed ∧ J c'.pending) call.program c := by
  cases call with
  | promote p => exact immediate_invariant hJ hc
  | prune entry cutoff =>
    refine .bind (select_alone hc ?_ (fun _ => ⟨hc, hp⟩))
    dsimp only
    cases ha : anchor c.pending entry.contextId (iso cutoff) with
    | none => exact ⟨hc, hp⟩
    | some version =>
      refine immediate_invariant (c := c.advance) ?_ hc
      intro t' ht'
      refine hJ t' ?_
      simp only [Call.Effect, ha]
      exact ht'
  | save entry rawDdl =>
    refine .bind (.ofExcept ?_)
    cases bindIntegers [entry.version] with
    | error e => exact ⟨hc, hp⟩
    | ok _ =>
    refine .bind (select_alone hc ?_ (fun _ => ⟨hc, hp⟩))
    exact write_invariant (c := c.advance) (fun a t' ht => hJ t' ⟨a, ht⟩) hc hp
  | drop entry =>
    refine .bind (sense_alone hc ?_)
    intro ambient
    exact write_invariant (c := c.advance) (fun a t' ht => hJ t' ⟨a, ambient.now, ht⟩) hc hp
  | record contextId version executedAt =>
    exact write_invariant (fun a t' ht => hJ t' ⟨a, ht⟩) hc hp

end Invariant

/-- The runs all of whose calls meet a condition on the tables that they find. -/
inductive Guarded (ok : Tables → Call P → Prop) (c₀ : Connection catalog) :
    List (Entry P) → Connection catalog → Prop
  | start : Guarded ok c₀ [] c₀
  | call {h : List (Entry P)} {c c' : Connection catalog} {call : Call P} {out : Except DbError Unit}
      (hr : Guarded ok c₀ h c) (hok : ok c.pending call)
      (hc : Runs (Answers catalog) Eq call.program c out c') :
      Guarded ok c₀ (h ++ [(call, some out)]) c'
  | stop {h : List (Entry P)} {c c' : Connection catalog} {call : Call P} (hr : Guarded ok c₀ h c)
      (hok : ok c.pending call) (hc : Visits (Answers catalog) Eq call.program c c') :
      Guarded ok c₀ (h ++ [(call, none)]) c'.reopen

/-- An invariant of the tables that calls keep, from the first tables to all that a
run comes to. -/
theorem Guarded.invariant {ok : Tables → Call P → Prop} {J : Tables → Prop}
    (hJ : ∀ call t t', ok t call → call.Effect t t' → J t → J t') (h₀ : J c₀.committed)
    (hnone : c₀.transaction = none) (hr : Guarded ok c₀ h c) : J c.committed ∧ J c.pending := by
  induction hr with
  | start =>
    rw [Connection.pending_of_none hnone]
    exact ⟨h₀, h₀⟩
  | call _ hok hc ih =>
    exact (call_invariant (fun t' ht' => hJ _ _ t' hok ht' ih.2) ih.1 ih.2).runs
      (fun _ _ _ _ h => h) (fun _ _ h => h) (fun _ _ h hI => h ▸ hI) hc
  | stop _ hok hc ih =>
    have hJ' := (call_invariant (fun t' ht' => hJ _ _ t' hok ht' ih.2) ih.1 ih.2).visits
      (fun _ _ h hI => h ▸ hI) (fun _ _ h => h.1) hc
    exact ⟨hJ', hJ'⟩

theorem guarded_of_reaches {Q : Call P → Prop} (hr : Reaches c₀ h c) (hQ : ∀ e ∈ h, Q e.1) :
    Guarded (fun _ call => Q call) c₀ h c := by
  induction hr with
  | start => exact .start
  | @call h c c' call out _ hc ih =>
    exact (ih (fun e he => hQ e (by simp [he]))).call (hQ (call, some out) (by simp)) hc
  | @stop h c c' call _ hc ih =>
    exact (ih (fun e he => hQ e (by simp [he]))).stop (hQ (call, none) (by simp)) hc

/-- The calls, run one after the other, find the tables as the condition asks. -/
def Checks (ok : Tables → Call P → Prop) (c : Connection catalog) : List (Call P) → Prop
  | [] => True
  | call :: calls =>
    ok c.pending call ∧ Checks ok ((Connection.handler catalog).exec call.program c).2 calls

theorem guarded_of_checks {ok : Tables → Call P → Prop} (hr : Guarded ok c₀ h c)
    (calls : List (Call P)) (hc : Checks ok c calls) :
    Guarded ok c₀ (h ++ outcomes c calls) (runCalls c calls) := by
  induction calls generalizing h c with
  | nil =>
    rw [outcomes, List.append_nil]
    exact hr
  | cons call calls ih =>
    have hrun := Runs.of_exec (H := Connection.handler catalog) (R := Eq) (fun _ => rfl)
      (rfl : (Connection.handler catalog).exec call.program c = (_, _))
    have hc' := ih (hr.call hc.1 hrun) hc.2
    rwa [List.append_assoc] at hc'

/-- What calls that all go through make of the tables, one after the other. -/
inductive Performs : List (Call P) → Tables → Tables → Prop
  | nil (t : Tables) : Performs [] t t
  | snoc {calls : List (Call P)} {call : Call P} {t t₁ t₂ : Tables} (h : Performs calls t t₁)
      (hc : call.Effect t₁ t₂) : Performs (calls ++ [call]) t t₂

/-- A run in which every call returned. -/
def Successful (h : List (Entry P)) : Prop := ∀ e ∈ h, e.2 = some (.ok ())

def returned (e : Entry P) : Bool :=
  match e.2 with
  | some (.ok ()) => true
  | _ => false

theorem successful_iff : Successful h ↔ h.all returned := by
  rw [Successful, List.all_eq_true]
  refine forall₂_congr ?_
  rintro ⟨call, _ | _ | _⟩ - <;> simp [returned]

theorem effect_of_runs (call : Call P) (hnone : c.transaction = none)
    (hrun : Runs (Answers catalog) Eq call.program c (.ok ()) c') :
    c'.transaction = none ∧ call.Effect c.committed c'.committed := by
  have hk : Keeps (Answers catalog) Eq (fun _ => True) (fun out c' => out = .ok () →
      c'.transaction = none ∧ call.Effect c.committed c'.committed) call.program c := by
    apply Call.program_keeps call (fun _ _ => trivial)
    · rintro c' (⟨heffect, hnone'⟩ | ⟨heffect, hsame, hsame'⟩) -
      · rw [Connection.pending_of_none hnone] at heffect
        exact ⟨hnone', heffect⟩
      · rw [hsame, hsame']
        exact ⟨hnone, heffect.resolve_right (fun hne => hne hnone)⟩
    · exact fun e c' _ he => by cases he
  exact hk.runs (fun _ _ _ _ h => h) (fun _ _ h => h) (fun _ _ _ _ => trivial) hrun rfl

/-- The calls of a run that returned, in their order. -/
def returnedCalls (h : List (Entry P)) : List (Call P) := (h.filter returned).map Prod.fst

def OneTransaction : Call P → Prop
  | .promote _ | .prune _ _ => True
  | _ => False

/-- A call that returned, or that raised and was one transaction. -/
def Settled (e : Entry P) : Prop := returned e = true ∨ e.2 ≠ none ∧ OneTransaction e.1

/-- What such a call raises leaves the tables and the connection as they were. -/
theorem unchanged_of_runs {call : Call P} (hcall : OneTransaction call) (hnone : c.transaction = none)
    {e : DbError} (hrun : Runs (Answers catalog) Eq call.program c (.error e) c') :
    c'.transaction = none ∧ c'.committed = c.committed := by
  have hk : Keeps (Answers catalog) Eq (fun _ => True) (fun out c' => out.toOption = none →
      c'.transaction = none ∧ c'.committed = c.committed) call.program c := by
    cases call with
    | promote p =>
      apply immediate_alone (fun _ _ => trivial)
      · exact fun c' _ _ _ hout => by cases hout
      · exact fun e c' hnone' hsame _ => ⟨hnone', hsame⟩
    | prune entry cutoff =>
      refine .bind (select_alone trivial ?_ (fun e _ => ⟨hnone, rfl⟩))
      dsimp only
      cases anchor c.pending entry.contextId (iso cutoff) with
      | none => exact fun hout => by cases hout
      | some version =>
        apply immediate_alone (c := c.advance) (fun _ _ => trivial)
        · exact fun c' _ _ _ hout => by cases hout
        · exact fun e c' hnone' hsame _ => ⟨hnone', hsame⟩
    | _ => cases hcall
  exact hk.runs (fun _ _ _ _ h => h) (fun _ _ h => h) (fun _ _ _ _ => trivial) hrun rfl

theorem performs_of_settled (hr : Reaches c₀ h c) (hcalls : ∀ e ∈ h, Settled e)
    (hnone : c₀.transaction = none) :
    c.transaction = none ∧ Performs (returnedCalls h) c₀.committed c.committed := by
  induction hr with
  | start => exact ⟨hnone, .nil _⟩
  | @call h c c' call out hr hc ih =>
    obtain ⟨hnone', hp⟩ := ih (fun e he => hcalls e (by simp [he]))
    rw [returnedCalls, List.filter_append, List.map_append]
    cases out with
    | ok u =>
      obtain ⟨hnone'', heffect⟩ := effect_of_runs call hnone' hc
      exact ⟨hnone'', hp.snoc heffect⟩
    | error e =>
      obtain hreturned | ⟨-, hcall⟩ := hcalls (call, some (.error e)) (by simp)
      · cases hreturned
      · obtain ⟨hnone'', hsame⟩ := unchanged_of_runs hcall hnone' hc
        refine ⟨hnone'', ?_⟩
        rw [hsame]
        exact (List.append_nil _).symm ▸ hp
  | @stop h c c' call hr hc ih =>
    obtain hreturned | ⟨hstopped, -⟩ := hcalls (call, none) (by simp)
    · cases hreturned
    · exact absurd rfl hstopped

theorem performs_of_successful (hr : Reaches c₀ h c) (hok : Successful h)
    (hnone : c₀.transaction = none) :
    c.transaction = none ∧ Performs (h.map Prod.fst) c₀.committed c.committed := by
  induction hr with
  | start => exact ⟨hnone, .nil _⟩
  | @call h c c' call out hr hc ih =>
    obtain ⟨hnone', hp⟩ := ih (fun e he => hok e (by simp [he]))
    have hout : out = .ok () := by simpa using hok (call, some out) (by simp)
    obtain ⟨hnone'', heffect⟩ := effect_of_runs call hnone' (hout ▸ hc)
    rw [List.map_append]
    exact ⟨hnone'', hp.snoc heffect⟩
  | @stop h c c' call hr hc ih => exact absurd (hok (call, none) (by simp)) (by simp)

end ContextqlServer.Db.Runs
