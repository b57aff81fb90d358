import ContextqlServer.Db.Runs
import ContextqlServer.Lib.Clock

namespace ContextqlServer.Db.Outcomes

open ContextqlServer.Lib.Clock ContextqlServer.Lib.Effect ContextqlServer.Lib.Isoformat ContextqlServer.Lib.Rely
open ContextqlServer.Lib.Sql
open ContextqlServer.Db.Schema ContextqlServer.Db.Statements ContextqlServer.Db.ContextCatalog
open ContextqlServer.Db.ContextCatalog.SQLiteContextRuntimeRepository ContextqlServer.Db.Calls
open ContextqlServer.Db.Runs

variable {P : Packages} {t t' : Tables} {calls : List (Call P)} {call : Call P}

/-- What a call that goes through may make of the tables, it does make of them under some clock. -/
theorem call_can (h : call.Effect t t') : Can (M := catalog) call.program () (t, none) (t', none) := by
  have reading : catalog.Ambient := (sampleConnection t).reading
  cases call with
  | promote p => exact .immediate reading h
  | prune entry cutoff =>
    refine .bind (.read (M := catalog) reading t) ?_
    simp only [Call.Effect] at h
    cases ha : anchor t entry.contextId (iso cutoff) with
    | none =>
      rw [ha] at h
      subst h
      exact .pure () _
    | some version =>
      rw [ha] at h
      exact .immediate reading h
  | save entry rawDdl =>
    obtain ⟨a, h⟩ := h
    rw [Call.program, saveContext, Call.version_bound h]
    exact .bind (.pure () _) (.bind (.read (M := catalog) reading t) (.write (M := catalog) h))
  | drop entry =>
    obtain ⟨a, now, h⟩ := h
    let reading : Ambient := ⟨now, a.uuid4⟩
    exact .bind (.sense (M := catalog) reading _) (.write (M := catalog) h)
  | record contextId version executedAt =>
    obtain ⟨a, h⟩ := h
    exact .write (M := catalog) h

/-- The tables that a run of the calls makes of others, where every call returns. -/
def Outcome (calls : List (Call P)) (t t' : Tables) : Prop :=
  ∃ (c₀ c : Connection catalog) (h : List (Entry P)), c₀.committed = t ∧ c₀.transaction = none ∧
    Reaches c₀ h c ∧ Successful h ∧ h.map Prod.fst = calls ∧ c.committed = t'

/-- There are clocks under which the calls make of the tables what they may make. -/
theorem performs_reached (hp : Performs calls t t') :
    ∃ readings : List catalog.Ambient, ∀ c₀ : Connection catalog, sight c₀ = (t, none) → Reads c₀ readings →
      ∃ c h, Reaches c₀ h c ∧ Successful h ∧ h.map Prod.fst = calls ∧ sight c = (t', none) ∧
        c.ambient = c₀.ambient ∧ c.tick = c₀.tick + readings.length := by
  induction hp with
  | nil t => exact ⟨[], fun c₀ hc₀ _ => ⟨c₀, [], .start, by simp [Successful], rfl, hc₀, rfl, rfl⟩⟩
  | @snoc calls call t t₁ t₂ hp hc ih =>
    obtain ⟨readings, ih⟩ := ih
    obtain ⟨readings', hcall⟩ := call_can hc
    refine ⟨readings ++ readings', ?_⟩
    intro c₀ hc₀ hr
    obtain ⟨c₁, h, hreaches, hok, hcalls, hc₁, ha₁, ht₁⟩ := ih c₀ hc₀ hr.append
    obtain ⟨c₂, hexec, hc₂, ha₂, ht₂⟩ := hcall c₁ hc₁ (hr.later ha₁ ht₁)
    have hrun := Runs.of_exec (H := Connection.handler catalog) (R := Eq) (fun _ => rfl) hexec
    refine ⟨c₂, h ++ [(call, some (.ok ()))], hreaches.call hrun, ?_, ?_, hc₂, ha₂.trans ha₁, ?_⟩
    · intro e he
      obtain he | he := List.mem_append.mp he
      · exact hok e he
      · rw [List.mem_singleton.mp he]
    · rw [List.map_append, hcalls, List.map_singleton]
    · rw [ht₂, ht₁, List.length_append, Nat.add_assoc]

theorem outcome_iff : Outcome calls t t' ↔ Performs calls t t' := by
  constructor
  · rintro ⟨c₀, c, h, rfl, hnone, hr, hok, rfl, rfl⟩
    exact (performs_of_successful hr hok hnone).2
  · intro hp
    obtain ⟨readings, hreached⟩ := performs_reached hp
    let c₀ : Connection catalog := ⟨t, none, fun n => readings[n]?.getD (sampleConnection t).reading, 0⟩
    have hreads : Reads c₀ readings := by
      intro i a hi
      change readings[0 + i]?.getD _ = a
      rw [Nat.zero_add, hi, Option.getD_some]
    obtain ⟨c, h, hr, hok, hcalls, hc, -⟩ := hreached c₀ rfl hreads
    exact ⟨c₀, c, h, rfl, rfl, hr, hok, hcalls, congrArg Prod.fst hc⟩

end ContextqlServer.Db.Outcomes
