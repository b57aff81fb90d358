import ContextqlServer.Scheduler.RefreshScheduler
import ContextqlServer.Lib.Trace

namespace ContextqlServer.Scheduler.Isolation

open ContextqlServer.Lib.Effect ContextqlServer.Lib.JsonText ContextqlServer.Lib.Mapping
open ContextqlServer.Lib.Python ContextqlServer.Lib.Trace
open ContextqlServer.Scheduler.RefreshScheduler

abbrev Calls := List (SchedulerOp × Bool)

abbrev Ticks {α : Type} (p : SchedulerProg α) (w : World) (calls : Calls) (out : Except Exn α) (w' : World) :
    Prop :=
  Steps scheduler.Faulty p w calls (.ofExcept out) w'

section Calls

def executed (calls : Calls) : List String :=
  calls.filterMap fun
    | (.execute statement, _) => some statement
    | _ => none

def raised (calls : Calls) : List String :=
  calls.filterMap fun
    | (.execute statement, false) => some statement
    | _ => none

def recorded (calls : Calls) : List String :=
  calls.filterMap fun
    | (.recordRefreshFailure name _, _) => some name
    | _ => none

def rescheduled (calls : Calls) : List String :=
  calls.filterMap fun
    | (.setNextDue contextId _, _) => some contextId
    | _ => none

def disturbed (calls : Calls) : Bool :=
  calls.any fun
    | (.recordRefreshFailure _ _, false) | (.auditLog _, false) => true
    | _ => false

variable (calls calls' : Calls)

@[simp] theorem executed_append : executed (calls ++ calls') = executed calls ++ executed calls' :=
  List.filterMap_append

@[simp] theorem raised_append : raised (calls ++ calls') = raised calls ++ raised calls' :=
  List.filterMap_append

@[simp] theorem recorded_append : recorded (calls ++ calls') = recorded calls ++ recorded calls' :=
  List.filterMap_append

@[simp] theorem rescheduled_append :
    rescheduled (calls ++ calls') = rescheduled calls ++ rescheduled calls' :=
  List.filterMap_append

@[simp] theorem disturbed_append : disturbed (calls ++ calls') = (disturbed calls || disturbed calls') :=
  List.any_append

end Calls

variable {S : Config} {w w' : World} {calls : Calls} {entry : Entry}

section Refresh

theorem audit_steps {eventType : String} {detail : List (String × Json)} {out : Except Exn Unit}
    (h : Ticks (audit S eventType entry detail) w calls out w') :
    w' = w ∧ (calls = [] ∧ out = .ok () ∨ ∃ event, calls = [(.auditLog event, out.isOk)]) := by
  rw [audit] at h
  split at h
  · obtain ⟨rfl, hA⟩ := Steps.perform_split h
    exact ⟨answer_called rfl rfl hA, .inr ⟨_, rfl⟩⟩
  · obtain ⟨rfl, rfl, rfl⟩ := Steps.pure_eq h
    exact ⟨rfl, .inl ⟨rfl, rfl⟩⟩

theorem failure_steps {e : Exn} {out : Except Exn Unit}
    (h : Ticks (do
      Prog.perform (S := schedulerSig) (.recordRefreshFailure entry.qualifiedName e.str)
      audit S "context.refresh.failed" entry
        [("context_id", .str entry.contextId), ("error", .str e.str)]) w calls out w') :
    w' = w ∧ ∃ recording rest, calls = (.recordRefreshFailure entry.qualifiedName e.str, recording) :: rest ∧
      ((recording = false ∧ rest = [] ∧ out ≠ .ok ()) ∨ recording = true ∧
        (rest = [] ∧ out = .ok () ∨ ∃ event, rest = [(.auditLog event, out.isOk)])) := by
  obtain ⟨_, _, rest, w₁, rfl, hrecord, haudit⟩ | ⟨e', rfl, hrecord⟩ := Steps.bind_split h
  · obtain ⟨rfl, hA⟩ := Steps.perform_split hrecord
    obtain rfl := answer_called rfl rfl hA
    obtain ⟨rfl, hrest⟩ := audit_steps haudit
    exact ⟨rfl, true, rest, rfl, .inr ⟨rfl, hrest⟩⟩
  · obtain ⟨rfl, hA⟩ := Steps.perform_split hrecord
    exact ⟨answer_called rfl rfl hA, false, [], rfl, .inl ⟨rfl, rfl, nofun⟩⟩

/-- What one attempt at a refresh does, with no error in the `finally` block counted. -/
structure Attempt (entry : Entry) (calls : Calls) (out : Except Exn Unit) : Prop where
  once : executed calls = [refreshStatement entry.qualifiedName]
  unscheduled : rescheduled calls = []
  reported : (raised calls).length ≤ (recorded calls).length
  excess : disturbed calls = true → out = .ok () → (raised calls).length < (recorded calls).length
  smooth : disturbed calls = false →
    out = .ok () ∧ (recorded calls).map refreshStatement = raised calls

theorem refresh_steps {out : Except Exn Unit} (h : Ticks (refresh S entry) w calls out w') :
    w' = w ∧ Attempt entry calls out := by
  obtain ⟨out₁, _, calls₂, w₁, rfl, htry, hexcept⟩ := Steps.handle_split h
  obtain ⟨_, _, calls₁, w₂, rfl, hexecute, haudit⟩ | ⟨e, rfl, hexecute⟩ := Steps.bind_split htry
  · obtain ⟨rfl, hA⟩ := Steps.perform_split hexecute
    obtain rfl := answer_called rfl rfl hA
    obtain ⟨rfl, hcalls⟩ := audit_steps haudit
    cases out₁ with
    | ok a =>
      obtain ⟨rfl, rfl, rfl⟩ := Steps.pure_eq hexcept
      refine ⟨rfl, ?_⟩
      obtain ⟨rfl, -⟩ | ⟨event, rfl⟩ := hcalls
      all_goals constructor <;> simp [executed, rescheduled, raised, recorded, disturbed, Except.isOk, Except.toBool]
    | error e =>
      obtain ⟨rfl, recording, rest, rfl, hrest⟩ := failure_steps hexcept
      refine ⟨rfl, ?_⟩
      obtain ⟨-, ⟨⟩⟩ | ⟨event, rfl⟩ := hcalls
      obtain ⟨rfl, rfl, hout⟩ | ⟨rfl, ⟨rfl, rfl⟩ | ⟨event', rfl⟩⟩ := hrest
      all_goals
        constructor <;> simp [executed, rescheduled, raised, recorded, disturbed, Except.isOk, Except.toBool]
  · obtain ⟨rfl, hA⟩ := Steps.perform_split hexecute
    obtain rfl := answer_called rfl rfl hA
    obtain ⟨rfl, recording, rest, rfl, hrest⟩ := failure_steps hexcept
    refine ⟨rfl, ?_⟩
    obtain ⟨rfl, rfl, hout⟩ | ⟨rfl, ⟨rfl, rfl⟩ | ⟨event, rfl⟩⟩ := hrest
    · constructor <;> simp [executed, rescheduled, raised, recorded, disturbed, Except.isOk, Except.toBool, hout]
    · constructor <;> simp [executed, rescheduled, raised, recorded, disturbed, Except.isOk, Except.toBool]
    · cases out <;> constructor <;>
        simp [executed, rescheduled, raised, recorded, disturbed, Except.isOk, Except.toBool]

end Refresh

section Visit

def readable (contextId : String) : Bool := (int16 (hexPrefix contextId)).isSome

def due (S : Config) (current : ℚ) (nextDue : Dict String ℚ) (entry : Entry) : Bool :=
  (scheduledInterval S entry).isSome && !(current < (nextDue.lookup entry.contextId).getD current)

/-- The time between a refresh and the next one. -/
def period (S : Config) (entry : Entry) : ℚ :=
  let interval := (scheduledInterval S entry).getD 0
  interval + interval * ((((int16 (hexPrefix entry.contextId)).getD 0) % 1000 : Int) / 10000)

def Unlocked (w : World) : Prop := ∀ contextId, w.locks.lookup contextId ≠ some true

theorem unlocked_setLock (hfree : Unlocked w) (contextId : String) :
    Unlocked ((w.setLock contextId true).setLock contextId false) := by
  intro other
  change ((w.locks.insert contextId true).insert contextId false).lookup other ≠ _
  rw [lookup_insert', lookup_insert']
  split
  · nofun
  · exact hfree other

theorem reschedule_steps {current interval : ℚ} {contextId : String} {out : Except Exn Unit}
    (hlocked : w.locks.lookup contextId = some true)
    (h : Ticks (reschedule current interval contextId) w calls out w') :
    w'.locks = w.locks.insert contextId false ∧ executed calls = [] ∧ raised calls = [] ∧ recorded calls = [] ∧
      disturbed calls = false ∧
      ((∃ n, int16 (hexPrefix contextId) = some n ∧ out = .ok () ∧ rescheduled calls = [contextId] ∧
        w'.nextDue = w.nextDue.insert contextId
          (current + interval + interval * ((n % 1000 : Int) / 10000))) ∨
        int16 (hexPrefix contextId) = none ∧ out ≠ .ok ()) := by
  obtain ⟨_, _, _, w₁, rfl, hrelease, h⟩ | ⟨e, rfl, hrelease⟩ := Steps.bind_split h
  · obtain ⟨rfl, hA⟩ := Steps.perform_split hrelease
    obtain ⟨-, rfl⟩ := answer_quiet rfl hA
    simp only [World.perform, hlocked, ↓reduceIte] at h ⊢
    cases hint : int16 (hexPrefix contextId) with
    | none =>
      rw [jitter, hint] at h
      obtain ⟨rfl, rfl, rfl⟩ := Steps.throw_eq h
      exact ⟨rfl, rfl, rfl, rfl, rfl, .inr ⟨rfl, nofun⟩⟩
    | some n =>
      rw [jitter, hint] at h
      obtain ⟨rfl, hA⟩ := Steps.perform_split (S := schedulerSig) (o := .setNextDue contextId _) h
      obtain ⟨rfl, rfl⟩ := answer_quiet rfl hA
      exact ⟨rfl, rfl, rfl, rfl, rfl, .inl ⟨n, rfl, rfl, rfl, rfl⟩⟩
  · obtain ⟨rfl, hA⟩ := Steps.perform_split hrelease
    obtain ⟨hout, -⟩ := answer_quiet rfl hA
    simp only [World.perform, hlocked, ↓reduceIte] at hout
    cases hout

/-- What a tick does about a context that is due. -/
structure Visited (S : Config) (current : ℚ) (entry : Entry) (w : World) (calls : Calls) (out : Except Exn Unit)
    (w' : World) : Prop where
  once : executed calls = [refreshStatement entry.qualifiedName]
  reported : (raised calls).length ≤ (recorded calls).length
  excess : disturbed calls = true → out = .ok () → (raised calls).length < (recorded calls).length
  returned : out = .ok () → readable entry.contextId = true ∧ rescheduled calls = [entry.contextId] ∧
    w'.nextDue = w.nextDue.insert entry.contextId (current + period S entry)
  smooth : disturbed calls = false → readable entry.contextId = true →
    out = .ok () ∧ (recorded calls).map refreshStatement = raised calls

theorem attempt_steps {current interval : ℚ} {out : Except Exn Unit}
    (hinterval : scheduledInterval S entry = some interval)
    (hlocked : w.locks.lookup entry.contextId = some true)
    (h : Ticks ((refresh S entry).andFinally (reschedule current interval entry.contextId)) w calls out w') :
    w'.locks = w.locks.insert entry.contextId false ∧ Visited S current entry w calls out w' := by
  obtain ⟨out₁, calls₁, calls₂, w₁, rfl, hrefresh, hfinally⟩ := Steps.handle_split h
  obtain ⟨rfl, hattempt⟩ := refresh_steps hrefresh
  have hsplit : ∃ out₂, Ticks (reschedule current interval entry.contextId) w₁ calls₂ out₂ w' ∧
      (out = .ok () ↔ out₁ = .ok () ∧ out₂ = .ok ()) := by
    cases out₁ with
    | ok a =>
      obtain ⟨_, tr, _, w₂, rfl, hreschedule, hend⟩ | ⟨e, rfl, hreschedule⟩ := Steps.bind_split hfinally
      · obtain ⟨rfl, rfl, rfl⟩ := Steps.pure_eq hend
        rw [List.append_nil]
        exact ⟨_, hreschedule, by simp⟩
      · exact ⟨_, hreschedule, by simp⟩
    | error e =>
      obtain ⟨_, tr, _, w₂, rfl, hreschedule, hend⟩ | ⟨e', rfl, hreschedule⟩ := Steps.bind_split hfinally
      · obtain ⟨rfl, rfl, rfl⟩ := Steps.throw_eq hend
        rw [List.append_nil]
        exact ⟨_, hreschedule, by simp⟩
      · exact ⟨_, hreschedule, by simp⟩
  obtain ⟨out₂, hreschedule, hout⟩ := hsplit
  obtain ⟨hlocks, hexecuted, hraised, hrecorded, hdisturbed, hdue⟩ := reschedule_steps hlocked hreschedule
  refine ⟨hlocks, ?_⟩
  constructor
  · rw [executed_append, hexecuted, hattempt.once]
    rfl
  · rw [raised_append, recorded_append, hraised, hrecorded, List.append_nil, List.append_nil]
    exact hattempt.reported
  · rw [disturbed_append, raised_append, recorded_append, hraised, hrecorded, hdisturbed, List.append_nil,
      List.append_nil, Bool.or_false]
    exact fun h hok => hattempt.excess h (hout.mp hok).1
  · intro hok
    obtain ⟨-, rfl⟩ := hout.mp hok
    obtain ⟨n, hn, -, hrescheduled, hnextDue⟩ | ⟨-, hne⟩ := hdue
    · refine ⟨by rw [readable, hn]; rfl, ?_, ?_⟩
      · rw [rescheduled_append, hrescheduled, hattempt.unscheduled]
        rfl
      · rw [hnextDue, period, hinterval, hn, add_assoc]
        rfl
    · exact absurd rfl hne
  · rw [disturbed_append, raised_append, recorded_append, hraised, hrecorded, hdisturbed, List.append_nil,
      List.append_nil, Bool.or_false]
    intro hsmooth hreadable
    obtain ⟨rfl, hmap⟩ := hattempt.smooth hsmooth
    obtain ⟨n, -, rfl, -⟩ | ⟨hn, -⟩ := hdue
    · exact ⟨hout.mpr ⟨rfl, rfl⟩, hmap⟩
    · rw [readable, hn] at hreadable
      cases hreadable

/-- Nothing has been asked of other components, and no due time set. -/
def Idle (calls : Calls) : Prop :=
  executed calls = [] ∧ raised calls = [] ∧ recorded calls = [] ∧ rescheduled calls = [] ∧ disturbed calls = false

theorem visit_steps {current : ℚ} {out : Except Exn Unit} (hfree : Unlocked w)
    (h : Ticks (visit S current entry) w calls out w') :
    Unlocked w' ∧ (due S current w.nextDue entry = true ∧ Visited S current entry w calls out w' ∨
      due S current w.nextDue entry = false ∧ out = .ok () ∧ w'.nextDue = w.nextDue ∧ Idle calls) := by
  rw [visit_eq] at h
  cases hinterval : scheduledInterval S entry with
  | none =>
    rw [hinterval] at h
    obtain ⟨rfl, rfl, rfl⟩ := Steps.pure_eq h
    refine ⟨hfree, .inr ⟨?_, rfl, rfl, rfl, rfl, rfl, rfl, rfl⟩⟩
    rw [due, hinterval]
    rfl
  | some interval =>
    rw [hinterval, Option.elim_some, visitDue] at h
    obtain ⟨_, _, _, w₁, rfl, hget, hcheck⟩ | ⟨e, rfl, hget⟩ := Steps.bind_split h
    · obtain ⟨rfl, hA⟩ := Steps.perform_split hget
      obtain ⟨hdue, rfl⟩ := answer_quiet rfl hA
      obtain rfl := Except.ok.inj hdue
      split at hcheck
      · rename_i hearly
        obtain ⟨rfl, rfl, rfl⟩ := Steps.pure_eq hcheck
        refine ⟨hfree, .inr ⟨?_, rfl, rfl, rfl, rfl, rfl, rfl, rfl⟩⟩
        rw [due, hinterval]
        simpa using hearly
      · rename_i hearly
        obtain ⟨acquired, _, _, w₂, rfl, hacquire, hattempt⟩ | ⟨e, rfl, hacquire⟩ := Steps.bind_split hcheck
        · obtain ⟨rfl, hA⟩ := Steps.perform_split hacquire
          obtain ⟨hacquired, rfl⟩ := answer_quiet rfl hA
          simp only [World.perform, hfree entry.contextId, ↓reduceIte] at hacquired hattempt
          obtain rfl := Except.ok.inj hacquired
          obtain ⟨hlocks, hvisited⟩ := attempt_steps hinterval (Finmap.lookup_insert _) hattempt
          refine ⟨?_, .inl ⟨?_, ?_⟩⟩
          · have := unlocked_setLock hfree entry.contextId
            intro other
            rw [hlocks]
            exact this other
          · rw [due, hinterval]
            simpa using hearly
          · exact ⟨hvisited.once, hvisited.reported, hvisited.excess, hvisited.returned, hvisited.smooth⟩
        · obtain ⟨rfl, hA⟩ := Steps.perform_split hacquire
          obtain ⟨hout, -⟩ := answer_quiet rfl hA
          simp only [World.perform, hfree entry.contextId, ↓reduceIte] at hout
          cases hout
    · obtain ⟨rfl, hA⟩ := Steps.perform_split hget
      obtain ⟨hout, -⟩ := answer_quiet rfl hA
      cases hout

end Visit

section Entries

variable {current : ℚ} {nextDue : Dict String ℚ} {entries : List Entry}

/-- The entries that a tick visits when it gets through the list. -/
def visits (S : Config) (current : ℚ) : Dict String ℚ → List Entry → List Entry
  | _, [] => []
  | nextDue, entry :: rest =>
    if due S current nextDue entry then
      entry :: visits S current (nextDue.insert entry.contextId (current + period S entry)) rest
    else visits S current nextDue rest

theorem visits_subset {x : Entry} (h : x ∈ visits S current nextDue entries) : x ∈ entries := by
  induction entries generalizing nextDue with
  | nil => cases h
  | cons entry rest ih =>
    rw [visits] at h
    split at h
    · obtain rfl | h := List.mem_cons.mp h
      · exact List.mem_cons_self
      · exact List.mem_cons_of_mem _ (ih h)
    · exact List.mem_cons_of_mem _ (ih h)

/-- A refresh puts off its own context only. -/
theorem due_insert_of_ne {x : Entry} {contextId : String} {t : ℚ} (hne : x.contextId ≠ contextId) :
    due S current (nextDue.insert contextId t) x = due S current nextDue x := by
  rw [due, due, Finmap.lookup_insert_of_ne _ hne]

theorem due_insert_self {x : Entry} {t : ℚ} :
    due S current (nextDue.insert x.contextId t) x =
      ((scheduledInterval S x).isSome && !(current < t)) := by
  rw [due, Finmap.lookup_insert, Option.getD_some]

theorem scheduled_of_due {x : Entry} (h : due S current nextDue x = true) : (scheduledInterval S x).isSome :=
  (Bool.and_eq_true _ _ ▸ h).1

theorem period_pos (entry : Entry) : 0 < period S entry ↔ 0 < (scheduledInterval S entry).getD 0 := by
  have hmod : (0 : ℚ) ≤ (((int16 (hexPrefix entry.contextId)).getD 0) % 1000 : Int) :=
    Int.cast_nonneg (Int.emod_nonneg _ (by decide))
  have hfactor : (0 : ℚ) < 1 + (((int16 (hexPrefix entry.contextId)).getD 0) % 1000 : Int) / 10000 :=
    add_pos_of_pos_of_nonneg one_pos (div_nonneg hmod (by norm_num))
  have hperiod : period S entry = (scheduledInterval S entry).getD 0 *
      (1 + (((int16 (hexPrefix entry.contextId)).getD 0) % 1000 : Int) / 10000) := by
    rw [period, mul_add, mul_one]
  rw [hperiod, mul_pos_iff_of_pos_right hfactor]

def DueContext (S : Config) (current : ℚ) (nextDue : Dict String ℚ) (entries : List Entry) (contextId : String) :
    Prop :=
  ∃ x ∈ entries, due S current nextDue x = true ∧ x.contextId = contextId

theorem mem_visits {contextId : String} :
    contextId ∈ (visits S current nextDue entries).map Entry.contextId ↔
      DueContext S current nextDue entries contextId := by
  induction entries generalizing nextDue with
  | nil => simp [visits, DueContext]
  | cons entry rest ih =>
    rw [DueContext, List.exists_mem_cons_iff, visits]
    split
    · rename_i hdue
      rw [List.map_cons, List.mem_cons, ih]
      by_cases hid : contextId = entry.contextId
      · simp [hid, hdue]
      · rw [or_iff_right hid, or_iff_right (fun h => hid h.2.symm)]
        refine exists_congr fun x => and_congr_right fun _ => and_congr_left ?_
        rintro rfl
        rw [due_insert_of_ne hid]
    · rename_i hdue
      rw [ih, or_iff_right (fun h => hdue h.1)]
      rfl

/-- The first due entry of a context has an interval that is not positive, and another
entry of the context follows it. -/
def Repeats (S : Config) (current : ℚ) (nextDue : Dict String ℚ) (entries : List Entry) : Prop :=
  ∃ front entry back, entries = front ++ entry :: back ∧ due S current nextDue entry = true ∧
    (∀ x ∈ front, due S current nextDue x = true → x.contextId ≠ entry.contextId) ∧
    ¬ 0 < (scheduledInterval S entry).getD 0 ∧
    ∃ x ∈ back, (scheduledInterval S x).isSome ∧ x.contextId = entry.contextId

theorem due_again {entry x : Entry} (hid : x.contextId = entry.contextId) :
    due S current (nextDue.insert entry.contextId (current + period S entry)) x = true ↔
      (scheduledInterval S x).isSome ∧ ¬ 0 < (scheduledInterval S entry).getD 0 := by
  rw [← hid, due_insert_self, ← period_pos]
  simp

theorem repeats_cons_due {entry : Entry} {rest : List Entry} (hdue : due S current nextDue entry = true) :
    Repeats S current nextDue (entry :: rest) ↔
      (¬ 0 < (scheduledInterval S entry).getD 0 ∧
        ∃ x ∈ rest, (scheduledInterval S x).isSome ∧ x.contextId = entry.contextId) ∨
      Repeats S current (nextDue.insert entry.contextId (current + period S entry)) rest := by
  constructor
  · rintro ⟨_ | ⟨_, front⟩, x, back, heq, hx, hfirst, hinterval, hlater⟩
    · obtain ⟨rfl, rfl⟩ := List.cons.inj heq
      exact .inl ⟨hinterval, hlater⟩
    · obtain ⟨rfl, rfl⟩ := List.cons.inj heq
      have hne : x.contextId ≠ entry.contextId := (hfirst entry List.mem_cons_self hdue).symm
      refine .inr ⟨front, x, back, rfl, ?_, ?_, hinterval, hlater⟩
      · rw [due_insert_of_ne hne]
        exact hx
      · intro y hy hydue
        by_cases hid : y.contextId = entry.contextId
        · exact hid ▸ hne.symm
        · rw [due_insert_of_ne hid] at hydue
          exact hfirst y (List.mem_cons_of_mem _ hy) hydue
  · rintro (⟨hinterval, hlater⟩ | ⟨front, x, back, rfl, hx, hfirst, hinterval, hlater⟩)
    · exact ⟨[], entry, rest, rfl, hdue, nofun, hinterval, hlater⟩
    · by_cases hid : x.contextId = entry.contextId
      · obtain ⟨hsome, hinterval'⟩ := (due_again hid).mp hx
        exact ⟨[], entry, _, rfl, hdue, nofun, hinterval', x, by simp, hsome, hid⟩
      · rw [due_insert_of_ne hid] at hx
        refine ⟨entry :: front, x, back, rfl, hx, ?_, hinterval, hlater⟩
        intro y hy hydue
        obtain rfl | hy := List.mem_cons.mp hy
        · exact Ne.symm hid
        · by_cases hid' : y.contextId = entry.contextId
          · exact hid' ▸ Ne.symm hid
          · exact hfirst y hy (by rw [due_insert_of_ne hid']; exact hydue)

theorem repeats_cons_early {entry : Entry} {rest : List Entry} (hdue : due S current nextDue entry ≠ true) :
    Repeats S current nextDue (entry :: rest) ↔ Repeats S current nextDue rest := by
  constructor
  · rintro ⟨_ | ⟨_, front⟩, x, back, heq, hx, hfirst, hinterval, hlater⟩
    · obtain ⟨rfl, rfl⟩ := List.cons.inj heq
      exact absurd hx hdue
    · obtain ⟨rfl, rfl⟩ := List.cons.inj heq
      exact ⟨front, x, back, rfl, hx, fun y hy => hfirst y (List.mem_cons_of_mem _ hy), hinterval, hlater⟩
  · rintro ⟨front, x, back, rfl, hx, hfirst, hinterval, hlater⟩
    refine ⟨entry :: front, x, back, rfl, hx, ?_, hinterval, hlater⟩
    intro y hy hydue
    obtain rfl | hy := List.mem_cons.mp hy
    · exact absurd hydue hdue
    · exact hfirst y hy hydue

theorem nodup_visits :
    ((visits S current nextDue entries).map Entry.contextId).Nodup ↔ ¬ Repeats S current nextDue entries := by
  induction entries generalizing nextDue with
  | nil => simp [visits, Repeats]
  | cons entry rest ih =>
    rw [visits]
    split
    · rename_i hdue
      rw [List.map_cons, List.nodup_cons, ih, mem_visits, repeats_cons_due hdue, not_or]
      apply and_congr_left'
      apply not_congr
      constructor
      · rintro ⟨x, hx, hagain, hid⟩
        obtain ⟨hsome, hinterval⟩ := (due_again hid).mp hagain
        exact ⟨hinterval, x, hx, hsome, hid⟩
      · rintro ⟨hinterval, x, hx, hsome, hid⟩
        exact ⟨x, hx, (due_again hid).mpr ⟨hsome, hinterval⟩, hid⟩
    · rename_i hdue
      rw [ih, repeats_cons_early hdue]

end Entries

section Sweep

/-- What a tick does when it goes through a list of entries. -/
structure Swept (S : Config) (current : ℚ) (nextDue : Dict String ℚ) (entries : List Entry) (calls : Calls)
    (out : Except Exn Unit) : Prop where
  returned : out = .ok () →
    executed calls = (visits S current nextDue entries).map (fun x => refreshStatement x.qualifiedName) ∧
    rescheduled calls = (visits S current nextDue entries).map Entry.contextId ∧
    (∀ x ∈ visits S current nextDue entries, readable x.contextId = true) ∧
    (raised calls).length ≤ (recorded calls).length ∧
    (disturbed calls = true → (raised calls).length < (recorded calls).length)
  smooth : disturbed calls = false → (∀ x ∈ visits S current nextDue entries, readable x.contextId = true) →
    out = .ok () ∧ (recorded calls).map refreshStatement = raised calls

theorem Swept.cons_due {current : ℚ} {rest : List Entry} {w₁ : World} {calls₁ calls₂ : Calls}
    {out : Except Exn Unit} (hdue : due S current w.nextDue entry = true)
    (hvisited : Visited S current entry w calls₁ (.ok ()) w₁)
    (hswept : Swept S current w₁.nextDue rest calls₂ out) :
    Swept S current w.nextDue (entry :: rest) (calls₁ ++ calls₂) out := by
  obtain ⟨hreadable, hrescheduled, hnextDue⟩ := hvisited.returned rfl
  rw [hnextDue] at hswept
  constructor
  · intro hok
    obtain ⟨hexecuted, hscheduled, hall, hreported, hexcess⟩ := hswept.returned hok
    rw [visits, if_pos hdue, executed_append, rescheduled_append, raised_append, recorded_append,
      disturbed_append, List.length_append, List.length_append, hvisited.once, hrescheduled, hexecuted, hscheduled]
    refine ⟨rfl, rfl, List.forall_mem_cons.mpr ⟨hreadable, hall⟩, Nat.add_le_add hvisited.reported hreported, ?_⟩
    intro hdisturbed
    obtain hfirst | hlater := Bool.or_eq_true _ _ ▸ hdisturbed
    · exact Nat.add_lt_add_of_lt_of_le (hvisited.excess hfirst rfl) hreported
    · exact Nat.add_lt_add_of_le_of_lt hvisited.reported (hexcess hlater)
  · rw [visits, if_pos hdue, disturbed_append, raised_append, recorded_append, List.map_append]
    intro hsmooth hall
    obtain ⟨hsmooth₁, hsmooth₂⟩ := Bool.or_eq_false_iff.mp hsmooth
    obtain ⟨hok, hmap⟩ := hswept.smooth hsmooth₂ (List.forall_mem_cons.mp hall).2
    exact ⟨hok, congrArg₂ (· ++ ·) (hvisited.smooth hsmooth₁ hreadable).2 hmap⟩

theorem Swept.cons_early {current : ℚ} {nextDue : Dict String ℚ} {rest : List Entry} {calls₁ calls₂ : Calls}
    {out : Except Exn Unit} (hearly : due S current nextDue entry = false) (hidle : Idle calls₁)
    (hswept : Swept S current nextDue rest calls₂ out) :
    Swept S current nextDue (entry :: rest) (calls₁ ++ calls₂) out := by
  obtain ⟨hexecuted, hraised, hrecorded, hrescheduled, hdisturbed⟩ := hidle
  have hvisits : visits S current nextDue (entry :: rest) = visits S current nextDue rest := by
    rw [visits, hearly]
    rfl
  constructor
  · rw [hvisits, executed_append, rescheduled_append, raised_append, recorded_append, disturbed_append,
      hexecuted, hraised, hrecorded, hrescheduled, hdisturbed]
    exact hswept.returned
  · rw [hvisits, raised_append, recorded_append, disturbed_append, hraised, hrecorded, hdisturbed]
    exact hswept.smooth

theorem sweep_steps {current : ℚ} {entries : List Entry} {out : Except Exn Unit} (hfree : Unlocked w)
    (h : Ticks (forM entries (visit S current)) w calls out w') :
    Unlocked w' ∧ Swept S current w.nextDue entries calls out := by
  induction entries generalizing w calls with
  | nil =>
    obtain ⟨rfl, rfl, rfl⟩ := Steps.pure_eq h
    refine ⟨hfree, ?_⟩
    constructor <;> simp [visits, executed, rescheduled, raised, recorded, disturbed]
  | cons entry rest ih =>
    rw [List.forM_cons] at h
    obtain ⟨_, calls₁, calls₂, w₁, rfl, hvisit, hrest⟩ | ⟨e, rfl, hvisit⟩ := Steps.bind_split h
    · obtain ⟨hfree₁, hentry⟩ := visit_steps hfree hvisit
      obtain ⟨hfree', hswept⟩ := ih hfree₁ hrest
      refine ⟨hfree', ?_⟩
      obtain ⟨hdue, hvisited⟩ | ⟨hearly, -, hnextDue, hidle⟩ := hentry
      · exact Swept.cons_due hdue hvisited hswept
      · exact Swept.cons_early hearly hidle (hnextDue ▸ hswept)
    · obtain ⟨hfree', ⟨hdue, hvisited⟩ | ⟨-, hout, -⟩⟩ := visit_steps hfree hvisit
      · refine ⟨hfree', nofun, ?_⟩
        intro hsmooth hreadable
        rw [visits, if_pos hdue] at hreadable
        exact absurd (hvisited.smooth hsmooth (hreadable entry List.mem_cons_self)).1 nofun
      · cases hout

end Sweep

section Loop

/-- One tick of the background loop: where it starts, what it calls and how it ends. -/
structure Episode where
  start : World
  calls : Calls
  outcome : Except Exn Unit

/-- A tick gets through, refreshes each due context once, records the failures of
these refreshes and no others, and sets the contexts' next due times. -/
structure Isolated (S : Config) (episode : Episode) : Prop where
  returned : episode.outcome = .ok ()
  once : ∃ refreshed : List Entry, (∀ x ∈ refreshed, x ∈ episode.start.contexts) ∧
    (refreshed.map Entry.contextId).Nodup ∧
    (∀ contextId, contextId ∈ refreshed.map Entry.contextId ↔
      DueContext S episode.start.clock episode.start.nextDue episode.start.contexts contextId) ∧
    executed episode.calls = refreshed.map (fun x => refreshStatement x.qualifiedName)
  failures : (recorded episode.calls).map refreshStatement = raised episode.calls
  scheduled : ∀ contextId,
    DueContext S episode.start.clock episode.start.nextDue episode.start.contexts contextId →
      contextId ∈ rescheduled episode.calls

/-- Nothing beside the refreshes themselves goes wrong in a tick. -/
structure Undisturbed (S : Config) (episode : Episode) : Prop where
  calls : disturbed episode.calls = false
  readable : ∀ x ∈ episode.start.contexts,
    due S episode.start.clock episode.start.nextDue x = true → readable x.contextId = true
  repeats : ¬ Repeats S episode.start.clock episode.start.nextDue episode.start.contexts

theorem tick_steps {out : Except Exn Unit} (hfree : Unlocked w) (h : Ticks (tick S) w calls out w') :
    Unlocked w' ∧ Swept S w.clock w.nextDue w.contexts calls out := by
  obtain ⟨current, _, _, w₁, rfl, hclock, hrest⟩ | ⟨e, rfl, hclock⟩ := Steps.bind_split h
  · obtain ⟨rfl, hA⟩ := Steps.perform_split hclock
    obtain ⟨hcurrent, rfl⟩ := answer_quiet rfl hA
    obtain rfl := Except.ok.inj hcurrent
    obtain ⟨entries, _, _, w₂, rfl, hlist, hsweep⟩ | ⟨e, rfl, hlist⟩ := Steps.bind_split hrest
    · obtain ⟨rfl, hA⟩ := Steps.perform_split hlist
      obtain ⟨hentries, rfl⟩ := answer_quiet rfl hA
      obtain rfl := Except.ok.inj hentries
      obtain ⟨hfree', hswept⟩ := sweep_steps hfree hsweep
      exact ⟨hfree', hswept.returned, hswept.smooth⟩
    · obtain ⟨rfl, hA⟩ := Steps.perform_split hlist
      obtain ⟨hout, -⟩ := answer_quiet rfl hA
      cases hout
  · obtain ⟨rfl, hA⟩ := Steps.perform_split hclock
    obtain ⟨hout, -⟩ := answer_quiet rfl hA
    cases hout

/-- A list has no entry twice when it is as long as such a list and has all its entries. -/
theorem nodup_of_length {xs ys : List String} (hnodup : xs.Nodup) (hsub : xs ⊆ ys) (hlength : ys.length ≤ xs.length) :
    ys.Nodup :=
  ((List.subperm_of_subset hnodup hsub).perm_of_length_le hlength).nodup_iff.mp hnodup

theorem tick_isolated {episode : Episode} (hfree : Unlocked episode.start)
    (h : Ticks (tick S) episode.start episode.calls episode.outcome w') :
    Isolated S episode ↔ Undisturbed S episode := by
  obtain ⟨-, hswept⟩ := tick_steps hfree h
  constructor
  · intro hisolated
    obtain ⟨hexecuted, hrescheduled, hreadable, hreported, hexcess⟩ := hswept.returned hisolated.returned
    obtain ⟨refreshed, -, hnodup, hdue, hrefreshed⟩ := hisolated.once
    constructor
    · by_contra hdisturbed
      have hlt := hexcess (Bool.not_eq_false _ ▸ hdisturbed)
      rw [← hisolated.failures, List.length_map] at hlt
      exact lt_irrefl _ hlt
    · intro x hx hdue
      obtain ⟨y, hy, hid⟩ := List.mem_map.mp (mem_visits.mpr ⟨x, hx, hdue, rfl⟩)
      rw [← hid]
      exact hreadable y hy
    · have hsub : refreshed.map Entry.contextId ⊆
          (visits S episode.start.clock episode.start.nextDue episode.start.contexts).map Entry.contextId :=
        fun contextId hmem => mem_visits.mpr ((hdue contextId).mp hmem)
      have hlength := congrArg List.length (hexecuted.symm.trans hrefreshed)
      rw [List.length_map, List.length_map] at hlength
      apply nodup_visits.mp
      apply nodup_of_length hnodup hsub
      rw [List.length_map, List.length_map, hlength]
  · intro hundisturbed
    have hreadable : ∀ x ∈ visits S episode.start.clock episode.start.nextDue episode.start.contexts,
        readable x.contextId = true := by
      intro x hx
      obtain ⟨y, hy, hdue, hid⟩ := mem_visits.mp (List.mem_map_of_mem hx)
      rw [← hid]
      exact hundisturbed.readable y hy hdue
    obtain ⟨hok, hfailures⟩ := hswept.smooth hundisturbed.calls hreadable
    obtain ⟨hexecuted, hrescheduled, -⟩ := hswept.returned hok
    refine ⟨hok, ?_, hfailures, ?_⟩
    · exact ⟨_, fun x => visits_subset, nodup_visits.mpr hundisturbed.repeats, fun _ => mem_visits, hexecuted⟩
    · intro contextId hcontext
      rw [hrescheduled]
      exact mem_visits.mpr hcontext

/-- What happens between two ticks, as far as the scheduler can tell. -/
structure Elapsed (w w' : World) : Prop where
  clock : w.clock ≤ w'.clock
  locks : w'.locks = w.locks
  nextDue : w'.nextDue = w.nextDue

/-- The background loop: it polls on until a tick raises. -/
inductive Loop (S : Config) (w₀ : World) : List Episode → Except Exn Unit → World → Prop
  | starts : Loop S w₀ [] (.ok ()) w₀
  | polls {episodes : List Episode} {w w₁ w₂ : World} {calls : Calls} {out : Except Exn Unit}
      (h : Loop S w₀ episodes (.ok ()) w) (helapsed : Elapsed w w₁) (htick : Ticks (tick S) w₁ calls out w₂) :
      Loop S w₀ (episodes ++ [⟨w₁, calls, out⟩]) out w₂

theorem Elapsed.unlocked (h : Elapsed w w') (hfree : Unlocked w) : Unlocked w' := by
  rw [Unlocked, h.locks]
  exact hfree

theorem Loop.unlocked {w₀ : World} {episodes : List Episode} {out : Except Exn Unit} (hfree : Unlocked w₀)
    (h : Loop S w₀ episodes out w) : Unlocked w := by
  induction h with
  | starts => exact hfree
  | polls h helapsed htick ih => exact (tick_steps (helapsed.unlocked ih) htick).1

def sampleConfig : Config := .constant (some 10) true

def sampleEntry (contextId qualifiedName : String) : Entry where
  contextId
  qualifiedName
  namespaceName := "default"
  materialization := { materialized := true, refreshMode := "scheduled", refreshInterval := some "10 seconds" }

def sampleContexts : List Entry :=
  [sampleEntry "0a1b" "default.first", sampleEntry "2c3d" "default.second"]

def sampleTick (failures : List (Option Exn)) :=
  replay scheduler failures (tick sampleConfig) (started 0 sampleContexts ∅)

/-- Every tick of the background loop isolates faults exactly when it is undisturbed,
and the loop goes on as long as its ticks are. -/
theorem isolated_iff {clock : ℚ} {contexts : List Entry} {nextDue : Dict String ℚ} {episodes : List Episode}
    {out : Except Exn Unit} (h : Loop S (started clock contexts nextDue) episodes out w) :
    (∀ episode ∈ episodes, Isolated S episode ↔ Undisturbed S episode) ∧
      ((∀ episode ∈ episodes, Undisturbed S episode) → out = .ok ()) := by
  have hfree : Unlocked (started clock contexts nextDue) := fun contextId => by
    rw [started, Finmap.lookup_empty]
    nofun
  induction h with
  | starts => exact ⟨nofun, fun _ => rfl⟩
  | @polls episodes w w₁ w₂ calls out h helapsed htick ih =>
    have hfree₁ : Unlocked w₁ := helapsed.unlocked (h.unlocked hfree)
    have hlast : Isolated S ⟨w₁, calls, out⟩ ↔ Undisturbed S ⟨w₁, calls, out⟩ := tick_isolated hfree₁ htick
    refine ⟨?_, fun hall => (hlast.mpr (hall _ (by simp))).returned⟩
    intro episode hepisode
    obtain hepisode | hepisode := List.mem_append.mp hepisode
    · exact ih.1 episode hepisode
    · obtain rfl := List.mem_singleton.mp hepisode
      exact hlast

/-- The first refresh fails; everything else goes through. -/
def failedRefresh : List (Option Exn) :=
  [none, none, none, none, some (.raised "no such column"), none, none, none, none, none, none, none, none,
    none, none]

theorem sampleTick_loop (failures : List (Option Exn)) {out : Except Exn Unit}
    (h : (sampleTick failures).2.1 = .ofExcept out) :
    Loop sampleConfig (started 0 sampleContexts ∅)
      [⟨started 0 sampleContexts ∅, (sampleTick failures).1, out⟩] out (sampleTick failures).2.2 := by
  apply Loop.polls .starts ⟨le_rfl, rfl, rfl⟩
  rw [Ticks, ← h]
  exact replay_steps failures (tick sampleConfig) (started 0 sampleContexts ∅)

/-- A refresh that fails is recorded, and the other context is refreshed. -/
theorem isolated_iff_sample :
    Isolated sampleConfig ⟨started 0 sampleContexts ∅, (sampleTick failedRefresh).1, .ok ()⟩ := by
  apply ((isolated_iff (sampleTick_loop failedRefresh rfl)).1 _ (List.mem_singleton_self _)).mpr
  constructor
  · decide
  · decide
  · rintro ⟨front, entry, back, heq, -, -, hinterval, -⟩
    have hpos : ∀ x ∈ sampleContexts, 0 < (scheduledInterval sampleConfig x).getD 0 := by decide
    have hmem : entry ∈ sampleContexts := by
      rw [show sampleContexts = front ++ entry :: back from heq]
      exact List.mem_append_right _ List.mem_cons_self
    exact hinterval (hpos entry hmem)

/-- The audit log raises while the first context is refreshed. -/
def failedAudit : List (Option Exn) :=
  [none, none, none, none, none, some (.raised "database is locked"), none,
    some (.raised "database is locked"), none, none]

/-- Two contexts are due and the audit log raises: the second context is not refreshed,
the first one's refresh is recorded as failed though it went through, and the loop stops. -/
theorem starved_context :
    ∃ episode w, Loop sampleConfig (started 0 sampleContexts ∅) [episode]
        (.error (.raised "database is locked")) w ∧
      executed episode.calls = ["REFRESH CONTEXT default.first;"] ∧
      raised episode.calls = [] ∧ recorded episode.calls = ["default.first"] ∧
      ¬ Isolated sampleConfig episode := by
  refine ⟨_, _, sampleTick_loop failedAudit rfl, rfl, rfl, rfl, ?_⟩
  intro h
  cases h.returned

end Loop

end ContextqlServer.Scheduler.Isolation
