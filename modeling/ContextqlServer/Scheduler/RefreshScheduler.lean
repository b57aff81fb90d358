import ContextqlServer.Db.Services
import ContextqlServer.Lib.Mapping

namespace ContextqlServer.Scheduler.RefreshScheduler

open ContextqlServer.Lib.Effect ContextqlServer.Lib.JsonText ContextqlServer.Lib.Mapping
open ContextqlServer.Lib.Python
open ContextqlServer.Db.Services

structure MaterializationSettings where
  materialized : Bool
  refreshMode : String
  refreshInterval : Option String

/-- What the scheduler reads of an entry of the engine's catalog. -/
structure Entry where
  contextId : String
  qualifiedName : String
  namespaceName : String
  materialization : MaterializationSettings

inductive Exn where
  | raised (text : String)
  | invalidLiteral (digits : String)

def Exn.str : Exn → String
  | .raised text => text
  | .invalidLiteral digits => "invalid literal for int() with base 16: " ++ quoted digits

inductive SchedulerOp where
  | monotonic
  | listContexts
  | nextDue (contextId : String)
  | acquire (contextId : String)
  | execute (statement : String)
  | recordRefreshFailure (name error : String)
  | auditLog (event : AuditService.Event)
  | release (contextId : String)
  | setNextDue (contextId : String) (due : ℚ)

abbrev schedulerSig : Sig where
  Op := SchedulerOp
  Res
    | .monotonic => ℚ
    | .listContexts => List Entry
    | .nextDue _ => Option ℚ
    | .acquire _ => Bool
    | _ => Unit

abbrev SchedulerProg := Prog schedulerSig Exn

structure World where
  clock : ℚ
  contexts : List Entry
  locks : Dict String Bool
  nextDue : Dict String ℚ

/-- A scheduler that no tick has run on yet, whatever its due times. -/
def started (clock : ℚ) (contexts : List Entry) (nextDue : Dict String ℚ) : World where
  clock
  contexts
  locks := ∅
  nextDue

namespace World

def setLock (w : World) (contextId : String) (locked : Bool) : World :=
  { w with locks := w.locks.insert contextId locked }

def perform : (o : SchedulerOp) → World → Except Exn (schedulerSig.Res o) × World
  | .monotonic, w => (.ok w.clock, w)
  | .listContexts, w => (.ok w.contexts, w)
  | .nextDue contextId, w => (.ok (w.nextDue.lookup contextId), w)
  | .acquire contextId, w =>
    if w.locks.lookup contextId = some true then (.ok false, w)
    else (.ok true, w.setLock contextId true)
  | .release contextId, w =>
    if w.locks.lookup contextId = some true then (.ok (), w.setLock contextId false)
    else (.error (.raised "release unlocked lock"), w)
  | .setNextDue contextId due, w => (.ok (), { w with nextDue := w.nextDue.insert contextId due })
  | .execute _, w | .recordRefreshFailure _ _, w | .auditLog _, w => (.ok (), w)

end World

/-- The engine and the audit log may raise; the scheduler's own maps do not. -/
def scheduler : Handler schedulerSig Exn World where
  perform := World.perform
  fault
    | .execute _ | .recordRefreshFailure _ _ | .auditLog _ => some id
    | _ => none

variable {w w' : World}

theorem answer_quiet {o : SchedulerOp} {r : Except Exn (schedulerSig.Res o)} (hquiet : scheduler.fault o = none)
    (h : scheduler.Faulty o w r w') : r = (World.perform o w).1 ∧ w' = (World.perform o w).2 := by
  obtain ⟨failure, h⟩ := h
  cases failure with
  | none =>
    obtain ⟨rfl, rfl⟩ := Prod.ext_iff.mp (Option.some.inj h)
    exact ⟨rfl, rfl⟩
  | some e =>
    rw [Handler.answer, hquiet] at h
    cases h

/-- What other components do leaves the scheduler's maps alone. -/
theorem answer_called {o : SchedulerOp} {r : Except Exn (schedulerSig.Res o)}
    (hfault : scheduler.fault o = some id) (hsame : (World.perform o w).2 = w)
    (h : scheduler.Faulty o w r w') : w' = w := by
  obtain ⟨failure, h⟩ := h
  cases failure with
  | none => exact ((Prod.ext_iff.mp (Option.some.inj h)).2.symm.trans hsame)
  | some e =>
    rw [Handler.answer, hfault] at h
    exact (Prod.ext_iff.mp (Option.some.inj h)).2.symm

def refreshStatement (qualifiedName : String) : String := "REFRESH CONTEXT " ++ qualifiedName ++ ";"

def hexPrefix (contextId : String) : String :=
  .ofList ((contextId.toList.filter (· ≠ '-')).take 4)

def jitter (contextId : String) (interval : ℚ) : Except Exn ℚ :=
  match int16 (hexPrefix contextId) with
  | none => .error (.invalidLiteral (hexPrefix contextId))
  | some n => .ok (interval * ((n % 1000 : Int) / 10000))

/-- `parse_duration_seconds`, taken to return on the intervals of the catalog, and whether
there is an audit log. -/
structure Config where
  parseDurationSeconds : Option String → Except Exn (Option ℚ)
  parses : ∀ refreshInterval, ∃ interval, parseDurationSeconds refreshInterval = .ok interval
  audited : Bool

/-- Every interval is read as the same duration. -/
def Config.constant (duration : Option ℚ) (audited : Bool) : Config where
  parseDurationSeconds _ := .ok duration
  parses _ := ⟨_, rfl⟩
  audited

variable (S : Config)

def audit (eventType : String) (entry : Entry) (detail : List (String × Json)) : SchedulerProg Unit :=
  if S.audited then
    Prog.perform (S := schedulerSig) (.auditLog {
      eventType
      resourceType := some "context"
      resourceName := some entry.qualifiedName
      detail := some (.obj detail)
      actor := "system"
      namespaceName := entry.namespaceName
      traceId := none })
  else pure ()

def refresh (entry : Entry) : SchedulerProg Unit :=
  Prog.tryCatch
    (do
      Prog.perform (S := schedulerSig) (.execute (refreshStatement entry.qualifiedName))
      audit S "context.refresh.succeeded" entry [("context_id", .str entry.contextId)])
    fun exc => do
      Prog.perform (S := schedulerSig) (.recordRefreshFailure entry.qualifiedName exc.str)
      audit S "context.refresh.failed" entry
        [("context_id", .str entry.contextId), ("error", .str exc.str)]

def parsedInterval (entry : Entry) : Except Exn (Option ℚ) :=
  if entry.materialization.materialized && entry.materialization.refreshMode = "scheduled" then
    S.parseDurationSeconds entry.materialization.refreshInterval
  else .ok none

def scheduledInterval (entry : Entry) : Option ℚ :=
  match parsedInterval S entry with
  | .ok interval => interval
  | .error _ => none

theorem parsedInterval_eq (entry : Entry) : parsedInterval S entry = .ok (scheduledInterval S entry) := by
  have hreturns : ∃ interval, parsedInterval S entry = .ok interval := by
    rw [parsedInterval]
    split
    · exact S.parses _
    · exact ⟨none, rfl⟩
  obtain ⟨interval, h⟩ := hreturns
  rw [scheduledInterval, h]

def reschedule (current interval : ℚ) (contextId : String) : SchedulerProg Unit := do
  Prog.perform (S := schedulerSig) (.release contextId)
  let jitter ← Prog.ofExcept (jitter contextId interval)
  Prog.perform (S := schedulerSig) (.setNextDue contextId (current + interval + jitter))

def visitDue (current interval : ℚ) (entry : Entry) : SchedulerProg Unit := do
  let due ← Prog.perform (S := schedulerSig) (.nextDue entry.contextId)
  if current < due.getD current then pure ()
  else
    let acquired ← Prog.perform (S := schedulerSig) (.acquire entry.contextId)
    if acquired then
      (refresh S entry).andFinally (reschedule current interval entry.contextId)
    else pure ()

/-- One turn of the loop in `tick`. -/
def visit (current : ℚ) (entry : Entry) : SchedulerProg Unit := do
  let interval ← Prog.ofExcept (parsedInterval S entry)
  match interval with
  | none => pure ()
  | some interval => visitDue S current interval entry

theorem visit_eq (current : ℚ) (entry : Entry) : visit S current entry =
    (scheduledInterval S entry).elim (pure ()) (fun interval => visitDue S current interval entry) := by
  rw [visit, parsedInterval_eq]
  cases scheduledInterval S entry <;> rfl

def tick : SchedulerProg Unit := do
  let current ← Prog.perform (S := schedulerSig) .monotonic
  let entries ← Prog.perform (S := schedulerSig) .listContexts
  forM entries (visit S current)

end ContextqlServer.Scheduler.RefreshScheduler
