import ContextqlServer.Db.CleanConnection
import ContextqlServer.Lib.Shared

namespace ContextqlServer.Db.SharedConnection

open ContextqlServer.Lib.Effect ContextqlServer.Lib.JsonText ContextqlServer.Lib.Shared
open ContextqlServer.Lib.Sql ContextqlServer.Lib.Threads
open ContextqlServer.Db.Schema ContextqlServer.Db.Statements ContextqlServer.Db.Services
open ContextqlServer.Db.ContextCatalog ContextqlServer.Db.ContextCatalog.SQLiteContextRuntimeRepository
open ContextqlServer.Db.Calls ContextqlServer.Db.CleanConnection

variable {P : Packages}

section Operations

variable {T : FloatText} {α : Type}

theorem settles_forget {p : DbProg α} (hp : Settles p) : Settles (forget p) := hp.bind fun _ => .pure ()

theorem settles_sense {f : Ambient → DbProg α} (hf : ∀ a, Settles (f a)) : Settles (sense (M := catalog) >>= f) :=
  Settles.bind (.readonly (Prog.Only.perform trivial)) hf

theorem settles_log (e : AuditService.Event) : Settles (AuditService.log T e) := by
  have hrest (traceId : String) : Settles (do
      let ambient ← sense
      let t ← execute (M := catalog) (.insertAudit {
        timestamp := ambient.now.strftime
        eventType := e.eventType
        actor := e.actor
        namespaceName := e.namespaceName
        resourceType := e.resourceType
        resourceName := e.resourceName
        detail := e.detail.map (dumps T)
        traceId })
      commit
      pure t.auditLog.sequence) := settles_sense fun _ => .write fun _ => .pure _
  rw [AuditService.log]
  cases e.traceId with
  | some traceId => exact hrest traceId
  | none => exact settles_sense fun a => hrest a.uuid4.hex

theorem settles_auditLog {audit : Bool} {eventType resourceType name namespaceName : String} {detail : Option Json} :
    Settles (auditLog T audit eventType resourceType name namespaceName detail) := by
  rw [auditLog]
  cases audit with
  | false => exact .pure ()
  | true => exact (settles_log _).bind fun _ => .pure ()

theorem settles_get {name namespaceName : String} : Settles (ProviderService.get T name namespaceName) :=
  .readonly (select_readonly fun _ => trivial)

theorem settles_change {self : ProviderService} {change : ProviderChange} {eventType name namespaceName : String}
    {detail : Option Json} : Settles (self.change T change eventType name namespaceName detail) := by
  apply settles_sense
  intro ambient
  apply Settles.write
  intro t
  exact settles_auditLog.bind fun _ => settles_get

theorem settles_current {name namespaceName : String} {f : ProviderService.Provider → DbProg α}
    (hf : ∀ p, Settles (f p)) : Settles (ProviderService.current T name namespaceName >>= f) := by
  apply Settles.bind _ hf
  apply settles_get.bind
  intro found
  cases found with
  | none => exact .throw _
  | some p => exact .pure p

/-- The operations that run beside a promotion: those of the repository wait for its lock. -/
def Beside : Operation P → Prop
  | .construct _ | .repository _ => False
  | _ => True

theorem Beside.settles {op : Operation P} (h : Beside op) : Settles op.program := by
  cases op with
  | construct | repository => exact h.elim
  | registerProvider self v => exact settles_forget (.write fun _ => settles_auditLog.bind fun _ => settles_get)
  | updateProvider self name namespaceName kwargs =>
    apply settles_forget
    apply settles_current
    intro p
    dsimp only
    split
    · exact .pure _
    · exact settles_change
  | setEnabled self name namespaceName enabled => exact settles_forget (settles_current fun _ => settles_change)
  | recordHealth self name namespaceName success => exact settles_forget (settles_current fun _ => settles_change)
  | registerMap self v =>
    apply settles_forget
    apply Settles.write
    intro t
    exact settles_auditLog.bind fun _ => .readonly (select_readonly fun _ => trivial)
  | log e => exact settles_forget (settles_log e)
  | commitState contextId watermark eventWatermarks => exact .immediate _
  | _ => exact .readonly (Operation.Reads.readonly trivial)

end Operations

section Runs

variable {ι : Type} [DecidableEq ι] {c₀ : Connection catalog} {promoter : ι} {p : Promotion P}
  {others : ι → Operation P} {events : List (SqlEvent catalog ι)}
  {pool : Pool (sqlSig catalog) DbError ι (Connection catalog)}

def calls (promoter : ι) (p : Promotion P) (others : ι → Operation P) (t : ι) : DbProg Unit :=
  if t = promoter then promoteSnapshot p else (others t).program

/-- No rollback takes back a statement of another operation that still runs, and the
promotion rolls back only if no other has committed in the middle of it. -/
structure Harmless (promoter : ι) (p : Promotion P) (events : List (SqlEvent catalog ι))
    (pool : Pool (sqlSig catalog) DbError ι (Connection catalog)) (e : SqlEvent catalog ι) : Prop where
  spares : Spares events pool e
  apart : e.thread = promoter → e.op = .rollback → Apart promoter p.statements events

theorem calls_settle (hothers : ∀ t, t ≠ promoter → Beside (others t)) (t : ι) :
    Settles (calls promoter p others t) := by
  rw [calls]
  split
  · exact .immediate _
  · rename_i ht
    exact (hothers t ht).settles

/-- Where every step is harmless, the committed tables are made by the published statements,
among which are all those of a promotion that has ended or none, all those of every other
operation that returned, and all that an operation had executed when it committed. -/
theorem promotion_whole (hothers : ∀ t, t ≠ promoter → Beside (others t))
    (h : Concurrent (Answers catalog) (Harmless promoter p) ⟨c₀, calls promoter p others⟩ events pool) :
    Replays c₀ (journal events) pool.world ∧
      (Ended (pool.thread promoter) → AllOrNone (journal events) promoter p.statements) ∧
      (∀ t, t ≠ promoter → pool.thread t = .pure () → ofThread t (journal events).published = written t events) ∧
      ∀ before e after, events = before ++ e :: after → e.op = .commit → e.answer.isOk = true →
        written e.thread before <+: ofThread e.thread (journal events).published := by
  have hspares : ∀ events pool e, Harmless promoter p events pool e → Spares events pool e := fun _ _ _ h => h.spares
  have hsettles : ∀ t, Settles (calls promoter p others t) := calls_settle hothers
  have hends : Follows (writing (· = p.statements)) (Ends p.statements) (calls promoter p others promoter)
      ⟨[], .settled⟩ := by
    rw [calls, if_pos rfl]
    exact immediate_follows (M := catalog) (φ := ⟨[], .settled⟩) p.statements nofun
  refine ⟨replays_of_concurrent h, ?_, ?_, ?_⟩
  · exact ended_all_or_none hspares (fun _ _ _ h => h.apart) hsettles hends h
  · intro t _ hreturned
    exact returned_published hspares hsettles h hreturned
  · intro before e after hsplit hop hanswer
    apply committed_published hspares hsettles h hsplit
    obtain ⟨t, o, r⟩ := e
    change o = _ at hop
    subst hop
    cases r with
    | ok a => rfl
    | error e => cases hanswer

end Runs

section Sample

def sampleLog : AuditService.Event := ⟨"server_start", none, none, none, "system", "default", some "trace"⟩

def samplePool (op : Operation samplePackages) : Pool (sqlSig catalog) DbError Bool (Connection catalog) :=
  ⟨sampleConnection .empty, calls true (samplePromotion "a" 1 1 [1]) fun _ => op⟩

/-- The run in which the promotion (`true`) and an operation (`false`) get the given turns. -/
def sampleRun (allowed : SqlEvent catalog Bool → Bool) (op : Operation samplePackages) (turns : List Bool) :
    List (SqlEvent catalog Bool) × Pool (sqlSig catalog) DbError Bool (Connection catalog) :=
  turns.foldl (advance (Connection.handler catalog) allowed) ([], samplePool op)

def isRollback (e : SqlEvent catalog Bool) : Bool :=
  match e.op with
  | .rollback => true
  | _ => false

theorem quietRun_concurrent (op : Operation samplePackages) (turns : List Bool) :
    Concurrent (Answers catalog) (Harmless true (samplePromotion "a" 1 1 [1])) (samplePool op)
      (sampleRun (fun e => !isRollback e) op turns).1 (sampleRun (fun e => !isRollback e) op turns).2 := by
  apply schedule_concurrent _ turns .starts
  intro events pool e he
  have hnot : e.op ≠ .rollback := by
    intro hop
    rw [isRollback, hop] at he
    cases he
  exact ⟨fun hop => absurd hop hnot, fun _ hop => absurd hop hnot⟩

/-- An audit record is begun before a promotion and written after it. -/
theorem promotion_whole_beside_log : ∃ events pool,
    Concurrent (Answers catalog) (Harmless true (samplePromotion "a" 1 1 [1])) (samplePool (.log sampleLog))
      events pool ∧
    (∀ t, Ended (pool.thread t)) ∧ AllOrNone (journal events) true (samplePromotion "a" 1 1 [1]).statements ∧
    ofThread false (journal events).published = written false events ∧
    pool.world.committed.contextSnapshots.length = 1 ∧ pool.world.committed.auditLog.rows.length = 1 := by
  have hrun := quietRun_concurrent (.log sampleLog)
    [false, true, true, true, true, true, true, true, false, false]
  have hlog (t : Bool) (_ : t ≠ true) : Beside (.log sampleLog : Operation samplePackages) := trivial
  have hwhole := promotion_whole hlog hrun
  refine ⟨_, _, hrun, ?_, hwhole.2.1 trivial, hwhole.2.2.1 false nofun rfl, rfl, rfl⟩
  rintro (_ | _) <;> trivial

theorem sampleRun_concurrent (op : Operation samplePackages) (turns : List Bool) :
    Concurrent (Answers catalog) (fun _ _ _ => True) (samplePool op) (sampleRun (fun _ => true) op turns).1
      (sampleRun (fun _ => true) op turns).2 :=
  schedule_concurrent (fun _ _ _ _ => trivial) turns .starts

/-- The failed commit of a synchronizer takes back the payload of a promotion, which commits the
rest; and a promotion that cannot begin takes back the audit record of a call that returns. -/
theorem promotion_interrupted :
    (∃ events pool,
      Concurrent (Answers catalog) (fun _ _ _ => True) (samplePool (.commitState "a" "1" [])) events pool ∧
      (∀ t, Ended (pool.thread t)) ∧ pool.world.committed.contextSnapshots.length = 1 ∧
      pool.world.committed.contextSnapshotPayloads = [] ∧
      ¬ AllOrNone (journal events) true (samplePromotion "a" 1 1 [1]).statements) ∧
    ∃ events pool, Concurrent (Answers catalog) (fun _ _ _ => True) (samplePool (.log sampleLog)) events pool ∧
      pool.thread false = .pure () ∧ pool.world.committed.auditLog.rows = [] ∧
      ofThread false (journal events).published ≠ written false events := by
  constructor
  · refine ⟨_, _, sampleRun_concurrent _ [true, true, false, false, true, true, true, true, true], ?_, rfl, rfl, ?_⟩
    · rintro (_ | _) <;> trivial
    · rintro (h | h)
      · exact absurd (congrArg List.length h) (by decide)
      · exact absurd (congrArg List.length h) (by decide)
  · refine ⟨_, _, sampleRun_concurrent _ [false, false, true, true, false], rfl, rfl, ?_⟩
    intro h
    exact absurd (congrArg List.length h) (by decide)

end Sample

end ContextqlServer.Db.SharedConnection
