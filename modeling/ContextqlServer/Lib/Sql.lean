import ContextqlServer.Lib.Rely

namespace ContextqlServer.Lib.Sql

open ContextqlServer.Lib.Effect ContextqlServer.Lib.Rely

/-- What the statements of a database do to its tables, where `Ambient` is what a
statement or its caller reads of the clock and of the random generator, and
`nested` the error of a `BEGIN` inside a transaction. -/
structure Schema (ε : Type) where
  Tables : Type
  Statement : Type
  Ambient : Type
  run : Statement → Ambient → Tables → Except ε Tables
  nested : ε

inductive SqlOp {ε : Type} (M : Schema ε) where
  | beginImmediate
  | execute (s : M.Statement)
  | select
  | commit
  | rollback
  /-- A reading of the clock or of the random generator, which is no statement. -/
  | sense

/-- An operation that changes neither the tables nor the transaction. -/
def IsReading {ε : Type} {M : Schema ε} : SqlOp M → Prop
  | .select | .sense => True
  | _ => False

abbrev sqlSig {ε : Type} (M : Schema ε) : Sig where
  Op := SqlOp M
  Res
    | .execute _ | .select => M.Tables
    | .beginImmediate | .commit | .rollback => Unit
    | .sense => M.Ambient

abbrev SqlProg {ε : Type} (M : Schema ε) := Prog (sqlSig M) ε

variable {ε α β : Type} {M : Schema ε}

section Programs

def beginImmediate : SqlProg M Unit := Prog.perform (S := sqlSig M) .beginImmediate

def execute (s : M.Statement) : SqlProg M M.Tables := Prog.perform (S := sqlSig M) (.execute s)

/-- The tables as the connection sees them. -/
def select : SqlProg M M.Tables := Prog.perform (S := sqlSig M) .select

def commit : SqlProg M Unit := Prog.perform (S := sqlSig M) .commit

def rollback : SqlProg M Unit := Prog.perform (S := sqlSig M) .rollback

def sense : SqlProg M M.Ambient := Prog.perform (S := sqlSig M) .sense

def executeAll : List M.Statement → SqlProg M Unit
  | [] => pure ()
  | s :: ss => do
    let _ ← execute s
    executeAll ss

/-- `try: BEGIN IMMEDIATE; ...; commit()`, `except: rollback(); raise`. -/
def immediate (ss : List M.Statement) : SqlProg M Unit :=
  tryCatch (do
    beginImmediate
    executeAll ss
    commit)
  fun e => do
    rollback
    throw e

end Programs

/-- A connection in the default transaction control of `sqlite3`: the tables that
are committed, and those that an open transaction has made of them. -/
structure Connection {ε : Type} (M : Schema ε) where
  committed : M.Tables
  transaction : Option M.Tables
  ambient : Nat → M.Ambient
  tick : Nat

namespace Connection

variable (c : Connection M)

def pending : M.Tables := c.transaction.getD c.committed

def advance : Connection M := { c with tick := c.tick + 1 }

/-- The connection with a transaction that has come to `t`. -/
def working (t : M.Tables) : Connection M := { c with transaction := some t }

/-- The connection with `t` committed and no transaction. -/
def settled (t : M.Tables) : Connection M := { c with committed := t, transaction := none }

/-- The process ends and the database is opened again. -/
def reopen : Connection M := c.settled c.committed

def reading : M.Ambient := c.ambient c.tick

/-- A data statement opens a transaction where there is none, also when it fails. -/
def step : (o : SqlOp M) → Except ε ((sqlSig M).Res o) × Connection M
  | .beginImmediate =>
    match c.transaction with
    | some _ => (.error M.nested, c)
    | none => (.ok (), c.working c.committed)
  | .execute s =>
    match M.run s c.reading c.pending with
    | .ok t => (.ok t, c.working t)
    | .error e => (.error e, c.working c.pending)
  | .select => (.ok c.pending, c)
  | .commit => (.ok (), c.settled c.pending)
  | .rollback => (.ok (), c.reopen)
  | .sense => (.ok c.reading, c)

/-- What a statement that fails for a reason of its own leaves; neither a
`rollback` nor a reading fails. -/
def failed : SqlOp M → Option (Connection M → Connection M)
  | .execute _ => some (fun c => c.working c.pending)
  | .beginImmediate | .select | .commit => some id
  | .rollback | .sense => none

def handler (M : Schema ε) : Handler (sqlSig M) ε (Connection M) where
  perform o c := ((c.step o).1, (c.step o).2.advance)
  fault o := (failed o).map (fun f c => (f c).advance)

@[simp] theorem advance_committed : c.advance.committed = c.committed := rfl
@[simp] theorem advance_transaction : c.advance.transaction = c.transaction := rfl
@[simp] theorem advance_pending : c.advance.pending = c.pending := rfl
@[simp] theorem working_committed (t : M.Tables) : (c.working t).committed = c.committed := rfl
@[simp] theorem working_transaction (t : M.Tables) : (c.working t).transaction = some t := rfl
@[simp] theorem working_pending (t : M.Tables) : (c.working t).pending = t := rfl
@[simp] theorem settled_committed (t : M.Tables) : (c.settled t).committed = t := rfl
@[simp] theorem settled_transaction (t : M.Tables) : (c.settled t).transaction = none := rfl
@[simp] theorem settled_pending (t : M.Tables) : (c.settled t).pending = t := rfl
@[simp] theorem reopen_committed : c.reopen.committed = c.committed := rfl
@[simp] theorem reopen_transaction : c.reopen.transaction = none := rfl
@[simp] theorem reopen_pending : c.reopen.pending = c.committed := rfl

theorem pending_of_none {c : Connection M} (h : c.transaction = none) : c.pending = c.committed := by
  rw [pending, h, Option.getD_none]

end Connection

open Connection

/-- The statements of `ss` applied in turn, each at some time. -/
inductive Applies : List M.Statement → M.Tables → M.Tables → Prop
  | nil (t : M.Tables) : Applies [] t t
  | cons {s : M.Statement} {ss : List M.Statement} {a : M.Ambient} {t t₁ t₂ : M.Tables}
      (h : M.run s a t = .ok t₁) (hs : Applies ss t₁ t₂) : Applies (s :: ss) t t₂

theorem Applies.append {ss ss' : List M.Statement} {t t₁ t₂ : M.Tables} (h : Applies ss t t₁)
    (h' : Applies ss' t₁ t₂) : Applies (ss ++ ss') t t₂ := by
  induction h with
  | nil t => exact h'
  | cons h _ ih => exact .cons h (ih h')

theorem Applies.nil_iff {t t' : M.Tables} : Applies ([] : List M.Statement) t t' ↔ t' = t := by
  constructor
  · rintro ⟨⟩
    rfl
  · rintro rfl
    exact .nil t'

theorem Applies.cons_iff {s : M.Statement} {ss : List M.Statement} {t t' : M.Tables} :
    Applies (s :: ss) t t' ↔ ∃ a t₁, M.run s a t = .ok t₁ ∧ Applies ss t₁ t' := by
  constructor
  · rintro (_ | ⟨h, hs⟩)
    exact ⟨_, _, h, hs⟩
  · rintro ⟨a, t₁, h, hs⟩
    exact .cons h hs

section Rules

/-- What the operations of one caller may answer when any of them may fail. -/
abbrev Answers (M : Schema ε) : Answering (sqlSig M) ε (Connection M) := (handler M).Faulty

variable {R : Connection M → Connection M → Prop} {I : Connection M → Prop} {c : Connection M}

theorem perform_keeps {o : SqlOp M} {Q : Except ε ((sqlSig M).Res o) → Connection M → Prop} (hI : I c)
    (hok : ∀ c', R c c' → I c' → Q (c'.step o).1 (c'.step o).2.advance)
    (herr : ∀ e f c', failed o = some f → R c c' → I c' → Q (.error e) (f c').advance) :
    Keeps (Answers M) R I Q (Prog.perform (S := sqlSig M) o) c := by
  refine .perform hI ?_
  rintro c' hR hI' r c'' ⟨failure, hA⟩
  cases failure with
  | none =>
    obtain ⟨rfl, rfl⟩ := Prod.ext_iff.mp (Option.some.inj hA)
    exact hok c' hR hI'
  | some e =>
    obtain ⟨f, hf, hA⟩ := Option.map_eq_some_iff.mp hA
    obtain ⟨rfl, rfl⟩ := Prod.ext_iff.mp hA
    obtain ⟨g, hg, rfl⟩ := Option.map_eq_some_iff.mp hf
    exact herr e g c' hg hR hI'

end Rules

-- The rules for a caller that has the connection to itself.
section Alone

variable {I : Connection M → Prop} {c : Connection M}

theorem beginImmediate_alone {Q : Except ε Unit → Connection M → Prop} (hI : I c)
    (hok : c.transaction = none → Q (.ok ()) (c.working c.committed).advance)
    (herr : ∀ e, Q (.error e) c.advance) : Keeps (Answers M) Eq I Q beginImmediate c := by
  apply perform_keeps (o := .beginImmediate) hI
  · rintro _ rfl -
    cases h : c.transaction with
    | none => simpa only [step, h] using hok h
    | some t => simpa only [step, h] using herr _
  · rintro e f _ ⟨⟩ rfl -
    exact herr e

theorem execute_alone {s : M.Statement} {Q : Except ε M.Tables → Connection M → Prop} (hI : I c)
    (hok : ∀ a t, M.run s a c.pending = .ok t → Q (.ok t) (c.working t).advance)
    (herr : ∀ e, Q (.error e) (c.working c.pending).advance) :
    Keeps (Answers M) Eq I Q (execute s) c := by
  apply perform_keeps (o := .execute s) hI
  · rintro _ rfl -
    cases h : M.run s c.reading c.pending with
    | ok t => simpa only [step, h] using hok _ t h
    | error e => simpa only [step, h] using herr e
  · rintro e f _ ⟨⟩ rfl -
    exact herr e

theorem select_alone {Q : Except ε M.Tables → Connection M → Prop} (hI : I c)
    (hok : Q (.ok c.pending) c.advance) (herr : ∀ e, Q (.error e) c.advance) :
    Keeps (Answers M) Eq I Q select c := by
  apply perform_keeps (o := .select) hI
  · rintro _ rfl -
    exact hok
  · rintro e f _ ⟨⟩ rfl -
    exact herr e

theorem commit_alone {Q : Except ε Unit → Connection M → Prop} (hI : I c)
    (hok : Q (.ok ()) (c.settled c.pending).advance) (herr : ∀ e, Q (.error e) c.advance) :
    Keeps (Answers M) Eq I Q commit c := by
  apply perform_keeps (o := .commit) hI
  · rintro _ rfl -
    exact hok
  · rintro e f _ ⟨⟩ rfl -
    exact herr e

theorem rollback_alone {Q : Except ε Unit → Connection M → Prop} (hI : I c)
    (hok : Q (.ok ()) c.reopen.advance) : Keeps (Answers M) Eq I Q rollback c := by
  apply perform_keeps (o := .rollback) hI
  · rintro _ rfl -
    exact hok
  · rintro e f _ ⟨⟩

theorem sense_alone {Q : Except ε M.Ambient → Connection M → Prop} (hI : I c)
    (hok : ∀ a, Q (.ok a) c.advance) : Keeps (Answers M) Eq I Q sense c := by
  apply perform_keeps (o := .sense) hI
  · rintro _ rfl -
    exact hok _
  · rintro e f _ ⟨⟩

theorem executeAll_alone {ss : List M.Statement} {Q : Except ε Unit → Connection M → Prop}
    (hI : ∀ c', c'.committed = c.committed → I c')
    (hok : ∀ c', c'.committed = c.committed → Applies ss c.pending c'.pending → Q (.ok ()) c')
    (herr : ∀ e c', c'.committed = c.committed → Q (.error e) c') :
    Keeps (Answers M) Eq I Q (executeAll ss) c := by
  induction ss generalizing c with
  | nil => exact hok c rfl (.nil _)
  | cons s ss ih =>
    refine .bind (execute_alone (hI c rfl) ?_ (fun e => herr e _ rfl))
    intro a t ht
    exact ih hI (fun c' hc' hs => hok c' hc' (.cons ht hs)) herr

theorem readings_alone {p : SqlProg M α} (hp : p.Only (S := sqlSig M) IsReading) :
    Keeps (Answers M) Eq (fun _ => True)
      (fun _ c' => c'.committed = c.committed ∧ c'.transaction = c.transaction) p c := by
  refine Keeps.of_only ?_ hp ⟨rfl, rfl⟩
  rintro o w r w' ho ⟨hcommitted, htransaction⟩ ⟨failure, hA⟩
  cases failure with
  | none =>
    obtain ⟨-, rfl⟩ := Prod.ext_iff.mp (Option.some.inj hA)
    cases o with
    | select | sense => exact ⟨hcommitted, htransaction⟩
    | _ => cases ho
  | some e =>
    obtain ⟨f, hf, hA⟩ := Option.map_eq_some_iff.mp hA
    obtain ⟨-, rfl⟩ := Prod.ext_iff.mp hA
    obtain ⟨g, hg, rfl⟩ := Option.map_eq_some_iff.mp hf
    cases o with
    | select =>
      obtain rfl := Option.some.inj hg
      exact ⟨hcommitted, htransaction⟩
    | sense => cases hg
    | _ => cases ho

theorem immediate_alone {ss : List M.Statement} {Q : Except ε Unit → Connection M → Prop}
    (hI : ∀ c', c'.committed = c.committed → I c')
    (hok : ∀ c', c.transaction = none → c'.transaction = none →
      Applies ss c.committed c'.committed → Q (.ok ()) c')
    (herr : ∀ e c', c'.transaction = none → c'.committed = c.committed → Q (.error e) c') :
    Keeps (Answers M) Eq I Q (immediate ss) c := by
  have hback : ∀ e c', c'.committed = c.committed →
      Keeps (Answers M) Eq I Q (do rollback; throw e) c' := by
    intro e c' hc'
    exact .bind (rollback_alone (hI c' hc') (herr e _ rfl hc'))
  refine .handle (.bind (beginImmediate_alone (hI c rfl) ?_ (fun e => hback e _ rfl)))
  intro hnone
  refine .bind (executeAll_alone hI ?_ hback)
  intro c₁ hc₁ hs
  refine commit_alone (hI c₁ hc₁) ?_ (fun e => hback e _ hc₁)
  exact hok _ hnone rfl hs

/-- A statement that is committed by itself: nothing takes it back where it fails. -/
theorem write_alone {s : M.Statement} {Q : Except ε Unit → Connection M → Prop}
    (hI : ∀ c', c'.committed = c.committed → I c')
    (hok : ∀ a t c', M.run s a c.pending = .ok t → c'.committed = t → c'.transaction = none →
      Q (.ok ()) c')
    (herr : ∀ e c', c'.committed = c.committed →
      (c'.pending = c.pending ∨ ∃ a, M.run s a c.pending = .ok c'.pending) → Q (.error e) c') :
    Keeps (Answers M) Eq I Q (do let _ ← execute s; commit) c := by
  refine .bind (execute_alone (hI c rfl) ?_ (fun e => herr e _ rfl (.inl rfl)))
  intro a t ht
  refine commit_alone (hI _ rfl) ?_ ?_
  · exact hok a t _ ht rfl rfl
  · exact fun e => herr e _ rfl (.inr ⟨a, ht⟩)

end Alone

-- Runs in which nothing fails but what the tables refuse.
section Exec

variable {c : Connection M}

@[simp] theorem exec_beginImmediate (h : c.transaction = none) :
    (handler M).exec beginImmediate c = (.ok (), (c.working c.committed).advance) := by
  rw [beginImmediate, Handler.exec_perform]
  simp only [handler, step, h]

theorem exec_execute_ok {s : M.Statement} {t : M.Tables} (h : M.run s c.reading c.pending = .ok t) :
    (handler M).exec (execute s) c = (.ok t, (c.working t).advance) := by
  rw [execute, Handler.exec_perform]
  simp only [handler, step, h]

theorem exec_execute_error {s : M.Statement} {e : ε} (h : M.run s c.reading c.pending = .error e) :
    (handler M).exec (execute s) c = (.error e, (c.working c.pending).advance) := by
  rw [execute, Handler.exec_perform]
  simp only [handler, step, h]

theorem exec_execute_iff {s : M.Statement} {t : M.Tables} {c' : Connection M} :
    (handler M).exec (execute s) c = (.ok t, c') ↔
      M.run s c.reading c.pending = .ok t ∧ c' = (c.working t).advance := by
  cases h : M.run s c.reading c.pending with
  | ok t' =>
    rw [exec_execute_ok h]
    constructor
    · rintro ⟨⟩
      exact ⟨rfl, rfl⟩
    · rintro ⟨⟨⟩, rfl⟩
      rfl
  | error e =>
    rw [exec_execute_error h]
    constructor
    · rintro ⟨⟩
    · rintro ⟨⟨⟩, -⟩

@[simp] theorem exec_select : (handler M).exec select c = (.ok c.pending, c.advance) := rfl

@[simp] theorem exec_commit :
    (handler M).exec commit c = (.ok (), (c.settled c.pending).advance) := rfl

@[simp] theorem exec_rollback : (handler M).exec rollback c = (.ok (), c.reopen.advance) := rfl

@[simp] theorem exec_sense : (handler M).exec sense c = (.ok c.reading, c.advance) := rfl

end Exec

end ContextqlServer.Lib.Sql
