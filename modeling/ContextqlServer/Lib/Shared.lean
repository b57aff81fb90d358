import ContextqlServer.Lib.Log
import ContextqlServer.Lib.Sql
import ContextqlServer.Lib.Threads

namespace ContextqlServer.Lib.Shared

open ContextqlServer.Lib.Effect ContextqlServer.Lib.Log ContextqlServer.Lib.Sql ContextqlServer.Lib.Threads

variable {ε ι α β : Type} {M : Schema ε}

section Events

/-- An operation of a thread on a connection that several threads share. -/
abbrev SqlEvent (M : Schema ε) (ι : Type) := Event (sqlSig M) ε ι

/-- What an operation does with the open transaction. -/
inductive Move (M : Schema ε) where
  | write (s : M.Statement)
  | publish
  | undo
  | idle

def move : (o : SqlOp M) → Except ε ((sqlSig M).Res o) → Move M
  | .execute s, .ok _ => .write s
  | .commit, .ok _ => .publish
  | .rollback, _ => .undo
  | _, _ => .idle

/-- The statements that went through, each with its thread: those that a commit has
published, and those of the open transaction. -/
structure Journal (M : Schema ε) (ι : Type) where
  published : List (ι × M.Statement)
  pending : List (ι × M.Statement)

def Journal.note (j : Journal M ι) (e : SqlEvent M ι) : Journal M ι :=
  match move e.op e.answer with
  | .write s => ⟨j.published, j.pending ++ [(e.thread, s)]⟩
  | .publish => ⟨j.published ++ j.pending, []⟩
  | .undo => ⟨j.published, []⟩
  | .idle => j

def journal (events : List (SqlEvent M ι)) : Journal M ι := events.foldl Journal.note ⟨[], []⟩

theorem journal_snoc (events : List (SqlEvent M ι)) (e : SqlEvent M ι) :
    journal (events ++ [e]) = (journal events).note e := by
  rw [journal, List.foldl_append]
  rfl

variable [DecidableEq ι]

def ofThread (t : ι) (entries : List (ι × M.Statement)) : List M.Statement :=
  (entries.filter (fun x => x.1 = t)).map Prod.snd

def wrote (t : ι) (e : SqlEvent M ι) : List M.Statement :=
  if e.thread = t then
    match move e.op e.answer with
    | .write s => [s]
    | _ => []
  else []

/-- The statements of a thread that went through. -/
def written (t : ι) (events : List (SqlEvent M ι)) : List M.Statement := events.flatMap (wrote t)

theorem written_snoc (t : ι) (events : List (SqlEvent M ι)) (e : SqlEvent M ι) :
    written t (events ++ [e]) = written t events ++ wrote t e := by
  rw [written, List.flatMap_append, List.flatMap_singleton]
  rfl

@[simp] theorem ofThread_nil (t : ι) : ofThread t ([] : List (ι × M.Statement)) = [] := by
  rw [ofThread, List.filter_nil, List.map_nil]

@[simp] theorem ofThread_append (t : ι) (xs ys : List (ι × M.Statement)) :
    ofThread t (xs ++ ys) = ofThread t xs ++ ofThread t ys := by
  rw [ofThread, List.filter_append, List.map_append]
  rfl

@[simp] theorem ofThread_own (t : ι) (s : M.Statement) : ofThread t [(t, s)] = [s] := by
  simp [ofThread]

theorem rollback_of_undo {o : SqlOp M} {r : Except ε ((sqlSig M).Res o)} (h : move o r = .undo) : o = .rollback := by
  cases o with
  | rollback => rfl
  | execute s | commit => cases r <;> cases h
  | _ => cases h

theorem commit_of_publish {o : SqlOp M} {r : Except ε ((sqlSig M).Res o)} (h : move o r = .publish) :
    o = .commit ∧ r.isOk = true := by
  cases o with
  | commit =>
    cases r with
    | ok a => exact ⟨rfl, rfl⟩
    | error e => cases h
  | execute s => cases r <;> cases h
  | _ => cases h

theorem ofThread_other {t u : ι} (h : u ≠ t) (s : M.Statement) : ofThread t [(u, s)] = [] := by
  simp [ofThread, h]

end Events

section Replay

/-- The published statements make the committed tables, and those of the open transaction
make what the connection sees of them. -/
structure Replays (c₀ : Connection M) (j : Journal M ι) (c : Connection M) : Prop where
  committed : ∃ base, (base = c₀.committed ∨ base = c₀.pending) ∧ Applies (j.published.map Prod.snd) base c.committed
  pending : ∃ base, (base = c.committed ∨ base = c₀.pending ∧ j.published = []) ∧
    Applies (j.pending.map Prod.snd) base c.pending

theorem Replays.refl (c₀ : Connection M) : Replays c₀ (⟨[], []⟩ : Journal M ι) c₀ :=
  ⟨⟨_, .inl rfl, .nil _⟩, ⟨_, .inr ⟨rfl, rfl⟩, .nil _⟩⟩

theorem Replays.published {c₀ c : Connection M} {j : Journal M ι} (h : Replays c₀ j c) :
    ∃ base, (base = c₀.committed ∨ base = c₀.pending) ∧
      Applies ((j.published ++ j.pending).map Prod.snd) base c.pending := by
  rw [List.map_append]
  obtain ⟨base, rfl | ⟨rfl, hnil⟩, hpending⟩ := h.pending
  · obtain ⟨first, hfirst, hcommitted⟩ := h.committed
    exact ⟨first, hfirst, hcommitted.append hpending⟩
  · rw [hnil]
    exact ⟨_, .inr rfl, hpending⟩

theorem answer_cases {o : SqlOp M} {c c' : Connection M} {r : Except ε ((sqlSig M).Res o)} (h : Answers M o c r c') :
    match move o r with
    | .write s => c'.committed = c.committed ∧ ∃ a, M.run s a c.pending = .ok c'.pending
    | .publish => c'.committed = c.pending ∧ c'.pending = c.pending
    | .undo => c'.committed = c.committed ∧ c'.pending = c.committed
    | .idle => c'.committed = c.committed ∧ c'.pending = c.pending := by
  obtain ⟨_ | e, h⟩ := h
  · obtain ⟨rfl, rfl⟩ := Prod.ext_iff.mp (Option.some.inj h)
    cases o with
    | beginImmediate =>
      cases hopen : c.transaction <;> simp [Connection.handler, Connection.step, hopen, move, Connection.pending]
    | execute s =>
      cases hrun : M.run s c.reading c.pending with
      | ok t =>
        simp only [Connection.handler, Connection.step, hrun, move]
        exact ⟨rfl, _, hrun⟩
      | error e =>
        simp only [Connection.handler, Connection.step, hrun, move]
        exact ⟨rfl, rfl⟩
    | select | sense | commit | rollback => exact ⟨rfl, rfl⟩
  · obtain ⟨f, hf, hA⟩ := Option.map_eq_some_iff.mp h
    obtain ⟨rfl, rfl⟩ := Prod.ext_iff.mp hA
    obtain ⟨g, hg, rfl⟩ := Option.map_eq_some_iff.mp hf
    cases o with
    | beginImmediate | execute s | select | commit =>
      obtain rfl := Option.some.inj hg
      exact ⟨rfl, rfl⟩
    | rollback | sense => cases hg

theorem Replays.step {c₀ c c' : Connection M} {j : Journal M ι} {t : ι} {o : SqlOp M}
    {r : Except ε ((sqlSig M).Res o)} (h : Replays c₀ j c) (hA : Answers M o c r c') :
    Replays c₀ (j.note ⟨t, o, r⟩) c' := by
  have hcases := answer_cases hA
  rw [Journal.note]
  dsimp only
  cases hm : move o r with
  | write s =>
    rw [hm] at hcases
    obtain ⟨hcommitted, a, hrun⟩ := hcases
    refine ⟨by rw [hcommitted]; exact h.committed, ?_⟩
    obtain ⟨base, hbase, hpending⟩ := h.pending
    refine ⟨base, by rw [hcommitted]; exact hbase, ?_⟩
    rw [List.map_append]
    exact hpending.append (.cons hrun (.nil _))
  | publish =>
    rw [hm] at hcases
    obtain ⟨hcommitted, hpending⟩ := hcases
    refine ⟨by rw [hcommitted]; exact h.published, c'.committed, .inl rfl, ?_⟩
    rw [hpending, hcommitted]
    exact .nil _
  | undo =>
    rw [hm] at hcases
    obtain ⟨hcommitted, hpending⟩ := hcases
    refine ⟨by rw [hcommitted]; exact h.committed, c'.committed, .inl rfl, ?_⟩
    rw [hpending, hcommitted]
    exact .nil _
  | idle =>
    rw [hm] at hcases
    obtain ⟨hcommitted, hpending⟩ := hcases
    refine ⟨by rw [hcommitted]; exact h.committed, ?_⟩
    rw [hcommitted, hpending]
    exact h.pending

theorem replays_of_concurrent [DecidableEq ι]
    {ok : List (SqlEvent M ι) → Pool (sqlSig M) ε ι (Connection M) → SqlEvent M ι → Prop}
    {start pool : Pool (sqlSig M) ε ι (Connection M)} {events : List (SqlEvent M ι)}
    (h : Concurrent (Answers M) ok start events pool) : Replays start.world (journal events) pool.world := by
  induction h with
  | starts => exact .refl _
  | step h hcall hA hok ih =>
    rw [journal_snoc]
    exact ih.step hA

end Replay

section Calls

/-- How a call stands: what it wrote has been published, is in the open transaction, or
has been taken back by the call itself. -/
inductive Stage where
  | settled
  | writing
  | undone
  deriving DecidableEq

structure Progress (M : Schema ε) where
  written : List M.Statement
  stage : Stage

def Progress.next (φ : Progress M) : Move M → Progress M
  | .write s => ⟨φ.written ++ [s], .writing⟩
  | .publish => ⟨φ.written, .settled⟩
  | .undo => ⟨φ.written, .undone⟩
  | .idle => φ

/-- The order of the operations of a call: none after its rollback, and a commit where
`whole` holds of what it has written. -/
def writing (whole : List M.Statement → Prop) : Protocol (sqlSig M) ε (Progress M) where
  allowed φ o := φ.stage ≠ .undone ∧ (o = .commit → whole φ.written)
  answers _ _ := True
  next φ o r := φ.next (move o r)

variable {whole : List M.Statement → Prop} {φ : Progress M}

/-- A call that returns has published what it wrote. -/
def Settles (p : SqlProg M α) : Prop :=
  ∀ φ : Progress M, φ.stage = .settled →
    Follows (writing fun _ => True) (fun out φ' => out.isOk → φ'.stage = .settled) p φ

namespace Settles

theorem pure (a : α) : Settles (.pure a : SqlProg M α) := fun _ h _ => h

theorem throw (e : ε) : Settles (.throw e : SqlProg M α) := fun _ h _ => h

theorem bind {p : SqlProg M α} {f : α → SqlProg M β} (hp : Settles p) (hf : ∀ a, Settles (f a)) :
    Settles (p >>= f) := by
  intro φ h
  apply Follows.bind
  apply (hp φ h).mono
  intro out φ' hout
  cases out with
  | ok a => exact hf a φ' (hout rfl)
  | error e => exact nofun

theorem readonly {p : SqlProg M α} (hp : p.Only (S := sqlSig M) IsReading) : Settles p := by
  induction p with
  | pure a => exact pure a
  | throw e => exact throw e
  | call o k ih =>
    intro φ h
    refine ⟨⟨by rw [h]; exact nofun, fun _ => trivial⟩, ?_⟩
    intro r _
    apply ih r (hp.2 r)
    cases o with
    | select | sense => exact h
    | _ => exact hp.1.elim

theorem write {s : M.Statement} {f : M.Tables → SqlProg M α} (hf : ∀ t, Settles (f t)) :
    Settles (do let t ← execute s; commit; f t) := by
  intro φ h
  apply Follows.bind
  refine Follows.perform (P := writing fun _ => True) (o := .execute s) ⟨by rw [h]; exact nofun, fun _ => trivial⟩ ?_
  rintro (e | t) -
  · exact nofun
  · apply Follows.bind
    refine Follows.perform (P := writing fun _ => True) (o := .commit) ⟨nofun, fun _ => trivial⟩ ?_
    rintro (e | ⟨⟩) -
    · exact nofun
    · exact hf t _ rfl

end Settles

theorem executeAll_follows (ss : List M.Statement) (hstage : φ.stage ≠ .undone) :
    Follows (writing whole) (fun out φ' => φ'.stage ≠ .undone ∧ (out.isOk → φ'.written = φ.written ++ ss))
      (executeAll ss) φ := by
  induction ss generalizing φ with
  | nil => exact ⟨hstage, fun _ => (List.append_nil _).symm⟩
  | cons s ss ih =>
    apply Follows.bind
    refine Follows.perform (P := writing whole) (o := .execute s) ⟨hstage, nofun⟩ ?_
    rintro (e | t) -
    · exact ⟨hstage, nofun⟩
    · apply (ih (φ := ⟨φ.written ++ [s], .writing⟩) nofun).mono
      rintro out φ' ⟨hstage', hwritten⟩
      refine ⟨hstage', ?_⟩
      intro hout
      rw [hwritten hout, List.append_assoc]
      rfl

/-- How a transaction ends: published whole, or taken back. -/
def Ends (ss : List M.Statement) : Except ε α → Progress M → Prop
  | .ok _, φ => φ = ⟨ss, .settled⟩
  | .error _, φ => φ.stage = .undone

theorem immediate_follows (ss : List M.Statement) (hstage : φ.stage ≠ .undone) :
    Follows (writing (· = φ.written ++ ss)) (Ends (φ.written ++ ss)) (immediate ss) φ := by
  have hback (e : ε) (φ' : Progress M) (h : φ'.stage ≠ .undone) :
      Follows (writing (· = φ.written ++ ss)) (Ends (φ.written ++ ss)) (do rollback; throw e : SqlProg M Unit) φ' := by
    apply Follows.bind
    refine Follows.perform (P := writing (· = φ.written ++ ss)) (o := .rollback) ⟨h, nofun⟩ ?_
    rintro (e | ⟨⟩) - <;> rfl
  apply Follows.handle
  apply Follows.bind
  refine Follows.perform (P := writing (· = φ.written ++ ss)) (o := .beginImmediate) ⟨hstage, nofun⟩ ?_
  rintro (e | ⟨⟩) -
  · exact hback e φ hstage
  · apply Follows.bind
    apply (executeAll_follows ss hstage).mono
    rintro (e | ⟨⟩) φ' ⟨hstage', hwritten⟩
    · exact hback e φ' hstage'
    · refine Follows.perform (P := writing (· = φ.written ++ ss)) (o := .commit) ⟨hstage', fun _ => hwritten rfl⟩ ?_
      rintro (e | ⟨⟩) -
      · exact hback e φ' hstage'
      · change Progress.mk φ'.written Stage.settled = _
        rw [hwritten rfl]

/-- A call that may commit at certain points only may do so where any is allowed. -/
theorem follows_any {Q : Except ε α → Progress M → Prop} {p : SqlProg M α} (h : Follows (writing whole) Q p φ) :
    Follows (writing fun _ => True) Q p φ := by
  induction p generalizing φ with
  | pure a => exact h
  | throw e => exact h
  | call o k ih => exact ⟨⟨h.1.1, fun _ => trivial⟩, fun r hr => ih r (h.2 r hr)⟩

theorem Settles.immediate (ss : List M.Statement) : Settles (immediate ss : SqlProg M Unit) := by
  intro φ h
  apply (follows_any (immediate_follows ss (by rw [h]; exact nofun))).mono
  rintro (e | ⟨⟩) φ' hout
  · exact nofun
  · rw [hout]
    exact fun _ => rfl

end Calls

section Interleavings

variable [DecidableEq ι] {start pool : Pool (sqlSig M) ε ι (Connection M)} {events : List (SqlEvent M ι)}
  {ok : List (SqlEvent M ι) → Pool (sqlSig M) ε ι (Connection M) → SqlEvent M ι → Prop}
  {t : ι} {ss : List M.Statement}

/-- A rollback takes back no statement of another call that still runs. -/
def Spares (events : List (SqlEvent M ι)) (pool : Pool (sqlSig M) ε ι (Connection M)) (e : SqlEvent M ι) : Prop :=
  e.op = .rollback → ∀ u, u ≠ e.thread → ¬ Ended (pool.thread u) → ofThread u (journal events).pending = []

/-- The commits of the other threads came before the first statement of thread `t`, or
after the last of `ss`. -/
def Apart (t : ι) (ss : List M.Statement) (events : List (SqlEvent M ι)) : Prop :=
  ∀ before after e, events = before ++ e :: after → e.thread ≠ t → e.op = .commit → e.answer.isOk = true →
    written t before = [] ∨ written t before = ss

def progress (events : List (SqlEvent M ι)) (t : ι) : Progress M :=
  phases (writing fun _ => True) ⟨[], .settled⟩ events t

theorem progress_snoc (events : List (SqlEvent M ι)) (e : SqlEvent M ι) (t : ι) :
    progress (events ++ [e]) t =
      if e.thread = t then (progress events t).next (move e.op e.answer) else progress events t := by
  rw [progress, phases_snoc, Function.update_apply]
  by_cases h : e.thread = t
  · rw [if_pos h, if_pos h.symm, h]
    rfl
  · rw [if_neg h, if_neg (Ne.symm h)]
    rfl

theorem progress_written (events : List (SqlEvent M ι)) (t : ι) : (progress events t).written = written t events := by
  induction events using List.reverseRecOn with
  | nil => rfl
  | append_singleton events e ih =>
    rw [progress_snoc, written_snoc, ← ih, wrote]
    split
    · cases move e.op e.answer <;> simp [Progress.next]
    · simp

/-- Where the statements of a call are. -/
def Held (j : Journal M ι) (t : ι) (φ : Progress M) (p : SqlProg M Unit) : Prop :=
  match φ.stage with
  | .settled => ofThread t j.pending = [] ∧ ofThread t j.published = φ.written
  | .writing => (∃ e, p = .throw e) ∨ ofThread t j.published ++ ofThread t j.pending = φ.written
  | .undone => ofThread t j.pending = []

theorem Held.parts {j : Journal M ι} {p : SqlProg M Unit} {φ : Progress M} (h : Held j t φ p)
    (hthrow : ∀ e, p ≠ .throw e) (hstage : φ.stage ≠ .undone) :
    ofThread t j.published ++ ofThread t j.pending = φ.written := by
  obtain ⟨ws, stage⟩ := φ
  cases stage with
  | settled =>
    obtain ⟨hpending, hpublished⟩ := h
    rw [hpending, hpublished, List.append_nil]
  | writing => exact h.resolve_left (fun ⟨e, he⟩ => hthrow e he)
  | undone => exact absurd rfl hstage

theorem Held.own {j : Journal M ι} {o : SqlOp M} {r : Except ε ((sqlSig M).Res o)}
    {k : Except ε ((sqlSig M).Res o) → SqlProg M Unit} {p : SqlProg M Unit} {φ : Progress M}
    (h : Held j t φ (.call o k)) (hstage : φ.stage ≠ .undone) :
    Held (j.note ⟨t, o, r⟩) t (φ.next (move o r)) p := by
  have hparts := h.parts nofun hstage
  obtain ⟨ws, stage⟩ := φ
  change _ = ws at hparts
  rw [Journal.note]
  dsimp only
  cases move o r with
  | write s =>
    right
    change _ = ws ++ [s]
    rw [ofThread_append, ofThread_own, ← List.append_assoc, hparts]
  | publish =>
    refine ⟨rfl, ?_⟩
    change _ = ws
    rw [ofThread_append, hparts]
  | undo => rfl
  | idle =>
    cases stage with
    | settled => exact h
    | writing => exact .inr hparts
    | undone => exact absurd rfl hstage

theorem Held.other {j : Journal M ι} {e : SqlEvent M ι} {p : SqlProg M Unit} {φ : Progress M} (h : Held j t φ p)
    (he : e.thread ≠ t)
    (hspared : e.op = .rollback → φ.stage = .writing → (∃ e, p = .throw e) ∨ ofThread t j.pending = []) :
    Held (j.note e) t φ p := by
  obtain ⟨ws, stage⟩ := φ
  rw [Journal.note]
  cases hm : move e.op e.answer with
  | write s =>
    cases stage <;> simpa only [Held, ofThread_append, ofThread_other he, List.append_nil] using h
  | publish =>
    cases stage with
    | settled =>
      obtain ⟨hpending, hpublished⟩ := h
      exact ⟨rfl, by rw [ofThread_append, hpending, hpublished, List.append_nil]⟩
    | writing => simpa only [Held, ofThread_append, ofThread_nil, List.append_nil] using h
    | undone => rfl
  | undo =>
    cases stage with
    | settled => exact ⟨rfl, h.2⟩
    | writing =>
      obtain hthrow | heq := h
      · exact .inl hthrow
      · obtain hthrow | hpending := hspared (rollback_of_undo hm) rfl
        · exact .inl hthrow
        · rw [hpending] at heq
          exact .inr heq
    | undone => rfl
  | idle => exact h

theorem progress_follows {whole : List M.Statement → Prop} {Q : Except ε Unit → Progress M → Prop}
    (hstart : Follows (writing whole) Q (start.thread t) ⟨[], .settled⟩)
    (h : Concurrent (Answers M) ok start events pool) :
    Follows (writing whole) Q (pool.thread t) (progress events t) :=
  h.follows hstart (fun _ _ _ _ _ => trivial)

theorem held_of_concurrent (hok : ∀ events pool e, ok events pool e → Spares events pool e)
    (hsettles : ∀ t, Settles (start.thread t)) (h : Concurrent (Answers M) ok start events pool) (t : ι) :
    Held (journal events) t (progress events t) (pool.thread t) := by
  induction h with
  | starts => exact ⟨rfl, rfl⟩
  | @step events w w' threads u o k r h hcall hA hstep ih =>
    have hfollows := progress_follows (t := t) (hsettles t _ rfl) h
    rw [journal_snoc, progress_snoc]
    change Held _ _ _ (Function.update threads u (k r) t)
    change Follows _ _ (threads t) _ at hfollows
    change Held _ _ _ (threads t) at ih
    by_cases ht : u = t
    · subst ht
      rw [hcall] at hfollows ih
      rw [if_pos rfl, Function.update_self]
      exact ih.own hfollows.1.1
    · rw [if_neg ht, Function.update_of_ne (Ne.symm ht)]
      apply ih.other ht
      intro hop hwriting
      cases hthread : threads t with
      | throw e => exact .inl ⟨e, rfl⟩
      | pure a =>
        rw [hthread] at hfollows
        rw [hfollows rfl] at hwriting
        cases hwriting
      | call o' k' =>
        right
        apply hok _ _ _ hstep hop t (Ne.symm ht)
        change ¬ Ended (threads t)
        rw [hthread]
        exact id

theorem returned_published (hok : ∀ events pool e, ok events pool e → Spares events pool e)
    (hsettles : ∀ t, Settles (start.thread t)) (h : Concurrent (Answers M) ok start events pool)
    (hreturned : pool.thread t = .pure ()) : ofThread t (journal events).published = written t events := by
  have hfollows := progress_follows (hsettles t _ rfl) h
  rw [hreturned] at hfollows
  have hheld := held_of_concurrent hok hsettles h t
  rw [Held, hfollows rfl] at hheld
  rw [hheld.2, progress_written]

theorem Apart.before {e : SqlEvent M ι} (h : Apart t ss (events ++ [e])) : Apart t ss events := by
  intro before after e' hsplit
  apply h before (after ++ [e]) e'
  rw [hsplit, List.append_assoc]
  rfl

theorem Apart.last {e : SqlEvent M ι} (h : Apart t ss (events ++ [e])) (he : e.thread ≠ t)
    (hmove : move e.op e.answer = .publish) : written t events = [] ∨ written t events = ss := by
  obtain ⟨hop, hanswer⟩ := commit_of_publish hmove
  exact h events [] e rfl he hop hanswer

def AllOrNone (j : Journal M ι) (t : ι) (ss : List M.Statement) : Prop :=
  ofThread t j.published = [] ∨ ofThread t j.published = ss

theorem AllOrNone.congr {j j' : Journal M ι} (h : AllOrNone j t ss)
    (hsame : ofThread t j'.published = ofThread t j.published) : AllOrNone j' t ss := by
  rw [AllOrNone, hsame]
  exact h

theorem all_or_none (hspares : ∀ events pool e, ok events pool e → Spares events pool e)
    (hapart : ∀ events pool e, ok events pool e → e.thread = t → e.op = .rollback → Apart t ss events)
    (hsettles : ∀ t, Settles (start.thread t))
    (hends : Follows (writing (· = ss)) (Ends ss) (start.thread t) ⟨[], .settled⟩)
    (h : Concurrent (Answers M) ok start events pool) :
    (Apart t ss events → AllOrNone (journal events) t ss) ∧
      ((progress events t).stage = .undone → AllOrNone (journal events) t ss) := by
  induction h with
  | starts => exact ⟨fun _ => .inl rfl, fun _ => .inl rfl⟩
  | @step events w w' threads u o k r h hcall hA hstep ih =>
    have hheld := held_of_concurrent hspares hsettles h t
    have hfollows := progress_follows hends h
    change Held _ _ _ (threads t) at hheld
    change Follows _ _ (threads t) _ at hfollows
    rw [journal_snoc, progress_snoc, Journal.note]
    dsimp only
    by_cases ht : u = t
    · subst ht
      rw [hcall] at hfollows hheld
      rw [if_pos rfl]
      obtain ⟨hstage, hcommit⟩ := hfollows.1
      cases hm : move o r with
      | write s => exact ⟨fun hapart => ih.1 hapart.before, nofun⟩
      | publish =>
        have hparts := hheld.parts nofun hstage
        rw [hcommit (commit_of_publish hm).1] at hparts
        have hall : AllOrNone ⟨(journal events).published ++ (journal events).pending, []⟩ u ss := by
          right
          rw [ofThread_append, hparts]
        exact ⟨fun _ => hall, fun _ => hall⟩
      | undo =>
        have hall := ih.1 (hapart _ _ _ hstep rfl (rollback_of_undo hm))
        exact ⟨fun _ => hall, fun _ => hall⟩
      | idle => exact ⟨fun hapart => ih.1 hapart.before, ih.2⟩
    · rw [if_neg ht]
      cases hm : move o r with
      | write s => exact ⟨fun hapart => ih.1 hapart.before, ih.2⟩
      | undo => exact ⟨fun hapart => ih.1 hapart.before, ih.2⟩
      | idle => exact ⟨fun hapart => ih.1 hapart.before, ih.2⟩
      | publish =>
        have hsame (h : ofThread t (journal events).pending = []) :
            ofThread t ((journal events).published ++ (journal events).pending) =
              ofThread t (journal events).published := by
          rw [ofThread_append, h, List.append_nil]
        cases hstage : (progress events t).stage with
        | settled =>
          rw [Held, hstage] at hheld
          exact ⟨fun hapart => (ih.1 hapart.before).congr (hsame hheld.1), nofun⟩
        | undone =>
          rw [Held, hstage] at hheld
          have hall : AllOrNone ⟨(journal events).published ++ (journal events).pending, []⟩ t ss :=
            (ih.2 hstage).congr (hsame hheld)
          exact ⟨fun _ => hall, fun _ => hall⟩
        | writing =>
          have hthrow : ∀ e, threads t ≠ .throw e := by
            intro e he
            rw [he] at hfollows
            rw [hfollows] at hstage
            cases hstage
          have hparts := hheld.parts hthrow (by rw [hstage]; exact nofun)
          rw [progress_written] at hparts
          refine ⟨?_, nofun⟩
          intro hapart
          rw [AllOrNone, ofThread_append, hparts]
          exact hapart.last ht hm

theorem ended_all_or_none (hspares : ∀ events pool e, ok events pool e → Spares events pool e)
    (hapart : ∀ events pool e, ok events pool e → e.thread = t → e.op = .rollback → Apart t ss events)
    (hsettles : ∀ t, Settles (start.thread t))
    (hends : Follows (writing (· = ss)) (Ends ss) (start.thread t) ⟨[], .settled⟩)
    (h : Concurrent (Answers M) ok start events pool) (hended : Ended (pool.thread t)) :
    AllOrNone (journal events) t ss := by
  have hfollows := progress_follows hends h
  have hheld := held_of_concurrent hspares hsettles h t
  cases hthread : pool.thread t with
  | pure a =>
    rw [hthread] at hfollows
    rw [Held, hfollows] at hheld
    exact .inr hheld.2
  | throw e =>
    rw [hthread] at hfollows
    exact (all_or_none hspares hapart hsettles hends h).2 hfollows
  | call o k =>
    rw [hthread] at hended
    exact hended.elim

theorem published_grows (j : Journal M ι) (e : SqlEvent M ι) (t : ι) :
    ofThread t j.published <+: ofThread t (j.note e).published := by
  rw [Journal.note]
  cases move e.op e.answer with
  | publish =>
    rw [ofThread_append]
    exact List.prefix_append _ _
  | _ => exact List.prefix_rfl

/-- What a call had written when a commit of it succeeded stays published. -/
theorem committed_published (hspares : ∀ events pool e, ok events pool e → Spares events pool e)
    (hsettles : ∀ t, Settles (start.thread t)) (h : Concurrent (Answers M) ok start events pool)
    {before after : List (SqlEvent M ι)} {e : SqlEvent M ι} (hsplit : events = before ++ e :: after)
    (he : move e.op e.answer = .publish) :
    written e.thread before <+: ofThread e.thread (journal events).published := by
  induction h generalizing after with
  | starts =>
    cases before <;> cases hsplit
  | @step events w w' threads u o k r h hcall hA hstep ih =>
    rw [journal_snoc]
    obtain ⟨rfl, rfl⟩ | ⟨after', hbefore⟩ := split_snoc hsplit
    · have hheld := held_of_concurrent hspares hsettles h u
      have hfollows := progress_follows (hsettles u _ rfl) h
      change Held _ _ _ (threads u) at hheld
      change Follows _ _ (threads u) _ at hfollows
      rw [hcall] at hheld hfollows
      have hparts := hheld.parts nofun hfollows.1.1
      rw [progress_written] at hparts
      rw [Journal.note, he, ← hparts]
      exact ⟨[], by rw [ofThread_append, List.append_nil]⟩
    · exact (ih hbefore).trans (published_grows _ _ _)

end Interleavings

end ContextqlServer.Lib.Shared
