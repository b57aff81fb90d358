import ContextqlServer.Lib.Sql

namespace ContextqlServer.Lib.Trace

open ContextqlServer.Lib.Effect ContextqlServer.Lib.Sql

section Steps

variable {S : Sig} {ε σ α β : Type} {A : Answering S ε σ}

/-- An execution up to some point: the operations so far, each with whether it went
through, and what is left of the program. -/
inductive Steps (A : Answering S ε σ) : Prog S ε α → σ → List (S.Op × Bool) → Prog S ε α → σ → Prop
  | here (p : Prog S ε α) (w : σ) : Steps A p w [] p w
  | call {o : S.Op} {k : Except ε (S.Res o) → Prog S ε α} {w w₁ w' : σ} {r : Except ε (S.Res o)}
      {tr : List (S.Op × Bool)} {p' : Prog S ε α} (hA : A o w r w₁) (h : Steps A (k r) w₁ tr p' w') :
      Steps A (.call o k) w ((o, r.isOk) :: tr) p' w'

theorem Steps.snoc {p : Prog S ε α} {o : S.Op} {k : Except ε (S.Res o) → Prog S ε α} {w w₁ w₂ : σ}
    {tr : List (S.Op × Bool)} {r : Except ε (S.Res o)} (h : Steps A p w tr (.call o k) w₁) (hA : A o w₁ r w₂) :
    Steps A p w (tr ++ [(o, r.isOk)]) (k r) w₂ := by
  generalize hp' : Prog.call o k = p' at h
  induction h with
  | here p w =>
    subst hp'
    exact .call hA (.here _ _)
  | call hA' _ ih => exact .call hA' (ih hA hp')

theorem Steps.pure_eq {a : α} {w w' : σ} {tr : List (S.Op × Bool)} {out : Except ε α}
    (h : Steps A (.pure a) w tr (.ofExcept out) w') : out = .ok a ∧ tr = [] ∧ w' = w := by
  generalize hp' : (Prog.ofExcept out : Prog S ε α) = p' at h
  cases h
  cases out <;> cases hp'
  exact ⟨rfl, rfl, rfl⟩

theorem Steps.throw_eq {e : ε} {w w' : σ} {tr : List (S.Op × Bool)} {out : Except ε α}
    (h : Steps A (.throw e) w tr (.ofExcept out) w') : out = .error e ∧ tr = [] ∧ w' = w := by
  generalize hp' : (Prog.ofExcept out : Prog S ε α) = p' at h
  cases h
  cases out <;> cases hp'
  exact ⟨rfl, rfl, rfl⟩

/-- Where the first part of a composed execution ends. -/
theorem Steps.handle_split {p : Prog S ε α} {f : α → Prog S ε β} {g : ε → Prog S ε β} {w w' : σ}
    {tr : List (S.Op × Bool)} {out : Except ε β}
    (h : Steps A (p.handle f g) w tr (.ofExcept out) w') :
    ∃ out₁ tr₁ tr₂ w₁, tr = tr₁ ++ tr₂ ∧ Steps A p w tr₁ (.ofExcept out₁) w₁ ∧
      Steps A (match out₁ with | .ok a => f a | .error e => g e) w₁ tr₂ (.ofExcept out) w' := by
  induction p generalizing w tr with
  | pure a => exact ⟨.ok a, [], tr, w, rfl, .here _ _, h⟩
  | throw e => exact ⟨.error e, [], tr, w, rfl, .here _ _, h⟩
  | call o k ih =>
    rw [Prog.handle] at h
    generalize hp' : (Prog.ofExcept out : Prog S ε β) = p' at h
    cases h with
    | here => cases out <;> cases hp'
    | call hA h =>
      subst hp'
      obtain ⟨out₁, tr₁, tr₂, w₁, rfl, h₁, h₂⟩ := ih _ h
      exact ⟨out₁, _ :: tr₁, tr₂, w₁, rfl, .call hA h₁, h₂⟩

/-- A composed execution either gets to its second part or fails in the first. -/
theorem Steps.bind_split {p : Prog S ε α} {f : α → Prog S ε β} {w w' : σ}
    {tr : List (S.Op × Bool)} {out : Except ε β} (h : Steps A (p >>= f) w tr (.ofExcept out) w') :
    (∃ a tr₁ tr₂ w₁, tr = tr₁ ++ tr₂ ∧ Steps A p w tr₁ (.ofExcept (.ok a)) w₁ ∧
      Steps A (f a) w₁ tr₂ (.ofExcept out) w') ∨
    (∃ e, out = .error e ∧ Steps A p w tr (.ofExcept (.error e)) w') := by
  obtain ⟨out₁, tr₁, tr₂, w₁, rfl, h₁, h₂⟩ := Steps.handle_split (g := .throw) h
  cases out₁ with
  | ok a => exact .inl ⟨a, tr₁, tr₂, w₁, rfl, h₁, h₂⟩
  | error e =>
    right
    obtain ⟨rfl, rfl, rfl⟩ := h₂.throw_eq
    rw [List.append_nil]
    exact ⟨e, rfl, h₁⟩

theorem Steps.perform_split {o : S.Op} {w w' : σ} {tr : List (S.Op × Bool)} {out : Except ε (S.Res o)}
    (h : Steps A (Prog.perform o) w tr (.ofExcept out) w') : tr = [(o, out.isOk)] ∧ A o w out w' := by
  generalize hp' : (Prog.ofExcept out : Prog S ε (S.Res o)) = p' at h
  cases h with
  | here => cases out <;> cases hp'
  | @call _ _ _ w₁ _ r tr _ hA h =>
    subst hp'
    cases r with
    | ok a =>
      obtain ⟨rfl, rfl, rfl⟩ := h.pure_eq
      exact ⟨rfl, hA⟩
    | error e =>
      obtain ⟨rfl, rfl, rfl⟩ := h.throw_eq
      exact ⟨rfl, hA⟩

/-- Run a program on the failures of its operations, one after the other. -/
def replay (H : Handler S ε σ) : List (Option ε) → Prog S ε α → σ → List (S.Op × Bool) × Prog S ε α × σ
  | failure :: rest, .call o k, w =>
    match H.answer o failure w with
    | some (r, w₁) =>
      let (tr, p, w') := replay H rest (k r) w₁
      ((o, r.isOk) :: tr, p, w')
    | none => ([], .call o k, w)
  | _, p, w => ([], p, w)

theorem replay_steps {H : Handler S ε σ} (failures : List (Option ε)) (p : Prog S ε α) (w : σ) :
    Steps H.Faulty p w (replay H failures p w).1 (replay H failures p w).2.1 (replay H failures p w).2.2 := by
  induction failures generalizing p w with
  | nil => exact .here p w
  | cons failure rest ih =>
    cases p with
    | pure a => exact .here _ w
    | throw e => exact .here _ w
    | call o k =>
      rw [replay]
      cases h : H.answer o failure w with
      | none => exact .here _ w
      | some answer => exact .call ⟨failure, h⟩ (ih _ _)

/-- Everything went through. -/
def NoFailure (tr : List (S.Op × Bool)) : Prop := ∀ x ∈ tr, x.2 = true

/-- What holds all along the executions in which nothing fails. -/
structure Smooth (A : Answering S ε σ) (P : List S.Op → Prog S ε α → σ → Prop) (p : Prog S ε α) (w : σ) :
    Prop where
  holds : ∀ tr p' w', Steps A p w tr p' w' → NoFailure tr → P (tr.map Prod.fst) p' w'

variable {P : List S.Op → Prog S ε α → σ → Prop} {w : σ}

theorem Smooth.pure {a : α} (h : P [] (.pure a) w) : Smooth A P (.pure a) w := by
  constructor
  rintro _ _ _ ⟨⟩ -
  exact h

theorem Smooth.throw {e : ε} (h : P [] (.throw e) w) : Smooth A P (.throw e) w := by
  constructor
  rintro _ _ _ ⟨⟩ -
  exact h

theorem Smooth.call {o : S.Op} {k : Except ε (S.Res o) → Prog S ε α} (hhere : P [] (.call o k) w)
    (h : ∀ a w₁, A o w (.ok a) w₁ → Smooth A (fun os => P (o :: os)) (k (.ok a)) w₁) :
    Smooth A P (.call o k) w := by
  constructor
  intro tr p' w' hsteps hsmooth
  cases hsteps with
  | here => exact hhere
  | @call _ _ _ w₁ _ r tr _ hA hrest =>
    cases r with
    | error e => cases hsmooth _ (List.mem_cons_self ..)
    | ok a => exact (h a w₁ hA).holds tr p' w' hrest (fun x hx => hsmooth x (List.mem_cons_of_mem _ hx))

theorem Smooth.mono {P' : List S.Op → Prog S ε α → σ → Prop} (himp : ∀ os p w, P os p w → P' os p w)
    {p : Prog S ε α} (h : Smooth A P p w) : Smooth A P' p w :=
  ⟨fun tr p' w' hsteps hsmooth => himp _ _ _ (h.holds tr p' w' hsteps hsmooth)⟩

theorem ok_of_faulty {H : Handler S ε σ} {o : S.Op} {w' : σ} {a : S.Res o} (h : H.Faulty o w (.ok a) w') :
    H.perform o w = (.ok a, w') := by
  obtain ⟨failure, h⟩ := h
  cases failure with
  | none => exact Option.some.inj h
  | some e =>
    obtain ⟨f, -, h⟩ := Option.map_eq_some_iff.mp h
    cases h

end Steps

section Sql

variable {ε α β : Type} {M : Schema ε} {c c' : Connection M} {P : List (SqlOp M) → SqlProg M β → Connection M → Prop}

def isCommit : SqlOp M → Bool
  | .commit => true
  | _ => false

/-- The commits that went through. -/
def commitsDone (tr : List (SqlOp M × Bool)) : Nat := tr.countP (fun x => isCommit x.1 && x.2)

theorem commitsDone_eq {tr : List (SqlOp M × Bool)} (h : NoFailure (S := sqlSig M) tr) :
    commitsDone tr = (tr.map Prod.fst).countP isCommit := by
  rw [commitsDone, List.countP_map]
  apply List.countP_congr
  intro x hx
  simp [h x hx]

theorem answer_committed {o : SqlOp M} {r : Except ε ((sqlSig M).Res o)} (hA : Answers M o c r c')
    (h : (isCommit o && r.isOk) = false) : c'.committed = c.committed := by
  obtain ⟨failure, hA⟩ := hA
  cases failure with
  | some e =>
    obtain ⟨f, hf, hA⟩ := Option.map_eq_some_iff.mp hA
    obtain ⟨g, hg, rfl⟩ := Option.map_eq_some_iff.mp hf
    obtain ⟨-, rfl⟩ := Prod.mk.inj hA
    cases o with
    | execute s | beginImmediate | select | commit =>
      cases hg
      rfl
    | rollback | sense => cases hg
  | none =>
    obtain ⟨rfl, rfl⟩ := Prod.ext_iff.mp (Option.some.inj hA)
    cases o with
    | commit => cases h
    | beginImmediate =>
      change (c.step .beginImmediate).2.committed = _
      cases hnone : c.transaction <;> simp only [Connection.step, hnone, Connection.working]
    | execute s =>
      change (c.step (.execute s)).2.committed = _
      cases hrun : M.run s c.reading c.pending <;> simp only [Connection.step, hrun, Connection.working]
    | select | rollback | sense => rfl

theorem steps_committed {p p' : SqlProg M α} {tr : List (SqlOp M × Bool)}
    (h : Steps (Answers M) p c tr p' c') (hnone : commitsDone tr = 0) : c'.committed = c.committed := by
  induction h with
  | here => rfl
  | @call o k w w₁ w' r tr p' hA _ ih =>
    rw [commitsDone, List.countP_cons] at hnone
    obtain ⟨hrest, hhead⟩ := Nat.add_eq_zero_iff.mp hnone
    refine (ih hrest).trans (answer_committed hA ?_)
    simpa using hhead

section Rules

variable {f : α → SqlProg M β}

theorem Smooth.execute {s : M.Statement} {f : M.Tables → SqlProg M β} (hhere : P [] (execute s >>= f) c)
    (h : ∀ a t, M.run s a c.pending = .ok t →
      Smooth (Answers M) (fun os => P (.execute s :: os)) (f t) (c.working t).advance) :
    Smooth (Answers M) P (Sql.execute s >>= f) c := by
  apply Smooth.call hhere
  intro t c₁ hA
  obtain ⟨hrun, rfl⟩ := exec_execute_iff.mp ((Handler.exec_perform ..).trans (ok_of_faulty hA))
  exact h _ t hrun

theorem Smooth.select {f : M.Tables → SqlProg M β} (hhere : P [] (select >>= f) c)
    (h : Smooth (Answers M) (fun os => P (.select :: os)) (f c.pending) c.advance) :
    Smooth (Answers M) P (Sql.select >>= f) c := by
  apply Smooth.call hhere
  intro t c₁ hA
  cases ok_of_faulty hA
  exact h

theorem Smooth.sense {f : M.Ambient → SqlProg M β} (hhere : P [] (sense >>= f) c)
    (h : ∀ a, Smooth (Answers M) (fun os => P (.sense :: os)) (f a) c.advance) :
    Smooth (Answers M) P (Sql.sense >>= f) c := by
  apply Smooth.call hhere
  intro a c₁ hA
  cases ok_of_faulty hA
  exact h _

theorem Smooth.commit {f : Unit → SqlProg M β} (hhere : P [] (commit >>= f) c)
    (h : Smooth (Answers M) (fun os => P (.commit :: os)) (f ()) (c.settled c.pending).advance) :
    Smooth (Answers M) P (Sql.commit >>= f) c := by
  apply Smooth.call hhere
  intro a c₁ hA
  cases ok_of_faulty hA
  exact h

end Rules

end Sql

end ContextqlServer.Lib.Trace
