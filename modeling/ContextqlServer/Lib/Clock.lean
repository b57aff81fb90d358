import ContextqlServer.Lib.Sql

namespace ContextqlServer.Lib.Clock

open ContextqlServer.Lib.Effect ContextqlServer.Lib.Sql

variable {ε α β : Type} {M : Schema ε}

/-- A connection apart from its clock: what is committed, and what a transaction has made of it. -/
abbrev Sight (M : Schema ε) := M.Tables × Option M.Tables

def sight (c : Connection M) : Sight M := (c.committed, c.transaction)

/-- The clock reads these values next. -/
def Reads (c : Connection M) (readings : List M.Ambient) : Prop :=
  ∀ i a, readings[i]? = some a → c.ambient (c.tick + i) = a

/-- The program returns `a` under a clock with these readings. -/
def Returns (p : SqlProg M α) (readings : List M.Ambient) (a : α) (s s' : Sight M) : Prop :=
  ∀ c : Connection M, sight c = s → Reads c readings → ∃ c', (Connection.handler M).exec p c = (.ok a, c') ∧
    sight c' = s' ∧ c'.ambient = c.ambient ∧ c'.tick = c.tick + readings.length

/-- The program returns `a` under some clock. -/
def Can (p : SqlProg M α) (a : α) (s s' : Sight M) : Prop := ∃ readings, Returns p readings a s s'

section Rules

variable {s s' s₁ : Sight M} {p : SqlProg M α} {a : α} {readings readings' : List M.Ambient}

theorem Reads.append {c : Connection M} (h : Reads c (readings ++ readings')) : Reads c readings := by
  intro i a hi
  refine h i a ?_
  obtain ⟨hlt, -⟩ := List.getElem?_eq_some_iff.mp hi
  rwa [List.getElem?_append_left hlt]

theorem Reads.later {c c' : Connection M} (h : Reads c (readings ++ readings')) (ha : c'.ambient = c.ambient)
    (ht : c'.tick = c.tick + readings.length) : Reads c' readings' := by
  intro i a hi
  rw [ha, ht, Nat.add_assoc]
  refine h (readings.length + i) a ?_
  rwa [List.getElem?_append_right (Nat.le_add_right ..), Nat.add_sub_cancel_left]

theorem Can.pure (a : α) (s : Sight M) : Can (M := M) (Pure.pure a) a s s :=
  ⟨[], fun c hc _ => ⟨c, rfl, hc, rfl, rfl⟩⟩

theorem Can.bind {f : α → SqlProg M β} {b : β} (hp : Can p a s s₁) (hf : Can (f a) b s₁ s') :
    Can (p >>= f) b s s' := by
  obtain ⟨readings, hp⟩ := hp
  obtain ⟨readings', hf⟩ := hf
  refine ⟨readings ++ readings', ?_⟩
  intro c hc hr
  obtain ⟨c₁, hexec₁, hc₁, ha₁, ht₁⟩ := hp c hc hr.append
  obtain ⟨c₂, hexec₂, hc₂, ha₂, ht₂⟩ := hf c₁ hc₁ (hr.later ha₁ ht₁)
  refine ⟨c₂, (Handler.exec_bind f hexec₁).trans hexec₂, hc₂, ha₂.trans ha₁, ?_⟩
  rw [ht₂, ht₁, List.length_append, Nat.add_assoc]

theorem Can.tryCatch {g : ε → SqlProg M α} (hp : Can p a s s') : Can (MonadExcept.tryCatch p g) a s s' := by
  obtain ⟨readings, hp⟩ := hp
  refine ⟨readings, ?_⟩
  intro c hc hr
  obtain ⟨c', hexec, hrest⟩ := hp c hc hr
  refine ⟨c', ?_, hrest⟩
  refine ((Connection.handler M).exec_handle p .pure g c).trans ?_
  rw [hexec]
  rfl

/-- The rule of one operation. -/
theorem Can.perform {o : SqlOp M} {r : (sqlSig M).Res o} (reading : M.Ambient)
    (h : ∀ c : Connection M, sight c = s → c.reading = reading →
      (c.step o).1 = .ok r ∧ sight (c.step o).2 = s' ∧ (c.step o).2.ambient = c.ambient ∧ (c.step o).2.tick = c.tick) :
    Can (Prog.perform (S := sqlSig M) o) r s s' := by
  refine ⟨[reading], ?_⟩
  intro c hc hr
  obtain ⟨hok, hs, ha, ht⟩ := h c hc (hr 0 reading rfl)
  refine ⟨(c.step o).2.advance, ?_, hs, ha, ?_⟩
  · rw [Handler.exec_perform, ← hok]
    rfl
  · exact congrArg (· + 1) ht

theorem Can.beginImmediate (reading : M.Ambient) (t : M.Tables) :
    Can (M := M) Sql.beginImmediate () (t, none) (t, some t) := by
  refine .perform (o := .beginImmediate) reading ?_
  rintro c hc -
  obtain ⟨rfl, hnone⟩ := Prod.mk.inj hc
  rw [Connection.step, hnone]
  exact ⟨rfl, rfl, rfl, rfl⟩

theorem Can.execute {st : M.Statement} {reading : M.Ambient} {t t' : M.Tables} {tx : Option M.Tables}
    (h : M.run st reading (tx.getD t) = .ok t') : Can (execute st) t' (t, tx) (t, some t') := by
  refine .perform (o := .execute st) reading ?_
  rintro c hc rfl
  obtain ⟨rfl, rfl⟩ := Prod.mk.inj hc
  have hrun : M.run st c.reading c.pending = .ok t' := h
  rw [Connection.step, hrun]
  exact ⟨rfl, rfl, rfl, rfl⟩

theorem Can.select (reading : M.Ambient) (t : M.Tables) (tx : Option M.Tables) :
    Can (M := M) Sql.select (tx.getD t) (t, tx) (t, tx) := by
  refine .perform (o := .select) reading ?_
  rintro c hc -
  obtain ⟨rfl, rfl⟩ := Prod.mk.inj hc
  exact ⟨rfl, rfl, rfl, rfl⟩

theorem Can.commit (reading : M.Ambient) (t : M.Tables) (tx : Option M.Tables) :
    Can (M := M) Sql.commit () (t, tx) (tx.getD t, none) := by
  refine .perform (o := .commit) reading ?_
  rintro c hc -
  obtain ⟨rfl, rfl⟩ := Prod.mk.inj hc
  exact ⟨rfl, rfl, rfl, rfl⟩

theorem Can.sense (reading : M.Ambient) (s : Sight M) : Can (M := M) Sql.sense reading s s := by
  refine .perform (o := .sense) reading ?_
  rintro c hc rfl
  exact ⟨rfl, hc, rfl, rfl⟩

theorem Can.executeAll {ss : List M.Statement} {t₀ t t' : M.Tables} (h : Applies ss t t') :
    Can (Sql.executeAll ss) () (t₀, some t) (t₀, some t') := by
  induction ss generalizing t with
  | nil =>
    rw [Applies.nil_iff.mp h]
    exact .pure () _
  | cons st ss ih =>
    obtain ⟨a, t₁, hrun, h⟩ := Applies.cons_iff.mp h
    exact .bind (.execute hrun) (ih h)

theorem Can.immediate (reading : M.Ambient) {ss : List M.Statement} {t t' : M.Tables} (h : Applies ss t t') :
    Can (Sql.immediate ss) () (t, none) (t', none) :=
  .tryCatch (.bind (.beginImmediate reading t) (.bind (.executeAll h) (.commit reading t (some t'))))

/-- A connection without a transaction sees what is committed. -/
theorem Can.read (reading : M.Ambient) (t : M.Tables) : Can (M := M) Sql.select t (t, none) (t, none) :=
  .select reading t none

theorem Can.write {st : M.Statement} {reading : M.Ambient} {t t' : M.Tables} (h : M.run st reading t = .ok t') :
    Can (do let _ ← Sql.execute st; Sql.commit) () (t, none) (t', none) := by
  have hexecute : Can (Sql.execute st) t' (t, none) (t, some t') := .execute h
  exact .bind hexecute (.commit reading t (some t'))

end Rules

end ContextqlServer.Lib.Clock
