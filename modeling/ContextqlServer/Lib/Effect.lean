import Mathlib.Data.List.Forall2
import Mathlib.Logic.Function.Basic

namespace ContextqlServer.Lib.Effect

/-- The operations a program asks its surroundings for, each with the type of its answer. -/
structure Sig where
  Op : Type
  Res : Op → Type

/-- A program with exceptions: the continuation of an operation receives its
answer or the error it failed with, so a `try` block is part of the tree. -/
inductive Prog (S : Sig) (ε α : Type) where
  | pure (a : α)
  | throw (e : ε)
  | call (o : S.Op) (k : Except ε (S.Res o) → Prog S ε α)

variable {S : Sig} {ε σ α β γ : Type}

namespace Prog

def handle (p : Prog S ε α) (f : α → Prog S ε β) (g : ε → Prog S ε β) : Prog S ε β :=
  match p with
  | .pure a => f a
  | .throw e => g e
  | .call o k => .call o (fun r => (k r).handle f g)

def bind (p : Prog S ε α) (f : α → Prog S ε β) : Prog S ε β := p.handle f .throw

def tryCatch (p : Prog S ε α) (g : ε → Prog S ε α) : Prog S ε α := p.handle .pure g

/-- `try: p finally: q`, where an error of `q` replaces what `p` did. -/
def andFinally (p : Prog S ε α) (q : Prog S ε Unit) : Prog S ε α :=
  p.handle (fun a => q.bind fun _ => .pure a) (fun e => q.bind fun _ => .throw e)

instance : Monad (Prog S ε) where
  pure := .pure
  bind := .bind

instance : MonadExceptOf ε (Prog S ε) where
  throw := .throw
  tryCatch := .tryCatch

def ofExcept : Except ε α → Prog S ε α
  | .ok a => .pure a
  | .error e => .throw e

def perform (o : S.Op) : Prog S ε (S.Res o) := .call o ofExcept

@[simp] theorem pure_eq (a : α) : (Pure.pure a : Prog S ε α) = .pure a := rfl

@[simp] theorem throw_eq (e : ε) : (throwThe ε e : Prog S ε α) = .throw e := rfl

@[simp] theorem bind_pure (a : α) (f : α → Prog S ε β) : (Prog.pure a >>= f) = f a := rfl

@[simp] theorem bind_throw (e : ε) (f : α → Prog S ε β) : (Prog.throw e >>= f) = .throw e := rfl

@[simp] theorem bind_call (o : S.Op) (k : Except ε (S.Res o) → Prog S ε α) (f : α → Prog S ε β) :
    (Prog.call o k >>= f) = .call o (fun r => k r >>= f) := rfl

theorem handle_handle (p : Prog S ε α) (f : α → Prog S ε β) (g : ε → Prog S ε β)
    (f' : β → Prog S ε γ) (g' : ε → Prog S ε γ) :
    (p.handle f g).handle f' g' =
      p.handle (fun a => (f a).handle f' g') (fun e => (g e).handle f' g') := by
  induction p with
  | pure a => rfl
  | throw e => rfl
  | call o k ih =>
    simp only [handle]
    congr 1
    funext r
    exact ih r

theorem bind_assoc (p : Prog S ε α) (f : α → Prog S ε β) (g : β → Prog S ε γ) :
    p >>= f >>= g = p >>= fun a => f a >>= g := handle_handle p f .throw g .throw

/-- The same program, with every operation carried out by a program over other operations. -/
def interpret {T : Sig} (f : (o : S.Op) → Prog T ε (S.Res o)) : Prog S ε α → Prog T ε α
  | .pure a => .pure a
  | .throw e => .throw e
  | .call o k => (f o).handle (fun a => (k (.ok a)).interpret f) (fun e => (k (.error e)).interpret f)

/-- Whatever the answers, a program asks for operations in `P` alone. -/
def Only (P : S.Op → Prop) : Prog S ε α → Prop
  | .pure _ | .throw _ => True
  | .call o k => P o ∧ ∀ r, (k r).Only P

namespace Only

variable {P : S.Op → Prop}

theorem bind {p : Prog S ε α} {f : α → Prog S ε β} (hp : p.Only P) (hf : ∀ a, (f a).Only P) : (p >>= f).Only P := by
  induction p with
  | pure a => exact hf a
  | throw e => trivial
  | call o k ih => exact ⟨hp.1, fun r => ih r (hp.2 r)⟩

theorem ofExcept {x : Except ε α} : (ofExcept x : Prog S ε α).Only P := by
  cases x <;> trivial

theorem ofExcept_bind {x : Except ε α} {f : α → Prog S ε β} (hf : ∀ a, x = .ok a → (f a).Only P) :
    (Prog.ofExcept x >>= f).Only P := by
  cases x with
  | ok a => exact hf a rfl
  | error e => trivial

theorem perform {o : S.Op} (h : P o) : (perform o : Prog S ε (S.Res o)).Only P := ⟨h, fun _ => ofExcept⟩

end Only

end Prog

/-- How the surroundings answer: `perform` when the operation goes through,
`fault` what is left of the state when it fails for a reason outside the model.
An operation with no `fault` cannot be made to fail. -/
structure Handler (S : Sig) (ε σ : Type) where
  perform : (o : S.Op) → σ → Except ε (S.Res o) × σ
  fault : S.Op → Option (σ → σ)

/-- One answer to an operation: the state before, the result, the state after. -/
abbrev Answering (S : Sig) (ε σ : Type) := (o : S.Op) → σ → Except ε (S.Res o) → σ → Prop

namespace Handler

/-- The answer of `perform`, or the error that a chosen fault raises. -/
def answer (H : Handler S ε σ) (o : S.Op) (failure : Option ε) (w : σ) :
    Option (Except ε (S.Res o) × σ) :=
  match failure with
  | none => some (H.perform o w)
  | some e => (H.fault o).map (fun f => (.error e, f w))

def Sound (H : Handler S ε σ) : Answering S ε σ := fun o w r w' => H.perform o w = (r, w')

def Faulty (H : Handler S ε σ) : Answering S ε σ :=
  fun o w r w' => ∃ failure, H.answer o failure w = some (r, w')

theorem Sound.faulty {H : Handler S ε σ} {o : S.Op} {w w' : σ} {r : Except ε (S.Res o)}
    (h : H.Sound o w r w') : H.Faulty o w r w' := ⟨none, congrArg some h⟩

/-- Run a program with nothing failing and nobody else acting. -/
def exec (H : Handler S ε σ) : Prog S ε α → σ → Except ε α × σ
  | .pure a, w => (.ok a, w)
  | .throw e, w => (.error e, w)
  | .call o k, w => H.exec (k (H.perform o w).1) (H.perform o w).2

theorem exec_handle (H : Handler S ε σ) (p : Prog S ε α) (f : α → Prog S ε β)
    (g : ε → Prog S ε β) (w : σ) :
    H.exec (p.handle f g) w =
      match (H.exec p w).1 with
      | .ok a => H.exec (f a) (H.exec p w).2
      | .error e => H.exec (g e) (H.exec p w).2 := by
  induction p generalizing w with
  | pure a => rfl
  | throw e => rfl
  | call o k ih => exact ih (H.perform o w).1 (H.perform o w).2

theorem exec_ofExcept (H : Handler S ε σ) (x : Except ε α) (w : σ) :
    H.exec (Prog.ofExcept x) w = (x, w) := by
  cases x <;> rfl

theorem exec_ofExcept_bind (H : Handler S ε σ) (x : Except ε α) (f : α → Prog S ε β) (w : σ) :
    H.exec (Prog.ofExcept x >>= f) w =
      match x with
      | .ok a => H.exec (f a) w
      | .error e => (.error e, w) := by
  cases x <;> rfl

theorem exec_perform (H : Handler S ε σ) (o : S.Op) (w : σ) :
    H.exec (Prog.perform o) w = H.perform o w := H.exec_ofExcept _ _

theorem exec_congr {H H' : Handler S ε σ} (h : ∀ o w, H.perform o w = H'.perform o w) (p : Prog S ε α) (w : σ) :
    H.exec p w = H'.exec p w := by
  induction p generalizing w with
  | pure a => rfl
  | throw e => rfl
  | call o k ih =>
    rw [exec, exec, h]
    exact ih _ _

/-- Where the operations that a program asks for are carried out with the answers they would have
had, and the states stay related, so is the program. -/
theorem exec_interpret {T : Sig} {τ : Type} {H : Handler S ε σ} {H' : Handler T ε τ} {P : S.Op → Prop}
    {f : (o : S.Op) → Prog T ε (S.Res o)} {R : σ → τ → Prop}
    (hstep : ∀ o w v, P o → R w v → ∃ v', H'.exec (f o) v = ((H.perform o w).1, v') ∧ R (H.perform o w).2 v')
    {p : Prog S ε α} (hp : p.Only P) {w : σ} {v : τ} (h : R w v) :
    ∃ v', H'.exec (p.interpret f) v = ((H.exec p w).1, v') ∧ R (H.exec p w).2 v' := by
  induction p generalizing w v with
  | pure a => exact ⟨v, rfl, h⟩
  | throw e => exact ⟨v, rfl, h⟩
  | call o k ih =>
    obtain ⟨v₁, hexec, h₁⟩ := hstep o w v hp.1 h
    rw [Prog.interpret, exec_handle, hexec, exec]
    cases hanswer : (H.perform o w).1 with
    | ok a => exact ih (.ok a) (hp.2 (.ok a)) h₁
    | error e => exact ih (.error e) (hp.2 (.error e)) h₁

theorem exec_bind {H : Handler S ε σ} {p : Prog S ε α} (f : α → Prog S ε β) {w w' : σ} {a : α}
    (h : H.exec p w = (.ok a, w')) : H.exec (p >>= f) w = H.exec (f a) w' := by
  refine (H.exec_handle p f .throw w).trans ?_
  rw [h]

theorem exec_bind_error {H : Handler S ε σ} {p : Prog S ε α} (f : α → Prog S ε β) {w w' : σ} {e : ε}
    (h : H.exec p w = (.error e, w')) : H.exec (p >>= f) w = (.error e, w') := by
  refine (H.exec_handle p f .throw w).trans ?_
  rw [h]
  rfl

theorem exec_bind_pure {H : Handler S ε σ} {p : Prog S ε α} (g : α → β) {w : σ} :
    (H.exec (p >>= fun a => pure (g a)) w).1 = (H.exec p w).1.map g := by
  refine congrArg Prod.fst (H.exec_handle p (fun a => .pure (g a)) .throw w) |>.trans ?_
  cases (H.exec p w).1 <;> rfl

theorem exec_bind_ok {H : Handler S ε σ} {p : Prog S ε α} {f : α → Prog S ε β} {w w' : σ} {b : β} :
    H.exec (p >>= f) w = (.ok b, w') ↔
      ∃ a w₁, H.exec p w = (.ok a, w₁) ∧ H.exec (f a) w₁ = (.ok b, w') := by
  have h := H.exec_handle p f .throw w
  change H.exec (p >>= f) w = _ at h
  rw [h]
  cases hp : H.exec p w with
  | mk out w₁ =>
    cases out with
    | ok a =>
      constructor
      · exact fun h => ⟨a, w₁, rfl, h⟩
      · rintro ⟨_, _, ⟨⟩, h⟩
        exact h
    | error e => simp [exec]

end Handler

/-- A complete execution in which the surroundings move along `R` before every
operation. `R` is equality when the program is alone. -/
inductive Runs (A : Answering S ε σ) (R : σ → σ → Prop) :
    Prog S ε α → σ → Except ε α → σ → Prop
  | pure (a : α) (w : σ) : Runs A R (.pure a) w (.ok a) w
  | throw (e : ε) (w : σ) : Runs A R (.throw e) w (.error e) w
  | call {o : S.Op} {k : Except ε (S.Res o) → Prog S ε α} {w w₁ w₂ w₃ : σ}
      {r : Except ε (S.Res o)} {out : Except ε α}
      (hR : R w w₁) (hA : A o w₁ r w₂) (h : Runs A R (k r) w₂ out w₃) :
      Runs A R (.call o k) w out w₃

/-- An execution whose first operation finds the state as it is. -/
inductive Begins (A : Answering S ε σ) (R : σ → σ → Prop) :
    Prog S ε α → σ → Except ε α → σ → Prop
  | pure (a : α) (w : σ) : Begins A R (.pure a) w (.ok a) w
  | throw (e : ε) (w : σ) : Begins A R (.throw e) w (.error e) w
  | call {o : S.Op} {k : Except ε (S.Res o) → Prog S ε α} {w w₁ w₂ : σ}
      {r : Except ε (S.Res o)} {out : Except ε α}
      (hA : A o w r w₁) (h : Runs A R (k r) w₁ out w₂) : Begins A R (.call o k) w out w₂

namespace Runs

variable {A : Answering S ε σ} {R : σ → σ → Prop}

@[simp] theorem pure_iff {a : α} {w w' : σ} {out : Except ε α} :
    Runs A R (.pure a) w out w' ↔ out = .ok a ∧ w' = w := by
  constructor
  · rintro ⟨⟩
    exact ⟨rfl, rfl⟩
  · rintro ⟨rfl, rfl⟩
    exact .pure a w'

@[simp] theorem throw_iff {e : ε} {w w' : σ} {out : Except ε α} :
    Runs A R (.throw e) w out w' ↔ out = .error e ∧ w' = w := by
  constructor
  · rintro ⟨⟩
    exact ⟨rfl, rfl⟩
  · rintro ⟨rfl, rfl⟩
    exact .throw e w'

theorem call_iff {o : S.Op} {k : Except ε (S.Res o) → Prog S ε α} {w w' : σ}
    {out : Except ε α} :
    Runs A R (.call o k) w out w' ↔
      ∃ w₁ r w₂, R w w₁ ∧ A o w₁ r w₂ ∧ Runs A R (k r) w₂ out w' := by
  constructor
  · rintro (_ | _ | ⟨hR, hA, h⟩)
    exact ⟨_, _, _, hR, hA, h⟩
  · rintro ⟨w₁, r, w₂, hR, hA, h⟩
    exact .call hR hA h

/-- A composed execution splits where the first part ends. -/
theorem handle_iff {p : Prog S ε α} {f : α → Prog S ε β} {g : ε → Prog S ε β} {w w' : σ}
    {out : Except ε β} :
    Runs A R (p.handle f g) w out w' ↔
      (∃ a w₁, Runs A R p w (.ok a) w₁ ∧ Runs A R (f a) w₁ out w') ∨
      (∃ e w₁, Runs A R p w (.error e) w₁ ∧ Runs A R (g e) w₁ out w') := by
  induction p generalizing w with
  | pure a => simp [Prog.handle, and_assoc]
  | throw e => simp [Prog.handle, and_assoc]
  | call o k ih =>
    simp only [Prog.handle, call_iff, ih]
    constructor
    · rintro ⟨w₁, r, w₂, hR, hA, ⟨a, w₃, hp, hf⟩ | ⟨e, w₃, hp, hg⟩⟩
      · exact .inl ⟨a, w₃, ⟨w₁, r, w₂, hR, hA, hp⟩, hf⟩
      · exact .inr ⟨e, w₃, ⟨w₁, r, w₂, hR, hA, hp⟩, hg⟩
    · rintro (⟨a, w₃, ⟨w₁, r, w₂, hR, hA, hp⟩, hf⟩ | ⟨e, w₃, ⟨w₁, r, w₂, hR, hA, hp⟩, hg⟩)
      · exact ⟨w₁, r, w₂, hR, hA, .inl ⟨a, w₃, hp, hf⟩⟩
      · exact ⟨w₁, r, w₂, hR, hA, .inr ⟨e, w₃, hp, hg⟩⟩

theorem bind_iff {p : Prog S ε α} {f : α → Prog S ε β} {w w' : σ} {out : Except ε β} :
    Runs A R (p >>= f) w out w' ↔
      (∃ a w₁, Runs A R p w (.ok a) w₁ ∧ Runs A R (f a) w₁ out w') ∨
      (∃ e, Runs A R p w (.error e) w' ∧ out = .error e) := by
  refine (handle_iff (f := f) (g := .throw)).trans ?_
  refine or_congr_right ⟨?_, ?_⟩
  · rintro ⟨e, w₁, hp, h⟩
    obtain ⟨rfl, rfl⟩ := throw_iff.mp h
    exact ⟨e, hp, rfl⟩
  · rintro ⟨e, hp, rfl⟩
    exact ⟨e, w', hp, .throw e w'⟩

/-- Alone and without faults there is one execution, the one `exec` computes. -/
theorem exec_iff {H : Handler S ε σ} {p : Prog S ε α} {w w' : σ} {out : Except ε α} :
    Runs H.Sound Eq p w out w' ↔ H.exec p w = (out, w') := by
  induction p generalizing w with
  | pure a => simp [Handler.exec, eq_comm]
  | throw e => simp [Handler.exec, eq_comm]
  | call o k ih =>
    rw [call_iff, Handler.exec, ← ih]
    constructor
    · rintro ⟨_, r, w₂, rfl, hA, h⟩
      rw [Handler.Sound] at hA
      rw [hA]
      exact h
    · intro h
      exact ⟨w, _, _, rfl, rfl, h⟩

theorem mono {B : Answering S ε σ} (hA : ∀ o w r w', A o w r w' → B o w r w') {p : Prog S ε α} {w w' : σ}
    {out : Except ε α} (h : Runs A R p w out w') : Runs B R p w out w' := by
  induction h with
  | pure a w => exact .pure a w
  | throw e w => exact .throw e w
  | call hR ho _ ih => exact .call hR (hA _ _ _ _ ho) ih

/-- The execution without faults is one that the surroundings allow by keeping still. -/
theorem of_exec {H : Handler S ε σ} {R : σ → σ → Prop} (hrefl : ∀ w, R w w) {p : Prog S ε α}
    {w w' : σ} {out : Except ε α} (h : H.exec p w = (out, w')) : Runs H.Faulty R p w out w' := by
  induction p generalizing w with
  | pure a =>
    cases h
    exact .pure a _
  | throw e =>
    cases h
    exact .throw e _
  | call o k ih => exact .call (hrefl w) (Handler.Sound.faulty rfl) (ih _ h)

end Runs

theorem Begins.of_exec {H : Handler S ε σ} {R : σ → σ → Prop} (hrefl : ∀ w, R w w)
    {p : Prog S ε α} {w w' : σ} {out : Except ε α} (h : H.exec p w = (out, w')) :
    Begins H.Faulty R p w out w' := by
  cases p with
  | pure a =>
    cases h
    exact .pure a _
  | throw e =>
    cases h
    exact .throw e _
  | call o k => exact .call (Handler.Sound.faulty rfl) (Runs.of_exec hrefl h)

theorem Begins.bind_cases {A : Answering S ε σ} {R : σ → σ → Prop} {o : S.Op}
    {k : Except ε (S.Res o) → Prog S ε α} {f : α → Prog S ε β} {w w' : σ} {out : Except ε β}
    (h : Begins A R (.call o k >>= f) w out w') :
    (∃ a w₁, Begins A R (.call o k) w (.ok a) w₁ ∧ Runs A R (f a) w₁ out w') ∨
      (∃ e, Begins A R (.call o k) w (.error e) w' ∧ out = .error e) := by
  obtain _ | _ | ⟨hA, h⟩ := h
  obtain ⟨a, w₁, hk, hf⟩ | ⟨e, hk, he⟩ := Runs.bind_iff.mp h
  · exact .inl ⟨a, w₁, .call hA hk, hf⟩
  · exact .inr ⟨e, .call hA hk, he⟩

/-- A program that ends well when nothing fails and nobody else acts. -/
def Handler.Succeeds (H : Handler S ε σ) (p : Prog S ε α) (w : σ) : Prop :=
  ∃ a w', H.exec p w = (.ok a, w')

theorem Handler.succeeds_bind {H : Handler S ε σ} {p : Prog S ε α} {f : α → Prog S ε β} {w : σ} :
    H.Succeeds (p >>= f) w ↔ ∃ a w₁, H.exec p w = (.ok a, w₁) ∧ H.Succeeds (f a) w₁ := by
  constructor
  · rintro ⟨b, w', h⟩
    obtain ⟨a, w₁, hp, hf⟩ := exec_bind_ok.mp h
    exact ⟨a, w₁, hp, b, w', hf⟩
  · rintro ⟨a, w₁, hp, b, w', hf⟩
    exact ⟨b, w', exec_bind_ok.mpr ⟨a, w₁, hp, hf⟩⟩

theorem Handler.succeeds_pure {H : Handler S ε σ} {a : α} {w : σ} :
    H.Succeeds (.pure a) w := ⟨a, w, rfl⟩

/-- An execution that has ended well, with what it returned. -/
theorem exec_returned {x : Except ε α × σ} (h : x.1.toOption.isSome) :
    x = (.ok (x.1.toOption.get h), x.2) := by
  obtain ⟨out, w⟩ := x
  cases out with
  | ok a => rfl
  | error e => cases h

section Fallible

theorem bind_eq_ok {x : Except ε α} {f : α → Except ε β} {r : β} :
    (x >>= f) = .ok r ↔ ∃ a, x = .ok a ∧ f a = .ok r := by
  cases x with
  | ok a => simp [Bind.bind, Except.bind]
  | error e => simp [Bind.bind, Except.bind]

theorem mapM_ok {f : α → Except ε β} {g : α → β} {xs : List α} (h : ∀ a ∈ xs, f a = .ok (g a)) :
    xs.mapM f = .ok (xs.map g) := by
  induction xs with
  | nil => rfl
  | cons a xs ih =>
    rw [List.mapM_cons, h a (by simp), ih (fun b hb => h b (by simp [hb]))]
    rfl

theorem mapM_eq_ok {f : α → Except ε β} {xs : List α} {ys : List β} :
    xs.mapM f = .ok ys ↔ List.Forall₂ (fun a b => f a = .ok b) xs ys := by
  induction xs generalizing ys with
  | nil =>
    rw [List.forall₂_nil_left_iff]
    exact ⟨fun h => (Except.ok.inj h).symm, fun h => congrArg Except.ok h.symm⟩
  | cons a xs ih =>
    rw [List.mapM_cons, List.forall₂_cons_left_iff, bind_eq_ok]
    constructor
    · rintro ⟨b, hb, h⟩
      obtain ⟨bs, hbs, h⟩ := bind_eq_ok.mp h
      exact ⟨b, bs, hb, ih.mp hbs, (Except.ok.inj h).symm⟩
    · rintro ⟨b, bs, hb, hbs, rfl⟩
      exact ⟨b, hb, bind_eq_ok.mpr ⟨bs, ih.mpr hbs, rfl⟩⟩

theorem mem_of_mapM {f : α → Except ε β} {xs : List α} {ys : List β} (h : xs.mapM f = .ok ys) {b : β} :
    b ∈ ys ↔ ∃ a ∈ xs, f a = .ok b := by
  induction mapM_eq_ok.mp h with
  | nil => simp
  | @cons a b' xs ys hb hall ih =>
    rw [List.mem_cons, ih (mapM_eq_ok.mpr hall), List.exists_mem_cons_iff, hb]
    exact or_congr_left ⟨fun h => congrArg Except.ok h.symm, fun h => (Except.ok.inj h).symm⟩

/-- What the results keep of what they come from. -/
theorem map_of_mapM {f : α → Except ε β} {xs : List α} {ys : List β} (h : xs.mapM f = .ok ys)
    {g : α → γ} {g' : β → γ} (hg : ∀ a ∈ xs, ∀ b, f a = .ok b → g' b = g a) : ys.map g' = xs.map g := by
  induction mapM_eq_ok.mp h with
  | nil => rfl
  | cons hb hall ih =>
    rw [List.map_cons, List.map_cons, hg _ (by simp) _ hb,
      ih (mapM_eq_ok.mpr hall) (fun a ha => hg a (by simp [ha]))]

theorem ok_of_mapM {f : α → Except ε β} {xs : List α} {ys : List β} (h : xs.mapM f = .ok ys) {a : α}
    (ha : a ∈ xs) : ∃ b, f a = .ok b := by
  induction mapM_eq_ok.mp h with
  | nil => cases ha
  | cons hb hall ih =>
    obtain rfl | ha := List.mem_cons.mp ha
    · exact ⟨_, hb⟩
    · exact ih (mapM_eq_ok.mpr hall) ha

theorem mapM_total {f : α → Except ε β} {xs : List α} (h : ∀ a ∈ xs, ∃ b, f a = .ok b) :
    ∃ ys, xs.mapM f = .ok ys := by
  induction xs with
  | nil => exact ⟨[], rfl⟩
  | cons a xs ih =>
    obtain ⟨b, hb⟩ := h a (by simp)
    obtain ⟨ys, hys⟩ := ih (fun x hx => h x (by simp [hx]))
    exact ⟨b :: ys, mapM_eq_ok.mpr (.cons hb (mapM_eq_ok.mp hys))⟩

/-- The error of a traversal is that of one of its elements. -/
theorem mapM_error {f : α → Except ε β} {xs : List α} {e : ε} (h : xs.mapM f = .error e) :
    ∃ a ∈ xs, f a = .error e := by
  induction xs with
  | nil => cases h
  | cons a xs ih =>
    rw [List.mapM_cons] at h
    cases ha : f a with
    | error e' =>
      rw [ha] at h
      obtain rfl := Except.error.inj h
      exact ⟨a, List.mem_cons_self, ha⟩
    | ok b =>
      rw [ha] at h
      cases hxs : xs.mapM f with
      | error e' =>
        rw [hxs] at h
        obtain rfl := Except.error.inj h
        obtain ⟨a', ha', herror⟩ := ih hxs
        exact ⟨a', List.mem_cons_of_mem _ ha', herror⟩
      | ok ys =>
        rw [hxs] at h
        cases h

theorem filterM_ok {f : α → Except ε Bool} {p : α → Bool} {xs : List α}
    (h : ∀ a ∈ xs, f a = .ok (p a)) : xs.filterM f = .ok (xs.filter p) := by
  have haux : ∀ acc, xs.filterAuxM f acc = .ok ((xs.filter p).reverse ++ acc) := by
    induction xs with
    | nil => exact fun acc => rfl
    | cons a xs ih =>
      intro acc
      have ih := ih (fun b hb => h b (by simp [hb]))
      simp only [List.filterAuxM, h a (by simp), bind, Except.bind, ih, List.filter_cons]
      cases p a <;> simp
  simp [List.filterM, haux, bind, Except.bind, pure, Except.pure]

/-- A fold none of whose steps fails, with what they establish about the entries
gone through. -/
theorem foldlM_ok {f : σ → α → Except ε σ} {P : List α → σ → Prop} {xs : List α}
    (hstep : ∀ done x s, x ∈ xs → P done s → ∃ s', f s x = .ok s' ∧ P (done ++ [x]) s')
    {done : List α} {s : σ} (h : P done s) :
    ∃ s', xs.foldlM f s = .ok s' ∧ P (done ++ xs) s' := by
  induction xs generalizing done s with
  | nil => exact ⟨s, rfl, by simpa using h⟩
  | cons x xs ih =>
    obtain ⟨s₁, h₁, hP₁⟩ := hstep done x s (by simp) h
    obtain ⟨s₂, h₂, hP₂⟩ := ih (fun done y t hy => hstep done y t (by simp [hy])) hP₁
    refine ⟨s₂, ?_, by simpa using hP₂⟩
    rw [List.foldlM_cons, h₁]
    exact h₂

/-- What the steps of a fold that ends well keep. -/
theorem foldlM_keeps {f : σ → α → Except ε σ} {P : List α → σ → Prop} {xs : List α}
    (hstep : ∀ done x s s', P done s → f s x = .ok s' → P (done ++ [x]) s')
    {done : List α} {s s' : σ} (h : P done s) (hs : xs.foldlM f s = .ok s') : P (done ++ xs) s' := by
  induction xs generalizing done s with
  | nil =>
    obtain rfl := Except.ok.inj hs
    rw [List.append_nil]
    exact h
  | cons x xs ih =>
    rw [List.foldlM_cons] at hs
    obtain ⟨s₁, hs₁, hs⟩ := bind_eq_ok.mp hs
    have hrest := ih (hstep done x s s₁ h hs₁) hs
    rw [List.append_assoc] at hrest
    exact hrest

/-- A fold fails at the first entry whose step fails. -/
theorem foldlM_error {f : σ → α → Except ε σ} {xs : List α} {s : σ} {e : ε} :
    xs.foldlM f s = .error e ↔
      ∃ front x back s', xs = front ++ x :: back ∧ front.foldlM f s = .ok s' ∧ f s' x = .error e := by
  induction xs generalizing s with
  | nil =>
    constructor
    · exact fun h => by cases h
    · rintro ⟨front, x, back, s', heq, -⟩
      cases front <;> cases heq
  | cons y xs ih =>
    rw [List.foldlM_cons]
    cases hy : f s y with
    | error e' =>
      constructor
      · intro h
        obtain rfl := Except.error.inj h
        exact ⟨[], y, xs, s, rfl, rfl, hy⟩
      · rintro ⟨front, x, back, s', heq, hfront, hx⟩
        cases front with
        | nil =>
          obtain ⟨rfl, rfl⟩ := List.cons.inj heq
          obtain rfl := Except.ok.inj hfront
          rw [hy] at hx
          exact hx
        | cons z front =>
          obtain ⟨rfl, -⟩ := List.cons.inj heq
          rw [List.foldlM_cons, hy] at hfront
          cases hfront
    | ok s₁ =>
      refine ih.trans ?_
      constructor
      · rintro ⟨front, x, back, s', rfl, hfront, hx⟩
        refine ⟨y :: front, x, back, s', rfl, ?_, hx⟩
        rw [List.foldlM_cons, hy]
        exact hfront
      · rintro ⟨front, x, back, s', heq, hfront, hx⟩
        cases front with
        | nil =>
          obtain ⟨rfl, rfl⟩ := List.cons.inj heq
          obtain rfl := Except.ok.inj hfront
          rw [hy] at hx
          cases hx
        | cons z front =>
          obtain ⟨rfl, rfl⟩ := List.cons.inj heq
          rw [List.foldlM_cons, hy] at hfront
          exact ⟨front, x, back, s', rfl, hfront, hx⟩

end Fallible

end ContextqlServer.Lib.Effect
