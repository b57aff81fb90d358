import ContextqlServer.Lib.Effect

namespace ContextqlServer.Lib.Rely

open ContextqlServer.Lib.Effect

variable {S : Sig} {ε σ α β : Type}

/-- Whatever the surroundings do along `R` before each of its operations, `I`
holds as long as the program runs and `Q` where it ends. -/
def Keeps (A : Answering S ε σ) (R : σ → σ → Prop) (I : σ → Prop) (Q : Except ε α → σ → Prop) :
    Prog S ε α → σ → Prop
  | .pure a, w => Q (.ok a) w
  | .throw e, w => Q (.error e) w
  | .call o k, w =>
    I w ∧ ∀ w₁, R w w₁ → I w₁ → ∀ r w₂, A o w₁ r w₂ → Keeps A R I Q (k r) w₂

namespace Keeps

variable {A : Answering S ε σ} {R : σ → σ → Prop} {I : σ → Prop}

theorem mono {Q Q' : Except ε α → σ → Prop} (hQ : ∀ out w, Q out w → Q' out w)
    {p : Prog S ε α} {w : σ} (h : Keeps A R I Q p w) : Keeps A R I Q' p w := by
  induction p generalizing w with
  | pure a => exact hQ _ _ h
  | throw e => exact hQ _ _ h
  | call o k ih => exact ⟨h.1, fun w₁ hR hI r w₂ hA => ih r (h.2 w₁ hR hI r w₂ hA)⟩

theorem handle {Q : Except ε β → σ → Prop} {p : Prog S ε α} {f : α → Prog S ε β}
    {g : ε → Prog S ε β} {w : σ}
    (h : Keeps A R I (fun out w' => match out with
      | .ok a => Keeps A R I Q (f a) w'
      | .error e => Keeps A R I Q (g e) w') p w) :
    Keeps A R I Q (p.handle f g) w := by
  induction p generalizing w with
  | pure a => exact h
  | throw e => exact h
  | call o k ih => exact ⟨h.1, fun w₁ hR hI r w₂ hA => ih r (h.2 w₁ hR hI r w₂ hA)⟩

theorem bind {Q : Except ε β → σ → Prop} {p : Prog S ε α} {f : α → Prog S ε β} {w : σ}
    (h : Keeps A R I (fun out w' => match out with
      | .ok a => Keeps A R I Q (f a) w'
      | .error e => Q (.error e) w') p w) :
    Keeps A R I Q (p >>= f) w :=
  handle (g := .throw) h

/-- The rule of one operation: what every answer establishes. -/
theorem perform {o : S.Op} {Q : Except ε (S.Res o) → σ → Prop} {w : σ} (hI : I w)
    (h : ∀ w₁, R w w₁ → I w₁ → ∀ r w₂, A o w₁ r w₂ → Q r w₂) :
    Keeps A R I Q (Prog.perform o) w := by
  refine ⟨hI, ?_⟩
  intro w₁ hR hI r w₂ hA
  have hQ := h w₁ hR hI r w₂ hA
  cases r with
  | ok a => exact hQ
  | error e => exact hQ

theorem ofExcept {x : Except ε α} {Q : Except ε α → σ → Prop} {w : σ} (h : Q x w) :
    Keeps A R I Q (Prog.ofExcept x) w := by
  cases x with
  | ok a => exact h
  | error e => exact h

/-- The surroundings moving along `R` do not disturb a program. -/
theorem rely {Q : Except ε α → σ → Prop} (htrans : ∀ a b c, R a b → R b c → R a c)
    (hI : ∀ w w', R w w' → I w → I w') (hQ : ∀ out w w', R w w' → Q out w → Q out w')
    {p : Prog S ε α} {w w' : σ} (hw : R w w') (h : Keeps A R I Q p w) : Keeps A R I Q p w' := by
  cases p with
  | pure a => exact hQ _ _ _ hw h
  | throw e => exact hQ _ _ _ hw h
  | call o k => exact ⟨hI _ _ hw h.1, fun w₁ hw₁ => h.2 w₁ (htrans _ _ _ hw hw₁)⟩

theorem of_only {P : S.Op → Prop} {J : σ → Prop} (hJ : ∀ o w r w', P o → J w → A o w r w' → J w') {p : Prog S ε α}
    {w : σ} (hp : p.Only P) (h : J w) : Keeps A Eq (fun _ => True) (fun _ w' => J w') p w := by
  induction p generalizing w with
  | pure a => exact h
  | throw e => exact h
  | call o k ih =>
    refine ⟨trivial, ?_⟩
    rintro _ rfl - r w' hA
    exact ih r (hp.2 r) (hJ o w r w' hp.1 h hA)

theorem within {P : S.Op → Prop} {J : σ → Prop} (hJ : ∀ o w r w', P o → J w → A o w r w' → J w')
    (hI : ∀ w, J w → I w) {p : Prog S ε α} {w : σ} (hp : p.Only P) (h : J w) :
    Keeps A Eq I (fun _ w' => J w') p w := by
  induction p generalizing w with
  | pure a => exact h
  | throw e => exact h
  | call o k ih =>
    refine ⟨hI w h, ?_⟩
    rintro _ rfl - r w' hA
    exact ih r (hp.2 r) (hJ o w r w' hp.1 h hA)

/-- The rule is used on an execution whose answers and surroundings it covers. -/
theorem runs {B : Answering S ε σ} {T : σ → σ → Prop} {Q : Except ε α → σ → Prop}
    (hA : ∀ o w r w', B o w r w' → A o w r w') (hT : ∀ w w', T w w' → R w w')
    (hI : ∀ w w', R w w' → I w → I w') {p : Prog S ε α} {w w' : σ} {out : Except ε α}
    (hr : Runs B T p w out w') (h : Keeps A R I Q p w) : Q out w' := by
  induction hr with
  | pure a w => exact h
  | throw e w => exact h
  | call hw ho _ ih => exact ih (h.2 _ (hT _ _ hw) (hI _ _ (hT _ _ hw) h.1) _ _ (hA _ _ _ _ ho))

theorem begins {B : Answering S ε σ} {T : σ → σ → Prop} {Q : Except ε α → σ → Prop}
    (hA : ∀ o w r w', B o w r w' → A o w r w') (hT : ∀ w w', T w w' → R w w')
    (hrefl : ∀ w, R w w) (hI : ∀ w w', R w w' → I w → I w') {p : Prog S ε α} {w w' : σ}
    {out : Except ε α} (hr : Begins B T p w out w') (h : Keeps A R I Q p w) : Q out w' := by
  cases hr with
  | pure a w => exact h
  | throw e w => exact h
  | call ho hr => exact runs hA hT hI hr (h.2 _ (hrefl _) h.1 _ _ (hA _ _ _ _ ho))

end Keeps

/-- A state that an execution goes through, the first and the last one included. -/
inductive Visits (A : Answering S ε σ) (R : σ → σ → Prop) : Prog S ε α → σ → σ → Prop
  | here (p : Prog S ε α) (w : σ) : Visits A R p w w
  | call {o : S.Op} {k : Except ε (S.Res o) → Prog S ε α} {w w₁ w₂ w₃ : σ} {r : Except ε (S.Res o)}
      (hR : R w w₁) (hA : A o w₁ r w₂) (h : Visits A R (k r) w₂ w₃) : Visits A R (.call o k) w w₃

theorem Keeps.visits {A : Answering S ε σ} {R : σ → σ → Prop} {I : σ → Prop}
    {Q : Except ε α → σ → Prop} (hR : ∀ w w', R w w' → I w → I w') (hQ : ∀ out w, Q out w → I w)
    {p : Prog S ε α} {w w' : σ} (hk : Keeps A R I Q p w) (hv : Visits A R p w w') : I w' := by
  induction hv with
  | here p w =>
    cases p with
    | pure a => exact hQ _ _ hk
    | throw e => exact hQ _ _ hk
    | call o k => exact hk.1
  | call hw hA _ ih => exact ih (hk.2 _ hw (hR _ _ hw hk.1) _ _ hA)

end ContextqlServer.Lib.Rely
