import ContextqlServer.Lib.Effect

namespace ContextqlServer.Lib.Unwinding

open ContextqlServer.Lib.Effect

variable {S : Sig} {ε σ α β : Type}

/-- A program that handles no error: an operation that fails ends it with what it raised. -/
def Unwinds : Prog S ε α → Prop
  | .pure _ | .throw _ => True
  | .call _ k => (∀ e, k (.error e) = .throw e) ∧ ∀ r, Unwinds (k r)

namespace Unwinds

theorem pure (a : α) : Unwinds (.pure a : Prog S ε α) := trivial

theorem ofExcept (x : Except ε α) : Unwinds (Prog.ofExcept x : Prog S ε α) := by
  cases x <;> trivial

theorem perform (o : S.Op) : Unwinds (Prog.perform o : Prog S ε (S.Res o)) :=
  ⟨fun _ => rfl, fun r => ofExcept r⟩

theorem bind {p : Prog S ε α} {f : α → Prog S ε β} (hp : Unwinds p) (hf : ∀ a, Unwinds (f a)) :
    Unwinds (p >>= f) := by
  induction p with
  | pure a => exact hf a
  | throw e => trivial
  | call o k ih =>
    refine ⟨?_, fun r => ih r (hp.2 r)⟩
    intro e
    change k (.error e) >>= f = _
    rw [hp.1 e]
    rfl

/-- A failure whose operation leaves the state alone ends the execution where it is. -/
theorem failed {H : Handler S ε σ} {o : S.Op} {k : Except ε (S.Res o) → Prog S ε α} {w : σ}
    (h : Unwinds (.call o k)) (hfault : H.fault o = some id) (e : ε) :
    H.answer o (some e) w = some (.error e, w) ∧ k (.error e) = .throw e := by
  refine ⟨?_, h.1 e⟩
  rw [Handler.answer, hfault]
  rfl

end Unwinds

end ContextqlServer.Lib.Unwinding
