import ContextqlServer.Lib.Effect

namespace ContextqlServer.Lib.Threads

open ContextqlServer.Lib.Effect

variable {S : Sig} {ε σ ι Φ α β : Type}

/-- The order in which a program makes its calls: which calls a phase allows, which
answers they can have, and the phase that an answer leads to. -/
structure Protocol (S : Sig) (ε Φ : Type) where
  allowed : Φ → S.Op → Prop
  answers : (o : S.Op) → Except ε (S.Res o) → Prop
  next : Φ → (o : S.Op) → Except ε (S.Res o) → Φ

/-- From phase `φ` on a program makes allowed calls only, and `Q` holds where it ends. -/
def Follows (P : Protocol S ε Φ) (Q : Except ε α → Φ → Prop) : Prog S ε α → Φ → Prop
  | .pure a, φ => Q (.ok a) φ
  | .throw e, φ => Q (.error e) φ
  | .call o k, φ => P.allowed φ o ∧ ∀ r, P.answers o r → Follows P Q (k r) (P.next φ o r)

namespace Follows

variable {P : Protocol S ε Φ}

theorem mono {Q Q' : Except ε α → Φ → Prop} (hQ : ∀ out φ, Q out φ → Q' out φ) {p : Prog S ε α} {φ : Φ}
    (h : Follows P Q p φ) : Follows P Q' p φ := by
  induction p generalizing φ with
  | pure a => exact hQ _ _ h
  | throw e => exact hQ _ _ h
  | call o k ih => exact ⟨h.1, fun r hr => ih r (h.2 r hr)⟩

theorem handle {Q : Except ε β → Φ → Prop} {p : Prog S ε α} {f : α → Prog S ε β} {g : ε → Prog S ε β} {φ : Φ}
    (h : Follows P (fun out φ' => match out with
      | .ok a => Follows P Q (f a) φ'
      | .error e => Follows P Q (g e) φ') p φ) :
    Follows P Q (p.handle f g) φ := by
  induction p generalizing φ with
  | pure a => exact h
  | throw e => exact h
  | call o k ih => exact ⟨h.1, fun r hr => ih r (h.2 r hr)⟩

theorem bind {Q : Except ε β → Φ → Prop} {p : Prog S ε α} {f : α → Prog S ε β} {φ : Φ}
    (h : Follows P (fun out φ' => match out with
      | .ok a => Follows P Q (f a) φ'
      | .error e => Q (.error e) φ') p φ) :
    Follows P Q (p >>= f) φ :=
  handle (g := .throw) h

theorem perform {o : S.Op} {Q : Except ε (S.Res o) → Φ → Prop} {φ : Φ} (hallowed : P.allowed φ o)
    (h : ∀ r, P.answers o r → Q r (P.next φ o r)) : Follows P Q (Prog.perform o) φ := by
  refine ⟨hallowed, ?_⟩
  intro r hr
  cases r with
  | ok a => exact h _ hr
  | error e => exact h _ hr

theorem of_only {O : S.Op → Prop} (hO : ∀ φ o, O o → P.allowed φ o) {p : Prog S ε α} (hp : p.Only O) (φ : Φ) :
    Follows P (fun _ _ => True) p φ := by
  induction p generalizing φ with
  | pure a => trivial
  | throw e => trivial
  | call o k ih => exact ⟨hO φ o hp.1, fun r _ => ih r (hp.2 r) _⟩

/-- A loop whose body comes back to the phases in `I`. -/
theorem forM {I : Φ → Prop} {f : α → Prog S ε Unit} {xs : List α} {φ : Φ}
    (hbody : ∀ x ∈ xs, ∀ φ, I φ → Follows P (fun out φ' => out = .ok () → I φ') (f x) φ) (h : I φ) :
    Follows P (fun out φ' => out = .ok () → I φ') (forM xs f) φ := by
  induction xs generalizing φ with
  | nil => exact fun _ => h
  | cons x xs ih =>
    rw [List.forM_cons]
    apply bind
    apply (hbody x (by simp) φ h).mono
    intro out φ' hout
    cases out with
    | ok a => exact ih (fun y hy => hbody y (by simp [hy])) (hout rfl)
    | error e => exact nofun

end Follows

/-- One call of one thread, with its answer. -/
structure Event (S : Sig) (ε ι : Type) where
  thread : ι
  op : S.Op
  answer : Except ε (S.Res op)

structure Pool (S : Sig) (ε ι σ : Type) where
  world : σ
  thread : ι → Prog S ε Unit

def Ended : Prog S ε α → Prop
  | .call _ _ => False
  | _ => True

variable [DecidableEq ι]

/-- The interleavings of threads that run one of `bodies` after another, whose calls meet
`ok` where they are made, while the surroundings move along `R`. -/
inductive Interleaves (A : Answering S ε σ) (R : σ → σ → Prop) (bodies : Set (Prog S ε Unit))
    (ok : List (Event S ε ι) → σ → Event S ε ι → Prop) (w₀ : σ) : List (Event S ε ι) → Pool S ε ι σ → Prop
  | starts : Interleaves A R bodies ok w₀ [] ⟨w₀, fun _ => .pure ()⟩
  | surroundings {events : List (Event S ε ι)} {w w' : σ} {threads : ι → Prog S ε Unit}
      (h : Interleaves A R bodies ok w₀ events ⟨w, threads⟩) (hR : R w w') :
      Interleaves A R bodies ok w₀ events ⟨w', threads⟩
  | launch {events : List (Event S ε ι)} {w : σ} {threads : ι → Prog S ε Unit} {t : ι} {p : Prog S ε Unit}
      (h : Interleaves A R bodies ok w₀ events ⟨w, threads⟩) (hended : Ended (threads t)) (hp : p ∈ bodies) :
      Interleaves A R bodies ok w₀ events ⟨w, Function.update threads t p⟩
  | step {events : List (Event S ε ι)} {w w' : σ} {threads : ι → Prog S ε Unit} {t : ι} {o : S.Op}
      {k : Except ε (S.Res o) → Prog S ε Unit} {r : Except ε (S.Res o)}
      (h : Interleaves A R bodies ok w₀ events ⟨w, threads⟩) (hcall : threads t = .call o k)
      (hA : A o w r w') (hok : ok events w ⟨t, o, r⟩) :
      Interleaves A R bodies ok w₀ (events ++ [⟨t, o, r⟩]) ⟨w', Function.update threads t (k r)⟩

def phases (P : Protocol S ε Φ) (φ₀ : Φ) (events : List (Event S ε ι)) : ι → Φ :=
  events.foldl (fun φ e => Function.update φ e.thread (P.next (φ e.thread) e.op e.answer)) (fun _ => φ₀)

theorem phases_snoc (P : Protocol S ε Φ) (φ₀ : Φ) (events : List (Event S ε ι)) (e : Event S ε ι) :
    phases P φ₀ (events ++ [e]) = Function.update (phases P φ₀ events) e.thread
      (P.next (phases P φ₀ events e.thread) e.op e.answer) := by
  rw [phases, List.foldl_append]
  rfl

/-- What is noted down of the calls, each with the phase that its thread makes it in. -/
def noted {γ : Type} (P : Protocol S ε Φ) (φ₀ : Φ) (note : γ → Φ → S.Op → γ) (g : γ)
    (events : List (Event S ε ι)) : γ :=
  (events.foldl (fun s e => (Function.update s.1 e.thread (P.next (s.1 e.thread) e.op e.answer),
    note s.2 (s.1 e.thread) e.op)) (fun _ => φ₀, g)).2

theorem noted_snoc {γ : Type} (P : Protocol S ε Φ) (φ₀ : Φ) (note : γ → Φ → S.Op → γ) (g : γ)
    (events : List (Event S ε ι)) (e : Event S ε ι) :
    noted P φ₀ note g (events ++ [e]) = note (noted P φ₀ note g events) (phases P φ₀ events e.thread) e.op := by
  have hphases : ∀ (s : (ι → Φ) × γ), (events.foldl (fun s e => (Function.update s.1 e.thread
      (P.next (s.1 e.thread) e.op e.answer), note s.2 (s.1 e.thread) e.op)) s).1 =
      events.foldl (fun φ e => Function.update φ e.thread (P.next (φ e.thread) e.op e.answer)) s.1 := by
    induction events with
    | nil => exact fun _ => rfl
    | cons e events ih => exact fun s => ih _
  rw [noted, List.foldl_append, phases, ← hphases (fun _ => φ₀, g)]
  rfl

theorem Interleaves.invariant {A : Answering S ε σ} {R : σ → σ → Prop} {bodies : Set (Prog S ε Unit)}
    {ok : List (Event S ε ι) → σ → Event S ε ι → Prop} {w₀ : σ} {P : Protocol S ε Φ} (φ₀ : Φ)
    {I : List (Event S ε ι) → σ → Prop}
    (hbodies : ∀ p ∈ bodies, ∀ φ, Follows P (fun _ _ => True) p φ)
    (hanswers : ∀ events w o r w', I events w → A o w r w' → P.answers o r)
    (hstart : I [] w₀) (hR : ∀ events w w', I events w → R w w' → I events w')
    (hstep : ∀ events w t o r w', I events w → P.allowed (phases P φ₀ events t) o → A o w r w' →
      ok events w ⟨t, o, r⟩ → I (events ++ [⟨t, o, r⟩]) w')
    {events : List (Event S ε ι)} {pool : Pool S ε ι σ} (h : Interleaves A R bodies ok w₀ events pool) :
    I events pool.world ∧ ∀ t, Follows P (fun _ _ => True) (pool.thread t) (phases P φ₀ events t) := by
  induction h with
  | starts => exact ⟨hstart, fun _ => trivial⟩
  | surroundings h hw ih => exact ⟨hR _ _ _ ih.1 hw, ih.2⟩
  | @launch events w threads t p h hended hp ih =>
    refine ⟨ih.1, ?_⟩
    intro u
    change Follows P _ (Function.update threads t p u) _
    by_cases hu : u = t
    · subst hu
      rw [Function.update_self]
      exact hbodies p hp _
    · rw [Function.update_of_ne hu]
      exact ih.2 u
  | @step events w w' threads t o k r h hcall hA hok ih =>
    have hfollows : Follows P _ (threads t) (phases P φ₀ events t) := ih.2 t
    rw [hcall] at hfollows
    refine ⟨hstep events w t o r w' ih.1 hfollows.1 hA hok, ?_⟩
    intro u
    change Follows P _ (Function.update threads t (k r) u) _
    rw [phases_snoc]
    by_cases hu : u = t
    · subst hu
      rw [Function.update_self, Function.update_self]
      exact hfollows.2 r (hanswers events w o r w' ih.1 hA)
    · rw [Function.update_of_ne hu, Function.update_of_ne hu]
      exact ih.2 u

/-- The pools that are reached by steps that `ok` allows in the pool they are taken in. -/
inductive Reaches (A : Answering S ε σ) (bodies : Set (Prog S ε Unit)) (ok : Pool S ε ι σ → Event S ε ι → Prop)
    (w₀ : σ) : Pool S ε ι σ → Prop
  | starts : Reaches A bodies ok w₀ ⟨w₀, fun _ => .pure ()⟩
  | launch {w : σ} {threads : ι → Prog S ε Unit} {t : ι} {p : Prog S ε Unit}
      (h : Reaches A bodies ok w₀ ⟨w, threads⟩) (hended : Ended (threads t)) (hp : p ∈ bodies) :
      Reaches A bodies ok w₀ ⟨w, Function.update threads t p⟩
  | step {w w' : σ} {threads : ι → Prog S ε Unit} {t : ι} {o : S.Op} {k : Except ε (S.Res o) → Prog S ε Unit}
      {r : Except ε (S.Res o)} (h : Reaches A bodies ok w₀ ⟨w, threads⟩) (hcall : threads t = .call o k)
      (hA : A o w r w') (hok : ok ⟨w, threads⟩ ⟨t, o, r⟩) :
      Reaches A bodies ok w₀ ⟨w', Function.update threads t (k r)⟩

/-- The rule for assertions about single threads: a thread keeps its own by its steps, and
the steps of the others do not interfere with it. -/
theorem Reaches.each {A : Answering S ε σ} {bodies : Set (Prog S ε Unit)} {ok : Pool S ε ι σ → Event S ε ι → Prop}
    {w₀ : σ} {L : Prog S ε Unit → σ → Prop} (hstart : ∀ w, L (.pure ()) w) (hbodies : ∀ p ∈ bodies, ∀ w, L p w)
    (hown : ∀ o k w r w', L (.call o k) w → A o w r w' → L (k r) w')
    (hother : ∀ w w' threads t u o k r, threads t = .call o k → L (.call o k) w → A o w r w' →
      ok ⟨w, threads⟩ ⟨t, o, r⟩ → u ≠ t → L (threads u) w → L (threads u) w')
    {pool : Pool S ε ι σ} (h : Reaches A bodies ok w₀ pool) (t : ι) : L (pool.thread t) pool.world := by
  induction h generalizing t with
  | starts => exact hstart w₀
  | @launch w threads t₀ p h hended hp ih =>
    change L (Function.update threads t₀ p t) w
    by_cases ht : t = t₀
    · rw [ht, Function.update_self]
      exact hbodies p hp w
    · rw [Function.update_of_ne ht]
      exact ih t
  | @step w w' threads t₀ o k r h hcall hA hok ih =>
    have hL : L (.call o k) w := hcall ▸ ih t₀
    change L (Function.update threads t₀ (k r) t) w'
    by_cases ht : t = t₀
    · rw [ht, Function.update_self]
      exact hown o k w r w' hL hA
    · rw [Function.update_of_ne ht]
      exact hother w w' threads t₀ t o k r hcall hL hA hok ht (ih t)

/-- The interleavings of threads that run one program each, with the calls they made. The
steps meet `ok` in the pool they are taken in. -/
inductive Concurrent (A : Answering S ε σ) (ok : List (Event S ε ι) → Pool S ε ι σ → Event S ε ι → Prop)
    (start : Pool S ε ι σ) : List (Event S ε ι) → Pool S ε ι σ → Prop
  | starts : Concurrent A ok start [] start
  | step {events : List (Event S ε ι)} {w w' : σ} {threads : ι → Prog S ε Unit} {t : ι} {o : S.Op}
      {k : Except ε (S.Res o) → Prog S ε Unit} {r : Except ε (S.Res o)}
      (h : Concurrent A ok start events ⟨w, threads⟩) (hcall : threads t = .call o k) (hA : A o w r w')
      (hok : ok events ⟨w, threads⟩ ⟨t, o, r⟩) :
      Concurrent A ok start (events ++ [⟨t, o, r⟩]) ⟨w', Function.update threads t (k r)⟩

namespace Concurrent

variable {A : Answering S ε σ} {ok : List (Event S ε ι) → Pool S ε ι σ → Event S ε ι → Prop}
  {start : Pool S ε ι σ} {events : List (Event S ε ι)} {pool : Pool S ε ι σ}

theorem follows {P : Protocol S ε Φ} {φ₀ : Φ} {t : ι} {Q : Except ε Unit → Φ → Prop}
    (hstart : Follows P Q (start.thread t) φ₀) (hanswers : ∀ o w r w', A o w r w' → P.answers o r)
    (h : Concurrent A ok start events pool) : Follows P Q (pool.thread t) (phases P φ₀ events t) := by
  induction h with
  | starts => exact hstart
  | @step events w w' threads u o k r h hcall hA hok ih =>
    change Follows P Q (Function.update threads u (k r) t) _
    rw [phases_snoc]
    by_cases ht : t = u
    · subst ht
      rw [Function.update_self, Function.update_self]
      change Follows P Q (threads t) _ at ih
      rw [hcall] at ih
      exact ih.2 r (hanswers o w r w' hA)
    · rw [Function.update_of_ne ht, Function.update_of_ne ht]
      exact ih

end Concurrent

section Play

variable {H : Handler S ε σ} {R : σ → σ → Prop} {body : Prog S ε Unit} {w₀ : σ}
  {ok : List (Event S ε ι) → σ → Event S ε ι → Prop} [∀ events w e, Decidable (ok events w e)]

/-- Give a thread its turn: it makes its next call, if `ok` lets it, or starts the body again. -/
def turn (H : Handler S ε σ) (body : Prog S ε Unit) (ok : List (Event S ε ι) → σ → Event S ε ι → Prop)
    [∀ events w e, Decidable (ok events w e)] (s : List (Event S ε ι) × Pool S ε ι σ) (t : ι) :
    List (Event S ε ι) × Pool S ε ι σ :=
  match s.2.thread t with
  | .call o k =>
    let (r, w') := H.perform o s.2.world
    if ok s.1 s.2.world ⟨t, o, r⟩ then (s.1 ++ [⟨t, o, r⟩], ⟨w', Function.update s.2.thread t (k r)⟩) else s
  | _ => (s.1, ⟨s.2.world, Function.update s.2.thread t body⟩)

theorem turn_interleaves {s : List (Event S ε ι) × Pool S ε ι σ} (t : ι)
    (h : Interleaves H.Faulty R {body} ok w₀ s.1 s.2) :
    Interleaves H.Faulty R {body} ok w₀ (turn H body ok s t).1 (turn H body ok s t).2 := by
  rw [turn]
  split
  · rename_i o k hcall
    change Interleaves _ _ _ _ _ (ite _ _ _ : _ × _).1 (ite _ _ _ : _ × _).2
    split
    · rename_i hok
      exact h.step hcall (Handler.Sound.faulty rfl) hok
    · exact h
  · rename_i hnot
    refine h.launch ?_ rfl
    cases hthread : s.2.thread t with
    | call o k => exact absurd hthread (hnot o k)
    | pure a => trivial
    | throw e => trivial

/-- The threads get their turns in the given order. -/
theorem turns_interleave (turns : List ι) {s : List (Event S ε ι) × Pool S ε ι σ}
    (h : Interleaves H.Faulty R {body} ok w₀ s.1 s.2) :
    Interleaves H.Faulty R {body} ok w₀ (turns.foldl (turn H body ok) s).1 (turns.foldl (turn H body ok) s).2 := by
  induction turns generalizing s with
  | nil => exact h
  | cons t turns ih => exact ih (turn_interleaves t h)

end Play

section Schedule

variable {H : Handler S ε σ} {ok : List (Event S ε ι) → Pool S ε ι σ → Event S ε ι → Prop} {start : Pool S ε ι σ}
  {allowed : Event S ε ι → Bool}

/-- Give a thread its turn to make its next call, if it is one that is allowed. -/
def advance (H : Handler S ε σ) (allowed : Event S ε ι → Bool) (s : List (Event S ε ι) × Pool S ε ι σ) (t : ι) :
    List (Event S ε ι) × Pool S ε ι σ :=
  match s.2.thread t with
  | .call o k =>
    let (r, w') := H.perform o s.2.world
    if allowed ⟨t, o, r⟩ then (s.1 ++ [⟨t, o, r⟩], ⟨w', Function.update s.2.thread t (k r)⟩) else s
  | _ => s

theorem schedule_concurrent (hok : ∀ events pool e, allowed e = true → ok events pool e) (turns : List ι)
    {s : List (Event S ε ι) × Pool S ε ι σ} (h : Concurrent H.Faulty ok start s.1 s.2) :
    Concurrent H.Faulty ok start (turns.foldl (advance H allowed) s).1 (turns.foldl (advance H allowed) s).2 := by
  induction turns generalizing s with
  | nil => exact h
  | cons t turns ih =>
    apply ih
    rw [advance]
    split
    · rename_i o k hcall
      change Concurrent _ _ _ (ite _ _ _ : _ × _).1 (ite _ _ _ : _ × _).2
      split
      · rename_i hallowed
        exact h.step hcall (Handler.Sound.faulty rfl) (hok _ _ _ hallowed)
      · exact h
    · exact h

end Schedule

end ContextqlServer.Lib.Threads
