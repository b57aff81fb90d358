import ContextqlServer.Scheduler.Isolation
import Mathlib.Logic.Function.Basic

namespace ContextqlServer.Scheduler.Lifecycle

open ContextqlServer.Lib.Effect ContextqlServer.Lib.Mapping ContextqlServer.Lib.Trace
open ContextqlServer.Scheduler.RefreshScheduler ContextqlServer.Scheduler.Isolation

section Model

/-- Where a thread that runs `_run` is. -/
inductive Phase where
  /-- It calls `self._stop.wait(self.poll_seconds)`. -/
  | polling
  /-- It has found the event unset and waits. -/
  | waiting
  /-- It is in a tick, with where that began, its calls and what is left of it. -/
  | ticking (start : World) (calls : Calls) (rest : SchedulerProg Unit)
  | ended

inductive Control where
  | idle
  /-- In `start`, which has found no live thread. -/
  | starting
  /-- In `start`, which has cleared the event. -/
  | cleared
  /-- In `stop`, which waits for the thread to end. -/
  | stopping
  /-- A `stop` has returned. -/
  | stopped
  deriving DecidableEq

/-- A scheduler, its event and all its threads, `thread` being `self._thread`. -/
structure Server where
  world : World
  stopSet : Bool
  thread : Option Nat
  spawned : Nat
  threads : Nat → Phase
  control : Control
  /-- The ticks that have come to an end. -/
  ticks : List Episode

inductive Action where
  | start
  | clear
  | spawn
  | stop
  /-- The thread has ended before the timeout of `stop`. -/
  | joined
  | joinTimedOut
  | poll (i : Nat)
  | notified (i : Nat)
  /-- The wait of a thread times out; so far the clock has gone on and the entries have changed. -/
  | timedOut (i : Nat) (clock : ℚ) (contexts : List Entry)
  /-- The next call of a tick goes through, or fails. -/
  | perform (i : Nat) (failure : Option Exn)

def Phase.alive : Phase → Bool
  | .ended => false
  | _ => true

namespace Server

variable (S : Config) (c : Server)

/-- The phase of `self._thread`. -/
def current : Phase := c.thread.elim .ended c.threads

def become (i : Nat) (phase : Phase) : Server := { c with threads := Function.update c.threads i phase }

/-- A tick that raises ends its thread. -/
def advance (i : Nat) (start : World) (calls : Calls) (w : World) : SchedulerProg Unit → Server
  | .call o k => ({ c with world := w } : Server).become i (.ticking start calls (.call o k))
  | .pure _ =>
    ({ c with world := w, ticks := c.ticks ++ [⟨start, calls, .ok ()⟩] } : Server).become i .polling
  | .throw e =>
    ({ c with world := w, ticks := c.ticks ++ [⟨start, calls, .error e⟩] } : Server).become i .ended

def free : Bool := c.control = .idle || c.control = .stopped

def step : Action → Option Server
  | .start =>
    if c.free then some { c with control := if c.current.alive then .idle else .starting } else none
  | .clear =>
    if c.control = .starting then some { c with stopSet := false, control := .cleared } else none
  | .spawn =>
    if c.control = .cleared then
      some { c with
        thread := some c.spawned, spawned := c.spawned + 1, control := .idle
        threads := Function.update c.threads c.spawned .polling }
    else none
  | .stop =>
    if c.free then
      some { c with stopSet := true, control := if c.thread.isSome then .stopping else .stopped }
    else none
  | .joined =>
    if c.control = .stopping && !c.current.alive then some { c with control := .stopped } else none
  -- `stop` raises where the thread is still alive.
  | .joinTimedOut =>
    if c.control = .stopping then
      some { c with control := if c.current.alive then .idle else .stopped }
    else none
  | .poll i =>
    match c.threads i with
    | .polling => some (c.become i (if c.stopSet then .ended else .waiting))
    | _ => none
  | .notified i =>
    match c.threads i with
    | .waiting => if c.stopSet then some (c.become i .ended) else none
    | _ => none
  | .timedOut i clock contexts =>
    match c.threads i with
    | .waiting =>
      if c.world.clock ≤ clock then
        let w : World := { c.world with clock, contexts }
        some (({ c with world := w } : Server).become i (.ticking w [] (tick S)))
      else none
    | _ => none
  | .perform i failure =>
    match c.threads i with
    | .ticking start calls (.call o k) =>
      (scheduler.answer o failure c.world).map fun a =>
        c.advance i start (calls ++ [(o, a.1.isOk)]) a.2 (k a.1)
    | _ => none

/-- A scheduler that has been made and not started. -/
def made (w : World) : Server where
  world := w
  stopSet := false
  thread := none
  spawned := 0
  threads _ := .ended
  control := .idle
  ticks := []

inductive Reaches (c₀ : Server) : Server → Prop
  | refl : Reaches c₀ c₀
  | step {c c' : Server} {a : Action} (h : Reaches c₀ c) (hs : c.step S a = some c') : Reaches c₀ c'

end Server

end Model

section Ticks

variable {S : Config} {w₀ w : World}

/-- Ticks one after the other, whichever of them raise. -/
inductive Ticked (S : Config) (w₀ : World) : List Episode → World → Prop
  | starts : Ticked S w₀ [] w₀
  | ticks {episodes : List Episode} {w w₁ w₂ : World} {calls : Calls} {out : Except Exn Unit}
      (h : Ticked S w₀ episodes w) (helapsed : Elapsed w w₁) (htick : Ticks (tick S) w₁ calls out w₂) :
      Ticked S w₀ (episodes ++ [⟨w₁, calls, out⟩]) w₂

theorem Ticked.unlocked {episodes : List Episode} (hfree : Unlocked w₀) (h : Ticked S w₀ episodes w) : Unlocked w := by
  induction h with
  | starts => exact hfree
  | ticks h helapsed htick ih => exact (tick_steps (helapsed.unlocked ih) htick).1

theorem Ticked.isolated {episodes : List Episode} (hfree : Unlocked w₀) (h : Ticked S w₀ episodes w) :
    ∀ episode ∈ episodes, Isolated S episode ↔ Undisturbed S episode := by
  induction h with
  | starts => exact List.forall_mem_nil _
  | ticks h helapsed htick ih =>
    intro episode hepisode
    obtain hepisode | hepisode := List.mem_append.mp hepisode
    · exact ih episode hepisode
    · obtain rfl := List.mem_singleton.mp hepisode
      exact tick_isolated (helapsed.unlocked (h.unlocked hfree)) htick

/-- What has been done, when the live thread is in a phase. -/
def Progress (S : Config) (w₀ : World) (ticks : List Episode) (w : World) : Phase → Prop
  | .ticking start calls rest => ∃ w₁, Ticked S w₀ ticks w₁ ∧ Elapsed w₁ start ∧
      Steps scheduler.Faulty (tick S) start calls rest w
  | _ => Ticked S w₀ ticks w

end Ticks

section Runs

variable {S : Config} {w₀ : World} {c c' : Server}

/-- The invariant of the lifecycle. -/
structure Ordered (S : Config) (w₀ : World) (c : Server) : Prop where
  single : ∀ i, (c.threads i).alive = true → c.thread = some i
  quiet : c.control = .starting ∨ c.control = .cleared ∨ c.control = .stopped → c.current.alive = false
  progress : Progress S w₀ c.ticks c.world c.current

theorem Ordered.current_eq (h : Ordered S w₀ c) {i : Nat} (hi : (c.threads i).alive = true) :
    c.current = c.threads i := by
  rw [Server.current, h.single i hi]
  rfl

theorem Ordered.none_alive (h : Ordered S w₀ c) (hquiet : c.current.alive = false) (i : Nat) :
    (c.threads i).alive = false := by
  cases hi : (c.threads i).alive with
  | false => rfl
  | true =>
    rw [h.current_eq hi, hi] at hquiet
    cases hquiet

theorem Ordered.become (h : Ordered S w₀ c) {i : Nat} {phase : Phase} {w : World} {ticks : List Episode}
    (hi : (c.threads i).alive = true) (hprogress : Progress S w₀ ticks w phase) :
    Ordered S w₀ (({ c with world := w, ticks } : Server).become i phase) where
  single j hj := by
    by_cases hji : j = i
    · exact hji ▸ h.single i hi
    · change (Function.update c.threads i phase j).alive = true at hj
      rw [Function.update_of_ne hji] at hj
      exact h.single j hj
  quiet hcontrol := by
    have hquiet := h.quiet hcontrol
    rw [h.current_eq hi, hi] at hquiet
    cases hquiet
  progress := by
    change Progress S w₀ ticks w (c.thread.elim .ended (Function.update c.threads i phase))
    rw [h.single i hi]
    change Progress S w₀ ticks w (Function.update c.threads i phase i)
    rw [Function.update_self]
    exact hprogress

/-- The controlling thread moves. -/
theorem Ordered.control (h : Ordered S w₀ c) {control : Control} {stopSet : Bool}
    (hquiet : control = .starting ∨ control = .cleared ∨ control = .stopped → c.current.alive = false) :
    Ordered S w₀ { c with control, stopSet } where
  single := h.single
  quiet := hquiet
  progress := h.progress

theorem Ordered.made (w₀ : World) : Ordered S w₀ (.made w₀) where
  single _ hi := by cases hi
  quiet _ := rfl
  progress := .starts

theorem Ordered.advance (h : Ordered S w₀ c) {i : Nat} (hi : (c.threads i).alive = true) {start w w₁ : World}
    {calls : Calls} {rest : SchedulerProg Unit} (hticked : Ticked S w₀ c.ticks w₁) (helapsed : Elapsed w₁ start)
    (hsteps : Steps scheduler.Faulty (tick S) start calls rest w) :
    Ordered S w₀ (c.advance i start calls w rest) := by
  cases rest with
  | call o k => exact h.become hi ⟨w₁, hticked, helapsed, hsteps⟩
  | pure a => exact h.become hi (.ticks hticked helapsed hsteps)
  | throw e => exact h.become hi (.ticks hticked helapsed hsteps)

/-- A phase in which nothing is under way leaves what has been done. -/
theorem Ordered.ticked (h : Ordered S w₀ c) {i : Nat} (hi : c.threads i = .polling ∨ c.threads i = .waiting) :
    Ticked S w₀ c.ticks c.world := by
  have hprogress := h.progress
  rcases hi with hi | hi <;>
  · rw [h.current_eq (by rw [hi]; rfl), hi] at hprogress
    exact hprogress

theorem Ordered.spawn (h : Ordered S w₀ c) (hquiet : c.current.alive = false) {stopSet : Bool} :
    Ordered S w₀ { c with
      stopSet, thread := some c.spawned, spawned := c.spawned + 1, control := .idle
      threads := Function.update c.threads c.spawned .polling } where
  single i hi := by
    by_cases hnew : i = c.spawned
    · rw [hnew]
    · change (Function.update c.threads c.spawned .polling i).alive = true at hi
      rw [Function.update_of_ne hnew, h.none_alive hquiet i] at hi
      cases hi
  quiet hcontrol := by simp at hcontrol
  progress := by
    change Progress S w₀ c.ticks c.world (Function.update c.threads c.spawned .polling c.spawned)
    rw [Function.update_self]
    have hprogress := h.progress
    cases hcurrent : c.current with
    | ended =>
      rw [hcurrent] at hprogress
      exact hprogress
    | _ =>
      rw [hcurrent] at hquiet
      cases hquiet

theorem Ordered.step {a : Action} (h : Ordered S w₀ c) (hs : c.step S a = some c') : Ordered S w₀ c' := by
  cases a with
  | start =>
    obtain ⟨-, hs⟩ := Option.ite_none_right_eq_some.mp hs
    obtain rfl := Option.some.inj hs
    apply h.control
    cases hcurrent : c.current.alive <;> simp
  | clear =>
    obtain ⟨hcontrol, hs⟩ := Option.ite_none_right_eq_some.mp hs
    obtain rfl := Option.some.inj hs
    exact h.control fun _ => h.quiet (.inl hcontrol)
  | spawn =>
    obtain ⟨hcontrol, hs⟩ := Option.ite_none_right_eq_some.mp hs
    obtain rfl := Option.some.inj hs
    exact h.spawn (h.quiet (.inr (.inl hcontrol)))
  | stop =>
    obtain ⟨-, hs⟩ := Option.ite_none_right_eq_some.mp hs
    obtain rfl := Option.some.inj hs
    apply h.control
    rw [Server.current]
    cases c.thread with
    | none => exact fun _ => rfl
    | some i => simp
  | joined =>
    obtain ⟨hcontrol, hs⟩ := Option.ite_none_right_eq_some.mp hs
    obtain rfl := Option.some.inj hs
    apply h.control
    intro _
    simpa using (Bool.and_eq_true_iff.mp hcontrol).2
  | joinTimedOut =>
    obtain ⟨-, hs⟩ := Option.ite_none_right_eq_some.mp hs
    obtain rfl := Option.some.inj hs
    apply h.control
    cases hcurrent : c.current.alive <;> simp
  | poll i =>
    rw [Server.step] at hs
    split at hs
    · rename_i hi
      obtain rfl := Option.some.inj hs
      apply h.become (by rw [hi]; rfl)
      have hticked := h.ticked (.inl hi)
      cases c.stopSet with
      | true => exact hticked
      | false => exact hticked
    · cases hs
  | notified i =>
    rw [Server.step] at hs
    split at hs
    · rename_i hi
      obtain ⟨-, hs⟩ := Option.ite_none_right_eq_some.mp hs
      obtain rfl := Option.some.inj hs
      exact h.become (by rw [hi]; rfl) (h.ticked (.inr hi))
    · cases hs
  | timedOut i clock contexts =>
    rw [Server.step] at hs
    split at hs
    · rename_i hi
      obtain ⟨hclock, hs⟩ := Option.ite_none_right_eq_some.mp hs
      obtain rfl := Option.some.inj hs
      exact h.become (by rw [hi]; rfl) ⟨c.world, h.ticked (.inr hi), ⟨hclock, rfl, rfl⟩, .here _ _⟩
    · cases hs
  | perform i failure =>
    rw [Server.step] at hs
    split at hs
    · rename_i start calls o k hi
      obtain ⟨⟨r, w⟩, hanswer, rfl⟩ := Option.map_eq_some_iff.mp hs
      have halive : (c.threads i).alive = true := by
        rw [hi]
        rfl
      have hprogress := h.progress
      rw [h.current_eq halive, hi] at hprogress
      obtain ⟨w₁, hticked, helapsed, hsteps⟩ := hprogress
      exact h.advance halive hticked helapsed (hsteps.snoc ⟨failure, hanswer⟩)
    · cases hs

theorem Ordered.reaches {c₀ : Server} (h : Ordered S w₀ c₀) (hr : c₀.Reaches S c) : Ordered S w₀ c := by
  induction hr with
  | refl => exact h
  | step _ hs ih => exact ih.step hs

/-- However the scheduler is started and stopped, whatever fails, and however long its threads
linger: no two of its threads are alive at a time, its ticks come one after the other, each
isolates faults exactly when it is undisturbed, and once a `stop` has returned every thread
has ended and no context's lock is held. -/
theorem scheduler_lifecycle {clock : ℚ} {contexts : List Entry} {nextDue : Dict String ℚ}
    (hr : (Server.made (started clock contexts nextDue)).Reaches S c) :
    (∀ i j, (c.threads i).alive = true → (c.threads j).alive = true → i = j) ∧
      (∃ w, Ticked S (started clock contexts nextDue) c.ticks w) ∧
      (∀ episode ∈ c.ticks, Isolated S episode ↔ Undisturbed S episode) ∧
      (c.control = .stopped → (∀ i, c.threads i = .ended) ∧ Unlocked c.world) := by
  have h := (Ordered.made (S := S) (started clock contexts nextDue)).reaches hr
  have hfree : Unlocked (started clock contexts nextDue) := fun contextId => by
    rw [started, Finmap.lookup_empty]
    simp
  have hticked : ∃ w, Ticked S (started clock contexts nextDue) c.ticks w := by
    have hprogress := h.progress
    cases hcurrent : c.current with
    | ticking start calls rest =>
      rw [hcurrent] at hprogress
      obtain ⟨w₁, hticked, -⟩ := hprogress
      exact ⟨w₁, hticked⟩
    | _ =>
      rw [hcurrent] at hprogress
      exact ⟨_, hprogress⟩
  refine ⟨?_, hticked, ?_, ?_⟩
  · intro i j hi hj
    exact Option.some.inj ((h.single i hi).symm.trans (h.single j hj))
  · obtain ⟨w, hticked⟩ := hticked
    exact hticked.isolated hfree
  · intro hstopped
    have hquiet := h.quiet (.inr (.inr hstopped))
    constructor
    · intro i
      have hended := h.none_alive hquiet i
      cases hi : c.threads i with
      | ended => rfl
      | _ =>
        rw [hi] at hended
        cases hended
    · have hprogress := h.progress
      cases hcurrent : c.current with
      | ended =>
        rw [hcurrent] at hprogress
        exact Ticked.unlocked hfree hprogress
      | _ =>
        rw [hcurrent] at hquiet
        cases hquiet

end Runs

section Sample

def run (S : Config) (c : Server) : List Action → Option Server
  | [] => some c
  | a :: as => (c.step S a).bind fun c' => run S c' as

theorem run_reaches {S : Config} {c₀ c c' : Server} {as : List Action} (h₀ : c₀.Reaches S c)
    (h : run S c as = some c') : c₀.Reaches S c' := by
  induction as generalizing c with
  | nil => exact Option.some.inj h ▸ h₀
  | cons a as ih =>
    obtain ⟨c₁, hs, h⟩ := Option.bind_eq_some_iff.mp h
    exact ih (h₀.step hs) h

/-- The scheduler is started, ticks once with a refresh that fails, and is stopped while its
thread waits; then it is started again. -/
def sampleActions : List Action :=
  [.start, .clear, .spawn, .poll 0, .timedOut 0 5 sampleContexts] ++ failedRefresh.map (.perform 0) ++
    [.poll 0, .stop, .notified 0, .joined]

def sampleServer : Server := (run sampleConfig (.made (started 0 sampleContexts ∅)) sampleActions).get (by decide)

theorem scheduler_lifecycle_sample :
    (Server.made (started 0 sampleContexts ∅)).Reaches sampleConfig sampleServer ∧
      sampleServer.control = .stopped ∧ sampleServer.ticks.length = 1 ∧
      (∀ i, sampleServer.threads i = .ended) ∧ Unlocked sampleServer.world := by
  have hreached : (Server.made (started 0 sampleContexts ∅)).Reaches sampleConfig sampleServer :=
    run_reaches .refl (Option.some_get _).symm
  have hstopped : sampleServer.control = .stopped := by decide
  exact ⟨hreached, hstopped, by decide, (scheduler_lifecycle hreached).2.2.2 hstopped⟩

end Sample

end ContextqlServer.Scheduler.Lifecycle
