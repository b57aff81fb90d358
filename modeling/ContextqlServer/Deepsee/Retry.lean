import ContextqlServer.Deepsee.Cases
import ContextqlServer.Deepsee.Machine
import ContextqlServer.Deepsee.Synchronizer
import ContextqlServer.Deepsee.Wire

namespace ContextqlServer.Deepsee.Retry

open ContextqlServer.Lib.Effect ContextqlServer.Lib.Mapping ContextqlServer.Lib.Python
open ContextqlServer.Deepsee.Models ContextqlServer.Deepsee.MockService ContextqlServer.Deepsee.Client
open ContextqlServer.Deepsee.Store ContextqlServer.Deepsee.Synchronizer
open ContextqlServer.Deepsee.Cases ContextqlServer.Deepsee.Machine ContextqlServer.Deepsee.Wire

section Policy

/-- The limits that a client is built with. -/
structure RetryPolicy where
  maxRetries : Int
  backoffBaseMs : Int
  backoffCapMs : Int

/-- `max(0, int(max_retries))` -/
def RetryPolicy.retries (p : RetryPolicy) : Nat := (max 0 p.maxRetries).toNat

/-- `DeepSeeRetryableError` and its subclasses. -/
def retryable (e : DeepSeeError) : Bool := e.errorClass ∈ [ErrorClass.retryable, .timeout, .rateLimit]

/-- From here on, half a unit above the largest float, an integer is rounded to no float. -/
def floatLimit : Int := 2 ^ 1024 - 2 ^ 970

/-- `float(n)` of an integer, with no rounding below the limit. -/
def toFloat (n : Int) : Except Exn ℚ :=
  if |n| < floatLimit then .ok n else .error (.overflowError "int too large to convert to float")

/-- The delay that is made a float of. -/
def delayMs (p : RetryPolicy) (e : DeepSeeError) (attempt : Nat) : Int :=
  match e.errorClass, e.envelope.retryAfterMs with
  | .rateLimit, some ms => ms
  | _, _ => p.backoffBaseMs * 2 ^ attempt

def retryDelaySeconds (p : RetryPolicy) (e : DeepSeeError) (attempt : Nat) : Except Exn ℚ := do
  let delay ← toFloat (delayMs p e attempt)
  let cap ← toFloat p.backoffCapMs
  return min delay cap / 1000

/-- The operations of `S`, the sleeper and the clock. -/
inductive Timed (S : Sig) where
  | call (o : S.Op)
  | sleep (seconds : ℚ)
  | now

def timed (S : Sig) : Sig where
  Op := Timed S
  Res
    | .call o => S.Res o
    | .sleep _ => Unit
    | .now => Timestamp

variable {S : Sig} {α : Type}

def sleep (seconds : ℚ) : Prog (timed S) Exn Unit := Prog.perform (S := timed S) (.sleep seconds)

def now : Prog (timed S) Exn Timestamp := Prog.perform (S := timed S) .now

/-- The loop of `_call_with_retry`, with the retries still allowed. -/
def callWithRetryLoop (p : RetryPolicy) (operation : Prog (timed S) Exn α) (remaining attempt : Nat) :
    Prog (timed S) Exn α :=
  operation.tryCatch fun e =>
    match e with
    | .deepSee d =>
      if retryable d then
        match remaining with
        | 0 => .throw (.deepSee d)
        | remaining + 1 => do
          let seconds ← Prog.ofExcept (retryDelaySeconds p d attempt)
          sleep seconds
          callWithRetryLoop p operation remaining (attempt + 1)
      else .throw (.deepSee d)
    | e => .throw e

def callWithRetry (p : RetryPolicy) (operation : Prog (timed S) Exn α) : Prog (timed S) Exn α :=
  callWithRetryLoop p operation p.retries 0

def HasDelay (p : RetryPolicy) (d : DeepSeeError) (attempt : Nat) : Prop :=
  |delayMs p d attempt| < floatLimit ∧ |p.backoffCapMs| < floatLimit

/-- The sleep after a failure. -/
def delaySeconds (p : RetryPolicy) (d : DeepSeeError) (attempt : Nat) : ℚ :=
  min (delayMs p d attempt : ℚ) p.backoffCapMs / 1000

theorem retryDelaySeconds_ok {p : RetryPolicy} {d : DeepSeeError} {attempt : Nat} (h : HasDelay p d attempt) :
    retryDelaySeconds p d attempt = .ok (delaySeconds p d attempt) := by
  rw [retryDelaySeconds, toFloat, toFloat, if_pos h.1, if_pos h.2]
  rfl

end Policy

section Loop

variable {S : Sig} {α σ : Type} {p : RetryPolicy}

/-- A retryable failure. -/
def failed : Except Exn α → Bool
  | .error (.deepSee d) => retryable d
  | _ => false

theorem failed_iff {x : Except Exn α} : failed x = true ↔ ∃ d, x = .error (.deepSee d) ∧ retryable d = true := by
  cases x with
  | ok a => simp [failed]
  | error e => cases e <;> simp [failed]

/-- The outcome that ends a call: the first that is not a retryable failure, or the one after the
last retry. -/
structure Ends (n : Nat) (script : Nat → Except Exn α) (j : Nat) : Prop where
  within : j ≤ n
  before : ∀ i < j, failed (script i) = true
  last : j = n ∨ failed (script j) = false

theorem exists_ends (n : Nat) (script : Nat → Except Exn α) : ∃ j, Ends n script j := by
  have hsome : ∃ j, j = n ∨ failed (script j) = false := ⟨n, .inl rfl⟩
  refine ⟨Nat.find hsome, Nat.find_min' hsome (.inl rfl), ?_, Nat.find_spec hsome⟩
  intro i hi
  have hmin := not_or.mp (Nat.find_min hsome hi)
  exact Bool.eq_true_of_not_eq_false hmin.2

variable {H : Handler (timed S) Exn σ} {operation : Prog (timed S) Exn α} {w w₁ w₂ : σ} {x : Except Exn α}
  {remaining attempt : Nat}

theorem exec_last (h : H.exec operation w = (x, w₁)) (hlast : remaining = 0 ∨ failed x = false) :
    H.exec (callWithRetryLoop p operation remaining attempt) w = (x, w₁) := by
  rw [callWithRetryLoop, Prog.tryCatch, H.exec_handle, h]
  cases x with
  | ok a => rfl
  | error e =>
    cases e with
    | deepSee d =>
      by_cases hd : retryable d = true
      · obtain rfl : remaining = 0 := hlast.resolve_right (fun hnot => nomatch hd.symm.trans hnot)
        simp only [hd, if_true]
        rfl
      · simp only [hd]
        rfl
    | _ => rfl

theorem exec_again {d : DeepSeeError} (h : H.exec operation w = (.error (.deepSee d), w₁)) (hd : retryable d = true)
    (hdelay : HasDelay p d attempt) (hsleep : H.perform (.sleep (delaySeconds p d attempt)) w₁ = (.ok (), w₂)) :
    H.exec (callWithRetryLoop p operation (remaining + 1) attempt) w =
      H.exec (callWithRetryLoop p operation remaining (attempt + 1)) w₂ := by
  rw [callWithRetryLoop, Prog.tryCatch, H.exec_handle, h]
  simp only [hd, if_true, retryDelaySeconds_ok hdelay, H.exec_ofExcept_bind]
  apply Handler.exec_bind
  exact (H.exec_perform _ _).trans hsleep

theorem exec_overflows {d : DeepSeeError} (h : H.exec operation w = (.error (.deepSee d), w₁))
    (hd : retryable d = true) (hdelay : ¬ |delayMs p d attempt| < floatLimit) :
    H.exec (callWithRetryLoop p operation (remaining + 1) attempt) w =
      (.error (.overflowError "int too large to convert to float"), w₁) := by
  have hseconds : retryDelaySeconds p d attempt = .error (.overflowError "int too large to convert to float") := by
    rw [retryDelaySeconds, toFloat, if_neg hdelay]
    rfl
  rw [callWithRetryLoop, Prog.tryCatch, H.exec_handle, h]
  simp only [hd, if_true, hseconds, H.exec_ofExcept_bind]

variable {n j : Nat} {script : Nat → Except Exn α}

def HasDelays (p : RetryPolicy) (script : Nat → Except Exn α) (j : Nat) : Prop :=
  ∀ i < j, ∀ d, script i = .error (.deepSee d) → HasDelay p d i

theorem exec_loop (before after : Nat → σ) (hends : Ends n script j) (hdelays : HasDelays p script j)
    (hcall : ∀ i ≤ j, H.exec operation (before i) = (script i, after i))
    (hsleep : ∀ i < j, ∀ d, script i = .error (.deepSee d) →
      H.perform (.sleep (delaySeconds p d i)) (after i) = (.ok (), before (i + 1)))
    (hattempt : attempt ≤ j) (hn : attempt + remaining = n) :
    H.exec (callWithRetryLoop p operation remaining attempt) (before attempt) = (script j, after j) := by
  induction remaining generalizing attempt with
  | zero =>
    obtain rfl : attempt = j := le_antisymm hattempt (hends.within.trans_eq hn.symm)
    exact exec_last (hcall attempt (le_refl attempt)) (.inl rfl)
  | succ remaining ih =>
    rcases hattempt.eq_or_lt with rfl | hlt
    · have hfailed : failed (script attempt) = false := hends.last.resolve_left (by omega)
      exact exec_last (hcall attempt (le_refl attempt)) (.inr hfailed)
    · obtain ⟨d, hscript, hd⟩ := failed_iff.mp (hends.before attempt hlt)
      have hfirst := hcall attempt hlt.le
      rw [hscript] at hfirst
      rw [exec_again hfirst hd (hdelays attempt hlt d hscript) (hsleep attempt hlt d hscript)]
      exact ih (by omega) (by omega)

end Loop

section Script

variable {α : Type} {p : RetryPolicy}

/-- One operation, whose outcomes a script gives. -/
def scriptSig (α : Type) : Sig where
  Op := Unit
  Res _ := α

/-- The calls made and the sleeps taken. -/
structure Played where
  calls : Nat
  sleeps : List ℚ

def scripted (script : Nat → Except Exn α) : Handler (timed (scriptSig α)) Exn Played where
  perform
    | .call _, w => (script w.calls, { w with calls := w.calls + 1 })
    | .sleep seconds, w => (.ok (), { w with sleeps := w.sleeps ++ [seconds] })
    | .now, w => (.ok (0 : Timestamp), w)
  fault _ := none

def scriptedCall : Prog (timed (scriptSig α)) Exn α := Prog.perform (S := timed (scriptSig α)) (.call ())

/-- The sleep after a failure, in milliseconds: no more than the cap, and else what a rate limit
asks for or what the backoff gives. -/
structure SleptFor (p : RetryPolicy) (d : DeepSeeError) (i : Nat) (ms : ℚ) : Prop where
  nonneg : 0 ≤ ms
  capped : ms ≤ p.backoffCapMs
  rateLimit : ∀ after, d.errorClass = .rateLimit → d.envelope.retryAfterMs = some after →
    ms = min (p.backoffCapMs : ℚ) after
  backoff : (d.errorClass ≠ .rateLimit ∨ d.envelope.retryAfterMs = none) →
    ms = min (p.backoffCapMs : ℚ) (p.backoffBaseMs * 2 ^ i)

theorem delayMs_rateLimit {d : DeepSeeError} {after i : Nat} (hclass : d.errorClass = .rateLimit)
    (hafter : d.envelope.retryAfterMs = some after) : delayMs p d i = after := by
  simp only [delayMs, hclass, hafter]

theorem delayMs_backoff {d : DeepSeeError} {i : Nat}
    (h : d.errorClass ≠ .rateLimit ∨ d.envelope.retryAfterMs = none) : delayMs p d i = p.backoffBaseMs * 2 ^ i := by
  rw [delayMs]
  split
  next after hclass hafter => exact (h.elim (absurd hclass) (fun hnone => nomatch hafter.symm.trans hnone))
  next => rfl

theorem sleptFor (hbase : 0 ≤ p.backoffBaseMs) (hcap : 0 ≤ p.backoffCapMs) (d : DeepSeeError) (i : Nat) :
    SleptFor p d i (delaySeconds p d i * 1000) := by
  have hms : delaySeconds p d i * 1000 = min (p.backoffCapMs : ℚ) (delayMs p d i) := by
    rw [delaySeconds, div_mul_cancel₀ _ (by norm_num), min_comm]
  have hdelay : 0 ≤ delayMs p d i := by
    rw [delayMs]
    split
    · exact Int.natCast_nonneg _
    · exact mul_nonneg hbase (pow_nonneg (by norm_num) i)
  rw [hms]
  exact {
    nonneg := le_min (Int.cast_nonneg hcap) (Int.cast_nonneg hdelay)
    capped := min_le_left _ _
    rateLimit := fun after hclass hafter => by rw [delayMs_rateLimit hclass hafter, Int.cast_natCast]
    backoff := fun h => by
      rw [delayMs_backoff h]
      push_cast
      rfl }

/-- The sleep that an outcome is followed by. -/
def delayAfter (p : RetryPolicy) (script : Nat → Except Exn α) (i : Nat) : ℚ :=
  match script i with
  | .error (.deepSee d) => delaySeconds p d i
  | _ => 0

theorem exec_script {script : Nat → Except Exn α} {j : Nat} (hends : Ends p.retries script j)
    (hdelays : HasDelays p script j) :
    (scripted script).exec (callWithRetry p scriptedCall) ⟨0, []⟩ =
      (script j, ⟨j + 1, (List.range j).map (delayAfter p script)⟩) := by
  let slept (i : Nat) : List ℚ := (List.range i).map (delayAfter p script)
  refine exec_loop (fun i => (⟨i, slept i⟩ : Played)) (fun i => (⟨i + 1, slept i⟩ : Played))
    hends hdelays ?_ ?_ (Nat.zero_le j) (Nat.zero_add _)
  · intro i _
    exact (scripted script).exec_perform _ _
  · intro i _ d hd
    have hdelay : delayAfter p script i = delaySeconds p d i := by rw [delayAfter, hd]
    simp only [slept, List.range_succ, List.map_append, List.map_singleton, hdelay]
    rfl

end Script

section Remote

variable {α σ : Type}

/-- What a client asks of its service, and what a synchronizer asks besides. -/
inductive RemoteOp where
  | snapshot (bitMap64 : BitMap64) (cursor token : Option String)
  | changes (sinceWatermark : String) (cursor token : Option String)
  | cases (request : CaseRequest) (token : Option String)
  | store (o : SyncOp)

def remoteSig : Sig where
  Op := RemoteOp
  Res
    | .snapshot _ _ _ => SnapshotPage
    | .changes _ _ _ => ChangeBatch
    | .cases _ _ => CasesResponse
    | .store o => syncSig.Res o

abbrev RemoteProg := Prog (timed remoteSig) Exn

def remote (o : RemoteOp) : RemoteProg (remoteSig.Res o) := Prog.perform (S := timed remoteSig) (.call o)

variable (p : RetryPolicy) (c : DeepSeeClient)

/-- Fetch one validated page of the full membership snapshot; the clock is read once it is there. -/
def fetchSnapshot (cursor : Option String) : RemoteProg SnapshotPage := do
  let page ← callWithRetry p (remote (.snapshot c.bitMap64 cursor c.token))
  let time ← now
  Prog.ofExcept (receiveSnapshot c time page)

/-- Fetch one page of change events after `sinceWatermark`. -/
def fetchChanges (sinceWatermark : String) (cursor : Option String) : RemoteProg ChangeBatch := do
  let batch ← callWithRetry p (remote (.changes sinceWatermark cursor c.token))
  let time ← now
  Prog.ofExcept (receiveChanges c time batch)

def receiveCases (time : Timestamp) (response : CasesResponse) : Except Exn CasesResponse := do
  c.validateFreshness time response.dataAsOf
  return response

/-- Fetch evidence rows for a REMOTE resource. -/
def fetchCases (request : CaseRequest) : RemoteProg CasesResponse := do
  let response ← callWithRetry p (remote (.cases request c.token))
  let time ← now
  Prog.ofExcept (receiveCases c time response)

/-- An operation of the synchronizer over a client with retries. -/
def realize : (o : SyncOp) → RemoteProg (syncSig.Res o)
  | .fetchSnapshot c cursor => fetchSnapshot p c cursor
  | .fetchChanges c sinceWatermark cursor => fetchChanges p c sinceWatermark cursor
  | o => remote (.store o)

/-- A program of the synchronizer over clients with retries. -/
def retrying (q : SyncProg α) : RemoteProg α := q.interpret (realize p)

/-- The failures that the next call of the service meets before it is answered, and those that each
call after it meets. -/
structure Failures where
  pending : List DeepSeeError
  later : Nat → List DeepSeeError

def Failures.none : Failures := ⟨[], fun _ => []⟩

def Failures.next (f : Failures) : Failures := ⟨f.later 0, fun n => f.later (n + 1)⟩

/-- Failures in a row that the retries outlast. -/
structure Outlasted (ds : List DeepSeeError) : Prop where
  length : ds.length ≤ p.retries
  retryable : ∀ d ∈ ds, retryable d = true
  delays : ∀ i d, ds[i]? = some d → HasDelay p d i

structure Failures.Within (f : Failures) : Prop where
  pending : Outlasted p f.pending
  later : ∀ k, Outlasted p (f.later k)

/-- What is beyond a client, the failures to come, and what the clock will show, a reading for
each response. The sleeps show in the readings. -/
structure Line (σ : Type) where
  state : σ
  failures : Failures
  clock : Nat → Timestamp

/-- An answer of the service, unless the call meets a failure. -/
def serve {β : Type} (answer : Except Exn β × σ) (v : Line σ) : Except Exn β × Line σ :=
  match v.failures.pending with
  | d :: ds => (.error (.deepSee d), { v with failures := { v.failures with pending := ds } })
  | [] => (answer.1, { v with state := answer.2, failures := v.failures.next })

/-- Surroundings in which calls of the service meet failures. -/
def failing (H : Handler remoteSig Exn σ) : Handler (timed remoteSig) Exn (Line σ) where
  perform
    | .sleep _, v => (.ok (), v)
    | .now, v => (.ok (v.clock 0), { v with clock := fun n => v.clock (n + 1) })
    | .call (.snapshot B cursor token), v => serve (H.perform (.snapshot B cursor token) v.state) v
    | .call (.changes since cursor token), v => serve (H.perform (.changes since cursor token) v.state) v
    | .call (.cases request token), v => serve (H.perform (.cases request token) v.state) v
    | .call (.store o), v => ((H.perform (.store o) v.state).1, { v with state := (H.perform (.store o) v.state).2 })
  fault _ := Option.none

end Remote

section Delivery

variable {σ : Type}

def dataAsOf : (o : RemoteOp) → remoteSig.Res o → Option WireTime
  | .snapshot _ _ _, page => some page.dataAsOf
  | .changes _ _ _, batch => some batch.dataAsOf
  | .cases _ _, response => some response.dataAsOf
  | .store _, _ => none

/-- The states that operations lead to. -/
def Leads (H : Handler remoteSig Exn σ) : σ → σ → Prop :=
  Relation.ReflTransGen fun w w' => ∃ o, w' = (H.perform o w).2

/-- In a state that operations lead to, a response comes with this time. -/
def Delivers (H : Handler remoteSig Exn σ) (w : σ) (time : WireTime) : Prop :=
  ∃ w' o a, Leads H w w' ∧ (H.perform o w').1 = .ok a ∧ dataAsOf o a = some time

def Recent (c : DeepSeeClient) (clock : Nat → Timestamp) (time : WireTime) : Prop :=
  ∀ bound, c.maxDataAge = some bound → ∀ t, parseIso time = .ok t → ∀ n, clock n - t ≤ bound

theorem Recent.validateFreshness {c : DeepSeeClient} {clock clock' : Nat → Timestamp} {time : WireTime}
    (h : Recent c clock time) (h' : Recent c clock' time) (n n' : Nat) :
    c.validateFreshness (clock n) time = c.validateFreshness (clock' n') time := by
  rw [DeepSeeClient.validateFreshness, DeepSeeClient.validateFreshness]
  cases hage : c.maxDataAge with
  | none => rfl
  | some bound =>
    cases ht : parseIso time with
    | error e => rfl
    | ok t =>
      have hold := not_lt.mpr (h bound hage t ht n)
      have hold' := not_lt.mpr (h' bound hage t ht n')
      simp only [bind, Except.bind, gt_iff_lt, if_neg hold, if_neg hold']

end Delivery

section Transparency

variable {α β σ : Type} {p : RetryPolicy} {c : DeepSeeClient} {H : Handler remoteSig Exn σ} {w : σ} {f : Failures}
  {clock clock' : Nat → Timestamp}

theorem Failures.Within.next (hf : f.Within p) : f.next.Within p := ⟨hf.later 0, fun k => hf.later (k + 1)⟩

theorem outlasted_nil (p : RetryPolicy) : Outlasted p [] :=
  ⟨Nat.zero_le _, fun _ h => absurd h List.not_mem_nil, fun i d h => by simp at h⟩

theorem Failures.none_within (p : RetryPolicy) : Failures.none.Within p :=
  ⟨outlasted_nil p, fun _ => outlasted_nil p⟩

/-- A call that the service itself does not refuse with a retryable failure. -/
def Settled (H : Handler remoteSig Exn σ) (o : RemoteOp) : Prop := ∀ w, failed (H.perform o w).1 = false

theorem exec_served {o : RemoteOp} {later : Nat → List DeepSeeError} {pending : List DeepSeeError}
    (hserve : ∀ v, (failing H).perform (.call o) v = serve (H.perform o v.state) v) (hsettled : Settled H o)
    {remaining attempt : Nat} (hlength : pending.length ≤ remaining) (hretryable : ∀ d ∈ pending, retryable d = true)
    (hdelays : ∀ i d, pending[i]? = some d → HasDelay p d (attempt + i)) :
    (failing H).exec (callWithRetryLoop p (remote o) remaining attempt) ⟨w, ⟨pending, later⟩, clock⟩ =
      ((H.perform o w).1, ⟨(H.perform o w).2, Failures.next ⟨pending, later⟩, clock⟩) := by
  induction pending generalizing remaining attempt with
  | nil =>
    apply exec_last
    · exact ((failing H).exec_perform _ _).trans (hserve _)
    · exact .inr (hsettled w)
  | cons d ds ih =>
    obtain ⟨remaining, rfl⟩ :=
      Nat.exists_eq_succ_of_ne_zero (Nat.ne_of_gt (Nat.lt_of_lt_of_le (Nat.succ_pos _) hlength))
    have hfirst : (failing H).exec (remote o) ⟨w, ⟨d :: ds, later⟩, clock⟩ =
        (.error (.deepSee d), ⟨w, ⟨ds, later⟩, clock⟩) :=
      ((failing H).exec_perform _ _).trans (hserve _)
    have hdelay : HasDelay p d attempt := hdelays 0 d rfl
    rw [exec_again hfirst (hretryable d List.mem_cons_self) hdelay rfl]
    apply ih (Nat.le_of_succ_le_succ hlength) (fun e he => hretryable e (List.mem_cons_of_mem d he))
    intro i e he
    rw [Nat.add_assoc, Nat.add_comm 1 i]
    exact hdelays (i + 1) e he

def Left (clock clock' : Nat → Timestamp) : Prop := ∀ n, ∃ m, clock' n = clock m

theorem exec_fetch {o : RemoteOp} (receive : Timestamp → remoteSig.Res o → Except Exn β) (clock : Nat → Timestamp)
    (hserve : ∀ v, (failing H).perform (.call o) v = serve (H.perform o v.state) v) (hsettled : Settled H o)
    (hf : f.Within p) :
    ∃ clock', Left clock clock' ∧
      (failing H).exec (callWithRetry p (remote o) >>= fun a => now >>= fun time => Prog.ofExcept (receive time a))
          ⟨w, f, clock⟩ =
        ((H.perform o w).1.bind (receive (clock 0)), ⟨(H.perform o w).2, f.next, clock'⟩) := by
  have hdelays : ∀ i d, f.pending[i]? = some d → HasDelay p d (0 + i) := by
    intro i d hd
    rw [Nat.zero_add]
    exact hf.pending.delays i d hd
  have hcall : (failing H).exec (callWithRetry p (remote o)) ⟨w, f, clock⟩ =
      ((H.perform o w).1, ⟨(H.perform o w).2, f.next, clock⟩) :=
    exec_served hserve hsettled hf.pending.length hf.pending.retryable hdelays
  cases hanswer : (H.perform o w).1 with
  | ok a =>
    rw [hanswer] at hcall
    refine ⟨fun n => clock (n + 1), fun n => ⟨n + 1, rfl⟩, ((failing H).exec_bind _ hcall).trans ?_⟩
    refine ((failing H).exec_bind (fun time => Prog.ofExcept (receive time a)) rfl).trans ?_
    exact (failing H).exec_ofExcept _ _
  | error e =>
    rw [hanswer] at hcall
    exact ⟨clock, fun n => ⟨n, rfl⟩, (failing H).exec_bind_error _ hcall⟩

/-- What the synchronizer's operations do when no call fails, by a clock beyond the client. -/
def unfailing (H : Handler remoteSig Exn σ) (time : σ → Timestamp) : Handler syncSig Exn σ where
  perform
    | .fetchSnapshot c cursor, w =>
      let answer := H.perform (.snapshot c.bitMap64 cursor c.token) w
      (answer.1.bind (receiveSnapshot c (time w)), answer.2)
    | .fetchChanges c since cursor, w =>
      let answer := H.perform (.changes since cursor c.token) w
      (answer.1.bind (receiveChanges c (time w)), answer.2)
    | .stageSnapshot s, w => H.perform (.store (.stageSnapshot s)) w
    | .stageDelta d, w => H.perform (.store (.stageDelta d)) w
    | .commitSnapshot staged, w => H.perform (.store (.commitSnapshot staged)) w
    | .putSnapshot s, w => H.perform (.store (.putSnapshot s)) w
    | .applyDelta d, w => H.perform (.store (.applyDelta d)) w
    | .commitState contextId watermark events, w => H.perform (.store (.commitState contextId watermark events)) w
  fault _ := Option.none

/-- A service that fails its calls with no retryable failures of its own. -/
structure SettledService (H : Handler remoteSig Exn σ) : Prop where
  snapshot : ∀ B cursor token, Settled H (.snapshot B cursor token)
  changes : ∀ since cursor token, Settled H (.changes since cursor token)
  cases : ∀ request token, Settled H (.cases request token)

def Asks (c : DeepSeeClient) : SyncOp → Prop
  | .fetchSnapshot c' _ | .fetchChanges c' _ _ => c' = c
  | _ => True

/-- Whatever is delivered, its age is judged alike by the readings of the clock and by the one
beyond the client. -/
def Judged (H : Handler remoteSig Exn σ) (c : DeepSeeClient) (clock : Nat → Timestamp) (time : σ → Timestamp)
    (w : σ) : Prop :=
  ∀ w' o a d, Leads H w w' → (H.perform o w').1 = .ok a → dataAsOf o a = some d →
    ∀ n, c.validateFreshness (clock n) d = c.validateFreshness (time w') d

/-- The same state, with failures that the retries outlast and readings that judge alike. -/
structure Meets (p : RetryPolicy) (H : Handler remoteSig Exn σ) (c : DeepSeeClient) (time : σ → Timestamp) (w : σ)
    (v : Line σ) : Prop where
  state : v.state = w
  within : v.failures.Within p
  judged : Judged H c v.clock time w

theorem Judged.left {time : σ → Timestamp} (h : Judged H c clock time w) (hleft : Left clock clock') {o : RemoteOp} :
    Judged H c clock' time (H.perform o w).2 := by
  intro w' o' a d hleads ha hd n
  obtain ⟨m, hm⟩ := hleft n
  rw [hm]
  exact h w' o' a d (.head ⟨o, rfl⟩ hleads) ha hd m

theorem receiveSnapshot_judged {t t' : Timestamp} {page : SnapshotPage}
    (h : c.validateFreshness t page.dataAsOf = c.validateFreshness t' page.dataAsOf) :
    receiveSnapshot c t page = receiveSnapshot c t' page := by
  rw [receiveSnapshot, receiveSnapshot, h]

theorem receiveChanges_judged {t t' : Timestamp} {batch : ChangeBatch}
    (h : c.validateFreshness t batch.dataAsOf = c.validateFreshness t' batch.dataAsOf) :
    receiveChanges c t batch = receiveChanges c t' batch := by
  rw [receiveChanges, receiveChanges, h]

theorem receiveCases_judged {t t' : Timestamp} {response : CasesResponse}
    (h : c.validateFreshness t response.dataAsOf = c.validateFreshness t' response.dataAsOf) :
    receiveCases c t response = receiveCases c t' response := by
  rw [receiveCases, receiveCases, h]

theorem bind_judged {γ : Type} {x : Except Exn γ} {k k' : γ → Except Exn β} (h : ∀ a, x = .ok a → k a = k' a) :
    x.bind k = x.bind k' := by
  cases x with
  | ok a => exact h a rfl
  | error e => rfl

theorem realize_step (hH : SettledService H) {time : σ → Timestamp} (o : SyncOp) (w : σ) (v : Line σ)
    (hasks : Asks c o) (h : Meets p H c time w v) :
    ∃ v', (failing H).exec (realize p o) v = (((unfailing H time).perform o w).1, v') ∧
      Meets p H c time ((unfailing H time).perform o w).2 v' := by
  obtain ⟨w, f, clock⟩ := v
  obtain ⟨rfl, hf, hjudged⟩ := h
  have hplain : ∀ o, Judged H c clock time (H.perform o w).2 := fun o => hjudged.left (fun n => ⟨n, rfl⟩)
  cases o with
  | fetchSnapshot c' cursor =>
    obtain rfl : c' = c := hasks
    obtain ⟨clock', hleft, hexec⟩ : ∃ clock', Left clock clock' ∧
        (failing H).exec (fetchSnapshot p c' cursor) ⟨w, f, clock⟩ =
          ((H.perform (.snapshot c'.bitMap64 cursor c'.token) w).1.bind (receiveSnapshot c' (clock 0)),
            ⟨(H.perform (.snapshot c'.bitMap64 cursor c'.token) w).2, f.next, clock'⟩) :=
      exec_fetch _ _ (fun _ => rfl) (hH.snapshot _ _ _) hf
    refine ⟨_, hexec.trans (congrArg (·, _) (bind_judged fun page hpage => ?_)), rfl, hf.next, hjudged.left hleft⟩
    exact receiveSnapshot_judged (hjudged w _ page page.dataAsOf .refl hpage rfl 0)
  | fetchChanges c' since cursor =>
    obtain rfl : c' = c := hasks
    obtain ⟨clock', hleft, hexec⟩ : ∃ clock', Left clock clock' ∧
        (failing H).exec (fetchChanges p c' since cursor) ⟨w, f, clock⟩ =
          ((H.perform (.changes since cursor c'.token) w).1.bind (receiveChanges c' (clock 0)),
            ⟨(H.perform (.changes since cursor c'.token) w).2, f.next, clock'⟩) :=
      exec_fetch _ _ (fun _ => rfl) (hH.changes _ _ _) hf
    refine ⟨_, hexec.trans (congrArg (·, _) (bind_judged fun batch hbatch => ?_)), rfl, hf.next, hjudged.left hleft⟩
    exact receiveChanges_judged (hjudged w _ batch batch.dataAsOf .refl hbatch rfl 0)
  | _ => exact ⟨_, (failing H).exec_perform _ _, rfl, hf, hplain _⟩

/-- A program of the synchronizer ends as it does when no call fails. -/
theorem exec_retrying (hH : SettledService H) (hf : f.Within p) {time : σ → Timestamp}
    (hjudged : Judged H c clock time w) {q : SyncProg α} (hq : q.Only (Asks c)) :
    ∃ f' clock', (failing H).exec (retrying p q) ⟨w, f, clock⟩ =
      (((unfailing H time).exec q w).1, ⟨((unfailing H time).exec q w).2, f', clock'⟩) := by
  have hmeets : Meets p H c time w ⟨w, f, clock⟩ := ⟨rfl, hf, hjudged⟩
  obtain ⟨⟨w', f', clock'⟩, hexec, hstate, -⟩ := Handler.exec_interpret (realize_step hH) hq hmeets
  obtain rfl : w' = _ := hstate
  exact ⟨f', clock', hexec⟩

/-- The same result, and the same state left behind, as with no failures and by another clock. -/
def Transparent (H : Handler remoteSig Exn σ) (q : RemoteProg α) (w : σ) (f : Failures)
    (clock clock' : Nat → Timestamp) : Prop :=
  ((failing H).exec q ⟨w, f, clock⟩).1 = ((failing H).exec q ⟨w, .none, clock'⟩).1 ∧
    ((failing H).exec q ⟨w, f, clock⟩).2.state = ((failing H).exec q ⟨w, .none, clock'⟩).2.state

def Timely (H : Handler remoteSig Exn σ) (c : DeepSeeClient) (w : σ) (clock clock' : Nat → Timestamp) : Prop :=
  ∀ d, Delivers H w d → Recent c clock d ∧ Recent c clock' d

theorem transparent_fetch {o : RemoteOp} {receive : Timestamp → remoteSig.Res o → Except Exn β}
    (hserve : ∀ v, (failing H).perform (.call o) v = serve (H.perform o v.state) v) (hsettled : Settled H o)
    (hf : f.Within p) (hreceive : ∀ a, (H.perform o w).1 = .ok a → receive (clock 0) a = receive (clock' 0) a) :
    Transparent H (callWithRetry p (remote o) >>= fun a => now >>= fun time => Prog.ofExcept (receive time a)) w f
      clock clock' := by
  obtain ⟨_, -, hexec⟩ := exec_fetch receive clock hserve hsettled hf
  obtain ⟨_, -, hexec'⟩ := exec_fetch receive clock' hserve hsettled (Failures.none_within p)
  rw [Transparent, hexec, hexec']
  exact ⟨bind_judged hreceive, rfl⟩

theorem transparent_retrying (hH : SettledService H) (hf : f.Within p) (hc : Timely H c w clock clock')
    {q : SyncProg α} (hq : q.Only (Asks c)) : Transparent H (retrying p q) w f clock clock' := by
  have hjudged : Judged H c clock (fun _ => clock' 0) w := by
    intro w' o a d hleads ha hd n
    obtain ⟨hrecent, hrecent'⟩ := hc d ⟨w', o, a, hleads, ha, hd⟩
    exact hrecent.validateFreshness hrecent' n 0
  have hjudged' : Judged H c clock' (fun _ => clock' 0) w := by
    intro w' o a d hleads ha hd n
    obtain ⟨-, hrecent'⟩ := hc d ⟨w', o, a, hleads, ha, hd⟩
    exact hrecent'.validateFreshness hrecent' n 0
  obtain ⟨_, _, h⟩ := exec_retrying hH hf hjudged hq
  obtain ⟨_, _, h'⟩ := exec_retrying hH (Failures.none_within p) hjudged' hq
  rw [Transparent, h, h']
  exact ⟨rfl, rfl⟩

end Transparency

section Calls

variable {m : DeepSeeSynchronizer}

theorem publish_asks (s : MembershipSnapshot) : (m.publishSnapshot s).Only (Asks m.client) := by
  rw [DeepSeeSynchronizer.publishSnapshot]
  split
  · exact .bind (.perform (S := syncSig) (o := .stageSnapshot s) trivial)
      fun staged => .perform (S := syncSig) (o := .commitSnapshot staged) trivial
  · exact .perform (S := syncSig) (o := .putSnapshot s) trivial

theorem publishDelta_asks (d : Delta) : (m.publishDelta d).Only (Asks m.client) := by
  rw [DeepSeeSynchronizer.publishDelta]
  split
  · exact .bind (.perform (S := syncSig) (o := .stageDelta d) trivial)
      fun staged => .perform (S := syncSig) (o := .commitSnapshot staged) trivial
  · exact .perform (S := syncSig) (o := .applyDelta d) trivial

theorem commitIf_asks {α : Type} {contextId watermark : String} {events : List (String × String)} {a : α} (b : Bool) :
    (do
      if b then
        commitState contextId watermark events
      pure a : SyncProg α).Only (Asks m.client) := by
  cases b with
  | false => exact trivial
  | true =>
    exact .bind (.perform (S := syncSig) (o := .commitState contextId watermark events) trivial) fun _ => trivial

theorem collectIdPagesLoop_asks (remaining : Nat) (members : List Int) (scores : Dict Int Float64)
    (dataAsOf : WireTime) (watermark : String) (cursor : Option String) :
    (m.collectIdPagesLoop remaining members scores dataAsOf watermark cursor).Only (Asks m.client) := by
  induction remaining generalizing members scores dataAsOf watermark cursor with
  | zero => cases cursor <;> trivial
  | succ remaining ih =>
    cases cursor with
    | none => trivial
    | some cursor =>
      exact .bind (.perform (S := syncSig) (o := .fetchSnapshot m.client (some cursor)) rfl) fun page => ih _ _ _ _ _

theorem bootstrap_asks (time : Timestamp) : (m.bootstrap time).Only (Asks m.client) := by
  rw [DeepSeeSynchronizer.bootstrap]
  apply Prog.Only.bind
  · rw [DeepSeeSynchronizer.ingest]
    refine .bind (.perform (S := syncSig) (o := .fetchSnapshot m.client none) rfl) fun page => ?_
    split
    · exact .bind .ofExcept fun _ => trivial
    · exact .bind (collectIdPagesLoop_asks _ _ _ _ _ _) fun _ => trivial
  · rintro ⟨members, scores, dataAsOf, watermark⟩
    apply Prog.Only.bind .ofExcept
    intro asOf
    exact .bind (publish_asks _) fun _ => commitIf_asks _

theorem fetchAllChangesLoop_asks (committed : String) (remaining : Nat) (events : List ChangeEvent)
    (cursor : Option String) :
    (m.fetchAllChangesLoop committed remaining events cursor).Only (Asks m.client) := by
  induction remaining generalizing events cursor with
  | zero => trivial
  | succ remaining ih =>
    refine .bind (.perform (S := syncSig) (o := .fetchChanges m.client committed cursor) rfl) fun batch => ?_
    split
    · trivial
    · exact ih _ _

theorem syncOnce_asks (time : Timestamp) : (m.syncOnce time).Only (Asks m.client) := by
  rw [DeepSeeSynchronizer.syncOnce]
  split
  · trivial
  · apply Prog.Only.bind (fetchAllChangesLoop_asks _ _ _ _)
    rintro ⟨events, dataAsOf⟩
    apply Prog.Only.bind .ofExcept
    intro filtered
    split
    · trivial
    · apply Prog.Only.bind .ofExcept
      intro ordered
      rw [DeepSeeSynchronizer.applyOrdered]
      refine .bind .ofExcept fun folded => .bind .ofExcept fun watermark => .bind .ofExcept fun asOf => ?_
      exact .bind (publishDelta_asks _) fun _ => commitIf_asks _

end Calls

section Mock

variable {α β : Type} {s : MockDeepSeeService} {p : RetryPolicy} {c : DeepSeeClient} {w : World} {f : Failures}

/-- The mock service, and the store and the state repository beside it. -/
def mockRemote : Handler remoteSig Exn World where
  perform
    | .snapshot B cursor token, w => (w.service.snapshot B cursor token, w)
    | .changes since cursor token, w => (w.service.changes since cursor token, w)
    | .cases request token, w => (Cases.cases w.service request token, w)
    | .store o, w => World.perform o w
  fault _ := none

theorem failed_bind {x : Except Exn α} {k : α → Except Exn β} (hx : failed x = false)
    (hk : ∀ a, failed (k a) = false) : failed (x >>= k) = false := by
  cases x with
  | ok a => exact hk a
  | error e =>
    cases e with
    | deepSee d => exact hx
    | _ => rfl

theorem failed_enterCall (token : Option String) : failed (s.enterCall token) = false := by
  rw [MockDeepSeeService.enterCall]
  split <;> rfl

theorem failed_intOf (text : String) : failed (intOf text) = false := by
  rw [intOf]
  split <;> rfl

theorem failed_offsetOf (cursor : Option String) : failed (MockDeepSeeService.offsetOf cursor) = false := by
  cases cursor with
  | none => rfl
  | some cursor => exact failed_intOf cursor

theorem failed_bitmapSnapshotPage (B : BitMap64) : failed (s.bitmapSnapshotPage B) = false := by
  apply failed_bind
  · rw [MockDeepSeeService.bitmapPayload]
    split
    · rfl
    · refine failed_bind ?_ (fun _ => rfl)
      rw [BitMap64.ofIds]
      split <;> rfl
  · exact fun _ => rfl

theorem failed_filterM {γ : Type} {k : γ → Except Exn Bool} (hk : ∀ a, failed (k a) = false) (xs : List γ) :
    failed (xs.filterM k) = false := by
  have haux : ∀ acc, failed (xs.filterAuxM k acc) = false := by
    induction xs with
    | nil => exact fun _ => rfl
    | cons a xs ih => exact fun acc => failed_bind (hk a) (fun b => ih _)
  exact failed_bind (haux []) (fun _ => rfl)

theorem failed_pending (since : Int) : failed (s.pending since) = false := by
  rw [MockDeepSeeService.pending]
  split
  · rfl
  · exact failed_bind (failed_filterM (fun e => failed_bind (failed_intOf _) (fun _ => rfl)) _) (fun _ => rfl)

theorem failed_applyFilters (filters : List (String × FilterValue)) (rows : List Row) :
    failed (applyFilters filters rows) = false := by
  induction filters generalizing rows with
  | nil => rfl
  | cons f filters ih =>
    obtain ⟨key, value⟩ := f
    refine failed_bind ?_ (fun rows => ih rows)
    cases value <;> rfl

theorem failed_selected (request : CaseRequest) : failed (selected s request) = false := by
  apply failed_bind
  · rw [CaseRequest.requestedIds]
    split
    · rfl
    · split <;> rfl
  · exact fun _ => failed_applyFilters _ _

theorem mockRemote_settled : SettledService mockRemote where
  snapshot B cursor token w := by
    apply failed_bind (failed_enterCall token)
    intro _
    split
    · exact failed_bitmapSnapshotPage B
    · exact failed_bind (failed_offsetOf cursor) (fun _ => rfl)
  changes since cursor token w :=
    failed_bind (failed_enterCall token) fun _ => failed_bind (failed_intOf since) fun _ =>
      failed_bind (failed_pending _) fun _ => failed_bind (failed_offsetOf cursor) fun _ => rfl
  cases request token w := by
    apply failed_bind (failed_enterCall token)
    intro _
    by_cases hresource : request.resource ∉ validResources
    · simp only [if_pos hresource]
      rfl
    · simp only [if_neg hresource]
      exact failed_bind (failed_selected request) (fun _ => rfl)

theorem leads_mock {w' : World} (h : Leads mockRemote w w') : w'.service = w.service ∧ w'.clock = w.clock := by
  induction h with
  | refl => exact ⟨rfl, rfl⟩
  | tail _ hstep ih =>
    obtain ⟨o, rfl⟩ := hstep
    cases o with
    | store o => exact ⟨(World.perform_service o _).trans ih.1, (World.perform_clock o _).trans ih.2⟩
    | _ => exact ih

/-- Over the mock service, with its failures outlasted by the retries and a clock that stands still,
the synchronizer does what it does where its calls go through. -/
theorem exec_retrying_world (hf : f.Within p) {q : SyncProg α} (hq : q.Only (Asks c)) :
    ∃ f' clock', (failing mockRemote).exec (retrying p q) ⟨w, f, fun _ => w.clock⟩ =
      ((World.handler.exec q w).1, ⟨(World.handler.exec q w).2, f', clock'⟩) := by
  have hperform : ∀ o w, (unfailing mockRemote World.clock).perform o w = World.handler.perform o w := by
    intro o w
    cases o with
    | fetchSnapshot c cursor => exact congrArg (·, w) (fetchSnapshot_eq w.service cursor).symm
    | fetchChanges c since cursor => exact congrArg (·, w) (fetchChanges_eq w.service since cursor).symm
    | _ => rfl
  have hjudged : Judged mockRemote c (fun _ => w.clock) World.clock w := by
    intro w' o a d hleads _ _ _
    rw [(leads_mock hleads).2]
  obtain ⟨f', clock', hexec⟩ := exec_retrying mockRemote_settled hf hjudged hq
  rw [Handler.exec_congr hperform] at hexec
  exact ⟨f', clock', hexec⟩

theorem mock_delivers {d : WireTime} (h : Delivers mockRemote w d) : d = w.service.dataAsOf := by
  obtain ⟨w', o, a, hleads, ha, hd⟩ := h
  rw [← (leads_mock hleads).1]
  cases o with
  | snapshot B cursor token =>
    obtain rfl := Option.some.inj hd
    obtain ⟨_, -, ha⟩ := bind_eq_ok.mp ha
    split at ha
    · obtain ⟨payload, -, ha⟩ := bind_eq_ok.mp ha
      obtain rfl := Except.ok.inj ha
      rfl
    · obtain ⟨offset, -, ha⟩ := bind_eq_ok.mp ha
      obtain rfl := Except.ok.inj ha
      rfl
  | changes since cursor token =>
    obtain rfl := Option.some.inj hd
    obtain ⟨_, -, ha⟩ := bind_eq_ok.mp ha
    obtain ⟨_, -, ha⟩ := bind_eq_ok.mp ha
    obtain ⟨_, -, ha⟩ := bind_eq_ok.mp ha
    obtain ⟨_, -, ha⟩ := bind_eq_ok.mp ha
    obtain rfl := Except.ok.inj ha
    rfl
  | cases request token =>
    obtain rfl := Option.some.inj hd
    obtain ⟨_, -, ha⟩ := bind_eq_ok.mp ha
    by_cases hresource : request.resource ∉ validResources
    · rw [if_pos hresource] at ha
      cases ha
    · rw [if_neg hresource] at ha
      obtain ⟨rows, -, ha⟩ := bind_eq_ok.mp ha
      obtain rfl := Except.ok.inj ha
      rfl
  | store o => cases hd

end Mock

section Sample

def samplePolicy : RetryPolicy := ⟨2, 400, 500⟩

def sampleFailures : List DeepSeeError :=
  [⟨.timeout, ⟨"TIMEOUT", "", true, none⟩⟩, ⟨.rateLimit, ⟨"RATE_LIMITED", "", true, some 100⟩⟩]

def sampleScript (i : Nat) : Except Exn Nat :=
  match sampleFailures[i]? with
  | some d => .error (.deepSee d)
  | none => .ok i

def sampleWorld : World := ⟨sampleService ∅ 1, none, ⟨[], []⟩, baseTime⟩

def agedSynchronizer (age : Int) : DeepSeeSynchronizer :=
  { sampleSynchronizer with client := { sampleSynchronizer.client with maxDataAge := some age } }

/-- The clock where a response comes a fifth of a second after the data, and where two sleeps come
before it. -/
def promptClock (_ : Nat) : Timestamp := baseTime + 200000

def sleptClock (_ : Nat) : Timestamp := baseTime + 700000

theorem sampleFailures_outlasted : Outlasted samplePolicy sampleFailures where
  length := by decide
  retryable := by decide
  delays i d h := by
    have hi : i < sampleFailures.length := (List.getElem?_eq_some_iff.mp h).1
    obtain rfl | rfl : i = 0 ∨ i = 1 := by
      have hlength : sampleFailures.length = 2 := rfl
      omega
    · obtain rfl := Option.some.inj h
      exact ⟨by decide +kernel, by decide +kernel⟩
    · obtain rfl := Option.some.inj h
      exact ⟨by decide +kernel, by decide +kernel⟩

theorem sampleFailures_within : Failures.Within samplePolicy ⟨sampleFailures, fun _ => sampleFailures⟩ :=
  ⟨sampleFailures_outlasted, fun _ => sampleFailures_outlasted⟩

theorem sampleTimely : Timely mockRemote (agedSynchronizer second).client sampleWorld sleptClock promptClock := by
  intro d hd
  obtain rfl := mock_delivers hd
  have hbound : ∀ clock : Nat → Timestamp, (∀ n, clock n - baseTime ≤ second) →
      Recent (agedSynchronizer second).client clock sampleWorld.service.dataAsOf := by
    intro clock hclock bound hage t ht n
    obtain rfl := Option.some.inj hage
    obtain rfl := Except.ok.inj ht
    exact hclock n
  constructor
  · exact hbound sleptClock fun _ => (by decide : baseTime + 700000 - baseTime ≤ second)
  · exact hbound promptClock fun _ => (by decide : baseTime + 200000 - baseTime ≤ second)

theorem sampleScript_delays (j : Nat) : HasDelays samplePolicy sampleScript j := by
  intro i _ d h
  apply sampleFailures_outlasted.delays i d
  rw [sampleScript] at h
  cases hfailure : sampleFailures[i]? with
  | none =>
    rw [hfailure] at h
    cases h
  | some d' =>
    rw [hfailure] at h
    cases h
    rfl

def endlessDelay : DeepSeeError := ⟨.rateLimit, ⟨"RATE_LIMITED", "", true, some (10 ^ 309)⟩⟩

def endlessScript : Nat → Except Exn Nat
  | 0 => .error (.deepSee endlessDelay)
  | i + 1 => .ok i

end Sample

end ContextqlServer.Deepsee.Retry
