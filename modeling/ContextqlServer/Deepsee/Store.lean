import ContextqlServer.Db.Synchronization
import ContextqlServer.Deepsee.Client
import ContextqlServer.Lib.Rely

namespace ContextqlServer.Deepsee.Store

open ContextqlServer.Lib.Effect ContextqlServer.Lib.Mapping ContextqlServer.Lib.Python
open ContextqlServer.Lib.Rely
open ContextqlServer.Db.Synchronization
open ContextqlServer.Deepsee.Models ContextqlServer.Deepsee.MockService
open ContextqlServer.Deepsee.Client

/-- The published snapshot of one context in the external membership store. -/
structure MembershipSnapshot where
  members : Finset Int
  scores : Dict Int Float64
  computedAt : Timestamp
  dataAsOf : Timestamp
  sourceWatermark : String

/-- The keyword arguments of `stage_delta` and `apply_delta`. -/
structure Delta where
  additions : List Int
  removals : List Int
  scoreChanges : Dict Int Float64
  computedAt : Timestamp
  dataAsOf : Timestamp
  sourceWatermark : String

def MembershipSnapshot.applyDelta (s : MembershipSnapshot) (d : Delta) : MembershipSnapshot :=
  let members := s.members \ d.removals.toFinset ∪ d.additions.toFinset
  { members
    scores := collect (d.scoreChanges ∪ s.scores).lookup (sorted members)
    computedAt := d.computedAt
    dataAsOf := d.dataAsOf
    sourceWatermark := d.sourceWatermark }

/-- A publication that has been staged; a delta is applied to the snapshot that
is current when it is committed. -/
inductive Staged where
  | snapshot (s : MembershipSnapshot)
  | delta (d : Delta)

/-- The snapshot that a publication makes current. -/
def Staged.over (store : Option MembershipSnapshot) : Staged → Option MembershipSnapshot
  | .snapshot s => some s
  | .delta d => store.map (fun s => s.applyDelta d)

/-- What the synchronizer asks of its client, its store and its state repository. -/
inductive SyncOp where
  | fetchSnapshot (client : DeepSeeClient) (cursor : Option String)
  | fetchChanges (client : DeepSeeClient) (sinceWatermark : String) (cursor : Option String)
  | stageSnapshot (s : MembershipSnapshot)
  | stageDelta (d : Delta)
  | commitSnapshot (staged : Staged)
  | putSnapshot (s : MembershipSnapshot)
  | applyDelta (d : Delta)
  | commitState (contextId watermark : String) (eventWatermarks : List (String × String))

def syncSig : Sig where
  Op := SyncOp
  Res
    | .fetchSnapshot _ _ => SnapshotPage
    | .fetchChanges _ _ _ => ChangeBatch
    | .stageSnapshot _ | .stageDelta _ => Staged
    | .commitSnapshot _ | .putSnapshot _ | .applyDelta _ => MembershipSnapshot
    | .commitState _ _ _ => Unit

abbrev SyncProg := Prog syncSig Exn

def fetchSnapshot (client : DeepSeeClient) (cursor : Option String) : SyncProg SnapshotPage :=
  Prog.perform (S := syncSig) (.fetchSnapshot client cursor)

def fetchChanges (client : DeepSeeClient) (sinceWatermark : String) (cursor : Option String) :
    SyncProg ChangeBatch :=
  Prog.perform (S := syncSig) (.fetchChanges client sinceWatermark cursor)

def stageSnapshot (s : MembershipSnapshot) : SyncProg Staged :=
  Prog.perform (S := syncSig) (.stageSnapshot s)

def stageDelta (d : Delta) : SyncProg Staged :=
  Prog.perform (S := syncSig) (.stageDelta d)

def commitSnapshot (staged : Staged) : SyncProg MembershipSnapshot :=
  Prog.perform (S := syncSig) (.commitSnapshot staged)

def putSnapshot (s : MembershipSnapshot) : SyncProg MembershipSnapshot :=
  Prog.perform (S := syncSig) (.putSnapshot s)

def applyDelta (d : Delta) : SyncProg MembershipSnapshot :=
  Prog.perform (S := syncSig) (.applyDelta d)

def commitState (contextId watermark : String) (eventWatermarks : List (String × String)) :
    SyncProg Unit :=
  Prog.perform (S := syncSig) (.commitState contextId watermark eventWatermarks)

/-- Everything outside the synchronizer: the source, the snapshot its context has
in the store, the tables of the state repository, and what its client's clock shows. -/
structure World where
  service : MockDeepSeeService
  store : Option MembershipSnapshot
  durable : SyncTables
  clock : Timestamp

namespace World

def publish (w : World) (staged : Staged) : Except Exn MembershipSnapshot × World :=
  match staged.over w.store with
  | some s => (.ok s, { w with store := some s })
  | none => (.error (.external "no snapshot to apply a delta to"), w)

def perform : (o : SyncOp) → World → Except Exn (syncSig.Res o) × World
  | .fetchSnapshot client cursor, w => (client.fetchSnapshot w.clock w.service cursor, w)
  | .fetchChanges client since cursor, w => (client.fetchChanges w.clock w.service since cursor, w)
  | .stageSnapshot s, w => (.ok (.snapshot s), w)
  | .stageDelta d, w => (.ok (.delta d), w)
  | .commitSnapshot staged, w => w.publish staged
  | .putSnapshot s, w => w.publish (.snapshot s)
  | .applyDelta d, w => w.publish (.delta d)
  | .commitState contextId watermark events, w =>
    (.ok (), { w with durable := w.durable.commit contextId watermark events })

/-- Every operation may fail, and one that fails has done nothing. -/
def handler : Handler syncSig Exn World where
  perform := perform
  fault _ := some id

/-- Surroundings in which nothing fails and only the clock goes on, with a reading for each
operation that a call makes. -/
def ticking (clock : Nat → Timestamp) : Handler syncSig Exn (World × Nat) where
  perform o v :=
    let answer := perform o { v.1 with clock := clock v.2 }
    (answer.1, { answer.2 with clock := v.1.clock }, v.2 + 1)
  fault _ := none

theorem perform_service (o : SyncOp) (w : World) : (perform o w).2.service = w.service := by
  have hpub : ∀ staged, (w.publish staged).2.service = w.service := by
    intro staged
    rw [publish]
    split <;> rfl
  cases o with
  | commitSnapshot staged => exact hpub staged
  | putSnapshot s => exact hpub _
  | applyDelta d => exact hpub _
  | _ => rfl

theorem perform_clock (o : SyncOp) (w : World) : (perform o w).2.clock = w.clock := by
  have hpub : ∀ staged, (w.publish staged).2.clock = w.clock := by
    intro staged
    rw [publish]
    split <;> rfl
  cases o with
  | commitSnapshot staged => exact hpub staged
  | putSnapshot s => exact hpub _
  | applyDelta d => exact hpub _
  | _ => rfl

/-- With a clock that stands still it is the plain execution. -/
theorem exec_ticking_const {α : Type} (p : SyncProg α) (w : World) (n : Nat) :
    ∃ m, (ticking (fun _ => w.clock)).exec p (w, n) = ((handler.exec p w).1, ((handler.exec p w).2, m)) := by
  induction p generalizing w n with
  | pure a => exact ⟨n, rfl⟩
  | throw e => exact ⟨n, rfl⟩
  | call o k ih =>
    have hclock := perform_clock o w
    obtain ⟨m, h⟩ := ih (perform o w).1 (perform o w).2 (n + 1)
    refine ⟨m, ?_⟩
    rw [hclock] at h
    rw [Handler.exec, Handler.exec]
    change (ticking fun _ => w.clock).exec (k (perform o w).1)
      ({ (perform o w).2 with clock := w.clock }, n + 1) = _
    rw [← hclock] at h ⊢
    exact h

/-- The clock stands still during a call that nothing else comes between. -/
theorem exec_clock {α : Type} {p : SyncProg α} {w w' : World} {out : Except Exn α}
    (h : handler.exec p w = (out, w')) : w'.clock = w.clock := by
  induction p generalizing w with
  | pure a =>
    cases h
    rfl
  | throw e =>
    cases h
    rfl
  | call o k ih => exact (ih _ h).trans (perform_clock o w)

end World

/-- Any operation may fail; one that goes through respects `G`. -/
def Guarded (G : SyncOp → World → Prop) : Answering syncSig Exn World := fun o w r w' =>
  ∃ failure, World.handler.answer o failure w = some (r, w') ∧ (failure = none → G o w)

theorem Guarded.of_faulty (o : SyncOp) (w : World) (r : Except Exn (syncSig.Res o)) (w' : World)
    (h : World.handler.Faulty o w r w') : Guarded (fun _ _ => True) o w r w' := by
  obtain ⟨failure, h⟩ := h
  exact ⟨failure, h, fun _ => trivial⟩

/-- The rule for a call with nothing failing and the source at rest. -/
theorem exec_keeps {α : Type} {I : World → Prop} {Q : Except Exn α → World → Prop}
    {p : SyncProg α} {w w' : World} {out : Except Exn α}
    (h : Keeps (Guarded (fun _ _ => True)) Eq I Q p w) (hx : World.handler.exec p w = (out, w')) :
    Q out w' :=
  h.runs Guarded.of_faulty (fun _ _ hw => hw) (fun _ _ hw hI => hw ▸ hI)
    (Runs.of_exec (fun _ => rfl) hx)

section Rules

variable {G : SyncOp → World → Prop} {R : World → World → Prop} {I : World → Prop} {w : World}

theorem perform_keeps {o : SyncOp} {Q : Except Exn (syncSig.Res o) → World → Prop} (hI : I w)
    (hok : ∀ w₁, R w w₁ → I w₁ → G o w₁ → Q (World.perform o w₁).1 (World.perform o w₁).2)
    (herr : ∀ e w₁, R w w₁ → I w₁ → Q (.error e) w₁) :
    Keeps (Guarded G) R I Q (Prog.perform (S := syncSig) o) w := by
  refine .perform hI ?_
  intro w₁ hw hI₁ r w₂ ⟨failure, hA, hG⟩
  cases failure with
  | none =>
    obtain ⟨rfl, rfl⟩ := Prod.ext_iff.mp (Option.some.inj hA)
    exact hok w₁ hw hI₁ (hG rfl)
  | some e =>
    obtain ⟨rfl, rfl⟩ := Prod.ext_iff.mp (Option.some.inj hA)
    exact herr e w₁ hw hI₁

theorem fetchSnapshot_keeps {client : DeepSeeClient} {cursor : Option String}
    {Q : Except Exn SnapshotPage → World → Prop} (hI : I w)
    (hok : ∀ page w₁, R w w₁ → I w₁ → client.fetchSnapshot w₁.clock w₁.service cursor = .ok page →
      Q (.ok page) w₁)
    (herr : ∀ e w₁, R w w₁ → I w₁ → Q (.error e) w₁) :
    Keeps (Guarded G) R I Q (Store.fetchSnapshot client cursor) w := by
  apply perform_keeps (o := .fetchSnapshot client cursor) hI
  · intro w₁ hw hI₁ _
    cases h : client.fetchSnapshot w₁.clock w₁.service cursor with
    | ok page => simpa only [World.perform, h] using hok page w₁ hw hI₁ h
    | error e => simpa only [World.perform, h] using herr e w₁ hw hI₁
  · exact herr

theorem fetchChanges_keeps {client : DeepSeeClient} {since : String} {cursor : Option String}
    {Q : Except Exn ChangeBatch → World → Prop} (hI : I w)
    (hok : ∀ batch w₁, R w w₁ → I w₁ → client.fetchChanges w₁.clock w₁.service since cursor = .ok batch →
      Q (.ok batch) w₁)
    (herr : ∀ e w₁, R w w₁ → I w₁ → Q (.error e) w₁) :
    Keeps (Guarded G) R I Q (Store.fetchChanges client since cursor) w := by
  apply perform_keeps (o := .fetchChanges client since cursor) hI
  · intro w₁ hw hI₁ _
    cases h : client.fetchChanges w₁.clock w₁.service since cursor with
    | ok batch => simpa only [World.perform, h] using hok batch w₁ hw hI₁ h
    | error e => simpa only [World.perform, h] using herr e w₁ hw hI₁
  · exact herr

section Publication

variable {Q : Except Exn MembershipSnapshot → World → Prop}

theorem publish_ends {staged : Staged} (w₁ : World)
    (hok : ∀ s, staged.over w₁.store = some s → Q (.ok s) { w₁ with store := some s })
    (herr : ∀ e, Q (.error e) w₁) : Q (w₁.publish staged).1 (w₁.publish staged).2 := by
  cases h : staged.over w₁.store with
  | some s => simpa only [World.publish, h] using hok s h
  | none => simpa only [World.publish, h] using herr _

theorem commitSnapshot_keeps {staged : Staged} (hI : I w)
    (hok : ∀ s w₁, R w w₁ → I w₁ → G (.commitSnapshot staged) w₁ →
      staged.over w₁.store = some s → Q (.ok s) { w₁ with store := some s })
    (herr : ∀ e w₁, R w w₁ → I w₁ → Q (.error e) w₁) :
    Keeps (Guarded G) R I Q (commitSnapshot staged) w := by
  apply perform_keeps (o := .commitSnapshot staged) hI
  · intro w₁ hw hI₁ hG
    exact publish_ends w₁ (fun s => hok s w₁ hw hI₁ hG) (fun e => herr e w₁ hw hI₁)
  · exact herr

theorem publishSnapshot_keeps {stages : Bool} {s : MembershipSnapshot} (hI : I w)
    (htrans : ∀ w w' w'', R w w' → R w' w'' → R w w'')
    (hok : ∀ w₁, R w w₁ → I w₁ →
      G (.commitSnapshot (.snapshot s)) w₁ ∨ G (.putSnapshot s) w₁ →
      Q (.ok s) { w₁ with store := some s })
    (herr : ∀ e w₁, R w w₁ → I w₁ → Q (.error e) w₁) :
    Keeps (Guarded G) R I Q
      (if stages then do
        let staged ← stageSnapshot s
        commitSnapshot staged
      else putSnapshot s) w := by
  split
  · refine .bind (perform_keeps (o := .stageSnapshot s) hI ?_ herr)
    intro w₁ hw hI₁ _
    apply commitSnapshot_keeps hI₁
    · rintro s' w₂ hw₂ hI₂ hG ⟨⟩
      exact hok w₂ (htrans _ _ _ hw hw₂) hI₂ (.inl hG)
    · exact fun e w₂ hw₂ hI₂ => herr e w₂ (htrans _ _ _ hw hw₂) hI₂
  · apply perform_keeps (o := .putSnapshot s) hI
    · exact fun w₁ hw hI₁ hG => hok w₁ hw hI₁ (.inr hG)
    · exact herr

theorem publishDelta_keeps {stages : Bool} {d : Delta} (hI : I w)
    (htrans : ∀ w w' w'', R w w' → R w' w'' → R w w'')
    (hok : ∀ s w₁, R w w₁ → I w₁ → G (.commitSnapshot (.delta d)) w₁ ∨ G (.applyDelta d) w₁ →
      w₁.store = some s → Q (.ok (s.applyDelta d)) { w₁ with store := some (s.applyDelta d) })
    (herr : ∀ e w₁, R w w₁ → I w₁ → Q (.error e) w₁) :
    Keeps (Guarded G) R I Q
      (if stages then do
        let staged ← stageDelta d
        commitSnapshot staged
      else applyDelta d) w := by
  split
  · refine .bind (perform_keeps (o := .stageDelta d) hI ?_ herr)
    intro w₁ hw hI₁ _
    apply commitSnapshot_keeps hI₁
    · intro s' w₂ hw₂ hI₂ hG hs'
      obtain ⟨s, hs, rfl⟩ := Option.map_eq_some_iff.mp hs'
      exact hok s w₂ (htrans _ _ _ hw hw₂) hI₂ (.inl hG) hs
    · exact fun e w₂ hw₂ hI₂ => herr e w₂ (htrans _ _ _ hw hw₂) hI₂
  · apply perform_keeps (o := .applyDelta d) hI
    · intro w₁ hw hI₁ hG
      apply publish_ends w₁
      · intro s' hs'
        obtain ⟨s, hs, rfl⟩ := Option.map_eq_some_iff.mp hs'
        exact hok s w₁ hw hI₁ (.inr hG) hs
      · exact fun e => herr e w₁ hw hI₁
    · exact herr

end Publication

theorem commitState_keeps {contextId watermark : String} {events : List (String × String)}
    {Q : Except Exn Unit → World → Prop} (hI : I w)
    (hok : ∀ w₁, R w w₁ → I w₁ → G (.commitState contextId watermark events) w₁ →
      Q (.ok ()) { w₁ with durable := w₁.durable.commit contextId watermark events })
    (herr : ∀ e w₁, R w w₁ → I w₁ → Q (.error e) w₁) :
    Keeps (Guarded G) R I Q (commitState contextId watermark events) w :=
  perform_keeps (o := .commitState contextId watermark events) hI hok herr

/-- What is left to show of a call that has published: it ends here, or with
the commit where there is a state repository. -/
def Commits (G : SyncOp → World → Prop) (R : World → World → Prop) (I : World → Prop) {α : Type}
    (Q : Except Exn α → World → Prop) (stateRepository : Bool) (contextId watermark : String)
    (events : List (String × String)) (a : α) (w : World) : Prop :=
  if stateRepository then
    I w ∧ ∀ w₁, R w w₁ → I w₁ → (∀ e, Q (.error e) w₁) ∧
      (G (.commitState contextId watermark events) w₁ →
        Q (.ok a) { w₁ with durable := w₁.durable.commit contextId watermark events })
  else Q (.ok a) w

theorem Commits.keeps {α : Type} {Q : Except Exn α → World → Prop} {stateRepository : Bool}
    {contextId watermark : String} {events : List (String × String)} {a : α}
    (h : Commits G R I Q stateRepository contextId watermark events a w) :
    Keeps (Guarded G) R I Q
      (do
        if stateRepository then
          commitState contextId watermark events
        pure a) w := by
  rw [Commits] at h
  split at h
  · rename_i hrepo
    simp only [if_pos hrepo]
    refine .bind (commitState_keeps h.1 ?_ ?_)
    · exact fun w₁ hw₁ hI₁ hG => (h.2 w₁ hw₁ hI₁).2 hG
    · exact fun e w₁ hw₁ hI₁ => (h.2 w₁ hw₁ hI₁).1 e
  · rename_i hrepo
    simp only [if_neg hrepo]
    exact h

end Rules

end ContextqlServer.Deepsee.Store
