import ContextqlServer.Deepsee.Bootstrap
import ContextqlServer.Deepsee.Machine

namespace ContextqlServer.Deepsee.Contiguous

open ContextqlServer.Lib.Effect ContextqlServer.Lib.Log ContextqlServer.Lib.Mapping
open ContextqlServer.Lib.Python ContextqlServer.Lib.Rely
open ContextqlServer.Db.Synchronization
open ContextqlServer.Deepsee.Models ContextqlServer.Deepsee.MockService
open ContextqlServer.Deepsee.Store ContextqlServer.Deepsee.Synchronizer
open ContextqlServer.Deepsee.History ContextqlServer.Deepsee.Fold ContextqlServer.Deepsee.Batch
open ContextqlServer.Deepsee.Bootstrap ContextqlServer.Deepsee.Machine

/-- A memory without a watermark, or with one that a log of `n` events has reached. -/
def Remembers (m : DeepSeeSynchronizer) (n : Nat) : Prop :=
  m.committedWatermark = none ∧ m.seenEventIds = ∅ ∨ ∃ b, b ≤ n ∧ Bounded m b

/-- The source may change between any two operations; the repository does not. -/
structure Moving (initial : Dict Int Float64) (w w' : World) : Prop where
  grows : Extends w.service w'.service
  coherent : Coherent initial w.service → Coherent initial w'.service
  durable : w'.durable = w.durable

def bounding (initial : Dict Int Float64) (contextId : String) : Discipline where
  moving := True
  G _ _ := True
  I w := Coherent initial w.service ∧ 0 < w.service.pageSize
  M m w := m.contextId = contextId ∧
    (m.stateRepository = true →
      w.durable.load contextId = (m.committedWatermark, m.seenEventIds)) ∧
    Remembers m w.service.events.length
  R _ := Moving initial

variable {initial : Dict Int Float64} {contextId : String} {w w' w'' : World}
  {self self' : DeepSeeSynchronizer}

namespace Moving

theorem refl (w : World) : Moving initial w w := ⟨.refl _, id, rfl⟩

theorem trans (h : Moving initial w w') (h' : Moving initial w' w'') : Moving initial w w'' :=
  ⟨h.grows.trans h'.grows, h'.coherent ∘ h.coherent, h'.durable.trans h.durable⟩

theorem world (h : Moving initial w w') (hI : (bounding initial contextId).I w) :
    (bounding initial contextId).I w' := by
  refine ⟨h.coherent hI.1, ?_⟩
  rw [h.grows.pageSize]
  exact hI.2

theorem memory (h : Moving initial w w') (hM : (bounding initial contextId).M self w) :
    (bounding initial contextId).M self w' := by
  refine ⟨hM.1, fun hrepo => ?_, hM.2.2.imp id ?_⟩
  · rw [h.durable]
    exact hM.2.1 hrepo
  · rintro ⟨b, hb, hbound⟩
    exact ⟨b, hb.trans h.grows.length_le, hbound⟩

end Moving

theorem commits_bounding {α : Type} {Q : Except Exn α → World → Prop} {a : α}
    {s : MembershipSnapshot} {watermark : String} {events : List (String × String)}
    (hI : (bounding initial contextId).I w) (hM : (bounding initial contextId).M self w)
    (hcontext : self'.contextId = self.contextId)
    (hrepo : self'.stateRepository = self.stateRepository)
    (hcommitted : self'.committedWatermark = some watermark)
    (hseen : self'.seenEventIds = self.seenEventIds ∪ (events.map Prod.fst).toFinset)
    (hrem : Remembers self' w.service.events.length)
    (hok : ∀ w', (bounding initial contextId).I w' → (bounding initial contextId).M self' w' →
      Q (.ok a) w')
    (herr : ∀ e w', (bounding initial contextId).I w' → (bounding initial contextId).M self w' →
      Q (.error e) w') :
    Commits (fun _ _ => True) (Moving initial)
      (fun w => (bounding initial contextId).I w ∧ (bounding initial contextId).M self w)
      Q self.stateRepository self.contextId watermark events a { w with store := some s } := by
  rw [Commits]
  split
  · rename_i h
    refine ⟨⟨hI, hM⟩, fun w₂ hw₂ hI₂ => ⟨fun e => herr e w₂ hI₂.1 hI₂.2, fun _ => ?_⟩⟩
    apply hok
    · exact hI₂.1
    · refine ⟨hcontext.trans hM.1, fun _ => ?_, ?_⟩
      · rw [hM.1, SyncTables.commit_load, hI₂.2.2.1 h, hcommitted, hseen]
      · apply hrem.imp_right
        rintro ⟨b, hb, hbound⟩
        exact ⟨b, hb.trans hw₂.grows.length_le, hbound⟩
  · rename_i h
    exact hok _ hI ⟨hcontext.trans hM.1, fun hr => absurd (hrepo ▸ hr) h, hrem⟩

theorem syncOnce_runs (now : Timestamp) (hI : (bounding initial contextId).I w)
    (hM : (bounding initial contextId).M self w) :
    (bounding initial contextId).Runs self .syncOnce (Kind.syncOnce.prog self now) w := by
  refine .bind ?_
  obtain ⟨hnone, hseen⟩ | ⟨b, hlen, hb⟩ := hM.2.2
  · rw [DeepSeeSynchronizer.syncOnce, hnone]
    exact ⟨hI, hM⟩
  · apply syncOnce_keeps Moving.refl (fun _ _ _ => Moving.trans)
      (fun _ _ h => h.grows) (fun _ h => h.1) hb hlen ⟨hI, hM⟩
    · exact fun _ _ _ h _ => h
    · intro n ordered f s w₁ dataAsOf _ hst hf hw₁ hI₁ _ d _ _ report
      have hcontext : (remember self ordered (watermarkOf n)).contextId = self.contextId := rfl
      apply commits_bounding hI₁.1 hI₁.2 hcontext rfl rfl
      · rw [eventWatermarks_ids]
        rfl
      · exact .inr ⟨n, hst.le, hb.remember hI₁.1.1 hst⟩
      · exact fun _ hI hM => ⟨hI, hM⟩
      · exact fun _ _ hI hM => ⟨hI, hM⟩
    · exact fun _ _ _ h => h

theorem bootstrap_runs (now : Timestamp) (hI : (bounding initial contextId).I w)
    (hM : (bounding initial contextId).M self w) :
    (bounding initial contextId).Runs self .bootstrap (Kind.bootstrap.prog self now) w := by
  refine .bind (bootstrap_keeps (P := fun s w₁ => Moving initial w w₁ ∧ ∃ n,
    w.service.events.length ≤ n ∧ n ≤ w₁.service.events.length ∧ s.sourceWatermark = watermarkOf n)
    (fun _ _ _ => Moving.trans) ?_ ?_ (fun _ _ h => h))
  · apply ingest_watermark (R := Moving initial) (fun _ _ _ => Moving.trans)
      (fun _ _ h => h.grows) (fun _ h => h.1.1) ⟨hI, hM⟩
    · exact fun n w₁ hw₁ hI₁ hn hn' _ _ _ => ⟨hI₁, fun _ _ => ⟨hw₁, n, hn, hn', rfl⟩⟩
    · exact fun _ _ _ h => h
  · intro s w₁ w₂ ⟨hw₁, n, hn, hn', hwm⟩ hw₂ hI₂ _
    have hcontext : { self with committedWatermark := some s.sourceWatermark }.contextId =
        self.contextId := rfl
    apply commits_bounding hI₂.1 hI₂.2 hcontext rfl rfl (by simp)
    · refine .inr ⟨n, hn'.trans hw₂.grows.length_le, congrArg some hwm, ?_⟩
      obtain ⟨-, hseen⟩ | ⟨b, hlen, hb⟩ := hM.2.2
      · rw [hseen]
        exact fun _ h => absurd h (by simp)
      · intro id hid
        obtain ⟨j, h₁, hj, rfl⟩ := hb.seen id hid
        exact ⟨j, h₁, (hj.trans hlen).trans hn, rfl⟩
    · exact fun _ hI hM => ⟨hI, hM⟩
    · exact fun _ _ hI hM => ⟨hI, hM⟩

theorem bounding_sound : (bounding initial contextId).Sound Unit where
  trans _ _ _ _ := Moving.trans
  refl _ := Moving.refl
  rely _ _ _ := Moving.world
  relyM _ _ _ _ := Moving.memory
  mutate kind w m s _ hI hm := by
    exact ⟨Mutates.extends_mutate hm, fun hc => hc.mutate hm, rfl⟩
  tick _ _ _ _ := ⟨.refl _, id, rfl⟩
  call kind m now w hI hM := by
    cases kind with
    | bootstrap => exact bootstrap_runs now hI hM
    | syncOnce => exact syncOnce_runs now hI hM
  restart m w hI hM := by
    by_cases h : m.stateRepository = true
    · rw [DeepSeeSynchronizer.init_eq h (by rw [hM.1, hM.2.1 h])]
      exact hM
    · rw [DeepSeeSynchronizer.init, if_neg h]
      exact ⟨hM.1, fun hr => absurd hr h, .inl ⟨rfl, rfl⟩⟩
  others _ _ h := absurd rfl h

/-- Mutations of the source between two operations, while time passes. -/
def SourceMoves (w w' : World) : Prop :=
  ∃ s now, Mutates w.service s ∧ w' = { w with service := s, clock := now }

/-- One `sync_once`: the world at its first fetch, and where it ends. -/
structure Call where
  now : Timestamp
  before : DeepSeeSynchronizer
  first : World
  after : DeepSeeSynchronizer
  last : World

namespace Call

/-- The call has run to its end, some of its operations possibly after source mutations. -/
def Completed (c : Call) : Prop :=
  ∃ report, Begins World.handler.Faulty SourceMoves (c.before.syncOnce c.now) c.first
    (.ok (report, c.after)) c.last

def Folded (c : Call) (ordered : List ChangeEvent) : Prop :=
  ∃ committed dataAsOf duplicates outOfOrder w report,
    c.before.committedWatermark = some committed ∧
    Begins World.handler.Faulty SourceMoves (pull c.before committed) c.first
      (.ok (ordered, dataAsOf, duplicates, outOfOrder)) w ∧
    Runs World.handler.Faulty SourceMoves
      (finish c.before committed c.now (ordered, dataAsOf, duplicates, outOfOrder)) w
      (.ok (report, c.after)) c.last

theorem Completed.folded {c : Call} (h : c.Completed) : ∃ ordered, c.Folded ordered := by
  obtain ⟨report, h⟩ := h
  cases hc : c.before.committedWatermark with
  | none =>
    rw [DeepSeeSynchronizer.syncOnce, hc] at h
    cases h
  | some committed =>
    rw [syncOnce_eq hc] at h
    obtain ⟨a, w, hp, hf⟩ | ⟨e, -, he⟩ := Begins.bind_cases h
    · exact ⟨a.1, committed, a.2.1, a.2.2.1, a.2.2.2, w, report, hc, hp, hf⟩
    · cases he

def atRest (now : Timestamp) (self : DeepSeeSynchronizer) (w : World) : Option Call :=
  match World.handler.exec (self.syncOnce now) w with
  | (.ok (_, self'), w') => some ⟨now, self, w, self', w'⟩
  | _ => none

theorem atRest_completed {now : Timestamp} {self : DeepSeeSynchronizer} {w : World} {c : Call}
    (hrefl : ∀ w, SourceMoves w w) (h : atRest now self w = some c) :
    c.Completed ∧ c.before = self ∧ c.first = w := by
  rw [atRest] at h
  split at h
  · rename_i hexec
    cases h
    exact ⟨⟨_, .of_exec hrefl hexec⟩, rfl, rfl⟩
  · cases h

end Call

namespace SourceMoves

theorem refl (w : World) : SourceMoves w w := ⟨w.service, w.clock, .refl, rfl⟩

theorem trans (h : SourceMoves w w') (h' : SourceMoves w' w'') : SourceMoves w w'' := by
  obtain ⟨s, now, hs, rfl⟩ := h
  obtain ⟨s', now', hs', rfl⟩ := h'
  exact ⟨s', now', Relation.ReflTransGen.trans hs hs', rfl⟩

theorem mutates (h : SourceMoves w w') : Mutates w.service w'.service := by
  obtain ⟨s, now, hs, rfl⟩ := h
  exact hs

end SourceMoves

/-- What holds of the world during a call that began when the source was `s`. -/
def Since (initial : Dict Int Float64) (s : MockDeepSeeService) (w : World) : Prop :=
  Coherent initial w.service ∧ 0 < w.service.pageSize ∧ Mutates s w.service

theorem Since.moves {s : MockDeepSeeService} (h : Since initial s w) (hw : SourceMoves w w') :
    Since initial s w' := by
  refine ⟨hw.mutates.coherent h.1, ?_, Relation.ReflTransGen.trans h.2.2 hw.mutates⟩
  rw [hw.mutates.grows.pageSize]
  exact h.2.1

/-- One completed `sync_once`: it folds the stretch after its boundary. -/
theorem Call.Folded.contiguous {c : Call} {ordered : List ChangeEvent} {b : Nat}
    (h : c.Folded ordered) (hcoh : Coherent initial c.first.service)
    (hp : 0 < c.first.service.pageSize) (hb : Bounded c.before b)
    (hlen : b ≤ c.first.service.events.length) :
    ∃ m, c.first.service.events.length ≤ m ∧ m ≤ c.last.service.events.length ∧
      ordered = segment b m c.last.service.events ∧ Bounded c.after m ∧
      Since initial c.first.service c.last := by
  obtain ⟨committed, dataAsOf, duplicates, outOfOrder, w₁, report, hc, hpull, hfinish⟩ := h
  obtain ⟨now, self, w, self', w'⟩ := c
  dsimp only at *
  obtain rfl := Option.some.inj (hc.symm.trans hb.committed)
  have hstart : Since initial w.service w := ⟨hcoh, hp, .refl⟩
  have hpulled : Keeps (Guarded (fun _ _ => True)) SourceMoves (Since initial w.service)
      (fun out w₁ => Since initial w.service w₁ ∧ match out with
        | .ok (ordered, _) => ∃ m, w.service.events.length ≤ m ∧ m ≤ w₁.service.events.length ∧
            ordered = segment b m w₁.service.events
        | .error _ => True) (pull self (watermarkOf b)) w := by
    apply pull_keeps SourceMoves.refl (fun _ _ _ => SourceMoves.trans)
      (fun _ _ h => h.mutates.grows) (fun _ h => ⟨h.1, h.2.1⟩) hb hlen hstart
    · exact fun m _ _ _ w₂ _ hI₂ hn hm => ⟨hI₂, m, hn, hm, rfl⟩
    · exact fun _ _ _ h => ⟨h, trivial⟩
  obtain ⟨hI₁, m, hn, hm, rfl⟩ := hpulled.begins Guarded.of_faulty (fun _ _ h => h) SourceMoves.refl
    (fun _ _ hw h => h.moves hw) hpull
  have hfinished : Keeps (Guarded (fun _ _ => True)) SourceMoves (Since initial w₁.service)
      (fun out w₂ => Since initial w₁.service w₂ ∧ match out with
        | .ok (_, self') => Bounded self' m
        | .error _ => True)
      (finish self (watermarkOf b) now (segment b m w₁.service.events, dataAsOf, duplicates,
        outOfOrder)) w₁ := by
    have hstart₁ : Since initial w₁.service w₁ := ⟨hI₁.1, hI₁.2.1, .refl⟩
    apply finish_keeps (R := SourceMoves) SourceMoves.refl (fun _ _ _ => SourceMoves.trans)
      hI₁.1 hstart₁ hm
    · intro hmb _
      obtain rfl : b = m := by omega
      exact ⟨hstart₁, hb⟩
    · intro ordered f s w₂ _ hst hf hw₂ hI₂ _ _ d _ _ report
      have hb' := hb.remember hI₁.1 hst
      rw [Commits]
      split
      · exact ⟨hI₂, fun w₃ hw₃ hI₃ => ⟨fun _ => ⟨hI₃, trivial⟩, fun _ => ⟨hI₃, hb'⟩⟩⟩
      · exact ⟨hI₂, hb'⟩
    · exact fun _ _ _ h => ⟨h, trivial⟩
  obtain ⟨hI', hb'⟩ := hfinished.runs Guarded.of_faulty (fun _ _ h => h)
    (fun _ _ hw h => h.moves hw) hfinish
  have hgrows := hI'.2.2.grows
  refine ⟨m, hn, hm.trans hgrows.length_le, ?_, hb', hI'.1, hI'.2.1,
    Relation.ReflTransGen.trans hI₁.2.2 hI'.2.2⟩
  exact (segment_extend hgrows.events hm).symm

/-- Completed `sync_once` calls one after another, the source moving at any time. -/
inductive Calls : DeepSeeSynchronizer → World → List Call → DeepSeeSynchronizer → World → Prop
  | done (self : DeepSeeSynchronizer) (w : World) : Calls self w [] self w
  | next {w w' : World} {self' : DeepSeeSynchronizer} {c : Call} {rest : List Call}
      (hw : SourceMoves w c.first) (h : c.Completed) (hrest : Calls c.after c.last rest self' w') :
      Calls c.before w (c :: rest) self' w'

/-- Calls that fold stretches of a log which follow each other without a gap or an
overlap, each reaching at least the source's number at its first fetch. -/
def Follow (log : List ChangeEvent) : Nat → List Call → List (List ChangeEvent) → Nat → Prop
  | b, [], [], m => m = b
  | b, c :: rest, ordered :: folds, m =>
    ∃ k, c.first.service.seq ≤ k ∧ b ≤ k ∧ k ≤ log.length ∧ c.Folded ordered ∧
      ordered = segment b k log ∧ c.after.committedWatermark = some (watermarkOf k) ∧
      Follow log k rest folds m
  | _, _, _, _ => False

theorem Follow.flatten {log : List ChangeEvent} {b m : Nat} {calls : List Call}
    {folds : List (List ChangeEvent)} (h : Follow log b calls folds m) :
    b ≤ m ∧ folds.flatten = segment b m log := by
  induction calls generalizing b folds with
  | nil =>
    cases folds with
    | nil =>
      obtain rfl := h
      exact ⟨le_rfl, (segment_eq_nil le_rfl).symm⟩
    | cons ordered folds => exact h.elim
  | cons c calls ih =>
    cases folds with
    | nil => exact h.elim
    | cons ordered folds =>
      obtain ⟨k, -, hk, -, -, hordered, -, hrest⟩ := h
      obtain ⟨hkm, hflat⟩ := ih hrest
      refine ⟨hk.trans hkm, ?_⟩
      rw [List.flatten_cons, hflat, hordered, segment_append log hk hkm]

theorem Calls.follow {calls : List Call} {b : Nat} (h : Calls self w calls self' w')
    (hcoh : Coherent initial w.service) (hp : 0 < w.service.pageSize) (hb : Bounded self b)
    (hlen : b ≤ w.service.events.length) :
    ∃ m folds, Follow w'.service.events b calls folds m ∧ Bounded self' m ∧
      Mutates w.service w'.service := by
  induction h generalizing b with
  | done self w => exact ⟨b, [], rfl, hb, .refl⟩
  | next hw h hrest ih =>
    have hgrows := hw.mutates.grows
    obtain ⟨ordered, hfolded⟩ := h.folded
    obtain ⟨k, hn, hk, hordered, hb', hI⟩ := hfolded.contiguous (hw.mutates.coherent hcoh)
      (hgrows.pageSize ▸ hp) hb (hlen.trans hgrows.length_le)
    obtain ⟨m, folds, hfollow, hb'', hmut⟩ := ih hI.1 hI.2.1 hb' hk
    refine ⟨m, ordered :: folds, ⟨k, ?_, ?_, ?_, hfolded, ?_, hb'.committed, hfollow⟩, hb'', ?_⟩
    · rw [(hw.mutates.coherent hcoh).seq_eq]
      exact hn
    · exact (hlen.trans hgrows.length_le).trans hn
    · exact hk.trans hmut.grows.length_le
    · rw [hordered, segment_extend hmut.grows.events hk]
    · exact Relation.ReflTransGen.trans (Relation.ReflTransGen.trans hw.mutates hI.2.2) hmut

/-- A new source, and a synchronizer that has not done anything yet. -/
structure Fresh (contextId : String) (c : System Unit) : Prop where
  events : c.world.service.events = []
  seq : c.world.service.seq = 0
  pageSize : 0 < c.world.service.pageSize
  durable : c.world.durable.load contextId = (none, ∅)
  context : (c.instances ()).memory.contextId = contextId
  committed : (c.instances ()).memory.committedWatermark = none
  seen : (c.instances ()).memory.seenEventIds = ∅
  idle : (c.instances ()).running = none

theorem Fresh.coherent {c : System Unit} (h : Fresh contextId c) :
    Coherent c.world.service.members c.world.service := .of_new h.events h.seq

theorem Fresh.holds {c : System Unit} (h : Fresh contextId c) :
    (bounding c.world.service.members contextId).Holds c where
  world := ⟨h.coherent, h.pageSize⟩
  memory _ := ⟨h.context, fun _ => by rw [h.durable, h.committed, h.seen],
    .inl ⟨h.committed, h.seen⟩⟩
  running _ kind p hp := by cases h.idle.symm.trans hp

/-- Whatever has happened before, completed `sync_once` calls fold stretches of the
log that follow each other from the committed watermark on. -/
theorem syncOnce_contiguous {c₀ c : System Unit} (h₀ : Fresh contextId c₀)
    (hr : System.Reaches (fun _ _ => True) c₀ c) {committed : String}
    (hc : (c.instances ()).memory.committedWatermark = some committed) {calls : List Call}
    {self : DeepSeeSynchronizer} {w : World}
    (h : Calls (c.instances ()).memory c.world calls self w) :
    ∃ b m folds, committed = watermarkOf b ∧ Follow w.service.events b calls folds m ∧
      folds.flatten = segment b m w.service.events ∧
      self.committedWatermark = some (watermarkOf m) := by
  have hholds := h₀.holds.reaches bounding_sound
    (fun c a _ => ⟨.inl trivial, c.respects_true a⟩) hr
  obtain ⟨hnone, -⟩ | ⟨b, hlen, hb⟩ := (hholds.memory ()).2.2
  · cases hnone.symm.trans hc
  · obtain ⟨m, folds, hfollow, hb', -⟩ := h.follow hholds.world.1 hholds.world.2 hb hlen
    exact ⟨b, m, folds, Option.some.inj (hc.symm.trans hb.committed), hfollow, hfollow.flatten.2,
      hb'.committed⟩

def sampleActions : List (Action Unit) :=
  .mutate (.addMember 7 1) :: wholeCall () .bootstrap 4 ++ [.mutate (.addMember 8 1)]

def sampleBefore : System Unit :=
  ((sampleSystem Unit (sampleService ∅ 1)).run (fun _ _ => True) sampleActions).get (by decide)

def sampleCall : Call :=
  (Call.atRest 0 (sampleBefore.instances ()).memory sampleBefore.world).get (by decide)

theorem sampleBefore_run :
    (sampleSystem Unit (sampleService ∅ 1)).run (fun _ _ => True) sampleActions =
      some sampleBefore :=
  (Option.some_get _).symm

theorem sampleCall_eq :
    Call.atRest 0 (sampleBefore.instances ()).memory sampleBefore.world = some sampleCall :=
  (Option.some_get _).symm

theorem syncOnce_contiguous_sample : ∃ b m folds, watermarkOf 1 = watermarkOf b ∧
    Follow sampleCall.last.service.events b [sampleCall] folds m ∧
    folds.flatten = segment b m sampleCall.last.service.events ∧
    sampleCall.after.committedWatermark = some (watermarkOf m) := by
  have hfresh : Fresh "context" (sampleSystem Unit (sampleService ∅ 1)) :=
    ⟨rfl, rfl, by decide, by decide, rfl, rfl, rfl, rfl⟩
  obtain ⟨hcompleted, hbefore, hfirst⟩ := Call.atRest_completed SourceMoves.refl sampleCall_eq
  have hmoves : SourceMoves sampleBefore.world sampleCall.first := hfirst ▸ SourceMoves.refl _
  have hcalls : Calls sampleCall.before sampleBefore.world [sampleCall] sampleCall.after
      sampleCall.last := .next hmoves hcompleted (.done _ _)
  rw [hbefore] at hcalls
  exact syncOnce_contiguous hfresh
    (System.run_reaches _ .refl sampleBefore_run) (by decide) hcalls

end ContextqlServer.Deepsee.Contiguous
