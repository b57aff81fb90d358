import ContextqlServer.Deepsee.Crash

namespace ContextqlServer.Deepsee.Instances

open ContextqlServer.Lib.Effect ContextqlServer.Lib.Log ContextqlServer.Lib.Mapping
open ContextqlServer.Lib.Python ContextqlServer.Lib.Rely
open ContextqlServer.Db.Synchronization
open ContextqlServer.Deepsee.Models ContextqlServer.Deepsee.MockService
open ContextqlServer.Deepsee.Store ContextqlServer.Deepsee.Synchronizer
open ContextqlServer.Deepsee.History ContextqlServer.Deepsee.Fold ContextqlServer.Deepsee.Batch
open ContextqlServer.Deepsee.Bootstrap ContextqlServer.Deepsee.Consistency
open ContextqlServer.Deepsee.Machine ContextqlServer.Deepsee.Contiguous
open ContextqlServer.Deepsee.Crash ContextqlServer.Deepsee.Rest

def publishes : SyncOp → Option String
  | .commitSnapshot (.snapshot s) | .putSnapshot s => some s.sourceWatermark
  | .commitSnapshot (.delta d) | .applyDelta d => some d.sourceWatermark
  | _ => none

def durableNumber (contextId : String) (w : World) : Int :=
  numberOf ((w.durable.load contextId).1.getD "0")

/-- No publication is behind the snapshot it replaces, and no commit behind the
watermark it replaces. -/
structure UpToDate (contextId : String) (o : SyncOp) (w : World) : Prop where
  published : ∀ watermark s, publishes o = some watermark → w.store = some s →
    numberOf s.sourceWatermark ≤ numberOf watermark
  committed : ∀ watermark events, o = .commitState contextId watermark events →
    durableNumber contextId w ≤ numberOf watermark

/-- What an instance relies on while the others act. -/
structure Sharing (initial : Dict Int Float64) (contextId : String) (kind : Kind) (w w' : World) :
    Prop where
  grows : Extends w.service w'.service
  consistent : Consistent initial contextId w → Consistent initial contextId w'
  store : ∀ v, StoreAt initial v w → ∃ v', v ≤ v' ∧ StoreAt initial v' w'
  rest : kind = .bootstrap → w'.service = w.service

def Reached (initial : Dict Int Float64) (m : DeepSeeSynchronizer) (w : World) : Prop :=
  m.committedWatermark = none ∧ m.seenEventIds = ∅ ∨
    ∃ b v, Bounded m b ∧ b ≤ v ∧ StoreAt initial v w

def shared (initial : Dict Int Float64) (contextId : String) : Discipline where
  moving := False
  G := UpToDate contextId
  I := Consistent initial contextId
  M m w := Configured contextId m ∧ Reached initial m w
  R := Sharing initial contextId

variable {initial : Dict Int Float64} {contextId : String} {w w' w'' : World}
  {m : DeepSeeSynchronizer}

namespace Sharing

variable {kind : Kind}

theorem refl (kind : Kind) (w : World) : Sharing initial contextId kind w w :=
  ⟨.refl _, id, fun v hv => ⟨v, le_rfl, hv⟩, fun _ => rfl⟩

theorem trans (h : Sharing initial contextId kind w w')
    (h' : Sharing initial contextId kind w' w'') : Sharing initial contextId kind w w'' where
  grows := h.grows.trans h'.grows
  consistent := h'.consistent ∘ h.consistent
  store v hv := by
    obtain ⟨v', hle, hv'⟩ := h.store v hv
    obtain ⟨v'', hle', hv''⟩ := h'.store v' hv'
    exact ⟨v'', hle.trans hle', hv''⟩
  rest hk := (h'.rest hk).trans (h.rest hk)

theorem reached (h : Sharing initial contextId kind w w') (hm : Reached initial m w) :
    Reached initial m w' := by
  refine hm.imp id ?_
  rintro ⟨b, v, hb, hbv, hv⟩
  obtain ⟨v', hle, hv'⟩ := h.store v hv
  exact ⟨b, v', hb, hbv.trans hle, hv'⟩

end Sharing

theorem StoreAt.number {v : Nat} {s : MembershipSnapshot} (h : StoreAt initial v w)
    (hs : w.store = some s) : numberOf s.sourceWatermark = v := by
  obtain ⟨s', hs', hw, -, -⟩ := h
  obtain rfl := Option.some.inj (hs.symm.trans hs')
  rw [hw, numberOf_watermarkOf]

theorem DurableAt.number {d : Nat} (h : DurableAt contextId d w.durable) :
    durableNumber contextId w = d := by
  rw [durableNumber]
  obtain hsome | ⟨hnone, rfl⟩ := h.committed
  · rw [hsome, Option.getD_some, numberOf_watermarkOf]
  · rw [hnone]
    decide

/-- What any operation that goes through does to the store. -/
theorem perform_store {o : SyncOp} (hg : UpToDate contextId o w) :
    (World.perform o w).2.store = w.store ∨
      ∃ s', (World.perform o w).2.store = some s' ∧
        ∀ s, w.store = some s → numberOf s.sourceWatermark ≤ numberOf s'.sourceWatermark := by
  have hpub : ∀ staged, (∀ s', staged.over w.store = some s' → ∀ s, w.store = some s →
      numberOf s.sourceWatermark ≤ numberOf s'.sourceWatermark) →
      (w.publish staged).2.store = w.store ∨ ∃ s', (w.publish staged).2.store = some s' ∧
        ∀ s, w.store = some s → numberOf s.sourceWatermark ≤ numberOf s'.sourceWatermark := by
    intro staged h
    rw [World.publish]
    split
    · rename_i s' hs'
      exact .inr ⟨s', rfl, h s' hs'⟩
    · exact .inl rfl
  have hsnapshot : ∀ s, (publishes o = some s.sourceWatermark) →
      ∀ s', (Staged.snapshot s).over w.store = some s' → ∀ t, w.store = some t →
      numberOf t.sourceWatermark ≤ numberOf s'.sourceWatermark := by
    rintro s ho s' ⟨⟩ t ht
    exact hg.published _ t ho ht
  have hdelta : ∀ d, (publishes o = some d.sourceWatermark) →
      ∀ s', (Staged.delta d).over w.store = some s' → ∀ t, w.store = some t →
      numberOf t.sourceWatermark ≤ numberOf s'.sourceWatermark := by
    intro d ho s' hs' t ht
    obtain ⟨s, -, rfl⟩ := Option.map_eq_some_iff.mp hs'
    exact hg.published _ t ho ht
  cases o with
  | commitSnapshot staged =>
    cases staged with
    | snapshot s => exact hpub _ (hsnapshot s rfl)
    | delta d => exact hpub _ (hdelta d rfl)
  | putSnapshot s => exact hpub _ (hsnapshot s rfl)
  | applyDelta d => exact hpub _ (hdelta d rfl)
  | _ => exact .inl rfl

theorem Sharing.of_guarded {kind : Kind} {o : SyncOp} {r : Except Exn (syncSig.Res o)}
    (hI' : Consistent initial contextId w') (h : Guarded (UpToDate contextId) o w r w') :
    Sharing initial contextId kind w w' := by
  obtain ⟨failure, hA, hG⟩ := h
  cases failure with
  | some e =>
    obtain ⟨-, rfl⟩ := Prod.ext_iff.mp (Option.some.inj hA)
    exact .refl kind w
  | none =>
    obtain ⟨-, rfl⟩ := Prod.ext_iff.mp (Option.some.inj hA)
    have hservice := World.perform_service o w
    have hgrows : Extends w.service (World.perform o w).2.service := hservice.symm ▸ .refl _
    refine ⟨hgrows, fun _ => hI', fun v hv => ?_, fun _ => hservice⟩
    obtain hsame | ⟨s', hs', hle⟩ := perform_store (hG rfl)
    · exact ⟨v, le_rfl, hv.extend hgrows hsame⟩
    · obtain ⟨d, -, hstore⟩ := hI'.ordered
      obtain ⟨v', -, hv'⟩ := hstore.resolve_left (fun h => by cases hs'.symm.trans h.1)
      refine ⟨v', ?_, hv'⟩
      have hs := hle _ hv.choose_spec.1
      rw [StoreAt.number hv hv.choose_spec.1, StoreAt.number hv' hs'] at hs
      exact_mod_cast hs

/-- Committing a watermark which the call has published and nobody has overtaken in
the repository. -/
theorem commit_shared {v n : Nat} {events : List (String × String)}
    (hI : Consistent initial contextId w) (hv : StoreAt initial v w) (hnv : n ≤ v)
    (he : eventIdsUpTo n (events.map Prod.fst).toFinset)
    (hg : UpToDate contextId (.commitState contextId (watermarkOf n) events) w) :
    Consistent initial contextId
      { w with durable := w.durable.commit contextId (watermarkOf n) events } := by
  obtain ⟨d, hd, -⟩ := hI.ordered
  have hdn := hg.committed _ _ rfl
  rw [DurableAt.number hd, numberOf_watermarkOf] at hdn
  exact hI.commit hd (by exact_mod_cast hdn) hnv hv he

theorem syncOnce_runs (now : Timestamp) (hI : (shared initial contextId).I w)
    (hM : (shared initial contextId).M m w) :
    (shared initial contextId).Runs m .syncOnce (Kind.syncOnce.prog m now) w := by
  refine .bind ?_
  obtain ⟨hnone, -⟩ | ⟨b, v, hb, hbv, hv⟩ := hM.2
  · rw [DeepSeeSynchronizer.syncOnce, hnone]
    exact ⟨hI, hM⟩
  · have hvlen : v ≤ w.service.events.length := hv.choose_spec.2.2.1
    apply syncOnce_keeps (Sharing.refl _) (fun _ _ _ => Sharing.trans)
      (fun _ _ h => h.grows) (fun _ h => ⟨h.1.coherent, h.1.pageSize⟩) hb (hbv.trans hvlen)
      ⟨hI, hM⟩
    · exact fun _ _ _ h _ => h
    · rintro n ordered f s w₁ dataAsOf hn hst hf hw₁ hI₁ hs d rfl hG report
      -- the store may have moved on since the call began, but not past the new watermark
      obtain ⟨v₁, hle, hv₁⟩ := hw₁.store v hv
      obtain ⟨d₁, hd₁, hstore⟩ := hI₁.1.ordered
      obtain ⟨u, hdu, hu⟩ := hstore.resolve_left (fun h => by cases hs.symm.trans h.1)
      obtain rfl := hu.unique hv₁
      have hun : u ≤ n := by
        have hle : numberOf s.sourceWatermark ≤ numberOf (watermarkOf n) := by
          rcases hG with hG | hG
          · exact hG.published _ s rfl hs
          · exact hG.published _ s rfl hs
        rw [StoreAt.number hu hs, numberOf_watermarkOf] at hle
        exact_mod_cast hle
      have hpub := hu.applyDelta hs hst hf (hbv.trans hle) hun now dataAsOf
      rw [Commits, if_pos hM.1.stateRepository, hM.1.contextId]
      refine ⟨⟨hI₁.1.publish hd₁ (hdu.trans hun) hpub, hM.1, ?_⟩, fun w₂ hw₂ hI₂ =>
        ⟨fun _ => hI₂, fun hG₂ => ?_⟩⟩
      · exact .inr ⟨b, n, hb, hst.lt.le, hpub⟩
      · obtain ⟨v₂, hnv, hv₂⟩ := hw₂.store n hpub
        have hids : eventIdsUpTo n ((eventWatermarks ordered).map Prod.fst).toFinset := by
          rw [eventWatermarks_ids]
          exact hst.eventIds hI₁.1.coherent
        refine ⟨commit_shared hI₂.1 hv₂ hnv hids hG₂,
          ⟨hM.1.contextId, hM.1.stateRepository, hM.1.bitMap64⟩, .inr ⟨n, v₂, ?_, hnv, ?_⟩⟩
        · exact hb.remember hI₁.1.coherent hst
        · exact hv₂.extend (.refl _) rfl
    · exact fun _ _ _ h => h

theorem bootstrap_runs (now : Timestamp) (hI : (shared initial contextId).I w)
    (hM : (shared initial contextId).M m w) :
    (shared initial contextId).Runs m .bootstrap (Kind.bootstrap.prog m now) w := by
  refine .bind (bootstrap_keeps (P := fun s w₁ => Sharing initial contextId .bootstrap w w₁ ∧
    s.members = w.service.members.keys ∧ s.sourceWatermark = w.service.watermark)
    (fun _ _ _ => Sharing.trans) ?_ ?_ (fun _ _ h => h))
  · apply ingest_keeps (R := Sharing initial contextId .bootstrap) (fun _ _ _ => Sharing.trans)
      (fun _ _ h => h.rest rfl) hM.1.bitMap64 ⟨hI, hM⟩
    · exact fun w₁ hw₁ hI₁ => ⟨hI₁, fun _ _ => ⟨hw₁, rfl, rfl⟩⟩
    · exact fun _ _ _ h => h
  · rintro s w₁ w₂ ⟨hw₁, hmembers, hwatermark⟩ hw₂ hI₂ -
    have hw := hw₁.trans hw₂
    obtain ⟨d, hdur, hstore⟩ := hI₂.1.ordered
    have hcoh := hI₂.1.coherent
    rw [← hw.rest rfl] at hmembers hwatermark
    have hpub := StoreAt.publish hcoh hmembers hwatermark
    have hd : d ≤ w₂.service.events.length := hI₂.1.durable_le hdur
    have hwm : s.sourceWatermark = watermarkOf w₂.service.events.length := by
      rw [hwatermark, MockDeepSeeService.watermark, hcoh.seq_eq]
    rw [Commits, if_pos hM.1.stateRepository, hM.1.contextId, hwm]
    have hbounded : eventIdsUpTo w₂.service.events.length m.seenEventIds := by
      obtain ⟨-, hseen⟩ | ⟨b, v, hb, hbv, hv⟩ := hI₂.2.2
      · rw [hseen]
        exact fun _ h => absurd h (by simp)
      · intro id hid
        obtain ⟨j, h₁, hj, rfl⟩ := hb.seen id hid
        exact ⟨j, h₁, (hj.trans hbv).trans hv.choose_spec.2.2.1, rfl⟩
    refine ⟨⟨hI₂.1.publish hdur hd hpub, hM.1, ?_⟩, fun w₃ hw₃ hI₃ => ⟨fun _ => hI₃, fun hG => ?_⟩⟩
    · apply hI₂.2.2.imp_right
      rintro ⟨b, v, hb, hbv, hv⟩
      exact ⟨b, _, hb, hbv.trans hv.choose_spec.2.2.1, hpub⟩
    · obtain ⟨v₃, hnv, hv₃⟩ := hw₃.store _ hpub
      exact ⟨commit_shared hI₃.1 hv₃ hnv (fun _ h => absurd h (by simp)) hG,
        ⟨rfl, hM.1.stateRepository, hM.1.bitMap64⟩,
        .inr ⟨_, v₃, ⟨rfl, hbounded⟩, hnv, hv₃.extend (.refl _) rfl⟩⟩

theorem shared_sound {ι : Type} : (shared initial contextId).Sound ι where
  trans _ _ _ _ := Sharing.trans
  refl := Sharing.refl
  rely _ _ _ h := h.consistent
  relyM kind m w w' hw hM := ⟨hM.1, hw.reached hM.2⟩
  mutate kind w m s hk hI hm := by
    have hgrows : Extends w.service s := Mutates.extends_mutate hm
    refine ⟨hgrows, fun hc => ⟨hc.coherent.mutate hm, ?_, ?_⟩, fun v hv => ⟨v, le_rfl, ?_⟩,
      fun h => (hk h).elim⟩
    · exact hgrows.pageSize.symm ▸ hc.pageSize
    · obtain ⟨d, hd, hstore⟩ := hc.ordered
      exact ⟨d, hd, hstore.imp id (fun ⟨v, hdv, hv⟩ => ⟨v, hdv, hv.extend hgrows rfl⟩)⟩
    · exact hv.extend hgrows rfl
  tick _ _ _ _ :=
    ⟨.refl _, fun hc => ⟨hc.coherent, hc.pageSize, hc.ordered⟩, fun v hv => ⟨v, le_rfl, hv⟩, fun _ => rfl⟩
  call kind m now w hI hM := by
    cases kind with
    | bootstrap => exact bootstrap_runs now hI hM
    | syncOnce => exact syncOnce_runs now hI hM
  restart m w hI hM := by
    rw [DeepSeeSynchronizer.init, if_pos hM.1.stateRepository, hM.1.contextId]
    refine ⟨⟨rfl, hM.1.stateRepository, hM.1.bitMap64⟩, ?_⟩
    obtain ⟨d, hd, hstore⟩ := hI.ordered
    obtain hsome | ⟨hnone, rfl⟩ := hd.committed
    · obtain ⟨v, hdv, hv⟩ := hstore.resolve_left (fun h => by cases hsome.symm.trans h.2)
      exact .inr ⟨d, v, ⟨hsome, hd.seen⟩, hdv, hv⟩
    · refine .inl ⟨hnone, Finset.eq_empty_of_forall_notMem (fun id hid => ?_)⟩
      obtain ⟨j, h₁, hj, -⟩ := hd.seen id hid
      omega
  others _ _ _ _ _ _ _ _ _ hI' hA := .of_guarded hI' hA

/-- A new source, a new store, and synchronizers that have not done anything yet. -/
structure AllStarted {ι : Type} (contextId : String) (c : System ι) : Prop where
  events : c.world.service.events = []
  seq : c.world.service.seq = 0
  pageSize : 0 < c.world.service.pageSize
  durable : c.world.durable.load contextId = (none, ∅)
  store : c.world.store = none
  configured : ∀ i, Configured contextId (c.instances i).memory
  committed : ∀ i, (c.instances i).memory.committedWatermark = none
  seen : ∀ i, (c.instances i).memory.seenEventIds = ∅
  idle : ∀ i, (c.instances i).running = none

theorem AllStarted.holds {ι : Type} {c : System ι} (h : AllStarted contextId c) :
    (shared c.world.service.members contextId).Holds c where
  world := ⟨.of_new h.events h.seq, h.pageSize, 0,
    ⟨by simp [h.durable], by simp [h.durable, eventIdsUpTo]⟩, .inl ⟨h.store, by rw [h.durable]⟩⟩
  memory i := ⟨h.configured i, .inl ⟨h.committed i, h.seen i⟩⟩
  running i kind p hp := by cases (h.idle i).symm.trans hp

variable {ι : Type} [DecidableEq ι]

/-- The steps whose publications and commits are not behind what they replace. -/
def InOrder (contextId : String) (c : System ι) (a : Action ι) : Prop :=
  c.Quiet a ∧ c.Respects (UpToDate contextId) a

/-- In the runs that `P` allows the durable watermark never decreases, and a fresh
instance's `sync_once` at rest ends with the source's members. -/
structure KeepsUpdates (P : System ι → Action ι → Prop) (contextId : String) (c₀ : System ι) :
    Prop where
  monotone : ∀ c c' a, System.Reaches P c₀ c → P c a → c.step a = some c' →
    durableNumber contextId c.world ≤ durableNumber contextId c'.world
  converges : ∀ c, System.Reaches P c₀ c → ∀ m, Configured contextId m → ∀ now report m' w',
    AloneRuns ((m.init c.world.durable).syncOnce now) c.world (.ok (report, m')) w' →
    ∃ s, w'.store = some s ∧ ∀ x, x ∈ s.members ↔ x ∈ c.world.service.members

theorem perform_durable {o : SyncOp} (hg : UpToDate contextId o w) :
    durableNumber contextId w ≤ durableNumber contextId (World.perform o w).2 := by
  have hpub : ∀ staged, (w.publish staged).2.durable = w.durable := by
    intro staged
    rw [World.publish]
    split <;> rfl
  cases o with
  | commitState context watermark events =>
    by_cases hc : context = contextId
    · subst hc
      have hle := hg.committed watermark events rfl
      refine hle.trans (le_of_eq ?_)
      rw [durableNumber, World.perform, SyncTables.commit_load]
      rfl
    · rw [durableNumber, durableNumber, World.perform, SyncTables.commit_load_ne _ hc]
  | commitSnapshot staged => rw [durableNumber, durableNumber, World.perform, hpub]
  | putSnapshot s => rw [durableNumber, durableNumber, World.perform, hpub]
  | applyDelta d => rw [durableNumber, durableNumber, World.perform, hpub]
  | _ => exact le_rfl

theorem step_durable {c c' : System ι} {a : Action ι} (ha : InOrder contextId c a)
    (hs : c.step a = some c') :
    durableNumber contextId c.world ≤ durableNumber contextId c'.world := by
  cases a with
  | mutate m =>
    rw [System.step] at hs
    split at hs
    · cases hs
      exact le_rfl
    · cases hs
  | tick now =>
    cases hs
    exact le_rfl
  | call i kind now =>
    rw [System.step] at hs
    split at hs
    · cases hs
    · cases hs
      exact le_rfl
  | perform i failure =>
    rw [System.step] at hs
    split at hs
    · rename_i kind o k hp
      obtain ⟨⟨r, w⟩, hA, rfl⟩ := Option.map_eq_some_iff.mp hs
      cases failure with
      | none =>
        obtain ⟨-, rfl⟩ := Prod.ext_iff.mp (Option.some.inj hA)
        exact perform_durable (ha.2 kind o k hp)
      | some e =>
        obtain ⟨-, rfl⟩ := Prod.ext_iff.mp (Option.some.inj hA)
        exact le_rfl
    · cases hs
  | restart i =>
    cases hs
    exact le_rfl

theorem keepsUpdates {c₀ : System ι} (h₀ : AllStarted contextId c₀) :
    KeepsUpdates (InOrder contextId) contextId c₀ where
  monotone c c' a _ ha hs := step_durable ha hs
  converges c hr m hm now report m' w' h := by
    have hholds := h₀.holds.reaches shared_sound (fun c a ha => ⟨.inr ha.1, ha.2⟩) hr
    refine syncOnce_converges hholds.world ?_ h
    rw [DeepSeeSynchronizer.init, if_pos hm.stateRepository, hm.contextId]
    exact ⟨⟨rfl, hm.stateRepository, hm.bitMap64⟩, rfl⟩

def sampleTwo : System Bool := sampleSystem Bool (sampleService ∅ 10)

theorem keepsUpdates_sample : KeepsUpdates (InOrder "context") "context" sampleTwo :=
  keepsUpdates ⟨rfl, rfl, by decide, by decide, rfl, fun _ => ⟨rfl, rfl, unaryBitMap64_lawful⟩,
    fun _ => rfl, fun _ => rfl, fun _ => rfl⟩

/-- The first instance fetches the addition of a member and stops before its
publication; the second fetches the addition and the removal and completes. -/
def lateActions : List (Action Bool) :=
  wholeCall true .bootstrap 4 ++ [.restart false, .mutate (.addMember 7 1)] ++
    wholeCall true .syncOnce 1 ++ .mutate (.removeMember 7) :: wholeCall false .syncOnce 4 ++
    [.perform true none, .perform true none]

def beforeLate : System Bool := (sampleTwo.run System.Quiet lateActions).get (by decide)

/-- The late commit of the first instance. -/
def afterLate : System Bool := (beforeLate.step (.perform true none)).get (by decide)

/-- A fresh instance's `sync_once` after the late commit. -/
def lateSync : Except Exn (SyncReport × DeepSeeSynchronizer) × World :=
  World.handler.exec ((sampleSynchronizer.init afterLate.world.durable).syncOnce 0) afterLate.world

/-- The late commit takes the durable watermark back. Then no call is under way and the
source has no member, but a fresh `sync_once` succeeds and leaves the removed member in
the store, since the removal counts as seen. -/
theorem late_commit_loses_update :
    durableNumber "context" afterLate.world < durableNumber "context" beforeLate.world ∧
    (∀ i, (afterLate.instances i).running.isNone) ∧ afterLate.world.service.members = ∅ ∧
    lateSync.1.toOption.isSome ∧ lateSync.2.store.map (fun s => s.members) = some {7} ∧
    ¬ KeepsUpdates System.Quiet "context" sampleTwo := by
  refine ⟨by decide, by decide, by decide, by decide, by decide, fun h => ?_⟩
  have hr : System.Reaches System.Quiet sampleTwo beforeLate :=
    System.run_reaches _ .refl (Option.some_get _).symm
  have hle := h.monotone beforeLate afterLate (.perform true none) hr trivial
    (Option.some_get _).symm
  exact absurd hle (by decide)

end ContextqlServer.Deepsee.Instances
