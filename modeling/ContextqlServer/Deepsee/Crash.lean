import ContextqlServer.Deepsee.Contiguous
import ContextqlServer.Deepsee.Rest

namespace ContextqlServer.Deepsee.Crash

open ContextqlServer.Lib.Effect ContextqlServer.Lib.Log ContextqlServer.Lib.Mapping
open ContextqlServer.Lib.Python ContextqlServer.Lib.Rely
open ContextqlServer.Db.Synchronization
open ContextqlServer.Deepsee.Models ContextqlServer.Deepsee.MockService
open ContextqlServer.Deepsee.Store ContextqlServer.Deepsee.Synchronizer
open ContextqlServer.Deepsee.History ContextqlServer.Deepsee.Fold ContextqlServer.Deepsee.Batch
open ContextqlServer.Deepsee.Bootstrap ContextqlServer.Deepsee.Consistency
open ContextqlServer.Deepsee.Machine ContextqlServer.Deepsee.Contiguous
open ContextqlServer.Deepsee.Rest

structure Configured (contextId : String) (m : DeepSeeSynchronizer) : Prop where
  contextId : m.contextId = contextId
  stateRepository : m.stateRepository = true
  bitMap64 : Lawful m.client.bitMap64

/-- What one synchronizer relies on between its operations: nobody but itself
writes to the store and the repository, and a bootstrap finds the source at rest. -/
structure Alone (initial : Dict Int Float64) (kind : Kind) (w w' : World) : Prop where
  grows : Extends w.service w'.service
  coherent : Coherent initial w.service → Coherent initial w'.service
  store : w'.store = w.store
  durable : w'.durable = w.durable
  rest : kind = .bootstrap → w'.service = w.service

def alone (initial : Dict Int Float64) (contextId : String) : Discipline where
  moving := False
  G _ _ := True
  I := Consistent initial contextId
  M m w := Configured contextId m ∧
    w.durable.load contextId = (m.committedWatermark, m.seenEventIds)
  R := Alone initial

variable {initial : Dict Int Float64} {contextId : String} {w w' w'' : World}

namespace Alone

variable {kind : Kind}

theorem refl (kind : Kind) (w : World) : Alone initial kind w w := ⟨.refl _, id, rfl, rfl, fun _ => rfl⟩

theorem trans (h : Alone initial kind w w') (h' : Alone initial kind w' w'') :
    Alone initial kind w w'' where
  grows := h.grows.trans h'.grows
  coherent := h'.coherent ∘ h.coherent
  store := h'.store.trans h.store
  durable := h'.durable.trans h.durable
  rest hk := (h'.rest hk).trans (h.rest hk)

theorem consistent (h : Alone initial kind w w') (hc : Consistent initial contextId w) :
    Consistent initial contextId w' where
  coherent := h.coherent hc.coherent
  pageSize := by
    rw [h.grows.pageSize]
    exact hc.pageSize
  ordered := by
    obtain ⟨d, hd, hv⟩ := hc.ordered
    rw [h.durable, h.store]
    refine ⟨d, hd, hv.imp id ?_⟩
    rintro ⟨v, hdv, hv⟩
    exact ⟨v, hdv, hv.extend h.grows h.store⟩

end Alone

/-- The memory that equals the durable state knows a boundary the store has reached. -/
theorem bounded_of_durable (hc : Consistent initial contextId w) {m : DeepSeeSynchronizer}
    {committed : String} (hm : w.durable.load contextId = (m.committedWatermark, m.seenEventIds))
    (hw : m.committedWatermark = some committed) :
    ∃ b v, committed = watermarkOf b ∧ Bounded m b ∧ b ≤ v ∧ DurableAt contextId b w.durable ∧
      StoreAt initial v w := by
  obtain ⟨b, hb, hstore⟩ := hc.ordered
  have hseen := hb.seen
  have hcommitted := hb.committed
  rw [hm, hw] at hcommitted hstore
  rw [hm] at hseen
  rcases hcommitted with hcommitted | ⟨hcommitted, -⟩
  · obtain rfl := Option.some.inj hcommitted
    rcases hstore with ⟨-, hnone⟩ | ⟨v, hbv, hv⟩
    · cases hnone
    · exact ⟨b, v, rfl, ⟨hw, hseen⟩, hbv, hb, hv⟩
  · cases hcommitted

theorem syncOnce_runs {m : DeepSeeSynchronizer} (now : Timestamp)
    (hI : (alone initial contextId).I w) (hM : (alone initial contextId).M m w) :
    (alone initial contextId).Runs m .syncOnce (Kind.syncOnce.prog m now) w := by
  have hself : ∀ kind w₁, Alone initial kind w w₁ →
      (alone initial contextId).I w₁ ∧ (alone initial contextId).M m w₁ := by
    intro kind w₁ hw₁
    refine ⟨hw₁.consistent hI, hM.1, ?_⟩
    rw [hw₁.durable]
    exact hM.2
  refine .bind ?_
  cases hcommitted : m.committedWatermark with
  | none =>
    rw [DeepSeeSynchronizer.syncOnce, hcommitted]
    exact ⟨hI, hM⟩
  | some committed =>
    obtain ⟨b, v, rfl, hb, hbv, hdur, hv⟩ := bounded_of_durable hI hM.2 hcommitted
    have hvlen : v ≤ w.service.events.length := hv.choose_spec.2.2.1
    apply syncOnce_keeps (Alone.refl _) (fun _ _ _ => Alone.trans)
      (fun _ _ h => h.grows) (fun _ h => ⟨h.1.coherent, h.1.pageSize⟩) hb (hbv.trans hvlen)
      ⟨hI, hM⟩
    · exact fun _ _ _ h _ => h
    · rintro n ordered f s w₁ dataAsOf hn hst hf hw₁ hI₁ hs d rfl - report
      have hpub := (hv.extend hw₁.grows hw₁.store).applyDelta hs hst hf hbv (hvlen.trans hn) now
        dataAsOf
      have hdur₁ : DurableAt contextId b w₁.durable := hw₁.durable ▸ hdur
      rw [Commits, if_pos hM.1.stateRepository, hM.1.contextId]
      refine ⟨⟨hI₁.1.publish hdur₁ hst.lt.le hpub, hI₁.2⟩, fun w₂ hw₂ hI₂ => ⟨fun _ => hI₂, ?_⟩⟩
      have hdur₂ : DurableAt contextId b w₂.durable := hw₂.durable ▸ hdur₁
      have hids : eventIdsUpTo n ((eventWatermarks ordered).map Prod.fst).toFinset := by
        rw [eventWatermarks_ids]
        exact hst.eventIds hI₁.1.coherent
      refine fun _ => ⟨hI₂.1.commit hdur₂ hst.lt.le le_rfl (hpub.extend hw₂.grows hw₂.store) hids,
        ⟨hM.1.contextId, hM.1.stateRepository, hM.1.bitMap64⟩, ?_⟩
      rw [SyncTables.commit_load, hI₂.2.2, eventWatermarks_ids]
      rfl
    · exact fun _ _ _ h => h

theorem bootstrap_runs {m : DeepSeeSynchronizer} (now : Timestamp)
    (hI : (alone initial contextId).I w) (hM : (alone initial contextId).M m w) :
    (alone initial contextId).Runs m .bootstrap (Kind.bootstrap.prog m now) w := by
  refine .bind (bootstrap_keeps (P := fun s w₁ => Alone initial .bootstrap w w₁ ∧
    s.members = w.service.members.keys ∧ s.sourceWatermark = w.service.watermark)
    (fun _ _ _ => Alone.trans) ?_ ?_ (fun _ _ h => h))
  · apply ingest_keeps (R := Alone initial .bootstrap) (fun _ _ _ => Alone.trans)
      (fun _ _ h => h.rest rfl) hM.1.bitMap64 ⟨hI, hM⟩
    · exact fun w₁ hw₁ hI₁ => ⟨hI₁, fun _ _ => ⟨hw₁, rfl, rfl⟩⟩
    · exact fun _ _ _ h => h
  · intro s w₁ w₂ ⟨hw₁, hmembers, hwatermark⟩ hw₂ hI₂ _
    have hw := hw₁.trans hw₂
    obtain ⟨d, hdur, -⟩ := hI₂.1.ordered
    have hcoh := hI₂.1.coherent
    rw [← hw.rest rfl] at hmembers hwatermark
    have hpub := StoreAt.publish hcoh hmembers hwatermark
    have hd : d ≤ w₂.service.events.length := hI₂.1.durable_le hdur
    have hwm : s.sourceWatermark = watermarkOf w₂.service.events.length := by
      rw [hwatermark, MockDeepSeeService.watermark, hcoh.seq_eq]
    rw [Commits, if_pos hM.1.stateRepository, hM.1.contextId, hwm]
    refine ⟨⟨hI₂.1.publish hdur hd hpub, hI₂.2⟩, fun w₃ hw₃ hI₃ => ⟨fun _ => hI₃, ?_⟩⟩
    have hdur₃ : DurableAt contextId d w₃.durable := hw₃.durable ▸ hdur
    refine fun _ => ⟨hI₃.1.commit hdur₃ hd le_rfl (hpub.extend hw₃.grows hw₃.store)
      (fun _ h => absurd h (by simp)), ⟨rfl, hM.1.stateRepository, hM.1.bitMap64⟩, ?_⟩
    rw [SyncTables.commit_load, hI₃.2.2]
    simp

theorem alone_sound : (alone initial contextId).Sound Unit where
  trans _ _ _ _ := Alone.trans
  refl := Alone.refl
  rely _ _ _ := Alone.consistent
  relyM kind m w w' hw hM := by
    refine ⟨hM.1, ?_⟩
    rw [hw.durable]
    exact hM.2
  mutate kind w m s hk hI hm := by
    exact ⟨Mutates.extends_mutate hm, fun hc => hc.mutate hm, rfl, rfl, fun h => (hk h).elim⟩
  tick _ _ _ _ := ⟨.refl _, id, rfl, rfl, fun _ => rfl⟩
  call kind m now w hI hM := by
    cases kind with
    | bootstrap => exact bootstrap_runs now hI hM
    | syncOnce => exact syncOnce_runs now hI hM
  restart m w hI hM := by
    obtain ⟨hm, hload⟩ := hM
    rw [DeepSeeSynchronizer.init, if_pos hm.stateRepository]
    exact ⟨⟨hm.contextId, hm.stateRepository, hm.bitMap64⟩, by rw [hm.contextId]⟩
  others _ _ h := absurd rfl h

/-- A new source, a new store, and a synchronizer that has not done anything yet. -/
structure Started (contextId : String) (c : System Unit) : Prop extends Fresh contextId c where
  configured : Configured contextId (c.instances ()).memory
  store : c.world.store = none

theorem Started.holds {c : System Unit} (h : Started contextId c) :
    (alone c.world.service.members contextId).Holds c where
  world := ⟨h.coherent, h.pageSize, 0, ⟨by simp [h.durable], by simp [h.durable, eventIdsUpTo]⟩,
    .inl ⟨h.store, by rw [h.durable]⟩⟩
  memory _ := ⟨h.configured, by rw [h.durable, h.committed, h.seen]⟩
  running _ kind p hp := by cases h.idle.symm.trans hp

/-- With the source at rest a `sync_once` that succeeds ends with the source's members. -/
theorem syncOnce_converges {m m' : DeepSeeSynchronizer} {now : Timestamp} {report : SyncReport}
    (hI : (alone initial contextId).I w) (hM : (alone initial contextId).M m w)
    (h : AloneRuns (m.syncOnce now) w (.ok (report, m')) w') :
    ∃ s, w'.store = some s ∧ ∀ x, x ∈ s.members ↔ x ∈ w.service.members := by
  cases hc : m.committedWatermark with
  | none =>
    rw [DeepSeeSynchronizer.syncOnce, hc] at h
    obtain ⟨hout, -⟩ := Runs.throw_iff.mp h
    cases hout
  | some committed =>
    obtain ⟨b, v, rfl, hb, hbv, -, hv⟩ := bounded_of_durable hI hM.2 hc
    exact syncOnce_members hI.coherent hI.pageSize hb hbv hv h

/-- What holds once `s` has been published: the memory is what the repository
would load, no seen event is after the boundary, the store is at a moment of the
source between the boundary and now, and a `sync_once` with the source at rest ends
with the source's members. -/
structure Safe (contextId : String) (source : MockDeepSeeService) (c : System Unit)
    (s : MembershipSnapshot) : Prop where
  memory : c.world.durable.load contextId =
    ((c.instances ()).memory.committedWatermark, (c.instances ()).memory.seenEventIds)
  seen : ∀ id ∈ (c.instances ()).memory.seenEventIds, ∃ e ∈ c.world.service.events,
    e.eventId = id ∧ numberOf e.watermark ≤ numberOf (c.instances ()).memory.boundaryText
  moment : ∃ t, Mutates source t ∧ Mutates t c.world.service ∧
    numberOf (c.instances ()).memory.boundaryText ≤ t.seq ∧ t.seq ≤ c.world.service.seq ∧
    ∀ x, x ∈ s.members ↔ x ∈ t.members
  converges : ∀ now report m' w',
    AloneRuns ((c.instances ()).memory.syncOnce now) c.world (.ok (report, m')) w' →
    ∃ s', w'.store = some s' ∧ ∀ x, x ∈ s'.members ↔ x ∈ c.world.service.members

theorem crash_safe {c₀ c : System Unit} (h₀ : Started contextId c₀)
    (hr : System.Reaches System.Quiet c₀ c) {s : MembershipSnapshot}
    (hs : c.world.store = some s) : Safe contextId c₀.world.service c s := by
  have hholds := h₀.holds.reaches alone_sound
    (fun c a hq => ⟨.inr hq, c.respects_true a⟩) hr
  have hM := hholds.memory ()
  have hI := hholds.world
  have hcoh := hI.coherent
  obtain ⟨d, hd, hstore⟩ := hI.ordered
  obtain ⟨v, hdv, s', hs', -, hv, hmembers⟩ := hstore.resolve_left (fun h => by cases hs.symm.trans h.1)
  obtain rfl := Option.some.inj (hs.symm.trans hs')
  have hboundary : numberOf (c.instances ()).memory.boundaryText = (d : Int) := by
    have hcommitted := hd.committed
    rw [hM.2] at hcommitted
    dsimp only at hcommitted
    obtain hsome | ⟨hnone, rfl⟩ := hcommitted
    · rw [Bounded.boundaryText (b := d) ⟨hsome, by have := hd.seen; rwa [hM.2] at this⟩,
        numberOf_watermarkOf]
    · rw [DeepSeeSynchronizer.boundaryText, hnone]
      decide
  have hseen := hd.seen
  rw [hM.2] at hseen
  refine ⟨hM.2, fun id hid => ?_, ?_, fun now report m' w' h => syncOnce_converges hI hM h⟩
  · obtain ⟨j, h₁, hj, rfl⟩ := hseen id hid
    have hget : c.world.service.events[j - 1]? = some c.world.service.events[j - 1] :=
      List.getElem?_eq_getElem (by omega)
    refine ⟨_, List.getElem_mem (by omega : j - 1 < c.world.service.events.length), ?_, ?_⟩
    · rw [(hcoh.numbered _ _ hget).1, Nat.sub_add_cancel h₁]
    · rw [hcoh.numberOf_watermark hget, hboundary]
      omega
  · have hlen := hcoh.seq_eq
    obtain ⟨t, ht, ht', hseq⟩ := hr.mutates.at_number (v := v) (by rw [h₀.seq]; omega) (by omega)
    have htcoh := ht.coherent h₀.coherent
    have htlen := htcoh.seq_eq
    refine ⟨t, ht, ht', by rw [hboundary]; omega, by omega, fun x => ?_⟩
    have hx := hmembers x
    rw [membersAt_extend ht'.grows.events (by omega)] at hx
    rw [htcoh.mem_members, ← htlen, hseq, ← hx, decide_eq_true_eq]

def sampleStart : System Unit := sampleSystem Unit (sampleService ∅ 1)

theorem sampleStart_started : Started "context" sampleStart :=
  ⟨⟨rfl, rfl, by decide, by decide, rfl, rfl, rfl, rfl⟩, ⟨rfl, rfl, unaryBitMap64_lawful⟩, rfl⟩

/-- A member is added after the bootstrap; its commit fails once the publication has
gone through, and the process starts again. -/
def sampleActions : List (Action Unit) :=
  .mutate (.addMember 7 1) :: wholeCall () .bootstrap 4 ++
    .mutate (.addMember 8 1) :: wholeCall () .syncOnce 6 ++
    [.perform () (some (.external "database is locked")), .restart ()]

def sampleCrashed : System Unit := (sampleStart.run System.Quiet sampleActions).get (by decide)

theorem sampleCrashed_reached : System.Reaches System.Quiet sampleStart sampleCrashed :=
  System.run_reaches _ .refl (Option.some_get _).symm

theorem crash_safe_sample : ∃ s, sampleCrashed.world.store = some s ∧
    Safe "context" sampleStart.world.service sampleCrashed s := by
  have hstarted : Started "context" sampleStart :=
    ⟨⟨rfl, rfl, by decide, by decide, rfl, rfl, rfl, rfl⟩, ⟨rfl, rfl, unaryBitMap64_lawful⟩, rfl⟩
  have hstore : sampleCrashed.world.store.isSome := by decide
  obtain ⟨s, hs⟩ := Option.isSome_iff_exists.mp hstore
  exact ⟨s, hs, crash_safe hstarted sampleCrashed_reached hs⟩

end ContextqlServer.Deepsee.Crash
