import ContextqlServer.Deepsee.Acceptance
import ContextqlServer.Deepsee.Interference
import ContextqlServer.Deepsee.Machine
import ContextqlServer.Deepsee.Scores

namespace ContextqlServer.Deepsee.Rebuild

open ContextqlServer.Lib.Effect ContextqlServer.Lib.Log ContextqlServer.Lib.Mapping
open ContextqlServer.Lib.Python
open ContextqlServer.Deepsee.Models ContextqlServer.Deepsee.MockService
open ContextqlServer.Deepsee.Client ContextqlServer.Deepsee.Store
open ContextqlServer.Deepsee.Synchronizer ContextqlServer.Deepsee.History
open ContextqlServer.Deepsee.Fold ContextqlServer.Deepsee.Batch ContextqlServer.Deepsee.Bootstrap
open ContextqlServer.Deepsee.Consistency ContextqlServer.Deepsee.Rest
open ContextqlServer.Deepsee.Interference ContextqlServer.Deepsee.Acceptance
open ContextqlServer.Deepsee.Scores ContextqlServer.Deepsee.Machine

variable {initial : Dict Int Float64} {m m' : DeepSeeSynchronizer} {s : MockDeepSeeService}
  {w w' : World} {now : Timestamp}

/-- A synchronizer with the same wiring that has not done anything yet. -/
def fresh (m : DeepSeeSynchronizer) : DeepSeeSynchronizer :=
  { m with committedWatermark := none, seenEventIds := ∅ }

/-- The store ends up as a fresh synchronizer's `bootstrap` from the same source makes it. -/
def Rebuilt (m : DeepSeeSynchronizer) (w : World) : Prop :=
  ∃ stored, w.store = some stored ∧ ∀ now, ∃ snapshot m' w',
    World.handler.exec ((fresh m).bootstrap now) ⟨w.service, none, ⟨[], []⟩, w.clock⟩ =
      (.ok (snapshot, m'), w') ∧
    stored.members = snapshot.members ∧ stored.scores = snapshot.scores

/-- The events that a memory has not committed yet. -/
def pendingOf (m : DeepSeeSynchronizer) (s : MockDeepSeeService) : List ChangeEvent :=
  s.events.filter (fun e => numberOf m.boundaryText < numberOf e.watermark)

/-- The pending events leave every entity its last score, and the members are such that a
full snapshot of them goes through. -/
structure Foldable (m : DeepSeeSynchronizer) (w : World) : Prop where
  faithful : ∀ x, Faithful x (pendingOf m w.service)
  accepted : Accepted m.client w.service

/-- Mutations of the source, and then a `sync_once`, with what the clock shows to its client
and the time it is made. -/
structure Round where
  mutations : List Mutation
  clock : Timestamp
  now : Timestamp

def Round.start (r : Round) (w : World) : World :=
  { w with
    service := r.mutations.foldl attempt w.service
    clock := r.clock }

/-- `P` holds of each `sync_once` of a history: of the memory and the world it starts
from and of those it ends with. -/
def EachSync (P : DeepSeeSynchronizer → World → DeepSeeSynchronizer → World → Prop) :
    DeepSeeSynchronizer → World → List Round → Prop
  | _, _, [] => True
  | m, w, r :: rs =>
    match World.handler.exec (m.syncOnce r.now) (r.start w) with
    | (.ok (_, m'), w') => P m (r.start w) m' w' ∧ EachSync P m' w' rs
    | (.error _, _) => True

/-- Memory and store are those of the source at the committed watermark, scores included. -/
structure Exact (initial : Dict Int Float64) (m : DeepSeeSynchronizer) (w : World) : Prop where
  coherent : Coherent initial w.service
  pageSize : 0 < w.service.pageSize
  wellFormed : WellFormed w.service
  bitMap64 : Lawful m.client.bitMap64
  committed : ∃ b stored, Bounded m b ∧ b ≤ w.service.events.length ∧ w.store = some stored ∧
    (∀ x, decide (x ∈ stored.members) = membersAt initial w.service.events b x) ∧
    ∀ x, stored.scores.lookup x = scoresAt initial w.service.events b x

theorem pendingOf_eq {b : Nat} (hs : Coherent initial s) (hb : Bounded m b) :
    pendingOf m s = segment b s.events.length s.events := by
  have hnumber : numberOf m.boundaryText = (b : Int) := by
    rw [hb.boundaryText, numberOf_watermarkOf]
  rw [pendingOf, hnumber, Lib.Log.segment, List.take_length]
  conv_lhs => rw [← List.take_append_drop b s.events, List.filter_append]
  have htake : (s.events.take b).filter (fun e => (b : Int) < numberOf e.watermark) = [] := by
    rw [List.filter_eq_nil_iff]
    intro e he
    obtain ⟨j, hj⟩ := List.mem_iff_getElem?.mp he
    rw [List.getElem?_take] at hj
    split at hj
    · rw [hs.numberOf_watermark hj, decide_eq_true_eq]
      omega
    · cases hj
  have hdrop : (s.events.drop b).filter (fun e => (b : Int) < numberOf e.watermark) =
      s.events.drop b := by
    rw [List.filter_eq_self]
    intro e he
    obtain ⟨j, hj⟩ := List.mem_iff_getElem?.mp he
    rw [List.getElem?_drop] at hj
    rw [hs.numberOf_watermark hj, decide_eq_true_eq]
    omega
  rw [htake, hdrop, List.nil_append]

section Reading

theorem published_succeeds (staged : MembershipSnapshot) (m' : DeepSeeSynchronizer) (w : World) :
    World.handler.Succeeds (do
      let snapshot ← m.publishSnapshot staged
      if m.stateRepository then
        commitState m.contextId staged.sourceWatermark []
      pure (snapshot, m')) w := by
  rw [DeepSeeSynchronizer.publishSnapshot]
  cases m.stagesSnapshots <;> cases m.stateRepository <;> exact ⟨_, _, rfl⟩

/-- A full read is dated as the source dates itself. -/
theorem ingest_dataAsOf (hB : Lawful m.client.bitMap64) {members : Finset Int} {scores : Dict Int Float64}
    {dataAsOf : WireTime} {watermark : String}
    (h : World.handler.exec m.ingest w = (.ok (members, scores, dataAsOf, watermark), w')) :
    dataAsOf = w.service.dataAsOf := by
  refine exec_keeps (I := fun w₁ => w₁.service = w.service) (Q := fun out _ => match out with
    | .ok (_, _, dataAsOf, _) => dataAsOf = w.service.dataAsOf
    | .error _ => True) ?_ h
  apply ingest_keeps (R := Eq) (I := fun w₁ => w₁.service = w.service)
    (fun _ _ _ hw hw' => hw.trans hw') (fun _ _ hw => hw ▸ rfl) hB rfl
  · exact fun _ _ _ => rfl
  · exact fun _ _ _ _ => trivial

theorem bootstrap_succeeds (hB : Lawful m.client.bitMap64) (hw : WellFormed w.service)
    (ha : accepts m.client w.clock w.service = .ok ()) (now : Timestamp) :
    World.handler.Succeeds (m.bootstrap now) w ↔ Accepted m.client w.service := by
  rw [← ingest_succeeds hB hw ha, DeepSeeSynchronizer.bootstrap, Handler.succeeds_bind]
  constructor
  · rintro ⟨a, w₁, h, -⟩
    exact ⟨a, w₁, h⟩
  · rintro ⟨⟨members, scores, dataAsOf, watermark⟩, w₁, h⟩
    obtain rfl := ingest_dataAsOf hB h
    exact ⟨_, w₁, h, published_succeeds ⟨members, scores, now, _, watermark⟩ _ w₁⟩

/-- A `bootstrap` that has gone through tells that the source's settings are in order. -/
theorem wellFormed_of_bootstrap {snapshot : MembershipSnapshot} (hB : Lawful m.client.bitMap64)
    (h : World.handler.exec (m.bootstrap now) w = (.ok (snapshot, m'), w')) :
    WellFormed w.service := by
  obtain ⟨_, _, h, -⟩ := Handler.exec_bind_ok.mp h
  obtain ⟨page, w₁, hexec, h⟩ := Handler.exec_bind_ok.mp h
  rw [exec_fetchSnapshot] at hexec
  obtain ⟨hfetch, rfl⟩ := Prod.mk.inj hexec
  cases hm : w.service.bitmapSnapshot with
  | false =>
    have hstart : MockDeepSeeService.offsetOf none = .ok ((0 : Nat) : Int) := rfl
    obtain ⟨ha, -, -⟩ := (fetchSnapshot_ids_ok hm hstart).mp hfetch
    exact ⟨(accepts_ok.mp ha).2.2, fun hb => by cases hm.symm.trans hb⟩
  | true =>
    obtain ⟨payload, hpayload, rfl⟩ := fetchSnapshot_bitmap_ok hm hfetch
    rw [fetchSnapshot_bitmap hm] at hfetch
    obtain ⟨_, -, hfetch⟩ := bind_eq_ok.mp hfetch
    obtain ⟨_, -, hfetch⟩ := bind_eq_ok.mp hfetch
    obtain ⟨_, -, hfetch⟩ := bind_eq_ok.mp hfetch
    obtain ⟨⟨⟩, hkey, -⟩ := bind_eq_ok.mp hfetch
    refine ⟨hkey, fun _ => ?_⟩
    obtain ⟨members, w₁, hdecode, -⟩ := Handler.exec_bind_ok.mp h
    rw [World.handler.exec_ofExcept] at hdecode
    obtain ⟨_, -, hdecode⟩ := bind_eq_ok.mp (Prod.mk.inj hdecode).1
    rw [deserialize_bitmapPayload hB hpayload] at hdecode
    cases hmal : w.service.malformedBitmap with
    | false => rfl
    | true =>
      rw [hmal] at hdecode
      cases hdecode

/-- A `sync_once` that has gone through tells that the service and the client let calls
through. -/
theorem entered_of_syncOnce {report : SyncReport}
    (h : World.handler.exec (m.syncOnce now) w = (.ok (report, m'), w')) :
    w.service.enterCall m.client.token = .ok () ∧
      m.client.validateFreshness w.clock w.service.dataAsOf = .ok () := by
  have hfetched : ∀ committed cursor batch w₁,
      World.handler.exec (fetchChanges m.client committed cursor) w = (.ok batch, w₁) →
      w.service.enterCall m.client.token = .ok () ∧
        m.client.validateFreshness w.clock w.service.dataAsOf = .ok () := by
    intro committed cursor batch w₁ h
    have hperform := World.handler.exec_perform (.fetchChanges m.client committed cursor) w
    obtain ⟨hfetch, -⟩ := Prod.mk.inj (hperform.symm.trans h)
    obtain ⟨batch', hchanges, hfetch⟩ := bind_eq_ok.mp hfetch
    obtain ⟨⟨⟩, hfresh, -⟩ := bind_eq_ok.mp hfetch
    obtain ⟨⟨⟩, henter, hchanges⟩ := bind_eq_ok.mp hchanges
    obtain ⟨_, -, hchanges⟩ := bind_eq_ok.mp hchanges
    obtain ⟨_, -, hchanges⟩ := bind_eq_ok.mp hchanges
    obtain ⟨_, -, hchanges⟩ := bind_eq_ok.mp hchanges
    obtain rfl := Except.ok.inj hchanges
    exact ⟨henter, hfresh⟩
  cases hc : m.committedWatermark with
  | none =>
    rw [DeepSeeSynchronizer.syncOnce, hc] at h
    cases h
  | some committed =>
    rw [DeepSeeSynchronizer.syncOnce, hc] at h
    obtain ⟨a, w₁, h, -⟩ := Handler.exec_bind_ok.mp h
    obtain ⟨batch, w₂, h, -⟩ := Handler.exec_bind_ok.mp h
    exact hfetched _ _ _ _ h

end Reading

/-- An initial `bootstrap` leaves memory and store exact. -/
theorem Exact.of_bootstrap {snapshot : MembershipSnapshot} (hcoh : Coherent initial w.service)
    (hp : 0 < w.service.pageSize) (hB : Lawful m.client.bitMap64) (hseen : m.seenEventIds = ∅)
    (h : World.handler.exec (m.bootstrap now) w = (.ok (snapshot, m'), w')) :
    Exact initial m' w' := by
  have hw := wellFormed_of_bootstrap hB h
  obtain ⟨hservice, hstore, hmembers, hscores, hwatermark, rfl⟩ := bootstrap_rest hB (aloneRuns_of_exec h)
  have hlen : w.service.watermark = watermarkOf w.service.events.length := by
    rw [MockDeepSeeService.watermark, hcoh.seq_eq]
  have hbounded : Bounded { m with committedWatermark := some w.service.watermark }
      w'.service.events.length := by
    rw [hservice]
    refine ⟨congrArg some hlen, fun id hid => ?_⟩
    rw [hseen] at hid
    exact absurd hid (by simp)
  rw [← hservice] at hcoh hp hw hmembers hscores
  refine ⟨hcoh, hp, hw, hB, _, snapshot, hbounded, le_rfl, hstore, fun x => ?_, fun x => ?_⟩
  · rw [hmembers, ← Bool.coe_iff_coe, ← hcoh.mem_members, decide_eq_true_eq, Finmap.mem_keys]
  · rw [hscores, hcoh.members_eq]

/-- Where the store has the source's members, it is rebuilt when it has its scores too and
a full snapshot goes through. -/
theorem rebuilt_iff {stored : MembershipSnapshot} (hB : Lawful m.client.bitMap64)
    (hw : WellFormed w.service) (ha : accepts m.client w.clock w.service = .ok ())
    (hs : w.store = some stored) (hmembers : stored.members = w.service.members.keys) :
    Rebuilt m w ↔ stored.scores = w.service.members ∧ Accepted m.client w.service := by
  have hsucceeds := bootstrap_succeeds (m := fresh m) (w := ⟨w.service, none, ⟨[], []⟩, w.clock⟩) hB hw ha
  constructor
  · rintro ⟨stored', hs', h⟩
    obtain rfl := Option.some.inj (hs.symm.trans hs')
    obtain ⟨snapshot, m', w', hexec, -, hscores⟩ := h 0
    have hlawful : Lawful (fresh m).client.bitMap64 := hB
    obtain ⟨-, -, -, hsnapshot, -⟩ := bootstrap_rest hlawful (aloneRuns_of_exec hexec)
    exact ⟨hscores.trans hsnapshot, (hsucceeds 0).mp ⟨_, _, hexec⟩⟩
  · rintro ⟨hscores, haccepted⟩
    refine ⟨stored, hs, fun now => ?_⟩
    obtain ⟨⟨snapshot, m'⟩, w', hexec⟩ := (hsucceeds now).mpr haccepted
    have hlawful : Lawful (fresh m).client.bitMap64 := hB
    obtain ⟨-, -, hm, hsnapshot, -⟩ := bootstrap_rest hlawful (aloneRuns_of_exec hexec)
    exact ⟨snapshot, m', w', hexec, hmembers.trans hm.symm, hscores.trans hsnapshot.symm⟩

theorem scores_eq_iff (hcoh : Coherent initial s) (stored : MembershipSnapshot) :
    stored.scores = s.members ↔
      ∀ x, stored.scores.lookup x = scoresAt initial s.events s.events.length x := by
  constructor
  · rintro h x
    rw [h, hcoh.members_eq]
  · intro h
    apply Finmap.ext_lookup
    intro x
    rw [h, hcoh.members_eq]

theorem members_eq_iff (hcoh : Coherent initial s) (stored : MembershipSnapshot) :
    stored.members = s.members.keys ↔
      ∀ x, decide (x ∈ stored.members) = membersAt initial s.events s.events.length x := by
  have hiff : ∀ x, decide (x ∈ stored.members) = membersAt initial s.events s.events.length x ↔
      (x ∈ stored.members ↔ x ∈ s.members.keys) := by
    intro x
    rw [← Bool.coe_iff_coe, ← hcoh.mem_members, decide_eq_true_eq, Finmap.mem_keys]
  simp only [hiff]
  exact Finset.ext_iff

section Applied

variable {b : Nat} {ordered : List ChangeEvent} {f : FoldedChanges} {stored : MembershipSnapshot}

theorem applied_members (hst : Stretch b s.events.length s ordered)
    (hf : Folds ordered f) (hlen : b ≤ s.events.length)
    (hmembers : ∀ x, decide (x ∈ stored.members) = membersAt initial s.events b x)
    (computedAt dataAsOf : Timestamp) (x : Int) :
    decide (x ∈ (stored.applyDelta
      (deltaOf f (watermarkOf s.events.length) computedAt dataAsOf)).members) =
      membersAt initial s.events s.events.length x := by
  have hstored : (fun y => decide (y ∈ stored.members)) = membersAt initial s.events b := by
    funext y
    exact hmembers y
  rw [applyDelta_members hf, hstored, hst.eq, membersAt, membersAt,
    replay_segment _ _ _ le_rfl hlen]

/-- The delta of the pending events brings a score up to date exactly when they are
faithful to the entity. -/
theorem applied_scores (hcoh : Coherent initial s) (hst : Stretch b s.events.length s ordered)
    (hf : Folds ordered f) (hlen : b ≤ s.events.length)
    (hmembers : ∀ x, decide (x ∈ stored.members) = membersAt initial s.events b x)
    (hscores : ∀ x, stored.scores.lookup x = scoresAt initial s.events b x)
    (computedAt dataAsOf : Timestamp) (x : Int) :
    (stored.applyDelta
      (deltaOf f (watermarkOf s.events.length) computedAt dataAsOf)).scores.lookup x =
      scoresAt initial s.events s.events.length x ↔ Faithful x ordered := by
  have hstored : stored.scores.lookup = scoresAt initial s.events b := by
    funext y
    exact hscores y
  have hreplay : replay writesScore stored.scores.lookup ordered =
      scoresAt initial s.events s.events.length := by
    rw [hstored, hst.eq, scoresAt, scoresAt, replay_segment _ _ _ le_rfl hlen]
  rw [← hreplay]
  refine scores_iff_faithful (hst.scored hcoh) hf stored _ _ _ ?_
  rw [hreplay, hcoh.isSome_scoresAt le_rfl,
    ← applied_members hst hf hlen hmembers computedAt dataAsOf, decide_eq_true_eq]

end Applied

/-- One `sync_once` from an exact state: the store is rebuilt exactly when the pending
events are foldable, and then the state is exact again. -/
theorem Exact.sync {report : SyncReport} (he : Exact initial m w)
    (h : World.handler.exec (m.syncOnce now) w = (.ok (report, m'), w')) :
    (Rebuilt m' w' ↔ Foldable m w) ∧ (Foldable m w → Exact initial m' w') := by
  obtain ⟨hcoh, hp, hw, hB, b, stored, hb, hlen, hs, hmembers, hscores⟩ := he
  obtain ⟨henter, hfresh⟩ := entered_of_syncOnce h
  have ha : accepts m.client w.clock w.service = .ok () := accepts_ok.mpr ⟨henter, hfresh, hw.keyType⟩
  have hpending := pendingOf_eq hcoh hb
  obtain ⟨hservice, ⟨hle, hmoves, rfl⟩ | ⟨ordered, f, t, dataAsOf, hst, hf, ht, hstore, rfl⟩⟩ :=
    syncOnce_rest hcoh hp hb hlen (aloneRuns_of_exec h)
  · obtain rfl := hmoves.eq_of_exec h
    obtain rfl : b = w'.service.events.length := le_antisymm hlen hle
    refine ⟨?_, fun _ => ⟨hcoh, hp, hw, hB, _, stored, hb, le_rfl, hs, hmembers, hscores⟩⟩
    rw [rebuilt_iff hB hw ha hs ((members_eq_iff hcoh stored).mpr hmembers)]
    rw [segment_eq_nil le_rfl] at hpending
    refine ⟨fun hr => ⟨fun x => ?_, hr.2⟩, fun hfold => ⟨?_, hfold.accepted⟩⟩
    · rw [hpending]
      exact .of_untouched rfl
    · exact (scores_eq_iff hcoh stored).mpr hscores
  · obtain rfl := Option.some.inj (hs.symm.trans ht)
    have hmembers' := applied_members hst hf hlen hmembers now dataAsOf
    have hscores' := applied_scores hcoh hst hf hlen hmembers hscores now dataAsOf
    have hclock := World.exec_clock h
    obtain ⟨service', store', durable', clock'⟩ := w'
    obtain rfl : service' = w.service := hservice
    obtain rfl : clock' = w.clock := hclock
    have hrebuilt := rebuilt_iff (m := remember m ordered (watermarkOf w.service.events.length))
      (w := ⟨w.service, store', durable', w.clock⟩) hB hw ha hstore ((members_eq_iff hcoh _).mpr hmembers')
    have hfaithful : Foldable m w ↔ (∀ x, Faithful x ordered) ∧ Accepted m.client w.service := by
      rw [hst.eq, ← hpending]
      exact ⟨fun h => ⟨h.faithful, h.accepted⟩, fun h => ⟨h.1, h.2⟩⟩
    rw [hrebuilt, scores_eq_iff hcoh, hfaithful]
    refine ⟨and_congr_left' (forall_congr' hscores'), fun hfold => ⟨hcoh, hp, hw, hB, _, _,
      hb.remember hcoh hst, le_rfl, hstore, hmembers', ?_⟩⟩
    exact fun x => (hscores' x).mpr (hfold.1 x)

theorem Exact.start (he : Exact initial m w) (r : Round) : Exact initial m (r.start w) := by
  have hm := mutates_attempts w.service r.mutations
  have hext := hm.grows
  obtain ⟨b, stored, hb, hlen, hs, hmembers, hscores⟩ := he.committed
  refine ⟨hm.coherent he.coherent, hext.pageSize.symm ▸ he.pageSize, he.wellFormed.extend hext,
    he.bitMap64, b, stored, hb, hlen.trans hext.length_le, hs, fun x => ?_, fun x => ?_⟩
  · rw [hmembers]
    exact (membersAt_extend hext.events hlen).symm ▸ rfl
  · rw [hscores]
    exact (scoresAt_extend hext.events hlen).symm ▸ rfl

theorem Exact.eachSync (he : Exact initial m w) (rounds : List Round) :
    EachSync (fun _ _ m' w' => Rebuilt m' w') m w rounds ↔
      EachSync (fun m w _ _ => Foldable m w) m w rounds := by
  induction rounds generalizing m w with
  | nil => exact Iff.rfl
  | cons r rounds ih =>
    rw [EachSync, EachSync]
    split
    · rename_i report m' w' hexec
      obtain ⟨hrebuilt, hexact⟩ := (he.start r).sync hexec
      rw [hrebuilt]
      exact and_congr_right (fun hf => ih (hexact hf))
    · exact Iff.rfl

/-- After an initial `bootstrap` every `sync_once` leaves the store as a rebuild would make
it exactly when every `sync_once` finds pending events that are foldable. -/
theorem syncs_rebuild_iff {s₀ : MockDeepSeeService} (hevents : s₀.events = []) (hseq : s₀.seq = 0)
    (hp : 0 < s₀.pageSize) (hs : Mutates s₀ w.service) (hB : Lawful m.client.bitMap64)
    {snapshot : MembershipSnapshot}
    (h : World.handler.exec ((fresh m).bootstrap now) w = (.ok (snapshot, m'), w'))
    (rounds : List Round) :
    EachSync (fun _ _ m' w' => Rebuilt m' w') m' w' rounds ↔
      EachSync (fun m w _ _ => Foldable m w) m' w' rounds := by
  have hcoh : Coherent s₀.members w.service := hs.coherent (.of_new hevents hseq)
  have hpage : 0 < w.service.pageSize := hs.grows.pageSize.symm ▸ hp
  exact (Exact.of_bootstrap (m := fresh m) hcoh hpage hB rfl h).eachSync rounds

section Sample

/-- A source whose one member is 7, with score 1. -/
def sampleWorld : World := ⟨sampleService (collect (fun _ => some 1) [7]) 10, none, ⟨[], []⟩, baseTime⟩

def sampleBooted : Except Exn (MembershipSnapshot × DeepSeeSynchronizer) × World :=
  World.handler.exec ((fresh sampleSynchronizer).bootstrap 0) sampleWorld

def bootedMemory : DeepSeeSynchronizer := (sampleBooted.1.toOption.get (by decide)).2

theorem syncs_rebuild_iff_sample :
    EachSync (fun _ _ m' w' => Rebuilt m' w') bootedMemory sampleBooted.2 [⟨[.addMember 8 1], baseTime, 0⟩] ↔
      EachSync (fun m w _ _ => Foldable m w) bootedMemory sampleBooted.2 [⟨[.addMember 8 1], baseTime, 0⟩] := by
  have hbooted : sampleBooted = (.ok ((sampleBooted.1.toOption.get (by decide)).1, bootedMemory),
      sampleBooted.2) := exec_returned (by decide)
  exact syncs_rebuild_iff rfl rfl (by decide) .refl
    (m := sampleSynchronizer) unaryBitMap64_lawful hbooted _

/-- After some mutations and a `sync_once`: the score an entity has in the store, and the
one a rebuild gives it. -/
def syncedScores (ms : List Mutation) (x : Int) :
    Option (Option (Option Float64) × Option (Option Float64)) :=
  match World.handler.exec (bootedMemory.syncOnce 0) ((⟨ms, baseTime, 0⟩ : Round).start sampleBooted.2) with
  | (.ok (_, m), w) =>
    some (w.store.map (fun s => s.scores.lookup x),
      (World.handler.exec ((fresh m).bootstrap 0) ⟨w.service, none, ⟨[], []⟩, w.clock⟩).1.toOption.map
        (fun r => r.1.scores.lookup x))
  | (.error _, _) => none

theorem not_rebuilt {ms : List Mutation} {x : Int} {stored rebuilt : Option (Option Float64)}
    (h : syncedScores ms x = some (stored, rebuilt)) (hne : stored ≠ rebuilt) :
    ¬ EachSync (fun _ _ m' w' => Rebuilt m' w') bootedMemory sampleBooted.2 [⟨ms, baseTime, 0⟩] := by
  rw [syncedScores] at h
  rw [EachSync]
  split at h
  · rename_i report m w hexec
    rw [hexec]
    rintro ⟨⟨s, hs, hr⟩, -⟩
    obtain ⟨snapshot, m', w', hrebuild, -, hscores⟩ := hr 0
    rw [hs, hrebuild] at h
    obtain ⟨rfl, rfl⟩ := Prod.mk.inj (Option.some.inj h)
    exact hne (congrArg (fun scores : Dict Int Float64 => some (scores.lookup x)) hscores)
  · cases h

/-- An addition with score zero is stored with score one, a score change outlives the
addition that follows it, and a rebuild refuses an entity that the change feed took. -/
theorem sync_differs_from_rebuild :
    (syncedScores [.addMember 7 0] 7 = some (some (some 1), some (some 0)) ∧
      ¬ EachSync (fun _ _ m' w' => Rebuilt m' w') bootedMemory sampleBooted.2
        [⟨[.addMember 7 0], baseTime, 0⟩]) ∧
    (syncedScores [.changeScore 7 (.finite 2), .addMember 7 (.finite 3)] 7 =
        some (some (some (.finite 2)), some (some (.finite 3))) ∧
      ¬ EachSync (fun _ _ m' w' => Rebuilt m' w') bootedMemory sampleBooted.2
        [⟨[.changeScore 7 (.finite 2), .addMember 7 (.finite 3)], baseTime, 0⟩]) ∧
    (syncedScores [.addMember (-5) 1] (-5) = some (some (some 1), none) ∧
      ¬ EachSync (fun _ _ m' w' => Rebuilt m' w') bootedMemory sampleBooted.2
        [⟨[.addMember (-5) 1], baseTime, 0⟩]) := by
  have hzero : syncedScores [.addMember 7 0] 7 = some (some (some 1), some (some 0)) := by decide
  have hchange : syncedScores [.changeScore 7 (.finite 2), .addMember 7 (.finite 3)] 7 =
      some (some (some (.finite 2)), some (some (.finite 3))) := by decide
  have hnegative : syncedScores [.addMember (-5) 1] (-5) = some (some (some 1), none) := by decide
  exact ⟨⟨hzero, not_rebuilt hzero (by decide)⟩, ⟨hchange, not_rebuilt hchange (by decide)⟩,
    hnegative, not_rebuilt hnegative (by decide)⟩

end Sample

end ContextqlServer.Deepsee.Rebuild
