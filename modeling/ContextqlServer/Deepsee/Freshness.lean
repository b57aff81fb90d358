import ContextqlServer.Deepsee.Torn

namespace ContextqlServer.Deepsee.Freshness

open ContextqlServer.Lib.Effect ContextqlServer.Lib.Feed ContextqlServer.Lib.Log ContextqlServer.Lib.Mapping
open ContextqlServer.Lib.Python ContextqlServer.Lib.Rely
open ContextqlServer.Deepsee.Models ContextqlServer.Deepsee.MockService
open ContextqlServer.Deepsee.Client ContextqlServer.Deepsee.Store
open ContextqlServer.Deepsee.Synchronizer ContextqlServer.Deepsee.History ContextqlServer.Deepsee.Fetch
open ContextqlServer.Deepsee.Batch ContextqlServer.Deepsee.Bootstrap ContextqlServer.Deepsee.Machine
open ContextqlServer.Deepsee.Consistency ContextqlServer.Deepsee.Contiguous ContextqlServer.Deepsee.Rest
open ContextqlServer.Deepsee.Interference ContextqlServer.Deepsee.Fold

variable {initial : Dict Int Float64} {s s' : MockDeepSeeService} {μ : Schedule} {w : World}

section Time

/-- The events are dated by their numbers. -/
def Timed (s : MockDeepSeeService) : Prop :=
  ∀ (i : Nat) (e : ChangeEvent), s.events[i]? = some e → e.effectiveAt = .iso (baseTime + (i + 1 : Nat) * second)

theorem Timed.record (h : Timed s) (hs : s.seq = s.events.length) (members : Dict Int Float64) (i : Int)
    (t : ChangeType) (score : Option Float64) : Timed (({ s with members }).recordEvent i t score).2 := by
  intro j e hj
  dsimp only [MockDeepSeeService.recordEvent] at hj
  rw [List.getElem?_append] at hj
  split at hj
  · exact h j e hj
  · rw [List.getElem?_singleton] at hj
    split at hj
    · obtain rfl := Option.some.inj hj
      have hj' : s.seq + 1 = j + 1 := by omega
      rw [hj']
    · cases hj

theorem Timed.mutate (h : Timed s) (hs : Coherent initial s) {m : Mutation} (hm : mutate s m = .ok s') : Timed s' := by
  cases m with
  | addMember i x =>
    cases hm
    exact h.record hs.seq_eq _ _ _ _
  | removeMember i =>
    cases hm
    exact h.record hs.seq_eq _ _ _ _
  | changeScore i x =>
    rw [History.mutate, MockDeepSeeService.changeScore] at hm
    split at hm
    · cases hm
      exact h.record hs.seq_eq _ _ _ _
    · cases hm

theorem Timed.mutates (h : Timed s) (hs : Coherent initial s) (hm : Mutates s s') : Timed s' := by
  induction hm with
  | refl => exact h
  | tail hm hstep ih =>
    obtain ⟨m, hstep⟩ := hstep
    exact ih.mutate (Mutates.coherent hm hs) hstep

theorem staleDataAsOf_extends (h : Extends s s') : s'.staleDataAsOf = s.staleDataAsOf := by
  rw [← h.settings]

end Time

section Pages

/-- The slots on page number `k` of a feed since `b`, counted from 0, when it is fetched. -/
def slots (μ : Schedule) (s : MockDeepSeeService) (b k : Nat) : List ChangeEvent :=
  (((layoutOf s).arrange ((sourceAt μ s (k + 1)).events.drop (feedStart s b))).drop (k * s.pageSize)).take s.pageSize

def fetched (μ : Schedule) (s : MockDeepSeeService) (b n : Nat) : List ChangeEvent :=
  (List.range n).flatMap (slots μ s b)

/-- The number of slots that the feed has when page number `k` is fetched. -/
def slotCount (μ : Schedule) (s : MockDeepSeeService) (b k : Nat) : Nat :=
  (layoutOf s).copies * ((sourceAt μ s (k + 1)).events.length - feedStart s b)

/-- Page number `j`, counted from 0, is the last one. -/
structure LastBatch (μ : Schedule) (s : MockDeepSeeService) (b j : Nat) : Prop where
  more : ∀ k < j, (k + 1) * s.pageSize < slotCount μ s b k
  ends : slotCount μ s b j ≤ (j + 1) * s.pageSize

theorem fetched_succ (b n : Nat) : fetched μ s b (n + 1) = fetched μ s b n ++ slots μ s b n := by
  rw [fetched, fetched, List.range_succ, List.flatMap_append, List.flatMap_singleton]

theorem fetchChanges_dataAsOf {c : DeepSeeClient} {now : Timestamp} {since : String} {cursor : Option String}
    {batch : ChangeBatch} (h : c.fetchChanges now s since cursor = .ok batch) : batch.dataAsOf = s.dataAsOf := by
  obtain ⟨page, hpage, h⟩ := bind_eq_ok.mp h
  obtain ⟨_, -, h⟩ := bind_eq_ok.mp h
  obtain rfl := Except.ok.inj h
  obtain ⟨_, -, hpage⟩ := bind_eq_ok.mp hpage
  obtain ⟨_, -, hpage⟩ := bind_eq_ok.mp hpage
  obtain ⟨_, -, hpage⟩ := bind_eq_ok.mp hpage
  obtain ⟨_, -, hpage⟩ := bind_eq_ok.mp hpage
  obtain rfl := Except.ok.inj hpage
  rfl

theorem exec_fetchChanges_interfered {client : DeepSeeClient} {since : String} {cursor : Option String}
    {batch : ChangeBatch} {c c' : World × Nat}
    (h : (interfered μ).exec (fetchChanges client since cursor) c = (.ok batch, c')) :
    c' = (moved μ c.2 c.1, c.2 + 1) ∧
      client.fetchChanges (μ.clock c.2) (moved μ c.2 c.1).service since cursor = .ok batch := by
  have hperform := ((interfered μ).exec_perform (.fetchChanges client since cursor) c).symm.trans h
  exact ⟨(congrArg Prod.snd hperform).symm, congrArg Prod.fst hperform⟩

/-- The pages of the change feed of a moving source, from page number `k` on. -/
theorem exec_fetchAllChangesLoop {self : DeepSeeSynchronizer} (hw : w.service = s) (hs : Coherent initial s) {b : Nat}
    {events : List ChangeEvent} {dataAsOf : WireTime} {c' : World × Nat} (remaining k : Nat) {cursor : Option String}
    (hcursor : MockDeepSeeService.offsetOf cursor = .ok ((k * s.pageSize : Nat) : Int))
    (hmore : ∀ i < k, (i + 1) * s.pageSize < slotCount μ s b i)
    (h : (interfered μ).exec (self.fetchAllChangesLoop (watermarkOf b) remaining (fetched μ s b k) cursor)
      (worldAt μ w k, k) = (.ok (events, dataAsOf), c')) :
    ∃ j, LastBatch μ s b j ∧ events = fetched μ s b (j + 1) ∧ dataAsOf = (sourceAt μ s (j + 1)).dataAsOf ∧
      c' = (worldAt μ w (j + 1), j + 1) := by
  induction remaining generalizing k cursor with
  | zero => cases h
  | succ remaining ih =>
    obtain ⟨batch, c₁, hfetch, h⟩ := Handler.exec_bind_ok.mp h
    obtain ⟨rfl, hbatch⟩ := exec_fetchChanges_interfered hfetch
    rw [moved_worldAt, worldAt_service, hw] at hbatch
    have hextends : Extends s (sourceAt μ s (k + 1)) := (mutates_sourceAt μ s (Nat.zero_le (k + 1))).grows
    have hcoherent : Coherent initial (sourceAt μ s (k + 1)) := (mutates_sourceAt μ s (Nat.zero_le (k + 1))).coherent hs
    obtain ⟨hevents, hnext⟩ := fetchChanges_ok hcoherent hcursor hbatch
    have hpage : (sourceAt μ s (k + 1)).pageSize = s.pageSize := hextends.pageSize
    have hslots : batch.events = slots μ s b k := by
      rw [hevents, layoutOf_extends hextends, feedStart_extends hextends, hpage, slots]
    have hcount : batch.nextCursor =
        if (k + 1) * s.pageSize < slotCount μ s b k then some (toString (((k + 1) * s.pageSize : Nat) : Int))
        else none := by
      rw [hnext, layoutOf_extends hextends, feedStart_extends hextends, hpage, ← Nat.succ_mul, slotCount]
    rw [hslots, ← fetched_succ, hcount, moved_worldAt] at h
    by_cases hlast : (k + 1) * s.pageSize < slotCount μ s b k
    · rw [if_pos hlast] at h
      refine ih (k + 1) (offsetOf_toString _) (fun i hi => ?_) h
      rcases Nat.lt_succ_iff_lt_or_eq.mp hi with hi | rfl
      · exact hmore i hi
      · exact hlast
    · rw [if_neg hlast] at h
      cases h
      exact ⟨k, ⟨hmore, Nat.not_lt.mp hlast⟩, rfl, fetchChanges_dataAsOf hbatch, rfl⟩

end Pages

section Newest

variable {b j m : Nat}

theorem position_unique (hs : Coherent initial s) {i k : Nat} {e : ChangeEvent} (hi : s.events[i]? = some e)
    (hk : s.events[k]? = some e) : i = k := by
  have hnumber := (hs.numberOf_watermark hi).symm.trans (hs.numberOf_watermark hk)
  omega

/-- The newest event on page number `k` is the newest of the last page's log. -/
theorem mem_slots (hs : Coherent initial s) {k : Nat} (hk : k ≤ j) {e : ChangeEvent} {N : Nat}
    (hN : (sourceAt μ s (j + 1)).events[N]? = some e) :
    e ∈ slots μ s b k ↔ ∃ slot, k * s.pageSize ≤ slot ∧ slot < k * s.pageSize + s.pageSize ∧
      slot < slotCount μ s b k ∧
      feedStart s b +
        (layoutOf s).position ((sourceAt μ s (k + 1)).events.length - feedStart s b) slot = N := by
  have hlog : (sourceAt μ s (k + 1)).events <+: (sourceAt μ s (j + 1)).events :=
    (mutates_sourceAt μ s (Nat.succ_le_succ hk)).grows.events
  have hlast : Coherent initial (sourceAt μ s (j + 1)) := (mutates_sourceAt μ s (Nat.zero_le (j + 1))).coherent hs
  rw [slots, Layout.mem_page]
  apply exists_congr
  intro slot
  rw [List.length_drop]
  refine and_congr_right fun _ => and_congr_right fun _ => and_congr_right fun hslot => ?_
  rw [List.getElem?_drop]
  constructor
  · intro h
    refine position_unique hlast ?_ hN
    obtain ⟨rest, hrest⟩ := hlog
    rw [← hrest, List.getElem?_append_left (List.getElem?_eq_some_iff.mp h).1, h]
  · rintro rfl
    have hshort : feedStart s b +
        (layoutOf s).position ((sourceAt μ s (k + 1)).events.length - feedStart s b) slot <
          (sourceAt μ s (k + 1)).events.length := by
      have hposition := (layoutOf s).position_lt hslot
      omega
    obtain ⟨rest, hrest⟩ := hlog
    rw [← hrest, List.getElem?_append_left hshort] at hN
    exact hN

theorem mem_fetched {n : Nat} {e : ChangeEvent} : e ∈ fetched μ s b n ↔ ∃ k < n, e ∈ slots μ s b k := by
  rw [fetched, List.mem_flatMap]
  exact exists_congr fun k => and_congr_left fun _ => List.mem_range

theorem newest_in_order (hs : Coherent initial s) (hlast : LastBatch μ s b j) (horder : s.outOfOrder = false)
    {e : ChangeEvent} {N : Nat} (hN : (sourceAt μ s (j + 1)).events[N]? = some e)
    (hlength : (sourceAt μ s (j + 1)).events.length = N + 1) (hbase : feedStart s b ≤ N) : e ∈ slots μ s b j := by
  have hpos : 0 < (layoutOf s).copies := (layoutOf s).copies_pos
  have hcount : slotCount μ s b j = (layoutOf s).copies * (N - feedStart s b) + (layoutOf s).copies := by
    rw [slotCount, hlength, Nat.succ_sub hbase, Nat.mul_succ]
  have hends := hlast.ends
  rw [Nat.succ_mul, hcount] at hends
  have hstart : j * s.pageSize ≤ slotCount μ s b j - 1 := by
    cases j with
    | zero => exact (Nat.zero_mul _).symm ▸ Nat.zero_le _
    | succ j =>
      have hmore := hlast.more j (Nat.lt_succ_self j)
      have hgrows := (mutates_sourceAt μ s (Nat.le_succ (j + 1))).grows.length_le
      have hcounts : slotCount μ s b j ≤ slotCount μ s b (j + 1) :=
        Nat.mul_le_mul_left _ (Nat.sub_le_sub_right hgrows _)
      omega
  rw [mem_slots hs (le_refl j) hN]
  refine ⟨slotCount μ s b j - 1, hstart, by omega, by omega, ?_⟩
  have hdiv : (slotCount μ s b j - 1) / (layoutOf s).copies = N - feedStart s b := by
    rw [hcount]
    apply Nat.div_eq_of_lt_le
    · rw [Nat.mul_comm]
      omega
    · rw [Nat.succ_mul, Nat.mul_comm]
      omega
  have hreversed : (layoutOf s).reversed = false := horder
  rw [Layout.position, hreversed, hdiv, if_neg Bool.false_ne_true]
  omega

/-- Newest first, a page shows the newest event of the last log when that event has been there
already and the page has its slots. -/
theorem newest_reversed (hs : Coherent initial s) (horder : s.outOfOrder = true) {k : Nat} (hk : k ≤ j)
    {e : ChangeEvent} {N : Nat} (hN : (sourceAt μ s (j + 1)).events[N]? = some e)
    (hlength : (sourceAt μ s (j + 1)).events.length = N + 1) (hbase : feedStart s b ≤ N) (hp : 0 < s.pageSize) :
    e ∈ slots μ s b k ↔
      (sourceAt μ s (k + 1)).events.length = N + 1 ∧ k * s.pageSize < (layoutOf s).copies := by
  have hpos : 0 < (layoutOf s).copies := (layoutOf s).copies_pos
  have hgrows : (sourceAt μ s (k + 1)).events.length ≤ N + 1 :=
    hlength ▸ (mutates_sourceAt μ s (Nat.succ_le_succ hk)).grows.length_le
  have hreversed : (layoutOf s).reversed = true := horder
  rw [mem_slots hs hk hN]
  constructor
  · rintro ⟨slot, hstart, -, hslot, hposition⟩
    rw [slotCount] at hslot
    have hdiv : slot / (layoutOf s).copies < (sourceAt μ s (k + 1)).events.length - feedStart s b :=
      Nat.div_lt_of_lt_mul hslot
    rw [Layout.position, hreversed, if_pos rfl] at hposition
    have hzero : slot / (layoutOf s).copies = 0 := by
      generalize slot / (layoutOf s).copies = q at hdiv hposition ⊢
      omega
    have hsmall : slot < (layoutOf s).copies := (Nat.div_eq_zero_iff_lt hpos).mp hzero
    rw [hzero] at hposition
    exact ⟨by omega, hstart.trans_lt hsmall⟩
  · rintro ⟨hnewest, hstart⟩
    refine ⟨k * s.pageSize, le_refl _, Nat.lt_add_of_pos_right hp, ?_, ?_⟩
    · rw [slotCount, hnewest, Nat.succ_sub hbase, Nat.mul_succ]
      omega
    · rw [Layout.position, hreversed, if_pos rfl, Nat.div_eq_of_lt hstart, hnewest]
      omega

/-- The feed cannot fall behind its last page: it is in order, nothing was recorded since the first
page, or the first page shows one of two copies of the newest event and nothing was recorded
since the second. -/
def Settled (μ : Schedule) (s : MockDeepSeeService) (j : Nat) : Prop :=
  s.outOfOrder = false ∨ (sourceAt μ s 1).seq = (sourceAt μ s (j + 1)).seq ∨
    s.duplicateDelivery = true ∧ s.pageSize = 1 ∧ 1 ≤ j ∧ (sourceAt μ s 2).seq = (sourceAt μ s (j + 1)).seq

theorem newest_fetched_iff (hs : Coherent initial s) (hlast : LastBatch μ s b j) (hp : 0 < s.pageSize)
    {e : ChangeEvent} {N : Nat} (hN : (sourceAt μ s (j + 1)).events[N]? = some e)
    (hlength : (sourceAt μ s (j + 1)).events.length = N + 1) (hbase : feedStart s b ≤ N) :
    e ∈ fetched μ s b (j + 1) ↔ Settled μ s j := by
  have hseq : ∀ k, (sourceAt μ s k).seq = (sourceAt μ s k).events.length :=
    fun k => ((mutates_sourceAt μ s (Nat.zero_le k)).coherent hs).seq_eq
  rw [mem_fetched, Settled]
  cases horder : s.outOfOrder with
  | false => exact iff_of_true ⟨j, Nat.lt_succ_self j, newest_in_order hs hlast horder hN hlength hbase⟩ (.inl rfl)
  | true =>
    have hcopies : (layoutOf s).copies = if s.duplicateDelivery then 2 else 1 := rfl
    rw [Bool.true_eq_false, false_or, hseq, hseq, hseq, hlength]
    constructor
    · rintro ⟨k, hk, hmem⟩
      obtain ⟨hnewest, hstart⟩ :=
        (newest_reversed hs horder (Nat.le_of_lt_succ hk) hN hlength hbase hp).mp hmem
      cases k with
      | zero => exact .inl hnewest
      | succ k =>
        rw [hcopies, Nat.succ_mul] at hstart
        split at hstart
        next hdup =>
          have hsize : s.pageSize = 1 := by omega
          rw [hsize] at hstart
          obtain rfl : k = 0 := by omega
          exact .inr ⟨hdup, hsize, by omega, hnewest⟩
        next => omega
    · rintro (hnewest | ⟨hdup, hsize, hj, hnewest⟩)
      · refine ⟨0, Nat.succ_pos j, (newest_reversed hs horder (Nat.zero_le j) hN hlength hbase hp).mpr ⟨hnewest, ?_⟩⟩
        rw [Nat.zero_mul]
        exact (layoutOf s).copies_pos
      · refine ⟨1, by omega, (newest_reversed hs horder hj hN hlength hbase hp).mpr ⟨hnewest, ?_⟩⟩
        rw [hcopies, hdup, hsize]
        decide

end Newest

section Run

variable {self self' : DeepSeeSynchronizer} {now : Timestamp} {report : SyncReport} {b : Nat} {c' : World × Nat}

theorem exec_fetchAllChanges (hs : Coherent initial w.service) (hp : 0 < w.service.pageSize)
    (hlen : b ≤ w.service.events.length) {events : List ChangeEvent} {dataAsOf : WireTime}
    (h : (interfered μ).exec (self.fetchAllChanges (watermarkOf b)) (w, 0) = (.ok (events, dataAsOf), c')) :
    ∃ j, LastBatch μ w.service b j ∧ events = fetched μ w.service b (j + 1) ∧
      dataAsOf = (sourceAt μ w.service (j + 1)).dataAsOf ∧
      c' = (worldAt μ w (j + 1), j + 1) ∧
      Fetched b w.service.events.length (sourceAt μ w.service (j + 1)) events := by
  have hzero : MockDeepSeeService.offsetOf none = .ok ((0 * w.service.pageSize : Nat) : Int) := by
    rw [Nat.zero_mul]
    rfl
  obtain ⟨j, hlast, hevents, hdata, hc⟩ :=
    exec_fetchAllChangesLoop rfl hs maxPages 0 hzero (fun i hi => absurd hi (Nat.not_lt_zero i)) h
  have hstart : Since initial w.service w := ⟨hs, hp, .refl⟩
  have hkeeps : Keeps (Guarded (fun _ _ => True)) SourceMoves (Since initial w.service)
      (fun out w' => match out with
        | .ok (events, _) => Fetched b w.service.events.length w'.service events
        | .error _ => True) (self.fetchAllChanges (watermarkOf b)) w := by
    apply fetchAllChangesLoop_keeps (R := SourceMoves) (fun _ _ _ => SourceMoves.trans) (fun _ _ h => h.mutates.grows)
      (fun _ h => ⟨h.1, h.2.1⟩)
    · exact fun _ _ _ _ _ hfetched => hfetched
    · exact fun _ _ _ _ => trivial
    · exact SourceMoves.refl w
    · exact hstart
    · exact Reading.start hlen
  have hfetched := hkeeps.runs Guarded.of_faulty (fun _ _ h => h) (fun _ _ hw h => h.moves hw) (runs_of_exec h)
  rw [hc] at hfetched
  exact ⟨j, hlast, hevents, hdata, hc, hfetched⟩

/-- How a `sync_once` ends that has folded the events up to number `m`: with nothing done, or with
what it has published and committed. -/
def Ended (self : DeepSeeSynchronizer) (b m : Nat) (dataAsOf : WireTime) (self' : DeepSeeSynchronizer) (w' : World) :
    Prop :=
  m ≤ b ∧ self' = self ∨
    b < m ∧ self'.committedWatermark = some (watermarkOf m) ∧
      ∃ stored, w'.store = some stored ∧ parseIso dataAsOf = .ok stored.dataAsOf ∧
        stored.sourceWatermark = watermarkOf m

theorem exec_finish {committed : String} {dataAsOf : WireTime} {duplicates outOfOrder m : Nat} {c : World × Nat}
    (hs : Coherent initial c.1.service) (hm : m ≤ c.1.service.events.length)
    (h : (interfered μ).exec
      (finish self committed now (segment b m c.1.service.events, dataAsOf, duplicates, outOfOrder))
      c = (.ok (report, self'), c')) : Ended self b m dataAsOf self' c'.1 := by
  have hkeeps : Keeps (Guarded (fun _ _ => True)) SourceMoves (fun _ => True)
      (fun out w' => match out with
        | .ok (_, self') => Ended self b m dataAsOf self' w'
        | .error _ => True)
      (finish self committed now (segment b m c.1.service.events, dataAsOf, duplicates, outOfOrder)) c.1 := by
    apply finish_keeps (R := SourceMoves) SourceMoves.refl (fun _ _ _ => SourceMoves.trans) hs trivial hm
    · exact fun hmb _ => .inl ⟨hmb, rfl⟩
    · intro ordered f s w₁ asOf hst hf hw₁ _ hstore hasOf d hd _ report
      have hended : ∀ w₂ : World, w₂.store = some (s.applyDelta d) →
          Ended self b m dataAsOf (remember self ordered (watermarkOf m)) w₂ := by
        intro w₂ hstore₂
        refine .inr ⟨hst.lt, rfl, _, hstore₂, ?_⟩
        rw [hd]
        exact ⟨hasOf, rfl⟩
      rw [Commits]
      split
      · refine ⟨trivial, ?_⟩
        rintro w₂ ⟨source, clock, -, rfl⟩ -
        exact ⟨fun _ => trivial, fun _ => hended _ rfl⟩
      · exact hended _ rfl
    · exact fun _ _ _ _ => trivial
  exact hkeeps.runs Guarded.of_faulty (fun _ _ h => h) (fun _ _ _ _ => trivial) (runs_of_exec h)

theorem exec_syncOnce (hb : Bounded self b) (hs : Coherent initial w.service) (hp : 0 < w.service.pageSize)
    (hlen : b ≤ w.service.events.length)
    (h : (interfered μ).exec (self.syncOnce now) (w, 0) = (.ok (report, self'), c')) :
    ∃ j m, LastBatch μ w.service b j ∧ m ≤ (sourceAt μ w.service (j + 1)).events.length ∧
      (∀ e, e ∈ fetched μ w.service b (j + 1) ↔
        e ∈ segment (feedStart w.service b) m (sourceAt μ w.service (j + 1)).events) ∧
      Ended self b m (sourceAt μ w.service (j + 1)).dataAsOf self' c'.1 ∧
      Mutates (sourceAt μ w.service (j + 1)) c'.1.service := by
  rw [syncOnce_eq hb.committed] at h
  obtain ⟨⟨ordered, dataAsOf, duplicates, outOfOrder⟩, c₁, hpull, hfinish⟩ := Handler.exec_bind_ok.mp h
  obtain ⟨⟨events, dataAsOf'⟩, c₂, hfetch, hpull⟩ := Handler.exec_bind_ok.mp hpull
  obtain ⟨j, hlast, hevents, hdata, rfl, m, -, hm, hmem⟩ := exec_fetchAllChanges hs hp hlen hfetch
  have hextends : Extends w.service (sourceAt μ w.service (j + 1)) :=
    (mutates_sourceAt μ w.service (Nat.zero_le _)).grows
  have hcoherent : Coherent initial (sourceAt μ w.service (j + 1)) :=
    (mutates_sourceAt μ w.service (Nat.zero_le _)).coherent hs
  have hlogged : ∀ e ∈ events, e ∈ (sourceAt μ w.service (j + 1)).events := by
    intro e he
    obtain ⟨i, -, -, hi⟩ := mem_segment.mp ((hmem e).mp he)
    exact List.mem_of_getElem? hi
  obtain ⟨f, hf, hfilters⟩ := filterEvents_ok hcoherent hb hlogged
  have hsort := sortedByWatermark_segment hcoherent hfilters.nodup (hfilters.mem_segment_iff hcoherent hmem)
  simp only [hf, hsort, Prog.ofExcept, Prog.bind_pure] at hpull
  cases hpull
  refine ⟨j, m, hlast, hm, ?_, ?_, ?_⟩
  · intro e
    rw [← hevents, hmem, feedStart_extends hextends]
  · rw [← hdata]
    exact exec_finish (c := (worldAt μ w (j + 1), j + 1)) hcoherent hm hfinish
  · obtain ⟨hservice, hle⟩ := exec_source hfinish rfl
    rw [hservice]
    exact mutates_sourceAt μ w.service hle

end Run

section Current

variable {contextId : String} {c₀ c : System Unit} {now : Timestamp} {report : SyncReport}
  {self' : DeepSeeSynchronizer} {c' : World × Nat}

/-- Every change that the source dates no later than the snapshot is behind the watermark. -/
def Current (s : MockDeepSeeService) (stored : MembershipSnapshot) (committed : String) : Prop :=
  ∀ e ∈ s.events, ∀ t, parseIso e.effectiveAt = .ok t → t ≤ stored.dataAsOf →
    numberOf e.watermark ≤ numberOf committed

theorem current_iff (hs : Coherent initial s) (ht : Timed s) {stored : MembershipSnapshot} {n m : Nat}
    (hn : n < s.events.length) (hdata : stored.dataAsOf = baseTime + (n + 1 : Nat) * second) :
    Current s stored (watermarkOf m) ↔ n < m := by
  rw [Current, numberOf_watermarkOf]
  constructor
  · intro h
    have hget : s.events[n]? = some s.events[n] := List.getElem?_eq_getElem hn
    have hle := h _ (List.getElem_mem hn) _ (congrArg parseIso (ht n _ hget)) hdata.ge
    rw [hs.numberOf_watermark hget] at hle
    omega
  · intro hnm e he t hdate hle
    obtain ⟨i, hi⟩ := List.mem_iff_getElem?.mp he
    rw [ht i e hi] at hdate
    obtain rfl := Except.ok.inj hdate
    rw [hdata, second] at hle
    have hnumbers : ((i + 1 : Nat) : Int) * 1000000 ≤ (n + 1 : Nat) * 1000000 :=
      (Int.add_le_add_iff_left baseTime).mp hle
    rw [hs.numberOf_watermark hi]
    omega

/-- Whatever a source in use does during a `sync_once`, what a publishing call stores is as fresh as
it says exactly when no change is recorded that its newest-first feed cannot show any more. -/
theorem current_iff_settled (h₀ : Fresh contextId c₀) (hr : System.Reaches (fun _ _ => True) c₀ c)
    (hstale : c.world.service.staleDataAsOf = false) (μ : Schedule)
    (h : (interfered μ).exec ((c.instances ()).memory.syncOnce now) (c.world, 0) = (.ok (report, self'), c'))
    (hpublishes : self'.committedWatermark ≠ (c.instances ()).memory.committedWatermark) :
    ∃ b j stored committed, (c.instances ()).memory.committedWatermark = some (watermarkOf b) ∧
      LastBatch μ c.world.service b j ∧ c'.1.store = some stored ∧ stored.sourceWatermark = committed ∧
      self'.committedWatermark = some committed ∧
      ∀ later, Mutates c'.1.service later → (Current later stored committed ↔ Settled μ c.world.service j) := by
  have hholds := h₀.holds.reaches bounding_sound (fun c a _ => ⟨.inl trivial, c.respects_true a⟩) hr
  have hs := hholds.world.1
  have htimed : Timed c.world.service := by
    apply Timed.mutates _ h₀.coherent hr.mutates
    intro i e he
    rw [h₀.events] at he
    cases he
  obtain ⟨hnone, -⟩ | ⟨b, hlen, hb⟩ := (hholds.memory ()).2.2
  · rw [DeepSeeSynchronizer.syncOnce, hnone] at h
    cases h
  · obtain ⟨j, m, hlast, hm, hmem, hended, hlater⟩ := exec_syncOnce hb hs hholds.world.2 hlen h
    have hmoves := mutates_sourceAt μ c.world.service (Nat.zero_le (j + 1))
    have hcoherent := hmoves.coherent hs
    obtain ⟨-, rfl⟩ | ⟨hbm, hcommitted, stored, hstore, hdata, hwatermark⟩ := hended
    · exact absurd rfl hpublishes
    · refine ⟨b, j, stored, watermarkOf m, hb.committed, hlast, hstore, hwatermark, hcommitted, ?_⟩
      intro later hmutates
      obtain ⟨n, hn⟩ := Nat.exists_eq_add_one_of_ne_zero (Nat.ne_zero_of_lt (hbm.trans_le hm))
      have hnewest :
          (sourceAt μ c.world.service (j + 1)).events[n]? = some (sourceAt μ c.world.service (j + 1)).events[n] :=
        List.getElem?_eq_getElem _
      have hbase : feedStart c.world.service b ≤ b := by
        rw [feedStart]
        split
        · exact Nat.zero_le b
        · exact le_refl b
      have hmoved : Mutates (sourceAt μ c.world.service (j + 1)) later := hlater.trans hmutates
      have hgrows := hmoved.grows.length_le
      have hdated : stored.dataAsOf = baseTime + (n + 1 : Nat) * second := by
        have hfresh : (sourceAt μ c.world.service (j + 1)).staleDataAsOf = false :=
          (staleDataAsOf_extends hmoves.grows).trans hstale
        rw [MockDeepSeeService.dataAsOf, hfresh, if_neg Bool.false_ne_true, hcoherent.seq_eq, hn] at hdata
        exact (Except.ok.inj hdata).symm
      have hpages := newest_fetched_iff hs hlast hholds.world.2 hnewest hn (by omega)
      rw [← hpages, hmem,
        current_iff (hmoved.coherent hcoherent) (Timed.mutates (Timed.mutates htimed hs hmoves) hcoherent hmoved)
        (by omega) hdated, mem_segment]
      constructor
      · exact fun hnm => ⟨n, by omega, hnm, hnewest⟩
      · rintro ⟨i, -, him, hi⟩
        obtain rfl := position_unique hcoherent hi hnewest
        exact him

def lateService : MockDeepSeeService :=
  { sampleService ∅ 2 with duplicateDelivery := false, redeliverFromStart := false }

/-- A newest-first source is bootstrapped and gains three members. -/
def lateActions : List (Action Unit) :=
  wholeCall () .bootstrap 4 ++ [.mutate (.addMember 7 1), .mutate (.addMember 8 1), .mutate (.addMember 9 1)]

def lateBefore : System Unit :=
  ((sampleSystem Unit lateService).run (fun _ _ => True) lateActions).get (by decide)

/-- A fourth member is gained between the two pages of the feed. -/
def lateAddition : Schedule where
  mutations
    | 1 => [.addMember 10 1]
    | _ => []
  clock k := baseTime + k * second

def lateSync : Except Exn (SyncReport × DeepSeeSynchronizer) × World × Nat :=
  (interfered lateAddition).exec ((lateBefore.instances ()).memory.syncOnce 0) (lateBefore.world, 0)

def lateMemory : DeepSeeSynchronizer := (lateSync.1.toOption.get (by decide)).2

def lateSnapshot : MembershipSnapshot := lateSync.2.1.store.get (by decide)

def lateEvent : ChangeEvent := lateSync.2.1.service.events[3]?.get (by decide)

theorem current_iff_settled_sample :
    ∃ b j stored committed, (lateBefore.instances ()).memory.committedWatermark = some (watermarkOf b) ∧
      LastBatch lateAddition lateBefore.world.service b j ∧ lateSync.2.1.store = some stored ∧
      stored.sourceWatermark = committed ∧ lateMemory.committedWatermark = some committed ∧
      ∀ later, Mutates lateSync.2.1.service later →
        (Current later stored committed ↔ Settled lateAddition lateBefore.world.service j) := by
  have hfresh : Fresh "context" (sampleSystem Unit lateService) := ⟨rfl, rfl, by decide, by decide, rfl, rfl, rfl, rfl⟩
  have hrun : (sampleSystem Unit lateService).run (fun _ _ => True) lateActions = some lateBefore :=
    (Option.some_get _).symm
  have hsync : (interfered lateAddition).exec ((lateBefore.instances ()).memory.syncOnce 0) (lateBefore.world, 0) =
      (.ok (lateSync.1.toOption.get (by decide)), lateSync.2) := exec_returned (by decide)
  exact current_iff_settled hfresh (System.run_reaches _ .refl hrun) (by decide) lateAddition hsync (by decide)

/-- The first page shows members 9 and 8. The fourth gain moves the feed on, so the second shows
8 and 7, with a data time that the gain of member 10 has already reached. -/
theorem late_addition_overstates :
    lateSync.2.1.store = some lateSnapshot ∧ lateSnapshot.members = {7, 8, 9} ∧
      lateMemory.committedWatermark = some (watermarkOf 3) ∧ lateSnapshot.dataAsOf = baseTime + 4 * second ∧
      lateEvent ∈ lateSync.2.1.service.events ∧ lateEvent.entityId = 10 ∧
      lateEvent.watermark = watermarkOf 4 ∧ lateEvent.effectiveAt = .iso (baseTime + 4 * second) ∧
      ¬ Current lateSync.2.1.service lateSnapshot (watermarkOf 3) := by
  have hlogged : lateEvent ∈ lateSync.2.1.service.events := List.mem_of_getElem? (Option.some_get _).symm
  refine ⟨(Option.some_get _).symm, by decide, by decide, by decide, hlogged, by decide, by decide, by decide, ?_⟩
  intro h
  have hle := h lateEvent hlogged (baseTime + 4 * second) (by decide) (by decide)
  exact absurd hle (by decide)

end Current

end ContextqlServer.Deepsee.Freshness
