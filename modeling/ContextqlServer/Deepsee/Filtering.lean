import ContextqlServer.Deepsee.Int64Keys

namespace ContextqlServer.Deepsee.Filtering

open ContextqlServer.Lib.Effect ContextqlServer.Lib.Log ContextqlServer.Lib.Python
open ContextqlServer.Lib.Rely
open ContextqlServer.Deepsee.Models ContextqlServer.Deepsee.Store
open ContextqlServer.Deepsee.Synchronizer ContextqlServer.Deepsee.Machine
open ContextqlServer.Deepsee.Int64Keys

variable {self : DeepSeeSynchronizer} {done : List ChangeEvent} {x : ChangeEvent}
  {f : DeepSeeSynchronizer.Filtered} {boundary : Int}

def FirstUnseen (self : DeepSeeSynchronizer) (events : List ChangeEvent) (i : Nat) : Prop :=
  ∃ e, events[i]? = some e ∧ Unseen self e ∧
    ∀ j < i, ∀ e', events[j]? = some e' → Unseen self e' → e'.eventId ≠ e.eventId

theorem firstUnseen_snoc {i : Nat} : FirstUnseen self (done ++ [x]) i ↔ FirstUnseen self done i ∨
    i = done.length ∧ Unseen self x ∧ ∀ e' ∈ done, Unseen self e' → e'.eventId ≠ x.eventId := by
  have hearlier {j : Nat} (hj : j < done.length) : (done ++ [x])[j]? = done[j]? :=
    List.getElem?_append_left hj
  constructor
  · rintro ⟨e, he, hunseen, hfirst⟩
    have hi : i < (done ++ [x]).length := (List.getElem?_eq_some_iff.mp he).1
    rw [List.length_append, List.length_singleton] at hi
    rcases Nat.lt_succ_iff_lt_or_eq.mp hi with hi | rfl
    · refine .inl ⟨e, hearlier hi ▸ he, hunseen, fun j hj e' he' => ?_⟩
      exact hfirst j hj e' ((hearlier (hj.trans hi)).trans he')
    · obtain rfl : x = e := by simpa using he
      refine .inr ⟨rfl, hunseen, fun e' he' => ?_⟩
      obtain ⟨j, hj, rfl⟩ := List.mem_iff_getElem.mp he'
      exact hfirst j hj _ ((hearlier hj).trans (List.getElem?_eq_getElem hj))
  · rintro (⟨e, he, hunseen, hfirst⟩ | ⟨rfl, hunseen, hfirst⟩)
    · have hi := (List.getElem?_eq_some_iff.mp he).1
      refine ⟨e, (hearlier hi).trans he, hunseen, fun j hj e' he' => ?_⟩
      exact hfirst j hj e' (hearlier (hj.trans hi) ▸ he')
    · refine ⟨x, by simp, hunseen, fun j hj e' he' => ?_⟩
      rw [hearlier hj] at he'
      exact hfirst e' (List.mem_of_getElem? he')

/-- What is kept of a feed, and what is counted: the kept events stand at the places
of the first unseen events, in order. -/
structure Partitions (sync : DeepSeeSynchronizer) (events : List ChangeEvent)
    (f : DeepSeeSynchronizer.Filtered) : Prop where
  subsequence : f.applicable.Sublist events
  distinct : (f.applicable.map (fun e => e.eventId)).Nodup
  unseen : ∀ e ∈ f.applicable, Unseen sync e
  places : ∃ places : List Nat, places.Pairwise (· < ·) ∧
    (∀ i, i ∈ places ↔ FirstUnseen sync events i) ∧
    places.map (fun i => events[i]?) = f.applicable.map some
  counted : f.applicable.length + f.duplicates + f.outOfOrder = events.length

theorem map_getElem?_snoc {places : List Nat} {applicable : List ChangeEvent}
    (h : places.map (fun i => done[i]?) = applicable.map some) :
    places.map (fun i => (done ++ [x])[i]?) = applicable.map some := by
  rw [← h]
  apply List.map_congr_left
  intro i hi
  have hsome : done[i]? ∈ applicable.map some := h ▸ List.mem_map_of_mem hi
  obtain ⟨e, -, he⟩ := List.mem_map.mp hsome
  exact List.getElem?_append_left (List.getElem?_eq_some_iff.mp he.symm).1

theorem Partitions.skip (h : Partitions self done f) {ids : Finset String} {duplicates outOfOrder : Nat}
    (hold : ¬ (Unseen self x ∧ ∀ e' ∈ done, Unseen self e' → e'.eventId ≠ x.eventId))
    (hcount : duplicates + outOfOrder = f.duplicates + f.outOfOrder + 1) :
    Partitions self (done ++ [x]) ⟨f.applicable, ids, duplicates, outOfOrder⟩ where
  subsequence := h.subsequence.trans (List.sublist_append_left _ _)
  distinct := h.distinct
  unseen := h.unseen
  places := by
    obtain ⟨places, hinc, hmem, hmap⟩ := h.places
    refine ⟨places, hinc, fun i => ?_, map_getElem?_snoc hmap⟩
    rw [firstUnseen_snoc, hmem, or_iff_left (fun hx => hold hx.2)]
  counted := by
    have hold := h.counted
    rw [List.length_append, List.length_singleton]
    dsimp only
    omega

theorem Partitions.keep (h : Partitions self done f) {ids : Finset String}
    (hunseen : Unseen self x) (hnew : ∀ e' ∈ done, Unseen self e' → e'.eventId ≠ x.eventId) :
    Partitions self (done ++ [x]) ⟨f.applicable ++ [x], ids, f.duplicates, f.outOfOrder⟩ where
  subsequence := h.subsequence.append_right [x]
  distinct := by
    rw [List.map_append, List.map_singleton]
    refine h.distinct.append (List.nodup_singleton _) ?_
    rw [List.disjoint_singleton]
    intro hx
    obtain ⟨e', he', hid⟩ := List.mem_map.mp hx
    exact hnew e' (h.subsequence.mem he') (h.unseen e' he') hid
  unseen := by
    intro e he
    rcases List.mem_append.mp he with he | he
    · exact h.unseen e he
    · rwa [List.mem_singleton.mp he]
  places := by
    obtain ⟨places, hinc, hmem, hmap⟩ := h.places
    have hlt : ∀ i ∈ places, i < done.length := by
      intro i hi
      obtain ⟨e, he, -⟩ := (hmem i).mp hi
      exact (List.getElem?_eq_some_iff.mp he).1
    refine ⟨places ++ [done.length], ?_, fun i => ?_, ?_⟩
    · rw [List.pairwise_append]
      refine ⟨hinc, List.pairwise_singleton _ _, fun i hi j hj => ?_⟩
      rw [List.mem_singleton.mp hj]
      exact hlt i hi
    · rw [firstUnseen_snoc, List.mem_append, List.mem_singleton, hmem]
      exact or_congr_right (iff_self_and.mpr fun _ => ⟨hunseen, hnew⟩)
    · rw [List.map_append, List.map_append, map_getElem?_snoc hmap]
      simp
  counted := by
    have hold := h.counted
    rw [List.length_append, List.length_append, List.length_singleton]
    dsimp only
    omega

theorem filterEvent_partitions (hboundary : parseWatermark (some self.boundaryText) = .ok boundary)
    (hparse : ∃ n, parseWatermark (some x.watermark) = .ok n)
    (h : Sifts self done f ∧ Partitions self done f) :
    ∃ f', self.filterEvent boundary f x = .ok f' ∧
      Sifts self (done ++ [x]) f' ∧ Partitions self (done ++ [x]) f' := by
  obtain ⟨hsifts, hparts⟩ := h
  suffices hstep : ∃ f', self.filterEvent boundary f x = .ok f' ∧ Partitions self (done ++ [x]) f' by
    obtain ⟨f', hf', hpart⟩ := hstep
    exact ⟨f', hf', filterEvent_sifts hboundary hsifts hf', hpart⟩
  obtain ⟨n, hn⟩ := hparse
  rw [DeepSeeSynchronizer.filterEvent]
  by_cases hdup : x.eventId ∈ self.seenEventIds ∨ x.eventId ∈ f.batchEventIds
  · rw [if_pos hdup]
    refine ⟨_, rfl, hparts.skip ?_ (by omega)⟩
    rintro ⟨⟨hseen, -⟩, hnew⟩
    obtain ⟨e', he', hunseen, hid⟩ := (hsifts.ids _).mp (hdup.resolve_left hseen)
    exact hnew e' he' hunseen hid
  · rw [if_neg hdup, hn]
    obtain ⟨hseen, hbatch⟩ := not_or.mp hdup
    by_cases hle : n ≤ boundary
    · refine ⟨{ f with outOfOrder := f.outOfOrder + 1 }, if_pos hle, hparts.skip ?_ (by omega)⟩
      rintro ⟨⟨-, boundary', n', hboundary', hn', hlt⟩, -⟩
      obtain rfl := Except.ok.inj (hboundary.symm.trans hboundary')
      obtain rfl := Except.ok.inj (hn.symm.trans hn')
      omega
    · refine ⟨_, if_neg hle, hparts.keep ⟨hseen, boundary, n, hboundary, hn, not_le.mp hle⟩ ?_⟩
      intro e' he' hunseen hid
      exact hbatch ((hsifts.ids _).mpr ⟨e', he', hunseen, hid⟩)

theorem filterEvents_ok {events : List ChangeEvent}
    (hboundary : ∃ n, parseWatermark (some self.boundaryText) = .ok n)
    (hparse : ∀ e ∈ events, ∃ n, parseWatermark (some e.watermark) = .ok n) :
    ∃ f, self.filterEvents events = .ok f ∧ Partitions self events f := by
  obtain ⟨boundary, hboundary⟩ := hboundary
  rw [DeepSeeSynchronizer.filterEvents, hboundary]
  have hinit : Sifts self [] ⟨[], ∅, 0, 0⟩ ∧ Partitions self [] ⟨[], ∅, 0, 0⟩ := by
    refine ⟨Sifts.nil, .slnil, List.nodup_nil, by simp, ⟨[], .nil, fun i => ?_, rfl⟩, rfl⟩
    simp [FirstUnseen]
  obtain ⟨f, hf, -, hpart⟩ := foldlM_ok (P := fun done f => Sifts self done f ∧ Partitions self done f)
    (fun _ e _ he h => filterEvent_partitions hboundary (hparse e he) h) hinit
  exact ⟨f, hf, hpart⟩

/-- A watermark that the filter looks at does not parse: the committed one, or that of
an event whose id neither has been seen nor belongs to an unseen event before it. -/
def Malformed (self : DeepSeeSynchronizer) (events : List ChangeEvent) : Prop :=
  (¬ ∃ n, parseWatermark (some self.boundaryText) = .ok n) ∨
  ∃ front e back, events = front ++ e :: back ∧ e.eventId ∉ self.seenEventIds ∧
    (∀ e' ∈ front, Unseen self e' → e'.eventId ≠ e.eventId) ∧
    ¬ ∃ n, parseWatermark (some e.watermark) = .ok n

theorem parseWatermark_error {value : Option String} {ex : Exn} (h : parseWatermark value = .error ex) :
    ∃ message, ex = contractError message := by
  rw [parseWatermark] at h
  split at h
  · cases h
  · exact ⟨_, (Except.error.inj h).symm⟩

theorem filterEvent_error {ex : Exn} (h : self.filterEvent boundary f x = .error ex) :
    ∃ message, ex = contractError message := by
  rw [DeepSeeSynchronizer.filterEvent] at h
  split at h
  · cases h
  · cases hp : parseWatermark (some x.watermark) with
    | error ex' =>
      rw [hp] at h
      obtain rfl := Except.error.inj h
      exact parseWatermark_error hp
    | ok n =>
      rw [hp] at h
      change (if n ≤ boundary then _ else _) = _ at h
      split at h <;> cases h

theorem foldlM_error {events : List ChangeEvent} {ex : Exn}
    (h : events.foldlM (self.filterEvent boundary) f = .error ex) :
    ∃ message, ex = contractError message := by
  induction events generalizing f with
  | nil => cases h
  | cons e events ih =>
    rw [List.foldlM_cons] at h
    cases hf : self.filterEvent boundary f e with
    | error ex' =>
      rw [hf] at h
      obtain rfl := Except.error.inj h
      exact filterEvent_error hf
    | ok f' =>
      rw [hf] at h
      exact ih h

theorem filterEvents_error {events : List ChangeEvent} (h : Malformed self events) :
    ∃ message, self.filterEvents events = .error (contractError message) := by
  cases hf : self.filterEvents events with
  | ok f =>
    -- a filter that ends has read every watermark it looked at
    obtain hboundary | ⟨front, e, back, hevents, hseen, hnew, he⟩ := h
    · rw [DeepSeeSynchronizer.filterEvents] at hf
      obtain ⟨n, hn, -⟩ := bind_eq_ok.mp hf
      exact absurd ⟨n, hn⟩ hboundary
    · exact absurd ((filterEvents_sifts hf).watermark front e back hevents hseen hnew) he
  | error ex =>
    rw [DeepSeeSynchronizer.filterEvents] at hf
    cases hboundary : parseWatermark (some self.boundaryText) with
    | error ex' =>
      rw [hboundary] at hf
      obtain rfl := Except.error.inj hf
      obtain ⟨message, rfl⟩ := parseWatermark_error hboundary
      exact ⟨message, rfl⟩
    | ok boundary =>
      rw [hboundary] at hf
      obtain ⟨message, rfl⟩ := foldlM_error hf
      exact ⟨message, rfl⟩

/-- `sync_once` once the change feed has been read. -/
def settle (self : DeepSeeSynchronizer) (committed : String) (now : Timestamp) (events : List ChangeEvent)
    (dataAsOf : WireTime) : SyncProg (SyncReport × DeepSeeSynchronizer) := do
  let filtered ← Prog.ofExcept (self.filterEvents events)
  if filtered.applicable.isEmpty then
    pure ({ appliedAdditions := 0
            appliedRemovals := 0
            appliedScoreChanges := 0
            duplicatesSkipped := filtered.duplicates
            outOfOrderRejected := filtered.outOfOrder
            committedWatermark := committed }, self)
  else do
    let ordered ← Prog.ofExcept (sortedByWatermark filtered.applicable)
    self.applyOrdered ordered dataAsOf filtered.duplicates filtered.outOfOrder now

theorem syncOnce_eq_settle {committed : String} (hcommitted : self.committedWatermark = some committed)
    (now : Timestamp) : self.syncOnce now =
      self.fetchAllChanges committed >>= fun fetched => settle self committed now fetched.1 fetched.2 := by
  rw [DeepSeeSynchronizer.syncOnce, hcommitted]
  rfl

/-- While the feed is read nothing is asked of the store or of the state repository, and
what has been read are the events of the responses that have come. -/
theorem fetchAllChanges_sent {committed : String} {w w' : Exchange}
    {out : Except Exn (List ChangeEvent × WireTime)}
    (h : Runs Answers Eq (self.fetchAllChanges committed) w out w') :
    ∃ news, w' = w.sent news ∧ ∀ fetched dataAsOf, out = .ok (fetched, dataAsOf) → fetched = eventsOf news := by
  have hreading : Reading self (fun a news => a.1 = [] ++ eventsOf news)
      (self.fetchAllChangesLoop committed maxPages [] none) w := fetchAllChangesLoop_reads committed maxPages [] none
  have hreads := hreading.runs (fun _ _ _ _ h => h) (fun _ _ h => h) (fun _ _ _ _ => trivial) h
  cases out with
  | error ex =>
    obtain ⟨news, hsent, -⟩ := hreads
    refine ⟨news, hsent, ?_⟩
    intro fetched dataAsOf hout
    cases hout
  | ok a =>
    obtain ⟨news, hsent, -, hevents⟩ := hreads
    refine ⟨news, hsent, ?_⟩
    intro fetched dataAsOf hout
    obtain rfl := Except.ok.inj hout
    exact hevents

theorem settle_malformed {committed : String} {now : Timestamp} {events : List ChangeEvent} {dataAsOf : WireTime}
    {w w' : Exchange} {out : Except Exn (SyncReport × DeepSeeSynchronizer)} (hmalformed : Malformed self events)
    (h : Runs Answers Eq (settle self committed now events dataAsOf) w out w') :
    (∃ message, out = .error (contractError message)) ∧ w' = w := by
  obtain ⟨message, herror⟩ := filterEvents_error hmalformed
  rw [settle, herror] at h
  obtain ⟨rfl, rfl⟩ := Runs.throw_iff.mp h
  exact ⟨⟨message, rfl⟩, rfl⟩

/-- A run of a sync reads the feed and settles it; a feed that is refused ends it there, and
only a call that returns hands on a new synchronizer. -/
theorem syncOnce_settles {committed : String} {now : Timestamp} {w w' : Exchange}
    {out : Except Exn (SyncReport × DeepSeeSynchronizer)}
    (hcommitted : self.committedWatermark = some committed)
    (h : Runs Answers Eq (self.syncOnce now) w out w') :
    (∃ ex news, Runs Answers Eq (self.fetchAllChanges committed) w (.error ex) w' ∧
      out = .error ex ∧ w' = w.sent news) ∨
    ∃ news dataAsOf,
      Runs Answers Eq (self.fetchAllChanges committed) w (.ok (eventsOf news, dataAsOf)) (w.sent news) ∧
      Runs Answers Eq (settle self committed now (eventsOf news) dataAsOf) (w.sent news) out w' ∧
      (Malformed self (eventsOf news) →
        (∃ message, out = .error (contractError message)) ∧ w' = w.sent news) := by
  rw [syncOnce_eq_settle hcommitted] at h
  obtain ⟨⟨events, dataAsOf⟩, w₁, hfetch, hrest⟩ | ⟨ex, hfetch, rfl⟩ := Runs.bind_iff.mp h
  · obtain ⟨news, rfl, hevents⟩ := fetchAllChanges_sent hfetch
    obtain rfl := hevents _ _ rfl
    exact .inr ⟨news, dataAsOf, hfetch, hrest, fun hmalformed => settle_malformed hmalformed hrest⟩
  · obtain ⟨news, hsent, -⟩ := fetchAllChanges_sent hfetch
    exact .inl ⟨ex, news, hfetch, rfl, hsent⟩

/-- A feed of watermarks that parse is partitioned, and one that does not is refused: the run that
has read it ends with the store, the state repository and the synchronizer as they were. -/
theorem filterEvents_exact (self : DeepSeeSynchronizer) (events : List ChangeEvent) :
    ((∃ n, parseWatermark (some self.boundaryText) = .ok n) →
      (∀ e ∈ events, ∃ n, parseWatermark (some e.watermark) = .ok n) →
      ∃ f, self.filterEvents events = .ok f ∧ Partitions self events f) ∧
    (Malformed self events → ∃ message, self.filterEvents events = .error (contractError message)) ∧
    ∀ committed now w out w', self.committedWatermark = some committed →
      Runs Answers Eq (self.syncOnce now) w out w' →
      (∃ ex news, Runs Answers Eq (self.fetchAllChanges committed) w (.error ex) w' ∧
        out = .error ex ∧ w' = w.sent news) ∨
      ∃ news dataAsOf,
        Runs Answers Eq (self.fetchAllChanges committed) w (.ok (eventsOf news, dataAsOf)) (w.sent news) ∧
        Runs Answers Eq (settle self committed now (eventsOf news) dataAsOf) (w.sent news) out w' ∧
        (Malformed self (eventsOf news) →
          (∃ message, out = .error (contractError message)) ∧ w' = w.sent news) :=
  ⟨filterEvents_ok, filterEvents_error, fun _ _ _ _ _ => syncOnce_settles⟩

/-- Two deliveries of one event: the filter keeps the first that is beyond the boundary. -/
example :
    let self : DeepSeeSynchronizer :=
      { sampleSynchronizer with committedWatermark := some "5", seenEventIds := {"seen"} }
    let event (id watermark : String) : ChangeEvent := ⟨id, 1, .removed, none, .iso 0, watermark⟩
    ((self.filterEvents [event "a" "4", event "a" "6", event "seen" "x", event "a" "7", event "b" "9"]).toOption.map
      (fun f => (f.applicable.map (fun e => (e.eventId, e.watermark)), f.duplicates, f.outOfOrder))) =
      some ([("a", "6"), ("b", "9")], 2, 1) := by
  decide +kernel

end ContextqlServer.Deepsee.Filtering
