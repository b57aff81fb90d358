import ContextqlServer.Deepsee.Fetch
import ContextqlServer.Deepsee.Fold

namespace ContextqlServer.Deepsee.Batch

open ContextqlServer.Lib.Effect ContextqlServer.Lib.Log ContextqlServer.Lib.Mapping
open ContextqlServer.Lib.Python ContextqlServer.Lib.Rely
open ContextqlServer.Deepsee.Models ContextqlServer.Deepsee.MockService
open ContextqlServer.Deepsee.Client ContextqlServer.Deepsee.Store
open ContextqlServer.Deepsee.Synchronizer ContextqlServer.Deepsee.History
open ContextqlServer.Deepsee.Fetch ContextqlServer.Deepsee.Fold

/-- The ids of the first `b` events a service records. -/
def eventIdsUpTo (b : Nat) (ids : Finset String) : Prop :=
  ∀ id ∈ ids, ∃ j, 1 ≤ j ∧ j ≤ b ∧ id = eventIdOf j

/-- A memory that has committed watermark number `b` and saw no event after it. -/
structure Bounded (sync : DeepSeeSynchronizer) (b : Nat) : Prop where
  committed : sync.committedWatermark = some (watermarkOf b)
  seen : eventIdsUpTo b sync.seenEventIds

variable {initial : Dict Int Float64} {s : MockDeepSeeService} {self : DeepSeeSynchronizer}

theorem watermarkOf_ne_empty (b : Nat) : watermarkOf b ≠ "" := by
  intro h
  have hp := parseWatermark_watermarkOf b
  rw [h] at hp
  cases hp

theorem Bounded.boundaryText {b : Nat} (h : Bounded self b) : self.boundaryText = watermarkOf b := by
  rw [DeepSeeSynchronizer.boundaryText, h.committed]
  split
  · contradiction
  · exact absurd (Option.some.inj (by assumption)) (watermarkOf_ne_empty b)
  · exact (Option.some.inj (by assumption)).symm

/-- What `_filter_events` has kept of the events gone through. -/
structure Filters (log : List ChangeEvent) (b : Nat) (done : List ChangeEvent)
    (f : DeepSeeSynchronizer.Filtered) : Prop where
  logged : ∀ e ∈ done, e ∈ log
  ids : f.batchEventIds = (f.applicable.map (fun e => e.eventId)).toFinset
  nodup : f.applicable.Nodup
  mem : ∀ e, e ∈ f.applicable ↔ e ∈ done ∧ (b : Int) < numberOf e.watermark

theorem filterEvent_ok (h : Coherent initial s) {b : Nat} (hb : Bounded self b)
    {done : List ChangeEvent} {f : DeepSeeSynchronizer.Filtered} {e : ChangeEvent}
    (he : e ∈ s.events) (hf : Filters s.events b done f) :
    ∃ f', self.filterEvent b f e = .ok f' ∧ Filters s.events b (done ++ [e]) f' := by
  have hlogged : ∀ x ∈ done ++ [e], x ∈ s.events := by
    intro x hx
    rcases List.mem_append.mp hx with hx | hx
    · exact hf.logged x hx
    · exact List.mem_singleton.mp hx ▸ he
  obtain ⟨j, hj⟩ := List.mem_iff_getElem?.mp he
  have hnum := h.numberOf_watermark hj
  have hparse : parseWatermark (some e.watermark) = .ok ((j + 1 : Nat) : Int) := by
    rw [h.watermark_eq hj, parseWatermark_watermarkOf]
  rw [DeepSeeSynchronizer.filterEvent]
  by_cases hdup : e.eventId ∈ self.seenEventIds ∨ e.eventId ∈ f.batchEventIds
  · -- an event seen before is old, one of this batch has been kept already
    rw [if_pos hdup]
    refine ⟨_, rfl, hlogged, hf.ids, hf.nodup, fun x => ?_⟩
    rw [hf.mem, List.mem_append, List.mem_singleton, or_and_right, iff_self_or]
    rintro ⟨rfl, hx⟩
    rcases hdup with hseen | hbatch
    · obtain ⟨i, hi₁, hi, hid⟩ := hb.seen _ hseen
      rw [(h.numbered j _ hj).1] at hid
      have := eventIdOf_injective hid
      omega
    · rw [hf.ids, List.mem_toFinset, List.mem_map] at hbatch
      obtain ⟨y, hy, hid⟩ := hbatch
      have hyd := (hf.mem y).mp hy
      obtain rfl := h.eventId_inj (hf.logged y hyd.1) he hid
      exact hyd
  · rw [if_neg hdup, hparse]
    by_cases hold : ((j + 1 : Nat) : Int) ≤ b
    · refine ⟨{ f with outOfOrder := f.outOfOrder + 1 }, if_pos hold, hlogged, hf.ids,
        hf.nodup, fun x => ?_⟩
      rw [hf.mem, List.mem_append, List.mem_singleton, or_and_right, iff_self_or]
      rintro ⟨rfl, hx⟩
      omega
    · refine ⟨_, if_neg hold, hlogged, ?_, ?_, fun x => ?_⟩
      · ext id
        simp [hf.ids]
      · refine List.nodup_append.mpr ⟨hf.nodup, List.nodup_singleton e, ?_⟩
        rintro x hx y hy rfl
        rw [List.mem_singleton] at hy
        subst hy
        refine hdup (.inr ?_)
        rw [hf.ids, List.mem_toFinset]
        exact List.mem_map_of_mem hx
      · rw [List.mem_append, hf.mem, List.mem_append, or_and_right, List.mem_singleton]
        refine or_congr_right (iff_self_and.mpr ?_)
        rintro rfl
        omega

theorem filterEvents_ok (h : Coherent initial s) {b : Nat} (hb : Bounded self b)
    {events : List ChangeEvent} (hev : ∀ e ∈ events, e ∈ s.events) :
    ∃ f, self.filterEvents events = .ok f ∧ Filters s.events b events f := by
  rw [DeepSeeSynchronizer.filterEvents, hb.boundaryText, parseWatermark_watermarkOf]
  have hinit : Filters s.events b [] ⟨[], ∅, 0, 0⟩ := ⟨by simp, rfl, List.nodup_nil, by simp⟩
  exact foldlM_ok (fun done e f he hf => filterEvent_ok h hb (hev e he) hf) hinit

theorem segment_increasing (h : Coherent initial s) (b m : Nat) :
    (segment b m s.events).Pairwise (fun e e' => numberOf e.watermark < numberOf e'.watermark) := by
  rw [List.pairwise_iff_getElem]
  intro i j hi hj hij
  have hget : ∀ k (hk : k < (segment b m s.events).length),
      numberOf (segment b m s.events)[k].watermark = (b + k : Nat) + 1 := by
    intro k hk
    apply h.numberOf_watermark
    rw [← List.getElem?_eq_getElem hk, Lib.Log.segment, List.getElem?_drop, List.getElem?_take]
    rw [Lib.Log.segment, List.length_drop, List.length_take] at hk
    rw [if_pos (by omega)]
  rw [hget i hi, hget j hj]
  omega

/-- Distinct events of the log come out of the sort in the order of the log. -/
theorem sortedByWatermark_segment (h : Coherent initial s) {b m : Nat} {events : List ChangeEvent}
    (hn : events.Nodup) (hmem : ∀ e, e ∈ events ↔ e ∈ segment b m s.events) :
    sortedByWatermark events = .ok (segment b m s.events) := by
  have hinc := segment_increasing h b m
  have hperm : events.Perm (segment b m s.events) :=
    (List.perm_ext_iff_of_nodup hn (hinc.imp (fun hlt heq => by simp [heq] at hlt))).mpr hmem
  have hkey : ∀ e ∈ events, (do return (← parseWatermark (some e.watermark), e)) =
      (.ok (numberOf e.watermark, e) : Except Exn (Int × ChangeEvent)) := by
    intro e he
    obtain ⟨j, -, -, hj⟩ := mem_segment.mp ((hmem e).mp he)
    rw [h.watermark_eq hj, parseWatermark_watermarkOf, numberOf_watermarkOf]
    rfl
  rw [sortedByWatermark, mapM_ok hkey]
  have hsort : (events.map (fun e => (numberOf e.watermark, e))).insertionSort
      (fun a b => a.1 ≤ b.1) = (segment b m s.events).map (fun e => (numberOf e.watermark, e)) := by
    refine ((List.perm_insertionSort _ _).trans (hperm.map _)).eq_of_pairwise ?_
      (List.pairwise_insertionSort _ _) (List.pairwise_map.mpr (hinc.imp (fun hlt => hlt.le)))
    intro x y hx hy hxy hyx
    rw [List.mem_insertionSort, List.mem_map] at hx
    rw [List.mem_map] at hy
    obtain ⟨e, he, rfl⟩ := hx
    obtain ⟨e', he', rfl⟩ := hy
    have hnum : numberOf e.watermark = numberOf e'.watermark := le_antisymm hxy hyx
    obtain ⟨i, -, -, hi⟩ := mem_segment.mp ((hmem e).mp he)
    obtain ⟨j, -, -, hj⟩ := mem_segment.mp he'
    rw [h.numberOf_watermark hi, h.numberOf_watermark hj] at hnum
    obtain rfl : i = j := by omega
    rw [Option.some.inj (hi.symm.trans hj)]
  change Except.ok _ = _
  rw [hsort, List.map_map]
  exact congrArg _ (List.map_id _)

/-- `sync_once` up to the ordered events that it folds. -/
def pull (self : DeepSeeSynchronizer) (committed : String) :
    SyncProg (List ChangeEvent × WireTime × Nat × Nat) := do
  let (events, dataAsOf) ← self.fetchAllChanges committed
  let filtered ← Prog.ofExcept (self.filterEvents events)
  let ordered ← Prog.ofExcept (sortedByWatermark filtered.applicable)
  pure (ordered, dataAsOf, filtered.duplicates, filtered.outOfOrder)

/-- `sync_once` from the ordered events on. -/
def finish (self : DeepSeeSynchronizer) (committed : String) (now : Timestamp) :
    List ChangeEvent × WireTime × Nat × Nat → SyncProg (SyncReport × DeepSeeSynchronizer)
  | ([], _, duplicates, outOfOrder) => pure (⟨0, 0, 0, duplicates, outOfOrder, committed⟩, self)
  | (e :: es, dataAsOf, duplicates, outOfOrder) =>
    self.applyOrdered (e :: es) dataAsOf duplicates outOfOrder now

theorem sortedByWatermark_cons {e : ChangeEvent} {es ordered : List ChangeEvent}
    (h : sortedByWatermark (e :: es) = .ok ordered) : ordered ≠ [] := by
  obtain ⟨keyed, hk, h⟩ := bind_eq_ok.mp h
  rw [List.mapM_cons] at hk
  obtain ⟨k, -, hk⟩ := bind_eq_ok.mp hk
  obtain ⟨ks, -, hk⟩ := bind_eq_ok.mp hk
  obtain rfl := Except.ok.inj hk
  obtain rfl := Except.ok.inj h
  rw [ne_eq, List.map_eq_nil_iff, ← List.length_eq_zero_iff, List.length_insertionSort]
  simp

theorem syncOnce_eq {committed : String} (h : self.committedWatermark = some committed)
    (now : Timestamp) : self.syncOnce now = pull self committed >>= finish self committed now := by
  rw [DeepSeeSynchronizer.syncOnce, h, pull]
  dsimp only
  rw [Prog.bind_assoc]
  congr 1
  funext ⟨events, dataAsOf⟩
  dsimp only
  rw [Prog.bind_assoc]
  congr 1
  funext filtered
  rw [Prog.bind_assoc]
  obtain ⟨applicable, ids, duplicates, outOfOrder⟩ := filtered
  cases applicable with
  | nil => rfl
  | cons e es =>
    rw [if_neg (by simp)]
    cases hs : sortedByWatermark (e :: es) with
    | error x => rfl
    | ok ordered =>
      cases ordered with
      | nil => exact absurd rfl (sortedByWatermark_cons hs)
      | cons x xs => rfl

/-- Dropping the old events of a fetched stretch leaves the stretch after the boundary. -/
theorem Filters.mem_segment_iff (h : Coherent initial s) {b m : Nat} {events : List ChangeEvent}
    {f : DeepSeeSynchronizer.Filtered} (hf : Filters s.events b events f)
    (hev : ∀ e, e ∈ events ↔ e ∈ segment (feedStart s b) m s.events) (e : ChangeEvent) :
    e ∈ f.applicable ↔ e ∈ segment b m s.events := by
  have hstart : feedStart s b ≤ b := by
    rw [feedStart]
    split <;> omega
  rw [hf.mem, hev, mem_segment, mem_segment]
  constructor
  · rintro ⟨⟨j, -, hm, hj⟩, hb⟩
    rw [h.numberOf_watermark hj] at hb
    exact ⟨j, by omega, hm, hj⟩
  · rintro ⟨j, hb, hm, hj⟩
    refine ⟨⟨j, hstart.trans hb, hm, hj⟩, ?_⟩
    rw [h.numberOf_watermark hj]
    omega

/-- A stretch of the log that is not empty: the events numbered `b + 1` to `m`. -/
structure Stretch (b m : Nat) (s : MockDeepSeeService) (ordered : List ChangeEvent) : Prop where
  lt : b < m
  le : m ≤ s.events.length
  eq : ordered = segment b m s.events

namespace Stretch

variable {b m : Nat} {s' : MockDeepSeeService} {ordered : List ChangeEvent}

theorem extend (h : Stretch b m s ordered) (hs : Extends s s') : Stretch b m s' ordered where
  lt := h.lt
  le := h.le.trans hs.length_le
  eq := by rw [h.eq, segment_extend hs.events h.le]

theorem scored (h : Stretch b m s ordered) (hs : Coherent initial s) :
    ∀ e ∈ ordered, e.changeType = .removed ∨ e.score.isSome := by
  intro e he
  rw [h.eq] at he
  obtain ⟨j, -, -, hj⟩ := mem_segment.mp he
  exact hs.scored e (List.mem_of_getElem? hj)

theorem getLast (h : Stretch b m s ordered) (hs : Coherent initial s) :
    ∃ e, ordered.getLast? = some e ∧ e.watermark = watermarkOf m := by
  have hlt := h.lt
  have hle := h.le
  have hget : s.events[m - 1]? = some s.events[m - 1] := List.getElem?_eq_getElem (by omega)
  refine ⟨s.events[m - 1], by rw [h.eq, getLast?_segment hlt hle, hget], ?_⟩
  rw [hs.watermark_eq hget, Nat.sub_add_cancel (by omega)]

theorem eventIds (h : Stretch b m s ordered) (hs : Coherent initial s) :
    eventIdsUpTo m (ordered.map (fun e => e.eventId)).toFinset := by
  intro id hid
  obtain ⟨e, he, rfl⟩ := List.mem_map.mp (List.mem_toFinset.mp hid)
  rw [h.eq] at he
  obtain ⟨j, -, hm, hj⟩ := mem_segment.mp he
  exact ⟨j + 1, by omega, by omega, (hs.numbered j e hj).1⟩

end Stretch

def remember (self : DeepSeeSynchronizer) (ordered : List ChangeEvent) (watermark : String) :
    DeepSeeSynchronizer :=
  { self with
    committedWatermark := some watermark
    seenEventIds := self.seenEventIds ∪ (ordered.map (fun e => e.eventId)).toFinset }

/-- What the state repository is told about some events. -/
def eventWatermarks (ordered : List ChangeEvent) : List (String × String) :=
  items (ordered.map (fun e => (e.eventId, e.watermark)))

theorem eventWatermarks_ids (ordered : List ChangeEvent) :
    ((eventWatermarks ordered).map Prod.fst).toFinset =
      (ordered.map (fun e => e.eventId)).toFinset := by
  ext id
  rw [List.mem_toFinset, List.mem_toFinset, eventWatermarks, items_keys, List.map_map]
  rfl

theorem Bounded.remember {b m : Nat} {ordered : List ChangeEvent} (hb : Bounded self b)
    (hs : Coherent initial s) (h : Stretch b m s ordered) :
    Bounded (remember self ordered (watermarkOf m)) m where
  committed := rfl
  seen id hid := by
    rcases Finset.mem_union.mp hid with hid | hid
    · obtain ⟨j, h₁, hj, rfl⟩ := hb.seen id hid
      exact ⟨j, h₁, hj.trans h.lt.le, rfl⟩
    · exact h.eventIds hs id hid

section Pull

variable {G : SyncOp → World → Prop} {R : World → World → Prop} {I : World → Prop}

/-- Whatever the source does between the page fetches, the events that come out
are those after the boundary up to some number not before the first fetch. -/
theorem pull_keeps {Q : Except Exn (List ChangeEvent × WireTime × Nat × Nat) → World → Prop}
    {b : Nat} {w : World} (hrefl : ∀ w, R w w) (htrans : ∀ w w' w'', R w w' → R w' w'' → R w w'')
    (hR : ∀ w w', R w w' → Extends w.service w'.service)
    (hI : ∀ w, I w → Coherent initial w.service ∧ 0 < w.service.pageSize)
    (hb : Bounded self b) (hlen : b ≤ w.service.events.length) (hIw : I w)
    (hok : ∀ m dataAsOf duplicates outOfOrder w', R w w' → I w' →
      w.service.events.length ≤ m → m ≤ w'.service.events.length →
      Q (.ok (segment b m w'.service.events, dataAsOf, duplicates, outOfOrder)) w')
    (herr : ∀ e w', R w w' → I w' → Q (.error e) w') :
    Keeps (Guarded G) R I Q (pull self (watermarkOf b)) w := by
  refine .bind (fetchAllChangesLoop_keeps htrans hR hI ?_ herr maxPages [] none (hrefl w) hIw
    (Reading.start hlen))
  intro events dataAsOf w' hw hI' ⟨m, hn, hm, hev⟩
  have hcoh := (hI w' hI').1
  have hlogged : ∀ e ∈ events, e ∈ w'.service.events := by
    intro e he
    obtain ⟨j, -, -, hj⟩ := mem_segment.mp ((hev e).mp he)
    exact List.mem_of_getElem? hj
  obtain ⟨f, hf, hfilters⟩ := filterEvents_ok hcoh hb hlogged
  have hsort := sortedByWatermark_segment hcoh hfilters.nodup (hfilters.mem_segment_iff hcoh hev)
  simp only [hf, Prog.ofExcept, Prog.bind_pure, hsort]
  exact hok m dataAsOf _ _ w' hw hI' hn hm

theorem finish_keeps {Q : Except Exn (SyncReport × DeepSeeSynchronizer) → World → Prop}
    {b m : Nat} {w : World} {committed : String} {now : Timestamp} {dataAsOf : WireTime}
    {duplicates outOfOrder : Nat} (hrefl : ∀ w, R w w)
    (htrans : ∀ w w' w'', R w w' → R w' w'' → R w w'')
    (hcoh : Coherent initial w.service) (hIw : I w) (hm : m ≤ w.service.events.length)
    (hidle : m ≤ b → ∀ report, Q (.ok (report, self)) w)
    (hpub : ∀ ordered f s w₁ asOf, Stretch b m w.service ordered → Folds ordered f → R w w₁ → I w₁ →
      w₁.store = some s → parseIso dataAsOf = .ok asOf → ∀ d, d = deltaOf f (watermarkOf m) now asOf →
      G (.commitSnapshot (.delta d)) w₁ ∨ G (.applyDelta d) w₁ →
      ∀ report, Commits G R I Q self.stateRepository self.contextId (watermarkOf m)
        (eventWatermarks ordered) (report, remember self ordered (watermarkOf m))
        { w₁ with store := some (s.applyDelta d) })
    (herr : ∀ e w₁, R w w₁ → I w₁ → Q (.error e) w₁) :
    Keeps (Guarded G) R I Q
      (finish self committed now (segment b m w.service.events, dataAsOf, duplicates, outOfOrder))
      w := by
  cases ho : segment b m w.service.events with
  | nil =>
    refine hidle (Nat.le_of_not_lt (fun hlt => ?_)) _
    exact segment_ne_nil hlt hm ho
  | cons e es =>
    have hlt : b < m := by
      refine Nat.lt_of_not_le (fun hle => ?_)
      rw [segment_eq_nil hle] at ho
      cases ho
    have hst : Stretch b m w.service (e :: es) := ⟨hlt, hm, ho.symm⟩
    obtain ⟨f, hf, hfolds⟩ := foldEvents_ok (hst.scored hcoh)
    obtain ⟨last, hlast, hwm⟩ := hst.getLast hcoh
    simp only [finish, DeepSeeSynchronizer.applyOrdered, hf, hlast, hwm, Prog.ofExcept,
      Prog.bind_pure]
    cases hasOf : parseIso dataAsOf with
    | error x => exact herr x w (hrefl w) hIw
    | ok asOf =>
      simp only [Prog.bind_pure]
      refine .bind (publishDelta_keeps hIw htrans ?_ herr)
      intro s w₁ hw₁ hI₁ hG hs
      exact (hpub (e :: es) f s w₁ asOf hst hfolds hw₁ hI₁ hs hasOf _ rfl hG _).keeps

/-- The rule of `sync_once`: what is left to show is that its publication, and
then its commit, keep the state in order. -/
theorem syncOnce_keeps {Q : Except Exn (SyncReport × DeepSeeSynchronizer) → World → Prop}
    {b : Nat} {w : World} {now : Timestamp} (hrefl : ∀ w, R w w)
    (htrans : ∀ w w' w'', R w w' → R w' w'' → R w w'')
    (hR : ∀ w w', R w w' → Extends w.service w'.service)
    (hI : ∀ w, I w → Coherent initial w.service ∧ 0 < w.service.pageSize)
    (hb : Bounded self b) (hlen : b ≤ w.service.events.length) (hIw : I w)
    (hidle : ∀ report w₁, R w w₁ → I w₁ → w.service.events.length ≤ b → Q (.ok (report, self)) w₁)
    (hpub : ∀ m ordered f s w₁ dataAsOf, w.service.events.length ≤ m →
      Stretch b m w₁.service ordered → Folds ordered f → R w w₁ → I w₁ → w₁.store = some s →
      ∀ d, d = deltaOf f (watermarkOf m) now dataAsOf →
      G (.commitSnapshot (.delta d)) w₁ ∨ G (.applyDelta d) w₁ →
      ∀ report, Commits G R I Q self.stateRepository self.contextId (watermarkOf m)
        (eventWatermarks ordered) (report, remember self ordered (watermarkOf m))
        { w₁ with store := some (s.applyDelta d) })
    (herr : ∀ e w₁, R w w₁ → I w₁ → Q (.error e) w₁) :
    Keeps (Guarded G) R I Q (self.syncOnce now) w := by
  rw [syncOnce_eq hb.committed]
  refine .bind (pull_keeps hrefl htrans hR hI hb hlen hIw ?_ herr)
  intro m dataAsOf duplicates outOfOrder w₁ hw₁ hI₁ hn hm
  apply finish_keeps hrefl htrans (hI w₁ hI₁).1 hI₁ hm
  · exact fun hmb report => hidle report w₁ hw₁ hI₁ (hn.trans hmb)
  · intro ordered f s w₂ asOf hst hf hw₂ hI₂ hs _
    exact hpub m ordered f s w₂ asOf hn (hst.extend (hR w₁ w₂ hw₂)) hf (htrans _ _ _ hw₁ hw₂) hI₂ hs
  · exact fun e w₂ hw₂ hI₂ => herr e w₂ (htrans _ _ _ hw₁ hw₂) hI₂

end Pull

end ContextqlServer.Deepsee.Batch
