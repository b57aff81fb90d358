import ContextqlServer.Db.AsOfAnswers
import ContextqlServer.Db.CatalogViews
import ContextqlServer.Db.MembershipEvents
import ContextqlServer.Db.Promotions
import ContextqlServer.Lib.InstantOrder

namespace ContextqlServer.Db.HistoryRange

open ContextqlServer.Lib.AsOf ContextqlServer.Lib.Effect ContextqlServer.Lib.Isoformat
open ContextqlServer.Lib.JsonText ContextqlServer.Lib.Python ContextqlServer.Lib.Sql
open ContextqlServer.Db.Schema ContextqlServer.Db.Statements ContextqlServer.Db.Services
open ContextqlServer.Db.ContextCatalog ContextqlServer.Db.ContextCatalog.SQLiteContextRuntimeRepository
open ContextqlServer.Db.Calls ContextqlServer.Db.Codec ContextqlServer.Db.Shelf ContextqlServer.Db.Runs
open ContextqlServer.Db.RestCatalog ContextqlServer.Db.AsOfAnswers

/-- A row as `history` returns it, but for its id, which is its place in the table. -/
structure HistoryItem where
  transactionId : Int
  changeType : String
  recordedAt : String
  effectiveAt : String
  contextVersion : Int
  source : String
  evidenceRef : Option String
  previousScore : Option Float64
  newScore : Option Float64
  deriving DecidableEq

def historyItem (r : HistoryRow) : HistoryItem where
  transactionId := r.transactionId
  changeType := r.changeType
  recordedAt := r.recordedAt
  effectiveAt := r.effectiveAt
  contextVersion := r.contextVersion
  source := r.source
  evidenceRef := r.evidenceRef
  previousScore := r.previousScore
  newScore := r.newScore

/-- Within the bounds that are given. -/
def between {κ : Type} [LinearOrder κ] (start stop : Option κ) (x : κ) : Bool :=
  start.all (· ≤ x) && stop.all (x ≤ ·)

/-- `ORDER BY effective_at, id`: the rows stand in the order of their ids. -/
def historyRows (t : Tables) (contextId start stop : Option String) : List HistoryRow :=
  orderBy (fun r => r.effectiveAt) (t.contextMembershipHistory.filter (fun r =>
    some r.contextId = contextId && between start stop r.effectiveAt))

def history (T : FloatText) (name namespaceName : String) (start stop : Option String)
    (limit offset : Int) : ServiceProg (List HistoryItem) := do
  match ← CatalogService.get T name namespaceName with
  | none => throw (.valueError s!"Context '{name}' not found")
  | some current =>
    bindPage limit offset
    let t ← read
    pure ((page limit offset (historyRows t current.row.contextId start stop)).map historyItem)

variable {P : Packages} {T : FloatText} {E : Engine} {t t' : Tables} {c c₀ : Connection catalog}
  {h : List (Entry P)} {contextId name namespaceName : String} {start stop : Option String}

section Instants

/-- The instant that a stored time denotes. -/
def instantOfText (text : String) : Int :=
  match datetime (some text) with
  | .ok (some d) => d.instant
  | _ => 0

def eventInstant (r : HistoryRow) : Int := instantOfText r.effectiveAt

theorem instantOfText_eq {text : String} {d : Datetime} (h : datetime (some text) = .ok (some d)) :
    instantOfText text = d.instant := by
  rw [instantOfText, h]

theorem instantOfText_isoformat (d : Datetime) : instantOfText d.isoformat = d.instant := by
  have hread := datetime_iso (some d)
  rw [iso, Option.map_some] at hread
  rw [instantOfText_eq hread, instant_assumeUtc]

/-- The events of a context whose instants are in a range, in the order of the instants
and, of one instant, of their insertion. -/
def exactRows (t : Tables) (contextId : String) (start stop : Option Int) : List HistoryRow :=
  orderBy eventInstant ((eventsOf t contextId).filter (fun r => between start stop (eventInstant r)))

def inRange (start stop : Option String) (text : String) : Bool :=
  between (start.map instantOfText) (stop.map instantOfText) (instantOfText text)

/-- Stored times compare with the bounds, and in the range with each other, as the
instants that they denote. -/
structure ReadsAsTime (texts : List String) (start stop : Option String) : Prop where
  range : ∀ text ∈ texts, between start stop text = inRange start stop text
  order : ∀ a b, [a, b].Sublist (texts.filter (inRange start stop)) →
    (b < a ↔ instantOfText b < instantOfText a)

theorem readsAsTime_iff {α : Type} (text : α → String) (xs : List α) :
    (xs.filter (fun x => between start stop (text x))).insertionSort (fun a b => text a ≤ text b) =
        (xs.filter (fun x => inRange start stop (text x))).insertionSort
          (fun a b => instantOfText (text a) ≤ instantOfText (text b)) ↔
      ReadsAsTime (xs.map text) start stop := by
  rw [Lib.Ordering.filter_insertionSort_eq_iff text (fun x => instantOfText (text x))]
  constructor
  · rintro ⟨hrange, horder⟩
    refine ⟨List.forall_mem_map.mpr hrange, fun a b hab => ?_⟩
    rw [List.filter_map, List.sublist_map_iff] at hab
    obtain ⟨l, hl, hpair⟩ := hab
    obtain ⟨x, y, rfl, rfl, rfl⟩ : ∃ x y, l = [x, y] ∧ a = text x ∧ b = text y := by
      match l, hpair with
      | [x, y], hpair =>
        obtain ⟨rfl, hrest⟩ := List.cons.inj hpair
        obtain ⟨rfl, -⟩ := List.cons.inj hrest
        exact ⟨x, y, rfl, rfl, rfl⟩
    exact horder x y hl
  · rintro ⟨hrange, horder⟩
    refine ⟨List.forall_mem_map.mp hrange, fun x y hxy => horder _ _ ?_⟩
    rw [List.filter_map]
    exact hxy.map text

/-- A sort by times, seen on what is returned. -/
theorem sorted_items {κ : Type} [LinearOrder κ] (key : String → κ) (p : String → Bool) (rows : List HistoryRow) :
    (orderBy (fun r => key r.effectiveAt) (rows.filter (fun r => p r.effectiveAt))).map historyItem =
      ((rows.map historyItem).filter (fun i => p i.effectiveAt)).insertionSort
        (fun a b => key a.effectiveAt ≤ key b.effectiveAt) := by
  rw [orderBy, List.filter_map]
  exact List.map_insertionSort _ _ _ _ (fun _ _ _ _ => Iff.rfl)

end Instants

section Written

/-- The time of an event is what `_iso` wrote of a datetime with an offset. -/
def Written (r : HistoryRow) : Prop := ∃ d : Datetime, Aware d ∧ r.effectiveAt = d.isoformat

def PromotesAware (contextId : String) : Call P → Prop
  | .promote p => p.entry.contextId = contextId →
      ∀ e ∈ p.historyEvents, ∀ d, e.effectiveAt = some d → Aware d
  | _ => True

theorem insertEvent_rows {v : EventValues} {r : HistoryRow}
    (hr : r ∈ (insertEvent t v).contextMembershipHistory) :
    r ∈ t.contextMembershipHistory ∨ r.contextId = v.contextId ∧ v.effectiveAt = some r.effectiveAt := by
  rw [insertEvent] at hr
  split at hr
  · rename_i recordedAt effectiveAt hrecorded heffective
    split at hr
    · rcases List.mem_append.mp hr with hr | hr
      · exact .inl hr
      · rw [List.mem_singleton.mp hr]
        exact .inr ⟨rfl, heffective⟩
    · exact .inl hr
  · exact .inl hr

theorem insertEvents_written {p : Promotion P} {events : List MembershipChange}
    (haware : p.entry.contextId = contextId → ∀ e ∈ events, ∀ d, e.effectiveAt = some d → Aware d)
    (h : ∀ r ∈ t.contextMembershipHistory, r.contextId = contextId → Written r) :
    ∀ r ∈ (events.foldl (fun t e => insertEvent t (p.eventValues e)) t).contextMembershipHistory,
      r.contextId = contextId → Written r := by
  induction events generalizing t with
  | nil => exact h
  | cons e events ih =>
    apply ih (fun hid x hx => haware hid x (List.mem_cons_of_mem e hx))
    intro r hr hid
    rcases insertEvent_rows hr with hr | ⟨hentry, htime⟩
    · exact h r hr hid
    · obtain ⟨d, hd, htext⟩ := Option.map_eq_some_iff.mp htime
      exact ⟨d, haware (hentry.symm.trans hid) e (List.mem_cons_self ..) d hd, htext.symm⟩

def AllWritten (contextId : String) (t : Tables) : Prop :=
  ∀ r ∈ t.contextMembershipHistory, r.contextId = contextId → Written r

theorem effect_written {call : Call P} (haware : PromotesAware contextId call)
    (hc : call.Effect t t') (h : AllWritten contextId t) : AllWritten contextId t' := by
  have hsame (hs : SameShelf t t') : AllWritten contextId t' := by
    rw [AllWritten, hs.history]
    exact h
  cases call with
  | promote p =>
    obtain ⟨row, hpromoted⟩ := Promoted.of_applies hc
    rw [AllWritten, hpromoted.history]
    exact insertEvents_written haware h
  | prune entry cutoff =>
    obtain ⟨-, rfl⟩ | ⟨version, -, rfl⟩ := prune_cases hc
    · exact h
    · exact fun r hr => h r (List.mem_filter.mp hr).1
  | save e rawDdl =>
    obtain ⟨a, hrun⟩ := hc
    exact hsame (run_sameShelf (Call.saveStatement_notShelf e rawDdl t) hrun)
  | drop e =>
    obtain ⟨a, now, hrun⟩ := hc
    exact hsame (run_sameShelf rfl hrun)
  | record contextId version executedAt =>
    obtain ⟨a, hrun⟩ := hc
    exact hsame (run_sameShelf rfl hrun)

/-- Whatever the calls of a run and however they end, all events are written so. -/
theorem reaches_written (h₀ : c₀.committed.contextMembershipHistory = []) (hnone : c₀.transaction = none)
    (hr : Reaches c₀ h c) (haware : ∀ e ∈ h, PromotesAware contextId e.1) :
    AllWritten contextId c.pending := by
  have hempty : AllWritten contextId c₀.committed := by
    intro r hmem
    rw [h₀] at hmem
    cases hmem
  exact ((guarded_of_reaches hr haware).invariant (J := AllWritten contextId)
    (fun _ _ _ hcall heffect h => effect_written hcall heffect h) hempty hnone).2

end Written

theorem exec_history {row : ContextRow} (hrow : latestNamed c.pending name namespaceName = some row)
    (start stop : Option String) {limit offset : Int} (hlimit : Storable limit) (hoffset : Storable offset) :
    (handler T E).exec (history T name namespaceName start stop limit offset) c =
      (.ok ((page limit offset (historyRows c.pending row.contextId start stop)).map historyItem),
        c.advance.advance) := by
  rw [history, Handler.exec_bind _ (CatalogViews.exec_get T E c name namespaceName), hrow, Option.map_some]
  dsimp only
  rw [bindPage_ok hlimit hoffset]
  rfl

/-- No limit is in effect: there is none, or it is not below the number of events. -/
structure Unlimited (t : Tables) (contextId : String) (limit : Int) : Prop where
  storable : Storable limit
  whole : limit < 0 ∨ ((eventsOf t contextId).length : Int) ≤ limit

theorem historyRows_eq (t : Tables) (contextId : String) (start stop : Option String) :
    historyRows t (some contextId) start stop = orderBy (fun r => r.effectiveAt)
      ((eventsOf t contextId).filter (fun r => between start stop r.effectiveAt)) := by
  rw [historyRows, eventsOf, List.filter_filter]
  congr 1
  apply List.filter_congr
  intro r _
  rw [Bool.and_comm]
  simp

theorem page_unlimited {limit : Int} (h : Unlimited t contextId limit) (start stop : Option String) :
    page limit 0 (historyRows t (some contextId) start stop) = historyRows t (some contextId) start stop := by
  rw [page]
  split
  · rfl
  · rename_i hlimit
    have hlen : (historyRows t (some contextId) start stop).length ≤ (eventsOf t contextId).length := by
      rw [historyRows_eq, orderBy, List.length_insertionSort]
      exact List.length_filter_le _ _
    have hle := h.whole.resolve_left hlimit
    exact List.take_of_length_le (by simpa using hlen.trans (by omega))

theorem historyRows_exact_iff (t : Tables) (contextId : String) (start stop : Option String) :
    (historyRows t (some contextId) start stop).map historyItem =
        (exactRows t contextId (start.map instantOfText) (stop.map instantOfText)).map historyItem ↔
      ReadsAsTime ((eventsOf t contextId).map (fun r => r.effectiveAt)) start stop := by
  have hitems : (eventsOf t contextId).map (fun r => r.effectiveAt) =
      ((eventsOf t contextId).map historyItem).map (fun i => i.effectiveAt) := by
    rw [List.map_map]
    rfl
  rw [historyRows_eq, hitems, ← readsAsTime_iff]
  exact Eq.congr (sorted_items id (between start stop) _) (sorted_items instantOfText (inRange start stop) _)

/-- The history of a context between two bounds is that of the instants exactly if the
texts of its events compare with the bounds, and with each other, as times. -/
theorem history_exact_iff {row : ContextRow} {limit : Int}
    (h₀ : c₀.committed.contextMembershipHistory = []) (hnone : c₀.transaction = none)
    (hr : Reaches c₀ h c) (haware : ∀ e ∈ h, PromotesAware contextId e.1)
    (hrow : latestNamed c.pending name namespaceName = some row) (hid : row.contextId = some contextId)
    (hstart : ∀ s, start = some s → ∃ d, datetime (some s) = .ok (some d))
    (hstop : ∀ s, stop = some s → ∃ d, datetime (some s) = .ok (some d))
    (hlimit : Unlimited c.pending contextId limit) :
    (∀ r ∈ eventsOf c.pending contextId,
      ∃ d : Datetime, Aware d ∧ r.effectiveAt = d.isoformat ∧ eventInstant r = d.instant) ∧
    (∀ s, start = some s ∨ stop = some s → ∃ d, datetime (some s) = .ok (some d) ∧ instantOfText s = d.instant) ∧
    ((handler T E).exec (history T name namespaceName start stop limit 0) c =
        (.ok ((exactRows c.pending contextId (start.map instantOfText) (stop.map instantOfText)).map historyItem),
          c.advance.advance) ↔
      ReadsAsTime ((eventsOf c.pending contextId).map (fun r => r.effectiveAt)) start stop) := by
  refine ⟨?_, ?_, ?_⟩
  · intro r hmem
    obtain ⟨hmem, hcontext⟩ := List.mem_filter.mp hmem
    obtain ⟨d, hd, htext⟩ := reaches_written h₀ hnone hr haware r hmem (by simpa using hcontext)
    exact ⟨d, hd, htext, by rw [eventInstant, htext, instantOfText_isoformat]⟩
  · intro s hs
    obtain ⟨d, hd⟩ := hs.elim (hstart s) (hstop s)
    exact ⟨d, hd, instantOfText_eq hd⟩
  · rw [exec_history hrow start stop hlimit.storable (by decide), hid, page_unlimited hlimit]
    refine Iff.trans ?_ (historyRows_exact_iff _ contextId start stop)
    simp

section OneOffset

variable {o : Option Int} {a b : String} {cutoff : Datetime}

/-- What `isoformat` writes of a datetime with the offset `o`. -/
def IsoOf (o : Option Int) (text : String) : Prop :=
  ∃ d : Datetime, d.fields.utcoffset = o ∧ text = d.isoformat

theorem IsoOf.lt_iff (ha : IsoOf o a) (hb : IsoOf o b) : a < b ↔ instantOfText a < instantOfText b := by
  obtain ⟨d, hd, rfl⟩ := ha
  obtain ⟨d', hd', rfl⟩ := hb
  rw [instantOfText_isoformat, instantOfText_isoformat]
  exact isoformat_lt_iff (hd.trans hd'.symm)

theorem IsoOf.le_iff (ha : IsoOf o a) (hb : IsoOf o b) : a ≤ b ↔ instantOfText a ≤ instantOfText b := by
  rw [← not_lt, hb.lt_iff ha, not_lt]

theorem IsoOf.eq_iff (ha : IsoOf o a) (hb : IsoOf o b) : a = b ↔ instantOfText a = instantOfText b := by
  rw [le_antisymm_iff, le_antisymm_iff, ha.le_iff hb, hb.le_iff ha]

theorem readsAsTime_of_offset {texts : List String} (h : ∀ text ∈ texts, IsoOf o text)
    (hstart : ∀ s ∈ start, IsoOf o s) (hstop : ∀ s ∈ stop, IsoOf o s) : ReadsAsTime texts start stop where
  range text htext := by
    have hlower : start.all (· ≤ text) = (start.map instantOfText).all (· ≤ instantOfText text) := by
      cases start with
      | none => rfl
      | some s => simpa using (hstart s rfl).le_iff (h text htext)
    have hupper : stop.all (text ≤ ·) = (stop.map instantOfText).all (instantOfText text ≤ ·) := by
      cases stop with
      | none => rfl
      | some s => simpa using (h text htext).le_iff (hstop s rfl)
    rw [inRange, between, between, hlower, hupper]
  order a b hab := by
    have hmem (x : String) (hx : x ∈ [a, b]) : IsoOf o x :=
      h x (List.mem_filter.mp (hab.mem hx)).1
    exact (hmem b (by simp)).lt_iff (hmem a (by simp))

theorem historyRows_of_offset (h : ∀ r ∈ eventsOf t contextId, IsoOf o r.effectiveAt)
    (hstart : ∀ s ∈ start, IsoOf o s) (hstop : ∀ s ∈ stop, IsoOf o s) :
    historyRows t (some contextId) start stop =
      exactRows t contextId (start.map instantOfText) (stop.map instantOfText) := by
  rw [historyRows_eq]
  exact (readsAsTime_iff (fun r : HistoryRow => r.effectiveAt) _).mpr
    (readsAsTime_of_offset (List.forall_mem_map.mpr h) hstart hstop)

theorem anchor_of_offset (hcutoff : cutoff.fields.utcoffset = o)
    (h : ∀ r ∈ snapshotsOf t contextId, IsoOf o r.dataAsOf) :
    anchor t contextId (iso (some cutoff)) =
      (answerAt t contextId cutoff.instant).map (fun r => r.version) := by
  have hbound : IsoOf o cutoff.isoformat := ⟨cutoff, hcutoff, rfl⟩
  have hfilter : t.contextSnapshots.filter (fun r => r.contextId = contextId &&
      (iso (some cutoff)).any (fun c => r.dataAsOf ≤ c)) =
      (snapshotsOf t contextId).filter (fun r => r.dataAsOf ≤ cutoff.isoformat) := by
    rw [snapshotsOf, List.filter_filter]
    apply List.filter_congr
    intro r _
    rw [iso, Option.map_some, Option.any_some, Bool.and_comm]
  have hpick : ∀ r ∈ snapshotsOf t contextId,
      decide (r.dataAsOf ≤ cutoff.isoformat) = decide (instantOf r ≤ cutoff.instant) := by
    intro r hr
    have hle := (h r hr).le_iff hbound
    rw [instantOfText_isoformat] at hle
    exact decide_eq_decide.mpr hle
  have horder : ∀ r s : SnapshotRow, IsoOf o r.dataAsOf → IsoOf o s.dataAsOf →
      (toLex (r.dataAsOf, r.version) < toLex (s.dataAsOf, s.version) ↔
        rank instantOf (fun r => r.version) r < rank instantOf (fun r => r.version) s) := by
    intro r s hr hs
    rw [rank, rank, Prod.Lex.toLex_lt_toLex, Prod.Lex.toLex_lt_toLex]
    exact or_congr (hr.lt_iff hs) (and_congr_left' (hr.eq_iff hs))
  rw [anchor, answerAt, asOf, hfilter, orderBy]
  congr 2
  refine (Lib.Ordering.filter_insertionSort_eq_iff _ _ _ _).mpr ⟨hpick, fun r s hrs => ?_⟩
  have hmem (x : SnapshotRow) (hx : x ∈ [r, s]) : IsoOf o x.dataAsOf :=
    h x (List.mem_filter.mp (hrs.mem hx)).1
  exact horder r s (hmem r (by simp)) (hmem s (by simp))

theorem deleteEvents_of_offset (hcutoff : cutoff.fields.utcoffset = o)
    (h : ∀ r ∈ eventsOf t contextId, IsoOf o r.effectiveAt) :
    (deleteEvents t contextId (iso (some cutoff))).contextMembershipHistory =
      t.contextMembershipHistory.filter (fun r =>
        !(r.contextId = contextId && eventInstant r < cutoff.instant)) := by
  apply List.filter_congr
  intro r hr
  by_cases hid : r.contextId = contextId
  · have hlt := (h r (List.mem_filter.mpr ⟨hr, by simpa using hid⟩)).lt_iff ⟨cutoff, hcutoff, rfl⟩
    rw [instantOfText_isoformat] at hlt
    simp only [iso, Option.map_some, Option.any_some, decide_eq_decide.mpr hlt]
    rfl
  · simp [hid]

/-- Times in UTC sort as text: datetimes by their bytes, and so the anchor and the
deletions of a pruning and the rows of a history. -/
theorem utc_sorts_as_text :
    (∀ a b : Datetime, a.fields.utcoffset = some 0 → b.fields.utcoffset = some 0 →
      (a.instant < b.instant ↔ utf8 a.isoformat < utf8 b.isoformat) ∧
      (a.instant < b.instant ↔ a.isoformat < b.isoformat) ∧
      (a.instant = b.instant ↔ a.isoformat = b.isoformat) ∧
      datetime (iso (some a)) = .ok (some a)) ∧
    (∀ (t : Tables) (contextId : String) (cutoff : Datetime), cutoff.fields.utcoffset = some 0 →
      (∀ r ∈ snapshotsOf t contextId, IsoOf (some 0) r.dataAsOf) →
      (∀ r ∈ eventsOf t contextId, IsoOf (some 0) r.effectiveAt) →
      anchor t contextId (iso (some cutoff)) =
        (answerAt t contextId cutoff.instant).map (fun r => r.version) ∧
      (deleteEvents t contextId (iso (some cutoff))).contextMembershipHistory =
        t.contextMembershipHistory.filter (fun r =>
          !(r.contextId = contextId && eventInstant r < cutoff.instant))) ∧
    (∀ (t : Tables) (contextId : String) (start stop : Option Datetime),
      (∀ d ∈ start, d.fields.utcoffset = some 0) → (∀ d ∈ stop, d.fields.utcoffset = some 0) →
      (∀ r ∈ eventsOf t contextId, IsoOf (some 0) r.effectiveAt) →
      historyRows t (some contextId) (iso start) (iso stop) =
        exactRows t contextId (start.map Datetime.instant) (stop.map Datetime.instant)) := by
  refine ⟨?_, ?_, ?_⟩
  · intro a b ha hb
    have hlt := isoformat_lt_iff (ha.trans hb.symm)
    refine ⟨?_, hlt.symm, ?_, ?_⟩
    · rw [utf8_lt_iff (isoformat_ascii a) (isoformat_ascii b), hlt]
    · rw [instant_eq_iff (ha.trans hb.symm), isoformat_injective.eq_iff]
    · apply datetime_iso_aware
      rintro x ⟨⟩
      rw [Aware, ha]
      simp
  · exact fun t contextId cutoff hcutoff hsnapshots hevents =>
      ⟨anchor_of_offset hcutoff hsnapshots, deleteEvents_of_offset hcutoff hevents⟩
  · intro t contextId start stop hstart hstop hevents
    have hbound (d : Option Datetime) (hd : ∀ x ∈ d, x.fields.utcoffset = some 0) :
        (∀ s ∈ iso d, IsoOf (some 0) s) ∧ (iso d).map instantOfText = d.map Datetime.instant := by
      cases d with
      | none => simp [iso]
      | some d =>
        refine ⟨?_, congrArg some (instantOfText_isoformat d)⟩
        rintro s ⟨⟩
        exact ⟨d, hd d rfl, rfl⟩
    rw [← (hbound start hstart).2, ← (hbound stop hstop).2]
    exact historyRows_of_offset hevents (hbound start hstart).1 (hbound stop hstop).1

end OneOffset

section Sample

open ContextqlServer.Db.MembershipEvents (eventPackages eventPromotion moved)

/-- An entity that joins at the beginning of January 2. -/
def noted : MembershipChange where
  contextId := "a"
  entityId := 7
  changeType := "added"
  recordedAt := some (sampleDay 1)
  effectiveAt := some (sampleDay 1)
  contextVersion := 1
  source := "refresh"
  evidenceRef := none
  previousScore := none
  newScore := none

def notedCalls : List (Call samplePackages) :=
  [.save (sampleEntry "a" "name" 1) none,
    .promote { samplePromotion "a" 1 1 [1] with historyEvents := [noted] }]

def afterNoted : Connection catalog := runCalls (sampleConnection .empty) notedCalls

def sampleText : FloatText := samplePackages.floatText

/-- An engine that does nothing. -/
def idle : Engine := ⟨fun _ c => (.ok (), c)⟩

/-- The later of two events is recorded before the other. -/
def orderedCalls : List (Call eventPackages) :=
  [.save { sampleEntry "a" "name" 1 with } none,
    .promote (eventPromotion 1 2 [moved "removed" 1 2, moved "added" 1 1])]

def afterOrdered : Connection catalog := runCalls (sampleConnection .empty) orderedCalls

theorem orderedCalls_aware : ∀ call ∈ orderedCalls, PromotesAware "a" call := by
  intro call hcall
  simp only [orderedCalls, List.mem_cons, List.not_mem_nil, or_false] at hcall
  rcases hcall with rfl | rfl
  · trivial
  · rintro - e he d hd
    change e ∈ [moved "removed" 1 2, moved "added" 1 1] at he
    simp only [List.mem_cons, List.not_mem_nil, or_false] at he
    rcases he with rfl | rfl <;> obtain rfl := Option.some.inj hd <;> decide

theorem isoOf_sample (day : Fin 28) : IsoOf (some 0) (sampleDay day).isoformat := ⟨sampleDay day, rfl, rfl⟩

theorem isoOf_ordered :
    ∀ text ∈ (eventsOf afterOrdered.pending "a").map (fun r => r.effectiveAt), IsoOf (some 0) text := by
  have htexts : (eventsOf afterOrdered.pending "a").map (fun r => r.effectiveAt) =
      [(sampleDay 2).isoformat, (sampleDay 1).isoformat] := by decide
  rw [htexts]
  simp only [List.forall_mem_cons]
  exact ⟨isoOf_sample 2, isoOf_sample 1, fun _ h => by cases h⟩

/-- The snapshot that answers at a cutoff, and the events between two days. -/
theorem utc_sorts_as_text_sample :
    ((sampleDay 1).instant < (sampleDay 2).instant ↔ (sampleDay 1).isoformat < (sampleDay 2).isoformat) ∧
    anchor afterOrdered.pending "a" (iso (some (sampleDay 2))) =
      (answerAt afterOrdered.pending "a" (sampleDay 2).instant).map (fun r => r.version) ∧
    historyRows afterOrdered.pending (some "a") (iso (some (sampleDay 1))) (iso (some (sampleDay 2))) =
      exactRows afterOrdered.pending "a" (some (sampleDay 1).instant) (some (sampleDay 2).instant) := by
  obtain ⟨hdatetimes, hprunes, hhistory⟩ := utc_sorts_as_text
  have hsnapshots : ∀ r ∈ snapshotsOf afterOrdered.pending "a", IsoOf (some 0) r.dataAsOf := by
    have htexts : (snapshotsOf afterOrdered.pending "a").map (fun r => r.dataAsOf) = [(sampleDay 2).isoformat] := by
      decide
    have hall : ∀ text ∈ (snapshotsOf afterOrdered.pending "a").map (fun r => r.dataAsOf), IsoOf (some 0) text := by
      rw [htexts]
      exact List.forall_mem_singleton.mpr (isoOf_sample 2)
    exact List.forall_mem_map.mp hall
  refine ⟨(hdatetimes _ _ rfl rfl).2.1,
    (hprunes _ "a" (sampleDay 2) rfl hsnapshots (List.forall_mem_map.mp isoOf_ordered)).1,
    hhistory _ "a" (some (sampleDay 1)) (some (sampleDay 2)) ?_ ?_ (List.forall_mem_map.mp isoOf_ordered)⟩
  · rintro d ⟨⟩
    rfl
  · rintro d ⟨⟩
    rfl

/-- With bounds written as the events' times, both events are returned, the earlier one first. -/
theorem history_exact_iff_noted :
    (handler sampleText idle).exec (history sampleText "name" "default"
        (some "2024-01-02T00:00:00+00:00") (some "2024-01-03T00:00:00+00:00") 100 0) afterOrdered =
      (.ok ((exactRows afterOrdered.pending "a" (some (sampleDay 1).instant) (some (sampleDay 2).instant)).map
        historyItem), afterOrdered.advance.advance) ∧
    (exactRows afterOrdered.pending "a" (some (sampleDay 1).instant) (some (sampleDay 2).instant)).map
      (fun r => r.changeType) = ["added", "removed"] := by
  have hcalls : ∀ e ∈ outcomes (sampleConnection .empty) orderedCalls, PromotesAware "a" e.1 := by
    intro e he
    apply orderedCalls_aware
    rw [← outcomes_calls (sampleConnection .empty) orderedCalls]
    exact List.mem_map_of_mem he
  obtain ⟨row, hrow, hid⟩ : ∃ row, latestNamed afterOrdered.pending "name" "default" = some row ∧
      row.contextId = some "a" := by
    have h : (latestNamed afterOrdered.pending "name" "default").map (fun r => r.contextId) = some (some "a") := by
      decide
    exact Option.map_eq_some_iff.mp h
  have hstart : (sampleDay 1).isoformat = "2024-01-02T00:00:00+00:00" := by decide
  have hstop : (sampleDay 2).isoformat = "2024-01-03T00:00:00+00:00" := by decide
  refine ⟨(history_exact_iff (c := afterOrdered) rfl rfl (runCalls_reaches .start orderedCalls) hcalls hrow hid
    ?_ ?_ ⟨by decide, .inr (by decide)⟩).2.2.mpr (readsAsTime_of_offset isoOf_ordered ?_ ?_), by decide⟩
  · rintro _ ⟨⟩
    exact ⟨sampleDay 1, by decide⟩
  · rintro _ ⟨⟩
    exact ⟨sampleDay 2, by decide⟩
  · rintro _ ⟨⟩
    exact hstart ▸ isoOf_sample 1
  · rintro _ ⟨⟩
    exact hstop ▸ isoOf_sample 2

/-- With the same bounds written with a `Z`, it is not. -/
theorem history_zulu :
    Successful (outcomes (sampleConnection .empty) notedCalls) ∧
      datetime (some "2024-01-02T00:00:00Z") = .ok (some (sampleDay 1)) ∧
      datetime (some "2024-01-03T00:00:00Z") = .ok (some (sampleDay 2)) ∧
      ((handler sampleText idle).exec (history sampleText "name" "default"
        (some "2024-01-02T00:00:00Z") (some "2024-01-03T00:00:00Z") 100 0) afterNoted).1 = .ok [] ∧
      (exactRows afterNoted.pending "a" (some (sampleDay 1).instant) (some (sampleDay 2).instant)).map
        (fun r => (r.transactionId, r.effectiveAt)) = [(7, "2024-01-02T00:00:00+00:00")] :=
  ⟨successful_iff.mpr (by decide), by decide, by decide, by decide, by decide⟩

end Sample

end ContextqlServer.Db.HistoryRange
