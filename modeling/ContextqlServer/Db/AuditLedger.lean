import ContextqlServer.Db.Calls
import ContextqlServer.Lib.JsonRead
import ContextqlServer.Lib.Ledger
import ContextqlServer.Lib.Ordering

namespace ContextqlServer.Db.AuditLedger

open ContextqlServer.Lib.Effect ContextqlServer.Lib.JsonText ContextqlServer.Lib.JsonRead ContextqlServer.Lib.Ledger
open ContextqlServer.Lib ContextqlServer.Lib.Python ContextqlServer.Lib.Rely ContextqlServer.Lib.Sql
open ContextqlServer.Db.Schema ContextqlServer.Db.Statements ContextqlServer.Db.Services ContextqlServer.Db.Calls
open ContextqlServer.Db.Services.AuditService

section Statements

def aboutServices : Statement → Bool
  | .insertAudit _ | .insertProvider _ | .changeProvider .. | .insertIdentityMap _ => true
  | _ => false

structure SameServices (t t' : Tables) : Prop where
  providers : t'.providers = t.providers
  identityMaps : t'.identityMaps = t.identityMaps
  auditLog : t'.auditLog = t.auditLog

variable {s : Statement} {a : Ambient} {t t' : Tables}

theorem insertEvent_sameServices (t : Tables) (v : EventValues) : SameServices t (insertEvent t v) := by
  rw [insertEvent]
  split
  · split <;> exact ⟨rfl, rfl, rfl⟩
  · exact ⟨rfl, rfl, rfl⟩

theorem run_sameServices (hs : aboutServices s = false) (h : s.run a t = .ok t') : SameServices t t' := by
  replace h := (Statement.run_ok.mp h).2
  cases s with
  | backfillContext | insertPayload | makeCurrent =>
    obtain ⟨-, rfl⟩ := bind_unique_ok h
    exact ⟨rfl, rfl, rfl⟩
  | insertContext v =>
    obtain ⟨_, -, h⟩ := bind_eq_ok.mp h
    obtain ⟨_, -, h⟩ := bind_eq_ok.mp h
    obtain ⟨-, rfl⟩ := bind_unique_ok h
    exact ⟨rfl, rfl, rfl⟩
  | updateContext v =>
    obtain ⟨_, -, h⟩ := bind_eq_ok.mp h
    cases h
    exact ⟨rfl, rfl, rfl⟩
  | insertSnapshot v =>
    obtain ⟨_, -, h⟩ := bind_eq_ok.mp h
    obtain ⟨_, -, h⟩ := bind_eq_ok.mp h
    obtain ⟨_, -, h⟩ := bind_eq_ok.mp h
    obtain ⟨_, -, h⟩ := bind_eq_ok.mp h
    obtain ⟨_, -, h⟩ := bind_eq_ok.mp h
    obtain ⟨-, rfl⟩ := bind_unique_ok h
    exact ⟨rfl, rfl, rfl⟩
  | insertEvent v =>
    cases h
    exact insertEvent_sameServices t v
  | insertAudit | insertProvider | changeProvider | insertIdentityMap => cases hs
  | _ =>
    cases h
    exact ⟨rfl, rfl, rfl⟩

theorem run_auditLog (h : s.run a t = .ok t') : t'.auditLog = t.auditLog ∨ ∃ v, t' = insertAudit t v := by
  cases s with
  | insertAudit v =>
    cases h
    exact .inr ⟨v, rfl⟩
  | insertProvider | insertIdentityMap =>
    obtain ⟨-, rfl⟩ := bind_unique_ok (Statement.run_ok.mp h).2
    exact .inl rfl
  | changeProvider =>
    cases (Statement.run_ok.mp h).2
    exact .inl rfl
  | _ => exact .inl (run_sameServices rfl h).auditLog

def entries (t : Tables) : List AuditRow := t.auditLog.rows

theorem entries_grow : Grows (M := catalog) entries := by
  intro s a t t' h
  obtain hsame | ⟨v, rfl⟩ := run_auditLog h
  · change t.auditLog.rows <+: t'.auditLog.rows
    rw [hsame]
  · exact List.prefix_append _ _

/-- The ids of the entries count them. -/
def Numbered (t : Tables) : Prop := (entries t).map (fun r => r.id) = List.range' 1 t.auditLog.sequence

theorem Numbered.run (hn : Numbered t) (h : s.run a t = .ok t') : Numbered t' := by
  obtain hsame | ⟨v, rfl⟩ := run_auditLog h
  · rw [Numbered, entries, hsame]
    exact hn
  · change (entries t ++ [_]).map _ = List.range' 1 (t.auditLog.sequence + 1)
    rw [List.map_append, hn, List.range'_1_concat, Nat.add_comm]
    rfl

theorem Numbered.ascending (hn : Numbered t) : (entries t).Pairwise (fun r s => r.id < s.id) :=
  List.pairwise_map.mp (hn ▸ List.pairwise_lt_range')

theorem Numbered.id_le (hn : Numbered t) {r : AuditRow} (hr : r ∈ entries t) : r.id ≤ t.auditLog.sequence := by
  have hid : r.id ∈ List.range' 1 t.auditLog.sequence := hn ▸ List.mem_map_of_mem hr
  have := (List.mem_range'_1.mp hid).2
  omega

theorem Numbered.get (hn : Numbered t) {r : AuditRow} (hr : r ∈ entries t) : (entries t)[r.id - 1]? = some r := by
  obtain ⟨i, hi⟩ := List.mem_iff_getElem?.mp hr
  have hid : (List.range' 1 t.auditLog.sequence)[i]? = some r.id := by
    rw [← hn, List.getElem?_map, hi]
    rfl
  obtain ⟨hlt, hid⟩ := List.getElem?_eq_some_iff.mp hid
  rw [List.getElem_range'] at hid
  rw [show r.id - 1 = i by omega, hi]

end Statements

section Queries

variable (T : FloatText) (f : Filters) (limit offset : Int) (c : Connection catalog)

/-- An entry as a query returns it. -/
def entry (r : AuditRow) : AuditRow × Option Parsed := (r, r.detail.map (parsed T))

def answer : List (AuditRow × Option Parsed) :=
  (page limit offset ((entries c.pending).filter f.accepts).reverse).map (entry T)

variable {T f limit offset c}

theorem mem_of_mem_page {α : Type} {x : α} {xs : List α} (hx : x ∈ page limit offset xs) : x ∈ xs := by
  rw [page] at hx
  split at hx
  · exact List.mem_of_mem_drop hx
  · exact List.mem_of_mem_drop (List.mem_of_mem_take hx)

theorem mem_answer {x : AuditRow × Option Parsed} (hx : x ∈ answer T f limit offset c) :
    ∃ r ∈ entries c.pending, x = entry T r := by
  obtain ⟨r, hr, rfl⟩ := List.mem_map.mp hx
  exact ⟨r, (List.mem_filter.mp (List.mem_reverse.mp (mem_of_mem_page hr))).1, rfl⟩

theorem exec_query (hn : Numbered c.pending) (hlimit : Storable limit) (hoffset : Storable offset) :
    (Connection.handler catalog).exec (query T f limit offset) c = (.ok (answer T f limit offset c), c.advance) := by
  have hdescending : (((entries c.pending).filter f.accepts).reverse).Pairwise
      (fun r s => OrderDual.toDual r.id < OrderDual.toDual s.id) :=
    List.pairwise_reverse.mpr ((hn.ascending.imp fun h => OrderDual.toDual_lt_toDual.mpr h).filter f.accepts)
  have horder : orderBy (fun r : AuditRow => OrderDual.toDual r.id) ((entries c.pending).filter f.accepts) =
      ((entries c.pending).filter f.accepts).reverse :=
    Ordering.insertionSort_eq_of_perm _ (List.reverse_perm _).symm hdescending
  rw [query, bindIntegers_pair hlimit hoffset]
  change (Except.ok ((page limit offset (orderBy _ ((entries c.pending).filter f.accepts))).map (entry T)),
    c.advance) = _
  rw [answer, ← horder]

theorem query_ok {xs : List (AuditRow × Option Parsed)} {c' : Connection catalog} (hn : Numbered c.pending)
    (h : (Connection.handler catalog).exec (query T f limit offset) c = (.ok xs, c')) :
    xs = answer T f limit offset c := by
  have hstorable : Storable limit ∧ Storable offset := by
    rw [query, Handler.exec_ofExcept_bind] at h
    cases hb : bindIntegers [limit, offset] with
    | error e =>
      rw [hb] at h
      cases h
    | ok _ => simpa using bindIntegers_ok.mp hb
  rw [exec_query hn hstorable.1 hstorable.2] at h
  exact (Except.ok.inj (Prod.mk.inj h).1).symm

end Queries

section Logging

variable {T : FloatText} {e : Event} {c c' : Connection catalog} {k : Nat}

/-- What is inserted for an event. -/
structure Describes (T : FloatText) (e : Event) (v : AuditValues) : Prop where
  eventType : v.eventType = e.eventType
  actor : v.actor = e.actor
  namespaceName : v.namespaceName = e.namespaceName
  resourceType : v.resourceType = e.resourceType
  resourceName : v.resourceName = e.resourceName
  detail : v.detail = e.detail.map (dumps T)
  traceId : ∀ traceId, e.traceId = some traceId → v.traceId = traceId

/-- What a `log` that returns `k` has done, from the tables `t`. -/
structure Logged (T : FloatText) (e : Event) (t : Tables) (k : Nat) (c' : Connection catalog) : Prop where
  id : k = t.auditLog.sequence + 1
  settled : c'.transaction = none
  committed : ∃ v, Describes T e v ∧ c'.committed = insertAudit t v

/-- The part of `log` after the trace id has been settled. -/
theorem insert_logs {traceId : String} (htrace : ∀ given, e.traceId = some given → traceId = given) :
    Keeps (Answers catalog) Eq (fun _ => True) (fun out c' => ∀ k, out = .ok k → Logged T e c.pending k c') (do
      let ambient ← sense
      let t ← execute (M := catalog) (.insertAudit {
        timestamp := ambient.now.strftime
        eventType := e.eventType
        actor := e.actor
        namespaceName := e.namespaceName
        resourceType := e.resourceType
        resourceName := e.resourceName
        detail := e.detail.map (dumps T)
        traceId })
      commit
      pure t.auditLog.sequence) c := by
  refine .bind (sense_alone trivial ?_)
  intro ambient
  refine .bind (execute_alone trivial ?_ fun _ _ hk => by cases hk)
  intro a t ht
  obtain rfl := Except.ok.inj ht
  refine .bind (commit_alone trivial ?_ fun _ _ hk => by cases hk)
  intro k hk
  obtain rfl := Except.ok.inj hk
  exact ⟨rfl, rfl, _, ⟨rfl, rfl, rfl, rfl, rfl, rfl, htrace⟩, rfl⟩

theorem log_logs (h : Runs (Answers catalog) Eq (log T e) c (.ok k) c') : Logged T e c.pending k c' := by
  have hkeeps : Keeps (Answers catalog) Eq (fun _ => True)
      (fun out c' => ∀ k, out = .ok k → Logged T e c.pending k c') (log T e) c := by
    rw [log]
    split
    · rename_i traceId htrace
      apply insert_logs
      intro given hgiven
      exact Option.some.inj (htrace.symm.trans hgiven)
    · rename_i htrace
      refine .bind (sense_alone trivial ?_)
      intro ambient
      refine insert_logs (c := c.advance) ?_
      intro given hgiven
      rw [htrace] at hgiven
      cases hgiven
  exact (hkeeps.runs (fun _ _ _ _ h => h) (fun _ _ h => h) (fun _ _ _ _ => trivial) h) k rfl

/-- An entry that a query returns, read as an event. -/
structure Reads (e : Event) (x : AuditRow × Option Parsed) : Prop where
  eventType : x.1.eventType = e.eventType
  actor : x.1.actor = some e.actor
  namespaceName : x.1.namespaceName = some e.namespaceName
  resourceType : x.1.resourceType = e.resourceType
  resourceName : x.1.resourceName = e.resourceName
  detail : x.2 = e.detail.map Parsed.json
  traceId : ∀ traceId, e.traceId = some traceId → x.1.traceId = some traceId

def asksFor (f : Filters) (e : Event) : Bool :=
  f.eventType.all (· = e.eventType) && f.namespaceName.all (· = e.namespaceName) &&
    f.resourceType.all (some · = e.resourceType) && f.resourceName.all (some · = e.resourceName)

def inserted (t : Tables) (v : AuditValues) : AuditRow :=
  { v with
    id := t.auditLog.sequence + 1, actor := some v.actor, namespaceName := some v.namespaceName
    traceId := some v.traceId }

theorem Describes.reads {v : AuditValues} (h : Describes T e v) (hplain : ∀ d, e.detail = some d → Plain T d)
    (t : Tables) : Reads e (entry T (inserted t v)) where
  eventType := h.eventType
  actor := congrArg some h.actor
  namespaceName := congrArg some h.namespaceName
  resourceType := h.resourceType
  resourceName := h.resourceName
  detail := by
    change v.detail.map (parsed T) = _
    rw [h.detail, Option.map_map]
    apply Option.map_congr
    intro d hd
    rw [Function.comp_apply, parsed, loads_dumps (hplain d hd)]
  traceId traceId htrace := congrArg some (h.traceId traceId htrace)

theorem Describes.accepted {v : AuditValues} (h : Describes T e v) {f : Filters} (hf : asksFor f e = true) (t : Tables) :
    f.accepts (inserted t v) = true := by
  rw [← hf, Filters.accepts, asksFor]
  simp only [inserted, h.eventType, h.namespaceName, h.resourceType, h.resourceName, Option.some.injEq]

end Logging

section Ledger

variable {T : FloatText} {c₀ c c₁ c' : Connection catalog}

/-- A database that has just been opened, whose audit ids count its entries. -/
structure Opened (c : Connection catalog) : Prop where
  numbered : Numbered c.committed
  transaction : c.transaction = none

theorem Opened.numbered_of_moves {allowed : Option (SqlOp catalog) → Prop} (h₀ : Opened c₀)
    (hr : Moves allowed c₀ c) : Numbered c.committed ∧ Numbered c.pending := by
  refine hr.invariant (fun s a t t' hn hrun => hn.run hrun) h₀.numbered ?_
  rw [Connection.pending_of_none h₀.transaction]
  exact h₀.numbered

theorem Opened.entries_kept {allowed : Option (SqlOp catalog) → Prop} (h₀ : Opened c₀)
    (hr : Moves allowed c₀ c) : entries c.committed <+: entries c.pending := by
  refine (hr.append_only entries_grow ?_).2
  rw [Connection.pending_of_none h₀.transaction]

/-- Whoever does what on the connection, before a `log` and after it, whatever fails and
however often the process restarts: the ids of the entries count them, what was committed
stays before what is committed later, and an entry that was logged has a new id and is
read back as it was logged, by every query that asks for it on one of its pages, and by
every query that returns its id. -/
theorem audit_ledger {e : Event} {k : Nat} (h₀ : Opened c₀) (hr : Moves Any c₀ c)
    (hlog : Runs (Answers catalog) Eq (log T e) c (.ok k) c₁) (hr' : Moves Any c₁ c')
    (hplain : ∀ d, e.detail = some d → Plain T d) :
    Numbered c'.committed ∧ entries c.committed <+: entries c'.committed ∧ (∀ r ∈ entries c.committed, r.id < k) ∧
      (∀ (f : Filters) (limit : Nat), asksFor f e = true → 0 < limit → Storable limit →
        Storable (entries c'.pending).length → ∃ i : Nat, ∃ xs,
        (Connection.handler catalog).exec (query T f limit (limit * i : Nat)) c' = (.ok xs, c'.advance) ∧
          ∃ x ∈ xs, x.1.id = k) ∧
      ∀ f limit offset xs, (Connection.handler catalog).exec (query T f limit offset) c' = (.ok xs, c'.advance) →
        ∀ x ∈ xs, x.1.id = k → Reads e x := by
  obtain ⟨hid, hsettled, v, hv, hcommitted⟩ := log_logs hlog
  have hafter : Moves Any c₀ c' := (hr.trans (.of_runs hlog)).trans hr'
  obtain ⟨hnumbered, hpending⟩ := h₀.numbered_of_moves hafter
  have hgrown : entries c₁.committed <+: entries c'.committed := by
    refine (hr'.append_only entries_grow ?_).1
    rw [Connection.pending_of_none hsettled]
  have hentries : entries c₁.committed = entries c.pending ++ [inserted c.pending v] := by
    rw [hcommitted]
    rfl
  have hmem : inserted c.pending v ∈ entries c'.pending := by
    apply (h₀.entries_kept hafter).subset
    apply hgrown.subset
    rw [hentries]
    simp
  refine ⟨hnumbered, ?_, ?_, ?_, ?_⟩
  · refine (h₀.entries_kept hr).trans (List.IsPrefix.trans ?_ hgrown)
    rw [hentries]
    exact List.prefix_append _ _
  · intro r hr₀
    have := (h₀.numbered_of_moves hr).2.id_le ((h₀.entries_kept hr).subset hr₀)
    omega
  · intro f limit hf hlimit hstorable hlength
    have hmatch : inserted c.pending v ∈ ((entries c'.pending).filter f.accepts).reverse :=
      List.mem_reverse.mpr (List.mem_filter.mpr ⟨hmem, hv.accepted hf _⟩)
    obtain ⟨i, hi⟩ := exists_window_at_rest hlimit hmatch
    have hoffset : Storable (limit * i : Nat) := by
      have hle : limit * i ≤ (entries c'.pending).length := by
        have hdrop := List.length_pos_of_mem (List.mem_of_mem_take hi)
        rw [List.length_drop, List.length_reverse] at hdrop
        have := List.length_filter_le f.accepts (entries c'.pending)
        omega
      exact ⟨by omega, (Int.ofNat_le.mpr hle).trans_lt hlength.2⟩
    refine ⟨i, _, exec_query hpending hstorable hoffset, entry T (inserted c.pending v), ?_, hid.symm⟩
    rw [answer, page_window]
    exact List.mem_map_of_mem hi
  · intro f limit offset xs hquery x hx hxid
    obtain rfl := query_ok hpending hquery
    obtain ⟨r, hr₁, rfl⟩ := mem_answer hx
    have hsame : some r = some (inserted c.pending v) := by
      rw [← hpending.get hr₁, ← hpending.get hmem]
      change _ = (entries c'.pending)[c.pending.auditLog.sequence + 1 - 1]?
      rw [← hid, ← hxid]
      rfl
    obtain rfl := Option.some.inj hsame
    exact hv.reads hplain _

/-- A reader that asks for page after page until one is not full has been shown every entry
that was there when it began, while others go on logging, as long as nothing is taken back;
and where nothing was logged, all of them in order and each once. -/
theorem audit_walk {f : Filters} {limit n : Nat} {moments : Nat → Connection catalog}
    {pages : Nat → List (AuditRow × Option Parsed)} {all : List (AuditRow × Option Parsed)}
    (h₀ : Opened c₀) (hr : Moves Any c₀ (moments 0))
    (hnext : ∀ i < n, Moves Forward (moments i) (moments (i + 1)))
    (hall : (Connection.handler catalog).exec (query T f (-1) 0) (moments 0) = (.ok all, (moments 0).advance))
    (hpages : ∀ i ≤ n, (Connection.handler catalog).exec (query T f limit (limit * i : Nat)) (moments i) =
      (.ok (pages i), (moments i).advance)) (hlast : (pages n).length < limit) :
    (∀ x ∈ all, ∃ i ≤ n, x ∈ pages i) ∧
      ((∀ i ≤ n, (moments i).pending.auditLog = (moments 0).pending.auditLog) →
        (List.range (n + 1)).flatMap pages = all) := by
  have hmoves : ∀ i ≤ n, Moves Any c₀ (moments i) := by
    intro i
    induction i with
    | zero => exact fun _ => hr
    | succ i ih => exact fun hi => (ih (by omega)).trans (hnext i hi).any
  have hnumbered : ∀ i ≤ n, Numbered (moments i).pending := fun i hi => (h₀.numbered_of_moves (hmoves i hi)).2
  let matching (i : Nat) : List (AuditRow × Option Parsed) :=
    ((entries (moments i).pending).filter f.accepts).reverse.map (entry T)
  obtain rfl : all = matching 0 := query_ok (hnumbered 0 (Nat.zero_le n)) hall
  have hwindow : ∀ i ≤ n, pages i = ((matching i).drop (limit * i)).take limit := by
    intro i hi
    rw [query_ok (hnumbered i hi) (hpages i hi), answer, page_window, List.map_take, List.map_drop]
  have hshort : (matching n).length < limit * (n + 1) := by
    rw [hwindow n le_rfl, List.length_take, List.length_drop] at hlast
    rw [Nat.mul_succ]
    omega
  constructor
  · intro x hx
    have hgrows : ∀ i < n, matching i <:+ matching (i + 1) := by
      intro i hi
      apply List.IsSuffix.map
      exact List.reverse_suffix.mpr (((hnext i hi).seen entries_grow).filter f.accepts)
    obtain ⟨i, hi, hmem⟩ := exists_window hgrows hshort hx
    exact ⟨i, hi, hwindow i hi ▸ hmem⟩
  · intro hrest
    have hsame : ∀ i ≤ n, matching i = matching 0 := by
      intro i hi
      change ((moments i).pending.auditLog.rows.filter f.accepts).reverse.map (entry T) = _
      rw [hrest i hi]
      rfl
    rw [← List.take_of_length_le (i := limit * (n + 1)) (l := matching 0) (by rw [← hsame n le_rfl]; omega),
      ← flatMap_windows]
    apply List.flatMap_congr
    intro i hi
    have hi : i ≤ n := Nat.lt_succ_iff.mp (List.mem_range.mp hi)
    rw [hwindow i hi, hsame i hi]

end Ledger

section Sample

def serverStart : Event :=
  ⟨"server_start", none, none, some (.obj [("version", .str "0.3.0")]), "system", "default", none⟩

def serverStop : Event := ⟨"server_stop", none, none, none, "system", "default", none⟩

def afterLog (c : Connection catalog) (e : Event) : Connection catalog :=
  ((Connection.handler catalog).exec (log samplePackages.floatText e) c).2

theorem afterLog_moves (c : Connection catalog) (e : Event) (htrace : e.traceId = none) :
    Moves Forward c (afterLog c e) := by
  have honly : (log samplePackages.floatText e).Only (S := sqlSig catalog) (fun o => Forward (some o)) := by
    rw [log, htrace]
    apply Prog.Only.bind (.perform trivial)
    intro ambient
    rw [Prog.pure_eq, Prog.bind_pure]
    apply Prog.Only.bind (.perform trivial)
    intro ambient
    exact .bind (.perform trivial) fun t => .bind (.perform trivial) fun _ => trivial
  exact .of_only honly (.of_exec (fun _ => rfl) rfl)

def sampleStart : Connection catalog := sampleConnection .empty

theorem sampleStart_opened : Opened sampleStart := ⟨rfl, rfl⟩

theorem audit_ledger_sample : ∃ i : Nat, ∃ xs,
    (Connection.handler catalog).exec (query samplePackages.floatText ⟨some "server_start", none, none, none⟩ 1
        (1 * i : Nat)) (afterLog (afterLog sampleStart serverStart) serverStop) =
      (.ok xs, (afterLog (afterLog sampleStart serverStart) serverStop).advance) ∧ ∃ x ∈ xs, x.1.id = 1 := by
  have hplain : ∀ d, serverStart.detail = some d → Plain samplePackages.floatText d := by
    rintro d ⟨⟩
    exact .obj (by decide) (by simpa using .str "0.3.0")
  exact (audit_ledger sampleStart_opened .refl (.of_exec (fun _ => rfl) rfl)
    (afterLog_moves (afterLog sampleStart serverStart) serverStop rfl).any hplain).2.2.2.1 _ 1 (by decide) (by decide)
      (by decide) (by decide)

/-- The moments at which a reader asks that is overtaken by a `log`. -/
def sampleMoments : Nat → Connection catalog
  | 0 => afterLog (afterLog sampleStart serverStart) serverStop
  | i + 1 => afterLog (sampleMoments i) serverStart

def everything : Filters := ⟨none, none, none, none⟩

theorem audit_walk_sample : ∃ i ≤ 1,
    1 ∈ (answer samplePackages.floatText everything 2 (2 * i : Nat) (sampleMoments i)).map (fun x => x.1.id) := by
  have hfirst : Moves Any sampleStart (sampleMoments 0) :=
    ((afterLog_moves sampleStart serverStart rfl).trans (afterLog_moves _ serverStop rfl)).any
  have hnext (i : Nat) : Moves Forward (sampleMoments i) (sampleMoments (i + 1)) := afterLog_moves _ serverStart rfl
  have hmoves (i : Nat) : Moves Any sampleStart (sampleMoments i) := by
    induction i with
    | zero => exact hfirst
    | succ i ih => exact ih.trans (hnext i).any
  have hquery (i : Nat) (limit offset : Int) (hlimit : Storable limit) (hoffset : Storable offset) :
      (Connection.handler catalog).exec (query samplePackages.floatText everything limit offset) (sampleMoments i) =
        (.ok (answer samplePackages.floatText everything limit offset (sampleMoments i)), (sampleMoments i).advance) :=
    exec_query (sampleStart_opened.numbered_of_moves (hmoves i)).2 hlimit hoffset
  obtain ⟨x, hx, hid⟩ : ∃ x ∈ answer samplePackages.floatText everything (-1) 0 (sampleMoments 0), x.1.id = 1 :=
    List.mem_map.mp (by decide)
  have hoffset (i : Nat) (hi : i ≤ 1) : Storable (2 * i : Nat) := by
    rw [Storable]
    omega
  obtain ⟨i, hi, hmem⟩ := (audit_walk (n := 1) sampleStart_opened hfirst (fun i _ => hnext i)
    (hquery 0 _ _ (by decide) (by decide)) (fun i hi => hquery i (2 : Nat) _ (by decide) (hoffset i hi))
    (by decide)).1 x hx
  exact ⟨i, hi, List.mem_map.mpr ⟨x, hmem, hid⟩⟩

end Sample

end ContextqlServer.Db.AuditLedger
