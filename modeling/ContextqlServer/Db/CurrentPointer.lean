import ContextqlServer.Db.Snapshots
import ContextqlServer.Db.VersionedMap

namespace ContextqlServer.Db.CurrentPointer

open ContextqlServer.Lib.Effect ContextqlServer.Lib.Sql
open ContextqlServer.Db.Schema ContextqlServer.Db.Statements ContextqlServer.Db.ContextCatalog
open ContextqlServer.Db.ContextCatalog.SQLiteContextRuntimeRepository
open ContextqlServer.Db.Calls ContextqlServer.Db.Shelf ContextqlServer.Db.Snapshots
open ContextqlServer.Db.Runs ContextqlServer.Db.ContextRows

variable {P : Packages} {t t' : Tables}

/-- The snapshot of a context that is in state `current`. -/
def currentSnapshot (t : Tables) (contextId : String) : Option SnapshotRow :=
  (snapshotsOf t contextId).find? (fun r => r.state = .current)

def currentVersion (t : Tables) (contextId : String) : Option Int :=
  (currentSnapshot t contextId).map (fun r => r.version)

/-- What the callers keep to: a saved entry carries the snapshot that is current, and
a promotion carries the highest catalog version that is live. -/
def InStep (t : Tables) : Call P → Prop
  | .save e _ => e.currentSnapshotVersion = currentVersion t e.contextId
  | .promote p => ∀ r, IsLatest (rows t) p.entry.contextId r → r.version = p.entry.version
  | .prune .. => False
  | .drop _ | .record .. => True

structure Pointed (t : Tables) : Prop where
  current : ∀ contextId, snapshotsOf t contextId ≠ [] → currentSnapshot t contextId ≠ none
  once : ∀ contextId, ∀ r ∈ snapshotsOf t contextId, r.state = .current →
    currentSnapshot t contextId = some r
  pointer : ∀ contextId r, IsLatest (rows t) contextId r → currentSnapshot t contextId ≠ none →
    r.currentSnapshotVersion = currentVersion t contextId

section Shelf

theorem currentSnapshot_congr {contextId : String}
    (h : snapshotsOf t' contextId = snapshotsOf t contextId) :
    currentSnapshot t' contextId = currentSnapshot t contextId := by
  rw [currentSnapshot, h, currentSnapshot]

theorem supersededBy_state {row r : SnapshotRow} (hid : r.contextId = row.contextId) :
    (supersededBy row r).state ≠ .current := by
  rw [supersededBy]
  split
  · intro hs
    cases hs
  · rename_i hc
    exact fun hs => hc ⟨hid, hs⟩

theorem promoted_current {p : Promotion P} {row : SnapshotRow} (h : Promoted p row t t') :
    currentSnapshot t' p.entry.contextId = some row ∧
      ∀ r ∈ snapshotsOf t' p.entry.contextId, r.state = .current → r = row := by
  have hold : ∀ r ∈ (snapshotsOf t p.entry.contextId).map (supersededBy row), r.state ≠ .current := by
    intro s hs
    obtain ⟨r, hr, rfl⟩ := List.mem_map.mp hs
    have hid : r.contextId = p.entry.contextId := by simpa using (List.mem_filter.mp hr).2
    exact supersededBy_state (hid.trans h.inserted.contextId.symm)
  rw [currentSnapshot, promoted_snapshotsOf h]
  refine ⟨?_, ?_⟩
  · rw [List.find?_append, List.find?_eq_none.mpr (by simpa using hold), Option.none_or]
    simp [h.inserted.state]
  · intro r hr hs
    obtain hr | hr := List.mem_append.mp hr
    · exact absurd hs (hold r hr)
    · exact List.mem_singleton.mp hr

end Shelf

section Rows

variable {contextId : String} {r : ContextRow} {rs : List ContextRow}

structure SameVersion (r s : ContextRow) : Prop where
  contextId : s.contextId = r.contextId
  version : s.version = r.version
  droppedAt : s.droppedAt = r.droppedAt

theorem latest_of_more (h : IsLatest rs contextId r) {rs' : List ContextRow} (hr : r ∈ rs')
    (hmore : ∀ s ∈ rs', ∃ s' ∈ rs, SameVersion s s') : IsLatest rs' contextId r := by
  refine ⟨hr, h.identified, h.droppedAt, ?_⟩
  intro s hs hid hd
  obtain ⟨s', hs', hsame⟩ := hmore s hs
  rw [← hsame.version]
  exact h.highest s' hs' (hsame.contextId.trans hid) (hsame.droppedAt.trans hd)

theorem latest_of_map {f : ContextRow → ContextRow} (hf : ∀ r, SameVersion r (f r))
    (h : IsLatest (rs.map f) contextId r) : ∃ s, r = f s ∧ IsLatest rs contextId s := by
  obtain ⟨s, hs, rfl⟩ := List.mem_map.mp h.mem
  refine ⟨s, rfl, hs, (hf s).contextId.symm.trans h.identified, (hf s).droppedAt.symm.trans h.droppedAt, ?_⟩
  intro s' hs' hid hd
  rw [← (hf s).version, ← (hf s').version]
  exact h.highest (f s') (List.mem_map_of_mem hs') ((hf s').contextId.trans hid)
    ((hf s').droppedAt.trans hd)

/-- A `save_context` keeps every version that there is. -/
theorem saved_keeps {e : ContextCatalogEntry P} {rawDdl : Option String} (h : Saved e rawDdl t t') :
    ∀ s ∈ rows t, ∃ s' ∈ rows t', SameVersion s s' := by
  intro s hs
  cases h with
  | update now hexists hkey hname ht =>
    obtain rfl := ht
    obtain ⟨hid, hversion, hd⟩ := savedOver_place e rawDdl now (r := s)
    exact ⟨_, List.mem_map_of_mem hs, hid, hversion, hd⟩
  | insert row hrow hkey hnew hname ht =>
    obtain rfl := ht
    exact ⟨s, List.mem_append_left _ hs, rfl, rfl, rfl⟩

end Rows

section Steps

variable {e : ContextCatalogEntry P}

theorem Pointed.shelf (h : Pointed t) (hshelf : SameShelf t t')
    (hpointer : ∀ contextId r, IsLatest (rows t') contextId r → currentSnapshot t contextId ≠ none →
      r.currentSnapshotVersion = currentVersion t contextId) : Pointed t' := by
  have hof : ∀ contextId, snapshotsOf t' contextId = snapshotsOf t contextId :=
    fun contextId => (sameOf_of_sameShelf hshelf contextId).snapshots
  have hcurrent : ∀ contextId, currentSnapshot t' contextId = currentSnapshot t contextId :=
    fun contextId => currentSnapshot_congr (hof contextId)
  refine ⟨?_, ?_, ?_⟩
  · intro contextId
    rw [hof, hcurrent]
    exact h.current contextId
  · intro contextId
    rw [hof, hcurrent]
    exact h.once contextId
  · intro contextId r hr
    rw [currentVersion, hcurrent]
    exact hpointer contextId r hr

theorem Pointed.saved (h : Pointed t) {rawDdl : Option String} (hshelf : SameShelf t t') (hs : Saved e rawDdl t t')
    (hc : e.currentSnapshotVersion = currentVersion t e.contextId) : Pointed t' := by
  apply h.shelf hshelf
  intro contextId r hr hsome
  obtain hmem | ⟨raw, hvalues⟩ := hs.mem hr.mem
  · exact h.pointer contextId r (latest_of_more hr hmem (saved_keeps hs)) hsome
  · have hid := hr.identified
    rw [hvalues] at hid
    obtain rfl := Option.some.inj hid
    rw [hvalues]
    exact hc

theorem latest_of_dropped {now contextId droppedId : String} {droppedAt : String} {rs : List ContextRow}
    {r : ContextRow} (h : IsLatest (rs.map (droppedAs droppedId now (some droppedAt))) contextId r) :
    IsLatest rs contextId r := by
  obtain ⟨s, hs, rfl⟩ := List.mem_map.mp h.mem
  by_cases hid : s.contextId = some droppedId
  · have hd := h.droppedAt
    rw [droppedAs, if_pos hid] at hd
    cases hd
  · rw [droppedAs, if_neg hid] at h ⊢
    have hne : contextId ≠ droppedId := by
      rintro rfl
      exact hid h.identified
    refine ⟨hs, h.identified, h.droppedAt, ?_⟩
    intro s' hs' hid' hd'
    have hkept : droppedAs droppedId now (some droppedAt) s' = s' := by
      rw [droppedAs, if_neg]
      simpa [hid'] using hne
    exact h.highest s' (List.mem_map.mpr ⟨s', hs', hkept⟩) hid' hd'

theorem Pointed.dropped (h : Pointed t) {now droppedAt : String} (hshelf : SameShelf t t')
    (hrows : rows t' = (rows t).map (droppedAs e.contextId now (some droppedAt))) : Pointed t' := by
  apply h.shelf hshelf
  intro contextId r hr
  exact h.pointer contextId r (latest_of_dropped (hrows ▸ hr))

theorem Pointed.executed (h : Pointed t) {id now : String} {version : Int} {executedAt : Option String}
    (hshelf : SameShelf t t') (hrows : rows t' = (rows t).map (executedAs id version now executedAt)) :
    Pointed t' := by
  apply h.shelf hshelf
  intro contextId r hr
  obtain ⟨s, rfl, hs⟩ := latest_of_map (f := executedAs id version now executedAt)
    (by
      intro s
      rw [executedAs]
      split <;> exact ⟨rfl, rfl, rfl⟩) (hrows ▸ hr)
  have hptr : (executedAs id version now executedAt s).currentSnapshotVersion = s.currentSnapshotVersion := by
    rw [executedAs]
    split <;> rfl
  rw [hptr]
  exact h.pointer contextId s hs

theorem Pointed.promoted (h : Pointed t) {p : Promotion P} {row : SnapshotRow} (hp : Promoted p row t t')
    (hc : ∀ r, IsLatest (rows t) p.entry.contextId r → r.version = p.entry.version) : Pointed t' := by
  obtain ⟨now, hnow⟩ := hp.contexts
  have hrows : rows t' = (rows t).map (pointedAs p now) := by
    rw [rows, hnow]
    rfl
  have hlatest : ∀ contextId r, IsLatest (rows t') contextId r →
      ∃ s, r = pointedAs p now s ∧ IsLatest (rows t) contextId s := by
    intro contextId r hr
    rw [hrows] at hr
    refine latest_of_map ?_ hr
    intro s
    rw [pointedAs]
    split <;> exact ⟨rfl, rfl, rfl⟩
  have hframe : ∀ contextId, p.entry.contextId ≠ contextId →
      snapshotsOf t' contextId = snapshotsOf t contextId :=
    fun contextId hne => (promoted_frame hp hne).snapshots
  obtain ⟨hcurrent, honce⟩ := promoted_current hp
  refine ⟨?_, ?_, ?_⟩
  · intro contextId hne
    by_cases hid : p.entry.contextId = contextId
    · rw [← hid, hcurrent]
      exact Option.some_ne_none row
    · rw [hframe contextId hid] at hne
      rw [currentSnapshot_congr (hframe contextId hid)]
      exact h.current contextId hne
  · intro contextId
    by_cases hid : p.entry.contextId = contextId
    · subst hid
      intro r hr hs
      rw [hcurrent, honce r hr hs]
    · rw [hframe contextId hid, currentSnapshot_congr (hframe contextId hid)]
      exact h.once contextId
  · intro contextId r hr hne
    obtain ⟨s, rfl, hs⟩ := hlatest contextId r hr
    by_cases hid : p.entry.contextId = contextId
    · subst hid
      rw [pointedAs, if_pos (atVersion_iff.mpr ⟨hs.identified, hc s hs⟩), currentVersion, hcurrent,
        Option.map_some, hp.inserted.version]
    · rw [pointedAs, if_neg]
      · rw [currentSnapshot_congr (hframe contextId hid)] at hne
        rw [currentVersion, currentSnapshot_congr (hframe contextId hid)]
        exact h.pointer contextId s hs hne
      · intro hat
        exact hid (Option.some.inj ((atVersion_iff.mp hat).1.symm.trans hs.identified))

theorem Pointed.effect (h : Pointed t) {call : Call P} (hc : InStep t call) (heffect : call.Effect t t') :
    Pointed t' := by
  cases call with
  | prune entry cutoff => exact hc.elim
  | save e rawDdl =>
    obtain ⟨a, hrun⟩ := heffect
    exact h.saved (run_sameShelf (Call.saveStatement_notShelf e rawDdl t) hrun) (saved_of_run hrun) hc
  | drop e =>
    obtain ⟨a, now, hrun⟩ := heffect
    have hrewrites : Rewrites t t' (.drop e : Call P) := rewrites_of_effect ⟨a, now, hrun⟩
    cases hrewrites with
    | drop now' droppedAt hrows => exact h.dropped (run_sameShelf rfl hrun) hrows
  | record id version executedAt =>
    obtain ⟨a, hrun⟩ := heffect
    have hrewrites : Rewrites t t' (.record id version executedAt : Call P) := rewrites_of_effect ⟨a, hrun⟩
    cases hrewrites with
    | record now hrows => exact h.executed (run_sameShelf rfl hrun) hrows
  | promote p =>
    obtain ⟨row, hp⟩ := Promoted.of_applies heffect
    exact h.promoted hp hc

end Steps

/-- A connection to a database without contexts and snapshots. -/
structure Untouched (c₀ : Connection catalog) : Prop extends Fresh c₀ where
  snapshots : c₀.committed.contextSnapshots = []

theorem Untouched.pointed {c₀ : Connection catalog} (h : Untouched c₀) : Pointed c₀.committed := by
  have hnone : ∀ contextId, snapshotsOf c₀.committed contextId = [] :=
    fun contextId => congrArg (List.filter _) h.snapshots
  refine ⟨?_, ?_, ?_⟩
  · exact fun contextId hne => absurd (hnone contextId) hne
  · intro contextId r hr
    rw [hnone] at hr
    cases hr
  · intro contextId r hr
    have hmem : r ∈ c₀.committed.contexts.rows := hr.mem
    rw [h.rows] at hmem
    cases hmem

/-- In a run whose saves carry the current snapshot and whose promotions carry the
highest live version, the entry that `load_contexts` returns of a context that has
snapshots names the one in state `current`. -/
theorem loaded_pointer {c₀ c : Connection catalog} {h : List (Entry P)} (h₀ : Untouched c₀)
    (hr : Guarded InStep c₀ h c) {es : List (ContextCatalogEntry P)} {c₁ : Connection catalog}
    (hes : (Connection.handler catalog).exec (loadContexts P) c = (.ok es, c₁)) :
    ∀ e ∈ es, snapshotsOf c.pending e.contextId ≠ [] →
      ∃ s ∈ snapshotsOf c.pending e.contextId, s.state = .current ∧
        (∀ s' ∈ snapshotsOf c.pending e.contextId, s'.state = .current → s' = s) ∧
        e.currentSnapshotVersion = some s.version := by
  have hp := (hr.invariant (J := Pointed) (fun call t t' hc heffect hj => hj.effect hc heffect)
    h₀.pointed h₀.transaction).2
  have hes : loaded P c.pending = .ok es := (Prod.mk.inj ((exec_loadContexts P c).symm.trans hes)).1
  intro e he hne
  obtain ⟨r, hlatest, hread⟩ := (mem_loaded hes).mp he
  have hcurrent := hp.current e.contextId hne
  obtain ⟨s, hs⟩ := Option.ne_none_iff_exists'.mp hcurrent
  have hstate : s.state = .current := by simpa using List.find?_some hs
  refine ⟨s, List.mem_of_find?_eq_some hs, hstate, ?_, ?_⟩
  · intro s' hs' hstate'
    exact Option.some.inj ((hp.once e.contextId s' hs' hstate').symm.trans hs)
  · have hpointer := hp.pointer e.contextId r hlatest hcurrent
    have hversion : currentVersion c.pending e.contextId = some s.version :=
      congrArg (Option.map SnapshotRow.version) hs
    have hcopied : e.currentSnapshotVersion = r.currentSnapshotVersion :=
      congrArg ContextCatalogEntry.currentSnapshotVersion (copied hread)
    exact hcopied.trans (hpointer.trans hversion)

section Sample

/-- An entry as a caller saves it while `current` is the current snapshot. -/
def savedEntry (version : Int) (current : Option Int) : ContextCatalogEntry samplePackages :=
  { sampleEntry "a" "name" version with currentSnapshotVersion := current }

def promotionAt (catalogVersion snapshotVersion : Int) : Promotion samplePackages :=
  { samplePromotion "a" snapshotVersion 1 [1] with entry := savedEntry catalogVersion none }

/-- A context that is promoted, altered and promoted again. -/
def inStepCalls : List (Call samplePackages) :=
  [.save (savedEntry 1 none) none, .promote (promotionAt 1 1), .save (savedEntry 2 (some 1)) none,
    .promote (promotionAt 2 2)]

/-- A refresh that began before the context was altered. -/
def lateCalls : List (Call samplePackages) :=
  [.save (savedEntry 1 none) none, .save (savedEntry 2 none) none, .promote (promotionAt 1 1)]

instance (t : Tables) (contextId : String) (version : Int) :
    Decidable (∀ r, IsLatest (rows t) contextId r → r.version = version) :=
  decidable_of_iff (∀ x ∈ latestRows t, x.1 = contextId → x.2.version = version) (by
    constructor
    · exact fun h r hr => h (contextId, r) (mem_latestRows.mpr hr) rfl
    · rintro h ⟨k, r⟩ hx rfl
      exact h r (mem_latestRows.mp hx))

instance inStepDecidable (t : Tables) (call : Call P) : Decidable (InStep t call) :=
  match call with
  | .save e _ => inferInstanceAs (Decidable (e.currentSnapshotVersion = currentVersion t e.contextId))
  | .promote p => inferInstanceAs
    (Decidable (∀ r, IsLatest (rows t) p.entry.contextId r → r.version = p.entry.version))
  | .prune .. => isFalse id
  | .drop _ | .record .. => isTrue trivial

instance (c : Connection catalog) (call : Call P) : Decidable (InStep c.pending call) :=
  inStepDecidable c.pending call

theorem loaded_pointer_sample : ∃ es c₁,
    (Connection.handler catalog).exec (loadContexts samplePackages)
        (runCalls (sampleConnection .empty) inStepCalls) = (.ok es, c₁) ∧
      es.map (fun e => (e.contextId, e.version)) = [("a", 2)] ∧
      ∀ e ∈ es, ∃ s ∈ snapshotsOf (runCalls (sampleConnection .empty) inStepCalls).pending e.contextId,
        s.state = .current ∧ e.currentSnapshotVersion = some s.version := by
  have hchecks : Checks InStep (sampleConnection .empty) inStepCalls :=
    ⟨by decide, by decide, by decide, by decide, trivial⟩
  have hr := guarded_of_checks .start inStepCalls hchecks
  have hlisted : (loaded samplePackages (runCalls (sampleConnection .empty) inStepCalls).pending).map
      (fun es => es.map (fun e => (e.contextId, e.version))) = .ok [("a", 2)] := by decide
  obtain ⟨es, hes⟩ : ∃ es,
      loaded samplePackages (runCalls (sampleConnection .empty) inStepCalls).pending = .ok es := by
    cases h : loaded samplePackages (runCalls (sampleConnection .empty) inStepCalls).pending with
    | ok es => exact ⟨es, rfl⟩
    | error err => rw [h] at hlisted; cases hlisted
  rw [hes] at hlisted
  have hlisted : es.map (fun e => (e.contextId, e.version)) = [("a", 2)] := Except.ok.inj hlisted
  have hexec := (exec_loadContexts samplePackages (runCalls (sampleConnection .empty) inStepCalls)).trans
    (by rw [hes])
  refine ⟨es, _, hexec, hlisted, ?_⟩
  intro e he
  have hid : e.contextId = "a" := by
    have hmem := List.mem_map_of_mem (f := fun e => (e.contextId, e.version)) he
    rw [hlisted] at hmem
    exact congrArg Prod.fst (List.mem_singleton.mp hmem)
  obtain ⟨s, hs, hstate, -, hversion⟩ := loaded_pointer ⟨⟨rfl, rfl⟩, rfl⟩ hr hexec e he (by
    rw [hid]
    decide)
  exact ⟨s, hs, hstate, hversion⟩

/-- The snapshot is current, and the entry of the altered context names none. -/
theorem late_promotion : Successful (outcomes (sampleConnection .empty) lateCalls) ∧
    ((Connection.handler catalog).exec (loadContexts samplePackages)
        (runCalls (sampleConnection .empty) lateCalls)).1.map
        (fun es => es.map (fun e => (e.contextId, e.version, e.currentSnapshotVersion))) =
      .ok [("a", 2, none)] ∧
    currentVersion (runCalls (sampleConnection .empty) lateCalls).pending "a" = some 1 :=
  ⟨successful_iff.mpr (by decide), by decide, by decide⟩

end Sample

end ContextqlServer.Db.CurrentPointer
