import ContextqlServer.Db.Shelf

namespace ContextqlServer.Db.Snapshots

open ContextqlServer.Lib.Effect ContextqlServer.Lib.Isoformat ContextqlServer.Lib.JsonText
open ContextqlServer.Lib.Python ContextqlServer.Lib.Rely ContextqlServer.Lib.Sql
open ContextqlServer.Db.Schema ContextqlServer.Db.Statements ContextqlServer.Db.ContextCatalog
open ContextqlServer.Db.ContextCatalog.SQLiteContextRuntimeRepository
open ContextqlServer.Db.Calls ContextqlServer.Db.Shelf

/-- How a snapshot stands to the one promoted after it. -/
def Link (r : SnapshotRow) : Option SnapshotRow → Prop
  | none => r.state = .current ∧ r.validTo = none
  | some s => r.version < s.version ∧ r.state = .superseded ∧ r.validTo = some s.computedAt

/-- The snapshots of one context from the oldest to the current one: each is valid
until the next one was computed. -/
def Chain : List SnapshotRow → Prop
  | [] => True
  | r :: rows => Link r rows.head? ∧ Chain rows

namespace Chain

variable {rows : List SnapshotRow}

theorem ascending (h : Chain rows) : rows.Pairwise (fun r s => r.version < s.version) := by
  induction rows with
  | nil => exact .nil
  | cons r rows ih =>
    have ih := ih h.2
    refine List.pairwise_cons.mpr ⟨?_, ih⟩
    cases rows with
    | nil => exact List.forall_mem_nil _
    | cons s rows =>
      have hlink : Link r (some s) := h.1
      intro x hx
      obtain rfl | hx := List.mem_cons.mp hx
      · exact hlink.1
      · exact hlink.1.trans ((List.pairwise_cons.mp ih).1 x hx)

theorem states (h : Chain rows) (hne : rows ≠ []) :
    ∃ front last, rows = front ++ [last] ∧ last.state = .current ∧ last.validTo = none ∧
      ∀ r ∈ front, r.state = .superseded := by
  induction rows with
  | nil => exact absurd rfl hne
  | cons r rows ih =>
    cases rows with
    | nil =>
      have hlink : Link r none := h.1
      exact ⟨[], r, rfl, hlink.1, hlink.2, List.forall_mem_nil _⟩
    | cons s rows =>
      have hlink : Link r (some s) := h.1
      obtain ⟨front, last, heq, hcurrent, hvalid, hfront⟩ := ih h.2 (by simp)
      refine ⟨r :: front, last, by rw [heq]; rfl, hcurrent, hvalid, ?_⟩
      intro x hx
      obtain rfl | hx := List.mem_cons.mp hx
      · exact hlink.2.1
      · exact hfront x hx

theorem next (h : Chain rows) {r : SnapshotRow} (hr : r ∈ rows) (hs : r.state ≠ .current) :
    ∃ s ∈ rows, r.version < s.version ∧
      (∀ s' ∈ rows, r.version < s'.version → s.version ≤ s'.version) ∧
      r.validTo = some s.computedAt := by
  induction rows with
  | nil => cases hr
  | cons x rows ih =>
    have hasc := List.pairwise_cons.mp h.ascending
    obtain rfl | hmem := List.mem_cons.mp hr
    · cases rows with
      | nil =>
        have hlink : Link r none := h.1
        exact absurd hlink.1 hs
      | cons s rows =>
        have hlink : Link r (some s) := h.1
        refine ⟨s, by simp, hlink.1, ?_, hlink.2.2⟩
        intro s' hs' hlt
        obtain rfl | hs' := List.mem_cons.mp hs'
        · exact absurd hlt (lt_irrefl _)
        · obtain rfl | hs' := List.mem_cons.mp hs'
          · exact le_rfl
          · exact ((List.pairwise_cons.mp hasc.2).1 s' hs').le
    · obtain ⟨s, hs, hlt, hnext, hvalid⟩ := ih h.2 hmem
      refine ⟨s, List.mem_cons_of_mem _ hs, hlt, ?_, hvalid⟩
      intro s' hs' hlt'
      obtain rfl | hs' := List.mem_cons.mp hs'
      · exact absurd (hasc.1 r hmem) (not_lt.mpr hlt'.le)
      · exact hnext s' hs' hlt'

theorem filter (h : Chain rows) (version : Int) :
    Chain (rows.filter (fun r => !(r.version < version))) := by
  induction rows with
  | nil => trivial
  | cons r rows ih =>
    by_cases hr : r.version < version
    · simpa [hr] using ih h.2
    · have hall : (r :: rows).filter (fun r => !(r.version < version)) = r :: rows := by
        apply List.filter_eq_self.mpr
        intro x hx
        obtain rfl | hx := List.mem_cons.mp hx
        · simpa using hr
        · have := (List.pairwise_cons.mp h.ascending).1 x hx
          simp only [Bool.not_eq_true', decide_eq_false_iff_not]
          omega
      rwa [hall]

theorem promote (h : Chain rows) {row : SnapshotRow} (hid : ∀ r ∈ rows, r.contextId = row.contextId)
    (hlt : ∀ r ∈ rows, r.version < row.version) (hstate : row.state = .current)
    (hvalid : row.validTo = none) : Chain (rows.map (supersededBy row) ++ [row]) := by
  induction rows with
  | nil => exact ⟨⟨hstate, hvalid⟩, trivial⟩
  | cons r rows ih =>
    have ih := ih h.2 (fun x hx => hid x (by simp [hx])) (fun x hx => hlt x (by simp [hx]))
    cases rows with
    | nil =>
      have hlink : Link r none := h.1
      have hsup : supersededBy row r = { r with state := .superseded, validTo := some row.computedAt } :=
        if_pos ⟨hid r (by simp), hlink.1⟩
      rw [List.map_cons, hsup]
      exact ⟨⟨hlt r (by simp), rfl, rfl⟩, ih⟩
    | cons s rows =>
      have hlink : Link r (some s) := h.1
      have hr : supersededBy row r = r :=
        if_neg (fun hc => by rw [hlink.2.1] at hc; cases hc.2)
      have hs : (supersededBy row s).version = s.version ∧
          (supersededBy row s).computedAt = s.computedAt := by
        rw [supersededBy]
        split <;> exact ⟨rfl, rfl⟩
      have hlink' : Link r (some (supersededBy row s)) := by
        refine ⟨?_, hlink.2.1, ?_⟩
        · rw [hs.1]
          exact hlink.1
        · rw [hs.2]
          exact hlink.2.2
      rw [List.map_cons, hr]
      exact ⟨hlink', ih⟩

end Chain

structure Shelved (t : Tables) (contextId : String) : Prop where
  chain : Chain (snapshotsOf t contextId)
  payloads : (payloadsOf t contextId).map (fun r => r.version) =
    (snapshotsOf t contextId).map (fun r => r.version)

/-- The rows of one context are the same. -/
structure SameOf (t t' : Tables) (contextId : String) : Prop where
  snapshots : snapshotsOf t' contextId = snapshotsOf t contextId
  payloads : payloadsOf t' contextId = payloadsOf t contextId
  events : eventsOf t' contextId = eventsOf t contextId

theorem sameOf_of_sameShelf {t t' : Tables} (h : SameShelf t t') (contextId : String) :
    SameOf t t' contextId where
  snapshots := by rw [snapshotsOf, h.snapshots, snapshotsOf]
  payloads := by rw [payloadsOf, h.payloads, payloadsOf]
  events := by rw [eventsOf, h.history, eventsOf]

theorem SameOf.shelved {t t' : Tables} {contextId : String} (h : SameOf t t' contextId)
    (hs : Shelved t contextId) : Shelved t' contextId where
  chain := by
    rw [h.snapshots]
    exact hs.chain
  payloads := by
    rw [h.snapshots, h.payloads]
    exact hs.payloads

section Promotion

variable {P : Packages} {p : Promotion P} {row : SnapshotRow} {t t' : Tables}

theorem supersededBy_contextId (row r : SnapshotRow) : (supersededBy row r).contextId = r.contextId := by
  rw [supersededBy]
  split <;> rfl

theorem supersededBy_version (row r : SnapshotRow) : (supersededBy row r).version = r.version := by
  rw [supersededBy]
  split <;> rfl

theorem filter_supersededBy (row : SnapshotRow) (rows : List SnapshotRow) (contextId : String) :
    (rows.map (supersededBy row)).filter (fun r => r.contextId = contextId) =
      (rows.filter (fun r => r.contextId = contextId)).map (supersededBy row) := by
  rw [List.filter_map]
  congr 1
  apply List.filter_congr
  intro r _
  simp only [Function.comp_apply, supersededBy_contextId]

theorem insertEvent_eventsOf {v : EventValues} {contextId : String} (h : v.contextId ≠ contextId)
    (t : Tables) : eventsOf (insertEvent t v) contextId = eventsOf t contextId := by
  rw [insertEvent]
  split
  · split
    · simp [eventsOf, List.filter_append, h]
    · rfl
  · rfl

theorem insertEvents_eventsOf {contextId : String} (h : p.entry.contextId ≠ contextId)
    (events : List MembershipChange) (t : Tables) :
    eventsOf (events.foldl (fun t e => insertEvent t (p.eventValues e)) t) contextId =
      eventsOf t contextId := by
  induction events generalizing t with
  | nil => rfl
  | cons e events ih => rw [List.foldl_cons, ih, insertEvent_eventsOf h]

theorem promoted_snapshotsOf (h : Promoted p row t t') :
    snapshotsOf t' p.entry.contextId =
      (snapshotsOf t p.entry.contextId).map (supersededBy row) ++ [row] := by
  rw [snapshotsOf, h.snapshots, List.filter_append, filter_supersededBy]
  simp [h.inserted.contextId, snapshotsOf]

theorem promoted_frame (h : Promoted p row t t') {contextId : String}
    (hne : p.entry.contextId ≠ contextId) : SameOf t t' contextId where
  snapshots := by
    have hrow : row.contextId ≠ contextId := by
      rw [h.inserted.contextId]
      exact hne
    rw [snapshotsOf, h.snapshots, List.filter_append, filter_supersededBy]
    simp only [List.filter_cons, hrow, decide_false, List.filter_nil, Bool.false_eq_true, if_false,
      List.append_nil]
    refine (List.map_congr_left ?_).trans (List.map_id _)
    intro r hr
    have hid : r.contextId = contextId := by simpa using (List.mem_filter.mp hr).2
    exact if_neg (fun hc => hrow (hc.1.symm.trans hid))
  payloads := by
    obtain ⟨now, hp⟩ := h.payloads
    simp [payloadsOf, hp, List.filter_append, hne]
  events := by
    rw [eventsOf, h.history]
    exact insertEvents_eventsOf hne _ t

theorem promoted_shelved (h : Promoted p row t t') (hs : ∀ contextId, Shelved t contextId)
    (hlt : ∀ r ∈ snapshotsOf t p.entry.contextId, r.version < p.snapshot.version)
    (contextId : String) : Shelved t' contextId := by
  by_cases hne : p.entry.contextId = contextId
  · subst hne
    refine ⟨?_, ?_⟩
    · rw [promoted_snapshotsOf h]
      apply (hs p.entry.contextId).chain.promote
      · intro r hr
        rw [h.inserted.contextId]
        simpa using (List.mem_filter.mp hr).2
      · intro r hr
        rw [h.inserted.version]
        exact hlt r hr
      · exact h.inserted.state
      · exact h.inserted.validTo
    · obtain ⟨now, hp⟩ := h.payloads
      have hversions : (fun r : SnapshotRow => r.version) ∘ supersededBy row = fun r => r.version := by
        funext r
        exact supersededBy_version row r
      rw [promoted_snapshotsOf h, List.map_append, List.map_map, hversions, ← (hs p.entry.contextId).payloads]
      simp [payloadsOf, hp, List.filter_append, h.inserted.version]
  · exact (promoted_frame h hne).shelved (hs contextId)

end Promotion

section Pruning

variable {t : Tables} {contextId : String} {version : Int} {cutoff : Option Datetime}

theorem pruned_snapshotsOf : snapshotsOf (pruned t contextId version cutoff) contextId =
    (snapshotsOf t contextId).filter (fun r => !(r.version < version)) := by
  simp only [pruned, deleteEvents, deleteSnapshots, deletePayloads, snapshotsOf, List.filter_filter]
  apply List.filter_congr
  intro r _
  by_cases h : r.contextId = contextId <;> simp [h]

theorem pruned_payloadsOf : payloadsOf (pruned t contextId version cutoff) contextId =
    (payloadsOf t contextId).filter (fun r => !(r.version < version)) := by
  simp only [pruned, deleteEvents, deleteSnapshots, deletePayloads, payloadsOf, List.filter_filter]
  apply List.filter_congr
  intro r _
  by_cases h : r.contextId = contextId <;> simp [h]

theorem pruned_frame {other : String} (hne : contextId ≠ other) :
    SameOf t (pruned t contextId version cutoff) other := by
  have hother : ∀ r : String, r = other → r ≠ contextId := fun r hr hc => hne (hc.symm.trans hr)
  refine ⟨?_, ?_, ?_⟩
  · simp only [pruned, deleteEvents, deleteSnapshots, deletePayloads, snapshotsOf, List.filter_filter]
    apply List.filter_congr
    intro r _
    by_cases h : r.contextId = other <;> simp [h, hne.symm]
  · simp only [pruned, deleteEvents, deleteSnapshots, deletePayloads, payloadsOf, List.filter_filter]
    apply List.filter_congr
    intro r _
    by_cases h : r.contextId = other <;> simp [h, hne.symm]
  · simp only [pruned, deleteEvents, deleteSnapshots, deletePayloads, eventsOf, List.filter_filter]
    apply List.filter_congr
    intro r _
    by_cases h : r.contextId = other <;> simp [h, hne.symm]

theorem pruned_shelved (hs : ∀ contextId, Shelved t contextId) (other : String) :
    Shelved (pruned t contextId version cutoff) other := by
  by_cases hne : contextId = other
  · subst hne
    refine ⟨?_, ?_⟩
    · rw [pruned_snapshotsOf]
      exact (hs contextId).chain.filter version
    · have hfilter := congrArg (List.filter (fun v : Int => !(v < version))) (hs contextId).payloads
      rw [List.filter_map, List.filter_map] at hfilter
      rw [pruned_snapshotsOf, pruned_payloadsOf]
      exact hfilter
  · exact (pruned_frame hne).shelved (hs other)

end Pruning

section Anchor

theorem anchor_mem {t : Tables} {contextId : String} {cutoff : Option String} {version : Int}
    (h : anchor t contextId cutoff = some version) :
    ∃ r ∈ snapshotsOf t contextId, r.version = version := by
  obtain ⟨r, hr, hversion⟩ := Option.map_eq_some_iff.mp h
  have hmem := List.mem_of_mem_head? hr
  have hrow := (List.perm_insertionSort _ _).mem_iff.mp hmem
  obtain ⟨hrow, hp⟩ := List.mem_filter.mp hrow
  simp only [Bool.and_eq_true, decide_eq_true_eq] at hp
  exact ⟨r, List.mem_filter.mpr ⟨hrow, by simpa using hp.1⟩, hversion⟩

end Anchor

section Runs

variable {P : Packages}

def Raised : Entry P → Prop
  | (_, some (.error _)) => True
  | _ => False

/-- A promotion of `contextId` at `version` that is not known to have failed. -/
def Promotes (contextId : String) (version : Int) (e : Entry P) : Prop :=
  ¬ Raised e ∧ ∃ p, e.1 = .promote p ∧ p.entry.contextId = contextId ∧ p.snapshot.version = version

/-- The versions of the promotions of a context grow. A version that failed may be
used again. -/
def Increasing (h : List (Entry P)) : Prop :=
  h.Pairwise (fun e e' => ∀ contextId v v', Promotes contextId v e →
    (∃ p, e'.1 = .promote p ∧ p.entry.contextId = contextId ∧ p.snapshot.version = v') → v < v')

def Newer (call : Call P) (t : Tables) : Prop :=
  ∀ p, call = .promote p → ∀ r ∈ snapshotsOf t p.entry.contextId, r.version < p.snapshot.version

structure Leaves (call : Call P) (t t' : Tables) : Prop where
  shelved : ∀ contextId, Shelved t' contextId
  frame : ∀ contextId, call.contextId ≠ contextId → SameOf t t' contextId
  versions : ∀ contextId, ∀ r ∈ snapshotsOf t' contextId,
    (∃ r' ∈ snapshotsOf t contextId, r'.version = r.version) ∨
      ∃ p, call = .promote p ∧ p.entry.contextId = contextId ∧ p.snapshot.version = r.version

theorem Leaves.of_sameShelf {call : Call P} {t t' : Tables} (h : SameShelf t t')
    (hs : ∀ contextId, Shelved t contextId) : Leaves call t t' where
  shelved contextId := (sameOf_of_sameShelf h contextId).shelved (hs contextId)
  frame contextId _ := sameOf_of_sameShelf h contextId
  versions contextId r hr := by
    rw [(sameOf_of_sameShelf h contextId).snapshots] at hr
    exact .inl ⟨r, hr, rfl⟩

theorem Leaves.of_effect {call : Call P} {t t' : Tables} (h : call.Effect t t')
    (hs : ∀ contextId, Shelved t contextId) (hnew : Newer call t) : Leaves call t t' := by
  cases call with
  | promote p =>
    obtain ⟨row, hp⟩ := Promoted.of_applies h
    refine ⟨promoted_shelved hp hs (hnew p rfl), fun contextId hne => promoted_frame hp hne, ?_⟩
    intro contextId r hr
    by_cases hne : p.entry.contextId = contextId
    · subst hne
      rw [promoted_snapshotsOf hp, List.mem_append, List.mem_singleton] at hr
      obtain hr | rfl := hr
      · obtain ⟨r', hr', rfl⟩ := List.mem_map.mp hr
        exact .inl ⟨r', hr', (supersededBy_version row r').symm⟩
      · exact .inr ⟨p, rfl, rfl, hp.inserted.version.symm⟩
    · rw [(promoted_frame hp hne).snapshots] at hr
      exact .inl ⟨r, hr, rfl⟩
  | prune entry cutoff =>
    simp only [Call.Effect] at h
    split at h
    · subst h
      exact .of_sameShelf (.refl _) hs
    · obtain rfl := applies_prune h
      refine ⟨pruned_shelved hs, fun contextId hne => pruned_frame hne, ?_⟩
      intro contextId r hr
      by_cases hne : entry.contextId = contextId
      · subst hne
        rw [pruned_snapshotsOf] at hr
        exact .inl ⟨r, (List.mem_filter.mp hr).1, rfl⟩
      · rw [(pruned_frame hne).snapshots] at hr
        exact .inl ⟨r, hr, rfl⟩
  | save entry rawDdl =>
    obtain ⟨a, h⟩ := h
    exact .of_sameShelf (run_sameShelf (Call.saveStatement_notShelf entry rawDdl _) h) hs
  | drop entry =>
    obtain ⟨a, now, h⟩ := h
    exact .of_sameShelf (run_sameShelf rfl h) hs
  | record contextId version executedAt =>
    obtain ⟨a, h⟩ := h
    exact .of_sameShelf (run_sameShelf rfl h) hs

theorem Leaves.congr {call : Call P} {t₀ t t' : Tables} (h : Leaves call t t')
    (h₀ : SameShelf t₀ t) : Leaves call t₀ t' where
  shelved := h.shelved
  frame contextId hne := by
    have h₁ := sameOf_of_sameShelf h₀ contextId
    have h₂ := h.frame contextId hne
    exact ⟨h₂.snapshots.trans h₁.snapshots, h₂.payloads.trans h₁.payloads, h₂.events.trans h₁.events⟩
  versions contextId r hr := by
    rw [← (sameOf_of_sameShelf h₀ contextId).snapshots]
    exact h.versions contextId r hr

variable {c c' : Connection catalog}

theorem call_leaves {call : Call P} (hs : ∀ contextId, Shelved c.committed contextId)
    (hpending : SameShelf c.committed c.pending) (hnew : Newer call c.committed) :
    Keeps (Answers catalog) Eq (fun c' => Leaves call c.committed c'.committed)
      (fun out c' => Leaves call c.committed c'.committed ∧ SameShelf c'.committed c'.pending ∧
        ∀ e, out = .error e → SameShelf c.committed c'.committed) call.program c := by
  have hsame : ∀ c' : Connection catalog, c'.committed = c.committed →
      Leaves call c.committed c'.committed := by
    intro c' hc'
    rw [hc']
    exact .of_sameShelf (.refl _) hs
  apply Call.program_keeps call hsame
  · rintro c' (⟨heffect, hnone⟩ | ⟨-, hc', ht⟩)
    · have hleaves : Leaves call c.pending c'.committed := by
        apply Leaves.of_effect heffect
        · exact fun contextId => (sameOf_of_sameShelf hpending contextId).shelved (hs contextId)
        · intro p hp r hr
          rw [(sameOf_of_sameShelf hpending _).snapshots] at hr
          exact hnew p hp r hr
      refine ⟨hleaves.congr hpending, ?_, nofun⟩
      rw [Connection.pending_of_none hnone]
      exact .refl _
    · refine ⟨hsame c' hc', ?_, nofun⟩
      rw [Connection.pending, hc', ht]
      exact hpending
  · rintro e c' ⟨hc', hp⟩
    have hc : SameShelf c.committed c'.committed := hc' ▸ .refl _
    refine ⟨hsame c' hc', hc.symm.trans ?_, fun _ _ => hc⟩
    obtain hnone | heq | ⟨s, a, hshelf, hrun⟩ := hp
    · rw [Connection.pending_of_none hnone]
      exact hc
    · rw [heq]
      exact hpending
    · exact hpending.trans (run_sameShelf hshelf hrun)

/-- What holds between the calls of a run. -/
structure InOrder (h : List (Entry P)) (c : Connection catalog) : Prop where
  shelved : ∀ contextId, Shelved c.committed contextId
  pending : SameShelf c.committed c.pending
  versions : ∀ contextId, ∀ r ∈ snapshotsOf c.committed contextId,
    ∃ e ∈ h, Promotes contextId r.version e

theorem InOrder.newer {h : List (Entry P)} (hc : InOrder h c) {call : Call P}
    {out : Option (Except DbError Unit)} (hinc : Increasing (h ++ [(call, out)])) :
    Newer call c.committed := by
  intro p hp r hr
  obtain ⟨e, he, hpromotes⟩ := hc.versions _ r hr
  have hlast := (List.pairwise_append.mp hinc).2.2 e he (call, out) (by simp)
  exact hlast _ _ _ hpromotes ⟨p, hp, rfl, rfl⟩

theorem InOrder.extend {h : List (Entry P)} (hc : InOrder h c) {call : Call P}
    {out : Option (Except DbError Unit)} {t' : Tables} (hl : Leaves call c.committed t')
    (hraised : Raised (call, out) → SameShelf c.committed t') (contextId : String)
    (r : SnapshotRow) (hr : r ∈ snapshotsOf t' contextId) :
    ∃ e ∈ h ++ [(call, out)], Promotes contextId r.version e := by
  have hold : ∀ r' ∈ snapshotsOf c.committed contextId, r'.version = r.version →
      ∃ e ∈ h ++ [(call, out)], Promotes contextId r.version e := by
    intro r' hr' hversion
    obtain ⟨e, he, hp⟩ := hc.versions contextId r' hr'
    exact ⟨e, by simp [he], hversion ▸ hp⟩
  by_cases hraise : Raised (call, out)
  · rw [(sameOf_of_sameShelf (hraised hraise) contextId).snapshots] at hr
    exact hold r hr rfl
  · obtain ⟨r', hr', hversion⟩ | ⟨p, hp, hid, hversion⟩ := hl.versions contextId r hr
    · exact hold r' hr' hversion
    · exact ⟨_, by simp, hraise, p, hp, hid, hversion⟩

theorem reaches_inOrder {c₀ : Connection catalog} {h : List (Entry P)}
    (hr : Reaches c₀ h c) (h₀ : InOrder ([] : List (Entry P)) c₀) (hinc : Increasing h) : InOrder h c := by
  induction hr with
  | start => exact h₀
  | @call h c c' call out hr hc ih =>
    have ih := ih (List.pairwise_append.mp hinc).1
    have hk := call_leaves ih.shelved ih.pending (ih.newer hinc)
    obtain ⟨hl, hp, he⟩ := hk.runs (fun _ _ _ _ h => h) (fun _ _ h => h) (fun _ _ h hI => h ▸ hI) hc
    refine ⟨hl.shelved, hp, ih.extend hl ?_⟩
    intro hraised
    cases out with
    | ok a => exact absurd hraised (by simp [Raised])
    | error e => exact he e rfl
  | @stop h c c' call hr hc ih =>
    have ih := ih (List.pairwise_append.mp hinc).1
    have hk := call_leaves ih.shelved ih.pending (ih.newer hinc)
    have hl := hk.visits (fun _ _ h hI => h ▸ hI) (fun _ _ h => h.1) hc
    exact ⟨hl.shelved, .refl _, ih.extend hl (by simp [Raised])⟩

end Runs

/-- The snapshots of a context as its readers rely on them. -/
structure Consistent (t : Tables) (contextId : String) : Prop where
  keys : ∀ version, (∃ r ∈ t.contextSnapshotPayloads, r.contextId = contextId ∧ r.version = version) ↔
    ∃ r ∈ t.contextSnapshots, r.contextId = contextId ∧ r.version = version
  current : snapshotsOf t contextId ≠ [] →
    ((snapshotsOf t contextId).filter (fun r => r.state = .current)).length = 1
  highest : ∀ r ∈ snapshotsOf t contextId, r.state = .current →
    r.validTo = none ∧ ∀ r' ∈ snapshotsOf t contextId, r'.version ≤ r.version
  superseded : ∀ r ∈ snapshotsOf t contextId, r.state ≠ .current → r.state = .superseded ∧
    ∃ s ∈ snapshotsOf t contextId, r.version < s.version ∧
      (∀ s' ∈ snapshotsOf t contextId, r.version < s'.version → s.version ≤ s'.version) ∧
      r.validTo = some s.computedAt

theorem Shelved.consistent {t : Tables} {contextId : String} (h : Shelved t contextId) :
    Consistent t contextId := by
  have hkeys : ∀ version, version ∈ (payloadsOf t contextId).map (fun r => r.version) ↔
      version ∈ (snapshotsOf t contextId).map (fun r => r.version) := by
    intro version
    rw [h.payloads]
  refine ⟨?_, ?_, ?_, ?_⟩
  · intro version
    simpa [payloadsOf, snapshotsOf, and_assoc] using hkeys version
  · intro hne
    obtain ⟨front, last, heq, hcurrent, -, hfront⟩ := h.chain.states hne
    have hnone : front.filter (fun r => r.state = .current) = [] := by
      rw [List.filter_eq_nil_iff]
      intro r hr
      simp [hfront r hr]
    rw [heq, List.filter_append, hnone]
    simp [hcurrent]
  · intro r hr hcurrent
    obtain ⟨front, last, heq, -, hvalid, hfront⟩ := h.chain.states (List.ne_nil_of_mem hr)
    have hasc := h.chain.ascending
    rw [heq] at hr hasc ⊢
    obtain hr | hr := List.mem_append.mp hr
    · rw [hfront r hr] at hcurrent
      cases hcurrent
    · obtain rfl := List.mem_singleton.mp hr
      refine ⟨hvalid, ?_⟩
      intro r' hr'
      obtain hr' | hr' := List.mem_append.mp hr'
      · exact ((List.pairwise_append.mp hasc).2.2 r' hr' r (by simp)).le
      · rw [List.mem_singleton.mp hr']
  · intro r hr hne
    obtain ⟨front, last, heq, hcurrent, -, hfront⟩ := h.chain.states (List.ne_nil_of_mem hr)
    refine ⟨?_, h.chain.next hr hne⟩
    rw [heq] at hr
    obtain hr | hr := List.mem_append.mp hr
    · exact hfront r hr
    · rw [List.mem_singleton.mp hr] at hne
      exact absurd hcurrent hne

/-- A migrated database without snapshots, newly opened. -/
structure Started (c : Connection catalog) : Prop where
  snapshots : c.committed.contextSnapshots = []
  payloads : c.committed.contextSnapshotPayloads = []
  transaction : c.transaction = none

theorem Started.inOrder {P : Packages} {c : Connection catalog} (h : Started c) :
    InOrder ([] : List (Entry P)) c := by
  have hnone : ∀ contextId, snapshotsOf c.committed contextId = [] := by
    intro contextId
    exact congrArg (List.filter _) h.snapshots
  refine ⟨?_, ?_, ?_⟩
  · intro contextId
    have hchain : Chain (snapshotsOf c.committed contextId) := by
      rw [hnone]
      trivial
    refine ⟨hchain, ?_⟩
    have hpayloads : payloadsOf c.committed contextId = [] := congrArg (List.filter _) h.payloads
    rw [hnone, hpayloads]
    rfl
  · rw [Connection.pending_of_none h.transaction]
    exact .refl _
  · intro contextId r hr
    rw [hnone] at hr
    cases hr

/-- Whatever fails and wherever the process stops, the committed snapshots of every
context are consistent; a call that raises has changed none of them, nor the
history, and a call on one context has changed nothing of another. -/
theorem snapshots_consistent {P : Packages} {c₀ c : Connection catalog} {h : List (Entry P)}
    (h₀ : Started c₀) (hr : Reaches c₀ h c) (hinc : Increasing h) :
    (∀ contextId, Consistent c.committed contextId) ∧
      ∀ (call : Call P) out c', Runs (Answers catalog) Eq call.program c out c' →
        Increasing (h ++ [(call, some out)]) →
        ((∃ e, out = .error e) → SameShelf c.committed c'.committed) ∧
          ∀ contextId, call.contextId ≠ contextId → SameOf c.committed c'.committed contextId := by
  have hc := reaches_inOrder hr h₀.inOrder hinc
  refine ⟨fun contextId => (hc.shelved contextId).consistent, ?_⟩
  intro call out c' hrun hinc'
  obtain ⟨hl, -, he⟩ := (call_leaves hc.shelved hc.pending (hc.newer hinc')).runs
    (fun _ _ _ _ h => h) (fun _ _ h => h) (fun _ _ h hI => h ▸ hI) hrun
  refine ⟨?_, hl.frame⟩
  rintro ⟨e, rfl⟩
  exact he e rfl

section Sample

def promoted {P : Packages} : Call P → Option (String × Int)
  | .promote p => some (p.entry.contextId, p.snapshot.version)
  | _ => none

theorem increasing_of_calls {P : Packages} {h : List (Entry P)}
    (hc : ((h.map Prod.fst).map promoted).Pairwise (fun x y =>
      x.all (fun x => y.all (fun y => x.1 ≠ y.1 || decide (x.2 < y.2))))) : Increasing h := by
  rw [List.map_map] at hc
  refine (List.pairwise_map.mp hc).imp ?_
  rintro ⟨call, out⟩ ⟨call', out'⟩ hc contextId v v' ⟨-, p, rfl, rfl, rfl⟩ ⟨p', rfl, hid, rfl⟩
  simpa [promoted, hid] using hc

def sampleCalls : List (Call samplePackages) :=
  [.promote (samplePromotion "a" 1 0 [1]), .promote (samplePromotion "a" 2 1 [2]),
    .prune (sampleEntry "a" "name" 1) (some (sampleDay 1))]

theorem snapshots_consistent_sample :
    Consistent (runCalls (sampleConnection .empty) sampleCalls).committed "a" ∧
      (snapshotsOf (runCalls (sampleConnection .empty) sampleCalls).committed "a").length = 1 := by
  have hinc : Increasing (outcomes (sampleConnection .empty) sampleCalls) := by
    apply increasing_of_calls
    rw [outcomes_calls]
    decide
  have hr := runCalls_reaches (c := sampleConnection .empty) .start sampleCalls
  exact ⟨(snapshots_consistent ⟨rfl, rfl, rfl⟩ hr hinc).1 "a", by decide⟩

end Sample

end ContextqlServer.Db.Snapshots
