import ContextqlServer.Db.Runs
import ContextqlServer.Db.Snapshots
import ContextqlServer.Lib.Numbering

namespace ContextqlServer.Db.Promotions

open ContextqlServer.Lib.Effect ContextqlServer.Lib.Isoformat ContextqlServer.Lib.Numbering
open ContextqlServer.Lib.Sql
open ContextqlServer.Db.Schema ContextqlServer.Db.Statements ContextqlServer.Db.ContextCatalog
open ContextqlServer.Db.ContextCatalog.SQLiteContextRuntimeRepository
open ContextqlServer.Db.Calls ContextqlServer.Db.Shelf ContextqlServer.Db.Snapshots ContextqlServer.Db.Runs

variable {P : Packages} {t t' : Tables} {calls : List (Call P)} {call : Call P} {p : Promotion P}

def versionsOf (calls : List (Call P)) (contextId : String) : List Int :=
  ((calls.filterMap promoted).filter (fun x => x.1 = contextId)).map Prod.snd

def Numbered (calls : List (Call P)) : Prop := ∀ contextId, Consecutive 0 (versionsOf calls contextId)

/-- The promotions of every context have ever greater versions. -/
def Ascending (calls : List (Call P)) : Prop := ∀ contextId, (versionsOf calls contextId).Pairwise (· < ·)

theorem Numbered.ascending (h : Numbered calls) : Ascending calls := fun contextId => (h contextId).ascending

structure Holds (p : Promotion P) (t : Tables) (r : SnapshotRow) : Prop where
  values : rowValues r = p.snapshotValues
  payload : ∃ q ∈ t.contextSnapshotPayloads, q.contextId = r.contextId ∧ q.version = r.version ∧
    q.membershipBlob = .blob p.membershipPayload ∧ q.scoreBlob = some (.blob p.scorePayload)

theorem Holds.contextId {r : SnapshotRow} (h : Holds p t r) : r.contextId = p.entry.contextId :=
  congrArg SnapshotValues.contextId h.values

theorem Holds.version {r : SnapshotRow} (h : Holds p t r) : r.version = p.snapshot.version :=
  congrArg SnapshotValues.version h.values

/-- The times of an event are what `isoformat` wrote. -/
def Timed (r : HistoryRow) : Prop :=
  ∃ recordedAt effectiveAt : Datetime,
    r.recordedAt = recordedAt.isoformat ∧ r.effectiveAt = effectiveAt.isoformat

/-- What the tables keep of the promotions of calls that went through. -/
structure Kept (calls : List (Call P)) (t : Tables) : Prop where
  shelved : ∀ contextId, Shelved t contextId
  versions : ∀ contextId, (snapshotsOf t contextId).map (fun r => r.version) <:+ versionsOf calls contextId
  nonempty : ∀ contextId, versionsOf calls contextId ≠ [] → snapshotsOf t contextId ≠ []
  rows : ∀ r ∈ t.contextSnapshots, ∃ p, .promote p ∈ calls ∧ Holds p t r
  history : ∀ r ∈ t.contextMembershipHistory, Timed r

section Versions

theorem versionsOf_append (calls : List (Call P)) (call : Call P) (contextId : String) :
    versionsOf (calls ++ [call]) contextId = versionsOf calls contextId ++ versionsOf [call] contextId := by
  simp [versionsOf, List.filterMap_append, List.filter_append]

theorem versionsOf_promote (p : Promotion P) :
    versionsOf [.promote p] p.entry.contextId = [p.snapshot.version] := by
  simp [versionsOf, promoted]

theorem versionsOf_other {contextId : String} (h : call.contextId ≠ contextId) :
    versionsOf [call] contextId = [] := by
  cases call with
  | promote p =>
    have hne : p.entry.contextId ≠ contextId := h
    simp [versionsOf, promoted, hne]
  | _ => rfl

end Versions

section Steps

theorem Kept.newer (h : Kept calls t) (hasc : Ascending (calls ++ [call])) : Newer call t := by
  rintro p rfl r hr
  have hlast := hasc p.entry.contextId
  rw [versionsOf_append, versionsOf_promote, List.pairwise_append] at hlast
  have hmem : r.version ∈ versionsOf calls p.entry.contextId :=
    (h.versions p.entry.contextId).subset (List.mem_map_of_mem hr)
  exact hlast.2.2 _ hmem _ (List.mem_singleton_self _)

theorem rowValues_supersededBy (row r : SnapshotRow) : rowValues (supersededBy row r) = rowValues r := by
  rw [supersededBy]
  split <;> rfl

theorem insertEvents_timed {events : List MembershipChange}
    (h : ∀ r ∈ t.contextMembershipHistory, Timed r) :
    ∀ r ∈ (events.foldl (fun t e => insertEvent t (p.eventValues e)) t).contextMembershipHistory,
      Timed r := by
  induction events generalizing t with
  | nil => exact h
  | cons e events ih =>
    refine ih ?_
    change ∀ r ∈ (insertEvent t (p.eventValues e)).contextMembershipHistory, Timed r
    rw [insertEvent]
    split
    · rename_i recordedAt effectiveAt hrecorded heffective
      split
      · intro r hr
        obtain hr | hr := List.mem_append.mp hr
        · exact h r hr
        · rw [List.mem_singleton.mp hr]
          obtain ⟨d, -, hd⟩ := Option.map_eq_some_iff.mp hrecorded
          obtain ⟨d', -, hd'⟩ := Option.map_eq_some_iff.mp heffective
          exact ⟨d, d', hd.symm, hd'.symm⟩
      · exact h
    · exact h

theorem promoted_versions {row : SnapshotRow} (hp : Promoted p row t t') (contextId : String) :
    (snapshotsOf t' contextId).map (fun r => r.version) =
      (snapshotsOf t contextId).map (fun r => r.version) ++ versionsOf [.promote p] contextId := by
  by_cases hid : p.entry.contextId = contextId
  · subst hid
    have hversions : (fun r : SnapshotRow => r.version) ∘ supersededBy row = fun r => r.version := by
      funext r
      exact supersededBy_version row r
    rw [promoted_snapshotsOf hp, List.map_append, List.map_map, hversions, versionsOf_promote,
      List.map_singleton, hp.inserted.version]
  · have hcall : (Call.promote p).contextId ≠ contextId := hid
    rw [(promoted_frame hp hid).snapshots, versionsOf_other hcall, List.append_nil]

theorem Kept.of_sameShelf (h : Kept calls t) (hs : SameShelf t t') (hcall : promoted call = none) :
    Kept (calls ++ [call]) t' := by
  have hversions : ∀ contextId, versionsOf (calls ++ [call]) contextId = versionsOf calls contextId := by
    intro contextId
    rw [versionsOf_append]
    simp [versionsOf, hcall]
  have hof := fun contextId => (sameOf_of_sameShelf hs contextId).snapshots
  refine ⟨fun contextId => (sameOf_of_sameShelf hs contextId).shelved (h.shelved contextId), ?_, ?_, ?_, ?_⟩
  · intro contextId
    rw [hof, hversions]
    exact h.versions contextId
  · intro contextId
    rw [hof, hversions]
    exact h.nonempty contextId
  · intro r hr
    rw [hs.snapshots] at hr
    obtain ⟨p, hp, hholds⟩ := h.rows r hr
    refine ⟨p, List.mem_append_left _ hp, hholds.values, ?_⟩
    rw [hs.payloads]
    exact hholds.payload
  · rw [hs.history]
    exact h.history

theorem Kept.promote (h : Kept calls t) (hnew : Newer (.promote p) t) {row : SnapshotRow}
    (hp : Promoted p row t t') : Kept (calls ++ [.promote p]) t' := by
  obtain ⟨now, hpayloads⟩ := hp.payloads
  refine ⟨promoted_shelved hp h.shelved (hnew p rfl), ?_, ?_, ?_, ?_⟩
  · intro contextId
    rw [versionsOf_append, promoted_versions hp]
    exact List.suffix_append_inj_of_length_eq rfl |>.mpr ⟨h.versions _, rfl⟩
  · intro contextId hne
    by_cases hid : p.entry.contextId = contextId
    · subst hid
      rw [promoted_snapshotsOf hp]
      simp
    · have hcall : (Call.promote p).contextId ≠ contextId := hid
      rw [versionsOf_append, versionsOf_other hcall, List.append_nil] at hne
      rw [(promoted_frame hp hid).snapshots]
      exact h.nonempty contextId hne
  · intro r hr
    rw [hp.snapshots] at hr
    obtain hr | hr := List.mem_append.mp hr
    · obtain ⟨s, hs, rfl⟩ := List.mem_map.mp hr
      obtain ⟨q, hq, hholds⟩ := h.rows s hs
      refine ⟨q, List.mem_append_left _ hq, ?_, ?_⟩
      · rw [rowValues_supersededBy, hholds.values]
      · obtain ⟨x, hx, hplace⟩ := hholds.payload
        refine ⟨x, ?_, ?_⟩
        · rw [hpayloads]
          exact List.mem_append_left _ hx
        · rwa [supersededBy_contextId, supersededBy_version]
    · obtain rfl := List.mem_singleton.mp hr
      refine ⟨p, by simp, hp.inserted.values, ⟨p.entry.contextId, p.snapshot.version,
        .blob p.membershipPayload, some (.blob p.scorePayload), now⟩, ?_,
        hp.inserted.contextId.symm, hp.inserted.version.symm, rfl, rfl⟩
      rw [hpayloads]
      exact List.mem_append_right _ (List.mem_singleton_self _)
  · intro r hr
    rw [hp.history] at hr
    exact insertEvents_timed h.history r hr

theorem Kept.prune {entry : ContextCatalogEntry P} {cutoff : Option Datetime} {version : Int}
    (h : Kept calls t) (ha : anchor t entry.contextId (iso cutoff) = some version) :
    Kept (calls ++ [.prune entry cutoff]) (pruned t entry.contextId version cutoff) := by
  have hversions : ∀ contextId, versionsOf (calls ++ [.prune entry cutoff]) contextId =
      versionsOf calls contextId := by
    intro contextId
    rw [versionsOf_append]
    exact List.append_nil _
  refine ⟨pruned_shelved h.shelved, ?_, ?_, ?_, ?_⟩
  · intro contextId
    rw [hversions]
    by_cases hid : entry.contextId = contextId
    · subst hid
      have hasc := List.pairwise_map.mpr (h.shelved entry.contextId).chain.ascending
      have hfilter := filter_suffix hasc version
      rw [List.filter_map] at hfilter
      rw [pruned_snapshotsOf]
      exact hfilter.trans (h.versions entry.contextId)
    · rw [(pruned_frame hid).snapshots]
      exact h.versions contextId
  · intro contextId hne
    rw [hversions] at hne
    by_cases hid : entry.contextId = contextId
    · subst hid
      obtain ⟨r, hr, hversion⟩ := anchor_mem ha
      rw [pruned_snapshotsOf]
      refine List.ne_nil_of_mem (List.mem_filter.mpr ⟨hr, ?_⟩)
      simp [hversion]
    · rw [(pruned_frame hid).snapshots]
      exact h.nonempty contextId hne
  · intro r hr
    obtain ⟨hr, hkeep⟩ := List.mem_filter.mp hr
    obtain ⟨p, hp, hholds⟩ := h.rows r hr
    obtain ⟨q, hq, hid, hversion, hblobs⟩ := hholds.payload
    refine ⟨p, List.mem_append_left _ hp, hholds.values, q, ?_, hid, hversion, hblobs⟩
    refine List.mem_filter.mpr ⟨hq, ?_⟩
    rw [hid, hversion]
    exact hkeep
  · intro r hr
    exact h.history r (List.mem_filter.mp hr).1

/-- Each call that goes through keeps what the tables hold of the promotions. -/
theorem Kept.effect (h : Kept calls t) (hasc : Ascending (calls ++ [call])) (heffect : call.Effect t t') :
    Kept (calls ++ [call]) t' := by
  cases call with
  | promote p =>
    obtain ⟨row, hp⟩ := Promoted.of_applies heffect
    exact h.promote (h.newer hasc) hp
  | prune entry cutoff =>
    obtain ⟨-, rfl⟩ | ⟨version, ha, rfl⟩ := prune_cases heffect
    · exact h.of_sameShelf (.refl _) rfl
    · exact h.prune ha
  | save e rawDdl =>
    obtain ⟨a, hrun⟩ := heffect
    exact h.of_sameShelf (run_sameShelf (Call.saveStatement_notShelf e rawDdl t) hrun) rfl
  | drop e =>
    obtain ⟨a, now, hrun⟩ := heffect
    exact h.of_sameShelf (run_sameShelf rfl hrun) rfl
  | record contextId version executedAt =>
    obtain ⟨a, hrun⟩ := heffect
    exact h.of_sameShelf (run_sameShelf rfl hrun) rfl

end Steps

/-- A database without snapshots and events. -/
structure Bare (t : Tables) : Prop where
  snapshots : t.contextSnapshots = []
  payloads : t.contextSnapshotPayloads = []
  history : t.contextMembershipHistory = []

theorem Bare.kept (h : Bare t) : Kept ([] : List (Call P)) t := by
  have hnone : ∀ contextId, snapshotsOf t contextId = [] := fun contextId => congrArg (List.filter _) h.snapshots
  have hpayloads : ∀ contextId, payloadsOf t contextId = [] := fun contextId => congrArg (List.filter _) h.payloads
  refine ⟨?_, ?_, ?_, ?_, ?_⟩
  · intro contextId
    refine ⟨?_, ?_⟩
    · rw [hnone]
      trivial
    · rw [hnone, hpayloads]
      rfl
  · intro contextId
    rw [hnone]
    exact List.nil_suffix
  · exact fun contextId hne => absurd rfl hne
  · rw [h.snapshots]
    exact List.forall_mem_nil _
  · rw [h.history]
    exact List.forall_mem_nil _

theorem performs_versions (h₀ : Bare t) (hp : Performs calls t t')
    (hprune : ∀ entry cutoff, .prune entry cutoff ∉ calls) (contextId : String) :
    (snapshotsOf t' contextId).map (fun r => r.version) = versionsOf calls contextId := by
  induction hp with
  | nil t =>
    have hnone : snapshotsOf t contextId = [] := congrArg (List.filter _) h₀.snapshots
    rw [hnone]
    rfl
  | @snoc calls call t₀ t₁ t₂ hp hc ih =>
    have ih := ih h₀ (fun entry cutoff hmem => hprune entry cutoff (List.mem_append_left _ hmem))
    have hsame : ∀ hs : SameShelf t₁ t₂, versionsOf [call] contextId = [] →
        (snapshotsOf t₂ contextId).map (fun r => r.version) = versionsOf (calls ++ [call]) contextId := by
      intro hs hnone
      rw [(sameOf_of_sameShelf hs contextId).snapshots, ih, versionsOf_append, hnone, List.append_nil]
    cases call with
    | promote p =>
      obtain ⟨row, hpromoted⟩ := Promoted.of_applies hc
      rw [promoted_versions hpromoted, ih, ← versionsOf_append]
    | prune entry cutoff => exact absurd (List.mem_append_right _ (List.mem_singleton_self _)) (hprune entry cutoff)
    | save e rawDdl =>
      obtain ⟨a, hrun⟩ := hc
      exact hsame (run_sameShelf (Call.saveStatement_notShelf e rawDdl t₁) hrun) rfl
    | drop e =>
      obtain ⟨a, now, hrun⟩ := hc
      exact hsame (run_sameShelf rfl hrun) rfl
    | record contextId version executedAt =>
      obtain ⟨a, hrun⟩ := hc
      exact hsame (run_sameShelf rfl hrun) rfl

theorem numbered_of_append {calls calls' : List (Call P)} (h : Numbered (calls ++ calls')) :
    Numbered calls := by
  intro contextId
  have hcons := h contextId
  simp only [versionsOf, List.filterMap_append, List.filter_append, List.map_append] at hcons
  exact (Consecutive.append_iff.mp hcons).1

theorem ascending_of_append {calls calls' : List (Call P)} (h : Ascending (calls ++ calls')) :
    Ascending calls := by
  intro contextId
  have hasc := h contextId
  simp only [versionsOf, List.filterMap_append, List.filter_append, List.map_append] at hasc
  exact (List.pairwise_append.mp hasc).1

/-- What calls that all went through leave, where every promotion has a greater version than those before. -/
theorem performs_kept (h₀ : Bare t) (hp : Performs calls t t') (hasc : Ascending calls) : Kept calls t' := by
  induction hp with
  | nil t => exact h₀.kept
  | snoc hp hc ih => exact (ih h₀ (ascending_of_append hasc)).effect hasc hc

end ContextqlServer.Db.Promotions
