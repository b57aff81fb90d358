import ContextqlServer.Db.Codec
import ContextqlServer.Db.Runs
import ContextqlServer.Db.Snapshots
import ContextqlServer.Lib.AsOf
import ContextqlServer.Lib.Instant

namespace ContextqlServer.Db.AsOfAnswers

open ContextqlServer.Lib.AsOf ContextqlServer.Lib.Effect ContextqlServer.Lib.Isoformat
open ContextqlServer.Lib.Rely ContextqlServer.Lib.Sql
open ContextqlServer.Db.Schema ContextqlServer.Db.Statements ContextqlServer.Db.ContextCatalog
open ContextqlServer.Db.ContextCatalog.SQLiteContextRuntimeRepository
open ContextqlServer.Db.Calls ContextqlServer.Db.Codec ContextqlServer.Db.Shelf
open ContextqlServer.Db.Snapshots ContextqlServer.Db.Runs

variable {P : Packages} {t t' : Tables} {contextId : String}

/-- The instant that `data_as_of` denotes. -/
def instantOf (r : SnapshotRow) : Int :=
  match datetime (some r.dataAsOf) with
  | .ok (some d) => d.instant
  | _ => 0

theorem instant_assumeUtc (d : Datetime) : (assumeUtc d).instant = d.instant := by
  rw [assumeUtc]
  split
  · rename_i hnone
    simp only [Datetime.instant, Fields.toordinal, Fields.timeOfDay, hnone]
    rfl
  · rfl

def answerAt (t : Tables) (contextId : String) (instant : Int) : Option SnapshotRow :=
  asOf instantOf (fun r => r.version) (snapshotsOf t contextId) instant

def BelowReplaced (t : Tables) (contextId : String) (cutoff : Datetime) : Prop :=
  ∀ version, anchor t contextId (iso (some cutoff)) = some version →
    ∀ d ∈ snapshotsOf t contextId, d.version < version →
      Replaced instantOf (fun r => r.version) (snapshotsOf t contextId) cutoff.instant d

theorem answers_iff {entry : ContextCatalogEntry P} {cutoff : Datetime}
    (hkey : ((snapshotsOf t entry.contextId).map (fun r => r.version)).Nodup)
    (heffect : (Call.prune entry (some cutoff)).Effect t t') :
    (∀ instant, cutoff.instant ≤ instant →
        answerAt t' entry.contextId instant = answerAt t entry.contextId instant) ↔
      BelowReplaced t entry.contextId cutoff := by
  have hversion : ∀ x ∈ snapshotsOf t entry.contextId, ∀ y ∈ snapshotsOf t entry.contextId,
      x.version = y.version → x = y := fun x hx y hy => List.inj_on_of_nodup_map hkey hx hy
  obtain ⟨ha, rfl⟩ | ⟨version, ha, rfl⟩ := prune_cases heffect
  · refine iff_of_true (fun _ _ => rfl) ?_
    intro version hanchor
    rw [ha] at hanchor
    cases hanchor
  · simp only [answerAt, pruned_snapshotsOf]
    rw [asOf_filter_iff hversion]
    constructor
    · intro h version' ha' d hd hlt
      obtain rfl : version = version' := Option.some.inj (ha.symm.trans ha')
      exact h d hd (by simpa using hlt)
    · intro h d hd hp
      exact h version ha d hd (by simpa using hp)

/-- A pruning keeps the answers from the cutoff on exactly if every snapshot below its
anchor has another one in its place. -/
theorem prune_keeps_answers_iff {c c' : Connection catalog} {entry : ContextCatalogEntry P}
    {cutoff : Datetime} (hnone : c.transaction = none)
    (hkey : ((snapshotsOf c.committed entry.contextId).map (fun r => r.version)).Nodup)
    (hrun : Runs (Answers catalog) Eq (pruneHistory entry (some cutoff)) c (.ok ()) c') :
    (∀ instant, cutoff.instant ≤ instant →
        answerAt c'.committed entry.contextId instant = answerAt c.committed entry.contextId instant) ↔
      BelowReplaced c.committed entry.contextId cutoff :=
  answers_iff hkey (effect_of_runs (.prune entry (some cutoff)) hnone hrun).2

section Sample

def forwardCalls : List (Call samplePackages) :=
  [.promote (samplePromotion "a" 1 1 [1]), .promote (samplePromotion "a" 2 2 [2])]

theorem prune_keeps_answers_iff_sample :
    BelowReplaced (runCalls (sampleConnection .empty) forwardCalls).committed "a" (sampleDay 2) ∧
      ∀ instant, (sampleDay 2).instant ≤ instant →
        answerAt ((Connection.handler catalog).exec
            (pruneHistory (sampleEntry "a" "name" 1) (some (sampleDay 2)))
            (runCalls (sampleConnection .empty) forwardCalls)).2.committed "a" instant =
          answerAt (runCalls (sampleConnection .empty) forwardCalls).committed "a" instant := by
  have hrun := Runs.of_exec (H := Connection.handler catalog) (R := Eq) (fun _ => rfl)
    (rfl : (Connection.handler catalog).exec
      (pruneHistory (sampleEntry "a" "name" 1) (some (sampleDay 2)))
      (runCalls (sampleConnection .empty) forwardCalls) = (.ok (), _))
  refine and_iff_left_of_imp (prune_keeps_answers_iff rfl (by decide) hrun).mpr |>.mpr ?_
  intro version hversion
  have hanchor : anchor (runCalls (sampleConnection .empty) forwardCalls).committed "a"
      (iso (some (sampleDay 2))) = some 2 := by decide
  obtain rfl : 2 = version := Option.some.inj (hanchor.symm.trans hversion)
  decide

/-- Source time that moves backwards: the later snapshot has the older data. -/
def backwardCalls : List (Call samplePackages) :=
  [.promote (samplePromotion "a" 1 5 [1]), .promote (samplePromotion "a" 2 3 [2])]

def backwardPruned : List (Call samplePackages) :=
  backwardCalls ++ [.prune (sampleEntry "a" "name" 1) (some (sampleDay 4))]

theorem backward_answer :
    Successful (outcomes (sampleConnection .empty) backwardPruned) ∧
      (sampleDay 4).instant ≤ (sampleDay 5).instant ∧
      (answerAt (runCalls (sampleConnection .empty) backwardCalls).committed "a"
        (sampleDay 5).instant).map (fun r => r.version) = some 1 ∧
      (answerAt (runCalls (sampleConnection .empty) backwardPruned).committed "a"
        (sampleDay 5).instant).map (fun r => r.version) = some 2 :=
  ⟨successful_iff.mpr (by decide), by decide, by decide, by decide⟩

end Sample

end ContextqlServer.Db.AsOfAnswers
