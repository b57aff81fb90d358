import ContextqlServer.Deepsee.Synchronizer

namespace ContextqlServer.Deepsee.McpProvider

open ContextqlServer.Lib.Effect ContextqlServer.Lib.Mapping ContextqlServer.Lib.Python
open ContextqlServer.Deepsee.Models ContextqlServer.Deepsee.MockService
open ContextqlServer.Deepsee.Client ContextqlServer.Deepsee.Store
open ContextqlServer.Deepsee.Synchronizer

def defaultBitmapThreshold : Int := 1000

structure MCPResult where
  entityType : String
  entityIds : Option (List Int)
  membershipBitmap : Option (List UInt8)
  bitmapEncoding : Option String
  scores : Dict Int Float64
  entityKeyType : String
  dataAsOf : WireTime
  sourceWatermark : String
  evidenceRefs : Dict Int String

/-- The member set that a result stands for, if it can be read. -/
def MCPResult.members (B : BitMap64) (r : MCPResult) : Option (Finset Int) :=
  match r.membershipBitmap with
  | some payload => B.deserialize payload
  | none => r.entityIds.map List.toFinset

/-- `(-scores.get(i, 1.0), i) < (-scores.get(j, 1.0), j)`. -/
def rankedBefore (scores : Dict Int Float64) (i j : Int) : Bool :=
  let x := ((scores.lookup i).getD 1).neg
  let y := ((scores.lookup j).getD 1).neg
  if x.same y then i < j else x.less y

/-- What `_id_list_result` has gathered from its pages. -/
structure Gathered where
  entityIds : List Int
  scores : Dict Int Float64
  evidenceRefs : Dict Int String
  dataAsOf : WireTime
  watermark : String

def Gathered.ofPage (page : SnapshotPage) : Gathered where
  entityIds := page.entityIds.getD []
  scores := page.scores
  evidenceRefs := page.evidenceRefs
  dataAsOf := page.dataAsOf
  watermark := page.watermark

def Gathered.extend (g : Gathered) (page : SnapshotPage) : Gathered where
  entityIds := g.entityIds ++ page.entityIds.getD []
  scores := page.scores ∪ g.scores
  evidenceRefs := page.evidenceRefs ∪ g.evidenceRefs
  dataAsOf := page.dataAsOf
  watermark := page.watermark

/-- The first `limit` entities by score, highest first. -/
def Gathered.limited (g : Gathered) (limit : Option Int) : Gathered :=
  match limit with
  | none => g
  | some limit =>
    if (g.entityIds.length : Int) > limit then
      let kept := slice (g.entityIds.insertionSort (fun i j => ¬ rankedBefore g.scores j i)) 0 limit
      { g with
        entityIds := kept
        scores := collect g.scores.lookup kept
        evidenceRefs := collect g.evidenceRefs.lookup kept }
    else g

structure DeepSeeMCPProvider where
  client : DeepSeeClient
  bitmapThreshold : Int

namespace DeepSeeMCPProvider

variable (self : DeepSeeMCPProvider)

/-- Pass a wire bitmap through without decoding it. -/
def bitmapResult (entityType : String) (page : SnapshotPage) : MCPResult where
  entityType
  entityIds := none
  membershipBitmap := page.membershipBitmap
  bitmapEncoding := page.bitmapEncoding
  scores := page.scores
  entityKeyType := supportedEntityKeyType
  dataAsOf := page.dataAsOf
  sourceWatermark := page.watermark
  evidenceRefs := page.evidenceRefs

/-- The body of the `while` loop of `_id_list_result`, with the pages still allowed. -/
def idListLoop (remaining : Nat) (g : Gathered) (cursor : Option String) : SyncProg Gathered :=
  match cursor with
  | none => pure g
  | some cursor =>
    match remaining with
    | 0 => throw (contractError ("Snapshot pagination exceeded " ++ toString maxPages ++
        " pages; refusing unbounded cursor chain."))
    | remaining + 1 => do
      let page ← fetchSnapshot self.client (some cursor)
      idListLoop remaining (g.extend page) page.nextCursor

def encodeAsBitmap (entityType : String) (g : Gathered) : Except Exn MCPResult := do
  let members ← self.client.bitMap64.ofIds g.entityIds
  return {
    entityType
    entityIds := none
    membershipBitmap := some (self.client.bitMap64.serialize members)
    bitmapEncoding := some supportedBitmapEncoding
    scores := g.scores
    entityKeyType := supportedEntityKeyType
    dataAsOf := g.dataAsOf
    sourceWatermark := g.watermark
    evidenceRefs := g.evidenceRefs }

/-- `_id_list_result` once all pages are there. -/
def resultOf (entityType : String) (g : Gathered) : Except Exn MCPResult :=
  if (g.entityIds.length : Int) ≥ self.bitmapThreshold then
    self.encodeAsBitmap entityType g
  else
    .ok {
      entityType
      entityIds := some g.entityIds
      membershipBitmap := none
      bitmapEncoding := none
      scores := g.scores
      entityKeyType := supportedEntityKeyType
      dataAsOf := g.dataAsOf
      sourceWatermark := g.watermark
      evidenceRefs := g.evidenceRefs }

def idListResult (entityType : String) (firstPage : SnapshotPage) (limit : Option Int) :
    SyncProg MCPResult := do
  let g ← self.idListLoop (maxPages - 1) (.ofPage firstPage) firstPage.nextCursor
  Prog.ofExcept (self.resultOf entityType (g.limited limit))

/-- Resolve current membership; the parameters of the request are not looked at. -/
def resolve (entityType : String) (limit : Option Int) : SyncProg MCPResult := do
  let firstPage ← fetchSnapshot self.client none
  match firstPage.membershipBitmap with
  | some _ => pure (bitmapResult entityType firstPage)
  | none => self.idListResult entityType firstPage limit

theorem idListLoop_collects (sync : DeepSeeSynchronizer) (hc : sync.client = self.client)
    (remaining : Nat) (g : Gathered) (cursor : Option String) :
    (do
      let g ← self.idListLoop remaining g cursor
      pure (g.entityIds, g.scores, g.dataAsOf, g.watermark)) =
      sync.collectIdPagesLoop remaining g.entityIds g.scores g.dataAsOf g.watermark cursor := by
  induction remaining generalizing g cursor with
  | zero => cases cursor <;> rfl
  | succ remaining ih =>
    cases cursor with
    | none => rfl
    | some cursor =>
      rw [idListLoop, DeepSeeSynchronizer.collectIdPagesLoop, Prog.bind_assoc, hc]
      congr 1
      funext page
      exact ih (g.extend page) page.nextCursor

theorem resultOf_members (hB : Lawful self.client.bitMap64) {entityType : String} {g : Gathered}
    {r : MCPResult} (h : self.resultOf entityType g = .ok r) :
    r.members self.client.bitMap64 = some g.entityIds.toFinset ∧ r.sourceWatermark = g.watermark := by
  rw [resultOf] at h
  split at h
  · obtain ⟨members, hm, h⟩ := bind_eq_ok.mp h
    obtain rfl := Except.ok.inj h
    obtain ⟨hrange, rfl⟩ := BitMap64.ofIds_eq_ok.mp hm
    exact ⟨hB.roundTrips _ (fun i hi => hrange i (List.mem_toFinset.mp hi)), rfl⟩
  · obtain rfl := Except.ok.inj h
    exact ⟨rfl, rfl⟩

end DeepSeeMCPProvider

end ContextqlServer.Deepsee.McpProvider
