import ContextqlServer.Deepsee.Chains
import ContextqlServer.Deepsee.Fetch
import ContextqlServer.Lib.Pages

namespace ContextqlServer.Deepsee.Paging

open ContextqlServer.Lib.Effect ContextqlServer.Lib.Feed ContextqlServer.Lib.Mapping
open ContextqlServer.Lib.Pages ContextqlServer.Lib.Python
open ContextqlServer.Deepsee.Models ContextqlServer.Deepsee.MockService
open ContextqlServer.Deepsee.Client ContextqlServer.Deepsee.Store
open ContextqlServer.Deepsee.Synchronizer ContextqlServer.Deepsee.McpProvider
open ContextqlServer.Deepsee.Wire ContextqlServer.Deepsee.Chains ContextqlServer.Deepsee.Machine
open ContextqlServer.Deepsee.History ContextqlServer.Deepsee.Fetch ContextqlServer.Deepsee.Bootstrap

section Following

/-- A service that answers each request as it likes, whatever it has answered before, and
the times at which the answers come. -/
structure Service where
  clock : Nat → Timestamp
  snapshots : Nat → Option String → SnapshotPage
  feeds : String → Nat → Option String → ChangeBatch

/-- The surroundings with such a service, and the number of fetches made. -/
def Service.handler (S : Service) : Handler syncSig Exn (World × Nat) where
  perform
    | .fetchSnapshot client cursor, (w, n) => (receiveSnapshot client (S.clock n) (S.snapshots n cursor), (w, n + 1))
    | .fetchChanges client since cursor, (w, n) =>
      (receiveChanges client (S.clock n) (S.feeds since n cursor), (w, n + 1))
    | o, (w, n) => ((World.perform o w).1, ((World.perform o w).2, n))
  fault _ := none

variable (S : Service)

abbrev Service.snapshotPage : Nat → SnapshotPage := page SnapshotPage.nextCursor S.snapshots

abbrev Service.batch (since : String) : Nat → ChangeBatch := page ChangeBatch.nextCursor (S.feeds since)

/-- What the first pages add up to. -/
def Service.gathered (S : Service) : Nat → Gathered
  | 0 => .ofPage (S.snapshotPage 0)
  | n + 1 => (S.gathered n).extend (S.snapshotPage (n + 1))

def Service.eventsBefore (since : String) (n : Nat) : List ChangeEvent :=
  (List.range n).flatMap (fun i => (S.batch since i).events)

variable {S} {w : World} {c : DeepSeeClient} {since : String}

theorem gathered_entityIds (n : Nat) :
    (S.gathered n).entityIds = (List.range (n + 1)).flatMap (fun i => listed (S.snapshotPage i)) := by
  induction n with
  | zero => exact (List.append_nil _).symm
  | succ n ih =>
    rw [List.range_succ, List.flatMap_append, ← ih, List.flatMap_singleton]
    rfl

theorem exec_fetchSnapshot {n : Nat} (h : Accepted c (S.clock n) (S.snapshotPage n)) :
    S.handler.exec (fetchSnapshot c (cursor SnapshotPage.nextCursor S.snapshots n)) (w, n) =
      (.ok (S.snapshotPage n), (w, n + 1)) := by
  refine (S.handler.exec_perform (.fetchSnapshot c _) (w, n)).trans ?_
  rw [Service.snapshotPage, page_eq] at h ⊢
  exact congrArg (·, (w, n + 1)) (receiveSnapshot_ok.mpr ⟨h, rfl⟩)

theorem exec_fetchChanges {n : Nat} (h : Fresh c (S.clock n) (S.batch since n).dataAsOf) :
    S.handler.exec (fetchChanges c since (cursor ChangeBatch.nextCursor (S.feeds since) n)) (w, n) =
      (.ok (S.batch since n), (w, n + 1)) := by
  refine (S.handler.exec_perform (.fetchChanges c since _) (w, n)).trans ?_
  rw [Service.batch, page_eq] at h ⊢
  exact congrArg (·, (w, n + 1)) (receiveChanges_ok.mpr ⟨h, rfl⟩)

def AcceptedPages (c : DeepSeeClient) (S : Service) : Prop :=
  ∀ i < maxPages, Reached SnapshotPage.nextCursor S.snapshots i → Accepted c (S.clock i) (S.snapshotPage i)

def AcceptedBatches (c : DeepSeeClient) (S : Service) (since : String) : Prop :=
  ∀ i < maxPages, Reached ChangeBatch.nextCursor (S.feeds since) i →
    Fresh c (S.clock i) (S.batch since i).dataAsOf

theorem exec_idListLoop (provider : DeepSeeMCPProvider) (haccepted : AcceptedPages provider.client S)
    {remaining i : Nat} (hi : i + 1 + remaining = maxPages) (hreached : Reached SnapshotPage.nextCursor S.snapshots i) :
    (∀ j < maxPages, i ≤ j → EndsAt SnapshotPage.nextCursor S.snapshots j →
      S.handler.exec (provider.idListLoop remaining (S.gathered i) (S.snapshotPage i).nextCursor) (w, i + 1) =
        (.ok (S.gathered j), (w, j + 1))) ∧
    (Reached SnapshotPage.nextCursor S.snapshots maxPages → ∃ e, IsContractError e ∧
      S.handler.exec (provider.idListLoop remaining (S.gathered i) (S.snapshotPage i).nextCursor) (w, i + 1) =
        (.error e, (w, maxPages))) := by
  induction remaining generalizing i with
  | zero =>
    constructor
    · intro j hj hij hends
      obtain rfl : j = i := by omega
      rw [hends.2]
      rfl
    · intro hall
      obtain ⟨cursor, hcursor⟩ := Option.ne_none_iff_exists'.mp (hall i (by omega))
      have hreached' : (S.snapshotPage i).nextCursor = some cursor := hcursor
      rw [hreached', ← hi]
      exact ⟨_, isContractError _, rfl⟩
  | succ remaining ih =>
    cases hnext : (S.snapshotPage i).nextCursor with
    | none =>
      constructor
      · intro j hj hij hends
        rcases hij.eq_or_lt with rfl | hlt
        · rfl
        · exact absurd hnext (hends.next_ne_none hlt)
      · intro hall
        exact absurd hnext (hall i (by omega))
    | some next =>
      have hsucc : Reached SnapshotPage.nextCursor S.snapshots (i + 1) :=
        hreached.succ (fun hnone => nomatch hnext.symm.trans hnone)
      have hcursor : cursor SnapshotPage.nextCursor S.snapshots (i + 1) = some next := hnext
      have hfetch := exec_fetchSnapshot (w := w) (haccepted (i + 1) (by omega) hsucc)
      rw [hcursor] at hfetch
      obtain ⟨hends, hlong⟩ := ih (by omega) hsucc
      rw [DeepSeeMCPProvider.idListLoop, Handler.exec_bind _ hfetch]
      constructor
      · intro j hj hij hend
        rcases hij.eq_or_lt with rfl | hlt
        · exact absurd hend.2 (fun hnone => nomatch hnext.symm.trans hnone)
        · exact hends j hj hlt hend
      · exact hlong

theorem exec_fetchAllChangesLoop (sync : DeepSeeSynchronizer) (haccepted : AcceptedBatches sync.client S since)
    {remaining i : Nat} (hi : i + remaining = maxPages)
    (hreached : Reached ChangeBatch.nextCursor (S.feeds since) i) :
    (∀ j < maxPages, i ≤ j → EndsAt ChangeBatch.nextCursor (S.feeds since) j →
      S.handler.exec (sync.fetchAllChangesLoop since remaining (S.eventsBefore since i)
          (cursor ChangeBatch.nextCursor (S.feeds since) i)) (w, i) =
        (.ok (S.eventsBefore since (j + 1), (S.batch since j).dataAsOf), (w, j + 1))) ∧
    (Reached ChangeBatch.nextCursor (S.feeds since) maxPages → ∃ e, IsContractError e ∧
      S.handler.exec (sync.fetchAllChangesLoop since remaining (S.eventsBefore since i)
          (cursor ChangeBatch.nextCursor (S.feeds since) i)) (w, i) =
        (.error e, (w, maxPages))) := by
  induction remaining generalizing i with
  | zero =>
    constructor
    · intro j hj hij
      exact absurd hj (by omega)
    · intro _
      rw [← hi]
      exact ⟨_, isContractError _, rfl⟩
  | succ remaining ih =>
    have hfetch : S.handler.exec (fetchChanges sync.client since (cursor ChangeBatch.nextCursor (S.feeds since) i))
        (w, i) = _ := exec_fetchChanges (haccepted i (by omega) hreached)
    have hevents : S.eventsBefore since i ++ (S.batch since i).events = S.eventsBefore since (i + 1) := by
      rw [Service.eventsBefore, Service.eventsBefore, List.range_succ, List.flatMap_append, List.flatMap_singleton]
    rw [DeepSeeSynchronizer.fetchAllChangesLoop, Handler.exec_bind _ hfetch, hevents]
    cases hnext : (S.batch since i).nextCursor with
    | none =>
      constructor
      · intro j hj hij hends
        rcases hij.eq_or_lt with rfl | hlt
        · rfl
        · exact absurd hnext (hends.next_ne_none hlt)
      · intro hall
        exact absurd hnext (hall i (by omega))
    | some next =>
      have hsucc : Reached ChangeBatch.nextCursor (S.feeds since) (i + 1) :=
        hreached.succ (fun hnone => nomatch hnext.symm.trans hnone)
      obtain ⟨hends, hlong⟩ := ih (by omega) hsucc
      rw [cursor, hnext] at hends hlong
      constructor
      · intro j hj hij hend
        rcases hij.eq_or_lt with rfl | hlt
        · exact absurd hend.2 (fun hnone => nomatch hnext.symm.trans hnone)
        · exact hends j hj hlt hend
      · exact hlong

/-- A run that follows the cursors: to the outcome that the chain has at its end, within `maxPages`
fetches, or to the refusal of a longer chain. The world stays as it is. -/
structure Followed {P β : Type} (next : P → Option String) (answer : Nat → Option String → P)
    (outcome : Nat → Except Exn β) (w : World) (run : Except Exn β × (World × Nat)) : Prop where
  ends : ∀ j < maxPages, EndsAt next answer j → run = (outcome j, (w, j + 1))
  long : Reached next answer maxPages → ∃ e, IsContractError e ∧ run = (.error e, (w, maxPages))

/-- At most `maxPages` fetches that leave the world as it is, a result exactly for a chain that ends
within them, and otherwise a contract error. -/
structure Bounded {P β : Type} (next : P → Option String) (answer : Nat → Option String → P)
    (whole : Nat → β → Prop) (w : World) (run : Except Exn β × (World × Nat)) : Prop where
  fetches : run.2.2 ≤ maxPages
  untouched : run.2.1 = w
  succeeds : (∃ b, run.1 = .ok b) ↔ ∃ j < maxPages, EndsAt next answer j
  yields : ∀ j < maxPages, EndsAt next answer j → ∃ b, run.1 = .ok b ∧ whole j b
  refuses : ∀ e, run.1 = .error e → IsContractError e

theorem Followed.bounded {P β : Type} {next : P → Option String} {answer : Nat → Option String → P}
    {outcome : Nat → Except Exn β} {whole : Nat → β → Prop} {run : Except Exn β × (World × Nat)}
    (h : Followed next answer outcome w run)
    (hwhole : ∀ j < maxPages, EndsAt next answer j → ∃ b, outcome j = .ok b ∧ whole j b) :
    Bounded next answer whole w run := by
  obtain ⟨j, hj, hends⟩ | hlong := ends_or_reached next answer maxPages
  · obtain ⟨b, hb, -⟩ := hwhole j hj hends
    have hrun := h.ends j hj hends
    rw [hb] at hrun
    subst hrun
    constructor
    · exact hj
    · rfl
    · exact iff_of_true ⟨b, rfl⟩ ⟨j, hj, hends⟩
    · intro j' hj' hends'
      obtain ⟨b', hb', hwhole'⟩ := hwhole j' hj' hends'
      exact ⟨b', (congrArg Prod.fst (h.ends j' hj' hends')).trans hb', hwhole'⟩
    · exact nofun
  · obtain ⟨e, he, hrun⟩ := h.long hlong
    subst hrun
    have hnone : ¬ ∃ j < maxPages, EndsAt next answer j := by
      rintro ⟨j, hj, hends⟩
      exact hlong j hj hends.2
    constructor
    · exact le_refl maxPages
    · rfl
    · exact iff_of_false (by rintro ⟨b, ⟨⟩⟩) hnone
    · exact fun j hj hends => absurd ⟨j, hj, hends⟩ hnone
    · intro e' he'
      obtain rfl := Except.error.inj he'
      exact he

theorem followed_idListLoop (provider : DeepSeeMCPProvider) (haccepted : AcceptedPages provider.client S) :
    Followed SnapshotPage.nextCursor S.snapshots (fun j => .ok (S.gathered j)) w
      (S.handler.exec (provider.idListLoop (maxPages - 1) (.ofPage (S.snapshotPage 0)) (S.snapshotPage 0).nextCursor)
        (w, 1)) := by
  have hfirst : Reached SnapshotPage.nextCursor S.snapshots 0 := fun i hi => absurd hi (Nat.not_lt_zero i)
  obtain ⟨hends, hlong⟩ := exec_idListLoop (w := w) provider haccepted
    (by decide : 0 + 1 + (maxPages - 1) = maxPages) hfirst
  exact ⟨fun j hj hend => hends j hj (Nat.zero_le j) hend, hlong⟩

def collected (g : Gathered) : List Int × Dict Int Float64 × WireTime × String :=
  (g.entityIds, g.scores, g.dataAsOf, g.watermark)

theorem followed_collectIdPages (sync : DeepSeeSynchronizer) (haccepted : AcceptedPages sync.client S) :
    Followed SnapshotPage.nextCursor S.snapshots (fun j => .ok (collected (S.gathered j))) w
      (S.handler.exec (sync.collectIdPages (S.snapshotPage 0)) (w, 1)) := by
  have hfollowed := followed_idListLoop (w := w) ⟨sync.client, 0⟩ haccepted
  have hcollects : sync.collectIdPages (S.snapshotPage 0) = _ :=
    (DeepSeeMCPProvider.idListLoop_collects ⟨sync.client, 0⟩ sync rfl (maxPages - 1) (.ofPage (S.snapshotPage 0))
      (S.snapshotPage 0).nextCursor).symm
  rw [hcollects]
  constructor
  · intro j hj hend
    exact Handler.exec_bind _ (hfollowed.ends j hj hend)
  · intro hlong
    obtain ⟨e, he, hexec⟩ := hfollowed.long hlong
    exact ⟨e, he, Handler.exec_bind_error _ hexec⟩

theorem followed_fetchAllChanges (sync : DeepSeeSynchronizer) (haccepted : AcceptedBatches sync.client S since) :
    Followed ChangeBatch.nextCursor (S.feeds since)
      (fun j => .ok (S.eventsBefore since (j + 1), (S.batch since j).dataAsOf)) w
      (S.handler.exec (sync.fetchAllChanges since) (w, 0)) := by
  have hfirst : Reached ChangeBatch.nextCursor (S.feeds since) 0 := fun i hi => absurd hi (Nat.not_lt_zero i)
  obtain ⟨hends, hlong⟩ := exec_fetchAllChangesLoop (w := w) sync haccepted (Nat.zero_add _) hfirst
  exact ⟨fun j hj hend => hends j hj (Nat.zero_le j) hend, hlong⟩

end Following

section Results

structure Yields (B : BitMap64) (r : MCPResult) (g : Gathered) : Prop where
  members : r.members B = some g.entityIds.toFinset
  ordered : r.membershipBitmap = none → r.entityIds = some g.entityIds
  scores : r.scores = g.scores
  watermark : r.sourceWatermark = g.watermark

variable {provider : DeepSeeMCPProvider} {entityType : String} {g : Gathered}

/-- Ids of which the provider makes a bitmap fit into one. -/
def Fits (threshold : Int) (g : Gathered) : Prop :=
  threshold ≤ (g.entityIds.length : Int) → ∀ i ∈ g.entityIds, 0 ≤ i ∧ i < 2 ^ 64

theorem yields_of_fits (hB : Lawful provider.client.bitMap64) (h : Fits provider.bitmapThreshold g) :
    ∃ r, provider.resultOf entityType g = .ok r ∧ Yields provider.client.bitMap64 r g := by
  rw [DeepSeeMCPProvider.resultOf]
  by_cases hthreshold : provider.bitmapThreshold ≤ (g.entityIds.length : Int)
  · have hfits := h hthreshold
    rw [if_pos hthreshold, DeepSeeMCPProvider.encodeAsBitmap, BitMap64.ofIds_eq_ok.mpr ⟨hfits, rfl⟩]
    refine ⟨_, rfl, ?_, fun hnone => absurd hnone (Option.some_ne_none _), rfl, rfl⟩
    exact hB.roundTrips _ (fun i hi => hfits i (List.mem_toFinset.mp hi))
  · rw [if_neg hthreshold]
    exact ⟨_, rfl, rfl, fun _ => rfl, rfl, rfl⟩

theorem fits_of_ok {r : MCPResult} (h : provider.resultOf entityType g = .ok r) : Fits provider.bitmapThreshold g := by
  intro hthreshold
  by_contra hnot
  obtain ⟨message, hids⟩ := provider.client.bitMap64.ofIds_overflows hnot
  rw [DeepSeeMCPProvider.resultOf, if_pos hthreshold, DeepSeeMCPProvider.encodeAsBitmap, hids] at h
  cases h

variable {S : Service} {w : World} {limit : Option Int}

theorem followed_idListResult (entityType : String) (limit : Option Int) (haccepted : AcceptedPages provider.client S) :
    Followed SnapshotPage.nextCursor S.snapshots
      (fun j => provider.resultOf entityType ((S.gathered j).limited limit)) w
      (S.handler.exec (provider.idListResult entityType (S.snapshotPage 0) limit) (w, 1)) := by
  have hfollowed := followed_idListLoop (w := w) provider haccepted
  constructor
  · intro j hj hend
    exact (Handler.exec_bind _ (hfollowed.ends j hj hend)).trans (S.handler.exec_ofExcept _ _)
  · intro hlong
    obtain ⟨e, he, hexec⟩ := hfollowed.long hlong
    exact ⟨e, he, Handler.exec_bind_error _ hexec⟩

theorem bounded_idListResult_iff (provider : DeepSeeMCPProvider)
    (hB : Lawful provider.client.bitMap64) (haccepted : AcceptedPages provider.client S) :
    Bounded SnapshotPage.nextCursor S.snapshots
        (fun j r => Yields provider.client.bitMap64 r ((S.gathered j).limited limit)) w
        (S.handler.exec (provider.idListResult entityType (S.snapshotPage 0) limit) (w, 1)) ↔
      ∀ j < maxPages, EndsAt SnapshotPage.nextCursor S.snapshots j →
        Fits provider.bitmapThreshold ((S.gathered j).limited limit) := by
  have hfollowed := followed_idListResult (w := w) entityType limit haccepted
  constructor
  · intro h j hj hend
    obtain ⟨r, hr, -⟩ := h.yields j hj hend
    rw [hfollowed.ends j hj hend] at hr
    exact fits_of_ok hr
  · intro hfits
    exact hfollowed.bounded (fun j hj hend => yields_of_fits hB (hfits j hj hend))

end Results

section AtRest

variable {s : MockDeepSeeService} {B : BitMap64} {token : Option String} {initial : Dict Int Float64}

theorem snapshot_pages (hp : 0 < s.pageSize) (hm : s.bitmapSnapshot = false) (htoken : s.enterCall token = .ok ()) :
    ∃ pages, Follows (fun cursor => s.snapshot B cursor token) SnapshotPage.nextCursor none pages ∧
      pages.length = pageCount s.pageSize s.members.keys.card ∧ pages.flatMap listed = memberIds s := by
  have hask : ∀ o cursor, MockDeepSeeService.offsetOf cursor = .ok ((o : Nat) : Int) →
      s.snapshot B cursor token = .ok (idPage s o) := by
    intro o cursor ho
    rw [snapshot_ids hm ho, htoken]
    rfl
  have hcount : (memberIds s).length = s.members.keys.card := sorted_length _
  rw [← hcount]
  exact follows_slices hp (hask 0 none rfl) (fun o => hask o _ (offsetOf_toString o)) (fun _ => rfl) (fun _ => rfl)

def undelivered (s : MockDeepSeeService) (since : Int) : List ChangeEvent :=
  if s.redeliverFromStart then s.events else s.events.filter (fun e => numberOf e.watermark > since)

theorem pending_ok (h : Coherent initial s) (since : Int) :
    s.pending since = .ok ((layoutOf s).arrange (undelivered s since)) := by
  have hnum : ∀ e ∈ s.events, (do return decide ((← intOf e.watermark) > since)) =
      (.ok (decide (numberOf e.watermark > since)) : Except Exn Bool) := by
    intro e he
    obtain ⟨i, hi⟩ := List.mem_iff_getElem?.mp he
    rw [h.numberOf_watermark hi, h.watermark_eq hi, watermarkOf, intOf_zpad]
    rfl
  rw [MockDeepSeeService.pending, undelivered]
  split
  · rfl
  · rw [filterM_ok hnum]
    rfl

def changePage (s : MockDeepSeeService) (items : List ChangeEvent) (o : Nat) : ChangeBatch where
  events := (items.drop o).take s.pageSize
  dataAsOf := s.dataAsOf
  watermark := s.watermark
  nextCursor := if o + s.pageSize < items.length then some (toString ((o + s.pageSize : Nat) : Int)) else none

theorem changes_ok {sinceWatermark : String} {since : Int} {items : List ChangeEvent} {cursor : Option String} {o : Nat}
    (htoken : s.enterCall token = .ok ()) (hsince : intOf sinceWatermark = .ok since)
    (hitems : s.pending since = .ok items) (ho : MockDeepSeeService.offsetOf cursor = .ok (o : Int)) :
    s.changes sinceWatermark cursor token = .ok (changePage s items o) := by
  have hnext : s.nextCursorOf o (decide ((o : Int) + s.pageSize < items.length)) =
      (changePage s items o).nextCursor := by
    rw [MockDeepSeeService.nextCursorOf, changePage, ← Int.natCast_add]
    simp only [Int.ofNat_lt, decide_eq_true_eq]
  rw [MockDeepSeeService.changes, htoken, hsince]
  simp only [bind, Except.bind, hitems, ho, pure, Except.pure, hnext, slice_natCast]
  rfl

theorem changes_pages (h : Coherent initial s) (hp : 0 < s.pageSize) (htoken : s.enterCall token = .ok ())
    {sinceWatermark : String} {since : Int} (hsince : intOf sinceWatermark = .ok since) :
    ∃ pages, Follows (fun cursor => s.changes sinceWatermark cursor token) ChangeBatch.nextCursor none pages ∧
      pages.length = pageCount s.pageSize ((layoutOf s).copies * (undelivered s since).length) ∧
      pages.flatMap ChangeBatch.events = (layoutOf s).arrange (undelivered s since) := by
  have hask : ∀ o cursor, MockDeepSeeService.offsetOf cursor = .ok ((o : Nat) : Int) →
      s.changes sinceWatermark cursor token =
        .ok (changePage s ((layoutOf s).arrange (undelivered s since)) o) :=
    fun o cursor ho => changes_ok htoken hsince (pending_ok h since) ho
  rw [← Layout.length_arrange]
  exact follows_slices hp (hask 0 none rfl) (fun o => hask o _ (offsetOf_toString o)) (fun _ => rfl) (fun _ => rfl)

end AtRest

/-- The three loops follow any cursors within the bound, up to the ids of which the provider cannot
make a bitmap, and a mock service at rest hands out what it has to deliver in as few pages as hold it. -/
theorem paging_iff (S : Service) (w : World) (sync : DeepSeeSynchronizer) (threshold : Int) (entityType : String)
    (limit : Option Int) (since : String) (hB : Lawful sync.client.bitMap64) (hpages : AcceptedPages sync.client S)
    (hbatches : AcceptedBatches sync.client S since) :
    (Bounded SnapshotPage.nextCursor S.snapshots
        (fun j r => Yields sync.client.bitMap64 r ((S.gathered j).limited limit)) w
        (S.handler.exec (DeepSeeMCPProvider.idListResult ⟨sync.client, threshold⟩ entityType (S.snapshotPage 0) limit)
          (w, 1)) ↔
      ∀ j < maxPages, EndsAt SnapshotPage.nextCursor S.snapshots j → Fits threshold ((S.gathered j).limited limit)) ∧
    Bounded SnapshotPage.nextCursor S.snapshots
      (fun j found => found = ((List.range (j + 1)).flatMap (fun i => listed (S.snapshotPage i)),
        (S.gathered j).scores, (S.gathered j).dataAsOf, (S.gathered j).watermark)) w
      (S.handler.exec (sync.collectIdPages (S.snapshotPage 0)) (w, 1)) ∧
    Bounded ChangeBatch.nextCursor (S.feeds since)
      (fun j found => found = ((List.range (j + 1)).flatMap (fun i => (S.batch since i).events),
        (S.batch since j).dataAsOf)) w
      (S.handler.exec (sync.fetchAllChanges since) (w, 0)) ∧
    (∀ j, (S.gathered j).entityIds = (List.range (j + 1)).flatMap (fun i => listed (S.snapshotPage i))) ∧
    ∀ (initial : Dict Int Float64) (s : MockDeepSeeService) (B : BitMap64) (token : Option String) (text : String)
      (number : Int), Coherent initial s → 0 < s.pageSize → s.enterCall token = .ok () → intOf text = .ok number →
      (s.bitmapSnapshot = false →
        ∃ pages, Follows (fun cursor => s.snapshot B cursor token) SnapshotPage.nextCursor none pages ∧
          pages.length = pageCount s.pageSize s.members.keys.card ∧
          pages.flatMap listed = sorted s.members.keys) ∧
      ∃ pages, Follows (fun cursor => s.changes text cursor token) ChangeBatch.nextCursor none pages ∧
        pages.length = pageCount s.pageSize ((layoutOf s).copies * (undelivered s number).length) ∧
        pages.flatMap ChangeBatch.events = (layoutOf s).arrange (undelivered s number) := by
  refine ⟨bounded_idListResult_iff ⟨sync.client, threshold⟩ hB hpages, ?_, ?_, gathered_entityIds, ?_⟩
  · apply (followed_collectIdPages sync hpages).bounded
    intro j _ _
    refine ⟨_, rfl, ?_⟩
    rw [collected, gathered_entityIds]
  · apply (followed_fetchAllChanges sync hbatches).bounded
    exact fun j _ _ => ⟨_, rfl, rfl⟩
  · intro initial s B token text number hs hp htoken hnumber
    exact ⟨fun hm => snapshot_pages hp hm htoken, changes_pages hs hp htoken hnumber⟩

section Sample

/-- A service whose pages follow each other, an answer a minute, and whose change feed is empty. -/
def pageChain (pages : List (List Int)) : Service where
  clock n := baseTime + n * (60 * second)
  snapshots n _ :=
    samplePage pages[n]? none (if n + 1 < pages.length then some (toString (n + 1)) else none)
  feeds _ _ _ := ⟨[], .iso 0, watermarkOf 0, none⟩

theorem pageChain_reached {pages : List (List Int)} {i : Nat}
    (h : Reached SnapshotPage.nextCursor (pageChain pages).snapshots (i + 1)) : i + 1 < pages.length := by
  by_contra hlast
  have hnext : ((pageChain pages).snapshotPage i).nextCursor ≠ none := h i (Nat.lt_succ_self i)
  rw [Service.snapshotPage, page_eq] at hnext
  exact hnext (if_neg hlast)

theorem pageChain_accepted {pages : List (List Int)} (hpages : pages ≠ []) (h : ∀ ids ∈ pages, ∀ i ∈ ids, 0 ≤ i) :
    AcceptedPages sampleSync.client (pageChain pages) := by
  intro i _ hreached
  have hlt : i < pages.length := by
    cases i with
    | zero => exact List.length_pos_of_ne_nil hpages
    | succ i => exact pageChain_reached hreached
  rw [Service.snapshotPage, page_eq]
  change Accepted sampleClient _ (samplePage pages[i]? none _)
  rw [List.getElem?_eq_getElem hlt]
  exact accepted_ids (h _ (List.getElem_mem hlt)) _

/-- Three pages, of which the limit keeps two ids. -/
theorem paging_iff_sample :
    Bounded SnapshotPage.nextCursor (pageChain [[1, 2], [3], [2, 4]]).snapshots
        (fun j r => Yields unaryBitMap64 r (((pageChain [[1, 2], [3], [2, 4]]).gathered j).limited (some 2)))
        sampleWorld
        ((pageChain [[1, 2], [3], [2, 4]]).handler.exec
          (DeepSeeMCPProvider.idListResult ⟨sampleSync.client, 1⟩ "transaction"
            ((pageChain [[1, 2], [3], [2, 4]]).snapshotPage 0) (some 2))
          (sampleWorld, 1)) ↔
      ∀ j < maxPages, EndsAt SnapshotPage.nextCursor (pageChain [[1, 2], [3], [2, 4]]).snapshots j →
        Fits 1 (((pageChain [[1, 2], [3], [2, 4]]).gathered j).limited (some 2)) :=
  (paging_iff (pageChain [[1, 2], [3], [2, 4]]) sampleWorld sampleSync 1 "transaction" (some 2) "0"
    unaryBitMap64_lawful (pageChain_accepted (by decide) (by decide))
    (fun _ _ _ _ hbound => (by cases hbound))).1

/-- One page with an id beyond the 64 bits of a bitmap passes the client, and breaks the encoding. -/
theorem id_list_result_overflows :
    AcceptedPages sampleSync.client (pageChain [[2 ^ 64]]) ∧
      EndsAt SnapshotPage.nextCursor (pageChain [[2 ^ 64]]).snapshots 0 ∧
      (pageChain [[2 ^ 64]]).handler.exec
          (DeepSeeMCPProvider.idListResult ⟨sampleSync.client, 1⟩ "transaction"
            ((pageChain [[2 ^ 64]]).snapshotPage 0) none)
          (sampleWorld, 1) =
        (.error (.overflowError "an integer does not fit into 64 bits"), (sampleWorld, 1)) :=
  ⟨pageChain_accepted (by decide) (by decide), ⟨fun i hi => absurd hi (Nat.not_lt_zero i), rfl⟩, rfl⟩

end Sample

end ContextqlServer.Deepsee.Paging
