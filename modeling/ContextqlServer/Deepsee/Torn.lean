import ContextqlServer.Deepsee.Interference
import ContextqlServer.Deepsee.McpProvider

namespace ContextqlServer.Deepsee.Torn

open ContextqlServer.Lib.Effect ContextqlServer.Lib.Log ContextqlServer.Lib.Mapping
open ContextqlServer.Lib.Python ContextqlServer.Lib.Rely
open ContextqlServer.Deepsee.Models ContextqlServer.Deepsee.MockService
open ContextqlServer.Deepsee.Client ContextqlServer.Deepsee.Store
open ContextqlServer.Deepsee.Synchronizer ContextqlServer.Deepsee.McpProvider
open ContextqlServer.Deepsee.History ContextqlServer.Deepsee.Batch ContextqlServer.Deepsee.Bootstrap
open ContextqlServer.Deepsee.Consistency ContextqlServer.Deepsee.Machine
open ContextqlServer.Deepsee.Contiguous ContextqlServer.Deepsee.Rest
open ContextqlServer.Deepsee.Interference

variable {initial : Dict Int Float64} {μ : Schedule} {s t t' u : MockDeepSeeService}
  {w : World} {c' : World × Nat} {j : Nat}

/-- The members that the source had, between two of its states, when it reported the
watermark. -/
def Whole (first last : MockDeepSeeService) (members : Finset Int) (watermark : String) : Prop :=
  ∃ t, Mutates first t ∧ Mutates t last ∧ t.watermark = watermark ∧ t.members.keys = members

/-- No id that an earlier page has listed is gone when the last page is fetched, and
no id that the last page leaves to the earlier ones is missing from them. -/
structure Aligned (μ : Schedule) (s : MockDeepSeeService) (j : Nat) : Prop extends LastPage μ s j where
  kept : ∀ k < j, ∀ i ∈ pageIds (sourceAt μ s (k + 1)) (k * s.pageSize),
    i ∈ (sourceAt μ s (j + 1)).members
  covered : ∀ i ∈ (memberIds (sourceAt μ s (j + 1))).take (j * s.pageSize),
    ∃ k < j, i ∈ pageIds (sourceAt μ s (k + 1)) (k * s.pageSize)

def Untorn (μ : Schedule) (s : MockDeepSeeService) : Prop :=
  s.bitmapSnapshot = true ∨ ∃ j, Aligned μ s j

theorem LastPage.unique {k : Nat} (h : LastPage μ s j) (h' : LastPage μ s k) : j = k := by
  have hle : ∀ {a b : Nat}, LastPage μ s a → LastPage μ s b → a ≤ b := by
    intro a b ha hb
    refine Nat.le_of_not_lt (fun hlt => ?_)
    have hmore := ha.more b hlt
    have hends := hb.ends
    omega
  exact le_antisymm (hle h h') (hle h' h)

theorem mem_memberIds (i : Int) : i ∈ memberIds s ↔ i ∈ s.members := by
  rw [memberIds, mem_sorted, Finmap.mem_keys]

/-- The ids that come together are the members at the last page exactly when the
pages are aligned. -/
theorem listed_eq_iff (h : LastPage μ s j) :
    (sourceAt μ s (j + 1)).members.keys = (listed μ s (j + 1)).toFinset ↔ Aligned μ s j := by
  have hlast : pageIds (sourceAt μ s (j + 1)) (j * s.pageSize) =
      (memberIds (sourceAt μ s (j + 1))).drop (j * s.pageSize) := by
    have hends := h.ends
    rw [Nat.succ_mul] at hends
    rw [pageIds, pageSize_sourceAt, List.take_of_length_le]
    rw [List.length_drop]
    omega
  have hmem : ∀ i, i ∈ (sourceAt μ s (j + 1)).members ↔
      i ∈ (memberIds (sourceAt μ s (j + 1))).take (j * s.pageSize) ∨
        i ∈ (memberIds (sourceAt μ s (j + 1))).drop (j * s.pageSize) := by
    intro i
    rw [← mem_memberIds, ← List.mem_append, List.take_append_drop]
  have hlisted : ∀ i, i ∈ listed μ s (j + 1) ↔
      (∃ k < j, i ∈ pageIds (sourceAt μ s (k + 1)) (k * s.pageSize)) ∨
        i ∈ (memberIds (sourceAt μ s (j + 1))).drop (j * s.pageSize) := by
    intro i
    rw [listed_succ, List.mem_append, mem_listed, hlast]
  constructor
  · intro heq
    have hiff : ∀ i, i ∈ (sourceAt μ s (j + 1)).members ↔ i ∈ listed μ s (j + 1) := by
      intro i
      rw [← Finmap.mem_keys, heq, List.mem_toFinset]
    refine ⟨h, fun k hk i hi => ?_, fun i hi => ?_⟩
    · exact (hiff i).mpr ((hlisted i).mpr (.inl ⟨k, hk, hi⟩))
    · obtain hk | hdrop := (hlisted i).mp ((hiff i).mp ((hmem i).mpr (.inl hi)))
      · exact hk
      · -- the ids of one source are distinct, so the two parts of its list do not meet
        have hnodup : (memberIds (sourceAt μ s (j + 1))).Nodup := sorted_nodup _
        rw [← List.take_append_drop (j * s.pageSize) (memberIds _)] at hnodup
        exact absurd rfl ((List.nodup_append.mp hnodup).2.2 i hi i hdrop)
  · intro ha
    ext i
    rw [Finmap.mem_keys, List.mem_toFinset, hlisted, hmem]
    refine ⟨Or.imp_left (ha.covered i), ?_⟩
    rintro (⟨k, hk, hi⟩ | hdrop)
    · exact (hmem i).mp (ha.kept k hk i hi)
    · exact .inr hdrop

theorem members_of_watermark (ht : Coherent initial t) (ht' : Coherent initial t')
    (hu : Extends t u) (hu' : Extends t' u) (h : t.watermark = t'.watermark) :
    t.members = t'.members := by
  have hseq : t.events.length = t'.events.length := by
    rw [← ht.seq_eq, ← ht'.seq_eq]
    exact watermarkOf_injective h
  apply Finmap.ext_lookup
  intro x
  rw [ht.members_eq, ht'.members_eq, ← scoresAt_extend hu.events le_rfl,
    ← scoresAt_extend hu'.events le_rfl, hseq]

def Read (μ : Schedule) (s : MockDeepSeeService) (members : Finset Int) (j : Nat) : Prop :=
  s.bitmapSnapshot = true ∧ members = (sourceAt μ s (j + 1)).members.keys ∨
    s.bitmapSnapshot = false ∧ LastPage μ s j ∧ members = (listed μ s (j + 1)).toFinset

theorem Read.whole_iff {members : Finset Int} {last : MockDeepSeeService}
    (hs : Coherent initial s) (h : Read μ s members j)
    (hlast : Mutates (sourceAt μ s (j + 1)) last) :
    Whole s last members (sourceAt μ s (j + 1)).watermark ↔ Untorn μ s := by
  have hsource := mutates_sourceAt μ s (Nat.zero_le (j + 1))
  have hwhole : Whole s last members (sourceAt μ s (j + 1)).watermark ↔
      (sourceAt μ s (j + 1)).members.keys = members := by
    refine ⟨?_, fun hm => ⟨_, hsource, hlast, rfl, hm⟩⟩
    rintro ⟨t, ht, ht', hw, rfl⟩
    rw [members_of_watermark (hsource.coherent hs) (ht.coherent hs) hlast.grows ht'.grows hw.symm]
  rw [hwhole, Untorn]
  obtain ⟨hb, rfl⟩ | ⟨hb, hl, rfl⟩ := h
  · simp [hb]
  · rw [listed_eq_iff hl, hb]
    refine ⟨fun ha => .inr ⟨j, ha⟩, ?_⟩
    rintro (hb | ⟨k, ha⟩)
    · cases hb
    · obtain rfl := LastPage.unique hl ha.toLastPage
      exact ha

theorem exec_firstPage {client : DeepSeeClient} {page : SnapshotPage}
    (h : (interfered μ).exec (fetchSnapshot client none) (w, 0) = (.ok page, c')) :
    c' = (worldAt μ w 1, 1) ∧
      (w.service.bitmapSnapshot = true ∧ (∃ payload,
          (sourceAt μ w.service 1).bitmapPayload client.bitMap64 = .ok payload ∧
          page = bitmapPage (sourceAt μ w.service 1) payload) ∨
        w.service.bitmapSnapshot = false ∧ page = idPage (sourceAt μ w.service 1) 0) := by
  obtain ⟨rfl, hpage⟩ := exec_fetchSnapshot_interfered h
  refine ⟨rfl, ?_⟩
  have hb := (mutates_sourceAt μ w.service (Nat.zero_le 1)).grows.bitmapSnapshot
  cases hm : w.service.bitmapSnapshot with
  | true => exact .inl ⟨rfl, fetchSnapshot_bitmap_ok (hb.trans hm) hpage⟩
  | false => exact .inr ⟨rfl, ((fetchSnapshot_ids_ok (o := 0) (hb.trans hm) rfl).mp hpage).2.2⟩

theorem exec_collectIdPages {self : DeepSeeSynchronizer} (hm : w.service.bitmapSnapshot = false)
    {ids : List Int} {scores : Dict Int Float64} {dataAsOf : WireTime} {watermark : String}
    (h : (interfered μ).exec (self.collectIdPages (idPage (sourceAt μ w.service 1) 0))
      (worldAt μ w 1, 1) =
        (.ok (ids, scores, dataAsOf, watermark), c')) :
    ∃ j, LastPage μ w.service j ∧ ids = listed μ w.service (j + 1) ∧
      watermark = (sourceAt μ w.service (j + 1)).watermark ∧
      c' = (worldAt μ w (j + 1), j + 1) := by
  have hlisted : (idPage (sourceAt μ w.service 1) (0 * w.service.pageSize)).entityIds.getD [] =
      listed μ w.service (0 + 1) := by
    simp [listed, idPage]
  rw [DeepSeeSynchronizer.collectIdPages, ← Nat.zero_mul w.service.pageSize, hlisted] at h
  exact exec_collectIdPagesLoop rfl hm (maxPages - 1) 0 _ _ (fun i hi => absurd hi (Nat.not_lt_zero i)) h

theorem exec_ingest {self : DeepSeeSynchronizer} {members : Finset Int} {scores : Dict Int Float64}
    {dataAsOf : WireTime} {watermark : String} (hB : Lawful self.client.bitMap64)
    (h : (interfered μ).exec self.ingest (w, 0) = (.ok (members, scores, dataAsOf, watermark), c')) :
    ∃ j, Read μ w.service members j ∧ watermark = (sourceAt μ w.service (j + 1)).watermark ∧
      c' = (worldAt μ w (j + 1), j + 1) := by
  obtain ⟨page, c₁, hpage, h⟩ := Handler.exec_bind_ok.mp h
  obtain ⟨rfl, ⟨hm, payload, hpayload, rfl⟩ | ⟨hm, rfl⟩⟩ := exec_firstPage hpage
  · obtain ⟨ms, c₂, hd, h⟩ := Handler.exec_bind_ok.mp h
    cases hdec : self.client.decodeMembershipBitmap (bitmapPage (sourceAt μ w.service 1) payload) with
    | error e =>
      simp only [hdec, Prog.ofExcept, Handler.exec] at hd
      cases hd
    | ok ms' =>
      simp only [hdec, Prog.ofExcept, Handler.exec] at hd
      cases hd
      cases h
      exact ⟨0, .inl ⟨hm, decode_bitmapPage hB hpayload hdec⟩, rfl, rfl⟩
  · obtain ⟨⟨ids, sc, d, wm⟩, c₂, hloop, h⟩ := Handler.exec_bind_ok.mp h
    cases h
    obtain ⟨j, hl, rfl, rfl, rfl⟩ := exec_collectIdPages hm hloop
    exact ⟨j, .inr ⟨hm, hl, rfl⟩, rfl, rfl⟩

theorem exec_idListLoop {self : DeepSeeMCPProvider} {g : Gathered} (hm : w.service.bitmapSnapshot = false)
    (h : (interfered μ).exec (self.idListLoop (maxPages - 1)
      (.ofPage (idPage (sourceAt μ w.service 1) 0)) (idPage (sourceAt μ w.service 1) 0).nextCursor)
      (worldAt μ w 1, 1) = (.ok g, c')) :
    ∃ j, LastPage μ w.service j ∧ g.entityIds = listed μ w.service (j + 1) ∧
      g.watermark = (sourceAt μ w.service (j + 1)).watermark ∧
      c' = (worldAt μ w (j + 1), j + 1) := by
  have hpages : (interfered μ).exec (do
      let g ← self.idListLoop (maxPages - 1) (.ofPage (idPage (sourceAt μ w.service 1) 0))
        (idPage (sourceAt μ w.service 1) 0).nextCursor
      pure (g.entityIds, g.scores, g.dataAsOf, g.watermark))
      (worldAt μ w 1, 1) =
        (.ok (g.entityIds, g.scores, g.dataAsOf, g.watermark), c') :=
    Handler.exec_bind_ok.mpr ⟨g, c', h, rfl⟩
  rw [self.idListLoop_collects ⟨self.client, "", false, false, false, none, ∅⟩ rfl] at hpages
  exact exec_collectIdPages hm hpages

theorem exec_resolve {self : DeepSeeMCPProvider} {entityType : String} {result : MCPResult}
    (hB : Lawful self.client.bitMap64)
    (h : (interfered μ).exec (self.resolve entityType none) (w, 0) = (.ok result, c')) :
    ∃ j members, Read μ w.service members j ∧
      result.sourceWatermark = (sourceAt μ w.service (j + 1)).watermark ∧
      c' = (worldAt μ w (j + 1), j + 1) ∧
      result.members self.client.bitMap64 =
        if w.service.bitmapSnapshot ∧ w.service.malformedBitmap then none else some members := by
  obtain ⟨page, c₁, hpage, h⟩ := Handler.exec_bind_ok.mp h
  obtain ⟨rfl, ⟨hm, payload, hpayload, rfl⟩ | ⟨hm, rfl⟩⟩ := exec_firstPage hpage
  · cases h
    have hmal := (mutates_sourceAt μ w.service (Nat.zero_le 1)).grows.malformedBitmap
    refine ⟨0, _, .inl ⟨hm, rfl⟩, rfl, rfl, (deserialize_bitmapPayload hB hpayload).trans ?_⟩
    rw [hm, hmal]
    cases hb : w.service.malformedBitmap <;> simp [sourceAt, hb]
  · obtain ⟨g, c₂, hloop, h⟩ := Handler.exec_bind_ok.mp h
    obtain ⟨j, hl, hids, hwatermark, rfl⟩ := exec_idListLoop hm hloop
    cases hr : self.resultOf entityType g with
    | error e =>
      simp only [Gathered.limited, hr, Prog.ofExcept, Handler.exec] at h
      cases h
    | ok r =>
      simp only [Gathered.limited, hr, Prog.ofExcept, Handler.exec] at h
      cases h
      obtain ⟨hmembers, hw⟩ := self.resultOf_members hB hr
      refine ⟨j, _, .inr ⟨hm, hl, rfl⟩, hw.trans hwatermark, rfl, ?_⟩
      rw [hmembers, hids, hm]
      simp

/-- What a `bootstrap` has published and committed is whole, and a `sync_once` with
the source at rest ends with the source's members. -/
structure Stored (first last : World) (m : DeepSeeSynchronizer) : Prop where
  whole : ∃ s watermark, last.store = some s ∧ m.committedWatermark = some watermark ∧
    Whole first.service last.service s.members watermark
  follows : ∀ source, Mutates last.service source → ∀ now report m' w',
    AloneRuns (m.syncOnce now) { last with service := source } (.ok (report, m')) w' →
    ∃ s, w'.store = some s ∧ ∀ x, x ∈ s.members ↔ x ∈ source.members

/-- The part of `bootstrap` that comes after the reading. -/
theorem exec_published {self self' : DeepSeeSynchronizer} {snapshot staged : MembershipSnapshot}
    {c c' : World × Nat}
    (h : (interfered μ).exec (do
      let snapshot ← self.publishSnapshot staged
      if self.stateRepository then
        commitState self.contextId staged.sourceWatermark []
      pure (snapshot, { self with committedWatermark := some staged.sourceWatermark })) c =
        (.ok (snapshot, self'), c')) :
    c'.1.store = some staged ∧
      self' = { self with committedWatermark := some staged.sourceWatermark } := by
  refine Keeps.runs (I := fun _ => True) (Q := fun out w' => match out with
    | .ok (_, self') => w'.store = some staged ∧
        self' = { self with committedWatermark := some staged.sourceWatermark }
    | .error _ => True) Guarded.of_faulty (fun _ _ hw => hw) (fun _ _ _ _ => trivial)
    (runs_of_exec h) ?_
  refine .bind (publishSnapshot_keeps (R := SourceMoves) trivial (fun _ _ _ => SourceMoves.trans)
    (fun w₁ _ _ _ => ?_) (fun _ _ _ _ => trivial))
  refine Commits.keeps ?_
  rw [Commits]
  split
  · refine ⟨trivial, ?_⟩
    rintro w₂ ⟨source, clock, -, rfl⟩ -
    exact ⟨fun _ => trivial, fun _ => ⟨rfl, rfl⟩⟩
  · exact ⟨rfl, rfl⟩

theorem exec_bootstrap {self self' : DeepSeeSynchronizer} {now : Timestamp}
    {snapshot : MembershipSnapshot} (hB : Lawful self.client.bitMap64)
    (h : (interfered μ).exec (self.bootstrap now) (w, 0) = (.ok (snapshot, self'), c')) :
    ∃ j staged, Read μ w.service staged.members j ∧
      staged.sourceWatermark = (sourceAt μ w.service (j + 1)).watermark ∧
      c'.1.store = some staged ∧
      self' = { self with committedWatermark := some staged.sourceWatermark } ∧
      Mutates (sourceAt μ w.service (j + 1)) c'.1.service := by
  obtain ⟨⟨members, scores, dataAsOf, watermark⟩, c₁, hingest, h⟩ := Handler.exec_bind_ok.mp h
  obtain ⟨j, hread, hwatermark, rfl⟩ := exec_ingest hB hingest
  obtain ⟨asOf, c₂, hasOf, h⟩ := Handler.exec_bind_ok.mp h
  rw [Handler.exec_ofExcept] at hasOf
  obtain ⟨-, rfl⟩ := Prod.mk.inj hasOf
  obtain ⟨hstore, hself⟩ := exec_published h
  obtain ⟨hservice, hle⟩ := exec_source h rfl
  refine ⟨j, _, hread, hwatermark, hstore, hself, ?_⟩
  rw [hservice]
  exact mutates_sourceAt μ w.service hle

theorem seen_upTo {contextId : String} {c₀ c : System Unit} (h₀ : Fresh contextId c₀)
    (hr : System.Reaches (fun _ _ => True) c₀ c) :
    Coherent c₀.world.service.members c.world.service ∧ 0 < c.world.service.pageSize ∧
      eventIdsUpTo c.world.service.events.length (c.instances ()).memory.seenEventIds := by
  have hholds := h₀.holds.reaches bounding_sound
    (fun c a _ => ⟨.inl trivial, c.respects_true a⟩) hr
  refine ⟨hholds.world.1, hholds.world.2, ?_⟩
  obtain ⟨-, hseen⟩ | ⟨b, hlen, hb⟩ := (hholds.memory ()).2.2
  · rw [hseen]
    exact fun _ h => absurd h (by simp)
  · intro id hid
    obtain ⟨j, h₁, hj, rfl⟩ := hb.seen id hid
    exact ⟨j, h₁, hj.trans hlen, rfl⟩

/-- Whatever a source in use does during a `bootstrap` or a `resolve` without a limit,
what a successful call stores or returns is whole exactly when its pages are aligned;
a bitmap from the wire must also be one that can be read. -/
theorem whole_iff_untorn {contextId : String} {c₀ c : System Unit} (h₀ : Fresh contextId c₀)
    (hr : System.Reaches (fun _ _ => True) c₀ c) (μ : Schedule) :
    (Lawful (c.instances ()).memory.client.bitMap64 → ∀ now snapshot self' c',
      (interfered μ).exec ((c.instances ()).memory.bootstrap now) (c.world, 0) =
        (.ok (snapshot, self'), c') →
      (Stored c.world c'.1 self' ↔ Untorn μ c.world.service)) ∧
    ∀ provider : DeepSeeMCPProvider, Lawful provider.client.bitMap64 → ∀ entityType result c',
      (interfered μ).exec (provider.resolve entityType none) (c.world, 0) = (.ok result, c') →
      ((∃ members, result.members provider.client.bitMap64 = some members ∧
          Whole c.world.service c'.1.service members result.sourceWatermark) ↔
        Untorn μ c.world.service ∧
          ¬ (c.world.service.bitmapSnapshot ∧ c.world.service.malformedBitmap)) := by
  obtain ⟨hcoh, hp, hseen⟩ := seen_upTo h₀ hr
  constructor
  · intro hB now snapshot self' c' h
    obtain ⟨j, staged, hread, hwatermark, hstore, rfl, hlast⟩ := exec_bootstrap hB h
    rw [← hread.whole_iff hcoh hlast, ← hwatermark]
    constructor
    · rintro ⟨⟨s, watermark, hs, hw, hwhole⟩, -⟩
      obtain rfl := Option.some.inj (hstore.symm.trans hs)
      obtain rfl := Option.some.inj hw
      exact hwhole
    · refine fun hwhole => ⟨⟨staged, _, hstore, rfl, hwhole⟩, ?_⟩
      intro source hsource now report self' w' hsync
      obtain ⟨t, ht, ht', hw, hm⟩ := hwhole
      have hcoht := ht.coherent hcoh
      have hext : Extends t source := ht'.grows.trans hsource.grows
      have hcohs : Coherent c₀.world.service.members source :=
        hsource.coherent (ht'.coherent hcoht)
      have hwm : staged.sourceWatermark = watermarkOf t.events.length := by
        rw [← hw, MockDeepSeeService.watermark, hcoht.seq_eq]
      have hbounded : Bounded
          { (c.instances ()).memory with committedWatermark := some staged.sourceWatermark }
          t.events.length := by
        refine ⟨congrArg some hwm, fun id hid => ?_⟩
        obtain ⟨i, h₁, hi, rfl⟩ := hseen id hid
        exact ⟨i, h₁, hi.trans ht.grows.length_le, rfl⟩
      have hstored : StoreAt c₀.world.service.members t.events.length
          { c'.1 with service := source } := by
        refine ⟨staged, hstore, hwm, hext.length_le, fun x => ?_⟩
        rw [← hm, membersAt_extend hext.events le_rfl, ← Bool.coe_iff_coe, ← hcoht.mem_members,
          decide_eq_true_eq, Finmap.mem_keys]
      exact syncOnce_members hcohs ((hext.pageSize.trans ht.grows.pageSize).symm ▸ hp) hbounded
        le_rfl hstored hsync
  · intro provider hB entityType result c' h
    obtain ⟨j, members, hread, hwatermark, rfl, hmembers⟩ := exec_resolve hB h
    rw [hmembers, ← hread.whole_iff hcoh .refl, hwatermark]
    by_cases hbad : c.world.service.bitmapSnapshot ∧ c.world.service.malformedBitmap
    · simp [hbad]
    · simp [hbad]

/-- Four members on pages of two; one is removed between the two fetches. -/
def tornSystem : System Unit :=
  sampleSystem Unit (sampleService (collect (fun _ => some 1) [1, 2, 3, 4]) 2)

def removal : Schedule where
  mutations
    | 1 => [.removeMember 1]
    | _ => []
  clock k := baseTime + k * second

def tornBootstrap : Except Exn (MembershipSnapshot × DeepSeeSynchronizer) × World × Nat :=
  (interfered removal).exec (sampleSynchronizer.bootstrap 0) (tornSystem.world, 0)

def tornMemory : DeepSeeSynchronizer := (tornBootstrap.1.toOption.get (by decide)).2

/-- A `sync_once` after the torn `bootstrap`, with the source at rest. -/
def tornSync : Except Exn (SyncReport × DeepSeeSynchronizer) × World :=
  World.handler.exec (tornMemory.syncOnce 0) tornBootstrap.2.1

def tornProvider : DeepSeeMCPProvider := ⟨sampleSynchronizer.client, defaultBitmapThreshold⟩

def tornResolve : Except Exn MCPResult × World × Nat :=
  (interfered removal).exec (tornProvider.resolve "case" none) (tornSystem.world, 0)

theorem whole_iff_untorn_sample :
    (Stored tornSystem.world tornBootstrap.2.1 tornMemory ↔ Untorn removal tornSystem.world.service) ∧
    ((∃ members, (tornResolve.1.toOption.get (by decide)).members unaryBitMap64 = some members ∧
        Whole tornSystem.world.service tornResolve.2.1.service members
          (tornResolve.1.toOption.get (by decide)).sourceWatermark) ↔
      Untorn removal tornSystem.world.service ∧
        ¬ (tornSystem.world.service.bitmapSnapshot ∧ tornSystem.world.service.malformedBitmap)) := by
  have hfresh : Fresh "context" tornSystem := ⟨rfl, rfl, by decide, by decide, rfl, rfl, rfl, rfl⟩
  obtain ⟨hbootstrap, hresolve⟩ := whole_iff_untorn hfresh .refl removal
  exact ⟨hbootstrap unaryBitMap64_lawful 0 _ _ _ (exec_returned (by decide)),
    hresolve tornProvider unaryBitMap64_lawful "case" _ _ (exec_returned (by decide))⟩

/-- The removal shifts the second page by one: member 3 is on neither page and the
removed member 1 is on the first. The watermark is already that of the removal, so
`sync_once` finds nothing to do. -/
theorem removal_tears_snapshot :
    tornMemory.committedWatermark = some tornBootstrap.2.1.service.watermark ∧
    tornBootstrap.2.1.store.map (fun s => s.members) = some {1, 2, 4} ∧
    tornBootstrap.2.1.service.members.keys = {2, 3, 4} ∧
    tornSync.1.toOption.isSome ∧ tornSync.2.store.map (fun s => s.members) = some {1, 2, 4} ∧
    tornResolve.1.toOption.map (fun r => (r.members unaryBitMap64, r.sourceWatermark)) =
      some (some {1, 2, 4}, tornResolve.2.1.service.watermark) ∧
    tornResolve.2.1.service.members.keys = {2, 3, 4} ∧
    ¬ Stored tornSystem.world tornBootstrap.2.1 tornMemory := by
  refine ⟨by decide, by decide, by decide, by decide, by decide, by decide, by decide, fun h => ?_⟩
  have hsync : tornSync = (.ok (tornSync.1.toOption.get (by decide)), tornSync.2) :=
    exec_returned (by decide)
  obtain ⟨s, hs, hmembers⟩ := h.follows _ .refl 0 _ _ _ (aloneRuns_of_exec hsync)
  have hstore : tornSync.2.store.map (fun s => s.members) = some {1, 2, 4} := by decide
  rw [hs] at hstore
  have hstored : s.members = {1, 2, 4} := Option.some.inj hstore
  have hone := (hmembers 1).mp (hstored ▸ by decide)
  exact absurd hone (by decide)

end ContextqlServer.Deepsee.Torn
