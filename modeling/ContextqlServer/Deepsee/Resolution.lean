import ContextqlServer.Deepsee.Acceptance
import ContextqlServer.Deepsee.Paging

namespace ContextqlServer.Deepsee.Resolution

open ContextqlServer.Lib.Effect ContextqlServer.Lib.Mapping ContextqlServer.Lib.Python
open ContextqlServer.Deepsee.Models ContextqlServer.Deepsee.MockService
open ContextqlServer.Deepsee.Client ContextqlServer.Deepsee.Store
open ContextqlServer.Deepsee.Synchronizer ContextqlServer.Deepsee.McpProvider
open ContextqlServer.Deepsee.Bootstrap ContextqlServer.Deepsee.Acceptance ContextqlServer.Deepsee.Paging
open ContextqlServer.Deepsee.Machine

variable {s : MockDeepSeeService} {provider : DeepSeeMCPProvider} {entityType : String} {limit : Option Int}
  {clock : Nat → Timestamp} {w : World} {r : MCPResult}

section IdPages

/-- What the id pages of a source at rest add up to, up to the nth id. -/
def gatheredTo (s : MockDeepSeeService) (n : Nat) : Gathered where
  entityIds := (memberIds s).take n
  scores := collect s.members.lookup ((memberIds s).take n)
  evidenceRefs := collect (fun i => some (evidenceRef i)) ((memberIds s).take n)
  dataAsOf := s.dataAsOf
  watermark := s.watermark

/-- What all of them add up to. -/
def whole (s : MockDeepSeeService) : Gathered where
  entityIds := memberIds s
  scores := s.members
  evidenceRefs := collect (fun i => some (evidenceRef i)) (memberIds s)
  dataAsOf := s.dataAsOf
  watermark := s.watermark

theorem gatheredTo_whole {n : Nat} (h : (memberIds s).length ≤ n) : gatheredTo s n = whole s := by
  rw [gatheredTo, whole, List.take_of_length_le h, memberIds, collect_lookup_sorted]

theorem gatheredTo_zero : Gathered.ofPage (idPage s 0) = gatheredTo s s.pageSize := by
  rw [gatheredTo, Gathered.ofPage, idPage, pageIds, List.drop_zero]
  rfl

theorem gatheredTo_extend (o : Nat) : (gatheredTo s o).extend (idPage s o) = gatheredTo s (o + s.pageSize) := by
  rw [gatheredTo, gatheredTo, Gathered.extend, List.take_add, collect_append, collect_append]
  rfl

theorem drop_pages (s : MockDeepSeeService) (o : Nat) :
    (memberIds s).drop o = pageIds s o ++ (memberIds s).drop (o + s.pageSize) := by
  have hparts := List.take_append_drop s.pageSize ((memberIds s).drop o)
  rw [List.drop_drop] at hparts
  exact hparts.symm

/-- The pages from an offset on can be read: the client takes the settings whenever one of
them comes, and they are not too many. -/
structure Rest (c : DeepSeeClient) (clock : Nat → Timestamp) (s : MockDeepSeeService) (remaining o n : Nat) :
    Prop where
  accepts : ∀ k, o + k * s.pageSize < (memberIds s).length → accepts c (clock (n + k)) s = .ok ()
  nonnegative : ∀ i ∈ (memberIds s).drop o, 0 ≤ i
  pages : (memberIds s).length ≤ o + remaining * s.pageSize

theorem rest_succ {c : DeepSeeClient} {remaining o n : Nat} (hlast : o < (memberIds s).length) :
    Rest c clock s (remaining + 1) o n ↔ Bootstrap.accepts c (clock n) s = .ok () ∧ (∀ i ∈ pageIds s o, 0 ≤ i) ∧
      Rest c clock s remaining (o + s.pageSize) (n + 1) := by
  have hcount : o + (remaining + 1) * s.pageSize = o + s.pageSize + remaining * s.pageSize := by
    rw [Nat.succ_mul]
    omega
  have hnext : ∀ k, o + (k + 1) * s.pageSize = o + s.pageSize + k * s.pageSize := by
    intro k
    rw [Nat.succ_mul]
    omega
  constructor
  · intro h
    have hids := h.nonnegative
    rw [drop_pages, List.forall_mem_append] at hids
    refine ⟨h.accepts 0 (by omega), hids.1, ⟨?_, hids.2, hcount ▸ h.pages⟩⟩
    intro k hk
    rw [Nat.add_assoc, Nat.add_comm 1 k]
    exact h.accepts (k + 1) (hnext k ▸ hk)
  · rintro ⟨haccepts, hids, h⟩
    constructor
    · intro k hk
      cases k with
      | zero => exact haccepts
      | succ k =>
        rw [Nat.add_comm k 1, ← Nat.add_assoc]
        exact h.accepts k (hnext k ▸ hk)
    · rw [drop_pages, List.forall_mem_append]
      exact ⟨hids, h.nonnegative⟩
    · exact hcount ▸ h.pages

theorem exec_fetchSnapshot {cursor : Option String} {n : Nat} :
    (World.ticking clock).exec (fetchSnapshot provider.client cursor) (w, n) =
      (provider.client.fetchSnapshot (clock n) w.service cursor, (w, n + 1)) :=
  (World.ticking clock).exec_perform (.fetchSnapshot provider.client cursor) (w, n)

theorem rest_last {c : DeepSeeClient} {remaining o n : Nat} (hlast : (memberIds s).length ≤ o) :
    Rest c clock s remaining o n where
  accepts k hk := absurd (Nat.lt_of_le_of_lt (Nat.le_add_right _ _) hk) (Nat.not_lt.mpr hlast)
  nonnegative := by simp [List.drop_eq_nil_of_le hlast]
  pages := hlast.trans (Nat.le_add_right _ _)

theorem exec_idListLoop_last (provider : DeepSeeMCPProvider) (clock : Nat → Timestamp) {remaining o n : Nat}
    (hlast : ¬ o + s.pageSize < (memberIds s).length) :
    (World.ticking clock).exec
        (provider.idListLoop remaining (gatheredTo s (o + s.pageSize)) (idPage s o).nextCursor) (w, n) =
      (.ok (whole s), (w, n)) := by
  rw [idPage, if_neg hlast, gatheredTo_whole (Nat.not_lt.mp hlast)]
  cases remaining <;> rfl

theorem exec_idListLoop (provider : DeepSeeMCPProvider) (clock : Nat → Timestamp) (hm : s.bitmapSnapshot = false)
    (hs : w.service = s) (remaining o n : Nat) :
    (∀ g v, (World.ticking clock).exec
        (provider.idListLoop remaining (gatheredTo s (o + s.pageSize)) (idPage s o).nextCursor) (w, n) = (.ok g, v) →
      g = whole s ∧ v.1 = w ∧ Rest provider.client clock s remaining (o + s.pageSize) n) ∧
    (Rest provider.client clock s remaining (o + s.pageSize) n → ∃ m, (World.ticking clock).exec
        (provider.idListLoop remaining (gatheredTo s (o + s.pageSize)) (idPage s o).nextCursor) (w, n) =
      (.ok (whole s), (w, m))) := by
  induction remaining generalizing o n with
  | zero =>
    by_cases hlast : o + s.pageSize < (memberIds s).length
    · rw [idPage, if_pos hlast]
      constructor
      · intro g v h
        cases h
      · intro h
        have hpages := h.pages
        rw [Nat.zero_mul] at hpages
        omega
    · rw [exec_idListLoop_last provider clock hlast]
      constructor
      · intro g v h
        cases h
        exact ⟨rfl, rfl, rest_last (Nat.not_lt.mp hlast)⟩
      · exact fun _ => ⟨n, rfl⟩
  | succ remaining ih =>
    by_cases hlast : o + s.pageSize < (memberIds s).length
    · obtain ⟨hends, hreads⟩ := ih (o + s.pageSize) (n + 1)
      rw [idPage, if_pos hlast, rest_succ hlast, DeepSeeMCPProvider.idListLoop]
      constructor
      · intro g v h
        obtain ⟨page, v₁, hfetch, h⟩ := Handler.exec_bind_ok.mp h
        rw [exec_fetchSnapshot, hs] at hfetch
        obtain ⟨hpage, rfl⟩ := Prod.mk.inj hfetch
        obtain ⟨haccepts, hids, rfl⟩ := (fetchSnapshot_ids_ok hm (offsetOf_toString _)).mp hpage
        rw [gatheredTo_extend] at h
        obtain ⟨hg, hw, hrest⟩ := hends g v h
        exact ⟨hg, hw, haccepts, hids, hrest⟩
      · rintro ⟨haccepts, hids, hrest⟩
        have hpage := (fetchSnapshot_ids_ok hm (offsetOf_toString (o + s.pageSize))).mpr ⟨haccepts, hids, rfl⟩
        have hfetch : (World.ticking clock).exec (fetchSnapshot provider.client
            (some (toString ((o + s.pageSize : Nat) : Int)))) (w, n) = _ := exec_fetchSnapshot
        rw [hs, hpage] at hfetch
        rw [Handler.exec_bind _ hfetch, gatheredTo_extend]
        exact hreads hrest
    · rw [exec_idListLoop_last provider clock hlast]
      constructor
      · intro g v h
        cases h
        exact ⟨rfl, rfl, rest_last (Nat.not_lt.mp hlast)⟩
      · exact fun _ => ⟨n, rfl⟩

/-- The settings and the members are such that the source can be read over id pages: the client
takes the settings whenever a page comes. -/
structure Listable (c : DeepSeeClient) (clock : Nat → Timestamp) (s : MockDeepSeeService) : Prop where
  accepts : ∀ n, n = 0 ∨ n * s.pageSize < s.members.keys.card → accepts c (clock n) s = .ok ()
  nonnegative : ∀ i ∈ s.members, 0 ≤ i
  pages : s.members.keys.card ≤ maxPages * s.pageSize

theorem listable_iff {c : DeepSeeClient} : Listable c clock s ↔
    Bootstrap.accepts c (clock 0) s = .ok () ∧ (∀ i ∈ pageIds s 0, 0 ≤ i) ∧
      Rest c clock s (maxPages - 1) s.pageSize 1 := by
  have hlength : (memberIds s).length = s.members.keys.card := sorted_length _
  have hcount : s.pageSize + (maxPages - 1) * s.pageSize = maxPages * s.pageSize := by
    rw [maxPages]
    omega
  have hmem : (∀ i ∈ s.members, 0 ≤ i) ↔ ∀ i ∈ memberIds s, 0 ≤ i := by
    simp only [memberIds, mem_sorted, Finmap.mem_keys]
  have hsplit : (∀ i ∈ memberIds s, 0 ≤ i) ↔
      (∀ i ∈ pageIds s 0, 0 ≤ i) ∧ ∀ i ∈ (memberIds s).drop s.pageSize, 0 ≤ i := by
    have hpages := drop_pages s 0
    rw [List.drop_zero, Nat.zero_add] at hpages
    rw [← List.forall_mem_append, ← hpages]
  have hnext : ∀ k, s.pageSize + k * s.pageSize = (k + 1) * s.pageSize := by
    intro k
    rw [Nat.succ_mul]
    omega
  constructor
  · intro h
    obtain ⟨hfirst, hrest⟩ := hsplit.mp (hmem.mp h.nonnegative)
    refine ⟨h.accepts 0 (.inl rfl), hfirst, ⟨?_, hrest, ?_⟩⟩
    · intro k hk
      rw [Nat.add_comm]
      exact h.accepts (k + 1) (.inr (by rw [← hnext, ← hlength]; exact hk))
    · rw [hlength, hcount]
      exact h.pages
  · rintro ⟨haccepts, hfirst, hrest⟩
    refine ⟨?_, hmem.mpr (hsplit.mpr ⟨hfirst, hrest.nonnegative⟩), ?_⟩
    · intro n hn
      cases n with
      | zero => exact haccepts
      | succ k =>
        rw [Nat.add_comm]
        apply hrest.accepts k
        rw [hnext, hlength]
        exact hn.resolve_left (Nat.succ_ne_zero k)
    · rw [← hlength, ← hcount]
      exact hrest.pages

theorem resolve_ids (hm : w.service.bitmapSnapshot = false) :
    (∀ v, (World.ticking clock).exec (provider.resolve entityType limit) (w, 0) = (.ok r, v) →
      Listable provider.client clock w.service ∧
        provider.resultOf entityType ((whole w.service).limited limit) = .ok r ∧ v.1 = w) ∧
    (Listable provider.client clock w.service →
      provider.resultOf entityType ((whole w.service).limited limit) = .ok r →
      ∃ m, (World.ticking clock).exec (provider.resolve entityType limit) (w, 0) = (.ok r, (w, m))) := by
  have hzero : MockDeepSeeService.offsetOf none = .ok ((0 : Nat) : Int) := rfl
  obtain ⟨hends, hreads⟩ :=
    exec_idListLoop provider clock hm (rfl : w.service = w.service) (maxPages - 1) 0 1
  rw [Nat.zero_add, ← gatheredTo_zero] at hends hreads
  rw [listable_iff]
  constructor
  · intro v h
    obtain ⟨page, v₁, hfetch, h⟩ := Handler.exec_bind_ok.mp h
    rw [exec_fetchSnapshot] at hfetch
    obtain ⟨hpage, rfl⟩ := Prod.mk.inj hfetch
    obtain ⟨haccepts, hfirst, rfl⟩ := (fetchSnapshot_ids_ok hm hzero).mp hpage
    obtain ⟨g, v₂, hloop, h⟩ := Handler.exec_bind_ok.mp h
    obtain ⟨rfl, hw, hrest⟩ := hends g v₂ hloop
    rw [Handler.exec_ofExcept] at h
    obtain ⟨hresult, rfl⟩ := Prod.mk.inj h
    exact ⟨⟨haccepts, hfirst, hrest⟩, hresult, hw⟩
  · rintro ⟨haccepts, hfirst, hrest⟩ hresult
    have hpage := (fetchSnapshot_ids_ok hm hzero).mpr ⟨haccepts, hfirst, rfl⟩
    have hfetch : (World.ticking clock).exec (fetchSnapshot provider.client none) (w, 0) = _ := exec_fetchSnapshot
    rw [hpage] at hfetch
    obtain ⟨m, hloop⟩ := hreads hrest
    refine ⟨m, (Handler.exec_bind _ hfetch).trans ?_⟩
    refine (Handler.exec_bind _ hloop).trans ?_
    rw [Handler.exec_ofExcept, hresult]

end IdPages

section Bitmap

/-- The settings and the members are such that the source can be read as a bitmap. -/
structure Packable (c : DeepSeeClient) (now : Timestamp) (s : MockDeepSeeService) : Prop where
  accepts : accepts c now s = .ok ()
  range : ∀ i ∈ s.members, 0 ≤ i ∧ i < 2 ^ 64
  payload : (c.bitMap64.serialize s.members.keys).length ≤ c.maxPayloadBytes

theorem resolve_bitmap (hb : w.service.bitmapSnapshot = true) (hm : w.service.malformedBitmap = false)
    {v : World × Nat} :
    (World.ticking clock).exec (provider.resolve entityType limit) (w, 0) = (.ok r, v) ↔
      Packable provider.client (clock 0) w.service ∧
        r = DeepSeeMCPProvider.bitmapResult entityType
          (bitmapPage w.service (provider.client.bitMap64.serialize w.service.members.keys)) ∧ v = (w, 1) := by
  rw [DeepSeeMCPProvider.resolve, Handler.exec_bind_ok]
  simp only [exec_fetchSnapshot]
  constructor
  · rintro ⟨page, v₁, hfetch, h⟩
    obtain ⟨hpage, rfl⟩ := Prod.mk.inj hfetch
    obtain ⟨haccepts, hrange, hpayload, rfl⟩ := (fetchSnapshot_bitmap_iff hb hm).mp hpage
    cases h
    exact ⟨⟨haccepts, hrange, hpayload⟩, rfl, rfl⟩
  · rintro ⟨hpackable, rfl, rfl⟩
    have hpage : provider.client.fetchSnapshot (clock 0) w.service none = .ok _ :=
      (fetchSnapshot_bitmap_iff hb hm).mpr ⟨hpackable.accepts, hpackable.range, hpackable.payload, rfl⟩
    exact ⟨_, (w, 1), congrArg (·, (w, 1)) hpage, rfl⟩

end Bitmap

section Encodings

/-- The source sends its snapshot as a bitmap. -/
def asBitmap (w : World) : World :=
  { w with service := { w.service with bitmapSnapshot := true, malformedBitmap := false } }

/-- The source sends its snapshot as id pages. -/
def asIds (w : World) : World :=
  { w with service := { w.service with bitmapSnapshot := false } }

/-- Two results with the same decoded members, scores and evidence. -/
structure Alike (B : BitMap64) (r r' : MCPResult) : Prop where
  members : ∃ members, r.members B = some members ∧ r'.members B = some members
  scores : r.scores = r'.scores
  evidenceRefs : r.evidenceRefs = r'.evidenceRefs

theorem resultOf_maps {g : Gathered} (h : provider.resultOf entityType g = .ok r) :
    r.scores = g.scores ∧ r.evidenceRefs = g.evidenceRefs := by
  rw [DeepSeeMCPProvider.resultOf] at h
  split at h
  · obtain ⟨_, -, h⟩ := bind_eq_ok.mp h
    obtain rfl := Except.ok.inj h
    exact ⟨rfl, rfl⟩
  · obtain rfl := Except.ok.inj h
    exact ⟨rfl, rfl⟩

def Roomy (s : MockDeepSeeService) (limit : Option Int) : Prop :=
  ∀ k ∈ limit, (s.members.keys.card : Int) ≤ k

theorem length_whole : (whole s).entityIds.length = s.members.keys.card := sorted_length _

theorem limited_roomy (h : Roomy s limit) : (whole s).limited limit = whole s := by
  cases limit with
  | none => rfl
  | some k =>
    rw [Gathered.limited, length_whole]
    exact if_neg (not_lt.mpr (h k rfl))

theorem length_limited_le {g : Gathered} {k : Int} (hk : 0 ≤ k) :
    ((g.limited (some k)).entityIds.length : Int) ≤ k := by
  rw [Gathered.limited]
  split
  · obtain ⟨n, rfl⟩ := Int.eq_ofNat_of_zero_le hk
    have hslice := slice_natCast (g.entityIds.insertionSort (fun i j => ¬ rankedBefore g.scores j i)) 0 n
    rw [Int.natCast_zero, Int.zero_add, List.drop_zero] at hslice
    rw [hslice]
    exact Int.ofNat_le.mpr (List.length_take_le _ _)
  · omega

theorem alike_iff (hB : Lawful provider.client.bitMap64) (hlimit : ∀ k ∈ limit, 0 ≤ k) {r r' : MCPResult}
    (hrange : ∀ i ∈ s.members, 0 ≤ i ∧ i < 2 ^ 64)
    (hr : r = DeepSeeMCPProvider.bitmapResult entityType
      (bitmapPage s (provider.client.bitMap64.serialize s.members.keys)))
    (hr' : provider.resultOf entityType ((whole s).limited limit) = .ok r') :
    Alike provider.client.bitMap64 r r' ↔ Roomy s limit := by
  have hmembers : r.members provider.client.bitMap64 = some s.members.keys := by
    rw [hr]
    exact hB.roundTrips _ (fun i hi => hrange i (Finmap.mem_keys.mp hi))
  have hmembers' := (provider.resultOf_members hB hr').1
  obtain ⟨hscores, hevidence⟩ := resultOf_maps hr'
  constructor
  · rintro ⟨⟨members, hm, hm'⟩, -, -⟩ k hk
    have hkept : s.members.keys = ((whole s).limited limit).entityIds.toFinset :=
      Option.some.inj (hmembers.symm.trans (hm.trans (hm'.symm.trans hmembers')))
    have hcard := List.toFinset_card_le ((whole s).limited limit).entityIds
    rw [← hkept] at hcard
    obtain rfl : limit = some k := hk
    exact (Int.ofNat_le.mpr hcard).trans (length_limited_le (hlimit k rfl))
  · intro hroomy
    rw [limited_roomy hroomy] at hmembers' hscores hevidence
    have hkeys : (whole s).entityIds.toFinset = s.members.keys := sorted_toFinset _
    refine ⟨⟨_, hmembers, hkeys ▸ hmembers'⟩, ?_, ?_⟩
    · rw [hr, hscores]
      rfl
    · rw [hr, hevidence]
      rfl

/-- A bitmap and id pages of the same members resolve alike exactly when the limit leaves room for
all of them and the source can be read both ways. -/
theorem encodings_agree_iff (provider : DeepSeeMCPProvider) (hB : Lawful provider.client.bitMap64) (w : World)
    (clock clock' : Nat → Timestamp) (entityType : String) (limit : Option Int) (hlimit : ∀ k ∈ limit, 0 ≤ k) :
    (∀ r r' v v', (World.ticking clock).exec (provider.resolve entityType limit) (asBitmap w, 0) = (.ok r, v) →
      (World.ticking clock').exec (provider.resolve entityType limit) (asIds w, 0) = (.ok r', v') →
      (Alike provider.client.bitMap64 r r' ↔ Roomy w.service limit)) ∧
    ((∃ r r' n n',
        (World.ticking clock).exec (provider.resolve entityType limit) (asBitmap w, 0) = (.ok r, (asBitmap w, n)) ∧
        (World.ticking clock').exec (provider.resolve entityType limit) (asIds w, 0) = (.ok r', (asIds w, n')) ∧
        Alike provider.client.bitMap64 r r') ↔
      Packable provider.client (clock 0) w.service ∧ Listable provider.client clock' w.service ∧
        Roomy w.service limit) := by
  have hagree : ∀ r r' v v',
      (World.ticking clock).exec (provider.resolve entityType limit) (asBitmap w, 0) = (.ok r, v) →
      (World.ticking clock').exec (provider.resolve entityType limit) (asIds w, 0) = (.ok r', v') →
      (Alike provider.client.bitMap64 r r' ↔ Roomy w.service limit) := by
    intro r r' v v' hbitmap hids
    obtain ⟨hpackable, hr, -⟩ := (resolve_bitmap rfl rfl).mp hbitmap
    obtain ⟨-, hr', -⟩ := (resolve_ids rfl).1 v' hids
    exact alike_iff (s := (asIds w).service) hB hlimit hpackable.range hr hr'
  refine ⟨hagree, ?_, ?_⟩
  · rintro ⟨r, r', n, n', hbitmap, hids, halike⟩
    obtain ⟨⟨haccepts, hrange, hpayload⟩, -⟩ := (resolve_bitmap rfl rfl).mp hbitmap
    obtain ⟨⟨haccepts', hnonnegative, hpages⟩, -⟩ := (resolve_ids rfl).1 _ hids
    exact ⟨⟨haccepts, hrange, hpayload⟩, ⟨haccepts', hnonnegative, hpages⟩, (hagree _ _ _ _ hbitmap hids).mp halike⟩
  · rintro ⟨⟨haccepts, hrange, hpayload⟩, ⟨haccepts', hnonnegative, hpages⟩, hroomy⟩
    have hwhole : (whole (asIds w).service).limited limit = whole (asIds w).service := limited_roomy hroomy
    have hfits : Fits provider.bitmapThreshold ((whole (asIds w).service).limited limit) := by
      rw [hwhole]
      exact fun _ i hi => hrange i (Finmap.mem_keys.mp (mem_sorted.mp hi))
    obtain ⟨r', hr', -⟩ : ∃ r', provider.resultOf entityType ((whole (asIds w).service).limited limit) = .ok r' ∧ _ :=
      yields_of_fits hB hfits
    have hbitmap : (World.ticking clock).exec (provider.resolve entityType limit) (asBitmap w, 0) =
        (.ok _, (asBitmap w, 1)) :=
      (resolve_bitmap rfl rfl).mpr ⟨⟨haccepts, hrange, hpayload⟩, rfl, rfl⟩
    obtain ⟨n', hids⟩ : ∃ n', (World.ticking clock').exec (provider.resolve entityType limit) (asIds w, 0) =
        (.ok r', (asIds w, n')) :=
      (resolve_ids rfl).2 ⟨haccepts', hnonnegative, hpages⟩ hr'
    exact ⟨_, r', 1, n', hbitmap, hids, (hagree _ _ _ _ hbitmap hids).mpr hroomy⟩

def sampleProvider : DeepSeeMCPProvider :=
  ⟨⟨unaryBitMap64, none, (unaryBitMap64.serialize {1, 2}).length, none⟩, defaultBitmapThreshold⟩

def sampleWorld : World := (sampleSystem Unit (sampleService (collect (fun _ => some 1) [1, 2]) 1)).world

/-- A minute passes between two responses. -/
def sampleClock (n : Nat) : Timestamp := baseTime + n * (60 * second)

def sampleResolve (w : World) : Except Exn MCPResult × (World × Nat) :=
  (World.ticking sampleClock).exec (sampleProvider.resolve "transaction" (some 1)) (w, 0)

theorem encodings_agree_iff_sample :
    (∃ r r' n n', sampleResolve (asBitmap sampleWorld) = (.ok r, (asBitmap sampleWorld, n)) ∧
        sampleResolve (asIds sampleWorld) = (.ok r', (asIds sampleWorld, n')) ∧ Alike unaryBitMap64 r r') ↔
      Packable sampleProvider.client (sampleClock 0) sampleWorld.service ∧
        Listable sampleProvider.client sampleClock sampleWorld.service ∧ Roomy sampleWorld.service (some 1) :=
  (encodings_agree_iff sampleProvider unaryBitMap64_lawful sampleWorld sampleClock sampleClock "transaction" (some 1)
    (by decide)).2

/-- The bitmap comes with both members, the id pages with one of them. -/
theorem bitmap_ignores_limit :
    ∃ r r' n n', sampleResolve (asBitmap sampleWorld) = (.ok r, (asBitmap sampleWorld, n)) ∧
      sampleResolve (asIds sampleWorld) = (.ok r', (asIds sampleWorld, n')) ∧
      r.members unaryBitMap64 = some {1, 2} ∧ r'.members unaryBitMap64 = some {1} ∧ ¬ Alike unaryBitMap64 r r' := by
  have hrange : ∀ i ∈ sampleWorld.service.members, 0 ≤ i ∧ i < 2 ^ 64 := by
    intro i hi
    have hkeys : i ∈ ({1, 2} : Finset Int) := Finmap.mem_keys.mpr hi
    revert i
    decide
  have hpackable : Packable sampleProvider.client (sampleClock 0) (asBitmap sampleWorld).service :=
    ⟨rfl, hrange, le_refl _⟩
  have hbitmap : sampleResolve (asBitmap sampleWorld) = (.ok _, (asBitmap sampleWorld, 1)) :=
    (resolve_bitmap rfl rfl).mpr ⟨hpackable, rfl, rfl⟩
  have hmembers := unaryBitMap64_lawful.roundTrips {1, 2} (by decide)
  refine ⟨_, _, 1, 2, hbitmap, rfl, hmembers, by decide, ?_⟩
  rintro ⟨⟨members, hm, hm'⟩, -, -⟩
  have heq := hmembers.symm.trans (hm.trans hm'.symm)
  exact absurd heq (by decide)

end Encodings

end ContextqlServer.Deepsee.Resolution
