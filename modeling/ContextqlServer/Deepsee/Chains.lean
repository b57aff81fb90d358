import ContextqlServer.Deepsee.Machine
import ContextqlServer.Deepsee.McpProvider
import ContextqlServer.Deepsee.Wire

namespace ContextqlServer.Deepsee.Chains

open ContextqlServer.Lib.Effect ContextqlServer.Lib.Mapping ContextqlServer.Lib.Python
open ContextqlServer.Deepsee.Models ContextqlServer.Deepsee.MockService
open ContextqlServer.Deepsee.Client ContextqlServer.Deepsee.Store
open ContextqlServer.Deepsee.Synchronizer ContextqlServer.Deepsee.McpProvider
open ContextqlServer.Deepsee.Wire ContextqlServer.Deepsee.Machine

/-- A source that answers the request for a cursor with a page, whatever is on it. -/
abbrev Source := Option String → SnapshotPage

/-- The surroundings with such a source. A clock gives the time at which each response comes. -/
def served (source : Source) (clock : Option String → Timestamp) : Handler syncSig Exn World where
  perform
    | .fetchSnapshot client cursor, w => (receiveSnapshot client (clock cursor) (source cursor), w)
    | o, w => World.perform o w
  fault _ := none

inductive Chain (source : Source) (clock : Option String → Timestamp) (c : DeepSeeClient) :
    Option String → List SnapshotPage → Prop
  | stop : Chain source clock c none []
  | page {cursor : String} {pages : List SnapshotPage}
      (haccepted : Accepted c (clock (some cursor)) (source (some cursor)))
      (h : Chain source clock c (source (some cursor)).nextCursor pages) :
      Chain source clock c (some cursor) (source (some cursor) :: pages)

/-- All pages of the snapshot, each of which the client takes. -/
structure Snapshot (source : Source) (clock : Option String → Timestamp) (c : DeepSeeClient)
    (rest : List SnapshotPage) : Prop where
  first : Accepted c (clock none) (source none)
  rest : Chain source clock c (source none).nextCursor rest

def listed (page : SnapshotPage) : List Int := page.entityIds.getD []

/-- The ids that a page's bitmap holds, where it can be read. -/
def InBitmap (B : BitMap64) (page : SnapshotPage) (i : Int) : Prop :=
  ∃ payload members, page.membershipBitmap = some payload ∧ B.deserialize payload = some members ∧ i ∈ members

def Delivered (B : BitMap64) (pages : List SnapshotPage) (i : Int) : Prop :=
  ∃ page ∈ pages, i ∈ listed page ∨ InBitmap B page i

/-- A contract error, or a member set with all that was delivered. -/
def NoLoss {α : Type} (B : BitMap64) (pages : List SnapshotPage) (membersOf : α → Option (Finset Int)) :
    Except Exn α → Prop
  | .error e => IsContractError e
  | .ok a => ∃ members, membersOf a = some members ∧ ∀ i, Delivered B pages i → i ∈ members

def lastDataAsOf (first : SnapshotPage) (rest : List SnapshotPage) : WireTime :=
  rest.foldl (fun _ page => page.dataAsOf) first.dataAsOf

variable {source : Source} {clock : Option String → Timestamp} {rest : List SnapshotPage} {w : World}
  {self : DeepSeeSynchronizer}

theorem exec_fetchSnapshot {c : DeepSeeClient} {cursor : Option String}
    (h : Accepted c (clock cursor) (source cursor)) :
    (served source clock).exec (fetchSnapshot c cursor) w = (.ok (source cursor), w) := by
  have hreceive : receiveSnapshot c (clock cursor) (source cursor) = .ok (source cursor) :=
    receiveSnapshot_ok.mpr ⟨h, rfl⟩
  refine ((served source clock).exec_perform (.fetchSnapshot c cursor) w).trans ?_
  exact congrArg (fun x => (x, w)) hreceive

section Collect

theorem exec_collectIdPagesLoop {cursor : Option String} {pages : List SnapshotPage}
    (hchain : Chain source clock self.client cursor pages) (remaining : Nat) (members : List Int)
    (scores : Dict Int Float64) (dataAsOf : WireTime) (watermark : String) :
    (pages.length ≤ remaining → ∃ scores' watermark',
      (served source clock).exec (self.collectIdPagesLoop remaining members scores dataAsOf watermark cursor) w =
        (.ok (members ++ pages.flatMap listed, scores', pages.foldl (fun _ page => page.dataAsOf) dataAsOf,
          watermark'), w)) ∧
    (remaining < pages.length → ∃ e, IsContractError e ∧
      (served source clock).exec (self.collectIdPagesLoop remaining members scores dataAsOf watermark cursor) w =
        (.error e, w)) := by
  induction hchain generalizing remaining members scores dataAsOf watermark with
  | stop =>
    rw [DeepSeeSynchronizer.collectIdPagesLoop, List.flatMap_nil, List.append_nil]
    exact ⟨fun _ => ⟨scores, watermark, rfl⟩, fun h => absurd h (Nat.not_lt_zero _)⟩
  | @page cursor pages haccepted hchain ih =>
    cases remaining with
    | zero => exact ⟨fun h => absurd h (Nat.not_succ_le_zero _), fun _ => ⟨_, isContractError _, rfl⟩⟩
    | succ remaining =>
      rw [DeepSeeSynchronizer.collectIdPagesLoop, Handler.exec_bind _ (exec_fetchSnapshot haccepted),
        List.length_cons, List.flatMap_cons, ← List.append_assoc]
      obtain ⟨hok, herror⟩ := ih remaining (members ++ (source (some cursor)).entityIds.getD [])
        ((source (some cursor)).scores ∪ scores) (source (some cursor)).dataAsOf (source (some cursor)).watermark
      exact ⟨fun h => hok (Nat.le_of_succ_le_succ h), fun h => herror (Nat.lt_of_succ_lt_succ h)⟩

end Collect

/-- A bootstrap that has read the chain can read the time that it is to store. -/
structure Dated (B : BitMap64) (first : SnapshotPage) (rest : List SnapshotPage) : Prop where
  bitmap : ∀ payload members, first.membershipBitmap = some payload → B.deserialize payload = some members →
    ∃ t, parseIso first.dataAsOf = .ok t
  lists : first.membershipBitmap = none → rest.length < maxPages → ∃ t, parseIso (lastDataAsOf first rest) = .ok t

/-- The parts of a chain that are read have what the other parts deliver: the bitmap of
the first page, or the id lists of all pages where it has none. -/
structure Kept (B : BitMap64) (first : SnapshotPage) (rest : List SnapshotPage) : Prop where
  bitmap : ∀ payload members, first.membershipBitmap = some payload → B.deserialize payload = some members →
    ∀ i, i ∈ listed first ∨ Delivered B rest i → i ∈ members
  lists : first.membershipBitmap = none → rest.length < maxPages →
    ∀ page ∈ rest, ∀ i, InBitmap B page i → ∃ page' ∈ first :: rest, i ∈ listed page'

section Bootstrap

theorem covers_bitmap {B : BitMap64} {first : SnapshotPage} {payload : List UInt8} {members : Finset Int}
    (hpayload : first.membershipBitmap = some payload) (hmembers : B.deserialize payload = some members) :
    (∀ i, Delivered B (first :: rest) i → i ∈ members) ↔ Kept B first rest := by
  constructor
  · intro h
    constructor
    · intro payload' members' hpayload' hmembers' i hi
      rw [hpayload] at hpayload'
      obtain rfl := Option.some.inj hpayload'
      rw [hmembers] at hmembers'
      obtain rfl := Option.some.inj hmembers'
      apply h
      obtain hi | ⟨page, hpage, hi⟩ := hi
      · exact ⟨first, List.mem_cons_self, .inl hi⟩
      · exact ⟨page, List.mem_cons_of_mem _ hpage, hi⟩
    · intro hnone
      rw [hpayload] at hnone
      cases hnone
  · rintro h i ⟨page, hpage, hi⟩
    obtain rfl | hpage := List.mem_cons.mp hpage
    · obtain hi | ⟨payload', members', hpayload', hmembers', hi⟩ := hi
      · exact h.bitmap payload members hpayload hmembers i (.inl hi)
      · rw [hpayload] at hpayload'
        obtain rfl := Option.some.inj hpayload'
        rw [hmembers] at hmembers'
        obtain rfl := Option.some.inj hmembers'
        exact hi
    · exact h.bitmap payload members hpayload hmembers i (.inr ⟨page, hpage, hi⟩)

theorem covers_lists {B : BitMap64} {first : SnapshotPage} (hnone : first.membershipBitmap = none)
    (hlength : rest.length < maxPages) :
    (∀ i, Delivered B (first :: rest) i → i ∈ (listed first ++ rest.flatMap listed).toFinset) ↔
      Kept B first rest := by
  have hmem : ∀ i, i ∈ (listed first ++ rest.flatMap listed).toFinset ↔ ∃ page ∈ first :: rest, i ∈ listed page := by
    intro i
    rw [List.mem_toFinset, ← List.flatMap_cons, List.mem_flatMap]
  constructor
  · intro h
    constructor
    · intro payload members hpayload
      rw [hnone] at hpayload
      cases hpayload
    · intro _ _ page hpage i hi
      exact (hmem i).mp (h i ⟨page, List.mem_cons_of_mem _ hpage, .inr hi⟩)
  · rintro h i ⟨page, hpage, hi⟩
    rw [hmem]
    obtain hi | hi := hi
    · exact ⟨page, hpage, hi⟩
    · obtain rfl | hpage := List.mem_cons.mp hpage
      · obtain ⟨payload, members, hpayload, -⟩ := hi
        rw [hnone] at hpayload
        cases hpayload
      · exact h.lists hnone hlength page hpage i hi

/-- Chains of which nothing is read: the first bitmap is malformed, or there are too many pages. -/
structure Refused (B : BitMap64) (first : SnapshotPage) (rest : List SnapshotPage) : Prop where
  malformed : ∀ payload, first.membershipBitmap = some payload → B.deserialize payload = none
  long : first.membershipBitmap = none → maxPages ≤ rest.length

theorem Refused.unreadable {B : BitMap64} {first : SnapshotPage} {payload : List UInt8}
    (hpayload : first.membershipBitmap = some payload) (hmembers : B.deserialize payload = none) :
    Refused B first rest where
  malformed payload' hpayload' := by
    rw [hpayload] at hpayload'
    obtain rfl := Option.some.inj hpayload'
    exact hmembers
  long hnone := by
    rw [hpayload] at hnone
    cases hnone

theorem Refused.endless {B : BitMap64} {first : SnapshotPage} (hnone : first.membershipBitmap = none)
    (hlength : maxPages ≤ rest.length) : Refused B first rest where
  malformed payload hpayload := by
    rw [hnone] at hpayload
    cases hpayload
  long _ := hlength

theorem Refused.kept {B : BitMap64} {first : SnapshotPage} (h : Refused B first rest) : Kept B first rest where
  bitmap payload members hpayload hmembers := by
    rw [h.malformed payload hpayload] at hmembers
    cases hmembers
  lists hnone hlength := absurd (h.long hnone) (not_le.mpr hlength)

theorem Refused.dated {B : BitMap64} {first : SnapshotPage} (h : Refused B first rest) : Dated B first rest where
  bitmap payload members hpayload hmembers := by
    rw [h.malformed payload hpayload] at hmembers
    cases hmembers
  lists hnone hlength := absurd (h.long hnone) (not_le.mpr hlength)

theorem dated_bitmap {B : BitMap64} {first : SnapshotPage} {payload : List UInt8} {members : Finset Int}
    (hpayload : first.membershipBitmap = some payload) (hmembers : B.deserialize payload = some members) :
    (∃ t, parseIso first.dataAsOf = .ok t) ↔ Dated B first rest := by
  constructor
  · intro h
    refine ⟨fun _ _ _ _ => h, fun hnone => ?_⟩
    rw [hpayload] at hnone
    cases hnone
  · exact fun h => h.bitmap payload members hpayload hmembers

theorem dated_lists {B : BitMap64} {first : SnapshotPage} (hnone : first.membershipBitmap = none)
    (hlength : rest.length < maxPages) :
    (∃ t, parseIso (lastDataAsOf first rest) = .ok t) ↔ Dated B first rest := by
  constructor
  · intro h
    refine ⟨fun payload members hpayload => ?_, fun _ _ => h⟩
    rw [hnone] at hpayload
    cases hpayload
  · exact fun h => h.lists hnone hlength

theorem exec_publish {now asOf : Timestamp} {members : Finset Int} {scores : Dict Int Float64} {dataAsOf : WireTime}
    {watermark : String} (hasOf : parseIso dataAsOf = .ok asOf)
    (hingest : (served source clock).exec self.ingest w = (.ok (members, scores, dataAsOf, watermark), w)) :
    ∃ r, ((served source clock).exec (self.bootstrap now) w).1 = .ok r ∧ r.1.members = members := by
  rw [DeepSeeSynchronizer.bootstrap, Handler.exec_bind _ hingest]
  simp only [hasOf, Prog.ofExcept, Prog.bind_pure]
  obtain ⟨client, contextId, stagesSnapshots, stagesDeltas, stateRepository, committedWatermark, seenEventIds⟩ := self
  cases stagesSnapshots <;> cases stateRepository <;> exact ⟨_, rfl, rfl⟩

theorem decode_accepted {c : DeepSeeClient} {now : Timestamp} {page : SnapshotPage} {payload : List UInt8}
    (h : Accepted c now page) (hpayload : page.membershipBitmap = some payload) :
    c.decodeMembershipBitmap page = match c.bitMap64.deserialize payload with
      | some members => .ok members
      | none => .error (contractError "Malformed roaring64 bitmap payload") := by
  have hvalid := validateBitmapPayload_ok.mpr (h.bitmap payload hpayload)
  simp only [DeepSeeClient.decodeMembershipBitmap, hpayload, hvalid]
  cases c.bitMap64.deserialize payload <;> rfl

theorem exec_undated {now : Timestamp} {e : Exn} {members : Finset Int} {scores : Dict Int Float64}
    {dataAsOf : WireTime} {watermark : String} (he : parseIso dataAsOf = .error e)
    (hingest : (served source clock).exec self.ingest w = (.ok (members, scores, dataAsOf, watermark), w)) :
    ((served source clock).exec (self.bootstrap now) w).1 = .error e := by
  rw [DeepSeeSynchronizer.bootstrap, Handler.exec_bind _ hingest]
  simp only [he]
  rfl

/-- A bootstrap that has read the chain loses nothing when what it read covers what was
delivered and its time can be stored. -/
theorem no_loss_published {B : BitMap64} {pages : List SnapshotPage} {now : Timestamp} {members : Finset Int}
    {scores : Dict Int Float64} {dataAsOf : WireTime} {watermark : String}
    (hingest : (served source clock).exec self.ingest w = (.ok (members, scores, dataAsOf, watermark), w)) :
    NoLoss B pages (fun r => some r.1.members) ((served source clock).exec (self.bootstrap now) w).1 ↔
      (∀ i, Delivered B pages i → i ∈ members) ∧ ∃ t, parseIso dataAsOf = .ok t := by
  cases hasOf : parseIso dataAsOf with
  | ok asOf =>
    obtain ⟨r, hr, rfl⟩ := exec_publish hasOf hingest
    rw [hr, and_iff_left ⟨asOf, rfl⟩]
    exact ⟨fun ⟨_, hsome, h⟩ => Option.some.inj hsome ▸ h, fun h => ⟨_, rfl, h⟩⟩
  | error e =>
    rw [exec_undated hasOf hingest]
    apply iff_of_false (parseIso_not_contract hasOf)
    rintro ⟨-, t, ⟨⟩⟩

theorem no_loss_refused {B : BitMap64} {first : SnapshotPage} {now : Timestamp} {e : Exn}
    (hrefused : Refused B first rest) (hingest : (served source clock).exec self.ingest w = (.error e, w))
    (he : IsContractError e) :
    NoLoss B (first :: rest) (fun r => some r.1.members) ((served source clock).exec (self.bootstrap now) w).1 ↔
      Kept B first rest ∧ Dated B first rest := by
  rw [DeepSeeSynchronizer.bootstrap, Handler.exec_bind_error _ hingest]
  exact iff_of_true he ⟨hrefused.kept, hrefused.dated⟩

theorem bootstrap_no_loss {now : Timestamp} (hsnapshot : Snapshot source clock self.client rest) :
    NoLoss self.client.bitMap64 (source none :: rest) (fun r => some r.1.members)
        ((served source clock).exec (self.bootstrap now) w).1 ↔
      Kept self.client.bitMap64 (source none) rest ∧ Dated self.client.bitMap64 (source none) rest := by
  obtain ⟨hfirst, hrest⟩ := hsnapshot
  have hfetch := exec_fetchSnapshot (w := w) hfirst
  cases hbitmap : (source none).membershipBitmap with
  | some payload =>
    have hingest : (served source clock).exec self.ingest w = (match self.client.bitMap64.deserialize payload with
        | some members => .ok (members, (source none).scores, (source none).dataAsOf, (source none).watermark)
        | none => .error (contractError "Malformed roaring64 bitmap payload"), w) := by
      rw [DeepSeeSynchronizer.ingest, Handler.exec_bind _ hfetch]
      simp only [hbitmap, decode_accepted hfirst hbitmap]
      cases self.client.bitMap64.deserialize payload <;> rfl
    cases hmembers : self.client.bitMap64.deserialize payload with
    | some members =>
      rw [hmembers] at hingest
      rw [no_loss_published hingest, covers_bitmap hbitmap hmembers, dated_bitmap hbitmap hmembers]
    | none =>
      rw [hmembers] at hingest
      exact no_loss_refused (.unreadable hbitmap hmembers) hingest (isContractError _)
  | none =>
    obtain ⟨hok, herror⟩ := exec_collectIdPagesLoop (w := w) hrest (maxPages - 1)
      (listed (source none)) (source none).scores (source none).dataAsOf (source none).watermark
    by_cases hlength : rest.length < maxPages
    · obtain ⟨scores, watermark, hcollect⟩ := hok (Nat.le_sub_one_of_lt hlength)
      have hingest : (served source clock).exec self.ingest w =
          (.ok ((listed (source none) ++ rest.flatMap listed).toFinset, scores, lastDataAsOf (source none) rest,
            watermark), w) := by
        rw [DeepSeeSynchronizer.ingest, Handler.exec_bind _ hfetch]
        simp only [hbitmap]
        exact Handler.exec_bind _ hcollect
      rw [no_loss_published hingest, covers_lists hbitmap hlength, dated_lists hbitmap hlength]
    · obtain ⟨e, he, hcollect⟩ := herror (by rw [maxPages] at hlength ⊢; omega)
      have hingest : (served source clock).exec self.ingest w = (.error e, w) := by
        rw [DeepSeeSynchronizer.ingest, Handler.exec_bind _ hfetch]
        simp only [hbitmap]
        exact Handler.exec_bind_error _ hcollect
      exact no_loss_refused (.endless hbitmap (not_lt.mp hlength)) hingest he

end Bootstrap

section Resolve

variable {provider : DeepSeeMCPProvider}

/-- A bitmap that the provider passes on can be read. -/
def Readable (B : BitMap64) (first : SnapshotPage) : Prop :=
  ∀ payload, first.membershipBitmap = some payload → ∃ members, B.deserialize payload = some members

/-- Ids of which the provider makes a bitmap fit into one. -/
def Encodable (threshold : Int) (first : SnapshotPage) (rest : List SnapshotPage) : Prop :=
  first.membershipBitmap = none → rest.length < maxPages →
    threshold ≤ ((listed first ++ rest.flatMap listed).length : Int) →
    ∀ i ∈ listed first ++ rest.flatMap listed, 0 ≤ i ∧ i < 2 ^ 64

theorem exec_idListLoop (hchain : Chain source clock provider.client (source none).nextCursor rest) :
    (rest.length < maxPages → ∃ g : Gathered, g.entityIds = listed (source none) ++ rest.flatMap listed ∧
      (served source clock).exec
        (provider.idListLoop (maxPages - 1) (.ofPage (source none)) (source none).nextCursor) w = (.ok g, w)) ∧
    (maxPages ≤ rest.length → ∃ e, IsContractError e ∧
      (served source clock).exec
        (provider.idListLoop (maxPages - 1) (.ofPage (source none)) (source none).nextCursor) w = (.error e, w)) := by
  obtain ⟨hok, herror⟩ := @exec_collectIdPagesLoop source clock w ⟨provider.client, "", false, false, false, none, ∅⟩
    _ _ hchain (maxPages - 1) (listed (source none)) (source none).scores (source none).dataAsOf
    (source none).watermark
  have hcollects := provider.idListLoop_collects ⟨provider.client, "", false, false, false, none, ∅⟩ rfl
    (maxPages - 1) (.ofPage (source none)) (source none).nextCursor
  constructor
  · intro hlength
    obtain ⟨scores, watermark, hcollect⟩ := hok (Nat.le_sub_one_of_lt hlength)
    have hexec := (congrArg (fun p => (served source clock).exec p w) hcollects).trans hcollect
    obtain ⟨g, w₁, hloop, hg⟩ := Handler.exec_bind_ok.mp hexec
    obtain ⟨heq, rfl⟩ := Prod.mk.inj hg
    exact ⟨g, congrArg Prod.fst (Except.ok.inj heq), hloop⟩
  · intro hlength
    obtain ⟨e, he, hcollect⟩ := herror (by rw [maxPages] at hlength ⊢; omega)
    have hexec := (congrArg (fun p => (served source clock).exec p w) hcollects).trans hcollect
    refine ⟨e, he, ?_⟩
    cases hloop : (served source clock).exec (provider.idListLoop (maxPages - 1) (.ofPage (source none))
        (source none).nextCursor) w with
    | mk out w₁ =>
      cases out with
      | ok g => exact absurd ((Handler.exec_bind _ hloop).symm.trans hexec) nofun
      | error e' =>
        obtain ⟨he', rfl⟩ := Prod.mk.inj ((Handler.exec_bind_error _ hloop).symm.trans hexec)
        rw [Except.error.inj he']

theorem resultOf_fails {entityType : String} {g : Gathered} :
    (∃ r, provider.resultOf entityType g = .ok r) ∧
        (provider.bitmapThreshold ≤ (g.entityIds.length : Int) → ∀ i ∈ g.entityIds, 0 ≤ i ∧ i < 2 ^ 64) ∨
      (∃ e, provider.resultOf entityType g = .error e ∧ ¬ IsContractError e) ∧
        ¬ (provider.bitmapThreshold ≤ (g.entityIds.length : Int) → ∀ i ∈ g.entityIds, 0 ≤ i ∧ i < 2 ^ 64) := by
  rw [DeepSeeMCPProvider.resultOf]
  by_cases hthreshold : provider.bitmapThreshold ≤ (g.entityIds.length : Int)
  · rw [if_pos hthreshold, DeepSeeMCPProvider.encodeAsBitmap]
    by_cases hall : ∀ i ∈ g.entityIds, 0 ≤ i ∧ i < 2 ^ 64
    · rw [BitMap64.ofIds_eq_ok.mpr ⟨hall, rfl⟩]
      exact .inl ⟨⟨_, rfl⟩, fun _ => hall⟩
    · obtain ⟨message, hids⟩ := provider.client.bitMap64.ofIds_overflows hall
      rw [hids]
      refine .inr ⟨⟨_, rfl, ?_⟩, fun h => hall (h hthreshold)⟩
      rintro ⟨d, hd, -⟩
      cases hd
  · rw [if_neg hthreshold]
    exact .inl ⟨⟨_, rfl⟩, fun h => absurd h hthreshold⟩

theorem resolve_bitmap_no_loss {entityType : String} {payload : List UInt8}
    (hfirst : Accepted provider.client (clock none) (source none))
    (hbitmap : (source none).membershipBitmap = some payload) :
    NoLoss provider.client.bitMap64 (source none :: rest) (fun r => r.members provider.client.bitMap64)
        ((served source clock).exec (provider.resolve entityType none) w).1 ↔
      Kept provider.client.bitMap64 (source none) rest ∧ Readable provider.client.bitMap64 (source none) := by
  rw [DeepSeeMCPProvider.resolve, Handler.exec_bind _ (exec_fetchSnapshot (w := w) hfirst), hbitmap]
  change (∃ members, (DeepSeeMCPProvider.bitmapResult entityType (source none)).members _ = some members ∧ _) ↔ _
  rw [MCPResult.members, DeepSeeMCPProvider.bitmapResult, hbitmap]
  cases hmembers : provider.client.bitMap64.deserialize payload with
  | some members =>
    have hreadable : Readable provider.client.bitMap64 (source none) := by
      intro payload' hpayload'
      rw [hbitmap] at hpayload'
      obtain rfl := Option.some.inj hpayload'
      exact ⟨members, hmembers⟩
    rw [and_iff_left hreadable, ← covers_bitmap hbitmap hmembers]
    exact ⟨fun ⟨_, hsome, h⟩ => Option.some.inj (hmembers.symm.trans hsome) ▸ h, fun h => ⟨members, hmembers, h⟩⟩
  | none =>
    refine iff_of_false ?_ ?_
    · rintro ⟨members, hsome, -⟩
      cases hmembers.symm.trans hsome
    · rintro ⟨-, hreadable⟩
      obtain ⟨members, hsome⟩ := hreadable payload hbitmap
      cases hmembers.symm.trans hsome

theorem resolve_lists_no_loss {entityType : String} (hB : Lawful provider.client.bitMap64)
    (hsnapshot : Snapshot source clock provider.client rest) (hnone : (source none).membershipBitmap = none) :
    NoLoss provider.client.bitMap64 (source none :: rest) (fun r => r.members provider.client.bitMap64)
        ((served source clock).exec (provider.resolve entityType none) w).1 ↔
      Kept provider.client.bitMap64 (source none) rest ∧ Encodable provider.bitmapThreshold (source none) rest := by
  obtain ⟨hfirst, hrest⟩ := hsnapshot
  rw [DeepSeeMCPProvider.resolve, Handler.exec_bind _ (exec_fetchSnapshot (w := w) hfirst), hnone]
  change NoLoss _ _ _ ((served source clock).exec (provider.idListResult entityType (source none) none) w).1 ↔ _
  obtain ⟨hok, herror⟩ := exec_idListLoop (w := w) hrest
  rw [DeepSeeMCPProvider.idListResult]
  by_cases hlength : rest.length < maxPages
  · obtain ⟨g, hids, hloop⟩ := hok hlength
    rw [Handler.exec_bind _ hloop]
    have hencodable : Encodable provider.bitmapThreshold (source none) rest ↔
        (provider.bitmapThreshold ≤ (g.entityIds.length : Int) → ∀ i ∈ g.entityIds, 0 ≤ i ∧ i < 2 ^ 64) := by
      rw [hids]
      exact ⟨fun h => h hnone hlength, fun h _ _ => h⟩
    rw [hencodable, Handler.exec_ofExcept]
    change NoLoss _ _ _ (provider.resultOf entityType g) ↔ _
    obtain ⟨⟨r, hr⟩, hfits⟩ | ⟨⟨e, he, hother⟩, hnot⟩ := @resultOf_fails provider entityType g
    · obtain ⟨hmembers, -⟩ := provider.resultOf_members hB hr
      rw [and_iff_left hfits, hr, ← covers_lists hnone hlength, ← hids]
      exact ⟨fun ⟨_, hsome, h⟩ => Option.some.inj (hmembers.symm.trans hsome) ▸ h, fun h => ⟨_, hmembers, h⟩⟩
    · rw [he]
      exact iff_of_false hother fun h => hnot h.2
  · obtain ⟨e, he, hloop⟩ := herror (not_lt.mp hlength)
    rw [Handler.exec_bind_error _ hloop]
    have hrefused : Refused provider.client.bitMap64 (source none) rest := .endless hnone (not_lt.mp hlength)
    exact iff_of_true he ⟨hrefused.kept, fun _ h => absurd h hlength⟩

theorem resolve_no_loss {entityType : String} (hB : Lawful provider.client.bitMap64)
    (hsnapshot : Snapshot source clock provider.client rest) :
    NoLoss provider.client.bitMap64 (source none :: rest) (fun r => r.members provider.client.bitMap64)
        ((served source clock).exec (provider.resolve entityType none) w).1 ↔
      Kept provider.client.bitMap64 (source none) rest ∧ Readable provider.client.bitMap64 (source none) ∧
        Encodable provider.bitmapThreshold (source none) rest := by
  cases hbitmap : (source none).membershipBitmap with
  | some payload =>
    have hencodable : Encodable provider.bitmapThreshold (source none) rest := by
      intro hnone
      rw [hbitmap] at hnone
      cases hnone
    rw [and_iff_left hencodable]
    exact resolve_bitmap_no_loss hsnapshot.first hbitmap
  | none =>
    have hreadable : Readable provider.client.bitMap64 (source none) := by
      intro payload hpayload
      rw [hbitmap] at hpayload
      cases hpayload
    rw [and_iff_right hreadable]
    exact resolve_lists_no_loss hB hsnapshot hbitmap

end Resolve

/-- Neither a bootstrap nor a resolution without a limit loses a delivered member exactly
when what they read of the chain has what the rest of it delivers, the bitmap that the provider
passes on can be read, the ids of which it makes a bitmap fit into one, and the time that the
bootstrap is to store is one. -/
theorem no_loss_iff {now : Timestamp} {entityType : String} {threshold : Int}
    {clock' : Option String → Timestamp} (hB : Lawful self.client.bitMap64)
    (hbootstrap : Snapshot source clock self.client rest) (hresolve : Snapshot source clock' self.client rest) :
    NoLoss self.client.bitMap64 (source none :: rest) (fun r => some r.1.members)
          ((served source clock).exec (self.bootstrap now) w).1 ∧
        NoLoss self.client.bitMap64 (source none :: rest) (fun r => r.members self.client.bitMap64)
          ((served source clock').exec (DeepSeeMCPProvider.resolve ⟨self.client, threshold⟩ entityType none) w).1 ↔
      Kept self.client.bitMap64 (source none) rest ∧ Readable self.client.bitMap64 (source none) ∧
        Encodable threshold (source none) rest ∧ Dated self.client.bitMap64 (source none) rest := by
  have hresolve := @resolve_no_loss source clock' rest w ⟨self.client, threshold⟩ entityType hB hresolve
  rw [bootstrap_no_loss hbootstrap, hresolve]
  tauto

section Sample

def samplePage (entityIds : Option (List Int)) (membershipBitmap : Option (List UInt8)) (nextCursor : Option String) :
    SnapshotPage where
  entityKeyType := "INT64"
  dataAsOf := .iso baseTime
  watermark := "wm-0000000001"
  entityIds
  membershipBitmap
  bitmapEncoding := some "roaring64"
  scores := ∅
  evidenceRefs := ∅
  nextCursor

def sampleClient : DeepSeeClient where
  bitMap64 := unaryBitMap64
  token := none
  maxPayloadBytes := (unaryBitMap64.serialize {1}).length
  maxDataAge := none

def sampleSync : DeepSeeSynchronizer := { sampleSynchronizer with client := sampleClient }

def sampleWorld : World := ⟨sampleService ∅ 1, none, ⟨[], []⟩, baseTime⟩

def twoPages (first last : SnapshotPage) : Source
  | none => first
  | some _ => last

theorem twoPages_snapshot {first last : SnapshotPage} {clock : Option String → Timestamp}
    (hfirst : Accepted sampleClient (clock none) first) (hlast : Accepted sampleClient (clock (some "1")) last)
    (hnext : first.nextCursor = some "1") (hend : last.nextCursor = none) :
    Snapshot (twoPages first last) clock sampleClient [last] := by
  refine ⟨hfirst, ?_⟩
  change Chain _ _ _ first.nextCursor _
  rw [hnext]
  refine .page hlast ?_
  change Chain _ _ _ last.nextCursor _
  rw [hend]
  exact .stop

theorem accepted_ids {ids : List Int} {now : Timestamp} (hids : ∀ i ∈ ids, 0 ≤ i) (nextCursor : Option String) :
    Accepted sampleClient now (samplePage (some ids) none nextCursor) where
  fresh _ h := by cases h
  keyType := rfl
  bitmap _ h := by cases h
  ids _ := ⟨ids, rfl, hids⟩

/-- A minute passes between the two responses. -/
def sampleClock : Option String → Timestamp
  | none => baseTime
  | some _ => baseTime + 60 * second

/-- Two pages of ids, read twice. -/
theorem no_loss_iff_sample :
    NoLoss unaryBitMap64 [samplePage (some [1]) none (some "1"), samplePage (some [2]) none none]
        (fun r => some r.1.members)
        ((served (twoPages (samplePage (some [1]) none (some "1")) (samplePage (some [2]) none none)) sampleClock).exec
          (sampleSync.bootstrap 0) sampleWorld).1 ∧
      NoLoss unaryBitMap64 [samplePage (some [1]) none (some "1"), samplePage (some [2]) none none]
        (fun r => r.members unaryBitMap64)
        ((served (twoPages (samplePage (some [1]) none (some "1")) (samplePage (some [2]) none none)) sampleClock).exec
          (DeepSeeMCPProvider.resolve ⟨sampleClient, defaultBitmapThreshold⟩ "txn" none) sampleWorld).1 := by
  have hsnapshot : Snapshot (twoPages (samplePage (some [1]) none (some "1")) (samplePage (some [2]) none none))
      sampleClock sampleClient [samplePage (some [2]) none none] :=
    twoPages_snapshot (accepted_ids (by decide) _) (accepted_ids (by decide) _) rfl rfl
  refine (@no_loss_iff (twoPages (samplePage (some [1]) none (some "1")) (samplePage (some [2]) none none)) _ _
    sampleWorld sampleSync 0 "txn" defaultBitmapThreshold _ unaryBitMap64_lawful hsnapshot hsnapshot).mpr
    ⟨?_, ?_, ?_, ?_⟩
  · constructor
    · intro _ _ h
      cases h
    · rintro _ _ page hpage i ⟨_, _, h, -⟩
      obtain rfl := List.mem_singleton.mp hpage
      cases h
  · intro _ h
    cases h
  · intro _ _ h
    exact absurd h (by decide)
  · constructor
    · intro _ _ h
      cases h
    · intro _ _
      exact ⟨baseTime, rfl⟩

def bitmapFirst : SnapshotPage := samplePage none (some (unaryBitMap64.serialize {1})) (some "1")

def idsLast : SnapshotPage := samplePage (some [2]) none none

theorem bitmapFirst_accepted (now : Timestamp) : Accepted sampleClient now bitmapFirst where
  fresh _ h := by cases h
  keyType := rfl
  bitmap payload h := by
    obtain rfl := Option.some.inj h
    exact ⟨le_rfl, rfl⟩
  ids h := by cases h

/-- The ids of the page that a bitmap page names are lost. -/
theorem lost_member :
    Snapshot (twoPages bitmapFirst idsLast) sampleClock sampleClient [idsLast] ∧
      ¬ NoLoss unaryBitMap64 [bitmapFirst, idsLast] (fun r => some r.1.members)
        ((served (twoPages bitmapFirst idsLast) sampleClock).exec (sampleSync.bootstrap 0) sampleWorld).1 := by
  have hsnapshot : Snapshot (twoPages bitmapFirst idsLast) sampleClock sampleClient [idsLast] :=
    twoPages_snapshot (bitmapFirst_accepted _) (accepted_ids (by decide) _) rfl rfl
  refine ⟨hsnapshot, ?_⟩
  intro h
  obtain ⟨hkept, -⟩ := (@bootstrap_no_loss (twoPages bitmapFirst idsLast) _ [idsLast] sampleWorld sampleSync 0
    hsnapshot).mp h
  have hread : unaryBitMap64.deserialize (unaryBitMap64.serialize {1}) = some {1} :=
    unaryBitMap64_lawful.roundTrips {1} (by decide)
  have hmem :=
    hkept.bitmap _ _ rfl hread 2 (.inr ⟨idsLast, List.mem_singleton_self _, .inl (List.mem_singleton_self _)⟩)
  exact absurd hmem (by decide)

end Sample

end ContextqlServer.Deepsee.Chains
