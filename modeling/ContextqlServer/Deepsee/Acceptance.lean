import ContextqlServer.Deepsee.Rest

namespace ContextqlServer.Deepsee.Acceptance

open ContextqlServer.Lib.Effect ContextqlServer.Lib.Mapping ContextqlServer.Lib.Python
open ContextqlServer.Deepsee.Models ContextqlServer.Deepsee.MockService
open ContextqlServer.Deepsee.Client ContextqlServer.Deepsee.Store
open ContextqlServer.Deepsee.Synchronizer ContextqlServer.Deepsee.History
open ContextqlServer.Deepsee.Bootstrap

/-- The members are such that a full snapshot of them goes through. -/
def Accepted (c : DeepSeeClient) (s : MockDeepSeeService) : Prop :=
  if s.bitmapSnapshot then
    (∀ i ∈ s.members, 0 ≤ i ∧ i < 2 ^ 64) ∧
      (c.bitMap64.serialize s.members.keys).length ≤ c.maxPayloadBytes
  else (∀ i ∈ s.members, 0 ≤ i) ∧ s.members.keys.card ≤ maxPages * s.pageSize

/-- The settings of the source are not ones under which every snapshot is refused. -/
structure WellFormed (s : MockDeepSeeService) : Prop where
  keyType : DeepSeeClient.validateKeyType s.entityKeyType = .ok ()
  bitmap : s.bitmapSnapshot = true → s.malformedBitmap = false

variable {self : DeepSeeSynchronizer} {s : MockDeepSeeService} {c : DeepSeeClient} {now : Timestamp} {w : World}

theorem WellFormed.extend {s' : MockDeepSeeService} (h : WellFormed s) (hs : Extends s s') :
    WellFormed s' where
  keyType := hs.entityKeyType.symm ▸ h.keyType
  bitmap := by
    rw [hs.bitmapSnapshot, hs.malformedBitmap]
    exact h.bitmap

theorem accepts_ok : accepts c now s = .ok () ↔
    s.enterCall c.token = .ok () ∧ c.validateFreshness now s.dataAsOf = .ok () ∧
      DeepSeeClient.validateKeyType s.entityKeyType = .ok () := by
  rw [accepts]
  cases s.enterCall c.token with
  | error e => simp [bind, Except.bind]
  | ok u =>
    cases c.validateFreshness now s.dataAsOf with
    | error e => simp [bind, Except.bind]
    | ok u => simp [bind, Except.bind]

theorem exec_fetchSnapshot {cursor : Option String} :
    World.handler.exec (fetchSnapshot c cursor) w = (c.fetchSnapshot w.clock w.service cursor, w) :=
  World.handler.exec_perform (.fetchSnapshot c cursor) w

/-- The pages from the one after offset `o` on go through when none lists a negative id
and there are no more of them than are allowed. -/
theorem collectIdPagesLoop_succeeds (hm : s.bitmapSnapshot = false)
    (ha : accepts self.client w.clock s = .ok ()) (hs : w.service = s) (remaining o : Nat)
    (members : List Int) (scores : Dict Int Float64) (dataAsOf : WireTime) (watermark : String) :
    World.handler.Succeeds (self.collectIdPagesLoop remaining members scores dataAsOf watermark
      (idPage s o).nextCursor) w ↔
      (∀ i ∈ (memberIds s).drop (o + s.pageSize), 0 ≤ i) ∧
        (memberIds s).length ≤ o + s.pageSize + remaining * s.pageSize := by
  induction remaining generalizing o members scores dataAsOf watermark with
  | zero =>
    by_cases hlast : o + s.pageSize < (memberIds s).length
    · rw [idPage, if_pos hlast]
      constructor
      · rintro ⟨_, _, h⟩
        cases h
      · intro h
        omega
    · rw [idPage, if_neg hlast, List.drop_eq_nil_of_le (Nat.not_lt.mp hlast)]
      exact ⟨fun _ => ⟨by simp, by omega⟩, fun _ => Handler.succeeds_pure⟩
  | succ remaining ih =>
    by_cases hlast : o + s.pageSize < (memberIds s).length
    · have hids : (memberIds s).drop (o + s.pageSize) =
          pageIds s (o + s.pageSize) ++ (memberIds s).drop (o + s.pageSize + s.pageSize) := by
        have hparts := List.take_append_drop s.pageSize ((memberIds s).drop (o + s.pageSize))
        rw [List.drop_drop] at hparts
        exact hparts.symm
      have hlen : o + s.pageSize + (remaining + 1) * s.pageSize =
          o + s.pageSize + s.pageSize + remaining * s.pageSize := by
        rw [Nat.succ_mul]
        omega
      rw [idPage, if_pos hlast, hids, List.forall_mem_append, hlen, and_assoc]
      constructor
      · intro h
        obtain ⟨page, w₁, hexec, h⟩ := Handler.succeeds_bind.mp h
        rw [exec_fetchSnapshot, hs] at hexec
        obtain ⟨hfetch, rfl⟩ := Prod.mk.inj hexec
        obtain ⟨-, hpage, rfl⟩ := (fetchSnapshot_ids_ok hm (offsetOf_toString _)).mp hfetch
        exact ⟨hpage, (ih _ _ _ _ _).mp h⟩
      · rintro ⟨hpage, h⟩
        have hfetch := (fetchSnapshot_ids_ok hm (offsetOf_toString (o + s.pageSize))).mpr
          ⟨ha, hpage, rfl⟩
        refine Handler.succeeds_bind.mpr ⟨idPage s (o + s.pageSize), w, ?_, (ih _ _ _ _ _).mpr h⟩
        rw [exec_fetchSnapshot, hs, hfetch]
    · rw [idPage, if_neg hlast, List.drop_eq_nil_of_le (Nat.not_lt.mp hlast)]
      exact ⟨fun _ => ⟨by simp, by omega⟩, fun _ => Handler.succeeds_pure⟩

theorem bitmapPayload_eq (hm : s.malformedBitmap = false) {B : BitMap64} {payload : List UInt8} :
    s.bitmapPayload B = .ok payload ↔
      (∀ i ∈ s.members, 0 ≤ i ∧ i < 2 ^ 64) ∧ payload = B.serialize s.members.keys := by
  have hall : (∀ i ∈ sorted s.members.keys, 0 ≤ i ∧ i < 2 ^ 64) ↔
      ∀ i ∈ s.members, 0 ≤ i ∧ i < 2 ^ 64 := by
    simp only [mem_sorted, Finmap.mem_keys]
  rw [MockDeepSeeService.bitmapPayload, hm, if_neg Bool.false_ne_true, ← hall]
  cases hids : B.ofIds (sorted s.members.keys) with
  | ok members =>
    obtain ⟨hrange, rfl⟩ := BitMap64.ofIds_eq_ok.mp hids
    rw [sorted_toFinset]
    exact ⟨fun heq => ⟨hrange, (Except.ok.inj heq).symm⟩, fun heq => congrArg _ heq.2.symm⟩
  | error e =>
    apply iff_of_false
    · intro heq
      cases heq
    · intro heq
      cases hids.symm.trans (BitMap64.ofIds_eq_ok.mpr ⟨heq.1, rfl⟩)

theorem validateBitmapPayload_ok {payload : List UInt8} :
    c.validateBitmapPayload payload (some supportedBitmapEncoding) = .ok () ↔
      payload.length ≤ c.maxPayloadBytes := by
  rw [DeepSeeClient.validateBitmapPayload]
  split
  · simp
    omega
  · simp
    omega

theorem fetchSnapshot_bitmap_iff (hb : s.bitmapSnapshot = true)
    (hm : s.malformedBitmap = false) {cursor : Option String}
    {page : SnapshotPage} :
    c.fetchSnapshot now s cursor = .ok page ↔ accepts c now s = .ok () ∧ (∀ i ∈ s.members, 0 ≤ i ∧ i < 2 ^ 64) ∧
      (c.bitMap64.serialize s.members.keys).length ≤ c.maxPayloadBytes ∧
      page = bitmapPage s (c.bitMap64.serialize s.members.keys) := by
  rw [fetchSnapshot_bitmap hb, accepts_ok]
  constructor
  · intro h
    obtain ⟨⟨⟩, henter, h⟩ := bind_eq_ok.mp h
    obtain ⟨payload, hpayload, h⟩ := bind_eq_ok.mp h
    obtain ⟨⟨⟩, hfresh, h⟩ := bind_eq_ok.mp h
    obtain ⟨⟨⟩, hkey, h⟩ := bind_eq_ok.mp h
    obtain ⟨⟨⟩, hvalid, h⟩ := bind_eq_ok.mp h
    obtain ⟨hrange, rfl⟩ := (bitmapPayload_eq hm).mp hpayload
    exact ⟨⟨henter, hfresh, hkey⟩, hrange, validateBitmapPayload_ok.mp hvalid, (Except.ok.inj h).symm⟩
  · rintro ⟨⟨henter, hfresh, hkey⟩, hrange, hlen, rfl⟩
    have hpayload := (bitmapPayload_eq (B := c.bitMap64) hm).mpr ⟨hrange, rfl⟩
    rw [henter, hpayload, hfresh, hkey]
    simp only [bind, Except.bind, validateBitmapPayload_ok.mpr hlen, pure, Except.pure]

theorem ingest_succeeds (hB : Lawful self.client.bitMap64) (hw : WellFormed w.service)
    (ha : accepts self.client w.clock w.service = .ok ()) :
    World.handler.Succeeds self.ingest w ↔ Accepted self.client w.service := by
  rw [DeepSeeSynchronizer.ingest, Handler.succeeds_bind, Accepted]
  simp only [exec_fetchSnapshot]
  split
  · rename_i hm
    have hmal := hw.bitmap hm
    have hserialize := hB.roundTrips w.service.members.keys
    constructor
    · rintro ⟨page, w₁, hexec, -⟩
      obtain ⟨-, hrange, hlen, -⟩ := (fetchSnapshot_bitmap_iff hm hmal).mp (Prod.mk.inj hexec).1
      exact ⟨hrange, hlen⟩
    · rintro ⟨hrange, hlen⟩
      have hvalid := validateBitmapPayload_ok.mpr hlen
      refine ⟨bitmapPage w.service (self.client.bitMap64.serialize w.service.members.keys), w, ?_, ?_⟩
      · rw [(fetchSnapshot_bitmap_iff hm hmal).mpr ⟨ha, hrange, hlen, rfl⟩]
      · have hdecode : self.client.decodeMembershipBitmap
            (bitmapPage w.service (self.client.bitMap64.serialize w.service.members.keys)) =
              .ok w.service.members.keys := by
          rw [DeepSeeClient.decodeMembershipBitmap, bitmapPage]
          simp only [hvalid, bind, Except.bind, hserialize hrange, pure, Except.pure]
        refine Handler.succeeds_bind.mpr ⟨w.service.members.keys, w, ?_, Handler.succeeds_pure⟩
        rw [hdecode]
        rfl
  · rename_i hm
    have hm : w.service.bitmapSnapshot = false := by simpa using hm
    have hids : memberIds w.service = pageIds w.service 0 ++
        (memberIds w.service).drop w.service.pageSize := (List.take_append_drop _ _).symm
    have hmem : (∀ i ∈ w.service.members, 0 ≤ i) ↔ (∀ i ∈ pageIds w.service 0, 0 ≤ i) ∧
        ∀ i ∈ (memberIds w.service).drop w.service.pageSize, 0 ≤ i := by
      rw [← List.forall_mem_append, ← hids, memberIds]
      simp only [mem_sorted, Finmap.mem_keys]
    have hloop := collectIdPagesLoop_succeeds hm ha rfl (maxPages - 1) 0
      ((idPage w.service 0).entityIds.getD []) (idPage w.service 0).scores
      (idPage w.service 0).dataAsOf (idPage w.service 0).watermark
    have hcount : w.service.pageSize + (maxPages - 1) * w.service.pageSize =
        maxPages * w.service.pageSize := by
      rw [maxPages]
      omega
    rw [Nat.zero_add, hcount, memberIds, sorted_length, ← memberIds] at hloop
    rw [hmem, and_assoc, ← hloop]
    constructor
    · rintro ⟨page, w₁, hexec, h⟩
      obtain ⟨hfetch, rfl⟩ := Prod.mk.inj hexec
      obtain ⟨-, hpage, rfl⟩ := (fetchSnapshot_ids_ok (o := 0) hm rfl).mp hfetch
      obtain ⟨_, _, h, -⟩ := Handler.succeeds_bind.mp h
      exact ⟨hpage, _, _, h⟩
    · rintro ⟨hpage, _, _, h⟩
      have hstart : MockDeepSeeService.offsetOf none = .ok ((0 : Nat) : Int) := rfl
      have hfetch := (fetchSnapshot_ids_ok hm hstart).mpr ⟨ha, hpage, rfl⟩
      exact ⟨idPage w.service 0, w, congrArg (fun x => (x, w)) hfetch,
        Handler.succeeds_bind.mpr ⟨_, _, h, Handler.succeeds_pure⟩⟩

end ContextqlServer.Deepsee.Acceptance
