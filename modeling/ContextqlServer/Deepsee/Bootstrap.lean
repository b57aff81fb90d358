import ContextqlServer.Deepsee.Batch

namespace ContextqlServer.Deepsee.Bootstrap

open ContextqlServer.Lib.Effect ContextqlServer.Lib.Mapping ContextqlServer.Lib.Python
open ContextqlServer.Lib.Rely
open ContextqlServer.Deepsee.Models ContextqlServer.Deepsee.MockService
open ContextqlServer.Deepsee.Client ContextqlServer.Deepsee.Store
open ContextqlServer.Deepsee.Synchronizer ContextqlServer.Deepsee.History

def memberIds (s : MockDeepSeeService) : List Int := sorted s.members.keys

def pageIds (s : MockDeepSeeService) (o : Nat) : List Int := ((memberIds s).drop o).take s.pageSize

def idPage (s : MockDeepSeeService) (o : Nat) : SnapshotPage where
  entityKeyType := s.entityKeyType
  dataAsOf := s.dataAsOf
  watermark := s.watermark
  entityIds := some (pageIds s o)
  membershipBitmap := none
  bitmapEncoding := none
  scores := collect s.members.lookup (pageIds s o)
  evidenceRefs := collect (fun i => some (evidenceRef i)) (pageIds s o)
  nextCursor :=
    if o + s.pageSize < (memberIds s).length then some (toString ((o + s.pageSize : Nat) : Int))
    else none

/-- What the service and the client require of a page whatever it lists. -/
def accepts (c : DeepSeeClient) (now : Timestamp) (s : MockDeepSeeService) : Except Exn Unit := do
  s.enterCall c.token
  c.validateFreshness now s.dataAsOf
  DeepSeeClient.validateKeyType s.entityKeyType

variable {s : MockDeepSeeService} {c : DeepSeeClient} {now : Timestamp} {page : SnapshotPage}

theorem offsetOf_toString (n : Nat) :
    MockDeepSeeService.offsetOf (some (toString (n : Int))) = .ok (n : Int) := intOf_toString n

theorem snapshot_ids {B : BitMap64} {o : Nat} {cursor token : Option String}
    (hm : s.bitmapSnapshot = false) (ho : MockDeepSeeService.offsetOf cursor = .ok (o : Int)) :
    s.snapshot B cursor token = (do s.enterCall token; return idPage s o) := by
  have hnext : s.nextCursorOf o (decide ((o : Int) + s.pageSize < (memberIds s).length)) =
      (idPage s o).nextCursor := by
    rw [MockDeepSeeService.nextCursorOf, idPage, ← Int.natCast_add]
    simp only [Int.ofNat_lt, decide_eq_true_eq]
  have hids : slice (memberIds s) o (o + s.pageSize) = pageIds s o := slice_natCast _ _ _
  rw [MockDeepSeeService.snapshot, hm, if_neg Bool.false_ne_true, ho]
  cases s.enterCall token with
  | error e => rfl
  | ok u =>
    rw [memberIds] at hnext hids
    simp only [bind, Except.bind, pure, Except.pure, hids, hnext]
    rfl

theorem fetchSnapshot_ids {o : Nat} {cursor : Option String} (hm : s.bitmapSnapshot = false)
    (ho : MockDeepSeeService.offsetOf cursor = .ok (o : Int)) :
    c.fetchSnapshot now s cursor =
      (do accepts c now s; DeepSeeClient.validateEntityIds (some (pageIds s o)); return idPage s o) := by
  rw [DeepSeeClient.fetchSnapshot, snapshot_ids hm ho, accepts]
  cases s.enterCall c.token with
  | error e => rfl
  | ok u =>
    simp only [bind, Except.bind, pure, Except.pure, idPage]
    cases c.validateFreshness now s.dataAsOf with
    | error e => rfl
    | ok u =>
      cases DeepSeeClient.validateKeyType s.entityKeyType with
      | error e => rfl
      | ok u => rfl

theorem validateEntityIds_eq_ok {ids : List Int} :
    DeepSeeClient.validateEntityIds (some ids) = .ok () ↔ ∀ i ∈ ids, 0 ≤ i := by
  rw [DeepSeeClient.validateEntityIds]
  cases h : ids.find? (· < 0) with
  | some i =>
    have hi := List.find?_some h
    have hmem := List.mem_of_find?_eq_some h
    simp only [reduceCtorEq, false_iff, not_forall]
    exact ⟨i, hmem, by simpa using hi⟩
  | none => simpa using h

theorem fetchSnapshot_ids_ok {o : Nat} {cursor : Option String} (hm : s.bitmapSnapshot = false)
    (ho : MockDeepSeeService.offsetOf cursor = .ok (o : Int)) :
    c.fetchSnapshot now s cursor = .ok page ↔
      accepts c now s = .ok () ∧ (∀ i ∈ pageIds s o, 0 ≤ i) ∧ page = idPage s o := by
  rw [fetchSnapshot_ids hm ho, ← validateEntityIds_eq_ok]
  cases accepts c now s with
  | error e => simp [bind, Except.bind]
  | ok u =>
    cases DeepSeeClient.validateEntityIds (some (pageIds s o)) with
    | error e => simp [bind, Except.bind]
    | ok u => simp [bind, Except.bind, pure, Except.pure, eq_comm]

def bitmapPage (s : MockDeepSeeService) (payload : List UInt8) : SnapshotPage where
  entityKeyType := s.entityKeyType
  dataAsOf := s.dataAsOf
  watermark := s.watermark
  entityIds := none
  membershipBitmap := some payload
  bitmapEncoding := some supportedBitmapEncoding
  scores := s.members
  evidenceRefs := collect (fun i => some (evidenceRef i)) (memberIds s)
  nextCursor := none

theorem fetchSnapshot_bitmap {cursor : Option String} (hm : s.bitmapSnapshot = true) :
    c.fetchSnapshot now s cursor = (do
      s.enterCall c.token
      let payload ← s.bitmapPayload c.bitMap64
      c.validateFreshness now s.dataAsOf
      DeepSeeClient.validateKeyType s.entityKeyType
      c.validateBitmapPayload payload (some supportedBitmapEncoding)
      return bitmapPage s payload) := by
  rw [DeepSeeClient.fetchSnapshot, MockDeepSeeService.snapshot, if_pos hm,
    MockDeepSeeService.bitmapSnapshotPage]
  cases s.enterCall c.token with
  | error e => rfl
  | ok u =>
    cases s.bitmapPayload c.bitMap64 with
    | error e => rfl
    | ok payload =>
      simp only [bind, Except.bind, pure, Except.pure, bitmapPage]
      cases c.validateFreshness now s.dataAsOf with
      | error e => rfl
      | ok u =>
        cases DeepSeeClient.validateKeyType s.entityKeyType with
        | error e => rfl
        | ok u => rfl

theorem fetchSnapshot_bitmap_ok {cursor : Option String} (hm : s.bitmapSnapshot = true)
    (h : c.fetchSnapshot now s cursor = .ok page) :
    ∃ payload, s.bitmapPayload c.bitMap64 = .ok payload ∧ page = bitmapPage s payload := by
  rw [fetchSnapshot_bitmap hm] at h
  obtain ⟨_, -, h⟩ := bind_eq_ok.mp h
  obtain ⟨payload, hpayload, h⟩ := bind_eq_ok.mp h
  obtain ⟨_, -, h⟩ := bind_eq_ok.mp h
  obtain ⟨_, -, h⟩ := bind_eq_ok.mp h
  obtain ⟨_, -, h⟩ := bind_eq_ok.mp h
  exact ⟨payload, hpayload, (Except.ok.inj h).symm⟩

theorem deserialize_bitmapPayload {B : BitMap64} {payload : List UInt8} (hB : Lawful B)
    (hp : s.bitmapPayload B = .ok payload) :
    B.deserialize payload = if s.malformedBitmap then none else some s.members.keys := by
  rw [MockDeepSeeService.bitmapPayload] at hp
  by_cases hmal : s.malformedBitmap = true
  · rw [if_pos hmal] at hp
    obtain rfl := Except.ok.inj hp
    rw [if_pos hmal, hB.rejects]
  · rw [if_neg hmal] at hp
    cases hids : B.ofIds (sorted s.members.keys) with
    | error e =>
      rw [hids] at hp
      cases hp
    | ok members =>
      rw [hids] at hp
      obtain rfl := Except.ok.inj hp
      obtain ⟨hrange, rfl⟩ := BitMap64.ofIds_eq_ok.mp hids
      rw [if_neg hmal, sorted_toFinset, hB.roundTrips]
      intro i hi
      exact hrange i (mem_sorted.mpr hi)

theorem decode_bitmapPage {payload : List UInt8} {members : Finset Int} (hB : Lawful c.bitMap64)
    (hp : s.bitmapPayload c.bitMap64 = .ok payload)
    (h : c.decodeMembershipBitmap (bitmapPage s payload) = .ok members) :
    members = s.members.keys := by
  obtain ⟨_, -, h⟩ := bind_eq_ok.mp h
  rw [deserialize_bitmapPayload hB hp] at h
  cases hmal : s.malformedBitmap with
  | true =>
    rw [hmal] at h
    cases h
  | false =>
    rw [hmal] at h
    exact (Except.ok.inj h).symm

section Rest

variable {self : DeepSeeSynchronizer} {G : SyncOp → World → Prop} {R : World → World → Prop}
  {I : World → Prop} {w : World}

variable (self) in
/-- The id pages of a source at rest, from the one at offset `o` on. -/
theorem collectIdPagesLoop_keeps
    {Q : Except Exn (List Int × Dict Int Float64 × WireTime × String) → World → Prop}
    (htrans : ∀ w w' w'', R w w' → R w' w'' → R w w'')
    (hR : ∀ w w', R w w' → w'.service = w.service) (hm : s.bitmapSnapshot = false)
    (hok : ∀ w', R w w' → I w' → Q (.ok (memberIds s, s.members, s.dataAsOf, s.watermark)) w')
    (herr : ∀ e w', R w w' → I w' → Q (.error e) w')
    (remaining o : Nat) (w₁ : World) (hw : R w w₁) (hI : I w₁)
    (hs : w₁.service = s) :
    Keeps (Guarded G) R I Q
      (self.collectIdPagesLoop remaining ((memberIds s).take (o + s.pageSize))
        (collect s.members.lookup ((memberIds s).take (o + s.pageSize))) s.dataAsOf s.watermark
        (idPage s o).nextCursor) w₁ := by
  induction remaining generalizing o w₁ with
  | zero =>
    by_cases hlast : o + s.pageSize < (memberIds s).length
    · rw [idPage, if_pos hlast]
      exact herr _ w₁ hw hI
    · rw [idPage, if_neg hlast, List.take_of_length_le (Nat.not_lt.mp hlast), memberIds,
        collect_lookup_sorted]
      exact hok w₁ hw hI
  | succ remaining ih =>
    by_cases hlast : o + s.pageSize < (memberIds s).length
    · rw [idPage, if_pos hlast]
      refine .bind (fetchSnapshot_keeps hI ?_ ?_)
      · intro page w₂ hw₂ hI₂ hpage
        have hs₂ : w₂.service = s := (hR _ _ hw₂).trans hs
        rw [hs₂] at hpage
        obtain ⟨-, -, rfl⟩ := (fetchSnapshot_ids_ok hm (offsetOf_toString _)).mp hpage
        have htake : (memberIds s).take (o + s.pageSize) ++ pageIds s (o + s.pageSize) =
            (memberIds s).take (o + s.pageSize + s.pageSize) := (List.take_add ..).symm
        have hscores : (idPage s (o + s.pageSize)).scores ∪
            collect s.members.lookup ((memberIds s).take (o + s.pageSize)) =
            collect s.members.lookup ((memberIds s).take (o + s.pageSize + s.pageSize)) := by
          rw [← htake, collect_append]
          rfl
        have h := ih (o + s.pageSize) w₂ (htrans _ _ _ hw hw₂) hI₂ hs₂
        rw [← hscores, ← htake] at h
        exact h
      · exact fun e w₂ hw₂ hI₂ => herr e w₂ (htrans _ _ _ hw hw₂) hI₂
    · rw [idPage, if_neg hlast, List.take_of_length_le (Nat.not_lt.mp hlast), memberIds,
        collect_lookup_sorted]
      exact hok w₁ hw hI

theorem ingest_keeps
    {Q : Except Exn (Finset Int × Dict Int Float64 × WireTime × String) → World → Prop}
    (htrans : ∀ w w' w'', R w w' → R w' w'' → R w w'')
    (hR : ∀ w w', R w w' → w'.service = w.service) (hB : Lawful self.client.bitMap64)
    (hI : I w)
    (hok : ∀ w', R w w' → I w' → Q (.ok (w.service.members.keys, w.service.members,
      w.service.dataAsOf, w.service.watermark)) w')
    (herr : ∀ e w', R w w' → I w' → Q (.error e) w') :
    Keeps (Guarded G) R I Q self.ingest w := by
  refine .bind (fetchSnapshot_keeps hI ?_ herr)
  intro page w₁ hw₁ hI₁ hpage
  rw [hR _ _ hw₁] at hpage
  by_cases hm : w.service.bitmapSnapshot = true
  · obtain ⟨payload, hpayload, rfl⟩ := fetchSnapshot_bitmap_ok hm hpage
    cases hd : self.client.decodeMembershipBitmap (bitmapPage w.service payload) with
    | error e =>
      simp only [bitmapPage] at hd ⊢
      simp only [hd, Prog.ofExcept]
      exact herr e w₁ hw₁ hI₁
    | ok members =>
      have hmembers := decode_bitmapPage hB hpayload hd
      simp only [bitmapPage] at hd ⊢
      simp only [hd, Prog.ofExcept, hmembers]
      exact hok w₁ hw₁ hI₁
  · have hm' : w.service.bitmapSnapshot = false := by simpa using hm
    obtain ⟨-, -, rfl⟩ := (fetchSnapshot_ids_ok (o := 0) hm' rfl).mp hpage
    have hpages := collectIdPagesLoop_keeps self (G := G)
      (Q := fun out w' => Except.casesOn out (fun e => Q (.error e) w')
        (fun pages => Keeps (Guarded G) R I Q (pure (pages.1.toFinset, pages.2)) w')) htrans hR hm' ?_ herr
      (maxPages - 1) 0 w₁ hw₁ hI₁ (hR _ _ hw₁)
    · rw [Nat.zero_add] at hpages
      exact .bind (hpages.mono (fun out _ h => by cases out <;> exact h))
    · intro w' hw' hI'
      have h := hok w' hw' hI'
      rw [← sorted_toFinset w.service.members.keys] at h
      exact h

end Rest

section Moving

variable {initial : Dict Int Float64} {self : DeepSeeSynchronizer} {G : SyncOp → World → Prop}
  {R : World → World → Prop} {I : World → Prop} {w : World}

theorem fetchSnapshot_watermark {cursor : Option String}
    (h : c.fetchSnapshot now s cursor = .ok page) : page.watermark = s.watermark := by
  have hpage : s.snapshot c.bitMap64 cursor c.token = .ok page := by
    obtain ⟨page', hpage, h⟩ := bind_eq_ok.mp h
    obtain ⟨_, -, h⟩ := bind_eq_ok.mp h
    obtain ⟨_, -, h⟩ := bind_eq_ok.mp h
    split at h
    all_goals
      obtain ⟨_, -, h⟩ := bind_eq_ok.mp h
      obtain rfl := Except.ok.inj h
      exact hpage
  obtain ⟨_, -, hpage⟩ := bind_eq_ok.mp hpage
  split at hpage
  · obtain ⟨_, -, hpage⟩ := bind_eq_ok.mp hpage
    obtain rfl := Except.ok.inj hpage
    rfl
  · obtain ⟨_, -, hpage⟩ := bind_eq_ok.mp hpage
    obtain rfl := Except.ok.inj hpage
    rfl

/-- While the source moves a full read still ends with a watermark that is not
older than its beginning. -/
theorem ingest_watermark
    {Q : Except Exn (Finset Int × Dict Int Float64 × WireTime × String) → World → Prop}
    (htrans : ∀ w w' w'', R w w' → R w' w'' → R w w'')
    (hR : ∀ w w', R w w' → Extends w.service w'.service)
    (hcoh : ∀ w, I w → Coherent initial w.service) (hI : I w)
    (hok : ∀ n w', R w w' → I w' → w.service.events.length ≤ n → n ≤ w'.service.events.length →
      ∀ members scores dataAsOf, Q (.ok (members, scores, dataAsOf, watermarkOf n)) w')
    (herr : ∀ e w', R w w' → I w' → Q (.error e) w') :
    Keeps (Guarded G) R I Q self.ingest w := by
  have hloop : ∀ remaining members scores dataAsOf n cursor w₁, R w w₁ → I w₁ →
      w.service.events.length ≤ n → n ≤ w₁.service.events.length →
      Keeps (Guarded G) R I (fun out w' => match out with
        | .ok (ids, a) => Keeps (Guarded G) R I Q (pure (ids.toFinset, a)) w'
        | .error e => Q (.error e) w')
        (self.collectIdPagesLoop remaining members scores dataAsOf (watermarkOf n) cursor) w₁ := by
    intro remaining
    induction remaining with
    | zero =>
      intro members scores dataAsOf n cursor w₁ hw₁ hI₁ hn hn'
      cases cursor with
      | none => exact hok n w₁ hw₁ hI₁ hn hn' _ _ _
      | some cursor => exact herr _ w₁ hw₁ hI₁
    | succ remaining ih =>
      intro members scores dataAsOf n cursor w₁ hw₁ hI₁ hn hn'
      cases cursor with
      | none => exact hok n w₁ hw₁ hI₁ hn hn' _ _ _
      | some cursor =>
        refine .bind (fetchSnapshot_keeps hI₁ ?_ ?_)
        · intro page w₂ hw₂ hI₂ hpage
          have hw := fetchSnapshot_watermark hpage
          rw [MockDeepSeeService.watermark, (hcoh w₂ hI₂).seq_eq] at hw
          simp only [hw]
          exact ih _ _ _ _ _ w₂ (htrans _ _ _ hw₁ hw₂) hI₂
            (hR _ _ (htrans _ _ _ hw₁ hw₂)).length_le le_rfl
        · exact fun e w₂ hw₂ hI₂ => herr e w₂ (htrans _ _ _ hw₁ hw₂) hI₂
  refine .bind (fetchSnapshot_keeps hI ?_ herr)
  intro page w₁ hw₁ hI₁ hpage
  have hw := fetchSnapshot_watermark hpage
  rw [MockDeepSeeService.watermark, (hcoh w₁ hI₁).seq_eq] at hw
  have hlen := (hR _ _ hw₁).length_le
  obtain ⟨_, dataAsOf, _, ids, payload, _, scores, _, next⟩ := page
  dsimp only at hw
  subst hw
  cases payload with
  | some payload =>
    simp only
    refine .bind (.ofExcept ?_)
    cases self.client.decodeMembershipBitmap _ with
    | ok members => exact hok _ w₁ hw₁ hI₁ hlen le_rfl _ _ _
    | error e => exact herr e w₁ hw₁ hI₁
  | none =>
    exact .bind ((hloop _ _ _ _ _ _ w₁ hw₁ hI₁ hlen le_rfl).mono
      (fun out _ h => by cases out <;> exact h))

end Moving

/-- The rule of `bootstrap`, from what its reading establishes. -/
theorem bootstrap_keeps {self : DeepSeeSynchronizer} {G : SyncOp → World → Prop}
    {R : World → World → Prop} {I : World → Prop} {w : World}
    {P : MembershipSnapshot → World → Prop}
    {Q : Except Exn (MembershipSnapshot × DeepSeeSynchronizer) → World → Prop} {now : Timestamp}
    (htrans : ∀ w w' w'', R w w' → R w' w'' → R w w'')
    (hread : Keeps (Guarded G) R I (fun out w' => match out with
      | .ok (members, scores, dataAsOf, watermark) =>
        I w' ∧ ∀ asOf, parseIso dataAsOf = .ok asOf → P ⟨members, scores, now, asOf, watermark⟩ w'
      | .error e => Q (.error e) w') self.ingest w)
    (hpub : ∀ s w₁ w₂, P s w₁ → R w₁ w₂ → I w₂ →
      G (.commitSnapshot (.snapshot s)) w₂ ∨ G (.putSnapshot s) w₂ →
      Commits G R I Q self.stateRepository self.contextId s.sourceWatermark []
        (s, { self with committedWatermark := some s.sourceWatermark })
        { w₂ with store := some s })
    (herr : ∀ e w₁, I w₁ → Q (.error e) w₁) :
    Keeps (Guarded G) R I Q (self.bootstrap now) w := by
  refine .bind (hread.mono ?_)
  intro out w₁ hout
  cases out with
  | error e => exact hout
  | ok a =>
    obtain ⟨hI₁, hP⟩ := hout
    refine .bind (.ofExcept ?_)
    cases hasOf : parseIso a.2.2.1 with
    | error e => exact herr e w₁ hI₁
    | ok asOf =>
      refine .bind (publishSnapshot_keeps hI₁ htrans ?_ ?_)
      · exact fun w₂ hw₂ hI₂ hG => (hpub _ w₁ w₂ (hP asOf hasOf) hw₂ hI₂ hG).keeps
      · exact fun e w₂ _ hI₂ => herr e w₂ hI₂

end ContextqlServer.Deepsee.Bootstrap
