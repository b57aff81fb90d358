import ContextqlServer.Deepsee.Chains

namespace ContextqlServer.Deepsee.Int64Keys

open ContextqlServer.Lib.Effect ContextqlServer.Lib.Log ContextqlServer.Lib.Mapping
open ContextqlServer.Lib.Python ContextqlServer.Lib.Rely
open ContextqlServer.Deepsee.Models ContextqlServer.Deepsee.MockService
open ContextqlServer.Deepsee.Client ContextqlServer.Deepsee.Store
open ContextqlServer.Deepsee.Synchronizer ContextqlServer.Deepsee.Wire
open ContextqlServer.Deepsee.Chains ContextqlServer.Deepsee.Machine

def IsInt64Key (i : Int) : Prop := 0 ≤ i ∧ i < 2 ^ 63

instance (i : Int) : Decidable (IsInt64Key i) := inferInstanceAs (Decidable (0 ≤ i ∧ i < 2 ^ 63))

/-- A response as it comes from the wire, and the time when it comes; of a page, whether the
first one was asked for. -/
inductive Response where
  | page (now : Timestamp) (first : Bool) (page : SnapshotPage)
  | batch (now : Timestamp) (batch : ChangeBatch)

/-- What a call has been sent so far, and what it has asked the store for. -/
structure Exchange where
  base : World
  responses : List Response
  passed : List SyncOp

def isFetch : SyncOp → Bool
  | .fetchSnapshot _ _ | .fetchChanges _ _ _ => true
  | _ => false

/-- The wire sends what it likes, or nothing; the store and the state repository may fail. -/
inductive Answers : Answering syncSig Exn Exchange
  | page (client : DeepSeeClient) (cursor : Option String) (now : Timestamp) (page : SnapshotPage) (w : Exchange) :
      Answers (.fetchSnapshot client cursor) w (receiveSnapshot client now page)
        { w with responses := w.responses ++ [.page now cursor.isNone page] }
  | batch (client : DeepSeeClient) (since : String) (cursor : Option String) (now : Timestamp) (batch : ChangeBatch)
      (w : Exchange) :
      Answers (.fetchChanges client since cursor) w (receiveChanges client now batch)
        { w with responses := w.responses ++ [.batch now batch] }
  | nothing {o : SyncOp} (hfetch : isFetch o = true) (e : Exn) (w : Exchange) : Answers o w (.error e) w
  | store {o : SyncOp} {r : Except Exn (syncSig.Res o)} {w : Exchange} {base : World} (hstore : isFetch o = false)
      (hA : World.handler.Faulty o w.base r base) : Answers o w r { w with base, passed := w.passed ++ [o] }

/-- The ids that an operation passes to the membership store. -/
def keysOf : SyncOp → Finset Int
  | .stageSnapshot s | .putSnapshot s => s.members ∪ s.scores.keys
  | .stageDelta d | .applyDelta d => d.additions.toFinset ∪ d.removals.toFinset ∪ d.scoreChanges.keys
  | _ => ∅

def Response.Accepted (c : DeepSeeClient) : Response → Prop
  | .page now _ p => Wire.Accepted c now p
  | .batch now b => Fresh c now b.dataAsOf

def Response.dataAsOf : Response → WireTime
  | .page _ _ p => p.dataAsOf
  | .batch _ b => b.dataAsOf

def eventsOf (responses : List Response) : List ChangeEvent :=
  responses.flatMap fun
    | .page _ _ _ => []
    | .batch _ batch => batch.events

/-- The ids on a page that are taken up: those of its bitmap where it is the first page
and has one that can be read, else those of its list, and the keys of its scores. -/
def pageKeys (B : BitMap64) (first : Bool) (page : SnapshotPage) (i : Int) : Prop :=
  match first, page.membershipBitmap with
  | true, some payload => ∃ members, B.deserialize payload = some members ∧ (i ∈ members ∨ i ∈ page.scores)
  | _, _ => i ∈ listed page ∨ i ∈ page.scores

def Unseen (self : DeepSeeSynchronizer) (e : ChangeEvent) : Prop :=
  e.eventId ∉ self.seenEventIds ∧ ∃ boundary watermark,
    parseWatermark (some self.boundaryText) = .ok boundary ∧ parseWatermark (some e.watermark) = .ok watermark ∧
      boundary < watermark

/-- The first such event of its id among those delivered. -/
def Applicable (self : DeepSeeSynchronizer) (events : List ChangeEvent) (e : ChangeEvent) : Prop :=
  ∃ front back, events = front ++ e :: back ∧ Unseen self e ∧
    ∀ e' ∈ front, Unseen self e' → e'.eventId ≠ e.eventId

/-- Events none of which is malformed where it would be applied. -/
structure WellFormed (sync : DeepSeeSynchronizer) (events : List ChangeEvent) : Prop where
  watermark : ∀ front e back, events = front ++ e :: back → e.eventId ∉ sync.seenEventIds →
    (∀ e' ∈ front, Unseen sync e' → e'.eventId ≠ e.eventId) → ∃ n, parseWatermark (some e.watermark) = .ok n
  score : ∀ e, Applicable sync events e → e.changeType = .scoreChanged → e.score.isSome

def TakenUp (self : DeepSeeSynchronizer) (responses : List Response) (i : Int) : Prop :=
  (∃ now first page, .page now first page ∈ responses ∧ pageKeys self.client.bitMap64 first page i) ∨
    WellFormed self (eventsOf responses) ∧ ∃ e, Applicable self (eventsOf responses) e ∧ e.entityId = i

section Publish

variable {self : DeepSeeSynchronizer} {K : Int → Prop} {w w' w'' : Exchange}

/-- Operations whose ids are in `K` have been passed on, and nothing has been fetched. -/
structure Publishes (K : Int → Prop) (w w' : Exchange) : Prop where
  responses : w'.responses = w.responses
  passed : ∃ ops, w'.passed = w.passed ++ ops ∧ ∀ o ∈ ops, ∀ i ∈ keysOf o, K i

theorem Publishes.refl (w : Exchange) : Publishes K w w := ⟨rfl, [], (List.append_nil _).symm, nofun⟩

theorem Publishes.trans (h : Publishes K w w') (h' : Publishes K w' w'') : Publishes K w w'' := by
  obtain ⟨ops, hops, hkeys⟩ := h.passed
  obtain ⟨ops', hops', hkeys'⟩ := h'.passed
  refine ⟨h'.responses.trans h.responses, ops ++ ops', ?_, ?_⟩
  · rw [hops', hops, List.append_assoc]
  · intro o ho
    obtain ho | ho := List.mem_append.mp ho
    · exact hkeys o ho
    · exact hkeys' o ho

theorem store_keeps {o : SyncOp} {Q : Except Exn (syncSig.Res o) → Exchange → Prop} (hstore : isFetch o = false)
    (hK : ∀ i ∈ keysOf o, K i) (hQ : ∀ r w', Publishes K w w' → Q r w') :
    Keeps Answers Eq (fun _ => True) Q (Prog.perform (S := syncSig) o) w := by
  apply Keeps.perform trivial
  rintro _ rfl - r w₂ hA
  cases hA with
  | page | batch => cases hstore
  | nothing hfetch => rw [hstore] at hfetch; cases hfetch
  | store _ hA =>
    refine hQ r _ ⟨rfl, [o], rfl, ?_⟩
    intro o' ho'
    obtain rfl := List.mem_singleton.mp ho'
    exact hK

theorem publishSnapshot_keeps {s : MembershipSnapshot} (hK : ∀ i ∈ s.members ∪ s.scores.keys, K i) :
    Keeps Answers Eq (fun _ => True) (fun _ w' => Publishes K w w') (self.publishSnapshot s) w := by
  rw [DeepSeeSynchronizer.publishSnapshot]
  split
  · apply Keeps.bind
    refine store_keeps (o := .stageSnapshot s) rfl hK ?_
    rintro (e | staged) w₁ hw₁
    · exact hw₁
    · exact store_keeps (o := .commitSnapshot staged) rfl (by simp [keysOf]) fun _ w₂ hw₂ => hw₁.trans hw₂
  · exact store_keeps (o := .putSnapshot s) rfl hK fun _ _ hw₁ => hw₁

theorem publishDelta_keeps {d : Delta}
    (hK : ∀ i ∈ d.additions.toFinset ∪ d.removals.toFinset ∪ d.scoreChanges.keys, K i) :
    Keeps Answers Eq (fun _ => True) (fun _ w' => Publishes K w w') (self.publishDelta d) w := by
  rw [DeepSeeSynchronizer.publishDelta]
  split
  · apply Keeps.bind
    refine store_keeps (o := .stageDelta d) rfl hK ?_
    rintro (e | staged) w₁ hw₁
    · exact hw₁
    · exact store_keeps (o := .commitSnapshot staged) rfl (by simp [keysOf]) fun _ w₂ hw₂ => hw₁.trans hw₂
  · exact store_keeps (o := .applyDelta d) rfl hK fun _ _ hw₁ => hw₁

theorem commits_keeps {α : Type} {contextId watermark : String} {events : List (String × String)} {a : α}
    (b : Bool) :
    Keeps Answers Eq (fun _ => True) (fun _ w' => Publishes K w w')
      (do
        if b then
          commitState contextId watermark events
        pure a) w := by
  cases b with
  | false => exact Publishes.refl w
  | true =>
    apply Keeps.bind
    refine store_keeps (K := K) (o := .commitState contextId watermark events) rfl (by simp [keysOf]) ?_
    rintro (e | a) w₁ hw₁
    · exact hw₁
    · exact hw₁

end Publish

section Read

variable {self : DeepSeeSynchronizer} {w : Exchange} {α β : Type}

def Exchange.sent (w : Exchange) (news : List Response) : Exchange := { w with responses := w.responses ++ news }

theorem Exchange.sent_nil (w : Exchange) : w.sent [] = w := by
  rw [sent, List.append_nil]

theorem Exchange.sent_sent (w : Exchange) (news news' : List Response) :
    (w.sent news).sent news' = w.sent (news ++ news') := by
  rw [sent, sent, sent, List.append_assoc]

/-- Responses have come, and nothing else has happened; what is not accepted ends the
call, and with a contract error if its time is one. -/
def Reads (self : DeepSeeSynchronizer) (w : Exchange) (P : α → List Response → Prop) : Except Exn α → Exchange → Prop
  | .ok a, w' => ∃ news, w' = w.sent news ∧ (∀ r ∈ news, r.Accepted self.client) ∧ P a news
  | .error e, w' => ∃ news, w' = w.sent news ∧ ((∀ r ∈ news, r.Accepted self.client) ∨
      ((∀ r ∈ news, Legible self.client r.dataAsOf) → IsContractError e))

abbrev Reading (self : DeepSeeSynchronizer) (P : α → List Response → Prop) (p : SyncProg α) (w : Exchange) : Prop :=
  Keeps Answers Eq (fun _ => True) (Reads self w P) p w

namespace Reading

theorem pure {P : α → List Response → Prop} {a : α} (h : P a []) : Reading self P (.pure a) w :=
  ⟨[], w.sent_nil.symm, nofun, h⟩

theorem throw {P : α → List Response → Prop} (e : Exn) : Reading self P (.throw e) w :=
  ⟨[], w.sent_nil.symm, .inl nofun⟩

theorem ofExcept {P : α → List Response → Prop} {x : Except Exn α} (h : ∀ a, x = .ok a → P a []) :
    Reading self P (Prog.ofExcept x) w := by
  cases x with
  | ok a => exact pure (h a rfl)
  | error e => exact throw e

theorem bind {P : α → List Response → Prop} {P' : β → List Response → Prop} {p : SyncProg α} {f : α → SyncProg β}
    (hp : Reading self P p w)
    (hf : ∀ a news, P a news → Reading self (fun b news' => P' b (news ++ news')) (f a) (w.sent news)) :
    Reading self P' (p >>= f) w := by
  apply Keeps.bind
  apply hp.mono
  rintro (e | a) w₁ h
  · exact h
  · obtain ⟨news, rfl, haccepted, hP⟩ := h
    apply (hf a news hP).mono
    rintro (e | b) w₂ h
    · obtain ⟨news', rfl, h⟩ := h
      refine ⟨news ++ news', w.sent_sent news news', ?_⟩
      obtain h | h := h
      · exact .inl fun r hr => (List.mem_append.mp hr).elim (haccepted r) (h r)
      · exact .inr fun hlegible => h fun r hr => hlegible r (List.mem_append_right news hr)
    · obtain ⟨news', rfl, h, hP'⟩ := h
      refine ⟨news ++ news', w.sent_sent news news', fun r hr => ?_, hP'⟩
      exact (List.mem_append.mp hr).elim (haccepted r) (h r)

theorem fetchSnapshot (cursor : Option String) :
    Reading self (fun page news => ∃ now, news = [.page now cursor.isNone page])
      (Store.fetchSnapshot self.client cursor) w := by
  apply Keeps.perform (S := syncSig) (o := .fetchSnapshot self.client cursor) trivial
  rintro _ rfl - r w₂ hA
  cases hA with
  | nothing hfetch e => exact ⟨[], w.sent_nil.symm, .inl nofun⟩
  | store hstore => cases hstore
  | page client cursor now page =>
    cases hreceive : receiveSnapshot self.client now page with
    | error e =>
      refine ⟨_, rfl, .inr fun hlegible => ?_⟩
      exact receiveSnapshot_contractual (hlegible _ (List.mem_singleton_self _)) e hreceive
    | ok page' =>
      obtain ⟨haccepted, rfl⟩ := receiveSnapshot_ok.mp hreceive
      exact ⟨_, rfl, fun r hr => List.mem_singleton.mp hr ▸ haccepted, now, rfl⟩

theorem fetchChanges (since : String) (cursor : Option String) :
    Reading self (fun batch news => ∃ now, news = [.batch now batch])
      (Store.fetchChanges self.client since cursor) w := by
  apply Keeps.perform (S := syncSig) (o := .fetchChanges self.client since cursor) trivial
  rintro _ rfl - r w₂ hA
  cases hA with
  | nothing hfetch e => exact ⟨[], w.sent_nil.symm, .inl nofun⟩
  | store hstore => cases hstore
  | batch client since cursor now batch =>
    cases hreceive : receiveChanges self.client now batch with
    | error e =>
      refine ⟨_, rfl, .inr fun hlegible => ?_⟩
      exact receiveChanges_contractual (hlegible _ (List.mem_singleton_self _)) e hreceive
    | ok batch' =>
      obtain ⟨hfresh, rfl⟩ := receiveChanges_ok.mp hreceive
      exact ⟨_, rfl, fun r hr => List.mem_singleton.mp hr ▸ hfresh, now, rfl⟩

theorem mono {P P' : α → List Response → Prop} {p : SyncProg α} (hP : ∀ a news, P a news → P' a news)
    (h : Reading self P p w) : Reading self P' p w := by
  apply Keeps.mono ?_ h
  rintro (e | a) w₁ h
  · exact h
  · obtain ⟨news, hsent, haccepted, h⟩ := h
    exact ⟨news, hsent, haccepted, hP a news h⟩

end Reading

/-- Some page sent has the id in a place that is taken up. -/
def OnPage (self : DeepSeeSynchronizer) (news : List Response) (i : Int) : Prop :=
  ∃ now first page, Response.page now first page ∈ news ∧ pageKeys self.client.bitMap64 first page i

theorem OnPage.append_right {news : List Response} {i : Int} (h : OnPage self news i) (front : List Response) :
    OnPage self (front ++ news) i := by
  obtain ⟨now, first, page, hpage, hkeys⟩ := h
  exact ⟨now, first, page, List.mem_append_right front hpage, hkeys⟩

theorem OnPage.head {now : Timestamp} {first : Bool} {page : SnapshotPage} {news : List Response} {i : Int}
    (h : pageKeys self.client.bitMap64 first page i) : OnPage self ([.page now first page] ++ news) i :=
  ⟨now, first, page, List.mem_cons_self, h⟩

theorem collectIdPagesLoop_reads (remaining : Nat) (ids : List Int) (scores : Dict Int Float64) (dataAsOf : WireTime)
    (watermark : String) (cursor : Option String) :
    Reading self (fun a news => ∀ i, i ∈ a.1 ∨ i ∈ a.2.1 → i ∈ ids ∨ i ∈ scores ∨ OnPage self news i)
      (self.collectIdPagesLoop remaining ids scores dataAsOf watermark cursor) w := by
  induction remaining generalizing ids scores dataAsOf watermark cursor w with
  | zero =>
    cases cursor with
    | none => exact .pure fun i hi => hi.imp_right .inl
    | some cursor => exact .throw _
  | succ remaining ih =>
    cases cursor with
    | none => exact .pure fun i hi => hi.imp_right .inl
    | some cursor =>
      apply (Reading.fetchSnapshot (some cursor)).bind
      rintro page _ ⟨now, rfl⟩
      apply (ih _ _ _ _ _).mono
      intro a news h i hi
      obtain hids | hscores | hpage := h i hi
      · obtain hids | hids := List.mem_append.mp hids
        · exact .inl hids
        · exact .inr (.inr (.head (.inl hids)))
      · obtain hscores | hscores := Finmap.mem_union.mp hscores
        · exact .inr (.inr (.head (.inr hscores)))
        · exact .inr (.inl hscores)
      · exact .inr (.inr (hpage.append_right _))

theorem ingest_reads :
    Reading self (fun a news => ∀ i, i ∈ a.1 ∨ i ∈ a.2.1 → OnPage self news i) self.ingest w := by
  rw [DeepSeeSynchronizer.ingest]
  apply (Reading.fetchSnapshot none).bind
  rintro page _ ⟨now, rfl⟩
  cases hbitmap : page.membershipBitmap with
  | some payload =>
    apply Reading.bind (P := fun members news => news = [] ∧ self.client.bitMap64.deserialize payload = some members)
    · apply Reading.ofExcept
      intro members hmembers
      refine ⟨rfl, ?_⟩
      simp only [DeepSeeClient.decodeMembershipBitmap, hbitmap] at hmembers
      obtain ⟨_, -, hmembers⟩ := bind_eq_ok.mp hmembers
      split at hmembers
      · obtain rfl := Except.ok.inj hmembers
        assumption
      · cases hmembers
    · rintro members _ ⟨rfl, hmembers⟩
      apply Reading.pure
      intro i hi
      apply OnPage.head
      simp only [pageKeys, Option.isNone_none, hbitmap]
      exact ⟨members, hmembers, hi⟩
  | none =>
    apply (collectIdPagesLoop_reads _ _ _ _ _ _).bind
    rintro ⟨ids, scores, dataAsOf, watermark⟩ news h
    apply Reading.pure
    intro i hi
    rw [List.append_nil]
    have hkeys : i ∈ listed page ∨ i ∈ page.scores ∨ OnPage self news i := h i (hi.imp_left List.mem_toFinset.mp)
    obtain hids | hscores | hpage := hkeys
    · apply OnPage.head
      simp only [pageKeys, Option.isNone_none, hbitmap]
      exact .inl hids
    · apply OnPage.head
      simp only [pageKeys, Option.isNone_none, hbitmap]
      exact .inr hscores
    · exact hpage.append_right _

theorem eventsOf_append (front back : List Response) : eventsOf (front ++ back) = eventsOf front ++ eventsOf back :=
  List.flatMap_append

theorem fetchAllChangesLoop_reads (committed : String) (remaining : Nat) (events : List ChangeEvent)
    (cursor : Option String) :
    Reading self (fun a news => a.1 = events ++ eventsOf news)
      (self.fetchAllChangesLoop committed remaining events cursor) w := by
  induction remaining generalizing events cursor w with
  | zero => exact .throw _
  | succ remaining ih =>
    rw [DeepSeeSynchronizer.fetchAllChangesLoop]
    apply (Reading.fetchChanges committed cursor).bind
    rintro batch _ ⟨now, rfl⟩
    have hevents : ∀ news, eventsOf ([.batch now batch] ++ news) = batch.events ++ eventsOf news := by
      intro news
      rw [eventsOf_append]
      exact congrArg (fun events => events ++ eventsOf news) (List.append_nil batch.events)
    split
    · apply Reading.pure
      rw [hevents]
      exact congrArg (fun events' => events ++ events') (List.append_nil batch.events).symm
    · apply (ih _ _).mono
      intro a news h
      rw [hevents, h, List.append_assoc]

end Read

section Filter

variable {self : DeepSeeSynchronizer} {done : List ChangeEvent} {e x : ChangeEvent} {boundary : Int}

theorem applicable_snoc : Applicable self (done ++ [x]) e ↔ Applicable self done e ∨
    e = x ∧ Unseen self x ∧ ∀ e' ∈ done, Unseen self e' → e'.eventId ≠ x.eventId := by
  constructor
  · rintro ⟨front, back, hdone, he, hfront⟩
    obtain ⟨rfl, rfl⟩ | ⟨back, rfl⟩ := split_snoc hdone
    · exact .inr ⟨rfl, he, hfront⟩
    · exact .inl ⟨front, back, rfl, he, hfront⟩
  · rintro (⟨front, back, rfl, he, hfront⟩ | ⟨rfl, he, hfront⟩)
    · exact ⟨front, back ++ [x], by rw [List.append_assoc, List.cons_append], he, hfront⟩
    · exact ⟨done, [], rfl, he, hfront⟩

/-- What `_filter_events` keeps of the events gone through. -/
structure Sifts (sync : DeepSeeSynchronizer) (done : List ChangeEvent) (f : DeepSeeSynchronizer.Filtered) : Prop where
  applicable : ∀ e, e ∈ f.applicable ↔ Applicable sync done e
  ids : ∀ id, id ∈ f.batchEventIds ↔ ∃ e ∈ done, Unseen sync e ∧ e.eventId = id
  watermark : ∀ front e back, done = front ++ e :: back → e.eventId ∉ sync.seenEventIds →
    (∀ e' ∈ front, Unseen sync e' → e'.eventId ≠ e.eventId) → ∃ n, parseWatermark (some e.watermark) = .ok n

theorem Sifts.nil {duplicates outOfOrder : Nat} : Sifts self [] ⟨[], ∅, duplicates, outOfOrder⟩ where
  applicable e := by
    constructor
    · intro he
      cases he
    · rintro ⟨front, back, h, -⟩
      simp at h
  ids id := by
    constructor
    · intro hid
      cases hid
    · rintro ⟨e, he, -⟩
      cases he
  watermark front e back h := by simp at h

theorem Sifts.snoc {f : DeepSeeSynchronizer.Filtered} (h : Sifts self done f) {applicable : List ChangeEvent}
    {ids : Finset String} {duplicates outOfOrder : Nat}
    (happlicable : ∀ e, e ∈ applicable ↔ e ∈ f.applicable ∨
      e = x ∧ Unseen self x ∧ ∀ e' ∈ done, Unseen self e' → e'.eventId ≠ x.eventId)
    (hids : ∀ id, id ∈ ids ↔ id ∈ f.batchEventIds ∨ Unseen self x ∧ x.eventId = id)
    (hwatermark : x.eventId ∉ self.seenEventIds → (∀ e' ∈ done, Unseen self e' → e'.eventId ≠ x.eventId) →
      ∃ n, parseWatermark (some x.watermark) = .ok n) :
    Sifts self (done ++ [x]) ⟨applicable, ids, duplicates, outOfOrder⟩ where
  applicable e := by rw [happlicable, h.applicable, applicable_snoc]
  ids id := by simp only [hids, h.ids, List.mem_append, List.mem_singleton, or_and_right, exists_or, exists_eq_left]
  watermark front e back hdone hseen hfront := by
    obtain ⟨rfl, rfl⟩ | ⟨back, hback⟩ := split_snoc hdone
    · exact hwatermark hseen hfront
    · exact h.watermark front e back hback hseen hfront

theorem filterEvent_sifts (hboundary : parseWatermark (some self.boundaryText) = .ok boundary)
    {f f' : DeepSeeSynchronizer.Filtered} (h : Sifts self done f) (hf : self.filterEvent boundary f x = .ok f') :
    Sifts self (done ++ [x]) f' := by
  rw [DeepSeeSynchronizer.filterEvent] at hf
  split at hf
  · rename_i hdup
    obtain rfl := Except.ok.inj hf
    -- an event of a seen id, or of the id of one that has been kept
    have hold : ¬ (Unseen self x ∧ ∀ e' ∈ done, Unseen self e' → e'.eventId ≠ x.eventId) := by
      rintro ⟨⟨hseen, -⟩, hfront⟩
      obtain hseen' | hbatch := hdup
      · exact hseen hseen'
      · obtain ⟨e', he', hunseen, hid⟩ := (h.ids _).mp hbatch
        exact hfront e' he' hunseen hid
    apply h.snoc
    · exact fun e => ⟨.inl, fun he => he.resolve_right fun he => hold he.2⟩
    · intro id
      refine ⟨.inl, ?_⟩
      rintro (hid | ⟨hunseen, rfl⟩)
      · exact hid
      · exact hdup.resolve_left hunseen.1
    · intro hseen hfront
      obtain ⟨e', he', hunseen, hid⟩ := (h.ids _).mp (hdup.resolve_left hseen)
      exact absurd hid (hfront e' he' hunseen)
  · rename_i hdup
    obtain ⟨hseen, hbatch⟩ := not_or.mp hdup
    obtain ⟨watermark, hwatermark, hf⟩ := bind_eq_ok.mp hf
    split at hf
    · rename_i hle
      obtain rfl := Except.ok.inj hf
      have hold : ¬ Unseen self x := by
        rintro ⟨-, boundary', watermark', hboundary', hwatermark', hlt⟩
        obtain rfl := Except.ok.inj (hboundary.symm.trans hboundary')
        obtain rfl := Except.ok.inj (hwatermark.symm.trans hwatermark')
        exact absurd hle (not_le.mpr hlt)
      apply h.snoc
      · exact fun e => ⟨.inl, fun he => he.resolve_right fun he => hold he.2.1⟩
      · exact fun id => ⟨.inl, fun hid => hid.resolve_right fun hid => hold hid.1⟩
      · exact fun _ _ => ⟨watermark, hwatermark⟩
    · rename_i hle
      obtain rfl := Except.ok.inj hf
      have hunseen : Unseen self x := ⟨hseen, boundary, watermark, hboundary, hwatermark, not_le.mp hle⟩
      apply h.snoc
      · intro e
        rw [List.mem_append, List.mem_singleton]
        refine or_congr_right (iff_self_and.mpr fun _ => ⟨hunseen, ?_⟩)
        intro e' he' hunseen' hid
        exact hbatch ((h.ids _).mpr ⟨e', he', hunseen', hid⟩)
      · intro id
        rw [Finset.mem_insert, or_comm, eq_comm]
        exact or_congr_right (iff_and_self.mpr fun _ => hunseen)
      · exact fun _ _ => ⟨watermark, hwatermark⟩

theorem filterEvents_sifts {events : List ChangeEvent} {f : DeepSeeSynchronizer.Filtered}
    (h : self.filterEvents events = .ok f) : Sifts self events f := by
  rw [DeepSeeSynchronizer.filterEvents] at h
  obtain ⟨boundary, hboundary, h⟩ := bind_eq_ok.mp h
  exact foldlM_keeps (P := Sifts self) (fun _ _ _ _ => filterEvent_sifts hboundary) .nil h

theorem mem_sortedByWatermark {events ordered : List ChangeEvent} (h : sortedByWatermark events = .ok ordered) :
    e ∈ ordered ↔ e ∈ events := by
  obtain ⟨keyed, hkeyed, h⟩ := bind_eq_ok.mp h
  obtain rfl := Except.ok.inj h
  have hpair : ∀ n a, (n, a) ∈ keyed ↔ a ∈ events ∧ parseWatermark (some a.watermark) = .ok n := by
    intro n a
    rw [mem_of_mapM hkeyed]
    constructor
    · rintro ⟨b, hb, hkey⟩
      obtain ⟨m, hm, hkey⟩ := bind_eq_ok.mp hkey
      obtain ⟨rfl, rfl⟩ := Prod.mk.inj (Except.ok.inj hkey)
      exact ⟨hb, hm⟩
    · rintro ⟨ha, hn⟩
      exact ⟨a, ha, bind_eq_ok.mpr ⟨n, hn, rfl⟩⟩
  rw [List.mem_map]
  constructor
  · rintro ⟨⟨n, a⟩, ha, rfl⟩
    exact ((hpair n a).mp ((List.mem_insertionSort _).mp ha)).1
  · intro he
    obtain ⟨⟨n, a⟩, hna⟩ := ok_of_mapM hkeyed he
    obtain ⟨m, hm, hkey⟩ := bind_eq_ok.mp hna
    exact ⟨(m, e), (List.mem_insertionSort _).mpr ((hpair m e).mpr ⟨he, hm⟩), rfl⟩

structure Gathers (done : List ChangeEvent) (f : FoldedChanges) : Prop where
  keys : ∀ i, i ∈ f.additions ∨ i ∈ f.removals ∨ i ∈ f.scoreChanges → ∃ e ∈ done, e.entityId = i
  score : ∀ e ∈ done, e.changeType = .scoreChanged → e.score.isSome

theorem foldEvent_gathers {f f' : FoldedChanges} (h : Gathers done f) (hf : foldEvent f x = .ok f') :
    Gathers (done ++ [x]) f' := by
  have hkeys : (∀ i, i ∈ f'.additions ∨ i ∈ f'.removals ∨ i ∈ f'.scoreChanges →
      i = x.entityId ∨ i ∈ f.additions ∨ i ∈ f.removals ∨ i ∈ f.scoreChanges) ∧
      (x.changeType = .scoreChanged → x.score.isSome) := by
    rw [foldEvent] at hf
    cases htype : x.changeType with
    | added =>
      rw [htype] at hf
      obtain rfl := Except.ok.inj hf
      refine ⟨fun i hi => ?_, fun heq => absurd heq (by decide)⟩
      simp only [Finmap.mem_insert, Finset.mem_erase] at hi
      tauto
    | removed =>
      rw [htype] at hf
      obtain rfl := Except.ok.inj hf
      refine ⟨fun i hi => ?_, fun heq => absurd heq (by decide)⟩
      simp only [Finmap.mem_erase, Finset.mem_insert] at hi
      tauto
    | scoreChanged =>
      rw [htype] at hf
      cases hscore : x.score with
      | none =>
        rw [hscore] at hf
        cases hf
      | some score =>
        rw [hscore] at hf
        refine ⟨fun i hi => ?_, fun _ => rfl⟩
        dsimp only at hf
        split at hf
        · obtain rfl := Except.ok.inj hf
          simp only [Finmap.mem_insert] at hi
          tauto
        · obtain rfl := Except.ok.inj hf
          simp only [Finmap.mem_insert] at hi
          tauto
  constructor
  · intro i hi
    obtain rfl | hi := hkeys.1 i hi
    · exact ⟨x, by simp, rfl⟩
    · obtain ⟨e, he, hid⟩ := h.keys i hi
      exact ⟨e, List.mem_append_left _ he, hid⟩
  · intro e he
    obtain he | he := List.mem_append.mp he
    · exact h.score e he
    · obtain rfl := List.mem_singleton.mp he
      exact hkeys.2

theorem foldEvents_gathers {ordered : List ChangeEvent} {f : FoldedChanges} (h : foldEvents ordered = .ok f) :
    Gathers ordered f := by
  refine foldlM_keeps (P := Gathers) (fun _ _ _ _ => foldEvent_gathers) (⟨?_, nofun⟩ : Gathers [] _) h
  simp [FoldedChanges.empty, Finmap.notMem_empty]

end Filter

section Call

variable {self : DeepSeeSynchronizer} {w : Exchange} {α β : Type}

def Pulled (self : DeepSeeSynchronizer) (ordered : List ChangeEvent) (news : List Response) : Prop :=
  (∀ e, e ∈ ordered ↔ Applicable self (eventsOf news) e) ∧
    ((∀ e ∈ ordered, e.changeType = .scoreChanged → e.score.isSome) → WellFormed self (eventsOf news))

theorem pull_reads (committed : String) :
    Reading self (fun a news => Pulled self a.1 news) (Batch.pull self committed) w := by
  apply (fetchAllChangesLoop_reads committed maxPages [] none).bind
  rintro ⟨events, dataAsOf⟩ news (rfl : events = eventsOf news)
  apply Reading.bind (P := fun f news' => news' = [] ∧ Sifts self (eventsOf news) f)
  · exact .ofExcept fun f hf => ⟨rfl, filterEvents_sifts hf⟩
  · rintro f _ ⟨rfl, hf⟩
    apply Reading.bind (P := fun ordered news' => news' = [] ∧ ∀ e, e ∈ ordered ↔ e ∈ f.applicable)
    · exact .ofExcept fun ordered h => ⟨rfl, fun e => mem_sortedByWatermark h⟩
    · rintro ordered _ ⟨rfl, hordered⟩
      apply Reading.pure
      rw [List.append_nil, List.append_nil, List.append_nil]
      have hmem : ∀ e, e ∈ ordered ↔ Applicable self (eventsOf news) e := fun e => (hordered e).trans (hf.applicable e)
      exact ⟨hmem, fun hscore => ⟨hf.watermark, fun e he => hscore e ((hmem e).mpr he)⟩⟩

/-- What a call does with what it is sent: nothing but an error if something of it is refused,
and otherwise it passes on ids that it has been sent. -/
def Outcome (self : DeepSeeSynchronizer) (w : Exchange) (out : Except Exn α) (w' : Exchange) : Prop :=
  ∃ news ops, w'.responses = w.responses ++ news ∧ w'.passed = w.passed ++ ops ∧
    ((∀ r ∈ news, r.Accepted self.client) ∧ (∀ o ∈ ops, ∀ i ∈ keysOf o, TakenUp self news i) ∨
      ops = [] ∧ w'.base = w.base ∧ ∃ e, out = .error e ∧
        ((∀ r ∈ news, Legible self.client r.dataAsOf) → IsContractError e))

theorem read_then_publish {P : α → List Response → Prop} {p : SyncProg α} {f : α → SyncProg β}
    (hp : Reading self P p w)
    (hf : ∀ a news, P a news → Keeps Answers Eq (fun _ => True)
      (fun _ w' => Publishes (TakenUp self news) (w.sent news) w') (f a) (w.sent news)) :
    Keeps Answers Eq (fun _ => True) (Outcome self w) (p >>= f) w := by
  apply Keeps.bind
  apply Keeps.mono ?_ hp
  rintro (e | a) w₁ h
  · obtain ⟨news, rfl, h⟩ := h
    refine ⟨news, [], rfl, (List.append_nil _).symm, ?_⟩
    obtain haccepted | hcontract := h
    · exact .inl ⟨haccepted, nofun⟩
    · exact .inr ⟨rfl, rfl, e, rfl, hcontract⟩
  · obtain ⟨news, rfl, haccepted, hP⟩ := h
    apply (hf a news hP).mono
    intro out w₂ h
    obtain ⟨ops, hops, hkeys⟩ := h.passed
    exact ⟨news, ops, h.responses, hops, .inl ⟨haccepted, hkeys⟩⟩

theorem publishes_bind {K : Int → Prop} {p : SyncProg α} {f : α → SyncProg β}
    (hp : Keeps Answers Eq (fun _ => True) (fun _ w' => Publishes K w w') p w)
    (hf : ∀ a w₁, Keeps Answers Eq (fun _ => True) (fun _ w' => Publishes K w₁ w') (f a) w₁) :
    Keeps Answers Eq (fun _ => True) (fun _ w' => Publishes K w w') (p >>= f) w := by
  apply Keeps.bind
  apply hp.mono
  rintro (e | a) w₁ h
  · exact h
  · exact (hf a w₁).mono fun _ _ h' => h.trans h'

theorem publishes_ofExcept {K : Int → Prop} {x : Except Exn α} {f : α → SyncProg β}
    (hf : ∀ a, x = .ok a → Keeps Answers Eq (fun _ => True) (fun _ w' => Publishes K w w') (f a) w) :
    Keeps Answers Eq (fun _ => True) (fun _ w' => Publishes K w w') (Prog.ofExcept x >>= f) w := by
  cases x with
  | ok a => exact hf a rfl
  | error e => exact Publishes.refl w

theorem bootstrap_outcome (now : Timestamp) :
    Keeps Answers Eq (fun _ => True) (Outcome self w) (self.bootstrap now) w := by
  apply read_then_publish ingest_reads
  rintro ⟨members, scores, dataAsOf, watermark⟩ news h
  apply publishes_ofExcept
  intro asOf _
  apply publishes_bind
  · apply publishSnapshot_keeps
    intro i hi
    refine .inl (h i ?_)
    rw [Finset.mem_union, Finmap.mem_keys] at hi
    exact hi
  · exact fun _ _ => commits_keeps _

theorem applyOrdered_publishes {ordered : List ChangeEvent} {news : List Response} (h : Pulled self ordered news)
    (dataAsOf : WireTime) (duplicates outOfOrder : Nat) (now : Timestamp) :
    Keeps Answers Eq (fun _ => True) (fun _ w' => Publishes (TakenUp self news) w w')
      (self.applyOrdered ordered dataAsOf duplicates outOfOrder now) w := by
  rw [DeepSeeSynchronizer.applyOrdered]
  apply publishes_ofExcept
  intro folded hfolded
  have hgathers := foldEvents_gathers hfolded
  apply publishes_ofExcept
  intro newWatermark _
  apply publishes_ofExcept
  intro asOf _
  apply publishes_bind
  · apply publishDelta_keeps
    intro i hi
    obtain ⟨e, he, hid⟩ : ∃ e ∈ ordered, e.entityId = i := by
      apply hgathers.keys
      simp only [Finset.mem_union, List.mem_toFinset, mem_sorted, Finmap.mem_keys, Finmap.mem_union] at hi
      tauto
    exact .inr ⟨h.2 hgathers.score, e, (h.1 e).mp he, hid⟩
  · exact fun _ _ => commits_keeps _

theorem syncOnce_outcome (now : Timestamp) :
    Keeps Answers Eq (fun _ => True) (Outcome self w) (self.syncOnce now) w := by
  cases hcommitted : self.committedWatermark with
  | none =>
    rw [DeepSeeSynchronizer.syncOnce, hcommitted]
    exact ⟨[], [], (List.append_nil _).symm,
      (List.append_nil _).symm, .inl ⟨List.forall_mem_nil _, List.forall_mem_nil _⟩⟩
  | some committed =>
    rw [Batch.syncOnce_eq hcommitted]
    apply read_then_publish (pull_reads committed)
    rintro ⟨ordered, dataAsOf, duplicates, outOfOrder⟩ news h
    cases ordered with
    | nil => exact Publishes.refl _
    | cons e es => exact applyOrdered_publishes h dataAsOf duplicates outOfOrder now

theorem prog_outcome (kind : Kind) (now : Timestamp) :
    Keeps Answers Eq (fun _ => True) (Outcome self w) (kind.prog self now) w := by
  have hreturns : ∀ {γ : Type} {p : SyncProg (γ × DeepSeeSynchronizer)},
      Keeps Answers Eq (fun _ => True) (Outcome self w) p w →
      Keeps Answers Eq (fun _ => True) (Outcome self w) (p >>= fun r => pure r.2) w := by
    intro γ p h
    apply Keeps.bind
    apply h.mono
    rintro (e | a) w₁ h₁
    · obtain ⟨news, ops, hnews, hops, h | ⟨hnone, hbase, e', he', hcontract⟩⟩ := h₁
      · exact ⟨news, ops, hnews, hops, .inl h⟩
      · obtain rfl := Except.error.inj he'
        exact ⟨news, ops, hnews, hops, .inr ⟨hnone, hbase, e, rfl, hcontract⟩⟩
    · obtain ⟨news, ops, hnews, hops, h | ⟨-, -, e', he', -⟩⟩ := h₁
      · exact ⟨news, ops, hnews, hops, .inl h⟩
      · cases he'
  cases kind with
  | bootstrap => exact hreturns (bootstrap_outcome now)
  | syncOnce => exact hreturns (syncOnce_outcome now)

end Call

section Session

/-- A call that has ended: what it started with, and all that has passed in it. -/
structure Call where
  memory : DeepSeeSynchronizer
  base : World
  out : Except Exn DeepSeeSynchronizer
  exchange : Exchange

/-- A call that raises leaves the memory as it was. -/
def Call.after (c : Call) : DeepSeeSynchronizer := c.out.toOption.getD c.memory

/-- Calls of one synchronizer, one after the other. Between two of them its process may
start again, and others may use the store and the state repository. -/
inductive Session : DeepSeeSynchronizer → World → List Call → Prop
  | stop (memory : DeepSeeSynchronizer) (base : World) : Session memory base []
  | call {c : Call} {calls : List Call} (kind : Kind) (now : Timestamp)
      (hrun : Runs Answers Eq (kind.prog c.memory now) ⟨c.base, [], []⟩ c.out c.exchange)
      (h : Session c.after c.exchange.base calls) : Session c.memory c.base (c :: calls)
  | reconnect {memory : DeepSeeSynchronizer} {base : World} {calls : List Call} (client : DeepSeeClient)
      (h : Session { memory with client } base calls) : Session memory base calls
  | restart {memory : DeepSeeSynchronizer} {base : World} {calls : List Call}
      (h : Session (memory.init base.durable) base calls) : Session memory base calls
  | meanwhile {memory : DeepSeeSynchronizer} {base : World} {calls : List Call} (base' : World)
      (h : Session memory base' calls) : Session memory base calls

/-- Only INT64 keys reach the store, and other ids are refused with no effect. -/
structure Call.Int64Only (c : Call) : Prop where
  passed : ∀ o ∈ c.exchange.passed, ∀ i ∈ keysOf o, IsInt64Key i
  refused : ∀ i, TakenUp c.memory c.exchange.responses i → ¬ IsInt64Key i →
    (∃ e, c.out = .error e ∧ IsContractError e) ∧ c.exchange.base = c.base ∧ c.after = c.memory

/-- Other ids come only where something is refused, with a time that can be read. -/
def Call.Checked (c : Call) : Prop :=
  ∀ i, TakenUp c.memory c.exchange.responses i → ¬ IsInt64Key i →
    (∃ r ∈ c.exchange.responses, ¬ r.Accepted c.memory.client) ∧
      ∀ r ∈ c.exchange.responses, Legible c.memory.client r.dataAsOf

theorem int64Only {c : Call} {kind : Kind} {now : Timestamp}
    (hrun : Runs Answers Eq (kind.prog c.memory now) ⟨c.base, [], []⟩ c.out c.exchange) (h : c.Checked) :
    c.Int64Only := by
  obtain ⟨memory, base, out, ⟨base', responses, passed⟩⟩ := c
  have houtcome : Outcome memory ⟨base, [], []⟩ out ⟨base', responses, passed⟩ :=
    Keeps.runs (fun _ _ _ _ hA => hA) (fun _ _ hw => hw) (fun _ _ _ _ => trivial) hrun (prog_outcome kind now)
  obtain ⟨news, ops, hnews, hops, hout⟩ := houtcome
  obtain rfl : responses = news := hnews
  obtain rfl : passed = ops := hops
  obtain ⟨haccepted, hkeys⟩ | ⟨hnone, hbase, e, he, hcontract⟩ := hout
  · have hvalid : ∀ i, TakenUp memory responses i → IsInt64Key i := by
      intro i hi
      by_contra hbad
      obtain ⟨⟨r, hr, hrefused⟩, -⟩ := h i hi hbad
      exact hrefused (haccepted r hr)
    exact ⟨fun o ho i hi => hvalid i (hkeys o ho i hi), fun i hi hbad => absurd (hvalid i hi) hbad⟩
  · constructor
    · intro o ho
      obtain rfl : passed = [] := hnone
      cases ho
    · intro i hi hbad
      refine ⟨⟨e, he, hcontract (h i hi hbad).2⟩, hbase, ?_⟩
      obtain rfl : out = .error e := he
      rfl

/-- In a session all of whose calls are checked, only INT64 keys reach the store. -/
theorem only_int64_keys {memory : DeepSeeSynchronizer} {base : World} {calls : List Call}
    (h : Session memory base calls) (hchecked : ∀ c ∈ calls, c.Checked) : ∀ c ∈ calls, c.Int64Only := by
  induction h with
  | stop => exact fun c hc => absurd hc List.not_mem_nil
  | call kind now hrun _ ih =>
    intro c' hc'
    obtain rfl | hc' := List.mem_cons.mp hc'
    · exact int64Only hrun (hchecked c' hc')
    · exact ih (fun c'' hc'' => hchecked c'' (List.mem_cons_of_mem _ hc'')) c' hc'
  | reconnect client _ ih => exact ih hchecked
  | restart _ ih => exact ih hchecked
  | meanwhile base' _ ih => exact ih hchecked

end Session

section Sample

def putSync : DeepSeeSynchronizer :=
  { sampleSync with stagesSnapshots := false, stagesDeltas := false, stateRepository := false }

def putSnapshot (ids : List Int) : MembershipSnapshot := ⟨ids.toFinset, ∅, 0, baseTime, "wm-0000000001"⟩

def pagedCall (ids : List Int) : Call where
  memory := putSync
  base := sampleWorld
  out := .ok { putSync with committedWatermark := some "wm-0000000001" }
  exchange :=
    { base := { sampleWorld with store := some (putSnapshot ids) }
      responses := [.page baseTime true (samplePage (some ids) none none)]
      passed := [.putSnapshot (putSnapshot ids)] }

theorem pagedCall_session {ids : List Int} (hids : ∀ i ∈ ids, 0 ≤ i) :
    Session putSync sampleWorld [pagedCall ids] := by
  refine .call (c := pagedCall ids) .bootstrap 0 ?_ (.stop _ _)
  have hreceive :
      receiveSnapshot sampleClient baseTime (samplePage (some ids) none none) =
        .ok (samplePage (some ids) none none) :=
    receiveSnapshot_ok.mpr ⟨accepted_ids hids none, rfl⟩
  have hpage := Answers.page sampleClient none baseTime (samplePage (some ids) none none) ⟨sampleWorld, [], []⟩
  rw [hreceive] at hpage
  refine .call rfl hpage ?_
  refine .call rfl (.store rfl ⟨none, rfl⟩) ?_
  exact .pure _ _

/-- Two pages of ids, the second with a score. -/
def firstPage : SnapshotPage := samplePage (some [1, 2]) none (some "1")

def lastPage : SnapshotPage :=
  { samplePage (some [3]) none none with
    watermark := watermarkOf 1
    scores := Finmap.singleton 3 (.finite (1 / 2)) }

def bootedSync : DeepSeeSynchronizer := { putSync with committedWatermark := some (watermarkOf 1) }

def bootedSnapshot : MembershipSnapshot :=
  ⟨[1, 2, 3].toFinset, lastPage.scores ∪ firstPage.scores, 0, baseTime, watermarkOf 1⟩

def bootCall : Call where
  memory := putSync
  base := sampleWorld
  out := .ok bootedSync
  exchange :=
    { base := { sampleWorld with store := some bootedSnapshot }
      responses := [.page baseTime true firstPage, .page (baseTime + second) false lastPage]
      passed := [.putSnapshot bootedSnapshot] }

/-- A change feed with an id that comes and one that goes. -/
def laterBatch : ChangeBatch where
  events := [⟨"e-1", 4, .added, some (.finite 1), .iso baseTime, watermarkOf 2⟩,
    ⟨"e-2", 1, .removed, none, .iso baseTime, watermarkOf 3⟩]
  dataAsOf := .iso baseTime
  watermark := watermarkOf 3
  nextCursor := none

def laterDelta : Delta :=
  { additions := [4], removals := [1], scoreChanges := ∅ ∪ Finmap.singleton 4 (.finite 1), computedAt := 0,
    dataAsOf := baseTime, sourceWatermark := watermarkOf 3 }

def syncCall : Call where
  memory := bootedSync
  base := bootCall.exchange.base
  out := .ok { bootedSync with committedWatermark := some (watermarkOf 3), seenEventIds := {"e-1", "e-2"} }
  exchange :=
    { base := (World.perform (.applyDelta laterDelta) bootCall.exchange.base).2
      responses := [.batch (baseTime + 2 * second) laterBatch]
      passed := [.applyDelta laterDelta] }

def refusedCall : Call where
  memory := syncCall.after
  base := syncCall.exchange.base
  out := .error (contractError "Entity ID -1 is not a non-negative integer; only INT64 keys are supported.")
  exchange :=
    { base := syncCall.exchange.base
      responses := [.page (baseTime + 3 * second) true (samplePage (some [1, -1]) none none)]
      passed := [] }

theorem bootCall_runs : Runs Answers Eq (Kind.bootstrap.prog putSync 0) ⟨sampleWorld, [], []⟩ bootCall.out
    bootCall.exchange := by
  have hfirst := Answers.page sampleClient none baseTime firstPage ⟨sampleWorld, [], []⟩
  have haccepted : Wire.Accepted sampleClient baseTime firstPage := accepted_ids (by decide) _
  rw [receiveSnapshot_ok.mpr ⟨haccepted, rfl⟩] at hfirst
  have hlast := Answers.page sampleClient (some "1") (baseTime + second) lastPage
    ⟨sampleWorld, [.page baseTime true firstPage], []⟩
  have haccepted : Wire.Accepted sampleClient (baseTime + second) lastPage :=
    ⟨fun _ h => (by cases h), rfl, fun _ h => (by cases h), fun _ => ⟨[3], rfl, by decide⟩⟩
  rw [receiveSnapshot_ok.mpr ⟨haccepted, rfl⟩] at hlast
  refine .call rfl hfirst ?_
  refine .call rfl hlast ?_
  refine .call rfl (.store rfl ⟨none, rfl⟩) ?_
  exact .pure _ _

theorem syncCall_runs : Runs Answers Eq (Kind.syncOnce.prog bootedSync 0) ⟨bootCall.exchange.base, [], []⟩
    syncCall.out syncCall.exchange := by
  have hbatch := Answers.batch sampleClient (watermarkOf 1) none (baseTime + 2 * second) laterBatch
    ⟨bootCall.exchange.base, [], []⟩
  rw [receiveChanges_ok.mpr ⟨fun _ h => (by cases h), rfl⟩] at hbatch
  refine .call rfl hbatch ?_
  refine .call rfl (.store rfl ⟨none, rfl⟩) ?_
  exact .pure _ _

theorem refusedCall_runs : Runs Answers Eq (Kind.bootstrap.prog syncCall.after 0) ⟨syncCall.exchange.base, [], []⟩
    refusedCall.out refusedCall.exchange :=
  .call rfl (.page sampleClient none (baseTime + 3 * second) (samplePage (some [1, -1]) none none)
    ⟨syncCall.exchange.base, [], []⟩) (.throw _ _)

theorem sampleSession : Session putSync sampleWorld [bootCall, syncCall, refusedCall] :=
  .call (c := bootCall) .bootstrap 0 bootCall_runs (.call (c := syncCall) .syncOnce 0 syncCall_runs
    (.call (c := refusedCall) .bootstrap 0 refusedCall_runs (.stop _ _)))

theorem bootCall_checked : bootCall.Checked := by
  rintro i (⟨now, first, page, hpage, hi⟩ | ⟨-, e, ⟨front, back, hevents, -⟩, -⟩) hbad
  · refine absurd ?_ hbad
    obtain hpage | hpage := List.mem_cons.mp hpage
    · obtain ⟨rfl, rfl, rfl⟩ := Response.page.inj hpage
      obtain hi | hi := hi
      · exact (by decide : ∀ i ∈ [1, 2], IsInt64Key i) i hi
      · exact absurd hi Finmap.notMem_empty
    · obtain ⟨rfl, rfl, rfl⟩ := Response.page.inj (List.mem_singleton.mp hpage)
      obtain hi | hi := hi
      · exact (by decide : ∀ i ∈ [3], IsInt64Key i) i hi
      · obtain rfl := (Finmap.mem_singleton i 3 _).mp hi
        exact ⟨by decide, by decide⟩
  · cases front <;> cases hevents

theorem syncCall_checked : syncCall.Checked := by
  rintro i (⟨now, first, page, hpage, -⟩ | ⟨-, e, ⟨front, back, hevents, -⟩, rfl⟩) hbad
  · cases List.mem_singleton.mp hpage
  · have he : e ∈ laterBatch.events := by
      have hall : eventsOf syncCall.exchange.responses = laterBatch.events := rfl
      rw [← hall, hevents]
      exact List.mem_append_right front List.mem_cons_self
    exact absurd ((by decide : ∀ e ∈ laterBatch.events, IsInt64Key e.entityId) e he) hbad

theorem refusedCall_checked : refusedCall.Checked := by
  intro i _ _
  refine ⟨⟨_, List.mem_singleton_self _, ?_⟩, fun _ _ => .inl rfl⟩
  intro haccepted
  obtain ⟨ids, hids, hall⟩ := haccepted.ids rfl
  obtain rfl := Option.some.inj hids
  exact absurd (hall (-1) (by decide)) (by decide)

/-- A bootstrap of two pages, a sync, and a page that is refused. -/
theorem only_int64_keys_sample : bootCall.Int64Only ∧ syncCall.Int64Only ∧ refusedCall.Int64Only := by
  have h : ∀ c ∈ [bootCall, syncCall, refusedCall], c.Int64Only := by
    apply only_int64_keys sampleSession
    intro c hc
    rcases List.mem_cons.mp hc with rfl | hc
    · exact bootCall_checked
    rcases List.mem_cons.mp hc with rfl | hc
    · exact syncCall_checked
    · obtain rfl := List.mem_singleton.mp hc
      exact refusedCall_checked
  exact ⟨h _ (by simp), h _ (by simp), h _ (by simp)⟩

theorem oversized_id : ¬ ∀ (memory : DeepSeeSynchronizer) (base : World) (calls : List Call),
    Session memory base calls → ∀ c ∈ calls, c.Int64Only := by
  intro h
  have hcall := h _ _ [pagedCall [2 ^ 63]] (pagedCall_session (by decide)) _ (List.mem_singleton_self _)
  have hkey := hcall.passed _ (List.mem_singleton_self _) (2 ^ 63) (by decide)
  exact absurd hkey.2 (lt_irrefl _)

end Sample

end ContextqlServer.Deepsee.Int64Keys
