import ContextqlServer.Deepsee.Crash
import ContextqlServer.Deepsee.Resolution

namespace ContextqlServer.Deepsee.ReadPaths

open ContextqlServer.Lib.Effect ContextqlServer.Lib.Mapping ContextqlServer.Lib.Python
open ContextqlServer.Deepsee.Models ContextqlServer.Deepsee.MockService ContextqlServer.Deepsee.Client
open ContextqlServer.Deepsee.Store ContextqlServer.Deepsee.Synchronizer ContextqlServer.Deepsee.McpProvider
open ContextqlServer.Deepsee.History ContextqlServer.Deepsee.Batch ContextqlServer.Deepsee.Bootstrap
open ContextqlServer.Deepsee.Consistency ContextqlServer.Deepsee.Rest ContextqlServer.Deepsee.Resolution
open ContextqlServer.Deepsee.Machine ContextqlServer.Deepsee.Crash

section Resolve

variable {provider : DeepSeeMCPProvider} {entityType : String} {limit : Option Int} {clock : Nat → Timestamp}
  {w : World} {v : World × Nat} {r : MCPResult}

/-- The source sends bitmaps that cannot be read. -/
def Unreadable (s : MockDeepSeeService) : Prop := s.bitmapSnapshot = true ∧ s.malformedBitmap = true

instance (s : MockDeepSeeService) : Decidable (Unreadable s) := inferInstanceAs (Decidable (_ ∧ _))

/-- What a result says of the source that it was made from. -/
structure Reports (B : BitMap64) (s : MockDeepSeeService) (r : MCPResult) : Prop where
  members : r.members B = if Unreadable s then none else some s.members.keys
  scores : r.scores = s.members
  sourceWatermark : r.sourceWatermark = s.watermark

theorem resolve_reports_ids (hB : Lawful provider.client.bitMap64) (hm : w.service.bitmapSnapshot = false)
    (hlimit : Roomy w.service limit)
    (h : (World.ticking clock).exec (provider.resolve entityType limit) (w, 0) = (.ok r, v)) :
    v.1 = w ∧ Reports provider.client.bitMap64 w.service r := by
  obtain ⟨-, hresult, hsame⟩ := (resolve_ids hm).1 v h
  rw [limited_roomy hlimit] at hresult
  obtain ⟨hmembers, hwatermark⟩ := provider.resultOf_members hB hresult
  refine ⟨hsame, ?_, (resultOf_maps hresult).1, hwatermark⟩
  rw [hmembers, if_neg (fun hun => Bool.false_ne_true (hm.symm.trans hun.1))]
  exact congrArg some (sorted_toFinset _)

theorem resolve_reports_bitmap (hB : Lawful provider.client.bitMap64) (hm : w.service.bitmapSnapshot = true)
    (h : (World.ticking clock).exec (provider.resolve entityType limit) (w, 0) = (.ok r, v)) :
    v.1 = w ∧ Reports provider.client.bitMap64 w.service r := by
  obtain ⟨page, v₁, hfetch, h⟩ := Handler.exec_bind_ok.mp h
  rw [Resolution.exec_fetchSnapshot] at hfetch
  obtain ⟨hpage, rfl⟩ := Prod.mk.inj hfetch
  obtain ⟨payload, hpayload, rfl⟩ := fetchSnapshot_bitmap_ok hm hpage
  obtain ⟨hr, rfl⟩ := Prod.mk.inj h
  obtain rfl := Except.ok.inj hr
  refine ⟨rfl, ?_, rfl, rfl⟩
  change provider.client.bitMap64.deserialize payload = _
  rw [deserialize_bitmapPayload hB hpayload]
  apply if_congr _ rfl rfl
  exact (and_iff_right hm).symm

theorem resolve_reports (hB : Lawful provider.client.bitMap64) (hlimit : Roomy w.service limit)
    (h : (World.ticking clock).exec (provider.resolve entityType limit) (w, 0) = (.ok r, v)) :
    v.1 = w ∧ Reports provider.client.bitMap64 w.service r := by
  cases hm : w.service.bitmapSnapshot with
  | true => exact resolve_reports_bitmap hB hm h
  | false => exact resolve_reports_ids hB hm hlimit h

end Resolve

section Stores

variable {initial : Dict Int Float64} {contextId : String} {self self' : DeepSeeSynchronizer} {w w' : World}
  {now : Timestamp}

/-- A pass over a source at rest brings the store to the end of the log. -/
theorem syncOnce_at {b v : Nat} {report : SyncReport} (hcoh : Coherent initial w.service)
    (hp : 0 < w.service.pageSize) (hb : Bounded self b) (hbv : b ≤ v) (hv : StoreAt initial v w)
    (h : AloneRuns (self.syncOnce now) w (.ok (report, self')) w') :
    w'.service = w.service ∧ StoreAt initial w.service.events.length w' := by
  have hvlen : v ≤ w.service.events.length := hv.choose_spec.2.2.1
  obtain ⟨hservice, ⟨hle, hmoves, -⟩ | ⟨ordered, f, s, dataAsOf, hst, hf, hs, hs', -⟩⟩ :=
    syncOnce_rest hcoh hp hb (hbv.trans hvlen) h
  · obtain rfl : v = w.service.events.length := by omega
    exact ⟨hservice, hv.extend (hservice ▸ .refl _) hmoves.store⟩
  · have hpublished := hv.applyDelta hs hst hf hbv hvlen now dataAsOf
    exact ⟨hservice, hpublished.extend (hservice ▸ .refl _) hs'⟩

theorem bootstrap_at {snapshot : MembershipSnapshot} (hB : Lawful self.client.bitMap64)
    (hcoh : Coherent initial w.service)
    (h : AloneRuns (self.bootstrap now) w (.ok (snapshot, self')) w') :
    w'.service = w.service ∧ StoreAt initial w.service.events.length w' ∧
      ∃ s, w'.store = some s ∧ s.scores = w.service.members := by
  obtain ⟨hservice, hstore, hmembers, hscores, hwatermark, -⟩ := bootstrap_rest hB h
  have hpublished := StoreAt.publish hcoh hmembers hwatermark
  exact ⟨hservice, hpublished.extend (hservice ▸ .refl _) hstore, snapshot, hstore, hscores⟩

/-- After a call that returned with the source at rest the store is at the end of the log. -/
theorem call_at {kind : Kind} {m m' : DeepSeeSynchronizer} (hI : (alone initial contextId).I w)
    (hM : (alone initial contextId).M m w)
    (h : AloneRuns (kind.prog m now) w (.ok m') w') :
    w'.service = w.service ∧ StoreAt initial w.service.events.length w' ∧
      (kind = .bootstrap → ∃ s, w'.store = some s ∧ s.scores = w.service.members) := by
  have hreturned : ∀ {β : Type} {p : SyncProg (β × DeepSeeSynchronizer)},
      AloneRuns (p >>= fun a => pure a.2) w (.ok m') w' → ∃ a, AloneRuns p w (.ok (a, m')) w' := by
    intro β p h
    obtain ⟨⟨a, m₁⟩, w₁, hp, hreturn⟩ | ⟨e, -, he⟩ := Runs.bind_iff.mp h
    · obtain ⟨hout, rfl⟩ := Runs.pure_iff.mp hreturn
      obtain rfl := Except.ok.inj hout
      exact ⟨a, hp⟩
    · cases he
  cases kind with
  | bootstrap =>
    obtain ⟨snapshot, hcall⟩ := hreturned h
    obtain ⟨hservice, hat, hscores⟩ := bootstrap_at hM.1.bitMap64 hI.coherent hcall
    exact ⟨hservice, hat, fun _ => hscores⟩
  | syncOnce =>
    obtain ⟨report, hcall⟩ := hreturned h
    cases hcommitted : m.committedWatermark with
    | none =>
      rw [DeepSeeSynchronizer.syncOnce, hcommitted] at hcall
      obtain ⟨hout, -⟩ := Runs.throw_iff.mp hcall
      cases hout
    | some committed =>
      obtain ⟨b, v, rfl, hb, hbv, -, hv⟩ := bounded_of_durable hI hM.2 hcommitted
      obtain ⟨hservice, hat⟩ := syncOnce_at hI.coherent hI.pageSize hb hbv hv hcall
      exact ⟨hservice, hat, fun hkind => by cases hkind⟩

end Stores

section Agreement

variable {contextId entityType : String} {c₀ c : System Unit} {kind : Kind} {now : Timestamp}
  {clock clock' : Nat → Timestamp} {m : DeepSeeSynchronizer} {v v' : World × Nat} {provider : DeepSeeMCPProvider}
  {limit : Option Int} {r : MCPResult}

/-- Whatever went before, after a bootstrap or a pass that returned with the source at rest the
provider resolves what the store holds: the same members unless its bitmaps cannot be read, the
same watermark, and after a bootstrap the same scores. The clock may go on all the time. -/
theorem read_paths_agree (h₀ : Started contextId c₀) (hr : System.Reaches System.Quiet c₀ c)
    (hcall : (World.ticking clock).exec (kind.prog (c.instances ()).memory now) (c.world, 0) = (.ok m, v))
    (hprovider : Lawful provider.client.bitMap64) (hlimit : Roomy v.1.service limit)
    (hresolve : (World.ticking clock').exec (provider.resolve entityType limit) (v.1, 0) = (.ok r, v')) :
    v'.1 = v.1 ∧ ∃ s, v.1.store = some s ∧
      r.members provider.client.bitMap64 = (if Unreadable v.1.service then none else some s.members) ∧
      r.sourceWatermark = s.sourceWatermark ∧ (kind = .bootstrap → r.scores = s.scores) := by
  have hholds := h₀.holds.reaches alone_sound (fun c a hq => ⟨.inr hq, c.respects_true a⟩) hr
  have hcoh := hholds.world.coherent
  obtain ⟨w, hruns, hmoves⟩ := aloneRuns_of_ticking hcall
  obtain ⟨hservice, ⟨s, hs, hwatermark, -, hmembers⟩, hscores⟩ := call_at hholds.world (hholds.memory ()) hruns
  obtain ⟨hsame, hreports⟩ := resolve_reports hprovider hlimit hresolve
  have hsource : v.1.service = c.world.service := hmoves.service.trans hservice
  rw [← hsource] at hcoh hwatermark hmembers hscores
  rw [← hmoves.service] at hmembers
  have hkeys : s.members = v.1.service.members.keys := by
    ext x
    rw [Finmap.mem_keys, hcoh.mem_members, ← hmembers, decide_eq_true_eq]
  refine ⟨hsame, s, hmoves.store.trans hs, ?_, ?_, ?_⟩
  · rw [hkeys]
    exact hreports.members
  · rw [hreports.sourceWatermark, hwatermark, MockDeepSeeService.watermark, hcoh.seq_eq]
  · intro hkind
    obtain ⟨s', hs', hscored⟩ := hscores hkind
    obtain rfl := Option.some.inj (hs.symm.trans hs')
    rw [hreports.scores, hscored]

def sampleCall : Except Exn DeepSeeSynchronizer × (World × Nat) :=
  (World.ticking sampleClock).exec (Kind.syncOnce.prog (sampleCrashed.instances ()).memory 0) (sampleCrashed.world, 0)

def sampleResolved : Except Exn MCPResult × (World × Nat) :=
  (World.ticking sampleClock).exec (sampleProvider.resolve "transaction" none) (sampleCall.2.1, 0)

/-- The pass after a crash, and then the provider. -/
theorem read_paths_agree_sample : ∃ m r, sampleCall.1 = .ok m ∧ sampleResolved.1 = .ok r ∧
    sampleResolved.2.1 = sampleCall.2.1 ∧
    ∃ s, sampleCall.2.1.store = some s ∧ r.members sampleProvider.client.bitMap64 = some s.members := by
  have hreadable : ¬ Unreadable sampleCall.2.1.service := by decide
  obtain ⟨m, hm⟩ : ∃ m, sampleCall.1 = .ok m := ⟨sampleCall.1.toOption.get (by decide), by rfl⟩
  obtain ⟨r, hr⟩ : ∃ r, sampleResolved.1 = .ok r := ⟨sampleResolved.1.toOption.get (by decide), by rfl⟩
  have hcall : sampleCall = (.ok m, sampleCall.2) := Prod.ext hm rfl
  have hresolved : sampleResolved = (.ok r, sampleResolved.2) := Prod.ext hr rfl
  obtain ⟨hsame, s, hs, hmembers, -⟩ := read_paths_agree sampleStart_started sampleCrashed_reached hcall
    unaryBitMap64_lawful (fun k hk => by cases hk) hresolved
  rw [if_neg hreadable] at hmembers
  exact ⟨m, r, hm, hr, hsame, s, hs, hmembers⟩

end Agreement

end ContextqlServer.Deepsee.ReadPaths
