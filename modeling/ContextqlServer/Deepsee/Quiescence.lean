import ContextqlServer.Deepsee.Crash
import ContextqlServer.Deepsee.Filtering
import ContextqlServer.Deepsee.Paging
import ContextqlServer.Deepsee.Resolution

namespace ContextqlServer.Deepsee.Quiescence

open ContextqlServer.Lib.Effect ContextqlServer.Lib.Log ContextqlServer.Lib.Mapping ContextqlServer.Lib.Python
open ContextqlServer.Deepsee.Models ContextqlServer.Deepsee.MockService ContextqlServer.Deepsee.Client
open ContextqlServer.Deepsee.Store ContextqlServer.Deepsee.Synchronizer ContextqlServer.Deepsee.History
open ContextqlServer.Deepsee.Fetch ContextqlServer.Deepsee.Batch ContextqlServer.Deepsee.Consistency
open ContextqlServer.Deepsee.Rest ContextqlServer.Deepsee.Machine ContextqlServer.Deepsee.Crash
open ContextqlServer.Deepsee.Paging (undelivered changePage pending_ok changes_ok)

variable {initial : Dict Int Float64} {s : MockDeepSeeService} {c : DeepSeeClient} {b n : Nat}
  {clock : Nat → Timestamp} {now : Timestamp}

section Feed

def StaysFresh (c : DeepSeeClient) (clock : Nat → Timestamp) (s : MockDeepSeeService) : Prop :=
  ∀ n, c.validateFreshness (clock n) s.dataAsOf = .ok ()

/-- The events of the feed since watermark number `b`, as they are laid out. -/
def delivered (s : MockDeepSeeService) (b : Nat) : List ChangeEvent := (layoutOf s).arrange (undelivered s b)

theorem fetchChanges_fresh (hcoh : Coherent initial s) {cursor : Option String} {o : Nat}
    (ho : MockDeepSeeService.offsetOf cursor = .ok (o : Int)) (henter : s.enterCall c.token = .ok ())
    (hfresh : c.validateFreshness now s.dataAsOf = .ok ()) :
    c.fetchChanges now s (watermarkOf b) cursor = .ok (changePage s (delivered s b) o) := by
  have hsince : intOf (watermarkOf b) = .ok (b : Int) := intOf_zpad 12 b
  rw [DeepSeeClient.fetchChanges, changes_ok henter hsince (pending_ok hcoh b) ho]
  change (c.validateFreshness now s.dataAsOf >>= fun _ => _) = _
  rw [hfresh]
  rfl

theorem enterCall_of_fetch {since : String} {cursor : Option String} {batch : ChangeBatch}
    (h : c.fetchChanges now s since cursor = .ok batch) :
    s.enterCall c.token = .ok () ∧ c.validateFreshness now s.dataAsOf = .ok () := by
  obtain ⟨page, hpage, h⟩ := bind_eq_ok.mp h
  obtain ⟨⟨⟩, hfresh, -⟩ := bind_eq_ok.mp h
  obtain ⟨⟨⟩, henter, hpage⟩ := bind_eq_ok.mp hpage
  obtain ⟨_, -, hpage⟩ := bind_eq_ok.mp hpage
  obtain ⟨_, -, hpage⟩ := bind_eq_ok.mp hpage
  obtain ⟨_, -, hpage⟩ := bind_eq_ok.mp hpage
  obtain rfl := Except.ok.inj hpage
  exact ⟨henter, hfresh⟩

theorem exec_fetchChanges {since : String} {cursor : Option String} {w : World} :
    (World.ticking clock).exec (fetchChanges c since cursor) (w, n) =
      (c.fetchChanges (clock n) w.service since cursor, (w, n + 1)) :=
  Handler.exec_perform ..

theorem offsetOf_none : MockDeepSeeService.offsetOf none = .ok ((0 : Nat) : Int) := rfl

theorem fetchAllChangesLoop_rest {self : DeepSeeSynchronizer} {w : World} (hcoh : Coherent initial w.service)
    (henter : w.service.enterCall self.client.token = .ok ()) (hfresh : StaysFresh self.client clock w.service)
    (remaining : Nat) {o : Nat} {cursor : Option String} (ho : MockDeepSeeService.offsetOf cursor = .ok (o : Int))
    (hpages : (delivered w.service b).length ≤ o + remaining * w.service.pageSize) (hpos : 0 < remaining)
    (got : List ChangeEvent) (n : Nat) :
    ∃ n', (World.ticking clock).exec (self.fetchAllChangesLoop (watermarkOf b) remaining got cursor) (w, n) =
      (.ok (got ++ (delivered w.service b).drop o, w.service.dataAsOf), (w, n')) := by
  induction remaining generalizing o cursor got n with
  | zero => omega
  | succ remaining ih =>
    rw [Nat.succ_mul] at hpages
    have hfetch : (World.ticking clock).exec (fetchChanges self.client (watermarkOf b) cursor) (w, n) = _ :=
      exec_fetchChanges
    rw [fetchChanges_fresh hcoh ho henter (hfresh n)] at hfetch
    rw [DeepSeeSynchronizer.fetchAllChangesLoop, Handler.exec_bind _ hfetch]
    dsimp only [changePage]
    by_cases hmore : o + w.service.pageSize < (delivered w.service b).length
    · have hleft : 0 < remaining := by
        apply Nat.pos_of_ne_zero
        rintro rfl
        omega
      have hshort : (delivered w.service b).length ≤
          o + w.service.pageSize + remaining * w.service.pageSize := by omega
      obtain ⟨n', hrest⟩ := ih (Bootstrap.offsetOf_toString _) hshort hleft
        (got ++ ((delivered w.service b).drop o).take w.service.pageSize) (n + 1)
      rw [if_pos hmore]
      dsimp only
      rw [hrest, List.append_assoc, ← List.drop_drop, List.take_append_drop]
      exact ⟨n', rfl⟩
    · have hlast : ((delivered w.service b).drop o).take w.service.pageSize = (delivered w.service b).drop o := by
        apply List.take_of_length_le
        rw [List.length_drop]
        omega
      rw [if_neg hmore]
      dsimp only
      rw [hlast]
      exact ⟨n + 1, rfl⟩

/-- Pages that were read to the end were not too many. -/
theorem delivered_of_loop {self : DeepSeeSynchronizer} {w : World} (hcoh : Coherent initial w.service)
    (remaining : Nat) {o : Nat} {cursor : Option String} (ho : MockDeepSeeService.offsetOf cursor = .ok (o : Int))
    {got : List ChangeEvent} {n : Nat} {out : List ChangeEvent × WireTime} {v : World × Nat}
    (h : (World.ticking clock).exec (self.fetchAllChangesLoop (watermarkOf b) remaining got cursor) (w, n) =
      (.ok out, v)) :
    w.service.enterCall self.client.token = .ok () ∧
      (delivered w.service b).length ≤ o + remaining * w.service.pageSize := by
  induction remaining generalizing o cursor got n with
  | zero => cases h
  | succ remaining ih =>
    rw [DeepSeeSynchronizer.fetchAllChangesLoop] at h
    obtain ⟨batch, v₁, hfetch, h⟩ := Handler.exec_bind_ok.mp h
    rw [exec_fetchChanges] at hfetch
    obtain ⟨hbatch, rfl⟩ := Prod.mk.inj hfetch
    obtain ⟨henter, hfresh⟩ := enterCall_of_fetch hbatch
    rw [fetchChanges_fresh hcoh ho henter hfresh] at hbatch
    obtain rfl := Except.ok.inj hbatch
    refine ⟨henter, ?_⟩
    rw [Nat.succ_mul]
    dsimp only [changePage] at h
    by_cases hmore : o + w.service.pageSize < (delivered w.service b).length
    · rw [if_pos hmore] at h
      have := (ih (Bootstrap.offsetOf_toString _) h).2
      omega
    · omega

/-- What is left to deliver does not grow with the boundary. -/
theorem delivered_length_le {b n : Nat} (h : b ≤ n) : (delivered s n).length ≤ (delivered s b).length := by
  rw [delivered, delivered, Lib.Feed.Layout.length_arrange, Lib.Feed.Layout.length_arrange]
  apply Nat.mul_le_mul_left
  rw [undelivered, undelivered]
  split
  · exact le_rfl
  · apply List.Sublist.length_le
    apply List.monotone_filter_right
    intro e he
    simp only [decide_eq_true_eq] at he ⊢
    omega

/-- How many events a service hands out that has nothing new. -/
def repeated (s : MockDeepSeeService) : Nat :=
  if s.redeliverFromStart then (layoutOf s).copies * s.events.length else 0

theorem delivered_last (hcoh : Coherent initial s) : (delivered s s.events.length).length = repeated s := by
  rw [delivered, Lib.Feed.Layout.length_arrange, undelivered, repeated]
  split
  · rfl
  · rw [List.filter_eq_nil_iff.mpr, List.length_nil, Nat.mul_zero]
    intro e he
    obtain ⟨i, hi⟩ := List.mem_iff_getElem?.mp he
    have := (List.getElem?_eq_some_iff.mp hi).1
    rw [hcoh.numberOf_watermark hi, decide_eq_true_eq]
    omega

end Feed

section Passes

variable {self : DeepSeeSynchronizer} {w : World} {v : World × Nat}

theorem mem_of_delivered {s : MockDeepSeeService} {b : Nat} {e : ChangeEvent} (he : e ∈ delivered s b) :
    e ∈ s.events := by
  have hpending := (Lib.Feed.Layout.mem_arrange _).mp he
  rw [undelivered] at hpending
  split at hpending
  · exact hpending
  · exact (List.mem_filter.mp hpending).1

/-- At the end of the log the filter keeps nothing of the feed, and counts what it repeats. -/
theorem filterEvents_idle {s : MockDeepSeeService} (hcoh : Coherent initial s) (hb : Bounded self s.events.length) :
    ∃ f, self.filterEvents (delivered s s.events.length) = .ok f ∧ f.applicable = [] ∧
      f.duplicates + f.outOfOrder = repeated s := by
  have hposition : ∀ e ∈ delivered s s.events.length, ∃ i, s.events[i]? = some e := fun e he =>
    List.mem_iff_getElem?.mp (mem_of_delivered he)
  obtain ⟨f, hf, hfilters⟩ := filterEvents_ok hcoh hb fun e he => mem_of_delivered he
  have hnone : f.applicable = [] := by
    apply List.eq_nil_iff_forall_not_mem.mpr
    intro e he
    obtain ⟨hmem, hafter⟩ := (hfilters.mem e).mp he
    obtain ⟨i, hi⟩ := hposition e hmem
    have := (List.getElem?_eq_some_iff.mp hi).1
    rw [hcoh.numberOf_watermark hi] at hafter
    omega
  have hparse : ∀ e ∈ delivered s s.events.length, ∃ n, parseWatermark (some e.watermark) = .ok n := by
    intro e he
    obtain ⟨i, hi⟩ := hposition e he
    rw [hcoh.watermark_eq hi]
    exact ⟨_, parseWatermark_watermarkOf _⟩
  have hboundary : ∃ n, parseWatermark (some self.boundaryText) = .ok n := by
    rw [hb.boundaryText]
    exact ⟨_, parseWatermark_watermarkOf _⟩
  obtain ⟨f', hf', hpartitions⟩ := Filtering.filterEvents_ok hboundary hparse
  obtain rfl := Except.ok.inj (hf.symm.trans hf')
  have hcounted := hpartitions.counted
  rw [hnone, List.length_nil, Nat.zero_add, delivered_last hcoh] at hcounted
  exact ⟨f, hf, hnone, hcounted⟩

/-- A memory at the end of a log whose feed can be read: a pass applies nothing and changes nothing. -/
theorem syncOnce_idle (hcoh : Coherent initial w.service) (hb : Bounded self w.service.events.length)
    (henter : w.service.enterCall self.client.token = .ok ()) (hfresh : StaysFresh self.client clock w.service)
    (hpages : (delivered w.service w.service.events.length).length ≤ maxPages * w.service.pageSize) :
    ∃ duplicates outOfOrder n, duplicates + outOfOrder = repeated w.service ∧
      (World.ticking clock).exec (self.syncOnce now) (w, 0) =
        (.ok (⟨0, 0, 0, duplicates, outOfOrder, w.service.watermark⟩, self), (w, n)) := by
  obtain ⟨n, hfetch⟩ : ∃ n,
      (World.ticking clock).exec (self.fetchAllChanges (watermarkOf w.service.events.length)) (w, 0) =
        (.ok (delivered w.service w.service.events.length, w.service.dataAsOf), (w, n)) := by
    obtain ⟨n, hloop⟩ := fetchAllChangesLoop_rest hcoh henter hfresh maxPages offsetOf_none
      (by rw [Nat.zero_add]; exact hpages) (by decide) [] 0
    rw [List.nil_append, List.drop_zero] at hloop
    exact ⟨n, hloop⟩
  obtain ⟨f, hf, hnone, hcount⟩ := filterEvents_idle hcoh hb
  refine ⟨f.duplicates, f.outOfOrder, n, hcount, ?_⟩
  rw [DeepSeeSynchronizer.syncOnce, hb.committed]
  dsimp only
  refine (Handler.exec_bind _ hfetch).trans ?_
  dsimp only
  rw [hf, Handler.exec_ofExcept_bind]
  dsimp only
  rw [if_pos (by rw [hnone]; rfl)]
  rw [MockDeepSeeService.watermark, hcoh.seq_eq]
  rfl

/-- A pass that returned has read the feed to its end. -/
theorem delivered_of_syncOnce (hcoh : Coherent initial w.service) (hb : Bounded self b)
    {report : SyncReport} {self' : DeepSeeSynchronizer}
    (h : (World.ticking clock).exec (self.syncOnce now) (w, 0) = (.ok (report, self'), v)) :
    w.service.enterCall self.client.token = .ok () ∧
      (delivered w.service b).length ≤ maxPages * w.service.pageSize := by
  rw [DeepSeeSynchronizer.syncOnce, hb.committed] at h
  obtain ⟨fetched, v₁, hfetch, -⟩ := Handler.exec_bind_ok.mp h
  obtain ⟨henter, hpages⟩ := delivered_of_loop hcoh maxPages offsetOf_none hfetch
  exact ⟨henter, by omega⟩

/-- A pass that returned leaves the memory at the end of the log that it found. -/
theorem syncOnce_bounded {report : SyncReport} {m : DeepSeeSynchronizer} {w' : World} (hcoh : Coherent initial w.service)
    (hp : 0 < w.service.pageSize) (hb : Bounded self b) (hlen : b ≤ w.service.events.length)
    (h : AloneRuns (self.syncOnce now) w (.ok (report, m)) w') :
    w'.service = w.service ∧ m.client = self.client ∧ Bounded m w.service.events.length := by
  obtain ⟨hservice, ⟨hle, -, rfl⟩ | ⟨ordered, f, s, dataAsOf, hst, -, -, -, rfl⟩⟩ := syncOnce_rest hcoh hp hb hlen h
  · obtain rfl := le_antisymm hlen hle
    exact ⟨hservice, rfl, hb⟩
  · exact ⟨hservice, rfl, hb.remember hcoh hst⟩

end Passes

section Runs

variable {contextId : String} {c₀ c : System Unit} {clock' : Nat → Timestamp} {report : SyncReport}
  {m : DeepSeeSynchronizer} {v : World × Nat}

/-- After a pass that returned with the source at rest a later one returns too while the data
stays fresh: it applies nothing, counts what the feed repeats, and leaves the source, the store,
the state repository and the memory as they are. -/
theorem syncOnce_quiescent (h₀ : Started contextId c₀) (hr : System.Reaches System.Quiet c₀ c)
    (h : (World.ticking clock).exec ((c.instances ()).memory.syncOnce now) (c.world, 0) = (.ok (report, m), v))
    (hfresh : StaysFresh (c.instances ()).memory.client clock' c.world.service) (now' : Timestamp) :
    ∃ duplicates outOfOrder n, duplicates + outOfOrder = repeated c.world.service ∧
      (World.ticking clock').exec (m.syncOnce now') (v.1, 0) =
        (.ok (⟨0, 0, 0, duplicates, outOfOrder, c.world.service.watermark⟩, m), (v.1, n)) := by
  have hholds := h₀.holds.reaches alone_sound (fun c a hq => ⟨.inr hq, c.respects_true a⟩) hr
  have hI := hholds.world
  obtain ⟨-, hload⟩ := hholds.memory ()
  cases hcommitted : (c.instances ()).memory.committedWatermark with
  | none =>
    rw [DeepSeeSynchronizer.syncOnce, hcommitted] at h
    cases h
  | some committed =>
    obtain ⟨b, k, rfl, hb, hbk, -, hk⟩ := bounded_of_durable hI hload hcommitted
    have hlen : b ≤ c.world.service.events.length := hbk.trans hk.choose_spec.2.2.1
    obtain ⟨henter, hpages⟩ := delivered_of_syncOnce hI.coherent hb h
    obtain ⟨w, hruns, hmoves⟩ := aloneRuns_of_ticking h
    obtain ⟨hservice, hclient, hlast⟩ := syncOnce_bounded hI.coherent hI.pageSize hb hlen hruns
    have hsource : v.1.service = c.world.service := hmoves.service.trans hservice
    have hcoh := hI.coherent
    rw [← hclient] at henter hfresh
    rw [← hsource] at henter hfresh hpages hlen hlast hcoh ⊢
    exact syncOnce_idle hcoh hlast henter hfresh ((delivered_length_le hlen).trans hpages)

def samplePass : Except Exn (SyncReport × DeepSeeSynchronizer) × (World × Nat) :=
  (World.ticking Resolution.sampleClock).exec ((sampleCrashed.instances ()).memory.syncOnce 0) (sampleCrashed.world, 0)

/-- The run that ended in a crash, its pass made again and then once more. -/
theorem syncOnce_quiescent_sample : ∃ report m duplicates outOfOrder n, samplePass.1 = .ok (report, m) ∧
    duplicates + outOfOrder = repeated sampleCrashed.world.service ∧
    (World.ticking Resolution.sampleClock).exec (m.syncOnce 0) (samplePass.2.1, 0) =
      (.ok (⟨0, 0, 0, duplicates, outOfOrder, sampleCrashed.world.service.watermark⟩, m), (samplePass.2.1, n)) := by
  obtain ⟨⟨report, m⟩, hpass⟩ : ∃ returned, samplePass.1 = .ok returned :=
    ⟨samplePass.1.toOption.get (by decide), by rfl⟩
  have hexec : samplePass = (.ok (report, m), samplePass.2) := Prod.ext hpass rfl
  have hfresh : StaysFresh (sampleCrashed.instances ()).memory.client Resolution.sampleClock
      sampleCrashed.world.service := fun _ => rfl
  obtain ⟨duplicates, outOfOrder, n, hcount, hidle⟩ :=
    syncOnce_quiescent sampleStart_started sampleCrashed_reached hexec hfresh 0
  exact ⟨report, m, duplicates, outOfOrder, n, hpass, hcount, hidle⟩

end Runs

end ContextqlServer.Deepsee.Quiescence
