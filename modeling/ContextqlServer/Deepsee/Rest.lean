import ContextqlServer.Deepsee.Consistency

namespace ContextqlServer.Deepsee.Rest

open ContextqlServer.Lib.Effect ContextqlServer.Lib.Log ContextqlServer.Lib.Mapping
open ContextqlServer.Lib.Python ContextqlServer.Lib.Rely
open ContextqlServer.Deepsee.Models ContextqlServer.Deepsee.MockService
open ContextqlServer.Deepsee.Store ContextqlServer.Deepsee.Synchronizer
open ContextqlServer.Deepsee.History ContextqlServer.Deepsee.Fold ContextqlServer.Deepsee.Batch
open ContextqlServer.Deepsee.Bootstrap ContextqlServer.Deepsee.Consistency

variable {initial : Dict Int Float64} {self self' : DeepSeeSynchronizer} {w w' : World}
  {now : Timestamp}

section Clock

variable {α : Type} {p : SyncProg α} {out : Except Exn α} {w₁ w₂ : World} {clock : Nat → Timestamp}

def ClockMoves (w w' : World) : Prop := ∃ now, w' = { w with clock := now }

theorem ClockMoves.refl (w : World) : ClockMoves w w := ⟨w.clock, rfl⟩

theorem ClockMoves.trans (h : ClockMoves w w₁) (h' : ClockMoves w₁ w₂) : ClockMoves w w₂ := by
  obtain ⟨_, rfl⟩ := h
  obtain ⟨now, rfl⟩ := h'
  exact ⟨now, rfl⟩

theorem ClockMoves.service (h : ClockMoves w w₁) : w₁.service = w.service := by
  obtain ⟨_, rfl⟩ := h
  rfl

theorem ClockMoves.store (h : ClockMoves w w₁) : w₁.store = w.store := by
  obtain ⟨_, rfl⟩ := h
  rfl

/-- A call that has the source to itself, while the clock goes on. -/
abbrev AloneRuns (p : SyncProg α) (w : World) (out : Except Exn α) (w' : World) : Prop :=
  Runs World.handler.Faulty ClockMoves p w out w'

theorem aloneRuns_of_exec (h : World.handler.exec p w = (out, w')) : AloneRuns p w out w' :=
  Runs.of_exec ClockMoves.refl h

theorem ClockMoves.eq_of_exec (hmoves : ClockMoves w w') (h : World.handler.exec p w = (out, w')) : w' = w := by
  have hclock := World.exec_clock h
  obtain ⟨now, rfl⟩ := hmoves
  obtain rfl : now = w.clock := hclock
  rfl

theorem aloneRuns_start (hw : ClockMoves w₁ w) (h : AloneRuns p w out w') :
    ∃ w₂, AloneRuns p w₁ out w₂ ∧ ClockMoves w₂ w' := by
  cases h with
  | pure a => exact ⟨w₁, .pure a w₁, hw⟩
  | throw e => exact ⟨w₁, .throw e w₁, hw⟩
  | call hR hA h => exact ⟨w', .call (hw.trans hR) hA h, .refl w'⟩

theorem aloneRuns_of_ticking {n : Nat} {v : World × Nat} (h : (World.ticking clock).exec p (w, n) = (out, v)) :
    ∃ w₁, AloneRuns p w out w₁ ∧ ClockMoves w₁ v.1 := by
  induction p generalizing w n with
  | pure a =>
    cases h
    exact ⟨w, .pure a w, .refl w⟩
  | throw e =>
    cases h
    exact ⟨w, .throw e w, .refl w⟩
  | call o k ih =>
    obtain ⟨w₁, hruns, hw₁⟩ := ih _ h
    obtain ⟨w₂, hruns, hw₂⟩ := aloneRuns_start ⟨w.clock, rfl⟩ hruns
    exact ⟨w₂, .call ⟨clock n, rfl⟩ (Handler.Sound.faulty rfl) hruns, hw₂.trans hw₁⟩

theorem aloneRuns_keeps {I : World → Prop} {Q : Except Exn α → World → Prop}
    (hI : ∀ w w', ClockMoves w w' → I w → I w') (h : Keeps (Guarded (fun _ _ => True)) ClockMoves I Q p w)
    (hr : AloneRuns p w out w') : Q out w' :=
  h.runs Guarded.of_faulty (fun _ _ hw => hw) hI hr

end Clock

/-- The end of a call that has published `s`. -/
theorem commits_rest {G : SyncOp → World → Prop} {α : Type} {stateRepository : Bool}
    {contextId watermark : String} {events : List (String × String)} {a : α} {s : MembershipSnapshot}
    {Q : Except Exn α → World → Prop} {w₁ : World} (hw₁ : w₁.service = w.service)
    (hok : ∀ w₂, w₂.service = w.service → w₂.store = some s → Q (.ok a) w₂)
    (herr : ∀ e w₂, Q (.error e) w₂) :
    Commits G ClockMoves (fun w₁ => w₁.service = w.service) Q stateRepository contextId watermark events a
      { w₁ with store := some s } := by
  rw [Commits]
  split
  · refine ⟨hw₁, ?_⟩
    rintro _ ⟨now, rfl⟩ -
    exact ⟨fun e => herr e _, fun _ => hok _ hw₁ rfl⟩
  · exact hok _ hw₁ rfl

/-- What a `bootstrap` leaves that had the source to itself. -/
theorem bootstrap_rest {snapshot : MembershipSnapshot} (hB : Lawful self.client.bitMap64)
    (h : AloneRuns (self.bootstrap now) w (.ok (snapshot, self')) w') :
    w'.service = w.service ∧ w'.store = some snapshot ∧
      snapshot.members = w.service.members.keys ∧ snapshot.scores = w.service.members ∧
      snapshot.sourceWatermark = w.service.watermark ∧
      self' = { self with committedWatermark := some w.service.watermark } := by
  refine aloneRuns_keeps (I := fun w₁ => w₁.service = w.service) (Q := fun out w' => match out with
    | .ok (snapshot, self') => w'.service = w.service ∧ w'.store = some snapshot ∧
        snapshot.members = w.service.members.keys ∧ snapshot.scores = w.service.members ∧
        snapshot.sourceWatermark = w.service.watermark ∧
        self' = { self with committedWatermark := some w.service.watermark }
    | .error _ => True) (fun _ _ hw hI => hw.service.trans hI) ?_ h
  refine bootstrap_keeps (P := fun s w₁ => s.members = w.service.members.keys ∧
    s.scores = w.service.members ∧ s.sourceWatermark = w.service.watermark)
    (fun _ _ _ hw hw' => hw.trans hw') ?_ ?_ (fun _ _ _ => trivial)
  · apply ingest_keeps (R := ClockMoves) (I := fun w₁ => w₁.service = w.service)
      (fun _ _ _ hw hw' => hw.trans hw') (fun _ _ hw => hw.service) hB rfl
    · exact fun w₁ _ hI₁ => ⟨hI₁, fun _ _ => ⟨rfl, rfl, rfl⟩⟩
    · exact fun _ _ _ _ => trivial
  · rintro s w₁ w₂ ⟨hm, hs, hw⟩ - hI₂ -
    rw [hw]
    exact commits_rest hI₂ (fun w₂ hw₂ hs₂ => ⟨hw₂, hs₂, hm, hs, hw, rfl⟩) (fun _ _ => trivial)

/-- What a `sync_once` leaves that had the source to itself: nothing has changed, or
the store has taken the delta of all events after the boundary. -/
theorem syncOnce_rest {b : Nat} {report : SyncReport} (hcoh : Coherent initial w.service)
    (hp : 0 < w.service.pageSize) (hb : Bounded self b) (hlen : b ≤ w.service.events.length)
    (h : AloneRuns (self.syncOnce now) w (.ok (report, self')) w') :
    w'.service = w.service ∧
      (w.service.events.length ≤ b ∧ ClockMoves w w' ∧ self' = self ∨
        ∃ ordered f s dataAsOf, Stretch b w.service.events.length w.service ordered ∧
          Folds ordered f ∧ w.store = some s ∧
          w'.store =
            some (s.applyDelta (deltaOf f (watermarkOf w.service.events.length) now dataAsOf)) ∧
          self' = remember self ordered (watermarkOf w.service.events.length)) := by
  refine aloneRuns_keeps (I := fun w₁ => w₁.service = w.service) (Q := fun out w' => match out with
    | .ok (_, self') => w'.service = w.service ∧
        (w.service.events.length ≤ b ∧ ClockMoves w w' ∧ self' = self ∨
          ∃ ordered f s dataAsOf, Stretch b w.service.events.length w.service ordered ∧
            Folds ordered f ∧ w.store = some s ∧
            w'.store =
              some (s.applyDelta (deltaOf f (watermarkOf w.service.events.length) now dataAsOf)) ∧
            self' = remember self ordered (watermarkOf w.service.events.length))
    | .error _ => True) (fun _ _ hw hI => hw.service.trans hI) ?_ h
  apply syncOnce_keeps (R := ClockMoves) (I := fun w₁ => w₁.service = w.service)
    ClockMoves.refl (fun _ _ _ hw hw' => hw.trans hw')
    (fun _ _ hw => hw.service ▸ .refl _) (fun w₁ hI₁ => ⟨hI₁ ▸ hcoh, hI₁ ▸ hp⟩) hb hlen rfl
  · exact fun report w₁ hw hI₁ hle => ⟨hI₁, .inl ⟨hle, hw, rfl⟩⟩
  · rintro m ordered f s _ dataAsOf hm hst hf ⟨now, rfl⟩ - hs d rfl - report
    obtain rfl := le_antisymm hst.le hm
    exact commits_rest rfl
      (fun w₂ hw₂ hs₂ => ⟨hw₂, .inr ⟨ordered, f, s, dataAsOf, hst, hf, hs, hs₂, rfl⟩⟩)
      (fun _ _ => trivial)
  · exact fun _ _ _ _ => trivial

/-- From a store that is not behind the boundary a `sync_once` at rest ends with the
source's members. -/
theorem syncOnce_members {b v : Nat} {report : SyncReport} (hcoh : Coherent initial w.service)
    (hp : 0 < w.service.pageSize) (hb : Bounded self b) (hbv : b ≤ v) (hv : StoreAt initial v w)
    (h : AloneRuns (self.syncOnce now) w (.ok (report, self')) w') :
    ∃ s, w'.store = some s ∧ ∀ x, x ∈ s.members ↔ x ∈ w.service.members := by
  have hvlen : v ≤ w.service.events.length := hv.choose_spec.2.2.1
  obtain ⟨hservice, hrest⟩ := syncOnce_rest hcoh hp hb (hbv.trans hvlen) h
  have hend : StoreAt initial w.service.events.length w' := by
    obtain ⟨hle, hmoves, -⟩ | ⟨ordered, f, s, dataAsOf, hst, hf, hs, hs', -⟩ := hrest
    · obtain rfl : v = w.service.events.length := by omega
      exact hv.extend (hservice ▸ .refl _) hmoves.store
    · have hpub := hv.applyDelta hs hst hf hbv hvlen now dataAsOf
      exact hpub.extend (hservice ▸ .refl _) hs'
  obtain ⟨s, hs, -, -, hmembers⟩ := hend
  rw [hservice] at hmembers
  refine ⟨s, hs, fun x => ?_⟩
  rw [hcoh.mem_members, ← hmembers, decide_eq_true_eq]

end ContextqlServer.Deepsee.Rest
