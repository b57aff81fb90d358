import ContextqlServer.Deepsee.History
import ContextqlServer.Deepsee.Synchronizer
import ContextqlServer.Lib.Feed
import ContextqlServer.Lib.Rely

namespace ContextqlServer.Deepsee.Fetch

open ContextqlServer.Lib.Effect ContextqlServer.Lib.Feed ContextqlServer.Lib.Log
open ContextqlServer.Lib.Mapping ContextqlServer.Lib.Python ContextqlServer.Lib.Rely
open ContextqlServer.Deepsee.Models ContextqlServer.Deepsee.MockService
open ContextqlServer.Deepsee.Client ContextqlServer.Deepsee.Store
open ContextqlServer.Deepsee.Synchronizer ContextqlServer.Deepsee.History

def layoutOf (s : MockDeepSeeService) : Layout := ⟨s.outOfOrder, s.duplicateDelivery⟩

/-- The entries that a request since watermark number `b` leaves out. -/
def feedStart (s : MockDeepSeeService) (b : Nat) : Nat := if s.redeliverFromStart then 0 else b

theorem parseWatermark_watermarkOf (n : Nat) :
    parseWatermark (some (watermarkOf n)) = .ok (n : Int) := by
  simp [parseWatermark, watermarkOf]

variable {initial : Dict Int Float64} {s s' : MockDeepSeeService}

theorem pending_eq (h : Coherent initial s) (b : Nat) :
    s.pending b = .ok ((layoutOf s).arrange (s.events.drop (feedStart s b))) := by
  have hnum : ∀ e ∈ s.events, (do return decide ((← intOf e.watermark) > (b : Int))) =
      (.ok (decide (numberOf e.watermark > b)) : Except Exn Bool) := by
    intro e he
    obtain ⟨i, hi⟩ := List.mem_iff_getElem?.mp he
    rw [h.numberOf_watermark hi, h.watermark_eq hi]
    simp [watermarkOf, bind, Except.bind, pure, Except.pure]
  have hfilter : s.events.filter (fun e => decide (numberOf e.watermark > b)) =
      s.events.drop b := by
    have hsplit := List.filter_append (p := fun e => decide (numberOf e.watermark > (b : Int)))
      (s.events.take b) (s.events.drop b)
    rw [List.take_append_drop] at hsplit
    rw [hsplit, List.filter_eq_nil_iff.mpr, List.filter_eq_self.mpr, List.nil_append]
    · intro e he
      obtain ⟨i, hi⟩ := List.mem_iff_getElem?.mp he
      rw [List.getElem?_drop] at hi
      rw [h.numberOf_watermark hi, decide_eq_true_eq]
      omega
    · intro e he
      obtain ⟨i, hi⟩ := List.mem_iff_getElem?.mp he
      rw [List.getElem?_take] at hi
      split at hi
      · rw [h.numberOf_watermark hi, decide_eq_true_eq]
        omega
      · cases hi
  rw [MockDeepSeeService.pending, feedStart]
  split
  · rfl
  · rw [filterM_ok hnum, hfilter]
    rfl

theorem fetchChanges_ok (h : Coherent initial s) {c : DeepSeeClient} {now : Timestamp} {b o : Nat}
    {cursor : Option String} {batch : ChangeBatch} (ho : MockDeepSeeService.offsetOf cursor = .ok (o : Int))
    (hb : c.fetchChanges now s (watermarkOf b) cursor = .ok batch) :
    batch.events = (((layoutOf s).arrange (s.events.drop (feedStart s b))).drop o).take s.pageSize ∧
      batch.nextCursor =
        if o + s.pageSize < (layoutOf s).copies * (s.events.length - feedStart s b) then
          some (toString ((o + s.pageSize : Nat) : Int))
        else none := by
  rw [DeepSeeClient.fetchChanges] at hb
  obtain ⟨page, hpage, hb⟩ := bind_eq_ok.mp hb
  obtain ⟨_, _, hb⟩ := bind_eq_ok.mp hb
  obtain rfl := Except.ok.inj hb
  rw [MockDeepSeeService.changes] at hpage
  obtain ⟨_, _, hpage⟩ := bind_eq_ok.mp hpage
  rw [watermarkOf, intOf_zpad] at hpage
  obtain ⟨since, hsince, hpage⟩ := bind_eq_ok.mp hpage
  obtain rfl := Except.ok.inj hsince
  rw [pending_eq h, ho] at hpage
  obtain rfl := Except.ok.inj hpage
  refine ⟨slice_natCast _ _ _, ?_⟩
  dsimp only [MockDeepSeeService.nextCursorOf]
  rw [Layout.length_arrange, List.length_drop, ← Int.natCast_add]
  simp only [Int.ofNat_lt, decide_eq_true_eq]

theorem layoutOf_extends (h : Extends s s') : layoutOf s' = layoutOf s := by
  rw [← h.settings]
  rfl

theorem feedStart_extends (h : Extends s s') (b : Nat) : feedStart s' b = feedStart s b := by
  rw [← h.settings]
  rfl

/-- The pages read so far, up to the slot that the cursor names, of a feed whose
log had `n` entries when the first of them was read. -/
def Reading (b n : Nat) (s : MockDeepSeeService) (got : List ChangeEvent) (cursor : Option String) :
    Prop :=
  ∃ o m, MockDeepSeeService.offsetOf cursor = .ok ((o : Nat) : Int) ∧ n ≤ m ∧
    (o = 0 ∨ o < (layoutOf s).copies * (s.events.length - feedStart s b)) ∧
    Covered (layoutOf s) (feedStart s b) s.events o m got

/-- The pages have been read to the end: they hold the entries up to some number. -/
def Fetched (b n : Nat) (s : MockDeepSeeService) (got : List ChangeEvent) : Prop :=
  ∃ m, n ≤ m ∧ m ≤ s.events.length ∧ ∀ e, e ∈ got ↔ e ∈ segment (feedStart s b) m s.events

theorem Reading.start {b : Nat} (hb : b ≤ s.events.length) :
    Reading b s.events.length s [] none := by
  refine ⟨0, s.events.length, rfl, le_rfl, .inl rfl, Covered.start ?_⟩
  rw [feedStart]
  split
  · exact Nat.zero_le _
  · exact hb

theorem Reading.extend {b n : Nat} {got : List ChangeEvent} {cursor : Option String}
    (h : Reading b n s got cursor) (hs : Extends s s') : Reading b n s' got cursor := by
  obtain ⟨o, m, hc, hn, ho, hcov⟩ := h
  obtain ⟨m', hm, hcov'⟩ := hcov.grow hs.events ho
  rw [Reading, layoutOf_extends hs, feedStart_extends hs]
  refine ⟨o, m', hc, hn.trans hm, ?_, hcov'⟩
  have hmul : (layoutOf s).copies * (s.events.length - feedStart s b) ≤
      (layoutOf s).copies * (s'.events.length - feedStart s b) :=
    Nat.mul_le_mul_left _ (Nat.sub_le_sub_right hs.length_le _)
  omega

theorem Reading.page {c : DeepSeeClient} {now : Timestamp} {b n : Nat} {got : List ChangeEvent}
    {cursor : Option String} {batch : ChangeBatch} (hr : Reading b n s got cursor)
    (h : Coherent initial s) (hp : 0 < s.pageSize)
    (hb : c.fetchChanges now s (watermarkOf b) cursor = .ok batch) :
    (batch.nextCursor = none ∧ Fetched b n s (got ++ batch.events)) ∨
      (∃ next, batch.nextCursor = some next ∧ Reading b n s (got ++ batch.events) (some next)) := by
  obtain ⟨o, m, hc, hn, -, hcov⟩ := hr
  obtain ⟨hevents, hnext⟩ := fetchChanges_ok h hc hb
  obtain ⟨m', hm, -, hcov'⟩ := hcov.page hp
  rw [← hevents] at hcov'
  by_cases hlast : o + s.pageSize < (layoutOf s).copies * (s.events.length - feedStart s b)
  · rw [if_pos hlast] at hnext
    exact .inr ⟨_, hnext, o + s.pageSize, m', intOf_toString _, hn.trans hm, .inr hlast, hcov'⟩
  · rw [if_neg hlast] at hnext
    exact .inl ⟨hnext, m', hn.trans hm, hcov'.le, hcov'.done (Nat.not_lt.mp hlast)⟩

theorem fetchAllChangesLoop_keeps {self : DeepSeeSynchronizer} {G : SyncOp → World → Prop}
    {R : World → World → Prop} {I : World → Prop}
    {Q : Except Exn (List ChangeEvent × WireTime) → World → Prop} {b n : Nat} {w₀ w : World}
    (htrans : ∀ w w' w'', R w w' → R w' w'' → R w w'')
    (hR : ∀ w w', R w w' → Extends w.service w'.service)
    (hI : ∀ w, I w → Coherent initial w.service ∧ 0 < w.service.pageSize)
    (hok : ∀ events dataAsOf w, R w₀ w → I w → Fetched b n w.service events →
      Q (.ok (events, dataAsOf)) w)
    (herr : ∀ e w, R w₀ w → I w → Q (.error e) w)
    (remaining : Nat) (got : List ChangeEvent) (cursor : Option String) (hw : R w₀ w) (hIw : I w)
    (h : Reading b n w.service got cursor) :
    Keeps (Guarded G) R I Q (self.fetchAllChangesLoop (watermarkOf b) remaining got cursor) w := by
  induction remaining generalizing w got cursor with
  | zero => exact herr _ w hw hIw
  | succ remaining ih =>
    refine .bind (fetchChanges_keeps hIw ?_ ?_)
    · intro batch w₁ hw₁ hI₁ hb
      obtain ⟨hcoh, hp⟩ := hI w₁ hI₁
      have hw₁' := htrans _ _ _ hw hw₁
      obtain ⟨hnone, hdone⟩ | ⟨next, hsome, hgo⟩ := (h.extend (hR w w₁ hw₁)).page hcoh hp hb
      · simp only [hnone]
        exact hok _ _ w₁ hw₁' hI₁ hdone
      · simp only [hsome]
        exact ih (got ++ batch.events) (some next) hw₁' hI₁ hgo
    · exact fun e w₁ hw₁ hI₁ => herr e w₁ (htrans _ _ _ hw hw₁) hI₁

end ContextqlServer.Deepsee.Fetch
