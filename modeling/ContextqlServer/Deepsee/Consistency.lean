import ContextqlServer.Deepsee.Bootstrap

namespace ContextqlServer.Deepsee.Consistency

open ContextqlServer.Lib.Log ContextqlServer.Lib.Mapping ContextqlServer.Lib.Python
open ContextqlServer.Db.Synchronization
open ContextqlServer.Deepsee.Models ContextqlServer.Deepsee.MockService
open ContextqlServer.Deepsee.Store ContextqlServer.Deepsee.Synchronizer
open ContextqlServer.Deepsee.History ContextqlServer.Deepsee.Fold ContextqlServer.Deepsee.Batch

/-- The store holds the source's members at event number `v`, and says so. -/
def StoreAt (initial : Dict Int Float64) (v : Nat) (w : World) : Prop :=
  ∃ s, w.store = some s ∧ s.sourceWatermark = watermarkOf v ∧ v ≤ w.service.events.length ∧
    ∀ x, decide (x ∈ s.members) = membersAt initial w.service.events v x

/-- The state repository would load watermark number `d` and no event after it. -/
structure DurableAt (contextId : String) (d : Nat) (t : SyncTables) : Prop where
  committed : (t.load contextId).1 = some (watermarkOf d) ∨ (t.load contextId).1 = none ∧ d = 0
  seen : eventIdsUpTo d (t.load contextId).2

/-- Publication comes before the commit: the store is never behind the repository. -/
structure Consistent (initial : Dict Int Float64) (contextId : String) (w : World) : Prop where
  coherent : Coherent initial w.service
  pageSize : 0 < w.service.pageSize
  ordered : ∃ d, DurableAt contextId d w.durable ∧
    (w.store = none ∧ (w.durable.load contextId).1 = none ∨ ∃ v, d ≤ v ∧ StoreAt initial v w)

variable {initial : Dict Int Float64} {contextId : String} {w w' : World}

theorem watermarkOf_injective : Function.Injective watermarkOf := zpad_injective 12

namespace StoreAt

variable {v : Nat}

theorem extend (h : StoreAt initial v w) (hs : Extends w.service w'.service)
    (hstore : w'.store = w.store) : StoreAt initial v w' := by
  obtain ⟨s, hs', hw, hv, hm⟩ := h
  refine ⟨s, hstore.trans hs', hw, hv.trans hs.length_le, fun x => ?_⟩
  rw [hm, membersAt_extend hs.events hv]

theorem unique {u : Nat} (h : StoreAt initial v w) (h' : StoreAt initial u w) : v = u := by
  obtain ⟨s, hs, hw, -, -⟩ := h
  obtain ⟨s', hs', hw', -, -⟩ := h'
  obtain rfl := Option.some.inj (hs.symm.trans hs')
  exact watermarkOf_injective (hw.symm.trans hw')

theorem publish (hc : Coherent initial w.service) {s : MembershipSnapshot}
    (hm : s.members = w.service.members.keys) (hw : s.sourceWatermark = w.service.watermark) :
    StoreAt initial w.service.events.length { w with store := some s } := by
  refine ⟨s, rfl, ?_, le_rfl, fun x => ?_⟩
  · rw [hw, MockDeepSeeService.watermark, hc.seq_eq]
  · rw [hm, ← Bool.coe_iff_coe, ← hc.mem_members, decide_eq_true_eq, Finmap.mem_keys]

theorem applyDelta (h : StoreAt initial v w) {b m : Nat} {ordered : List ChangeEvent}
    {f : FoldedChanges} {s : MembershipSnapshot} (hs : w.store = some s)
    (ho : Stretch b m w.service ordered) (hf : Folds ordered f) (hb : b ≤ v) (hv : v ≤ m)
    (computedAt dataAsOf : Timestamp) :
    StoreAt initial m
      { w with store := some (s.applyDelta (deltaOf f (watermarkOf m) computedAt dataAsOf)) } := by
  obtain ⟨s', hs', -, -, hm⟩ := h
  obtain rfl := Option.some.inj (hs.symm.trans hs')
  refine ⟨_, rfl, rfl, ho.le, fun x => ?_⟩
  have hstore : (fun y => decide (y ∈ s.members)) = membersAt initial w.service.events v := by
    funext y
    exact hm y
  rw [applyDelta_members hf, hstore, ho.eq, membersAt, membersAt, replay_segment _ _ _ hb hv]

end StoreAt

namespace DurableAt

variable {d : Nat} {t : SyncTables}

theorem commit (h : DurableAt contextId d t) {m : Nat} (hd : d ≤ m)
    {events : List (String × String)} (he : eventIdsUpTo m (events.map Prod.fst).toFinset) :
    DurableAt contextId m (t.commit contextId (watermarkOf m) events) where
  committed := by
    rw [SyncTables.commit_load]
    exact .inl rfl
  seen := by
    rw [SyncTables.commit_load]
    intro id hid
    rcases Finset.mem_union.mp hid with hid | hid
    · obtain ⟨j, h₁, hj, rfl⟩ := h.seen id hid
      exact ⟨j, h₁, hj.trans hd, rfl⟩
    · exact he id hid

theorem unique {e : Nat} (h : DurableAt contextId d t) (h' : DurableAt contextId e t) : d = e := by
  rcases h.committed with hd | ⟨hd, rfl⟩
  · rcases h'.committed with he | ⟨he, rfl⟩
    · exact watermarkOf_injective (Option.some.inj (hd.symm.trans he))
    · cases hd.symm.trans he
  · rcases h'.committed with he | ⟨he, rfl⟩
    · cases hd.symm.trans he
    · rfl

end DurableAt

namespace Consistent

theorem durable_le (h : Consistent initial contextId w) {d : Nat}
    (hd : DurableAt contextId d w.durable) : d ≤ w.service.events.length := by
  obtain ⟨e, he, hstore⟩ := h.ordered
  obtain rfl := hd.unique he
  rcases hstore with ⟨-, hnone⟩ | ⟨v, hdv, hv⟩
  · rcases hd.committed with hsome | ⟨-, rfl⟩
    · cases hnone.symm.trans hsome
    · exact Nat.zero_le _
  · exact hdv.trans hv.choose_spec.2.2.1

theorem publish (h : Consistent initial contextId w) {s : MembershipSnapshot} {d v : Nat}
    (hd : DurableAt contextId d w.durable) (hdv : d ≤ v)
    (hv : StoreAt initial v { w with store := some s }) :
    Consistent initial contextId { w with store := some s } :=
  ⟨h.coherent, h.pageSize, d, hd, .inr ⟨v, hdv, hv⟩⟩

theorem commit (h : Consistent initial contextId w) {d m v : Nat}
    {events : List (String × String)} (hd : DurableAt contextId d w.durable) (hdm : d ≤ m)
    (hmv : m ≤ v) (hv : StoreAt initial v w)
    (he : eventIdsUpTo m (events.map Prod.fst).toFinset) :
    Consistent initial contextId
      { w with durable := w.durable.commit contextId (watermarkOf m) events } :=
  ⟨h.coherent, h.pageSize, m, hd.commit hdm he, .inr ⟨v, hmv, hv⟩⟩

end Consistent

end ContextqlServer.Deepsee.Consistency
