import ContextqlServer.Deepsee.Resolution
import ContextqlServer.Lib.Ordering
import Mathlib.Data.Prod.Lex

namespace ContextqlServer.Deepsee.TopK

open ContextqlServer.Lib.Effect ContextqlServer.Lib.Mapping ContextqlServer.Lib.Ordering ContextqlServer.Lib.Python
open ContextqlServer.Deepsee.Models ContextqlServer.Deepsee.MockService
open ContextqlServer.Deepsee.Client ContextqlServer.Deepsee.Store
open ContextqlServer.Deepsee.Synchronizer ContextqlServer.Deepsee.McpProvider
open ContextqlServer.Deepsee.Bootstrap ContextqlServer.Deepsee.Paging ContextqlServer.Deepsee.Resolution
open ContextqlServer.Deepsee.Machine

section Order

variable {scores : Dict Int Float64} {i j : Int}

def Comparable (scores : Dict Int Float64) : Prop :=
  ∀ i x, scores.lookup i = some x → x ≠ .nan

/-- The one member comes before the other by score, descending, and then by id, ascending. -/
def Precedes (scores : Dict Int Float64) (i j : Int) : Prop :=
  ∃ x y, scores.lookup i = some x ∧ scores.lookup j = some y ∧ (y.less x ∨ x.same y ∧ i < j)

/-- The place of a member among the others, the first one least. -/
def place (scores : Dict Int Float64) (i : Int) : WithBot (WithTop ℚ) ×ₗ Int :=
  toLex (rank ((scores.lookup i).getD 1).neg, i)

theorem Comparable.ne_nan (h : Comparable scores) (i : Int) : (scores.lookup i).getD 1 ≠ .nan := by
  cases hx : scores.lookup i with
  | none => exact nofun
  | some x => exact h i x hx

theorem rankedBefore_iff (h : Comparable scores) : rankedBefore scores i j ↔ place scores i < place scores j := by
  have hi := neg_ne_nan (h.ne_nan i)
  have hj := neg_ne_nan (h.ne_nan j)
  have hsame := same_iff hi hj
  rw [place, place, Prod.Lex.toLex_lt_toLex, ← less_iff hi hj, ← hsame, rankedBefore]
  dsimp only
  split
  next heq =>
    have hless : ¬ ((scores.lookup i).getD 1).neg.less ((scores.lookup j).getD 1).neg := by
      rw [less_iff hi hj, hsame.mp heq]
      exact lt_irrefl _
    rw [decide_eq_true_eq]
    exact ⟨fun hij => .inr ⟨heq, hij⟩, fun hor => (hor.resolve_left hless).2⟩
  next hne => exact ⟨.inl, fun hor => hor.resolve_right (fun hand => hne hand.1)⟩

theorem sort_by_place (h : Comparable scores) (ids : List Int) :
    ids.insertionSort (fun i j => ¬ rankedBefore scores j i) =
      ids.insertionSort (fun i j => place scores i ≤ place scores j) := by
  apply insertionSort_congr
  intro i j
  rw [rankedBefore_iff h, not_lt]

theorem Precedes.of_place (h : Comparable scores) (hi : i ∈ scores) (hj : j ∈ scores) (hne : i ≠ j)
    (hle : place scores i ≤ place scores j) : Precedes scores i j := by
  obtain ⟨x, hx⟩ := Option.isSome_iff_exists.mp (mem_iff_lookup.mp hi)
  obtain ⟨y, hy⟩ := Option.isSome_iff_exists.mp (mem_iff_lookup.mp hj)
  have hlt : place scores i < place scores j := by
    apply lt_of_le_of_ne hle
    intro heq
    exact hne (congrArg (fun p => (ofLex p).2) heq)
  have hx' := neg_ne_nan (h i x hx)
  have hy' := neg_ne_nan (h j y hy)
  rw [place, place, hx, hy, Prod.Lex.toLex_lt_toLex] at hlt
  simp only [Option.getD_some] at hlt
  rw [← less_iff hx' hy', ← same_iff hx' hy', less_neg, same_neg] at hlt
  exact ⟨x, y, hx, hy, hlt⟩

end Order

section Selection

variable {s : MockDeepSeeService} {k : Nat}

def keptIds (s : MockDeepSeeService) (k : Nat) : List Int :=
  if k < s.members.keys.card then
    ((memberIds s).insertionSort (fun i j => ¬ rankedBefore s.members j i)).take k
  else memberIds s

/-- These are the first `k` of the members, or all of them. -/
structure First (scores : Dict Int Float64) (k : Nat) (kept : Finset Int) : Prop where
  card : kept.card = min k scores.keys.card
  members : ∀ i ∈ kept, i ∈ scores
  precedes : ∀ i ∈ kept, ∀ j ∈ scores, j ∉ kept → Precedes scores i j

theorem keptIds_nodup : (keptIds s k).Nodup := by
  rw [keptIds]
  split
  · exact (((List.perm_insertionSort _ _).nodup_iff.mpr (sorted_nodup _)).sublist (List.take_sublist _ _))
  · exact sorted_nodup _

theorem keptIds_length : (keptIds s k).length = min k s.members.keys.card := by
  have hlength : (memberIds s).length = s.members.keys.card := sorted_length _
  rw [keptIds]
  split
  · rw [List.length_take, List.length_insertionSort, hlength]
  · omega

theorem mem_of_keptIds {i : Int} (h : i ∈ keptIds s k) : i ∈ s.members := by
  rw [keptIds] at h
  split at h
  · exact Finmap.mem_keys.mp (mem_sorted.mp ((List.mem_insertionSort _).mp (List.mem_of_mem_take h)))
  · exact Finmap.mem_keys.mp (mem_sorted.mp h)

theorem keptIds_first (h : Comparable s.members) : First s.members k (keptIds s k).toFinset where
  card := by rw [List.toFinset_card_of_nodup keptIds_nodup, keptIds_length]
  members i hi := mem_of_keptIds (List.mem_toFinset.mp hi)
  precedes i hi j hj hdropped := by
    rw [List.mem_toFinset] at hi hdropped
    have hlisted : j ∈ memberIds s := mem_sorted.mpr (Finmap.mem_keys.mpr hj)
    have hne : i ≠ j := fun heq => hdropped (heq ▸ hi)
    apply Precedes.of_place h (mem_of_keptIds hi) hj hne
    rw [keptIds] at hi hdropped
    split at hi
    next hlt =>
      rw [if_pos hlt] at hdropped
      rw [sort_by_place h] at hi hdropped
      exact key_le_of_cut _ hi hlisted hdropped
    next hall =>
      rw [if_neg hall] at hdropped
      exact absurd hlisted hdropped

theorem evidence_whole (i : Int) :
    (whole s).evidenceRefs.lookup i = if i ∈ memberIds s then some (evidenceRef i) else none :=
  lookup_collect _ _ _

theorem scores_whole (i : Int) : s.members.lookup i = if i ∈ memberIds s then s.members.lookup i else none := by
  split
  next => rfl
  next hnot => exact Finmap.lookup_eq_none.mpr (fun hi => hnot (mem_sorted.mpr (Finmap.mem_keys.mpr hi)))

theorem limited_kept : ((whole s).limited (some (k : Int))).entityIds = keptIds s k ∧
    (∀ i, ((whole s).limited (some (k : Int))).scores.lookup i =
      if i ∈ keptIds s k then s.members.lookup i else none) ∧
    ∀ i, ((whole s).limited (some (k : Int))).evidenceRefs.lookup i =
      if i ∈ keptIds s k then some (evidenceRef i) else none := by
  have hkept : ∀ i ∈ keptIds s k, i ∈ memberIds s :=
    fun i hi => mem_sorted.mpr (Finmap.mem_keys.mpr (mem_of_keptIds hi))
  rw [Gathered.limited, length_whole]
  simp only [Int.ofNat_lt, gt_iff_lt]
  by_cases hlt : k < s.members.keys.card
  · have hslice := slice_natCast ((memberIds s).insertionSort (fun i j => ¬ rankedBefore s.members j i)) 0 k
    have hids : slice ((whole s).entityIds.insertionSort (fun i j => ¬ rankedBefore (whole s).scores j i)) 0 k =
        keptIds s k := by
      rw [Int.natCast_zero, Int.zero_add, List.drop_zero] at hslice
      rw [keptIds, if_pos hlt]
      exact hslice
    rw [if_pos hlt, hids]
    refine ⟨rfl, fun i => lookup_collect _ _ _, ?_⟩
    intro i
    rw [lookup_collect, evidence_whole]
    by_cases hi : i ∈ keptIds s k
    · rw [if_pos hi, if_pos hi, if_pos (hkept i hi)]
    · rw [if_neg hi, if_neg hi]
  · have hids : keptIds s k = memberIds s := if_neg hlt
    rw [if_neg hlt, hids]
    exact ⟨rfl, scores_whole, evidence_whole⟩

end Selection

section Results

variable {k : Nat} {kept : Finset Int}

/-- The result decodes to these members, without repetition, and has their scores and references. -/
structure Selects (B : BitMap64) (scores : Dict Int Float64) (r : MCPResult) (kept : Finset Int) : Prop where
  decoded : r.members B = some kept
  distinct : ∀ ids, r.entityIds = some ids → ids.Nodup
  scores : ∀ i, r.scores.lookup i = if i ∈ kept then scores.lookup i else none
  evidenceRefs : ∀ i, r.evidenceRefs.lookup i = if i ∈ kept then some (evidenceRef i) else none

variable {provider : DeepSeeMCPProvider} {clock : Nat → Timestamp} {w : World} {entityType : String} {r : MCPResult}

theorem resultOf_ids {g : Gathered} {ids : List Int} (h : provider.resultOf entityType g = .ok r)
    (hids : r.entityIds = some ids) : ids = g.entityIds := by
  rw [DeepSeeMCPProvider.resultOf] at h
  split at h
  · obtain ⟨_, -, h⟩ := bind_eq_ok.mp h
    obtain rfl := Except.ok.inj h
    cases hids
  · obtain rfl := Except.ok.inj h
    exact (Option.some.inj hids).symm

theorem resultOf_selects {s : MockDeepSeeService} (hB : Lawful provider.client.bitMap64)
    (hresult : provider.resultOf entityType ((whole s).limited (some (k : Int))) = .ok r) :
    Selects provider.client.bitMap64 s.members r (keptIds s k).toFinset := by
  obtain ⟨hentityIds, hscores, hevidence⟩ := limited_kept (s := s) (k := k)
  obtain ⟨hmaps, hrefs⟩ := resultOf_maps hresult
  constructor
  · rw [(provider.resultOf_members hB hresult).1, hentityIds]
  · intro ids hids
    rw [resultOf_ids hresult hids, hentityIds]
    exact keptIds_nodup
  · intro i
    rw [hmaps, hscores]
    exact if_congr List.mem_toFinset.symm rfl rfl
  · intro i
    rw [hrefs, hevidence]
    exact if_congr List.mem_toFinset.symm rfl rfl

/-- Ids of which the provider makes a bitmap are such as fit into one. -/
def Packs (provider : DeepSeeMCPProvider) (kept : Finset Int) : Prop :=
  provider.bitmapThreshold ≤ (kept.card : Int) → ∀ i ∈ kept, i < 2 ^ 64

/-- Over id pages, `resolve` with a limit returns the first members of the source. -/
def Resolves (provider : DeepSeeMCPProvider) (entityType : String) (k : Nat) (clock : Nat → Timestamp) (w : World)
    (kept : Finset Int) : Prop :=
  ∃ r n, (World.ticking clock).exec (provider.resolve entityType (some (k : Int))) (w, 0) = (.ok r, (w, n)) ∧
    Selects provider.client.bitMap64 w.service.members r kept

theorem resolves_iff (hB : Lawful provider.client.bitMap64) (hm : w.service.bitmapSnapshot = false) :
    Resolves provider entityType k clock w (keptIds w.service k).toFinset ↔
      Listable provider.client clock w.service ∧ Packs provider (keptIds w.service k).toFinset := by
  have hentityIds := (limited_kept (s := w.service) (k := k)).1
  rw [Packs, List.toFinset_card_of_nodup keptIds_nodup, ← hentityIds]
  simp only [List.mem_toFinset]
  constructor
  · rintro ⟨r, n, h, -⟩
    obtain ⟨hlistable, hresult, -⟩ := (resolve_ids hm).1 _ h
    exact ⟨hlistable, fun hthreshold i hi => (fits_of_ok hresult hthreshold i hi).2⟩
  · rintro ⟨hlistable, hbound⟩
    have hfits : Fits provider.bitmapThreshold ((whole w.service).limited (some (k : Int))) := by
      intro hthreshold i hi
      exact ⟨hlistable.nonnegative i (mem_of_keptIds (hentityIds ▸ hi)), hbound hthreshold i hi⟩
    obtain ⟨r, hr, -⟩ : ∃ r, provider.resultOf entityType ((whole w.service).limited (some (k : Int))) = .ok r ∧ _ :=
      yields_of_fits hB hfits
    obtain ⟨n, h⟩ := (resolve_ids hm).2 hlistable hr
    rw [hentityIds]
    exact ⟨r, n, h, resultOf_selects hB hr⟩

/-- There is one choice of the first members of a source which `resolve` returns, whatever the page
size and the threshold are, exactly when the source can be read over id pages and the chosen ids
fit into a bitmap where one is made. It returns no others. -/
theorem resolve_top_k_iff (s : MockDeepSeeService) (hm : s.bitmapSnapshot = false) (hscores : Comparable s.members)
    (k : Nat) :
    ∃ kept : Finset Int, First s.members k kept ∧
      ∀ (provider : DeepSeeMCPProvider) (entityType : String) (pageSize : Nat) (clock : Nat → Timestamp) (w : World),
        Lawful provider.client.bitMap64 → w.service = { s with pageSize } →
        (Resolves provider entityType k clock w kept ↔
          Listable provider.client clock w.service ∧ Packs provider kept) ∧
        ∀ r v, (World.ticking clock).exec (provider.resolve entityType (some (k : Int))) (w, 0) = (.ok r, v) →
          Selects provider.client.bitMap64 s.members r kept := by
  refine ⟨(keptIds s k).toFinset, keptIds_first hscores, ?_⟩
  intro provider entityType pageSize clock w hB hw
  have hmode : w.service.bitmapSnapshot = false := by rw [hw, hm]
  have hkept : keptIds w.service k = keptIds s k := by
    rw [hw]
    rfl
  have hmembers : w.service.members = s.members := by rw [hw]
  constructor
  · rw [← hkept]
    exact resolves_iff hB hmode
  · intro r v h
    rw [← hkept, ← hmembers]
    exact resultOf_selects hB ((resolve_ids hmode).1 v h).2.1

/-- Five members, the second and the third with the same score as the fifth. -/
def tied : MockDeepSeeService :=
  sampleService (collect (fun i => some (if i = 1 then 0 else if i = 4 then .inf false else 1)) [1, 2, 3, 4, 5]) 2

theorem tied_comparable : Comparable tied.members := by
  intro i x hx
  rw [tied, sampleService, lookup_collect] at hx
  split at hx
  · obtain rfl := Option.some.inj hx
    split
    · exact nofun
    · split
      · exact nofun
      · exact nofun
  · cases hx

def packing (bitmapThreshold : Int) : DeepSeeMCPProvider := ⟨sampleProvider.client, bitmapThreshold⟩

def tiedWorld : World := { sampleWorld with service := { tied with pageSize := 3 } }

theorem resolve_top_k_iff_sample :
    ∃ kept : Finset Int, First tied.members 2 kept ∧
      (Resolves (packing 2) "transaction" 2 sampleClock tiedWorld kept ↔
        Listable (packing 2).client sampleClock tiedWorld.service ∧ Packs (packing 2) kept) := by
  obtain ⟨kept, hfirst, h⟩ := resolve_top_k_iff tied rfl tied_comparable 2
  exact ⟨kept, hfirst, (h (packing 2) "transaction" 3 sampleClock tiedWorld unaryBitMap64_lawful rfl).1⟩

example : keptIds tied 2 = [4, 2] := by decide

/-- One member, whose id does not fit into a bitmap. -/
def oversized : MockDeepSeeService := sampleService (collect (fun _ => some 1) [2 ^ 64]) 1

def oversizedWorld : World := { sampleWorld with service := oversized }

/-- With a threshold of two the member is returned as a list, with one of one the call fails. -/
theorem oversized_resolve :
    (∃ r n, (World.ticking sampleClock).exec ((packing 2).resolve "transaction" (some 1)) (oversizedWorld, 0) =
        (.ok r, (oversizedWorld, n)) ∧ r.members unaryBitMap64 = some {2 ^ 64}) ∧
      (World.ticking sampleClock).exec ((packing 1).resolve "transaction" (some 1)) (oversizedWorld, 0) =
        (.error (.overflowError "an integer does not fit into 64 bits"), (oversizedWorld, 1)) :=
  ⟨⟨_, 1, rfl, rfl⟩, rfl⟩

end Results

end ContextqlServer.Deepsee.TopK
