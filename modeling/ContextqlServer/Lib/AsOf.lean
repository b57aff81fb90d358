import ContextqlServer.Lib.Ordering
import Mathlib.Data.Prod.Lex

namespace ContextqlServer.Lib.AsOf

variable {α τ ν : Type} [LinearOrder τ] [LinearOrder ν] (time : α → τ) (version : α → ν)

def rank (x : α) : τ ×ₗ ν := toLex (time x, version x)

/-- The one of `xs` that answers at `t`: the latest that is not after `t`, and of
those of one time the one of the highest version. -/
def asOf (xs : List α) (t : τ) : Option α :=
  ((xs.filter (fun x => time x ≤ t)).insertionSort (fun x y =>
    OrderDual.toDual (rank time version x) ≤ OrderDual.toDual (rank time version y))).head?

section Answer

variable {time version} {xs : List α} {t c : τ} {x : α} {p : α → Bool}

theorem asOf_eq_none : asOf time version xs t = none ↔ ∀ x ∈ xs, t < time x := by
  rw [asOf, Ordering.head?_eq_none (fun x => OrderDual.toDual (rank time version x)),
    List.filter_eq_nil_iff]
  simp only [decide_eq_true_eq, not_le]

theorem asOf_eq_some (hversion : ∀ x ∈ xs, ∀ y ∈ xs, version x = version y → x = y) :
    asOf time version xs t = some x ↔
      x ∈ xs ∧ time x ≤ t ∧ ∀ y ∈ xs, time y ≤ t → rank time version y ≤ rank time version x := by
  have hkey : ∀ y ∈ xs.filter (fun x => time x ≤ t), ∀ z ∈ xs.filter (fun x => time x ≤ t),
      OrderDual.toDual (rank time version y) = OrderDual.toDual (rank time version z) → y = z := by
    intro y hy z hz h
    have h := Prod.mk.inj (toLex.injective (OrderDual.toDual.injective h))
    exact hversion y (List.mem_filter.mp hy).1 z (List.mem_filter.mp hz).1 h.2
  rw [asOf, Ordering.head?_eq_some _ hkey]
  simp only [List.mem_filter, decide_eq_true_eq, OrderDual.toDual_le_toDual, and_imp, and_assoc]

/-- What an answer is among fewer. -/
theorem asOf_filter_of_kept (hversion : ∀ x ∈ xs, ∀ y ∈ xs, version x = version y → x = y)
    (h : asOf time version xs t = some x) (hx : p x) : asOf time version (xs.filter p) t = some x := by
  obtain ⟨hmem, ht, hmax⟩ := (asOf_eq_some hversion).mp h
  refine (asOf_eq_some ?_).mpr ⟨List.mem_filter.mpr ⟨hmem, hx⟩, ht, ?_⟩
  · exact fun y hy z hz => hversion y (List.mem_filter.mp hy).1 z (List.mem_filter.mp hz).1
  · exact fun y hy => hmax y (List.mem_filter.mp hy).1

/-- Another one answers in the place of `d` at the times from `c` on. -/
def Replaced (time : α → τ) (version : α → ν) (xs : List α) (c : τ) (d : α) : Prop :=
  if c < time d then ∃ r ∈ xs, time r = time d ∧ version d < version r
  else ∃ r ∈ xs, time r ≤ c ∧ rank time version d < rank time version r

instance (xs : List α) (c : τ) (d : α) : Decidable (Replaced time version xs c d) :=
  inferInstanceAs (Decidable (if c < time d then ∃ r ∈ xs, time r = time d ∧ version d < version r
    else ∃ r ∈ xs, time r ≤ c ∧ rank time version d < rank time version r))

theorem replaced_iff : Replaced time version xs c x ↔
    ∃ r ∈ xs, time r ≤ max c (time x) ∧ rank time version x < rank time version r := by
  rw [Replaced]
  split
  · rename_i hc
    rw [max_eq_right hc.le]
    refine exists_congr fun r => and_congr_right fun _ => ?_
    rw [rank, rank, Prod.Lex.toLex_lt_toLex]
    constructor
    · exact fun h => ⟨h.1.le, .inr ⟨h.1.symm, h.2⟩⟩
    · rintro ⟨hle, hlt | ⟨heq, hlt⟩⟩
      · exact absurd hlt (not_lt.mpr hle)
      · exact ⟨heq.symm, hlt⟩
  · rename_i hc
    rw [max_eq_left (not_lt.mp hc)]

/-- The answers from `c` on stay when some are deleted exactly if every deleted one
is replaced. -/
theorem asOf_filter_iff (hversion : ∀ x ∈ xs, ∀ y ∈ xs, version x = version y → x = y) :
    (∀ t, c ≤ t → asOf time version (xs.filter p) t = asOf time version xs t) ↔
      ∀ d ∈ xs, p d = false → Replaced time version xs c d := by
  constructor
  · intro h d hd hp
    rw [replaced_iff]
    by_contra hnone
    push Not at hnone
    have hanswer : asOf time version xs (max c (time d)) = some d :=
      (asOf_eq_some hversion).mpr ⟨hd, le_max_right _ _, hnone⟩
    rw [← h _ (le_max_left _ _)] at hanswer
    have hversion' : ∀ x ∈ xs.filter p, ∀ y ∈ xs.filter p, version x = version y → x = y :=
      fun y hy z hz => hversion y (List.mem_filter.mp hy).1 z (List.mem_filter.mp hz).1
    have hmem := (List.mem_filter.mp ((asOf_eq_some hversion').mp hanswer).1).2
    rw [hp] at hmem
    cases hmem
  · intro h t ht
    cases hanswer : asOf time version xs t with
    | none =>
      rw [asOf_eq_none] at hanswer ⊢
      exact fun x hx => hanswer x (List.mem_filter.mp hx).1
    | some x =>
      apply asOf_filter_of_kept hversion hanswer
      obtain ⟨hmem, hxt, hmax⟩ := (asOf_eq_some hversion).mp hanswer
      by_contra hp
      obtain ⟨r, hr, hrt, hlt⟩ := replaced_iff.mp (h x hmem (Bool.eq_false_of_not_eq_true hp))
      exact absurd hlt (not_lt.mpr (hmax r hr (hrt.trans (max_le ht hxt))))

end Answer

end ContextqlServer.Lib.AsOf
