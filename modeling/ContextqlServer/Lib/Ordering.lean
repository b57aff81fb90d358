import ContextqlServer.Lib.Python
import Mathlib.Algebra.Order.Ring.Rat
import Mathlib.Data.List.Sort
import Mathlib.Order.Lattice
import Mathlib.Order.WithBot

namespace ContextqlServer.Lib.Ordering

variable {α κ : Type} [LinearOrder κ] (key : α → κ) {x : α} {xs : List α}

theorem sorted_insertionSort (xs : List α) :
    (xs.insertionSort (fun a b => key a ≤ key b)).Pairwise (fun a b => key a ≤ key b) :=
  List.pairwise_insertionSort _ _

theorem head?_least (h : (xs.insertionSort (fun a b => key a ≤ key b)).head? = some x) :
    x ∈ xs ∧ ∀ y ∈ xs, key x ≤ key y := by
  obtain ⟨ys, hys⟩ := List.head?_eq_some_iff.mp h
  have hsorted := sorted_insertionSort key xs
  have hmem : ∀ y, y ∈ xs ↔ y ∈ x :: ys := by
    intro y
    rw [← hys, List.mem_insertionSort]
  rw [hys] at hsorted
  refine ⟨(hmem x).mpr (List.mem_cons_self ..), ?_⟩
  intro y hy
  obtain rfl | hy := List.mem_cons.mp ((hmem y).mp hy)
  · exact le_rfl
  · exact (List.pairwise_cons.mp hsorted).1 y hy

theorem head?_eq_none : (xs.insertionSort (fun a b => key a ≤ key b)).head? = none ↔ xs = [] := by
  rw [List.head?_eq_none_iff, ← List.length_eq_zero_iff, List.length_insertionSort,
    List.length_eq_zero_iff]

theorem head?_eq_some (hkey : ∀ y ∈ xs, ∀ z ∈ xs, key y = key z → y = z) :
    (xs.insertionSort (fun a b => key a ≤ key b)).head? = some x ↔ x ∈ xs ∧ ∀ y ∈ xs, key x ≤ key y := by
  refine ⟨head?_least key, ?_⟩
  rintro ⟨hx, hle⟩
  cases hhead : (xs.insertionSort (fun a b => key a ≤ key b)).head? with
  | none => rw [(head?_eq_none key).mp hhead] at hx; cases hx
  | some y =>
    obtain ⟨hy, hyle⟩ := head?_least key hhead
    exact congrArg some (hkey y hy x hx (le_antisymm (hyle x hx) (hle y hy)))

theorem exists_least (hx : x ∈ xs) : ∃ y ∈ xs, ∀ z ∈ xs, key y ≤ key z := by
  cases hhead : (xs.insertionSort (fun a b => key a ≤ key b)).head? with
  | none => rw [(head?_eq_none key).mp hhead] at hx; cases hx
  | some y => exact ⟨y, head?_least key hhead⟩

theorem insertionSort_eq_of_perm {ys : List α} (hperm : xs.Perm ys) (hys : ys.Pairwise (fun a b => key a < key b)) :
    xs.insertionSort (fun a b => key a ≤ key b) = ys := by
  have hkeys : (ys.map key).Nodup := List.pairwise_map.mpr (hys.imp ne_of_lt)
  have hsame : (xs.insertionSort (fun a b => key a ≤ key b)).Perm ys := (List.perm_insertionSort _ xs).trans hperm
  refine hsame.eq_of_pairwise ?_ (sorted_insertionSort key xs) (hys.imp le_of_lt)
  intro a b ha hb hab hba
  exact List.inj_on_of_nodup_map hkeys (hsame.mem_iff.mp ha) hb (le_antisymm hab hba)

section Filter

variable (p : α → Bool)

theorem orderedInsert_least {a : α} (h : ∀ y ∈ xs, key a ≤ key y) :
    xs.orderedInsert (fun a b => key a ≤ key b) a = a :: xs := by
  cases xs with
  | nil => rfl
  | cons y ys => rw [List.orderedInsert_cons, if_pos (h y (by simp))]

theorem filter_orderedInsert (a : α) (h : xs.Pairwise (fun a b => key a ≤ key b)) :
    (xs.orderedInsert (fun a b => key a ≤ key b) a).filter p =
      if p a then (xs.filter p).orderedInsert (fun a b => key a ≤ key b) a else xs.filter p := by
  induction xs with
  | nil => cases hp : p a <;> simp [hp]
  | cons y ys ih =>
    obtain ⟨hy, hys⟩ := List.pairwise_cons.mp h
    rw [List.orderedInsert_cons]
    split
    · rename_i hle
      have hleast : ∀ z ∈ (y :: ys).filter p, key a ≤ key z := by
        intro z hz
        obtain rfl | hz := List.mem_cons.mp (List.mem_filter.mp hz).1
        · exact hle
        · exact hle.trans (hy z hz)
      rw [orderedInsert_least key hleast]
      cases hp : p a <;> simp [hp]
    · rename_i hlt
      rw [List.filter_cons, ih hys]
      cases hp : p a <;> cases hq : p y <;> simp [hq, hlt]

/-- Sorting is stable, so what is left out does not change the order of the rest. -/
theorem filter_insertionSort (xs : List α) :
    (xs.insertionSort (fun a b => key a ≤ key b)).filter p =
      (xs.filter p).insertionSort (fun a b => key a ≤ key b) := by
  induction xs with
  | nil => rfl
  | cons x xs ih =>
    rw [List.insertionSort_cons, filter_orderedInsert key p x (sorted_insertionSort key xs), ih,
      List.filter_cons]
    cases hp : p x <;> simp

end Filter

section Cut

theorem key_le_of_cut {k : Nat} {a b : α} (ha : a ∈ (xs.insertionSort (fun a b => key a ≤ key b)).take k)
    (hb : b ∈ xs) (hdropped : b ∉ (xs.insertionSort (fun a b => key a ≤ key b)).take k) : key a ≤ key b := by
  have hsorted := sorted_insertionSort key xs
  have hmem := (List.mem_insertionSort (fun a b => key a ≤ key b)).mpr hb
  rw [← List.take_append_drop k (xs.insertionSort _)] at hsorted hmem
  rcases List.mem_append.mp hmem with hb | hb
  · exact absurd hb hdropped
  · exact (List.pairwise_append.mp hsorted).2.2 a ha b hb

theorem insertionSort_congr {r r' : α → α → Prop} [DecidableRel r] [DecidableRel r'] (h : ∀ a b, r a b ↔ r' a b)
    (xs : List α) : xs.insertionSort r = xs.insertionSort r' := by
  obtain rfl : r = r' := by
    funext a b
    exact propext (h a b)
  congr

end Cut

section TwoKeys

variable {κ' : Type} [LinearOrder κ'] (key' : α → κ')

theorem orderedInsert_congr {a : α} (h : ∀ y ∈ xs, key a ≤ key y ↔ key' a ≤ key' y) :
    xs.orderedInsert (fun a b => key a ≤ key b) a = xs.orderedInsert (fun a b => key' a ≤ key' b) a := by
  induction xs with
  | nil => rfl
  | cons y ys ih =>
    rw [List.orderedInsert_cons, List.orderedInsert_cons, ih (fun z hz => h z (List.mem_cons_of_mem y hz))]
    simp only [h y (List.mem_cons_self ..)]

theorem key_le_of_sorts_eq (h : xs.insertionSort (fun a b => key a ≤ key b) =
      xs.insertionSort (fun a b => key' a ≤ key' b))
    {a b : α} (hab : [a, b].Sublist xs) (hle : key' a ≤ key' b) : key a ≤ key b := by
  have hsub : [a, b].Sublist (xs.insertionSort (fun a b => key a ≤ key b)) :=
    h ▸ List.pair_sublist_insertionSort (r := fun a b => key' a ≤ key' b) hle hab
  have hpair : [a, b].Pairwise (fun a b => key a ≤ key b) :=
    List.Pairwise.sublist hsub (sorted_insertionSort key xs)
  simpa using hpair

theorem insertionSort_eq_iff : xs.insertionSort (fun a b => key a ≤ key b) =
      xs.insertionSort (fun a b => key' a ≤ key' b) ↔
    ∀ a b, [a, b].Sublist xs → (key b < key a ↔ key' b < key' a) := by
  constructor
  · intro h a b hab
    rw [← not_le, ← not_le]
    exact not_congr ⟨key_le_of_sorts_eq key' key h.symm hab, key_le_of_sorts_eq key key' h hab⟩
  · intro h
    induction xs with
    | nil => rfl
    | cons x xs ih =>
      rw [List.insertionSort_cons, List.insertionSort_cons, ih (fun a b hab => h a b (hab.cons x))]
      apply orderedInsert_congr
      intro y hy
      have hpair : [x, y].Sublist (x :: xs) :=
        (List.singleton_sublist.mpr ((List.mem_insertionSort _).mp hy)).cons_cons x
      rw [← not_lt, ← not_lt, h x y hpair]

/-- And so with what they sort picked by two predicates. -/
theorem filter_insertionSort_eq_iff (p q : α → Bool) :
    (xs.filter p).insertionSort (fun a b => key a ≤ key b) =
        (xs.filter q).insertionSort (fun a b => key' a ≤ key' b) ↔
      (∀ x ∈ xs, p x = q x) ∧
      ∀ a b, [a, b].Sublist (xs.filter q) → (key b < key a ↔ key' b < key' a) := by
  constructor
  · intro h
    have hpq : ∀ x ∈ xs, p x = q x := by
      intro x hx
      have hmem : x ∈ xs.filter p ↔ x ∈ xs.filter q := by
        rw [← List.mem_insertionSort (fun a b => key a ≤ key b), h, List.mem_insertionSort]
      rw [List.mem_filter, List.mem_filter, and_iff_right hx, and_iff_right hx] at hmem
      exact Bool.eq_iff_iff.mpr hmem
    rw [List.filter_congr hpq, insertionSort_eq_iff] at h
    exact ⟨hpq, h⟩
  · rintro ⟨hpq, h⟩
    rw [List.filter_congr hpq, insertionSort_eq_iff]
    exact h

end TwoKeys

section Doubles

open Python

/-- The place of a double among the others. -/
def rank : Float64 → WithBot (WithTop ℚ)
  | .nan | .inf true => ⊥
  | .inf false => (⊤ : WithTop ℚ)
  | .finite q => (q : WithTop ℚ)

variable {x y : Float64}

theorem less_iff (hx : x ≠ .nan) (hy : y ≠ .nan) : x.less y ↔ rank x < rank y := by
  rcases x with _ | (_ | _) | q
  · exact absurd rfl hx
  · rcases y with _ | (_ | _) | r
    · exact absurd rfl hy
    all_goals simp [Float64.less, rank]
  · rcases y with _ | (_ | _) | r
    · exact absurd rfl hy
    all_goals simp [Float64.less, rank]
  · rcases y with _ | (_ | _) | r
    · exact absurd rfl hy
    · exact iff_of_true rfl (WithBot.coe_lt_coe.mpr (WithTop.coe_lt_top q))
    · simp [Float64.less, rank]
    · simp [Float64.less, rank]

theorem same_iff (hx : x ≠ .nan) (hy : y ≠ .nan) : x.same y ↔ rank x = rank y := by
  rcases x with _ | (_ | _) | q
  · exact absurd rfl hx
  · rcases y with _ | (_ | _) | r
    · exact absurd rfl hy
    all_goals simp [Float64.same, rank]
  · rcases y with _ | (_ | _) | r
    · exact absurd rfl hy
    all_goals simp [Float64.same, rank]
  · rcases y with _ | (_ | _) | r
    · exact absurd rfl hy
    all_goals simp [Float64.same, rank]

theorem neg_ne_nan (hx : x ≠ .nan) : x.neg ≠ .nan := by
  cases x with
  | nan => exact absurd rfl hx
  | inf negative => exact nofun
  | finite q => exact nofun

theorem less_neg (x y : Float64) : x.neg.less y.neg = y.less x := by
  rcases x with _ | (_ | _) | q <;> rcases y with _ | (_ | _) | r <;> simp [Float64.neg, Float64.less]

theorem same_neg (x y : Float64) : x.neg.same y.neg = x.same y := by
  rcases x with _ | (_ | _) | q <;> rcases y with _ | (_ | _) | r <;> simp [Float64.neg, Float64.same]

end Doubles

end ContextqlServer.Lib.Ordering
