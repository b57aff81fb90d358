import Mathlib.Order.Nat
import ContextqlServer.Lib.Log

namespace ContextqlServer.Lib.Feed

open ContextqlServer.Lib.Log

variable {α : Type}

/-- How a feed lays out its pending entries: newest first or not, each twice or once. -/
structure Layout where
  reversed : Bool
  doubled : Bool

namespace Layout

variable (d : Layout)

def copies : Nat := if d.doubled then 2 else 1

def arrange (xs : List α) : List α :=
  let ordered := if d.reversed then xs.reverse else xs
  if d.doubled then ordered.flatMap (fun x => [x, x]) else ordered

theorem copies_pos : 0 < d.copies := by
  rw [copies]
  split <;> omega

theorem length_arrange (xs : List α) : (d.arrange xs).length = d.copies * xs.length := by
  cases hr : d.reversed <;> cases hd : d.doubled <;>
    simp [arrange, copies, hr, hd, List.length_flatMap, Nat.mul_comm]

theorem mem_arrange {xs : List α} {x : α} : x ∈ d.arrange xs ↔ x ∈ xs := by
  cases hr : d.reversed <;> cases hd : d.doubled <;> simp [arrange, hr, hd]

theorem doubled_getElem? (xs : List α) (s : Nat) :
    (xs.flatMap (fun x => [x, x]))[s]? = xs[s / 2]? := by
  induction xs generalizing s with
  | nil => simp
  | cons x xs ih =>
    match s with
    | 0 => rfl
    | 1 => rfl
    | s + 2 =>
      have hs : (s + 2) / 2 = s / 2 + 1 := by omega
      rw [hs, List.getElem?_cons_succ, ← ih s]
      rfl

/-- The position in the log that a slot of the layout shows. -/
def position (n s : Nat) : Nat := if d.reversed then n - 1 - s / d.copies else s / d.copies

theorem position_lt {n s : Nat} (hs : s < d.copies * n) : d.position n s < n := by
  have hdiv : s / d.copies < n := Nat.div_lt_of_lt_mul hs
  rw [position]
  generalize s / d.copies = q at hdiv ⊢
  split <;> omega

theorem arrange_getElem? (xs : List α) {s : Nat} (hs : s < d.copies * xs.length) :
    (d.arrange xs)[s]? = xs[d.position xs.length s]? := by
  have hd : s / d.copies < xs.length := by
    rw [Nat.div_lt_iff_lt_mul d.copies_pos, Nat.mul_comm]
    exact hs
  cases hr : d.reversed <;> cases hc : d.doubled <;>
    simp only [copies, hc, Bool.false_eq_true, if_false, if_true, Nat.div_one] at hd <;>
    simp [arrange, position, copies, hr, hc, doubled_getElem?, List.getElem?_reverse hd]

/-- An entry is delivered again with every slot that shows its position. -/
theorem mem_page {xs : List α} {o p : Nat} {e : α} :
    e ∈ ((d.arrange xs).drop o).take p ↔
      ∃ s, o ≤ s ∧ s < o + p ∧ s < d.copies * xs.length ∧ xs[d.position xs.length s]? = some e := by
  rw [List.mem_iff_getElem?]
  constructor
  · rintro ⟨i, hi⟩
    rw [List.getElem?_take] at hi
    split at hi
    · rw [List.getElem?_drop] at hi
      have hlt : o + i < d.copies * xs.length := by
        rw [← d.length_arrange xs]
        exact (List.getElem?_eq_some_iff.mp hi).1
      rw [d.arrange_getElem? xs hlt] at hi
      exact ⟨o + i, by omega, by omega, hlt, hi⟩
    · cases hi
  · rintro ⟨s, ho, hp, hlt, hs⟩
    refine ⟨s - o, ?_⟩
    rw [List.getElem?_take, if_pos (by omega), List.getElem?_drop, Nat.add_sub_cancel' ho,
      d.arrange_getElem? xs hlt, hs]

end Layout

variable (d : Layout)

/-- The pages read up to slot `o` of a feed that starts after entry `base`: what
has been got lies in the first `m` entries, and of these every entry that the
layout now puts before slot `o` has been got. -/
structure Covered (base : Nat) (xs : List α) (o m : Nat) (got : List α) : Prop where
  base_le : base ≤ xs.length
  le : m ≤ xs.length
  straight : d.reversed = false → m = xs.length
  sound : ∀ e ∈ got, e ∈ segment base m xs
  cover : ∀ j e, base ≤ j → j < m → xs[j]? = some e →
    d.copies * (if d.reversed then xs.length - 1 - j else j - base) < o → e ∈ got

namespace Covered

variable {d} {base o m p : Nat} {xs ys got : List α}

theorem start (h : base ≤ xs.length) : Covered d base xs 0 xs.length [] where
  base_le := h
  le := le_rfl
  straight _ := rfl
  sound _ h := absurd h List.not_mem_nil
  cover _ _ _ _ _ h := absurd h (Nat.not_lt_zero _)

/-- New entries only push the old ones towards later slots. -/
theorem grow (h : Covered d base xs o m got) (hxs : xs <+: ys)
    (ho : o = 0 ∨ o < d.copies * (xs.length - base)) :
    ∃ m', m ≤ m' ∧ Covered d base ys o m' got := by
  have hlen := hxs.length_le
  have hbase := h.base_le.trans hlen
  have hget : ∀ j, j < xs.length → ys[j]? = xs[j]? := by
    intro j hj
    obtain ⟨zs, rfl⟩ := hxs
    rw [List.getElem?_append_left hj]
  have hsound : ∀ m', m ≤ m' → ∀ e ∈ got, e ∈ segment base m' ys := by
    intro m' hm e he
    obtain ⟨j, hb, hj, hx⟩ := mem_segment.mp (h.sound e he)
    exact mem_segment.mpr ⟨j, hb, hj.trans_le hm, by rw [hget j (hj.trans_le h.le), hx]⟩
  cases hr : d.reversed with
  | false =>
    have hm := h.straight hr
    refine ⟨ys.length, by omega, hbase, le_rfl, fun _ => rfl, hsound _ (by omega), ?_⟩
    intro j e hb hj hy hslot
    by_cases hjx : j < xs.length
    · exact h.cover j e hb (by omega) (by rw [← hget j hjx, hy]) (by rwa [hr] at hslot ⊢)
    · have hle : d.copies * (xs.length - base) ≤ d.copies * (j - base) :=
        Nat.mul_le_mul_left _ (by omega)
      simp only [hr, Bool.false_eq_true, if_false] at hslot
      omega
  | true =>
    refine ⟨m, le_rfl, hbase, h.le.trans hlen, fun hf => absurd hf (by simp [hr]),
      hsound m le_rfl, ?_⟩
    intro j e hb hj hy hslot
    have hjx : j < xs.length := hj.trans_le h.le
    refine h.cover j e hb hj (by rw [← hget j hjx, hy]) ?_
    rw [hr, if_pos rfl] at hslot ⊢
    exact (Nat.mul_le_mul_left _ (by omega)).trans_lt hslot

theorem mem_page_of_slot {j e} (hb : base ≤ j) (hj : j < xs.length) (hx : xs[j]? = some e)
    {t : Nat} (ht : t = if d.reversed then xs.length - 1 - j else j - base) (hp : 0 < p)
    (ho : o < d.copies * (t + 1)) (hop : d.copies * t < o + p) :
    e ∈ ((d.arrange (xs.drop base)).drop o).take p := by
  have hc := d.copies_pos
  have htn : t + 1 ≤ xs.length - base := by
    rw [ht]
    split <;> omega
  have hmul := Nat.mul_le_mul_left d.copies htn
  have hlt : max (d.copies * t) o < d.copies * (t + 1) := by
    rw [Nat.mul_succ] at ho ⊢
    omega
  have hdiv : max (d.copies * t) o / d.copies = t :=
    Nat.div_eq_of_lt_le (by rw [Nat.mul_comm t]; exact le_max_left _ _)
      (by rw [Nat.mul_comm (t + 1)]; exact hlt)
  refine d.mem_page.mpr ⟨max (d.copies * t) o, le_max_right _ _, by omega, ?_, ?_⟩
  · rw [List.length_drop]
    omega
  · rw [List.getElem?_drop, ← hx, Layout.position, hdiv, List.length_drop, ht]
    congr 1
    split <;> omega

theorem page (h : Covered d base xs o m got) (hp : 0 < p) :
    ∃ m', m ≤ m' ∧ xs.length - o / d.copies ≤ m' ∧
      Covered d base xs (o + p) m' (got ++ ((d.arrange (xs.drop base)).drop o).take p) := by
  have hc := d.copies_pos
  have hm := h.le
  obtain ⟨q, hq⟩ : ∃ q, q = o / d.copies := ⟨_, rfl⟩
  rw [← hq]
  refine ⟨max m (xs.length - q), le_max_left _ _, le_max_right _ _, h.base_le,
    by omega, fun hr => by have := h.straight hr; omega, ?_, ?_⟩
  · intro e he
    rcases List.mem_append.mp he with hg | hg
    · obtain ⟨j, hb, hj, hx⟩ := mem_segment.mp (h.sound e hg)
      exact mem_segment.mpr ⟨j, hb, by omega, hx⟩
    · obtain ⟨s, hs, -, hlt, hx⟩ := d.mem_page.mp hg
      rw [List.getElem?_drop] at hx
      have hdiv : q ≤ s / d.copies := hq ▸ Nat.div_le_div_right hs
      have hsn : s / d.copies < xs.length - base := by
        rw [Nat.div_lt_iff_lt_mul hc, Nat.mul_comm, ← List.length_drop]
        exact hlt
      refine mem_segment.mpr ⟨_, Nat.le_add_right _ _, ?_, hx⟩
      rw [Layout.position, List.length_drop]
      generalize s / d.copies = r at hdiv hsn
      cases hr : d.reversed with
      | false =>
        have := h.straight hr
        simp only [Bool.false_eq_true, if_false]
        omega
      | true =>
        simp only [if_true]
        omega
  · intro j e hb hj hx hslot
    have hjx : j < xs.length := by omega
    refine List.mem_append.mpr ?_
    by_cases hpage : o < d.copies * ((if d.reversed then xs.length - 1 - j else j - base) + 1)
    · exact .inr (mem_page_of_slot hb hjx hx rfl hp hpage hslot)
    · refine .inl (h.cover j e hb ?_ hx ?_)
      · cases hr : d.reversed with
        | false => exact (h.straight hr).symm ▸ hjx
        | true =>
          rw [hr, if_pos rfl, Nat.not_lt, Nat.mul_comm, ← Nat.le_div_iff_mul_le hc, ← hq] at hpage
          omega
      · rw [Nat.mul_succ] at hpage
        omega

/-- Once the layout has no slot after `o`, the feed has been read whole. -/
theorem done (h : Covered d base xs o m got) (ho : d.copies * (xs.length - base) ≤ o) (e : α) :
    e ∈ got ↔ e ∈ segment base m xs := by
  refine ⟨h.sound e, fun he => ?_⟩
  obtain ⟨j, hb, hj, hx⟩ := mem_segment.mp he
  have hm := h.le
  refine h.cover j e hb hj hx (lt_of_lt_of_le ?_ ho)
  refine (Nat.mul_lt_mul_left d.copies_pos).mpr ?_
  split <;> omega

end Covered

end ContextqlServer.Lib.Feed
