import Mathlib.Algebra.Order.BigOperators.Group.List
import Mathlib.Algebra.Order.Group.Nat
import Mathlib.Data.List.Basic
import Mathlib.Data.List.Induction
import Mathlib.Data.List.Nodup
import Mathlib.Tactic.Tauto

namespace ContextqlServer.Lib.Log

section Segment

variable {α : Type}

/-- The entries of a log after the first `b` and up to number `m`. -/
def segment (b m : Nat) (xs : List α) : List α := (xs.take m).drop b

theorem mem_segment {b m : Nat} {xs : List α} {e : α} :
    e ∈ segment b m xs ↔ ∃ j, b ≤ j ∧ j < m ∧ xs[j]? = some e := by
  rw [segment, List.mem_iff_getElem?]
  constructor
  · rintro ⟨i, hi⟩
    rw [List.getElem?_drop, List.getElem?_take] at hi
    split at hi
    · exact ⟨b + i, by omega, by assumption, hi⟩
    · cases hi
  · rintro ⟨j, hb, hm, hj⟩
    refine ⟨j - b, ?_⟩
    rw [List.getElem?_drop, Nat.add_sub_cancel' hb, List.getElem?_take, if_pos hm, hj]

/-- A place in a list that ends with `x`: at `x`, or before it. -/
theorem split_snoc {xs front back : List α} {x e : α} (h : xs ++ [x] = front ++ e :: back) :
    front = xs ∧ e = x ∨ ∃ back', xs = front ++ e :: back' := by
  obtain rfl | ⟨back, y, rfl⟩ := List.eq_nil_or_concat' back
  · obtain ⟨rfl, hx⟩ := List.append_inj' h rfl
    exact .inl ⟨rfl, (List.head_eq_of_cons_eq hx).symm⟩
  · rw [← List.cons_append, ← List.append_assoc] at h
    exact .inr ⟨back, (List.append_inj' h rfl).1⟩

theorem segment_eq_nil {b m : Nat} {xs : List α} (h : m ≤ b) : segment b m xs = [] := by
  rw [segment, List.drop_eq_nil_iff, List.length_take]
  omega

theorem take_append_segment {b m : Nat} (xs : List α) (h : b ≤ m) :
    xs.take b ++ segment b m xs = xs.take m := by
  have ht : (xs.take m).take b = xs.take b := by rw [List.take_take, Nat.min_eq_left h]
  rw [segment, ← ht, List.take_append_drop]

theorem segment_append {b v m : Nat} (xs : List α) (hb : b ≤ v) (hv : v ≤ m) :
    segment b v xs ++ segment v m xs = segment b m xs := by
  have h := take_append_segment xs (Nat.le_trans hb hv)
  rw [← take_append_segment xs hv, ← take_append_segment xs hb, List.append_assoc] at h
  exact (List.append_cancel_left h).symm

theorem segment_length {b m : Nat} {xs : List α} (h : m ≤ xs.length) :
    (segment b m xs).length = m - b := by
  rw [segment, List.length_drop, List.length_take, Nat.min_eq_left h]

theorem segment_extend {b m : Nat} {xs ys : List α} (h : xs <+: ys) (hm : m ≤ xs.length) :
    segment b m ys = segment b m xs := by
  obtain ⟨zs, rfl⟩ := h
  rw [segment, segment, List.take_append_of_le_length hm]

theorem segment_ne_nil {b m : Nat} {xs : List α} (h : b < m) (hm : m ≤ xs.length) :
    segment b m xs ≠ [] := by
  rw [← List.length_pos_iff_ne_nil, segment_length hm]
  omega

theorem getLast?_segment {b m : Nat} {xs : List α} (h : b < m) (hm : m ≤ xs.length) :
    (segment b m xs).getLast? = xs[m - 1]? := by
  rw [List.getLast?_eq_getElem?, segment_length hm, segment, List.getElem?_drop,
    List.getElem?_take, if_pos (by omega)]
  congr 1
  omega

end Segment

section Replay

variable {Ev κ V : Type} (write : Ev → κ → Option V)

/-- An entry overwrites the values it writes and leaves the others. -/
def apply (σ : κ → V) (e : Ev) : κ → V := fun k => (write e k).getD (σ k)

def replay (σ : κ → V) (es : List Ev) : κ → V := es.foldl (apply write) σ

/-- The last value that a stretch of the log writes at a key. -/
def net (es : List Ev) (k : κ) : Option V :=
  match es with
  | [] => none
  | e :: es => (net es k).or (write e k)

theorem replay_apply (σ : κ → V) (es : List Ev) (k : κ) :
    replay write σ es k = (net write es k).getD (σ k) := by
  induction es generalizing σ with
  | nil => rfl
  | cons e es ih =>
    have h := ih (apply write σ e)
    rw [show replay write σ (e :: es) = replay write (apply write σ e) es from rfl, h, net]
    cases net write es k <;> rfl

theorem net_append (es fs : List Ev) (k : κ) :
    net write (es ++ fs) k = (net write fs k).or (net write es k) := by
  induction es with
  | nil => simp [net]
  | cons e es ih => simp [net, ih, Option.or_assoc]

theorem replay_append (σ : κ → V) (es fs : List Ev) :
    replay write σ (es ++ fs) = replay write (replay write σ es) fs := List.foldl_append

/-- Replaying a stretch that begins in the past of a state brings it to the
stretch's end, whatever part of the stretch the state already holds. -/
theorem replay_segment (σ : κ → V) (xs : List Ev) {b v m : Nat} (hb : b ≤ v) (hv : v ≤ m) :
    replay write (replay write σ (xs.take v)) (segment b m xs) =
      replay write σ (xs.take m) := by
  funext k
  rw [replay_apply, ← segment_append xs hb hv, net_append, ← take_append_segment xs hv,
    replay_append, replay_apply write (replay write σ (xs.take v))]
  cases hm : net write (segment v m xs) k with
  | some a => rfl
  | none =>
    rw [Option.none_or, Option.getD_none]
    cases hn : net write (segment b v xs) k with
    | none => rfl
    | some a =>
      rw [← take_append_segment xs hb, replay_append, replay_apply, hn]
      rfl

def lastAt (es : List Ev) (k : κ) : Option Ev :=
  match es with
  | [] => none
  | e :: es => (lastAt es k).or (if (write e k).isSome then some e else none)

theorem lastAt_writes {es : List Ev} {k : κ} {e : Ev} (h : lastAt write es k = some e) :
    (write e k).isSome := by
  induction es with
  | nil => cases h
  | cons x xs ih =>
    rw [lastAt] at h
    cases hx : lastAt write xs k with
    | some y =>
      rw [hx, Option.some_or] at h
      exact ih (hx.trans h)
    | none =>
      rw [hx, Option.none_or] at h
      obtain ⟨hw, he⟩ := Option.ite_none_right_eq_some.mp h
      rwa [← Option.some.inj he]

theorem net_eq (es : List Ev) (k : κ) : net write es k = (lastAt write es k).bind (fun e => write e k) := by
  induction es with
  | nil => rfl
  | cons e es ih =>
    rw [net, lastAt, ih]
    cases hl : lastAt write es k with
    | some e' =>
      obtain ⟨v, hv⟩ := Option.isSome_iff_exists.mp (lastAt_writes write hl)
      simp [hv]
    | none => cases hw : write e k <;> simp [hw]

theorem lastAt_filter {p : Ev → Bool} {es : List Ev} {k : κ}
    (h : ∀ e, lastAt write es k = some e → p e) : lastAt write (es.filter p) k = lastAt write es k := by
  induction es with
  | nil => rfl
  | cons e es ih =>
    rw [lastAt] at h ⊢
    cases hl : lastAt write es k with
    | some e' =>
      have ih := ih (fun x hx => h x (by rw [hx, Option.some_or]))
      rw [List.filter_cons, Option.some_or]
      split
      · rw [lastAt, ih, hl, Option.some_or]
      · rw [ih, hl]
    | none =>
      rw [hl, Option.none_or] at h
      have ih := ih (fun x hx => by rw [hl] at hx; cases hx)
      rw [Option.none_or, List.filter_cons]
      split
      · rw [lastAt, ih, hl, Option.none_or]
      · rename_i hp
        rw [ih, hl]
        split
        · rename_i hw
          exact absurd (h e (if_pos hw)) hp
        · rfl

theorem replay_lastAt {σ : κ → V} {es : List Ev} {k : κ} {e : Ev} (h : lastAt write es k = some e) :
    write e k = some (replay write σ es k) := by
  obtain ⟨v, hv⟩ := Option.isSome_iff_exists.mp (lastAt_writes write h)
  rw [replay_apply, net_eq, h, Option.bind_some, hv, Option.getD_some]

/-- A replay without some entries comes to the same state exactly if at every key
whose last entry is left out the rest comes to the value of that entry. -/
theorem replay_filter_iff (σ : κ → V) (es : List Ev) (p : Ev → Bool) :
    replay write σ (es.filter p) = replay write σ es ↔
      ∀ k e, lastAt write es k = some e → p e = false →
        write e k = some (replay write σ (es.filter p) k) := by
  constructor
  · intro h k e he _
    rw [h]
    exact replay_lastAt write he
  · intro h
    funext k
    by_cases hkept : ∀ e, lastAt write es k = some e → p e
    · rw [replay_apply, replay_apply, net_eq, net_eq, lastAt_filter write hkept]
    · push Not at hkept
      obtain ⟨e, he, hp⟩ := hkept
      have hk := h k e he (by simpa using hp)
      rw [replay_lastAt write he] at hk
      exact (Option.some.inj hk).symm

end Replay

section Firsts

variable {α κ : Type} [DecidableEq κ] (ok : α → Bool) (key : α → κ)

def add (kept : List α) (x : α) : List α :=
  if ok x ∧ key x ∉ kept.map key then kept ++ [x] else kept

def firsts (xs : List α) : List α := xs.foldl (add ok key) []

theorem firsts_snoc (xs : List α) (x : α) : firsts ok key (xs ++ [x]) = add ok key (firsts ok key xs) x := by
  rw [firsts, List.foldl_append]
  rfl

theorem firsts_sublist (xs : List α) : List.Sublist (firsts ok key xs) xs := by
  induction xs using List.reverseRecOn with
  | nil => exact .slnil
  | append_singleton xs x ih =>
    rw [firsts_snoc, add]
    split
    · exact ih.append (List.Sublist.refl [x])
    · exact ih.trans (List.sublist_append_left xs [x])

theorem firsts_allowed {xs : List α} : ∀ x ∈ firsts ok key xs, ok x := by
  induction xs using List.reverseRecOn with
  | nil => exact List.forall_mem_nil _
  | append_singleton xs x ih =>
    rw [firsts_snoc, add]
    split
    · rename_i hadd
      rw [List.forall_mem_append, List.forall_mem_singleton]
      exact ⟨ih, hadd.1⟩
    · exact ih

theorem firsts_eq_self_iff (xs : List α) :
    firsts ok key xs = xs ↔ (∀ x ∈ xs, ok x) ∧ (xs.map key).Nodup := by
  induction xs using List.reverseRecOn with
  | nil => simp [firsts]
  | append_singleton xs x ih =>
    have hall : ((∀ y ∈ xs ++ [x], ok y) ∧ ((xs ++ [x]).map key).Nodup) ↔
        ((∀ y ∈ xs, ok y) ∧ (xs.map key).Nodup) ∧ ok x ∧ key x ∉ xs.map key := by
      rw [List.map_append, List.nodup_append_comm, List.forall_mem_append]
      simp only [List.map_singleton, List.singleton_append, List.nodup_cons, List.mem_singleton, forall_eq]
      tauto
    rw [firsts_snoc, hall, ← ih, add]
    constructor
    · intro h
      split at h
      · rename_i hadd
        have heq := List.append_cancel_right h
        rw [heq] at hadd
        exact ⟨heq, hadd⟩
      · have hle := (firsts_sublist ok key xs).length_le
        rw [h, List.length_append, List.length_singleton] at hle
        omega
    · rintro ⟨heq, hadd⟩
      rw [heq, if_pos hadd]

end Firsts

section Parts

variable {α β : Type} {f g : α → List β} {xs : List α}

/-- Parts that may only fall short make up the whole exactly if none does. -/
theorem flatMap_eq_iff (h : ∀ x ∈ xs, (f x).length ≤ (g x).length) :
    xs.flatMap f = xs.flatMap g ↔ ∀ x ∈ xs, f x = g x := by
  induction xs with
  | nil => simp
  | cons x xs ih =>
    have hx := h x (List.mem_cons_self ..)
    have hrest : ∀ y ∈ xs, (f y).length ≤ (g y).length := fun y hy => h y (List.mem_cons_of_mem x hy)
    have hle : (xs.flatMap f).length ≤ (xs.flatMap g).length := by
      rw [List.length_flatMap, List.length_flatMap]
      exact List.sum_le_sum hrest
    rw [List.flatMap_cons, List.flatMap_cons, List.forall_mem_cons, ← ih hrest]
    constructor
    · intro heq
      have hlen := congrArg List.length heq
      rw [List.length_append, List.length_append] at hlen
      exact List.append_inj heq (by omega)
    · rintro ⟨hfirst, hothers⟩
      rw [hfirst, hothers]

end Parts

end ContextqlServer.Lib.Log
