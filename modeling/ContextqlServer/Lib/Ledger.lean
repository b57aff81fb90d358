import ContextqlServer.Lib.Shared
import Mathlib.Data.List.Infix

namespace ContextqlServer.Lib.Ledger

open ContextqlServer.Lib.Effect ContextqlServer.Lib.Rely ContextqlServer.Lib.Sql ContextqlServer.Lib.Shared
open ContextqlServer.Lib.Threads

variable {ε α β ι : Type} {M : Schema ε}

section Moves

/-- The operations of any callers of a connection in any order, and the restarts of their
process, of which only the allowed ones happen. -/
inductive Moves (allowed : Option (SqlOp M) → Prop) (c₀ : Connection M) : Connection M → Prop
  | refl : Moves allowed c₀ c₀
  | operation {c c' : Connection M} {o : SqlOp M} {r : Except ε ((sqlSig M).Res o)} (h : Moves allowed c₀ c)
      (ho : allowed (some o)) (hA : Answers M o c r c') : Moves allowed c₀ c'
  | restart {c : Connection M} (h : Moves allowed c₀ c) (hr : allowed none) : Moves allowed c₀ c.reopen

def Any (_ : Option (SqlOp M)) : Prop := True

/-- Nothing is taken back. -/
def Forward : Option (SqlOp M) → Prop
  | none | some .rollback => False
  | _ => True

variable {allowed : Option (SqlOp M) → Prop} {c c' c'' : Connection M}

theorem Moves.trans (h : Moves allowed c c') (h' : Moves allowed c' c'') : Moves allowed c c'' := by
  induction h' with
  | refl => exact h
  | operation _ ho hA ih => exact .operation ih ho hA
  | restart _ hr ih => exact .restart ih hr

theorem Moves.any (h : Moves allowed c c') : Moves Any c c' := by
  induction h with
  | refl => exact .refl
  | operation _ _ hA ih => exact .operation ih trivial hA
  | restart _ _ ih => exact .restart ih trivial

theorem Moves.of_only {p : SqlProg M α} {out : Except ε α} (hp : p.Only (S := sqlSig M) (fun o => allowed (some o)))
    (h : Runs (Answers M) Eq p c out c') : Moves allowed c c' := by
  induction h with
  | pure a c | throw e c => exact .refl
  | call hR hA _ ih =>
    subst hR
    exact (Moves.operation .refl hp.1 hA).trans (ih (hp.2 _))

theorem Moves.of_runs {p : SqlProg M α} {out : Except ε α} (h : Runs (Answers M) Eq p c out c') : Moves Any c c' := by
  have honly (p : SqlProg M α) : p.Only (S := sqlSig M) (fun o => Any (some o)) := by
    induction p with
    | pure a | throw e => trivial
    | call o k ih => exact ⟨trivial, ih⟩
  exact .of_only (honly p) h

/-- A call that has come to some point. -/
theorem Moves.of_visits {p : SqlProg M α} (h : Visits (Answers M) Eq p c c') : Moves Any c c' := by
  induction h with
  | here p c => exact .refl
  | call hR hA _ ih =>
    subst hR
    exact (Moves.operation .refl trivial hA).trans ih

theorem Moves.invariant {I : M.Tables → Prop} (hI : ∀ s a t t', I t → M.run s a t = .ok t' → I t')
    (h : Moves allowed c c') (hcommitted : I c.committed) (hpending : I c.pending) :
    I c'.committed ∧ I c'.pending := by
  induction h with
  | refl => exact ⟨hcommitted, hpending⟩
  | @operation c c' o r h ho hA ih =>
    have hcases := answer_cases hA
    cases hm : move o r with
    | write s =>
      rw [hm] at hcases
      obtain ⟨hsame, a, hrun⟩ := hcases
      exact ⟨hsame ▸ ih.1, hI s a _ _ ih.2 hrun⟩
    | publish =>
      rw [hm] at hcases
      exact ⟨hcases.1 ▸ ih.2, hcases.2 ▸ ih.2⟩
    | undo =>
      rw [hm] at hcases
      exact ⟨hcases.1 ▸ ih.1, hcases.2 ▸ ih.1⟩
    | idle =>
      rw [hm] at hcases
      exact ⟨hcases.1 ▸ ih.1, hcases.2 ▸ ih.2⟩
  | restart h hr ih => exact ⟨ih.1, ih.1⟩

end Moves

section Growth

variable {ledger : M.Tables → List α} {allowed : Option (SqlOp M) → Prop} {c c' : Connection M}

/-- A part of the tables that statements only append to. -/
def Grows (ledger : M.Tables → List α) : Prop := ∀ s a t t', M.run s a t = .ok t' → ledger t <+: ledger t'

/-- Whoever does what, and whatever fails: what has been committed stays as it is, before
what is committed later. -/
theorem Moves.append_only (hgrows : Grows ledger) (h : Moves allowed c c')
    (hc : ledger c.committed <+: ledger c.pending) :
    ledger c.committed <+: ledger c'.committed ∧ ledger c'.committed <+: ledger c'.pending := by
  induction h with
  | refl => exact ⟨List.prefix_rfl, hc⟩
  | @operation c₁ c' o r h ho hA ih =>
    have hcases := answer_cases hA
    cases hm : move o r with
    | write s =>
      rw [hm] at hcases
      obtain ⟨hsame, a, hrun⟩ := hcases
      rw [hsame]
      exact ⟨ih.1, ih.2.trans (hgrows s a _ _ hrun)⟩
    | publish =>
      rw [hm] at hcases
      rw [hcases.1, hcases.2]
      exact ⟨ih.1.trans ih.2, List.prefix_rfl⟩
    | undo =>
      rw [hm] at hcases
      rw [hcases.1, hcases.2]
      exact ⟨ih.1, List.prefix_rfl⟩
    | idle =>
      rw [hm] at hcases
      rw [hcases.1, hcases.2]
      exact ih
  | restart h hr ih => exact ⟨ih.1, List.prefix_rfl⟩

/-- Where nothing is taken back, what the connection sees grows as well. -/
theorem Moves.seen (hgrows : Grows ledger) (h : Moves Forward c c') :
    ledger c.pending <+: ledger c'.pending := by
  induction h with
  | refl => exact List.prefix_rfl
  | @operation c₁ c' o r h ho hA ih =>
    have hcases := answer_cases hA
    cases hm : move o r with
    | write s =>
      rw [hm] at hcases
      obtain ⟨-, a, hrun⟩ := hcases
      exact ih.trans (hgrows s a _ _ hrun)
    | publish | idle =>
      rw [hm] at hcases
      rw [hcases.2]
      exact ih
    | undo =>
      obtain rfl := rollback_of_undo hm
      exact ho.elim
  | restart h hr ih => exact hr.elim

end Growth

section Windows

variable {xs : List α} {p n : Nat}

theorem flatMap_windows (xs : List α) (p n : Nat) :
    (List.range n).flatMap (fun i => (xs.drop (p * i)).take p) = xs.take (p * n) := by
  induction n with
  | zero => rfl
  | succ n ih => rw [List.range_succ, List.flatMap_append, ih, List.flatMap_singleton, Nat.mul_succ, List.take_add]

/-- A list that grows in front, read window after window until one is not full: whatever
was in it at first is in one of the windows. -/
theorem exists_window {xs : Nat → List α} (hgrows : ∀ i < n, xs i <:+ xs (i + 1))
    (hlast : (xs n).length < p * (n + 1)) {x : α} (hx : x ∈ xs 0) :
    ∃ i ≤ n, x ∈ ((xs i).drop (p * i)).take p := by
  -- As long as `x` has not been read, it stands after the windows that have been.
  have hsteps : ∀ i ≤ n, (∃ j ≤ i, x ∈ ((xs j).drop (p * j)).take p) ∨
      ∃ k, p * (i + 1) ≤ k ∧ (xs i)[k]? = some x := by
    have hwindow : ∀ (i k : Nat), p * i ≤ k → (xs i)[k]? = some x →
        (∃ j ≤ i, x ∈ ((xs j).drop (p * j)).take p) ∨ ∃ k, p * (i + 1) ≤ k ∧ (xs i)[k]? = some x := by
      intro i k hk hget
      by_cases hlater : p * (i + 1) ≤ k
      · exact .inr ⟨k, hlater, hget⟩
      · refine .inl ⟨i, le_rfl, List.mem_iff_getElem?.mpr ⟨k - p * i, ?_⟩⟩
        rw [Nat.mul_succ] at hlater
        rw [List.getElem?_take_of_lt (by omega), List.getElem?_drop, Nat.add_sub_cancel' hk, hget]
    intro i
    induction i with
    | zero =>
      intro _
      obtain ⟨k, hget⟩ := List.mem_iff_getElem?.mp hx
      exact hwindow 0 k (Nat.zero_le _) hget
    | succ i ih =>
      intro hi
      obtain ⟨j, hj, hmem⟩ | ⟨k, hk, hget⟩ := ih (by omega)
      · exact .inl ⟨j, by omega, hmem⟩
      · obtain ⟨new, hnew⟩ := hgrows i (by omega)
        apply hwindow (i + 1) (new.length + k) (by omega)
        rw [← hnew, List.getElem?_append_right (by omega), Nat.add_sub_cancel_left, hget]
  obtain hread | ⟨k, hk, hget⟩ := hsteps n le_rfl
  · exact hread
  · have := (List.getElem?_eq_some_iff.mp hget).1
    omega

theorem exists_window_at_rest (hp : 0 < p) {x : α} (hx : x ∈ xs) : ∃ i, x ∈ (xs.drop (p * i)).take p := by
  have hlast : xs.length < p * (xs.length + 1) := Nat.lt_of_lt_of_le (Nat.lt_succ_self _) (Nat.le_mul_of_pos_left _ hp)
  have hgrows : ∀ i < xs.length, (fun _ : Nat => xs) i <:+ (fun _ : Nat => xs) (i + 1) := fun _ _ => List.suffix_rfl
  obtain ⟨i, -, hi⟩ := exists_window hgrows hlast hx
  exact ⟨i, hi⟩

end Windows

end ContextqlServer.Lib.Ledger
