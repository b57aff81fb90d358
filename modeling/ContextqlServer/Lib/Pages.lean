import Mathlib.Data.List.Basic
import Mathlib.Data.Nat.Init
import Mathlib.Order.Nat

namespace ContextqlServer.Lib.Pages

variable {P C α ε : Type}

section Chain

variable (next : P → Option C) (answer : Nat → Option C → P)

/-- The pages that a service answers a client with that follows the cursors. The answer to
a request may depend on the number of requests before it. -/
def page : Nat → P
  | 0 => answer 0 none
  | n + 1 => answer (n + 1) (next (page n))

/-- The cursor of a request. -/
def cursor : Nat → Option C
  | 0 => none
  | n + 1 => next (page next answer n)

theorem page_eq (n : Nat) : page next answer n = answer n (cursor next answer n) := by
  cases n <;> rfl

def Reached (n : Nat) : Prop := ∀ i < n, next (page next answer i) ≠ none

/-- The chain of cursors ends with the nth page. -/
def EndsAt (n : Nat) : Prop := Reached next answer n ∧ next (page next answer n) = none

variable {next answer}

theorem Reached.succ {n : Nat} (h : Reached next answer n) (hn : next (page next answer n) ≠ none) :
    Reached next answer (n + 1) := by
  intro i hi
  rcases Nat.lt_succ_iff_lt_or_eq.mp hi with hi | rfl
  · exact h i hi
  · exact hn

theorem EndsAt.next_ne_none {n i : Nat} (h : EndsAt next answer n) (hi : i < n) : next (page next answer i) ≠ none :=
  h.1 i hi

/-- A chain ends within `n` pages, or it goes on after them. -/
theorem ends_or_reached (next : P → Option C) (answer : Nat → Option C → P) (n : Nat) :
    (∃ j < n, EndsAt next answer j) ∨ Reached next answer n := by
  induction n with
  | zero => exact .inr fun i hi => absurd hi (Nat.not_lt_zero i)
  | succ n ih =>
    obtain ⟨j, hj, hends⟩ | hreached := ih
    · exact .inl ⟨j, Nat.lt_succ_of_lt hj, hends⟩
    · by_cases hn : next (page next answer n) = none
      · exact .inl ⟨n, Nat.lt_succ_self n, hreached, hn⟩
      · exact .inr (hreached.succ hn)

end Chain

section Slices

variable {ask : Option C → Except ε P} {next : P → Option C}

/-- The pages that a service at rest hands out from a cursor on. -/
inductive Follows (ask : Option C → Except ε P) (next : P → Option C) : Option C → List P → Prop
  | last {cursor : Option C} {page : P} (h : ask cursor = .ok page) (hlast : next page = none) :
    Follows ask next cursor [page]
  | more {cursor : Option C} {c : C} {page : P} {pages : List P} (h : ask cursor = .ok page)
    (hmore : next page = some c) (rest : Follows ask next (some c) pages) :
    Follows ask next cursor (page :: pages)

variable {p : Nat} {items : List α} {pageAt : Nat → P} {encode : Nat → C} {itemsOf : P → List α}

/-- The number of pages of `p` items that hold `n` items, one of them empty where there are none. -/
def pageCount (p n : Nat) : Nat := max 1 ((n + p - 1) / p)

theorem pageCount_last {n : Nat} (hn : n ≤ p) : pageCount p n = 1 := by
  rw [pageCount]
  rcases Nat.eq_zero_or_pos p with rfl | hp
  · rw [Nat.div_zero]
    rfl
  · have hlt : n + p - 1 < 2 * p := by omega
    have hdiv : (n + p - 1) / p < 2 := Nat.div_lt_of_lt_mul (by rwa [Nat.mul_comm])
    omega

theorem pageCount_more (hp : 0 < p) {n : Nat} (hn : p < n) : pageCount p n = pageCount p (n - p) + 1 := by
  have hsplit : n + p - 1 = (n - p + p - 1) + p := by omega
  have hpos : 0 < (n - p + p - 1) / p := Nat.div_pos (by omega) hp
  rw [pageCount, pageCount, hsplit, Nat.add_div_right _ hp]
  omega

/-- What a service hands out that answers with slices of `p` items. -/
theorem follows_slices_from (hp : 0 < p) (hask : ∀ o, ask (some (encode o)) = .ok (pageAt o))
    (hitems : ∀ o, itemsOf (pageAt o) = (items.drop o).take p)
    (hnext : ∀ o, next (pageAt o) = if o + p < items.length then some (encode (o + p)) else none)
    {cursor : Option C} {o : Nat} (hcursor : ask cursor = .ok (pageAt o)) :
    ∃ pages, Follows ask next cursor pages ∧ pages.length = pageCount p (items.length - o) ∧
      pages.flatMap itemsOf = items.drop o := by
  induction hm : items.length - o using Nat.strong_induction_on generalizing o cursor with
  | _ m ih =>
    have hpage := hnext o
    by_cases hmore : o + p < items.length
    · rw [if_pos hmore] at hpage
      obtain ⟨pages, hpages, hlength, hflat⟩ := ih (items.length - (o + p)) (by omega) (hask (o + p)) rfl
      refine ⟨pageAt o :: pages, .more hcursor hpage hpages, ?_, ?_⟩
      · have hlong : p < items.length - o := by omega
        rw [List.length_cons, hlength, ← hm, pageCount_more hp hlong, Nat.sub_sub]
      · rw [List.flatMap_cons, hflat, hitems, ← List.drop_drop, List.take_append_drop]
    · rw [if_neg hmore] at hpage
      refine ⟨[pageAt o], .last hcursor hpage, ?_, ?_⟩
      · rw [List.length_singleton, ← hm, pageCount_last (by omega)]
      · rw [List.flatMap_singleton, hitems, List.take_of_length_le]
        rw [List.length_drop]
        omega

theorem follows_slices (hp : 0 < p) (hfirst : ask none = .ok (pageAt 0))
    (hask : ∀ o, ask (some (encode o)) = .ok (pageAt o)) (hitems : ∀ o, itemsOf (pageAt o) = (items.drop o).take p)
    (hnext : ∀ o, next (pageAt o) = if o + p < items.length then some (encode (o + p)) else none) :
    ∃ pages, Follows ask next none pages ∧ pages.length = pageCount p items.length ∧
      pages.flatMap itemsOf = items :=
  follows_slices_from hp hask hitems hnext hfirst

end Slices

end ContextqlServer.Lib.Pages
