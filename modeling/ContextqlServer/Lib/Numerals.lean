import Mathlib.Data.List.Basic
import Mathlib.Tactic.IntervalCases

namespace ContextqlServer.Lib.Numerals

section Value

/-- What a digit of a base up to 16 stands for. -/
def digitOf (c : Char) : Nat := "0123456789abcdef".toList.idxOf c

def valueFrom (b : Nat) (ds : List Char) (n : Nat) : Nat := ds.foldl (fun n c => b * n + digitOf c) n

theorem digitOf_digitChar {n : Nat} (h : n < 16) : digitOf n.digitChar = n := by
  interval_cases n <;> decide

theorem valueFrom_append (b : Nat) (ds es : List Char) (n : Nat) :
    valueFrom b (ds ++ es) n = valueFrom b es (valueFrom b ds n) := List.foldl_append

theorem valueFrom_zeros (b k : Nat) : valueFrom b (List.replicate k '0') 0 = 0 := by
  induction k with
  | zero => rfl
  | succ k ih =>
    have hstep : valueFrom b (List.replicate (k + 1) '0') 0 =
        valueFrom b (List.replicate k '0') (b * 0 + digitOf '0') := rfl
    have hzero : digitOf '0' = 0 := by decide
    rw [hstep, hzero, Nat.mul_zero, ih]

theorem valueFrom_toDigits {b : Nat} (hb : 1 < b) (hb' : b ≤ 16) (n : Nat) :
    valueFrom b (Nat.toDigits b n) 0 = n := by
  induction n using Nat.strong_induction_on with
  | _ n ih =>
    by_cases h : n < b
    · rw [Nat.toDigits_of_lt_base h]
      change b * 0 + digitOf n.digitChar = n
      rw [digitOf_digitChar (h.trans_le hb'), Nat.mul_zero, Nat.zero_add]
    · have hlt : n % b < b := Nat.mod_lt n (by omega)
      rw [Nat.toDigits_of_base_le hb (by omega), valueFrom_append,
        ih (n / b) (Nat.div_lt_self (by omega) hb)]
      change b * (n / b) + digitOf (n % b).digitChar = n
      rw [digitOf_digitChar (hlt.trans_le hb'), Nat.div_add_mod]

/-- Zeros before a numeral do not hide which number it is. -/
theorem padded_injective {b k k' m n : Nat} (hb : 1 < b) (hb' : b ≤ 16)
    (h : List.replicate k '0' ++ Nat.toDigits b m = List.replicate k' '0' ++ Nat.toDigits b n) : m = n := by
  have hvalue := congrArg (fun ds => valueFrom b ds 0) h
  simpa only [valueFrom_append, valueFrom_zeros, valueFrom_toDigits hb hb'] using hvalue

end Value

section Signed

theorem toDigits_injective {m n : Nat} (h : Nat.toDigits 10 m = Nat.toDigits 10 n) : m = n := by
  have hvalue := congrArg (fun ds => Nat.ofDigitChars 10 ds 0) h
  simpa using hvalue

theorem int_toList (n : Int) :
    (toString n).toList = (if n < 0 then ['-'] else []) ++ Nat.toDigits 10 n.natAbs := by
  cases n with
  | ofNat n =>
    change (Nat.repr n).toList = _
    simp
  | negSucc n =>
    change ("-" ++ Nat.repr (n + 1)).toList = _
    simp [Int.negSucc_lt_zero]

theorem minus_notMem (n : Nat) : '-' ∉ Nat.toDigits 10 n := by
  intro h
  exact absurd (Nat.isDigit_of_mem_toDigits (by decide) (by decide) h) (by decide)

theorem colon_notMem (n : Int) : ':' ∉ (toString n).toList := by
  rw [int_toList, List.mem_append]
  rintro (h | h)
  · split at h <;> simp at h
  · exact absurd (Nat.isDigit_of_mem_toDigits (by decide) (by decide) h) (by decide)

theorem toString_injective {m n : Int} (h : toString m = toString n) : m = n := by
  have hl := congrArg String.toList h
  rw [int_toList, int_toList] at hl
  by_cases hm : m < 0 <;> by_cases hn : n < 0 <;> simp only [hm, hn, if_true, if_false, List.nil_append,
    List.singleton_append, List.cons.injEq, true_and] at hl
  · have := toDigits_injective hl
    omega
  · exact absurd (hl ▸ List.mem_cons_self ..) (minus_notMem n.natAbs)
  · exact absurd (hl ▸ List.mem_cons_self ..) (minus_notMem m.natAbs)
  · have := toDigits_injective hl
    omega

end Signed

section Joined

/-- Two texts up to their first separator, and what comes after it. -/
theorem split_cancel {α : Type} {c : α} {xs ys us vs : List α} (hxs : c ∉ xs) (hys : c ∉ ys)
    (h : xs ++ c :: us = ys ++ c :: vs) : xs = ys ∧ us = vs := by
  induction xs generalizing ys with
  | nil =>
    cases ys with
    | nil => exact ⟨rfl, (List.cons.inj h).2⟩
    | cons y ys => exact absurd ((List.cons.inj h).1 ▸ List.mem_cons_self ..) hys
  | cons x xs ih =>
    cases ys with
    | nil => exact absurd ((List.cons.inj h).1 ▸ List.mem_cons_self ..) hxs
    | cons y ys =>
      obtain ⟨rfl, hrest⟩ := List.cons.inj h
      obtain ⟨rfl, rfl⟩ := ih (fun hc => hxs (List.mem_cons_of_mem _ hc))
        (fun hc => hys (List.mem_cons_of_mem _ hc)) hrest
      exact ⟨rfl, rfl⟩

end Joined

end ContextqlServer.Lib.Numerals
