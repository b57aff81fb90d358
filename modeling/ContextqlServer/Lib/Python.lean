import Mathlib.Data.List.DropRight
import Mathlib.Data.Rat.Defs

namespace ContextqlServer.Lib.Python

/-- A double. The zeros `0.0` and `-0.0`, which compare equal, are one value. -/
inductive Float64 where
  | nan
  | inf (negative : Bool)
  | finite (q : ℚ)
  deriving DecidableEq

namespace Float64

instance : Zero Float64 := ⟨.finite 0⟩

instance : One Float64 := ⟨.finite 1⟩

/-- `x or 1.0`: zero is the one falsy double. -/
def orOne (x : Float64) : Float64 := if x = 0 then 1 else x

def neg : Float64 → Float64
  | .nan => .nan
  | .inf negative => .inf !negative
  | .finite q => .finite (-q)

/-- `x == y`. -/
def same (x y : Float64) : Bool := x = y && x ≠ .nan

/-- `x < y`. -/
def less : Float64 → Float64 → Bool
  | .nan, _ | _, .nan => false
  | .inf true, y => y ≠ .inf true
  | .inf false, _ => false
  | .finite _, .inf negative => !negative
  | .finite q, .finite r => q < r

theorem orOne_of_ne_zero {x : Float64} (h : x ≠ 0) : x.orOne = x := if_neg h

theorem orOne_eq_self_iff {x : Float64} : x.orOne = x ↔ x ≠ 0 := by
  refine ⟨?_, orOne_of_ne_zero⟩
  rintro h rfl
  exact absurd h (by decide)

end Float64

/-- Characters that `int` skips on both sides of a literal. -/
def isSpace (c : Char) : Bool :=
  c.toNat ∈ [0x20, 0x85, 0xa0, 0x1680, 0x2028, 0x2029, 0x202f, 0x205f, 0x3000] ||
    (0x9 ≤ c.toNat && c.toNat ≤ 0xd) ||
    (0x2000 ≤ c.toNat && c.toNat ≤ 0x200a)

/-- Code points of the zero digit of every decimal script beside ASCII. -/
def digitZeros : List Nat :=
  [0x660, 0x6f0, 0x7c0, 0x966, 0x9e6, 0xa66, 0xae6, 0xb66, 0xbe6, 0xc66, 0xce6, 0xd66,
    0xde6, 0xe50, 0xed0, 0xf20, 0x1040, 0x1090, 0x17e0, 0x1810, 0x1946, 0x19d0, 0x1a80, 0x1a90,
    0x1b50, 0x1bb0, 0x1c40, 0x1c50, 0xa620, 0xa8d0, 0xa900, 0xa9d0, 0xa9f0, 0xaa50, 0xabf0,
    0xff10, 0x104a0, 0x10d30, 0x11066, 0x110f0, 0x11136, 0x111d0, 0x112f0, 0x11450, 0x114d0,
    0x11650, 0x116c0, 0x11730, 0x118e0, 0x11950, 0x11c50, 0x11d50, 0x11da0, 0x11f50, 0x16a60,
    0x16ac0, 0x16b50, 0x1d7ce, 0x1d7d8, 0x1d7e2, 0x1d7ec, 0x1d7f6, 0x1e140, 0x1e2f0, 0x1e4d0,
    0x1e950, 0x1fbf0]

def digitValue (c : Char) : Option Nat :=
  ((0x30 :: digitZeros).find? (fun z => z ≤ c.toNat && c.toNat < z + 10)).map (c.toNat - ·)

/-- The rest of an integer literal after its first digit: an underscore may
stand between two digits. -/
def digitsFrom : List Char → Nat → Option Nat
  | [], n => some n
  | '_' :: c :: cs, n => (digitValue c).bind (fun d => digitsFrom cs (10 * n + d))
  | c :: cs, n => (digitValue c).bind (fun d => digitsFrom cs (10 * n + d))

def unsigned : List Char → Option Nat
  | [] => none
  | c :: cs => (digitValue c).bind (digitsFrom cs)

def strip (cs : List Char) : List Char := (cs.dropWhile isSpace).rdropWhile isSpace

/-- `int(text)`, with `none` for the `ValueError`. -/
def int (s : String) : Option Int :=
  match strip s.toList with
  | '-' :: cs => (unsigned cs).map (fun n => -n)
  | '+' :: cs => (unsigned cs).map (fun n => n)
  | cs => (unsigned cs).map (fun n => n)

def digitValue16 (c : Char) : Option Nat :=
  if 'a' ≤ c && c ≤ 'f' then some (c.toNat - 'a'.toNat + 10)
  else if 'A' ≤ c && c ≤ 'F' then some (c.toNat - 'A'.toNat + 10)
  else digitValue c

def digitsFrom16 : List Char → Nat → Option Nat
  | [], n => some n
  | '_' :: c :: cs, n => (digitValue16 c).bind (fun d => digitsFrom16 cs (16 * n + d))
  | c :: cs, n => (digitValue16 c).bind (fun d => digitsFrom16 cs (16 * n + d))

def unsigned16 : List Char → Option Nat
  | [] => none
  | c :: cs => (digitValue16 c).bind (digitsFrom16 cs)

/-- A hexadecimal literal without its sign: `0x` may stand in front, and an
underscore after it. -/
def hexLiteral : List Char → Option Nat
  | c :: x :: cs =>
    if digitValue c = some 0 && (x = 'x' || x = 'X') then
      match cs with
      | '_' :: cs => unsigned16 cs
      | cs => unsigned16 cs
    else unsigned16 (c :: x :: cs)
  | cs => unsigned16 cs

/-- `int(text, 16)`, with `none` for the `ValueError`. -/
def int16 (s : String) : Option Int :=
  match strip s.toList with
  | '-' :: cs => (hexLiteral cs).map (fun n => -n)
  | '+' :: cs => (hexLiteral cs).map (fun n => n)
  | cs => (hexLiteral cs).map (fun n => n)

/-- `repr(text)` of printable text. -/
def quoted (s : String) : String :=
  let quote := if s.toList.contains '\'' && !s.toList.contains '"' then '"' else '\''
  let escape (c : Char) : List Char :=
    if c = quote || c = '\\' then ['\\', c]
    else if c = '\n' then ['\\', 'n']
    else if c = '\r' then ['\\', 'r']
    else if c = '\t' then ['\\', 't']
    else [c]
  .ofList (quote :: s.toList.flatMap escape ++ [quote])

/-- `f"{n:0{width}d}"`. -/
def zpad (width n : Nat) : String :=
  .ofList (List.replicate (width - (Nat.toDigits 10 n).length) '0' ++ Nat.toDigits 10 n)

/-- `xs[i:j]`, where a negative bound counts from the end. -/
def slice {α : Type} (xs : List α) (i j : Int) : List α :=
  let bound (k : Int) : Nat := if k < 0 then (xs.length + k).toNat else min k.toNat xs.length
  (xs.drop (bound i)).take (bound j - bound i)

theorem isDigit_bounds {c : Char} (h : c.isDigit) : 48 ≤ c.toNat ∧ c.toNat ≤ 57 := by
  simpa [Char.isDigit, UInt32.le_iff_toNat_le] using h

theorem digitValue_ascii {c : Char} (h : c.isDigit) : digitValue c = some (c.toNat - 48) := by
  obtain ⟨h₁, h₂⟩ := isDigit_bounds h
  have hz : (decide (48 ≤ c.toNat) && decide (c.toNat < 48 + 10)) = true := by
    simp only [Bool.and_eq_true, decide_eq_true_eq]
    omega
  rw [digitValue, List.find?_cons, hz]
  rfl

theorem isSpace_digit {c : Char} (h : c.isDigit) : isSpace c = false := by
  obtain ⟨h₁, h₂⟩ := isDigit_bounds h
  simp only [isSpace, List.mem_cons, List.not_mem_nil, or_false, Bool.or_eq_false_iff,
    Bool.and_eq_false_iff, decide_eq_false_iff_not]
  omega

theorem digitsFrom_ascii (cs : List Char) (hcs : ∀ c ∈ cs, c.isDigit) (n : Nat) :
    digitsFrom cs n = some (Nat.ofDigitChars 10 cs n) := by
  induction cs generalizing n with
  | nil => simp [digitsFrom]
  | cons c cs ih =>
    have hc : c.isDigit := hcs c (by simp)
    have hne : c ≠ '_' := by rintro rfl; exact absurd hc (by decide)
    have hd := ih (fun d hd => hcs d (by simp [hd])) (10 * n + (c.toNat - 48))
    cases cs with
    | nil => simp [digitsFrom, digitValue_ascii hc, Nat.ofDigitChars_cons]
    | cons d ds => simp [digitsFrom, hne, digitValue_ascii hc, Nat.ofDigitChars_cons, hd]

theorem unsigned_ascii (cs : List Char) (hne : cs ≠ []) (hcs : ∀ c ∈ cs, c.isDigit) :
    unsigned cs = some (Nat.ofDigitChars 10 cs 0) := by
  cases cs with
  | nil => exact absurd rfl hne
  | cons c cs =>
    rw [unsigned, digitValue_ascii (hcs c (by simp)), Option.bind_some,
      digitsFrom_ascii cs (fun d hd => hcs d (by simp [hd])), Nat.ofDigitChars_cons,
      Nat.mul_zero, Nat.zero_add]
    rfl

theorem strip_digits (cs : List Char) (hcs : ∀ c ∈ cs, c.isDigit) : strip cs = cs := by
  have hf : cs.dropWhile isSpace = cs := by
    cases cs with
    | nil => rfl
    | cons c cs => simp [isSpace_digit (hcs c (by simp))]
  rw [strip, hf, List.rdropWhile_eq_self_iff]
  intro h
  simp [isSpace_digit (hcs _ (List.getLast_mem h))]

theorem int_ascii (cs : List Char) (hne : cs ≠ []) (hcs : ∀ c ∈ cs, c.isDigit) :
    int (.ofList cs) = some (Nat.ofDigitChars 10 cs 0 : Nat) := by
  rw [int, String.toList_ofList, strip_digits cs hcs]
  cases cs with
  | nil => exact absurd rfl hne
  | cons c cs =>
    have hc : c.isDigit := hcs c (by simp)
    have hm : c ≠ '-' := by rintro rfl; exact absurd hc (by decide)
    have hp : c ≠ '+' := by rintro rfl; exact absurd hc (by decide)
    simp [hm, hp, unsigned_ascii (c :: cs) hne hcs]

theorem zpad_digits (width n : Nat) :
    ∀ c ∈ List.replicate (width - (Nat.toDigits 10 n).length) '0' ++ Nat.toDigits 10 n,
      c.isDigit := by
  intro c hc
  rcases List.mem_append.mp hc with h | h
  · rw [List.eq_of_mem_replicate h]
    decide
  · exact Nat.isDigit_of_mem_toDigits (by omega) (by omega) h

@[simp] theorem int_zpad (width n : Nat) : int (zpad width n) = some (n : Int) := by
  rw [zpad, int_ascii _ (by simp [Nat.toDigits_ne_nil]) (zpad_digits width n)]
  simp [Nat.ofDigitChars_append]

theorem int_repr (n : Nat) : int n.repr = some (n : Int) := by
  have h := int_ascii (Nat.toDigits 10 n) Nat.toDigits_ne_nil
    (fun c hc => Nat.isDigit_of_mem_toDigits (by omega) (by omega) hc)
  rwa [Nat.ofDigitChars_ten_toDigits, ← Nat.repr_eq_ofList_toDigits] at h

/-- `int(str(n))` of a nonnegative integer. -/
theorem int_toString (n : Nat) : int (toString (n : Int)) = some (n : Int) := int_repr n

theorem zpad_injective (width : Nat) : Function.Injective (zpad width) := by
  intro m n h
  have h' : some (m : Int) = some (n : Int) := by rw [← int_zpad width m, h, int_zpad]
  exact_mod_cast Option.some.inj h'

theorem slice_natCast {α : Type} (xs : List α) (o p : Nat) :
    slice xs o (o + p) = (xs.drop o).take p := by
  have ho : ¬ ((o : Int) < 0) := by omega
  have hp : ¬ (((o + p : Nat) : Int) < 0) := by omega
  rw [← Int.natCast_add]
  simp only [slice, ho, hp, if_false, Int.toNat_natCast]
  rcases Nat.le_total o xs.length with h | h
  · rw [Nat.min_eq_left h, List.take_eq_take_iff, List.length_drop]
    omega
  · rw [Nat.min_eq_right h, List.drop_eq_nil_of_le (by omega), List.drop_eq_nil_of_le h,
      List.take_nil, List.take_nil]

end ContextqlServer.Lib.Python
