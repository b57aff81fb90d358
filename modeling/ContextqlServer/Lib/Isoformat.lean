import Mathlib.Data.List.Basic
import Mathlib.Data.Nat.Digits.Defs
import Mathlib.Algebra.Order.Group.Unbundled.Int

namespace ContextqlServer.Lib.Isoformat

section Digits

/-- `n` in decimal, cut or filled with zeros to `width` digits. -/
def padded : Nat → Nat → List Char
  | 0, _ => []
  | width + 1, n => padded width (n / 10) ++ [(n % 10).digitChar]

/-- A number of exactly `width` ASCII digits, and what follows it. -/
def digits (width : Nat) (cs : List Char) : Option (Nat × List Char) :=
  if (cs.take width).length = width && (cs.take width).all Char.isDigit then
    some (Nat.ofDigitChars 10 (cs.take width) 0, cs.drop width)
  else none

theorem digitChar_isDigit (n : Nat) : (n % 10).digitChar.isDigit := by
  have h : n % 10 < 10 := Nat.mod_lt n (by decide)
  generalize n % 10 = d at h
  decide +revert

@[simp] theorem padded_length (width n : Nat) : (padded width n).length = width := by
  induction width generalizing n with
  | zero => rfl
  | succ width ih => simp [padded, ih]

theorem padded_isDigit {width n : Nat} {c : Char} (h : c ∈ padded width n) : c.isDigit := by
  induction width generalizing n with
  | zero => simp [padded] at h
  | succ width ih =>
    rw [padded, List.mem_append, List.mem_singleton] at h
    obtain h | rfl := h
    · exact ih h
    · exact digitChar_isDigit n

theorem ofDigitChars_padded (width n : Nat) :
    Nat.ofDigitChars 10 (padded width n) 0 = n % 10 ^ width := by
  induction width generalizing n with
  | zero => simp [padded, Nat.mod_one]
  | succ width ih =>
    rw [padded, Nat.ofDigitChars_append, ih,
      Nat.ofDigitChars_cons_digitChar_of_lt_ten (Nat.mod_lt n (by decide)), Nat.ofDigitChars_nil,
      Nat.pow_succ, Nat.mul_comm (10 ^ width), Nat.mod_mul, Nat.add_comm]

@[simp] theorem digits_padded {width n : Nat} (h : n < 10 ^ width) (rest : List Char) :
    digits width (padded width n ++ rest) = some (n, rest) := by
  have htake : (padded width n ++ rest).take width = padded width n := by simp
  have hdrop : (padded width n ++ rest).drop width = rest := by simp
  have hall : (padded width n).all Char.isDigit := by
    rw [List.all_eq_true]
    exact fun c hc => padded_isDigit hc
  rw [digits, htake, hdrop, ofDigitChars_padded, Nat.mod_eq_of_lt h, hall, padded_length]
  simp

end Digits

/-- One given character, and what follows it. -/
def expect (c : Char) : List Char → Option (List Char)
  | d :: cs => if d = c then some cs else none
  | [] => none

@[simp] theorem expect_cons (c : Char) (cs : List Char) : expect c (c :: cs) = some cs := if_pos rfl

def isLeap (year : Nat) : Bool := year % 4 = 0 && (year % 100 ≠ 0 || year % 400 = 0)

def daysInMonth (year month : Nat) : Nat :=
  if month = 2 then (if isLeap year then 29 else 28)
  else if month ∈ [4, 6, 9, 11] then 30
  else 31

/-- The fields of a date and time, `utcoffset` in microseconds or absent where
the datetime is naive. -/
structure Fields where
  year : Nat
  month : Nat
  day : Nat
  hour : Nat
  minute : Nat
  second : Nat
  microsecond : Nat
  utcoffset : Option Int
  deriving DecidableEq

def dayMicroseconds : Nat := 24 * 60 * 60 * 1000000

structure Fields.Valid (f : Fields) : Prop where
  year : 1 ≤ f.year ∧ f.year ≤ 9999
  month : 1 ≤ f.month ∧ f.month ≤ 12
  day : 1 ≤ f.day ∧ f.day ≤ daysInMonth f.year f.month
  hour : f.hour < 24
  minute : f.minute < 60
  second : f.second < 60
  microsecond : f.microsecond < 1000000
  utcoffset : ∀ o, f.utcoffset = some o → o.natAbs < dayMicroseconds

instance (f : Fields) : Decidable f.Valid :=
  have : Decidable (∀ o, f.utcoffset = some o → o.natAbs < dayMicroseconds) :=
    match f.utcoffset with
    | none => isTrue nofun
    | some o => decidable_of_iff (o.natAbs < dayMicroseconds)
        ⟨fun h _ ho => Option.some.inj ho ▸ h, fun h => h o rfl⟩
  decidable_of_iff
    ((1 ≤ f.year ∧ f.year ≤ 9999) ∧ (1 ≤ f.month ∧ f.month ≤ 12) ∧
      (1 ≤ f.day ∧ f.day ≤ daysInMonth f.year f.month) ∧ f.hour < 24 ∧ f.minute < 60 ∧
      f.second < 60 ∧ f.microsecond < 1000000 ∧
      (∀ o, f.utcoffset = some o → o.natAbs < dayMicroseconds))
    ⟨fun ⟨h₁, h₂, h₃, h₄, h₅, h₆, h₇, h₈⟩ => ⟨h₁, h₂, h₃, h₄, h₅, h₆, h₇, h₈⟩,
      fun h => ⟨h.1, h.2, h.3, h.4, h.5, h.6, h.7, h.8⟩⟩

/-- A `datetime`, whose fields are in range. -/
structure Datetime where
  fields : Fields
  valid : fields.Valid
  deriving DecidableEq

/-- What `isoformat` writes after the minutes of a time or of an offset, which
leaves out what is zero at the end. -/
def fraction (microsecond : Nat) : List Char :=
  if microsecond = 0 then [] else '.' :: padded 6 microsecond

def magnitudeText (n : Nat) : List Char :=
  padded 2 (n / 3600000000) ++ ':' :: padded 2 (n / 60000000 % 60) ++
    if n % 60000000 = 0 then []
    else ':' :: padded 2 (n / 1000000 % 60) ++ fraction (n % 1000000)

def offsetText : Option Int → List Char
  | none => []
  | some o => (if o < 0 then '-' else '+') :: magnitudeText o.natAbs

namespace Datetime

variable (d : Datetime)

def isoformat : String := .ofList <|
  padded 4 d.fields.year ++ '-' :: padded 2 d.fields.month ++ '-' :: padded 2 d.fields.day ++
    'T' :: padded 2 d.fields.hour ++ ':' :: padded 2 d.fields.minute ++
    ':' :: padded 2 d.fields.second ++ fraction d.fields.microsecond ++ offsetText d.fields.utcoffset

/-- `d.strftime("%Y-%m-%d %H:%M:%S")`, and what SQLite writes for `datetime('now')`. -/
def strftime : String := .ofList <|
  padded 4 d.fields.year ++ '-' :: padded 2 d.fields.month ++ '-' :: padded 2 d.fields.day ++
    ' ' :: padded 2 d.fields.hour ++ ':' :: padded 2 d.fields.minute ++
    ':' :: padded 2 d.fields.second

end Datetime

section Parse

def parseFraction : List Char → Option (Nat × List Char)
  | '.' :: cs =>
    match digits 6 cs with
    | some r => some r
    | none => (digits 3 cs).map (fun r => (1000 * r.1, r.2))
  | cs => some (0, cs)

/-- `:SS` with its fraction, or nothing. -/
def parseSeconds : List Char → Option ((Nat × Nat) × List Char)
  | ':' :: cs => do
    let (second, cs) ← digits 2 cs
    let (microsecond, cs) ← parseFraction cs
    some ((second, microsecond), cs)
  | cs => some ((0, 0), cs)

/-- `HH[:MM[:SS[.fff[fff]]]]` -/
def parseTime (cs : List Char) : Option ((Nat × Nat × Nat × Nat) × List Char) := do
  let (hour, cs) ← digits 2 cs
  match cs with
  | ':' :: cs =>
    let (minute, cs) ← digits 2 cs
    let ((second, microsecond), cs) ← parseSeconds cs
    some ((hour, minute, second, microsecond), cs)
  | cs => some ((hour, 0, 0, 0), cs)

/-- `HH:MM[:SS[.ffffff]]`, to the end. -/
def parseMagnitude (cs : List Char) : Option Nat := do
  let (hours, cs) ← digits 2 cs
  let cs ← expect ':' cs
  let (minutes, cs) ← digits 2 cs
  let ((seconds, microseconds), cs) ← parseSeconds cs
  if cs = [] ∧ minutes < 60 ∧ seconds < 60 then
    some (((hours * 60 + minutes) * 60 + seconds) * 1000000 + microseconds)
  else none

/-- `+HH:MM[:SS[.ffffff]]`, or nothing. -/
def parseOffset : List Char → Option (Option Int)
  | [] => some none
  | '+' :: cs => (parseMagnitude cs).map (fun n : Nat => some (n : Int))
  | '-' :: cs => (parseMagnitude cs).map (fun n : Nat => some (-n : Int))
  | _ => none

/-- `datetime.fromisoformat(text)`, with `none` for the `ValueError`: the format
`YYYY-MM-DD[*HH[:MM[:SS[.fff[fff]]]][+HH:MM[:SS[.ffffff]]]]`, where any character
separates the date from the time. -/
def fromisoformat (text : String) : Option Datetime := do
  let (year, cs) ← digits 4 text.toList
  let cs ← expect '-' cs
  let (month, cs) ← digits 2 cs
  let cs ← expect '-' cs
  let (day, cs) ← digits 2 cs
  let build (f : Fields) : Option Datetime := if h : f.Valid then some ⟨f, h⟩ else none
  match cs with
  | [] => build ⟨year, month, day, 0, 0, 0, 0, none⟩
  | _ :: cs =>
    let ((hour, minute, second, microsecond), cs) ← parseTime cs
    let utcoffset ← parseOffset cs
    build ⟨year, month, day, hour, minute, second, microsecond, utcoffset⟩

end Parse

/-- A text that cannot be taken for the rest of a time. -/
def Separate (rest : List Char) : Prop :=
  ∀ c cs, rest = c :: cs → c ≠ '.' ∧ c ≠ ':'

theorem parseFraction_fraction {n : Nat} (h : n < 1000000) {rest : List Char}
    (hrest : Separate rest) : parseFraction (fraction n ++ rest) = some (n, rest) := by
  rw [fraction]
  split
  · rename_i h0
    cases rest with
    | nil => simp [parseFraction, h0]
    | cons c cs =>
      have hc := (hrest c cs rfl).1
      simp [parseFraction, h0, hc]
  · have hdigits : ∀ rest, digits 6 (padded 6 n ++ rest) = some (n, rest) := digits_padded h
    simp [parseFraction, hdigits]

theorem parseSeconds_text {second microsecond : Nat} (hs : second < 60)
    (hm : microsecond < 1000000) {rest : List Char} (hrest : Separate rest) :
    parseSeconds (':' :: padded 2 second ++ fraction microsecond ++ rest) =
      some ((second, microsecond), rest) := by
  have h : second < 10 ^ 2 := by omega
  simp [parseSeconds, digits_padded h, parseFraction_fraction hm hrest]

theorem parseMagnitude_text {n : Nat} (h : n < dayMicroseconds) :
    parseMagnitude (magnitudeText n) = some n := by
  rw [dayMicroseconds] at h
  have hhours : n / 3600000000 < 10 ^ 2 := by omega
  have hminutes : n / 60000000 % 60 < 10 ^ 2 := by omega
  have hseconds : n / 1000000 % 60 < 60 := by omega
  have htail : parseSeconds (if n % 60000000 = 0 then []
      else ':' :: (padded 2 (n / 1000000 % 60) ++ fraction (n % 1000000))) =
      some ((n / 1000000 % 60, n % 1000000), []) := by
    split
    · have h₁ : n / 1000000 % 60 = 0 := by omega
      have h₂ : n % 1000000 = 0 := by omega
      rw [h₁, h₂]
      rfl
    · have hseparate : Separate [] := nofun
      simpa using parseSeconds_text hseconds (Nat.mod_lt n (by decide)) hseparate
  have hsum : ((n / 3600000000 * 60 + n / 60000000 % 60) * 60 + n / 1000000 % 60) * 1000000 +
      n % 1000000 = n := by omega
  rw [parseMagnitude, magnitudeText, List.append_assoc, digits_padded hhours]
  simp only [Option.bind_eq_bind, Option.bind_some, List.cons_append, expect_cons,
    digits_padded hminutes, htail, hsum]
  simp [hseconds, Nat.mod_lt]

theorem parseOffset_text {o : Option Int} (h : ∀ n, o = some n → n.natAbs < dayMicroseconds) :
    parseOffset (offsetText o) = some o := by
  cases o with
  | none => rfl
  | some o =>
    have ho := parseMagnitude_text (h o rfl)
    rw [offsetText]
    by_cases hneg : o < 0
    · rw [if_pos hneg, parseOffset, ho, Option.map_some, show -(o.natAbs : Int) = o by omega]
    · rw [if_neg hneg, parseOffset, ho, Option.map_some, show (o.natAbs : Int) = o by omega]

theorem offsetText_separate (o : Option Int) : Separate (offsetText o) := by
  rintro c cs h
  cases o with
  | none => cases h
  | some o =>
    rw [offsetText] at h
    obtain ⟨rfl, -⟩ := List.cons.inj h
    split <;> decide

/-- Reading back what `isoformat` wrote. -/
@[simp] theorem fromisoformat_isoformat (d : Datetime) : fromisoformat d.isoformat = some d := by
  obtain ⟨⟨year, month, day, hour, minute, second, microsecond, utcoffset⟩, hv⟩ := d
  obtain ⟨⟨-, hyear⟩, ⟨-, hmonth⟩, ⟨-, hday⟩, hhour, hminute, hsecond, hmicro, hoffset⟩ := id hv
  dsimp only at hyear hmonth hday hhour hminute hsecond hmicro hoffset
  have hdays : daysInMonth year month ≤ 31 := by
    rw [daysInMonth]
    split_ifs <;> decide
  have hy : year < 10 ^ 4 := by omega
  have hmo : month < 10 ^ 2 := by omega
  have hd : day < 10 ^ 2 := by omega
  have hh : hour < 10 ^ 2 := by omega
  have hmi : minute < 10 ^ 2 := by omega
  have htime := parseSeconds_text hsecond hmicro (offsetText_separate utcoffset)
  simp only [List.cons_append, List.append_assoc] at htime
  simp [fromisoformat, Datetime.isoformat, digits_padded hy, digits_padded hmo, digits_padded hd,
    digits_padded hh, digits_padded hmi, parseTime, htime, parseOffset_text hoffset, hv]

/-- What `isoformat` writes has no letter but the `T` before the time. -/
theorem isoformat_chars {d : Datetime} {c : Char} (h : c ∈ d.isoformat.toList) :
    c.isDigit ∨ c ∈ ['-', 'T', ':', '.', '+'] := by
  have hfraction : ∀ n, c ∈ fraction n → c.isDigit ∨ c = '.' := by
    intro n hc
    rw [fraction] at hc
    split at hc
    · cases hc
    · obtain rfl | hc := List.mem_cons.mp hc
      · exact .inr rfl
      · exact .inl (padded_isDigit hc)
  have hoffset : c ∈ offsetText d.fields.utcoffset → c.isDigit ∨ c ∈ ['-', 'T', ':', '.', '+'] := by
    cases d.fields.utcoffset with
    | none => nofun
    | some o =>
      intro hc
      simp only [offsetText, magnitudeText, List.mem_cons, List.mem_append] at hc
      obtain rfl | (hc | rfl | hc) | hc := hc
      · by_cases ho : o < 0 <;> simp [ho]
      · exact .inl (padded_isDigit hc)
      · simp
      · exact .inl (padded_isDigit hc)
      · rw [List.mem_ite_nil_left] at hc
        obtain ⟨-, hc⟩ := hc
        simp only [List.mem_cons, List.mem_append] at hc
        obtain (rfl | hc) | hc := hc
        · simp
        · exact .inl (padded_isDigit hc)
        · exact (hfraction _ hc).imp id (by rintro rfl; simp)
  simp only [Datetime.isoformat, String.toList_ofList, List.cons_append, List.append_assoc,
    List.mem_append, List.mem_cons] at h
  obtain h | rfl | h | rfl | h | rfl | h | rfl | h | rfl | h | h | h := h
  all_goals first
    | exact .inl (padded_isDigit h)
    | exact hoffset h
    | exact (hfraction _ h).imp id (by rintro rfl; simp)
    | simp

end ContextqlServer.Lib.Isoformat
