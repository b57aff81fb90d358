import ContextqlServer.Lib.JsonText

namespace ContextqlServer.Lib.JsonRead

open ContextqlServer.Lib.JsonText ContextqlServer.Lib.Python

section Strings

theorem hexValue_digitChar (n : Nat) : hexValue (n % 16).digitChar = some (n % 16) := by
  have h : n % 16 < 16 := Nat.mod_lt n (by decide)
  generalize n % 16 = d at h
  decide +revert

theorem parseUnit_hexDigits {n : Nat} (h : n < 0x10000) (cs : List Char) :
    parseUnit (hexDigits 4 n ++ cs) = some (n, cs) := by
  have hsum : ((n / 16 / 16 / 16 % 16 * 16 + n / 16 / 16 % 16) * 16 + n / 16 % 16) * 16 + n % 16 = n := by
    omega
  simp only [hexDigits, List.nil_append, List.cons_append, parseUnit, hexUnit, hexValue_digitChar,
    Option.bind_eq_bind, Option.bind_some, Option.map_some, hsum]

theorem parseEscape_unit {c : Char} (h : c.toNat < 0x10000) (cs : List Char) :
    parseEscape ('u' :: (hexDigits 4 c.toNat ++ cs)) = some (c, cs) := by
  have hvalid : c.toNat.isValidChar := c.valid
  have hsurrogate : ¬ (0xd800 ≤ c.toNat ∧ c.toNat < 0xdc00) := by
    have := hvalid
    simp only [Nat.isValidChar] at this
    omega
  simp only [parseEscape, parseUnit_hexDigits h, Option.bind_eq_bind, Option.bind_some, if_neg hsurrogate,
    if_pos hvalid, Char.ofNat_toNat]

theorem parseEscape_pair {c : Char} (high low : Nat) (hhigh : 0xd800 ≤ high ∧ high < 0xdc00)
    (hlow : 0xdc00 ≤ low ∧ low < 0xe000)
    (hc : 0x10000 + (high - 0xd800) * 0x400 + (low - 0xdc00) = c.toNat) (cs : List Char) :
    parseEscape ('u' :: (hexDigits 4 high ++ '\\' :: 'u' :: (hexDigits 4 low ++ cs))) =
      some (c, cs) := by
  have h₁ : high < 0x10000 := by omega
  have h₂ : low < 0x10000 := by omega
  simp only [parseEscape, parseUnit_hexDigits h₁, parseUnit_hexDigits h₂, Option.bind_eq_bind,
    Option.bind_some, if_pos hhigh, if_pos hlow, hc, Char.ofNat_toNat]

theorem parseEscape_short {c e : Char} (h : escapes.lookup c = some e)
    (cs : List Char) : parseEscape (c :: cs) = some (e, cs) := by
  rw [parseEscape, h, Option.map_some]
  rintro rfl
  have hnone : escapes.lookup 'u' = none := by decide
  rw [hnone] at h
  cases h

/-- One character as it is written is read back in one step. -/
theorem parseStr_escapeChar (fuel : Nat) (c : Char) (cs : List Char) :
    parseStr (fuel + 1) (escapeChar c ++ cs) =
      (parseStr fuel cs).map (fun r => (c :: r.1, r.2)) := by
  have hescape : ∀ body, parseEscape (body ++ cs) = some (c, cs) →
      parseStr (fuel + 1) ('\\' :: body ++ cs) = (parseStr fuel cs).map (fun r => (c :: r.1, r.2)) := by
    intro body hbody
    rw [List.cons_append, parseStr, hbody]
    cases h : parseStr fuel cs <;> simp [h]
  by_cases hspecial : c ∈ ['"', '\\', '\n', '\r', '\t']
  · simp only [List.mem_cons, List.not_mem_nil, or_false] at hspecial
    obtain rfl | rfl | rfl | rfl | rfl := hspecial
    · exact hescape ['"'] (parseEscape_short (by decide) cs)
    · exact hescape ['\\'] (parseEscape_short (by decide) cs)
    · exact hescape ['n'] (parseEscape_short (by decide) cs)
    · exact hescape ['r'] (parseEscape_short (by decide) cs)
    · exact hescape ['t'] (parseEscape_short (by decide) cs)
  · simp only [List.mem_cons, List.not_mem_nil, or_false, not_or] at hspecial
    obtain ⟨hquote, hslash, hn, hr, ht⟩ := hspecial
    rw [escapeChar.eq_6 c hquote hslash hn hr ht]
    split_ifs with hb hf hprint hbasic
    · obtain rfl : c = '\x08' := Char.ext (UInt32.toNat.inj hb)
      exact hescape ['b'] (parseEscape_short (by decide) cs)
    · obtain rfl : c = '\x0c' := Char.ext (UInt32.toNat.inj hf)
      exact hescape ['f'] (parseEscape_short (by decide) cs)
    · have hlow : ¬ c.toNat < 0x20 := by omega
      rw [List.singleton_append, parseStr.eq_4 _ _ _ hquote hslash, if_neg hlow]
    · exact hescape _ (parseEscape_unit hbasic cs)
    · have hlt : c.toNat < 0x110000 := by
        have hvalid : c.toNat.isValidChar := c.valid
        simp only [Nat.isValidChar] at hvalid
        omega
      generalize hn : c.toNat - 0x10000 = n
      have hpair := parseEscape_pair (c := c) (0xd800 + n / 0x400) (0xdc00 + n % 0x400)
        (by omega) (by omega) (by omega) cs
      simpa only [escapeUnit, List.cons_append, List.append_assoc] using hescape
        ('u' :: (hexDigits 4 (0xd800 + n / 0x400) ++ '\\' :: 'u' :: hexDigits 4 (0xdc00 + n % 0x400)))
        (by simpa only [List.cons_append, List.append_assoc] using hpair)

theorem parseStr_text (s : List Char) (rest : List Char) {fuel : Nat} (h : s.length < fuel) :
    parseStr fuel (s.flatMap escapeChar ++ '"' :: rest) = some (s, rest) := by
  induction s generalizing fuel with
  | nil =>
    obtain ⟨fuel, rfl⟩ := Nat.exists_eq_add_of_lt h
    simp [parseStr]
  | cons c s ih =>
    cases fuel with
    | zero => cases h
    | succ fuel =>
      rw [List.flatMap_cons, List.append_assoc, parseStr_escapeChar,
        ih (Nat.lt_of_succ_lt_succ h)]
      rfl

theorem escapeChar_length (c : Char) : 1 ≤ (escapeChar c).length := by
  by_cases hspecial : c ∈ ['"', '\\', '\n', '\r', '\t']
  · simp only [List.mem_cons, List.not_mem_nil, or_false] at hspecial
    obtain rfl | rfl | rfl | rfl | rfl := hspecial <;> decide
  · simp only [List.mem_cons, List.not_mem_nil, or_false, not_or] at hspecial
    obtain ⟨hquote, hslash, hn, hr, ht⟩ := hspecial
    rw [escapeChar.eq_6 c hquote hslash hn hr ht]
    split_ifs <;> simp [escapeUnit]

theorem length_le_flatMap_escapeChar (s : List Char) : s.length ≤ (s.flatMap escapeChar).length := by
  induction s with
  | nil => exact le_rfl
  | cons c s ih =>
    have := escapeChar_length c
    rw [List.flatMap_cons, List.length_append, List.length_cons]
    omega

end Strings

section Numbers

/-- What may stand after a value. -/
def Stop (rest : List Char) : Prop := ∀ c cs, rest = c :: cs → c ∈ [',', ']', '\x7d']

theorem Stop.nil : Stop [] := nofun

theorem Stop.cons {c : Char} (h : c ∈ [',', ']', '\x7d']) (cs : List Char) : Stop (c :: cs) := by
  rintro _ _ ⟨⟩
  exact h

def Digits (ds : List Char) : Prop := ds ≠ [] ∧ ∀ c ∈ ds, c.isDigit

/-- A text that does not go on with a digit. -/
def NoDigit (cs : List Char) : Prop := ∀ c ds, cs = c :: ds → c.isDigit = false

theorem takeWhile_digits {ds cs : List Char} (h : ∀ c ∈ ds, c.isDigit) (hcs : NoDigit cs) :
    (ds ++ cs).takeWhile Char.isDigit = ds := by
  rw [List.takeWhile_append_of_pos h]
  cases cs with
  | nil => simp
  | cons c cs => simp [hcs c cs rfl]

structure IsWhole (whole : List Char) : Prop where
  digits : Digits whole
  zero : ∀ ds, whole = '0' :: ds → ds = []

inductive IsFraction : List Char → Prop
  | none : IsFraction []
  | point {ds : List Char} (h : Digits ds) : IsFraction ('.' :: ds)

inductive IsExponent : List Char → Prop
  | none : IsExponent []
  | mark {m : Char} {sign ds : List Char} (hm : m = 'e' ∨ m = 'E')
      (hs : sign = [] ∨ sign = ['+'] ∨ sign = ['-']) (h : Digits ds) : IsExponent (m :: sign ++ ds)

theorem Stop.noDigit {rest : List Char} (h : Stop rest) : NoDigit rest := by
  intro c cs hc
  have hmem := h c cs hc
  simp only [List.mem_cons, List.not_mem_nil, or_false] at hmem
  obtain rfl | rfl | rfl := hmem <;> rfl

theorem isDigit_ne {c d : Char} (h : c.isDigit) (hd : d.isDigit = false) : c ≠ d := by
  rintro rfl
  rw [h] at hd
  cases hd

theorem suffix_stop {mark rest : List Char} (hmark : ∀ c ∈ [',', ']', '\x7d'], c ∉ mark)
    (h : Stop rest) : suffix mark rest = [] := by
  cases rest with
  | nil => rfl
  | cons c cs => simp [suffix, hmark c (h c cs rfl)]

theorem suffix_fraction {fraction : List Char} (h : IsFraction fraction) {cs : List Char}
    (hcs : NoDigit cs) (hpoint : ∀ ds, cs ≠ '.' :: ds) : suffix ['.'] (fraction ++ cs) = fraction := by
  cases h with
  | none =>
    cases cs with
    | nil => rfl
    | cons c cs =>
      have hc : c ≠ '.' := by
        rintro rfl
        exact hpoint cs rfl
      simp [suffix, hc]
  | @point ds h =>
    obtain ⟨d, ds', rfl⟩ := List.exists_cons_of_ne_nil h.1
    have htake := takeWhile_digits h.2 hcs
    simp only [suffix, List.cons_append, ne_eq, not_true_eq_false, and_false, if_false, List.length_nil,
      List.drop_zero]
    rw [← List.cons_append, htake]
    simp

theorem suffix_exponent {exponent : List Char} (h : IsExponent exponent) {rest : List Char}
    (hrest : Stop rest) : suffix ['e', 'E'] (exponent ++ rest) = exponent := by
  cases h with
  | none => exact suffix_stop (by simp) hrest
  | @mark m sign ds hm hs h =>
    obtain ⟨d, ds', rfl⟩ := List.exists_cons_of_ne_nil h.1
    have hd : d.isDigit := h.2 d (by simp)
    have hplus : d ≠ '+' := isDigit_ne hd rfl
    have hminus : d ≠ '-' := isDigit_ne hd rfl
    have hm' : m ∈ ['e', 'E'] ∧ m ≠ '.' := by
      obtain rfl | rfl := hm <;> decide
    have htake := takeWhile_digits h.2 hrest.noDigit
    rw [List.cons_append] at htake
    obtain rfl | rfl | rfl := hs
    all_goals simp [suffix, hm'.1, hm'.2, hplus, hminus, htake]

theorem IsExponent.noDigit {exponent : List Char} (h : IsExponent exponent) {rest : List Char}
    (hrest : Stop rest) : NoDigit (exponent ++ rest) ∧ ∀ ds, exponent ++ rest ≠ '.' :: ds := by
  cases h with
  | none =>
    refine ⟨hrest.noDigit, ?_⟩
    intro ds hds
    exact absurd (hrest _ _ hds) (by decide)
  | @mark m sign ds hm hs h =>
    constructor
    · rintro _ _ ⟨⟩
      obtain rfl | rfl := hm <;> rfl
    · rintro ds hds
      obtain rfl | rfl := hm
      all_goals exact absurd (List.cons.inj hds).1 (by decide)

theorem IsFraction.noDigit {fraction : List Char} (h : IsFraction fraction) {cs : List Char}
    (hcs : NoDigit cs) : NoDigit (fraction ++ cs) := by
  cases h with
  | none => exact hcs
  | point h =>
    rintro _ _ ⟨⟩
    rfl

def signOf (cs : List Char) : List Char × List Char :=
  match cs with
  | '-' :: cs => (['-'], cs)
  | _ => ([], cs)

def wholeOf (cs : List Char) : List Char :=
  match cs with
  | '0' :: _ => ['0']
  | _ => cs.takeWhile Char.isDigit

def unsignedNumber (T : FloatText) (sign cs : List Char) : Option (Json × List Char) :=
  let whole := wholeOf cs
  let cs := cs.drop whole.length
  let fraction := suffix ['.'] cs
  let cs := cs.drop fraction.length
  let exponent := suffix ['e', 'E'] cs
  let n : Int := Nat.ofDigitChars 10 whole 0
  if whole = [] then none
  else if fraction = [] ∧ exponent = [] then some (.int (if sign = [] then n else -n), cs)
  else some (.float (T.parse (.ofList (sign ++ whole ++ fraction ++ exponent))),
    cs.drop exponent.length)

theorem parseNumber_eq (T : FloatText) (cs : List Char) :
    parseNumber T cs = unsignedNumber T (signOf cs).1 (signOf cs).2 := rfl

theorem wholeOf_text {whole cs : List Char} (hw : IsWhole whole) (hcs : NoDigit cs) :
    wholeOf (whole ++ cs) = whole := by
  have htake := takeWhile_digits hw.digits.2 hcs
  obtain ⟨d, ds, rfl⟩ := List.exists_cons_of_ne_nil hw.digits.1
  rw [wholeOf.eq_def]
  split
  · rename_i heq
    obtain ⟨rfl, -⟩ := List.cons.inj heq
    rw [hw.zero ds rfl]
  · exact htake

theorem unsignedNumber_text (T : FloatText) (sign : List Char) {whole fraction exponent rest : List Char}
    (hw : IsWhole whole) (hf : IsFraction fraction) (he : IsExponent exponent) (hrest : Stop rest) :
    unsignedNumber T sign (whole ++ (fraction ++ (exponent ++ rest))) =
      some (if fraction = [] ∧ exponent = [] then
          .int (if sign = [] then Nat.ofDigitChars 10 whole 0 else -(Nat.ofDigitChars 10 whole 0 : Int))
        else .float (T.parse (.ofList (sign ++ whole ++ fraction ++ exponent))), rest) := by
  obtain ⟨hcs, hpoint⟩ := he.noDigit hrest
  have hwhole := wholeOf_text hw (hf.noDigit hcs)
  have hsf := suffix_fraction hf hcs hpoint
  have hse := suffix_exponent he hrest
  simp only [unsignedNumber, hwhole, List.drop_left, hsf, hse, if_neg hw.digits.1]
  by_cases h : fraction = [] ∧ exponent = []
  · rw [if_pos h, if_pos h, h.2, List.nil_append]
  · rw [if_neg h, if_neg h]

theorem signOf_digit {d : Char} (h : d.isDigit) (cs : List Char) : signOf (d :: cs) = ([], d :: cs) := by
  rw [signOf.eq_def]
  split
  · rename_i heq
    exact absurd (List.cons.inj heq).1 (isDigit_ne h rfl)
  · rfl

/-- The text of a number: its sign, its digits, a fraction and an exponent. -/
inductive IsNumber : List Char → List Char → List Char → List Char → Prop
  | plain {whole fraction exponent : List Char} (hw : IsWhole whole) (hf : IsFraction fraction)
      (he : IsExponent exponent) : IsNumber [] whole fraction exponent
  | negative {whole fraction exponent : List Char} (hw : IsWhole whole) (hf : IsFraction fraction)
      (he : IsExponent exponent) : IsNumber ['-'] whole fraction exponent

theorem parseNumber_text (T : FloatText) {sign whole fraction exponent rest : List Char}
    (h : IsNumber sign whole fraction exponent) (hrest : Stop rest) :
    parseNumber T (sign ++ whole ++ fraction ++ exponent ++ rest) =
      some (if fraction = [] ∧ exponent = [] then
          .int (if sign = [] then Nat.ofDigitChars 10 whole 0 else -(Nat.ofDigitChars 10 whole 0 : Int))
        else .float (T.parse (.ofList (sign ++ whole ++ fraction ++ exponent))), rest) := by
  simp only [List.append_assoc]
  cases h with
  | plain hw hf he =>
    have htext := unsignedNumber_text T [] hw hf he hrest
    obtain ⟨d, ds, rfl⟩ := List.exists_cons_of_ne_nil hw.digits.1
    rw [parseNumber_eq, List.nil_append, List.cons_append, signOf_digit (hw.digits.2 d (by simp))]
    simpa only [List.append_assoc, List.cons_append] using htext
  | negative hw hf he =>
    have htext := unsignedNumber_text T ['-'] hw hf he hrest
    rw [parseNumber_eq]
    simpa only [List.append_assoc, List.cons_append, List.nil_append, signOf] using htext

end Numbers

section Values

/-- The digits of a number have no zero in front. -/
theorem toDigits_isWhole (n : Nat) : IsWhole (Nat.toDigits 10 n) := by
  refine ⟨⟨Nat.toDigits_ne_nil, ?_⟩, ?_⟩
  · exact fun c hc => Nat.isDigit_of_mem_toDigits (by omega) (by omega) hc
  · induction n using Nat.strong_induction_on with
    | _ n ih =>
      intro ds hds
      by_cases h : n < 10
      · rw [Nat.toDigits_of_lt_base h] at hds
        exact (List.cons.inj hds).2.symm
      · obtain ⟨d, ds', hd⟩ := List.exists_cons_of_ne_nil (Nat.toDigits_ne_nil (n := n / 10) (b := 10))
        rw [Nat.toDigits_of_base_le (by decide) (by omega), hd] at hds
        obtain ⟨rfl, -⟩ := List.cons.inj hds
        have hzero : n / 10 = 0 := by
          rw [← Nat.ofDigitChars_ten_toDigits (n := n / 10), hd, ih (n / 10) (by omega) ds' hd]
          rfl
        omega

/-- The text of a double stands for it. -/
structure Exact (T : FloatText) (x : Float64) : Prop where
  number : ∃ sign whole fraction exponent, IsNumber sign whole fraction exponent ∧
    (fraction ≠ [] ∨ exponent ≠ []) ∧ (T.repr x).toList = sign ++ whole ++ fraction ++ exponent
  parse : T.parse (T.repr x) = x

/-- A value that reads back as it was written: keys are distinct and the finite
doubles have exact texts. -/
inductive Plain (T : FloatText) : Json → Prop
  | null : Plain T .null
  | bool (b : Bool) : Plain T (.bool b)
  | int (n : Int) : Plain T (.int n)
  | float {x : Float64} (h : ∀ q, x = .finite q → Exact T x) : Plain T (.float x)
  | str (s : String) : Plain T (.str s)
  | arr {items : List Json} (h : ∀ x ∈ items, Plain T x) : Plain T (.arr items)
  | obj {members : List (String × Json)} (hk : (members.map Prod.fst).Nodup)
      (h : ∀ m ∈ members, Plain T m.2) : Plain T (.obj members)

theorem IsNumber.head {sign whole fraction exponent : List Char}
    (h : IsNumber sign whole fraction exponent) :
    ∃ c cs, sign ++ whole ++ fraction ++ exponent = c :: cs ∧
      (c.isDigit ∨ c = '-' ∧ ∃ d ds, cs = d :: ds ∧ d.isDigit) := by
  cases h with
  | plain hw hf he =>
    obtain ⟨d, ds, rfl⟩ := List.exists_cons_of_ne_nil hw.digits.1
    exact ⟨d, _, rfl, .inl (hw.digits.2 d (by simp))⟩
  | negative hw hf he =>
    obtain ⟨d, ds, rfl⟩ := List.exists_cons_of_ne_nil hw.digits.1
    exact ⟨'-', _, rfl, .inr ⟨rfl, d, _, rfl, hw.digits.2 d (by simp)⟩⟩

theorem parseAtom_number (T : FloatText) {sign whole fraction exponent : List Char}
    (h : IsNumber sign whole fraction exponent) (cs : List Char) :
    parseAtom T (sign ++ whole ++ fraction ++ exponent ++ cs) =
      parseNumber T (sign ++ whole ++ fraction ++ exponent ++ cs) := by
  have hnone : literals.find? (fun p => p.1.isPrefixOf
      (sign ++ whole ++ fraction ++ exponent ++ cs)) = none := by
    obtain ⟨c, cs', hc, hhead⟩ := h.head
    rw [hc, List.find?_eq_none]
    intro p hp
    simp only [literals, List.mem_cons, List.not_mem_nil, or_false] at hp
    obtain hd | ⟨rfl, d, ds, rfl, hd⟩ := hhead
    · have hne : ∀ x : Char, x.isDigit = false → x ≠ c := fun x hx => (isDigit_ne hd hx).symm
      obtain rfl | rfl | rfl | rfl | rfl | rfl := hp
      all_goals simp [List.isPrefixOf, hne]
    · have hne : 'I' ≠ d := (isDigit_ne hd rfl).symm
      obtain rfl | rfl | rfl | rfl | rfl | rfl := hp
      all_goals simp [List.isPrefixOf, hne]
  rw [parseAtom, hnone]

/-- The text of `j`, whatever may follow it, is read as `j`. -/
structure Reads (T : FloatText) (j : Json) : Prop where
  head : ∃ c cs, chars T j = c :: cs ∧ c ∉ [' ', '\t', '\n', '\r', ']']
  value : ∀ fuel rest, 2 * (chars T j).length ≤ fuel → Stop rest →
    parseValue T fuel (chars T j ++ rest) = some (j, rest)

/-- An atom is no string, no array and no object. -/
theorem parseValue_atom (T : FloatText) (fuel : Nat) {c : Char} (cs : List Char)
    (hc : c ≠ '"' ∧ c ≠ '[' ∧ c ≠ '\x7b') :
    parseValue T (fuel + 1) (c :: cs) = parseAtom T (c :: cs) := by
  rw [parseValue]
  · rintro _ ⟨⟩
    exact hc.1 rfl
  · rintro _ ⟨⟩
    exact hc.2.1 rfl
  · rintro _ ⟨⟩
    exact hc.2.2 rfl

theorem parseValue_literal (T : FloatText) {text : List Char} {j : Json} {fuel : Nat}
    (h : (text, j) ∈ literals) (hfuel : 0 < fuel) (rest : List Char) :
    parseValue T fuel (text ++ rest) = some (j, rest) := by
  obtain ⟨fuel, rfl⟩ := Nat.exists_eq_add_of_lt hfuel
  rw [Nat.zero_add]
  simp only [literals, List.mem_cons, List.not_mem_nil, or_false, Prod.mk.injEq] at h
  obtain ⟨rfl, rfl⟩ | ⟨rfl, rfl⟩ | ⟨rfl, rfl⟩ | ⟨rfl, rfl⟩ | ⟨rfl, rfl⟩ | ⟨rfl, rfl⟩ := h
  all_goals
    refine (parseValue_atom T fuel _ (by decide)).trans ?_
    rfl

theorem parseValue_number (T : FloatText) {sign whole fraction exponent rest : List Char} {fuel : Nat}
    (h : IsNumber sign whole fraction exponent) (hfuel : 0 < fuel) :
    parseValue T fuel (sign ++ whole ++ fraction ++ exponent ++ rest) =
      parseNumber T (sign ++ whole ++ fraction ++ exponent ++ rest) := by
  obtain ⟨fuel, rfl⟩ := Nat.exists_eq_add_of_lt hfuel
  rw [Nat.zero_add, ← parseAtom_number T h]
  obtain ⟨c, cs, hc, hhead⟩ := h.head
  rw [hc]
  apply parseValue_atom
  obtain hd | ⟨rfl, -⟩ := hhead
  · exact ⟨isDigit_ne hd rfl, isDigit_ne hd rfl, isDigit_ne hd rfl⟩
  · decide

theorem int_text (n : Int) : ∃ sign, IsNumber sign (Nat.toDigits 10 n.natAbs) [] [] ∧
    (toString n).toList = sign ++ Nat.toDigits 10 n.natAbs ++ [] ++ [] ∧
    n = if sign = [] then (n.natAbs : Int) else -n.natAbs := by
  have hw := toDigits_isWhole n.natAbs
  cases n with
  | ofNat n =>
    refine ⟨[], .plain hw .none .none, ?_, rfl⟩
    change (Nat.repr n).toList = _
    simp
  | negSucc n =>
    refine ⟨['-'], .negative hw .none .none, ?_, rfl⟩
    change ("-" ++ Nat.repr (n + 1)).toList = _
    simp

theorem Reads.literal {T : FloatText} {j : Json} (h : (chars T j, j) ∈ literals) : Reads T j := by
  have hhead : ∃ c cs, chars T j = c :: cs ∧ c ∉ [' ', '\t', '\n', '\r', ']'] := by
    generalize chars T j = text at h
    simp only [literals, List.mem_cons, List.not_mem_nil, or_false, Prod.mk.injEq] at h
    obtain ⟨rfl, -⟩ | ⟨rfl, -⟩ | ⟨rfl, -⟩ | ⟨rfl, -⟩ | ⟨rfl, -⟩ | ⟨rfl, -⟩ := h
    all_goals exact ⟨_, _, rfl, by decide⟩
  refine ⟨hhead, ?_⟩
  intro fuel rest hfuel _
  obtain ⟨c, cs, hc, -⟩ := hhead
  refine parseValue_literal T h ?_ rest
  rw [hc, List.length_cons] at hfuel
  omega

theorem Reads.number {T : FloatText} {j : Json} {sign whole fraction exponent : List Char}
    (h : IsNumber sign whole fraction exponent)
    (htext : chars T j = sign ++ whole ++ fraction ++ exponent)
    (hj : j = if fraction = [] ∧ exponent = [] then
        .int (if sign = [] then Nat.ofDigitChars 10 whole 0 else -(Nat.ofDigitChars 10 whole 0 : Int))
      else .float (T.parse (.ofList (sign ++ whole ++ fraction ++ exponent)))) : Reads T j := by
  obtain ⟨c, cs, hc, hhead⟩ := h.head
  refine ⟨⟨c, cs, htext.trans hc, ?_⟩, ?_⟩
  · obtain hd | ⟨rfl, -⟩ := hhead
    · simp only [List.mem_cons, List.not_mem_nil, or_false, not_or]
      exact ⟨isDigit_ne hd rfl, isDigit_ne hd rfl, isDigit_ne hd rfl, isDigit_ne hd rfl, isDigit_ne hd rfl⟩
    · decide
  · intro fuel rest hfuel hrest
    have hlen := congrArg List.length (htext.trans hc)
    rw [List.length_cons] at hlen
    rw [htext, parseValue_number T h (by omega), parseNumber_text T h hrest, ← hj]

theorem Reads.int (T : FloatText) (n : Int) : Reads T (.int n) := by
  obtain ⟨sign, hnumber, htext, hn⟩ := int_text n
  have hchars : chars T (.int n) = (toString n).toList := by rw [chars]
  refine .number hnumber (hchars.trans htext) ?_
  rw [if_pos ⟨rfl, rfl⟩, Nat.ofDigitChars_ten_toDigits, ← hn]

theorem Reads.finite {T : FloatText} {q : ℚ} (h : Exact T (.finite q)) :
    Reads T (.float (.finite q)) := by
  obtain ⟨sign, whole, fraction, exponent, hnumber, hne, htext⟩ := h.number
  have hne' : ¬ (fraction = [] ∧ exponent = []) := fun hc => hne.elim (· hc.1) (· hc.2)
  have hchars : chars T (.float (.finite q)) = (T.repr (.finite q)).toList := by
    rw [chars]
    rfl
  refine .number hnumber (hchars.trans htext) ?_
  rw [if_neg hne', ← htext, String.ofList_toList, h.parse]

theorem strText_length (s : String) : s.toList.length + 2 ≤ (strText s).length := by
  have := length_le_flatMap_escapeChar s.toList
  simp only [strText, List.length_cons, List.length_append, List.length_nil]
  omega

theorem Reads.str (T : FloatText) (s : String) : Reads T (.str s) := by
  have htext : chars T (.str s) = strText s := by rw [chars]
  refine ⟨⟨'"', _, htext, by decide⟩, ?_⟩
  intro fuel rest hfuel _
  have hlen := strText_length s
  rw [htext] at hfuel ⊢
  cases fuel with
  | zero => omega
  | succ fuel =>
    rw [strText, List.cons_append, List.cons_append, List.append_assoc, parseValue,
      List.singleton_append, parseStr_text _ _ (by omega), Option.map_some, String.ofList_toList]

theorem skipBlank_cons {c : Char} (h : c ∉ [' ', '\t', '\n', '\r']) (cs : List Char) :
    skipBlank (c :: cs) = c :: cs := by
  rw [skipBlank, List.dropWhile_cons_of_neg (by simpa using h)]

theorem skipBlank_space (cs : List Char) : skipBlank (' ' :: cs) = skipBlank cs := by
  rw [skipBlank, List.dropWhile_cons_of_pos (by decide), skipBlank]

theorem skipBlank_strText (s : String) (cs : List Char) :
    skipBlank (strText s ++ cs) = strText s ++ cs := skipBlank_cons (c := '"') (by decide) _

theorem itemsChars_stop (T : FloatText) (xs : List Json) (rest : List Char) :
    Stop (itemsChars T xs ++ rest) := by
  cases xs with
  | nil => exact .cons (by decide) _
  | cons x xs => exact .cons (by decide) _

theorem membersChars_stop (T : FloatText) (ms : List (String × Json)) (rest : List Char) :
    Stop (membersChars T ms ++ rest) := by
  cases ms with
  | nil => exact .cons (by decide) _
  | cons m ms => exact .cons (by decide) _

theorem Reads.notBlank {T : FloatText} {j : Json} (h : Reads T j) (rest : List Char) :
    skipBlank (chars T j ++ rest) = chars T j ++ rest := by
  obtain ⟨c, cs, hc, hblank⟩ := h.head
  rw [hc, List.cons_append, skipBlank_cons]
  simp only [List.mem_cons, List.not_mem_nil, or_false, not_or] at hblank ⊢
  exact ⟨hblank.1, hblank.2.1, hblank.2.2.1, hblank.2.2.2.1⟩

theorem parseItems_text {T : FloatText} {x : Json} {xs : List Json} (hx : ∀ y ∈ x :: xs, Reads T y)
    (fuel : Nat) (hfuel : 2 * (chars T x ++ itemsChars T xs).length ≤ fuel) (rest : List Char) :
    parseItems T fuel (chars T x ++ (itemsChars T xs ++ rest)) = some (x :: xs, rest) := by
  induction xs generalizing x fuel with
  | nil =>
    rw [List.length_append, itemsChars, List.length_singleton] at hfuel
    cases fuel with
    | zero => omega
    | succ fuel =>
      have hvalue := (hx x (by simp)).value fuel _ (by omega) (itemsChars_stop T [] rest)
      rw [parseItems, hvalue]
      rfl
  | cons y ys ih =>
    have hlen : (itemsChars T (y :: ys)).length = (chars T y ++ itemsChars T ys).length + 2 := by
      rw [itemsChars]
      simp [Nat.add_assoc]
    rw [List.length_append, hlen] at hfuel
    cases fuel with
    | zero => omega
    | succ fuel =>
      have hvalue := (hx x (by simp)).value fuel _ (by omega) (itemsChars_stop T (y :: ys) rest)
      have hrest := ih (x := y) (fun z hz => hx z (List.mem_cons_of_mem x hz)) fuel (by omega)
      have hblank := (hx y (by simp)).notBlank (itemsChars T ys ++ rest)
      have htext : itemsChars T (y :: ys) ++ rest =
          ',' :: ' ' :: (chars T y ++ (itemsChars T ys ++ rest)) := by
        rw [itemsChars]
        simp
      rw [parseItems, hvalue, htext]
      simp only [Option.bind_eq_bind, Option.bind_some, skipBlank_cons (c := ',') (by decide)]
      rw [show skipBlank (' ' :: (chars T y ++ (itemsChars T ys ++ rest))) =
        chars T y ++ (itemsChars T ys ++ rest) from hblank, hrest]
      rfl

theorem Reads.arr {T : FloatText} {items : List Json} (h : ∀ x ∈ items, Reads T x) :
    Reads T (.arr items) := by
  cases items with
  | nil =>
    have htext : chars T (.arr []) = ['[', ']'] := by rw [chars]
    refine ⟨⟨'[', _, htext, by decide⟩, ?_⟩
    intro fuel rest hfuel _
    rw [htext] at hfuel ⊢
    cases fuel with
    | zero => cases hfuel
    | succ fuel => rfl
  | cons x xs =>
    have htext : chars T (.arr (x :: xs)) = '[' :: (chars T x ++ itemsChars T xs) := by rw [chars]; rfl
    refine ⟨⟨'[', _, htext, by decide⟩, ?_⟩
    intro fuel rest hfuel _
    rw [htext] at hfuel ⊢
    rw [List.length_cons] at hfuel
    cases fuel with
    | zero => omega
    | succ fuel =>
      have hitems := parseItems_text h fuel (by omega) rest
      have hblank := (h x (by simp)).notBlank (itemsChars T xs ++ rest)
      obtain ⟨c, cs, hc, hclose⟩ := (h x (by simp)).head
      have hne : c ≠ ']' := by
        rintro rfl
        exact hclose (by simp)
      rw [List.cons_append, List.append_assoc, parseValue, hblank]
      rw [hc, List.cons_append] at hitems ⊢
      split
      · rename_i heq
        exact absurd (List.cons.inj heq).1 hne
      · rw [hitems, Option.map_some]

theorem assign_append {k : String} {ms : List (String × Json)} (h : k ∉ ms.map Prod.fst) (v : Json) :
    assign k v ms = ms ++ [(k, v)] := by
  induction ms with
  | nil => rfl
  | cons m ms ih =>
    rw [List.map_cons, List.mem_cons, not_or] at h
    rw [assign, if_neg (Ne.symm h.1), ih h.2, List.cons_append]

def afterMember (T : FloatText) (fuel : Nat) (done : List (String × Json)) (tail : List Char) :
    Option (List (String × Json) × List Char) :=
  match skipBlank tail with
  | '\x7d' :: cs => some (done, cs)
  | ',' :: cs => parseMembers T fuel done (skipBlank cs)
  | _ => none

theorem parseMembers_member {T : FloatText} {k : String} {v : Json} {done : List (String × Json)}
    (hv : Reads T v) (hk : k ∉ done.map Prod.fst) {fuel : Nat} (hkey : k.toList.length < fuel)
    (hfuel : 2 * (chars T v).length ≤ fuel) {tail : List Char} (htail : Stop tail) :
    parseMembers T (fuel + 1) done (strText k ++ (": ".toList ++ (chars T v ++ tail))) =
      afterMember T fuel (done ++ [(k, v)]) tail := by
  have hstr := parseStr_text k.toList (": ".toList ++ (chars T v ++ tail)) hkey
  have hblank : skipBlank (' ' :: (chars T v ++ tail)) = chars T v ++ tail := hv.notBlank tail
  have hcolon : ": ".toList ++ (chars T v ++ tail) = ':' :: ' ' :: (chars T v ++ tail) := rfl
  rw [strText, List.cons_append, List.cons_append, List.append_assoc, parseMembers,
    List.singleton_append, hstr, hcolon]
  simp only [Option.bind_eq_bind, Option.bind_some, skipBlank_cons (c := ':') (by decide), hblank,
    hv.value fuel tail hfuel htail, String.ofList_toList, assign_append hk]
  rfl

theorem parseMembers_text {T : FloatText} (done : List (String × Json)) {m : String × Json}
    {ms : List (String × Json)} (hm : ∀ e ∈ m :: ms, Reads T e.2)
    (hk : ((done ++ m :: ms).map Prod.fst).Nodup) (fuel : Nat)
    (hfuel : 2 * (strText m.1 ++ ": ".toList ++ chars T m.2 ++ membersChars T ms).length ≤ fuel)
    (rest : List Char) :
    parseMembers T fuel done
        (strText m.1 ++ (": ".toList ++ (chars T m.2 ++ (membersChars T ms ++ rest)))) =
      some (done ++ m :: ms, rest) := by
  induction ms generalizing m done fuel with
  | nil =>
    obtain ⟨k, v⟩ := m
    have hv : Reads T v := hm (k, v) (by simp)
    have hlen := strText_length k
    have hfresh : k ∉ done.map Prod.fst := by
      rw [List.map_append] at hk
      exact fun hmem => (List.nodup_append.mp hk).2.2 k hmem k (by simp) rfl
    simp only [List.length_append, membersChars, List.length_singleton] at hfuel
    cases fuel with
    | zero => omega
    | succ fuel =>
      rw [parseMembers_member hv hfresh (by omega) (by omega) (membersChars_stop T [] rest)]
      rfl
  | cons m' ms ih =>
    obtain ⟨k, v⟩ := m
    obtain ⟨k', v'⟩ := m'
    have hv : Reads T v := hm (k, v) (by simp)
    have hlen := strText_length k
    have hfresh : k ∉ done.map Prod.fst := by
      rw [List.map_append] at hk
      exact fun hmem => (List.nodup_append.mp hk).2.2 k hmem k (by simp) rfl
    have htext : membersChars T ((k', v') :: ms) =
        ',' :: ' ' :: (strText k' ++ ": ".toList ++ chars T v' ++ membersChars T ms) := by
      rw [membersChars]
      rfl
    rw [htext] at hfuel
    simp only [List.length_append, List.length_cons] at hfuel
    cases fuel with
    | zero => omega
    | succ fuel =>
      have hstep := ih (done ++ [(k, v)]) (m := (k', v'))
        (fun e he => hm e (List.mem_cons_of_mem _ he)) (by simpa using hk) fuel (by
          simp only [List.length_append]
          omega)
      rw [parseMembers_member hv hfresh (by omega) (by omega)
        (membersChars_stop T ((k', v') :: ms) rest), htext]
      simp only [afterMember, List.cons_append, List.append_assoc, skipBlank_cons (c := ',') (by decide),
        skipBlank_space, skipBlank_strText, hstep, List.nil_append]

theorem Reads.obj {T : FloatText} {members : List (String × Json)}
    (hk : (members.map Prod.fst).Nodup) (h : ∀ m ∈ members, Reads T m.2) : Reads T (.obj members) := by
  cases members with
  | nil =>
    have htext : chars T (.obj []) = ['\x7b', '\x7d'] := by rw [chars]
    refine ⟨⟨'\x7b', _, htext, by decide⟩, ?_⟩
    intro fuel rest hfuel _
    rw [htext] at hfuel ⊢
    cases fuel with
    | zero => cases hfuel
    | succ fuel => rfl
  | cons m ms =>
    obtain ⟨k, v⟩ := m
    have htext : chars T (.obj ((k, v) :: ms)) =
        '\x7b' :: (strText k ++ ": ".toList ++ chars T v ++ membersChars T ms) := by
      rw [chars]
      rfl
    refine ⟨⟨'\x7b', _, htext, by decide⟩, ?_⟩
    intro fuel rest hfuel _
    rw [htext] at hfuel ⊢
    rw [List.length_cons] at hfuel
    cases fuel with
    | zero => omega
    | succ fuel =>
      have hmembers := parseMembers_text [] h hk fuel (by dsimp only; omega) rest
      simp only [List.cons_append, List.append_assoc]
      rw [parseValue, skipBlank_strText]
      split
      · rename_i heq
        exact absurd (List.cons.inj heq).1 (by decide)
      · rw [hmembers, Option.map_some, List.nil_append]

theorem Plain.reads {T : FloatText} {j : Json} (h : Plain T j) : Reads T j := by
  induction h with
  | null => exact .literal (by simp [chars, literals])
  | bool b => cases b <;> exact .literal (by simp [chars, literals])
  | int n => exact .int T n
  | @float x h =>
    cases x with
    | nan => exact .literal (by simp [chars, floatChars, literals])
    | inf negative => cases negative <;> exact .literal (by simp [chars, floatChars, literals])
    | finite q => exact .finite (h q rfl)
  | str s => exact .str T s
  | arr _ ih => exact .arr ih
  | obj hk _ ih => exact .obj hk ih

/-- Reading back what `dumps` wrote. -/
theorem loads_dumps {T : FloatText} {j : Json} (h : Plain T j) : loads T (dumps T j) = some j := by
  have hr := h.reads
  have hblank := hr.notBlank []
  have hvalue := hr.value (2 * (chars T j).length + 1) [] (by omega) .nil
  rw [List.append_nil] at hblank hvalue
  rw [loads, dumps, String.toList_ofList, hblank]
  simp only [Option.bind_eq_bind, hvalue, Option.bind_some]
  rfl

theorem dumps_ne_empty {T : FloatText} {j : Json} (h : Plain T j) : dumps T j ≠ "" := by
  obtain ⟨c, cs, hc, -⟩ := h.reads.head
  intro hempty
  have := congrArg String.toList hempty
  rw [dumps, String.toList_ofList, hc] at this
  cases this

end Values

end ContextqlServer.Lib.JsonRead
