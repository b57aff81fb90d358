import Mathlib.Data.List.Basic

namespace ContextqlServer.Lib.Literals

/-- A text inside a literal, where two quotes stand for one. -/
def doubled (cs : List Char) : List Char := cs.flatMap (fun c => if c = '\'' then ['\'', '\''] else [c])

/-- The text as a literal of standard SQL. -/
def quoted (cs : List Char) : List Char := '\'' :: (doubled cs ++ ['\''])

/-- The text of a literal whose opening quote has been read, and what follows the closing one. -/
def literalBody : List Char → Option (List Char × List Char)
  | [] => none
  | ['\''] => some ([], [])
  | c :: d :: cs =>
    if c = '\'' then
      if d = '\'' then (literalBody cs).map (fun r => ('\'' :: r.1, r.2)) else some ([], d :: cs)
    else (literalBody (d :: cs)).map (fun r => (c :: r.1, r.2))
  | [_] => none

inductive Token where
  | word (cs : List Char)
  | literal (cs : List Char)
  | symbol (c : Char)
  deriving DecidableEq

def isBlank (c : Char) : Bool := c = ' ' || c = '\n' || c = '\t' || c = '\r'

def isWordPart (c : Char) : Bool := c.isAlphanum || c = '_'

def next (cs : List Char) : Option (Token × List Char) :=
  match cs.dropWhile isBlank with
  | [] => none
  | c :: cs =>
    if c = '\'' then (literalBody cs).map (fun r => (.literal r.1, r.2))
    else if isWordPart c then some (.word (c :: cs.takeWhile isWordPart), cs.dropWhile isWordPart)
    else some (.symbol c, cs)

/-- The next `n` tokens, and what follows them. -/
def tokens : Nat → List Char → Option (List Token × List Char)
  | 0, cs => some ([], cs)
  | n + 1, cs => do
    let (token, cs) ← next cs
    let (rest, cs) ← tokens n cs
    some (token :: rest, cs)

/-- The literals of a list after the first one, up to the closing parenthesis. -/
def moreText (xs : List (List Char)) : List Char := xs.flatMap (fun x => ',' :: ' ' :: quoted x) ++ [')']

def moreTokens (xs : List (List Char)) : List Token := xs.flatMap (fun x => [.symbol ',', .literal x]) ++ [.symbol ')']

/-- A parenthesized list of literals. -/
def listText : List (List Char) → List Char
  | [] => ['(', ')']
  | x :: xs => '(' :: (quoted x ++ moreText xs)

def listTokens : List (List Char) → List Token
  | [] => [.symbol '(', .symbol ')']
  | x :: xs => .symbol '(' :: .literal x :: moreTokens xs

/-- Another quote would be taken for the second of two. -/
def Unquoted (rest : List Char) : Prop := rest.head? ≠ some '\''

section Literal

theorem literalBody_doubled (cs : List Char) {rest : List Char} (h : Unquoted rest) :
    literalBody (doubled cs ++ '\'' :: rest) = some (cs, rest) := by
  induction cs with
  | nil =>
    cases rest with
    | nil => rfl
    | cons d rest =>
      have hd : d ≠ '\'' := fun hd => h (by rw [hd]; rfl)
      simp [doubled, literalBody, hd]
  | cons c cs ih =>
    by_cases hc : c = '\''
    · subst hc
      have hcons : doubled ('\'' :: cs) = '\'' :: '\'' :: doubled cs := rfl
      rw [hcons, List.cons_append, List.cons_append, literalBody, if_pos rfl, if_pos rfl, ih]
      rfl
    · have hcons : doubled (c :: cs) = c :: doubled cs := by simp [doubled, hc]
      obtain ⟨d, ds, hds⟩ := List.exists_cons_of_ne_nil (l := doubled cs ++ '\'' :: rest) (by simp)
      rw [hcons, List.cons_append, hds, literalBody, if_neg hc, ← hds, ih]
      rfl

theorem next_quoted (cs : List Char) {rest : List Char} (h : Unquoted rest) :
    next (quoted cs ++ rest) = some (.literal cs, rest) := by
  have happend : quoted cs ++ rest = '\'' :: (doubled cs ++ '\'' :: rest) := by
    simp [quoted]
  have hblank : isBlank '\'' = false := rfl
  rw [next, happend, List.dropWhile_cons_of_neg (by rw [hblank]; decide)]
  simp only [if_true, literalBody_doubled cs h, Option.map_some]

end Literal

section Tokens

variable {n : Nat} {token : Token} {cs rest : List Char}

theorem tokens_cons {ts : List Token} (h : next cs = some (token, rest)) {final : List Char}
    (hrest : tokens n rest = some (ts, final)) : tokens (n + 1) cs = some (token :: ts, final) := by
  rw [tokens, h]
  simp only [Option.bind_eq_bind, Option.bind_some, hrest]

theorem next_blank {c : Char} (h : isBlank c = true) : next (c :: cs) = next cs := by
  rw [next, List.dropWhile_cons_of_pos h, next]

theorem next_symbol {c : Char} (hblank : isBlank c = false) (hquote : c ≠ '\'') (hword : isWordPart c = false) :
    next (c :: cs) = some (.symbol c, cs) := by
  rw [next, List.dropWhile_cons_of_neg (by rw [hblank]; decide)]
  simp only [if_neg hquote, hword, Bool.false_eq_true, if_false]

/-- A word that something else follows. -/
theorem next_word {c : Char} {word : List Char} (hword : (c :: word).all isWordPart = true)
    (hblank : isBlank c = false) (hquote : c ≠ '\'') (hend : ∀ d ∈ rest.head?, isWordPart d = false) :
    next (c :: word ++ rest) = some (.word (c :: word), rest) := by
  have hword := List.all_eq_true.mp hword
  have hall : ∀ d ∈ word, isWordPart d = true := fun d hd => hword d (List.mem_cons_of_mem _ hd)
  have htake : rest.takeWhile isWordPart = [] := by
    cases rest with
    | nil => rfl
    | cons d rest => exact List.takeWhile_cons_of_neg (by rw [hend d rfl]; decide)
  have hdrop : rest.dropWhile isWordPart = rest := by
    cases rest with
    | nil => rfl
    | cons d rest => exact List.dropWhile_cons_of_neg (by rw [hend d rfl]; decide)
  rw [next, List.cons_append, List.dropWhile_cons_of_neg (by rw [hblank]; decide)]
  simp only [if_neg hquote, hword c (List.mem_cons_self ..), if_true, List.takeWhile_append_of_pos hall,
    List.dropWhile_append_of_pos hall, htake, hdrop, List.append_nil]

theorem moreText_unquoted (xs : List (List Char)) (rest : List Char) : Unquoted (moreText xs ++ rest) := by
  cases xs with
  | nil => exact (by decide : some ')' ≠ some '\'')
  | cons y ys => exact (by decide : some ',' ≠ some '\'')

theorem moreText_cons (x : List Char) (xs : List (List Char)) (rest : List Char) :
    moreText (x :: xs) ++ rest = ',' :: ' ' :: (quoted x ++ (moreText xs ++ rest)) := by
  simp [moreText]

theorem tokens_moreText (xs : List (List Char)) (rest : List Char) :
    tokens (moreTokens xs).length (moreText xs ++ rest) = some (moreTokens xs, rest) := by
  induction xs with
  | nil => exact tokens_cons (next_symbol rfl (by decide) rfl) rfl
  | cons x xs ih =>
    have hliteral := next_quoted x (moreText_unquoted xs rest)
    rw [← next_blank (c := ' ') rfl] at hliteral
    rw [moreText_cons]
    exact tokens_cons (next_symbol rfl (by decide) rfl) (tokens_cons hliteral ih)

theorem tokens_listText (xs : List (List Char)) (rest : List Char) :
    tokens (listTokens xs).length (listText xs ++ rest) = some (listTokens xs, rest) := by
  cases xs with
  | nil => exact tokens_cons (next_symbol rfl (by decide) rfl) (tokens_cons (next_symbol rfl (by decide) rfl) rfl)
  | cons x xs =>
    rw [listText, List.cons_append, List.append_assoc]
    apply tokens_cons (next_symbol rfl (by decide) rfl)
    exact tokens_cons (next_quoted x (moreText_unquoted xs rest)) (tokens_moreText xs rest)

end Tokens

section Cancel

variable {rest rest' : List Char}

theorem quoted_cancel {x y : List Char} (hrest : Unquoted rest) (hrest' : Unquoted rest')
    (h : quoted x ++ rest = quoted y ++ rest') : x = y ∧ rest = rest' := by
  have hread := (next_quoted x hrest).symm.trans ((congrArg next h).trans (next_quoted y hrest'))
  obtain ⟨hliteral, hafter⟩ := Prod.mk.inj (Option.some.inj hread)
  exact ⟨Token.literal.inj hliteral, hafter⟩

theorem moreText_cancel {xs ys : List (List Char)} (h : moreText xs ++ rest = moreText ys ++ rest') :
    xs = ys ∧ rest = rest' := by
  induction xs generalizing ys with
  | nil =>
    cases ys with
    | nil => exact ⟨rfl, (List.cons.inj h).2⟩
    | cons y ys => exact absurd (List.cons.inj h).1 (by decide)
  | cons x xs ih =>
    cases ys with
    | nil => exact absurd (List.cons.inj h).1 (by decide)
    | cons y ys =>
      rw [moreText_cons, moreText_cons] at h
      have htail := (List.cons.inj (List.cons.inj h).2).2
      obtain ⟨rfl, hmore⟩ := quoted_cancel (moreText_unquoted xs rest) (moreText_unquoted ys rest') htail
      obtain ⟨rfl, hrest⟩ := ih hmore
      exact ⟨rfl, hrest⟩

theorem listText_cancel {xs ys : List (List Char)} (h : listText xs ++ rest = listText ys ++ rest') :
    xs = ys ∧ rest = rest' := by
  cases xs with
  | nil =>
    cases ys with
    | nil => exact ⟨rfl, (List.cons.inj (List.cons.inj h).2).2⟩
    | cons y ys => exact absurd (List.cons.inj (List.cons.inj h).2).1 (by decide)
  | cons x xs =>
    cases ys with
    | nil => exact absurd (List.cons.inj (List.cons.inj h).2).1 (by decide)
    | cons y ys =>
      rw [listText, listText, List.cons_append, List.cons_append, List.append_assoc, List.append_assoc] at h
      obtain ⟨rfl, hmore⟩ := quoted_cancel (moreText_unquoted xs rest) (moreText_unquoted ys rest') (List.cons.inj h).2
      obtain ⟨rfl, hrest⟩ := moreText_cancel hmore
      exact ⟨rfl, hrest⟩

end Cancel

end ContextqlServer.Lib.Literals
