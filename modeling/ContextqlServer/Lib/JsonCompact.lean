import Mathlib.Algebra.GroupWithZero.Nat
import ContextqlServer.Lib.JsonText

namespace ContextqlServer.Lib.JsonText

open ContextqlServer.Lib.Python

/-- The escapes of `json.dumps(value, ensure_ascii=False)`. -/
def escapeControl (c : Char) : List Char :=
  match c with
  | '"' => ['\\', '"']
  | '\\' => ['\\', '\\']
  | '\n' => ['\\', 'n']
  | '\r' => ['\\', 'r']
  | '\t' => ['\\', 't']
  | _ =>
    let n := c.toNat
    if n = 0x8 then ['\\', 'b']
    else if n = 0xc then ['\\', 'f']
    else if n < 0x20 then escapeUnit n
    else [c]

section Compact

variable (escape : Char → List Char) (T : FloatText)

def quotedChars (s : String) : List Char := '"' :: s.toList.flatMap escape ++ ['"']

mutual

/-- `json.dumps(value, separators=(",", ":"))` -/
def compactChars : Json → List Char
  | .null => "null".toList
  | .bool b => (if b then "true" else "false").toList
  | .int n => (toString n).toList
  | .float x => floatChars T x
  | .str s => quotedChars escape s
  | .arr [] => ['[', ']']
  | .arr (x :: xs) => '[' :: compactChars x ++ compactItems xs
  | .obj [] => ['\x7b', '\x7d']
  | .obj ((k, v) :: ms) => '\x7b' :: quotedChars escape k ++ ':' :: compactChars v ++ compactMembers ms

def compactItems : List Json → List Char
  | [] => [']']
  | x :: xs => ',' :: compactChars x ++ compactItems xs

def compactMembers : List (String × Json) → List Char
  | [] => ['\x7d']
  | (k, v) :: ms => ',' :: quotedChars escape k ++ ':' :: compactChars v ++ compactMembers ms

end

/-- `len(text.encode("utf-8"))` -/
def utf8Length (cs : List Char) : Nat := (cs.map Char.utf8Size).sum

theorem utf8Length_append (cs ds : List Char) : utf8Length (cs ++ ds) = utf8Length cs + utf8Length ds := by
  rw [utf8Length, List.map_append, List.sum_append]
  rfl

theorem utf8Length_cons (c : Char) (cs : List Char) : utf8Length (c :: cs) = c.utf8Size + utf8Length cs := by
  rw [utf8Length, List.map_cons, List.sum_cons, utf8Length]

/-- The bytes of a value in an encoding. -/
def encodedLength (j : Json) : Nat := utf8Length (compactChars escape T j)

theorem encodedLength_pair (k l : String) (a b : Json) :
    encodedLength escape T (.obj [(k, a), (l, b)]) =
      utf8Length (quotedChars escape k) + encodedLength escape T a +
        utf8Length (quotedChars escape l) + encodedLength escape T b + 5 := by
  have hopen : Char.utf8Size '\x7b' = 1 := rfl
  have hclose : Char.utf8Size '\x7d' = 1 := rfl
  have hcolon : Char.utf8Size ':' = 1 := rfl
  have hcomma : Char.utf8Size ',' = 1 := rfl
  have hnil : utf8Length [] = 0 := rfl
  simp only [encodedLength, compactChars, compactMembers, utf8Length_append, utf8Length_cons, List.cons_append,
    List.append_assoc, hopen, hclose, hcolon, hcomma, hnil]
  omega

theorem compactItems_length (xs : List Json) :
    utf8Length (compactItems escape T xs) = 1 + (xs.map (fun x => encodedLength escape T x + 1)).sum := by
  have hclose : Char.utf8Size ']' = 1 := rfl
  have hcomma : Char.utf8Size ',' = 1 := rfl
  have hnil : utf8Length [] = 0 := rfl
  induction xs with
  | nil => simp only [compactItems, utf8Length_cons, hclose, hnil, List.map_nil, List.sum_nil]
  | cons x xs ih =>
    simp only [compactItems, utf8Length_append, utf8Length_cons, List.cons_append, hcomma, List.map_cons,
      List.sum_cons, ih, encodedLength]
    omega

/-- An array has two brackets, and a comma before each item but the first. -/
theorem encodedLength_arr (xs : List Json) :
    encodedLength escape T (.arr xs) = max 2 (1 + (xs.map (fun x => encodedLength escape T x + 1)).sum) := by
  have hopen : Char.utf8Size '[' = 1 := rfl
  have hclose : Char.utf8Size ']' = 1 := rfl
  have hnil : utf8Length [] = 0 := rfl
  cases xs with
  | nil => simp [encodedLength, compactChars, utf8Length_cons, hopen, hclose, hnil]
  | cons x xs =>
    have hitems := compactItems_length escape T xs
    simp only [encodedLength, compactChars, utf8Length_append, utf8Length_cons, List.cons_append, hopen,
      List.map_cons, List.sum_cons] at hitems ⊢
    omega

end Compact

section Finite

mutual

/-- There is no `NaN` and no infinity in a value, at any depth. -/
def isFinite : Json → Bool
  | .float x => x ≠ .nan && x ≠ .inf false && x ≠ .inf true
  | .arr items => itemsFinite items
  | .obj members => membersFinite members
  | _ => true

def itemsFinite : List Json → Bool
  | [] => true
  | x :: xs => isFinite x && itemsFinite xs

def membersFinite : List (String × Json) → Bool
  | [] => true
  | (_, v) :: ms => isFinite v && membersFinite ms

end

theorem itemsFinite_iff {xs : List Json} : itemsFinite xs ↔ ∀ x ∈ xs, isFinite x := by
  induction xs with
  | nil => simp [itemsFinite]
  | cons x xs ih => simp [itemsFinite, ih]

theorem membersFinite_iff {ms : List (String × Json)} : membersFinite ms ↔ ∀ m ∈ ms, isFinite m.2 := by
  induction ms with
  | nil => simp [membersFinite]
  | cons m ms ih => simp [membersFinite, ih]

end Finite

end ContextqlServer.Lib.JsonText
