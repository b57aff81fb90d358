import ContextqlServer.Lib.Python

namespace ContextqlServer.Lib.JsonText

open ContextqlServer.Lib.Python

inductive Json where
  | null
  | bool (b : Bool)
  | int (n : Int)
  | float (x : Float64)
  | str (s : String)
  | arr (items : List Json)
  | obj (members : List (String × Json))

/-- The text of a double: `repr(x)`, and the double that a literal denotes. -/
structure FloatText where
  repr : Float64 → String
  parse : String → Float64

section Write

def hexDigits : Nat → Nat → List Char
  | 0, _ => []
  | width + 1, n => hexDigits width (n / 16) ++ [(n % 16).digitChar]

def escapeUnit (n : Nat) : List Char := '\\' :: 'u' :: hexDigits 4 n

/-- Everything outside printable ASCII is escaped, in two units beyond the
basic plane. -/
def escapeChar (c : Char) : List Char :=
  match c with
  | '"' => ['\\', '"']
  | '\\' => ['\\', '\\']
  | '\n' => ['\\', 'n']
  | '\r' => ['\\', 'r']
  | '\t' => ['\\', 't']
  | _ =>
    let n := c.toNat
    if n = 0x8 then ['\\', 'b']
    else if n = 0xc then ['\\', 'f']
    else if 0x20 ≤ n ∧ n ≤ 0x7e then [c]
    else if n < 0x10000 then escapeUnit n
    else escapeUnit (0xd800 + (n - 0x10000) / 0x400) ++ escapeUnit (0xdc00 + (n - 0x10000) % 0x400)

def strText (s : String) : List Char := '"' :: s.toList.flatMap escapeChar ++ ['"']

def floatChars (T : FloatText) : Float64 → List Char
  | .nan => "NaN".toList
  | .inf negative => (if negative then "-Infinity" else "Infinity").toList
  | x => (T.repr x).toList

mutual

def chars (T : FloatText) : Json → List Char
  | .null => "null".toList
  | .bool b => (if b then "true" else "false").toList
  | .int n => (toString n).toList
  | .float x => floatChars T x
  | .str s => strText s
  | .arr [] => ['[', ']']
  | .arr (x :: xs) => '[' :: chars T x ++ itemsChars T xs
  | .obj [] => ['\x7b', '\x7d']
  | .obj ((k, v) :: ms) => '\x7b' :: strText k ++ ": ".toList ++ chars T v ++ membersChars T ms

def itemsChars (T : FloatText) : List Json → List Char
  | [] => [']']
  | x :: xs => ", ".toList ++ chars T x ++ itemsChars T xs

def membersChars (T : FloatText) : List (String × Json) → List Char
  | [] => ['\x7d']
  | (k, v) :: ms => ", ".toList ++ strText k ++ ": ".toList ++ chars T v ++ membersChars T ms

end

def dumps (T : FloatText) (j : Json) : String := .ofList (chars T j)

end Write

section Read

def skipBlank (cs : List Char) : List Char :=
  cs.dropWhile (fun c => c ∈ [' ', '\t', '\n', '\r'])

def hexValue (c : Char) : Option Nat :=
  if c.isDigit then some (c.toNat - 48)
  else if 'a' ≤ c ∧ c ≤ 'f' then some (c.toNat - 87)
  else if 'A' ≤ c ∧ c ≤ 'F' then some (c.toNat - 55)
  else none

def hexUnit (a b c d : Char) : Option Nat := do
  some (((((← hexValue a) * 16 + (← hexValue b)) * 16) + (← hexValue c)) * 16 + (← hexValue d))

def escapes : List (Char × Char) :=
  [('"', '"'), ('\\', '\\'), ('/', '/'), ('b', '\x08'), ('f', '\x0c'), ('n', '\n'), ('r', '\r'),
    ('t', '\t')]

def parseUnit : List Char → Option (Nat × List Char)
  | a :: b :: c :: d :: cs => (hexUnit a b c d).map (fun n => (n, cs))
  | _ => none

/-- An escape after its backslash. Two surrogates that form a pair are one
character; a lone one is no text and not read. -/
def parseEscape : List Char → Option (Char × List Char)
  | 'u' :: cs => do
    let (n, cs) ← parseUnit cs
    if 0xd800 ≤ n ∧ n < 0xdc00 then
      match cs with
      | '\\' :: 'u' :: cs =>
        let (n', cs) ← parseUnit cs
        if 0xdc00 ≤ n' ∧ n' < 0xe000 then
          some (Char.ofNat (0x10000 + (n - 0xd800) * 0x400 + (n' - 0xdc00)), cs)
        else none
      | _ => none
    else if n.isValidChar then some (Char.ofNat n, cs)
    else none
  | c :: cs => (escapes.lookup c).map (fun e => (e, cs))
  | [] => none

/-- The rest of a string after its opening quote. -/
def parseStr : Nat → List Char → Option (List Char × List Char)
  | 0, _ => none
  | _ + 1, '"' :: cs => some ([], cs)
  | fuel + 1, '\\' :: cs => do
    let (c, cs) ← parseEscape cs
    let (s, cs) ← parseStr fuel cs
    some (c :: s, cs)
  | fuel + 1, c :: cs =>
    if c.toNat < 0x20 then none else (parseStr fuel cs).map (fun r => (c :: r.1, r.2))
  | _ + 1, [] => none

/-- The characters of `cs` up to the end of a fraction or an exponent, or none of
them where there is no digit after `mark`. -/
def suffix (mark : List Char) (cs : List Char) : List Char :=
  match cs with
  | m :: cs =>
    let sign := match cs with
      | c :: _ => if c ∈ ['+', '-'] ∧ m ≠ '.' then [c] else []
      | [] => []
    let ds := (cs.drop sign.length).takeWhile Char.isDigit
    if m ∈ mark ∧ ds ≠ [] then m :: sign ++ ds else []
  | [] => []

/-- `-?(0|[1-9][0-9]*)(\.[0-9]+)?([eE][-+]?[0-9]+)?` -/
def parseNumber (T : FloatText) (cs : List Char) : Option (Json × List Char) :=
  let (sign, cs) := match cs with
    | '-' :: cs => (['-'], cs)
    | _ => ([], cs)
  let whole := match cs with
    | '0' :: _ => ['0']
    | _ => cs.takeWhile Char.isDigit
  let cs := cs.drop whole.length
  let fraction := suffix ['.'] cs
  let cs := cs.drop fraction.length
  let exponent := suffix ['e', 'E'] cs
  let n : Int := Nat.ofDigitChars 10 whole 0
  if whole = [] then none
  else if fraction = [] ∧ exponent = [] then some (.int (if sign = [] then n else -n), cs)
  else some (.float (T.parse (.ofList (sign ++ whole ++ fraction ++ exponent))),
    cs.drop exponent.length)

def literals : List (List Char × Json) :=
  [("null".toList, .null), ("true".toList, .bool true), ("false".toList, .bool false),
    ("NaN".toList, .float .nan), ("Infinity".toList, .float (.inf false)),
    ("-Infinity".toList, .float (.inf true))]

def parseAtom (T : FloatText) (cs : List Char) : Option (Json × List Char) :=
  match literals.find? (fun p => p.1.isPrefixOf cs) with
  | some p => some (p.2, cs.drop p.1.length)
  | none => parseNumber T cs

/-- A repeated key keeps its place and takes the later value. -/
def assign (k : String) (v : Json) : List (String × Json) → List (String × Json)
  | [] => [(k, v)]
  | m :: ms => if m.1 = k then (k, v) :: ms else m :: assign k v ms

mutual

def parseValue (T : FloatText) : Nat → List Char → Option (Json × List Char)
  | 0, _ => none
  | fuel + 1, '"' :: cs => (parseStr fuel cs).map (fun r => (.str (.ofList r.1), r.2))
  | fuel + 1, '[' :: cs =>
    match skipBlank cs with
    | ']' :: cs => some (.arr [], cs)
    | cs => (parseItems T fuel cs).map (fun r => (.arr r.1, r.2))
  | fuel + 1, '\x7b' :: cs =>
    match skipBlank cs with
    | '\x7d' :: cs => some (.obj [], cs)
    | cs => (parseMembers T fuel [] cs).map (fun r => (.obj r.1, r.2))
  | _ + 1, cs => parseAtom T cs

/-- The items up to the closing bracket, one at least. -/
def parseItems (T : FloatText) : Nat → List Char → Option (List Json × List Char)
  | 0, _ => none
  | fuel + 1, cs => do
    let (x, cs) ← parseValue T fuel cs
    match skipBlank cs with
    | ']' :: cs => some ([x], cs)
    | ',' :: cs => (parseItems T fuel (skipBlank cs)).map (fun r => (x :: r.1, r.2))
    | _ => none

/-- The members up to the closing brace, one at least, after those of `ms`. -/
def parseMembers (T : FloatText) :
    Nat → List (String × Json) → List Char → Option (List (String × Json) × List Char)
  | 0, _, _ => none
  | fuel + 1, ms, '"' :: cs => do
    let (k, cs) ← parseStr fuel cs
    match skipBlank cs with
    | ':' :: cs =>
      let (v, cs) ← parseValue T fuel (skipBlank cs)
      let ms := assign (.ofList k) v ms
      match skipBlank cs with
      | '\x7d' :: cs => some (ms, cs)
      | ',' :: cs => parseMembers T fuel ms (skipBlank cs)
      | _ => none
    | _ => none
  | _ + 1, _, _ => none

end

/-- `json.loads(text)`, with `none` for the `JSONDecodeError`. -/
def loads (T : FloatText) (text : String) : Option Json := do
  let cs := skipBlank text.toList
  let (j, cs) ← parseValue T (2 * cs.length + 1) cs
  if skipBlank cs = [] then some j else none

end Read

end ContextqlServer.Lib.JsonText
