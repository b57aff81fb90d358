import ContextqlServer.Db.DdlClauses
import ContextqlServer.Db.Lifecycle

namespace ContextqlServer.Db.QualifiedNames

open ContextqlServer.Lib.Effect ContextqlServer.Lib.Literals
open ContextqlServer.Db.RestCatalog ContextqlServer.Db.RestCatalog.CatalogService
open ContextqlServer.Db.DdlClauses ContextqlServer.Db.Lifecycle

/-- A nonempty text of ASCII letters, digits and underscores that does not start with a digit. -/
structure Identifier (cs : List Char) : Prop where
  nonempty : cs ≠ []
  parts : ∀ c ∈ cs, c.isAlpha ∨ c.isDigit ∨ c = '_'
  start : ∀ c ∈ cs.head?, c.isDigit = false

/-- The context that a `CREATE CONTEXT` names: a word, or two words with a dot between them. -/
def contextOf (text : String) : Option (String × String) := do
  let (_, cs) ← tokens 2 text.toList
  match ← next cs with
  | (.word first, cs) =>
    match next cs with
    | some (.symbol '.', cs) =>
      match ← next cs with
      | (.word second, _) => some (.ofList second, .ofList first)
      | _ => none
    | _ => some (.ofList first, "default")
  | _ => none

/-- Exactly pairs of identifiers are accepted, their texts tell them apart, and the context that a
`CREATE CONTEXT` names is the one that is looked up. -/
structure Exact (name namespaceName : String) : Prop where
  accepted : (∃ q, qualified name namespaceName = .ok q) ↔ Identifier name.toList ∧ Identifier namespaceName.toList
  determined : ∀ q name' namespaceName', qualified name namespaceName = .ok q →
    qualified name' namespaceName' = .ok q → (name', namespaceName') = (name, namespaceName)
  looked_up : ∀ q body ddl, qualified name namespaceName = .ok q → createStatement q body = .ok ddl →
    contextOf ddl.text = some (name, namespaceName)

/-- Neither text ends in a newline, or one is no identifier even without it. -/
def Plain (name namespaceName : String) : Prop :=
  (name.toList.getLast? ≠ some '\n' ∧ namespaceName.toList.getLast? ≠ some '\n') ∨
    ¬ (Identifier (beforeNewline name.toList) ∧ Identifier (beforeNewline namespaceName.toList))

section Characters

variable {c : Char}

theorem isAlpha_iff : c.isAlpha = true ↔
    ('A'.val ≤ c.val ∧ c.val ≤ 'Z'.val) ∨ ('a'.val ≤ c.val ∧ c.val ≤ 'z'.val) := by
  change (decide (c.val ≥ 'A'.val ∧ c.val ≤ 'Z'.val) ||
    decide (c.val ≥ 'a'.val) && decide (c.val ≤ 'z'.val)) = true ↔ _
  simp only [Bool.or_eq_true, Bool.and_eq_true, decide_eq_true_eq, ge_iff_le]

theorem isIdentifierStart_iff : isIdentifierStart c = true ↔ c.isAlpha ∨ c = '_' := by
  simp only [isIdentifierStart, isAlpha_iff, Bool.or_eq_true, Bool.and_eq_true, decide_eq_true_eq, Char.le_def]

theorem isIdentifierPart_iff : isIdentifierPart c = true ↔ c.isAlpha ∨ c.isDigit ∨ c = '_' := by
  rw [isIdentifierPart, Bool.or_eq_true, isIdentifierStart_iff]
  have hdigit : (decide ('0' ≤ c) && decide (c ≤ '9')) = true ↔ c.isDigit = true := by
    simp only [Char.isDigit, Bool.and_eq_true, decide_eq_true_eq, ge_iff_le, Char.le_def]
  rw [hdigit]
  tauto

theorem isWordPart_iff : isWordPart c = true ↔ c.isAlpha ∨ c.isDigit ∨ c = '_' := by
  rw [isWordPart, Char.isAlphanum, Bool.or_eq_true, Bool.or_eq_true, decide_eq_true_eq, or_assoc]

theorem digit_not_start (h : c.isAlpha ∨ c = '_') : c.isDigit = false := by
  obtain h | rfl := h
  · simp only [isAlpha_iff, Char.isDigit, ge_iff_le, UInt32.le_iff_toNat_le] at h ⊢
    have hzero : '0'.val.toNat = 48 := rfl
    have hnine : '9'.val.toNat = 57 := rfl
    have hA : 'A'.val.toNat = 65 := rfl
    have ha : 'a'.val.toNat = 97 := rfl
    rw [Bool.and_eq_false_iff, decide_eq_false_iff_not, decide_eq_false_iff_not]
    omega
  · rfl

theorem wordPart_plain (h : isWordPart c = true) : isBlank c = false ∧ c ≠ '\'' ∧ c ≠ '\n' := by
  refine ⟨?_, ?_, ?_⟩
  · rw [Bool.eq_false_iff]
    intro hblank
    simp only [isBlank, Bool.or_eq_true, decide_eq_true_eq] at hblank
    obtain ((rfl | rfl) | rfl) | rfl := hblank <;> exact absurd h (by decide)
  · rintro rfl
    exact absurd h (by decide)
  · rintro rfl
    exact absurd h (by decide)

end Characters

section Identifiers

variable {cs : List Char} {name namespaceName q : String}

theorem Identifier.wordParts (h : Identifier cs) : ∀ c ∈ cs, isWordPart c = true :=
  fun c hc => isWordPart_iff.mpr (h.parts c hc)

theorem Identifier.getLast_ne (h : Identifier cs) : cs.getLast? ≠ some '\n' := by
  intro hlast
  exact (wordPart_plain (h.wordParts '\n' (List.mem_of_getLast? hlast))).2.2 rfl

theorem beforeNewline_of_ne (h : cs.getLast? ≠ some '\n') : beforeNewline cs = cs := if_neg h

/-- What the regular expression matches, in the terms of the grammar. -/
theorem identifier_iff {s : String} : identifier s = true ↔ Identifier (beforeNewline s.toList) := by
  rw [identifier]
  cases hs : s.toList with
  | nil => exact iff_of_false (by decide) (fun h => h.nonempty rfl)
  | cons c cs =>
    change (isIdentifierStart c && (beforeNewline cs).all isIdentifierPart) = true ↔ _
    rw [Bool.and_eq_true, List.all_eq_true, isIdentifierStart_iff]
    have hbefore :
        (c :: cs = ['\n'] ∧ beforeNewline (c :: cs) = []) ∨ beforeNewline (c :: cs) = c :: beforeNewline cs := by
      cases cs with
      | nil =>
        by_cases hc : c = '\n'
        · exact .inl ⟨by rw [hc], by rw [hc]; rfl⟩
        · right
          exact beforeNewline_of_ne (fun h => hc (Option.some.inj h))
      | cons d cs =>
        right
        rw [beforeNewline, beforeNewline, List.getLast?_cons_cons, List.dropLast_cons_cons]
        split <;> rfl
    obtain ⟨hnewline, hempty⟩ | hbefore := hbefore
    · obtain ⟨rfl, rfl⟩ := List.cons.inj hnewline
      rw [hempty]
      exact iff_of_false (fun h => absurd h.1 (by decide)) (fun h => h.nonempty rfl)
    · rw [hbefore]
      constructor
      · rintro ⟨hstart, hparts⟩
        refine ⟨List.cons_ne_nil _ _, ?_, ?_⟩
        · rw [List.forall_mem_cons]
          exact ⟨hstart.imp id .inr, fun d hd => isIdentifierPart_iff.mp (hparts d hd)⟩
        · rintro _ ⟨⟩
          exact digit_not_start hstart
      · intro h
        have hc := h.parts c (List.mem_cons_self ..)
        have hstart := h.start c rfl
        refine ⟨?_, fun d hd => isIdentifierPart_iff.mpr (h.parts d (List.mem_cons_of_mem _ hd))⟩
        rw [hstart] at hc
        tauto

theorem accepted_iff : (∃ q, qualified name namespaceName = .ok q) ↔
    Identifier (beforeNewline name.toList) ∧ Identifier (beforeNewline namespaceName.toList) := by
  rw [← identifier_iff, ← identifier_iff]
  constructor
  · rintro ⟨q, h⟩
    exact ⟨(qualified_ok h).1, (qualified_ok h).2.1⟩
  · rintro ⟨hname, hnamespace⟩
    rw [qualified, hname, hnamespace]
    exact ⟨_, rfl⟩

theorem plain_identifiers (hplain : Plain name namespaceName) (h : qualified name namespaceName = .ok q) :
    Identifier name.toList ∧ Identifier namespaceName.toList := by
  have haccepted := accepted_iff.mp ⟨q, h⟩
  obtain ⟨hname, hnamespace⟩ := hplain.resolve_right (not_not.mpr haccepted)
  rwa [beforeNewline_of_ne hname, beforeNewline_of_ne hnamespace] at haccepted

end Identifiers

section Reading

variable {cs rest : List Char}

theorem next_identifier (h : Identifier cs) (hend : ∀ d ∈ rest.head?, isWordPart d = false) :
    next (cs ++ rest) = some (.word cs, rest) := by
  obtain ⟨c, word, rfl⟩ := List.exists_cons_of_ne_nil h.nonempty
  obtain ⟨hblank, hquote, -⟩ := wordPart_plain (h.wordParts c (List.mem_cons_self ..))
  exact next_word (List.all_eq_true.mpr h.wordParts) hblank hquote hend

theorem createContext_text (q entityKey : String) (scoreColumn description : Option String) (tags : List String)
    (definitionText : String) : ∃ rest, (Ddl.createContext q entityKey scoreColumn description tags
      definitionText).text.toList = "CREATE CONTEXT ".toList ++ (q.toList ++ (" ON ".toList ++ rest)) := by
  unfold Ddl.text
  dsimp only
  simp only [toString, String.toList_append, List.append_assoc]
  exact ⟨_, rfl⟩

theorem tokens_createContext (cs : List Char) :
    tokens 2 ("CREATE CONTEXT ".toList ++ cs) =
      some ([.word "CREATE".toList, .word "CONTEXT".toList], ' ' :: cs) := by
  have hcreate : next ("CREATE".toList ++ (" CONTEXT ".toList ++ cs)) =
      some (.word "CREATE".toList, " CONTEXT ".toList ++ cs) :=
    next_word rfl rfl (by decide) (by rintro _ ⟨⟩; rfl)
  have hcontext : next ("CONTEXT".toList ++ ' ' :: cs) = some (.word "CONTEXT".toList, ' ' :: cs) :=
    next_word rfl rfl (by decide) (by rintro _ ⟨⟩; rfl)
  rw [← next_blank (c := ' ') rfl] at hcontext
  exact tokens_cons hcreate (tokens_cons hcontext rfl)

theorem next_on (rest : List Char) : next (" ON ".toList ++ rest) = some (.word "ON".toList, ' ' :: rest) := by
  change next (' ' :: ("ON".toList ++ ' ' :: rest)) = _
  rw [next_blank rfl]
  exact next_word rfl rfl (by decide) (by rintro _ ⟨⟩; rfl)

variable {text : String}

theorem contextOf_word (h : Identifier cs)
    (htext : text.toList = "CREATE CONTEXT ".toList ++ (cs ++ (" ON ".toList ++ rest))) :
    contextOf text = some (.ofList cs, "default") := by
  have hend : ∀ d ∈ (" ON ".toList ++ rest).head?, isWordPart d = false := by
    rintro _ ⟨⟩
    rfl
  rw [contextOf, htext, tokens_createContext]
  simp only [Option.bind_eq_bind, Option.bind_some, next_blank (c := ' ') rfl, next_identifier h hend, next_on]

theorem contextOf_words {first second : List Char} (hfirst : Identifier first) (hsecond : Identifier second)
    (htext : text.toList = "CREATE CONTEXT ".toList ++ (first ++ '.' :: (second ++ (" ON ".toList ++ rest)))) :
    contextOf text = some (.ofList second, .ofList first) := by
  have hdot : ∀ d ∈ ('.' :: (second ++ (" ON ".toList ++ rest))).head?, isWordPart d = false := by
    rintro _ ⟨⟩
    rfl
  have hend : ∀ d ∈ (" ON ".toList ++ rest).head?, isWordPart d = false := by
    rintro _ ⟨⟩
    rfl
  have hsymbol :
      next ('.' :: (second ++ (" ON ".toList ++ rest))) = some (.symbol '.', second ++ (" ON ".toList ++ rest)) :=
    next_symbol rfl (by decide) rfl
  rw [contextOf, htext, tokens_createContext]
  simp only [Option.bind_eq_bind, Option.bind_some, next_blank (c := ' ') rfl, next_identifier hfirst hdot, hsymbol,
    next_identifier hsecond hend]

end Reading

section Exactness

variable {name namespaceName q : String}

/-- What a qualified text of identifiers names in a `CREATE CONTEXT`. -/
theorem contextOf_qualified (hname : Identifier name.toList) (hnamespace : Identifier namespaceName.toList)
    (h : qualified name namespaceName = .ok q) {text : String} {rest : List Char}
    (htext : text.toList = "CREATE CONTEXT ".toList ++ (q.toList ++ (" ON ".toList ++ rest))) :
    contextOf text = some (name, namespaceName) := by
  obtain ⟨-, -, rfl⟩ := qualified_ok h
  split at htext
  · rename_i hdefault
    rw [contextOf_word hname htext, String.ofList_toList, hdefault]
  · have hq : (s!"{namespaceName}.{name}").toList = namespaceName.toList ++ '.' :: name.toList := by
      simp [toString]
    rw [hq, List.append_assoc, List.cons_append] at htext
    rw [contextOf_words hnamespace hname htext, String.ofList_toList, String.ofList_toList]

theorem determined_of_qualified {name' namespaceName' : String} (h : qualified name namespaceName = .ok q)
    (h' : qualified name' namespaceName' = .ok q) : (name', namespaceName') = (name, namespaceName) :=
  (resolve_qualified h').symm.trans (resolve_qualified h)

/-- Names are exactly identifiers unless an accepted one ends in a newline. -/
theorem exact_iff (name namespaceName : String) : Exact name namespaceName ↔ Plain name namespaceName := by
  constructor
  · intro h
    by_cases haccepted : Identifier (beforeNewline name.toList) ∧ Identifier (beforeNewline namespaceName.toList)
    · obtain ⟨hname, hnamespace⟩ := h.accepted.mp (accepted_iff.mpr haccepted)
      exact .inl ⟨hname.getLast_ne, hnamespace.getLast_ne⟩
    · exact .inr haccepted
  · intro hplain
    refine ⟨?_, fun q _ _ => determined_of_qualified, ?_⟩
    · constructor
      · rintro ⟨q, h⟩
        exact plain_identifiers hplain h
      · rintro ⟨hname, hnamespace⟩
        rw [accepted_iff, beforeNewline_of_ne hname.getLast_ne, beforeNewline_of_ne hnamespace.getLast_ne]
        exact ⟨hname, hnamespace⟩
    · intro q body ddl h hddl
      obtain ⟨hname, hnamespace⟩ := plain_identifiers hplain h
      obtain ⟨rfl, -⟩ := createStatement_ok hddl
      obtain ⟨rest, htext⟩ := createContext_text q body.entityKey _ _ _ body.definitionText
      exact contextOf_qualified hname hnamespace h htext

/-- A name with a newline at its end is accepted. -/
theorem newline_accepted : ¬ Exact "desk\n" "default" := by
  intro h
  have haccepted : qualified "desk\n" "default" = .ok "desk\n" := by decide
  obtain ⟨hname, -⟩ := h.accepted.mp ⟨_, haccepted⟩
  exact hname.getLast_ne (by decide)

end Exactness

end ContextqlServer.Db.QualifiedNames
