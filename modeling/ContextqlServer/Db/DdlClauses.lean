import ContextqlServer.Db.RestCatalog
import ContextqlServer.Lib.Literals

namespace ContextqlServer.Db.DdlClauses

open ContextqlServer.Lib.Effect ContextqlServer.Lib.Literals ContextqlServer.Db.RestCatalog
open ContextqlServer.Db.RestCatalog.CatalogService

theorem literal_toList (value : String) : (literal value).toList = quoted value.toList := by
  simp only [literal, String.toList_append, String.toList_ofList]
  rfl

theorem literals_toList (values : List String) :
    '(' :: (literals values).toList ++ [')'] = listText (values.map String.toList) := by
  cases values with
  | nil => rfl
  | cons value values =>
    have hmore : ∀ (value : String) (values : List String), (literals (value :: values)).toList ++ [')'] =
        quoted value.toList ++ moreText (values.map String.toList) := by
      intro value values
      induction values generalizing value with
      | nil =>
        simp [literals, literal_toList, moreText]
      | cons next values ih =>
        have hcons : literals (value :: next :: values) = literal value ++ ", " ++ literals (next :: values) := by
          simp [literals, String.intercalate_cons_cons]
        have hmoreText : moreText ((next :: values).map String.toList) =
            ", ".toList ++ (quoted next.toList ++ moreText (values.map String.toList)) := by
          simp [moreText]
        rw [hcons, String.toList_append, String.toList_append, List.append_assoc, ih, literal_toList,
          List.append_assoc, hmoreText]
    rw [List.map_cons, listText, ← hmore, List.cons_append]

/-- A clause with a description, after the character that the service writes before it. -/
def descriptionClause (lead : Char) (description : String) : List Char :=
  lead :: "DESCRIPTION ".toList ++ (literal description).toList

def tagsClause (lead : Char) (tags : List String) : List Char :=
  lead :: "TAGS (".toList ++ (literals tags).toList ++ [')']

/-- The tokens of the clauses: a keyword and exactly the texts given. -/
def descriptionTokens (description : String) : List Token := [.word "DESCRIPTION".toList, .literal description.toList]

def tagsTokens (tags : List String) : List Token := .word "TAGS".toList :: listTokens (tags.map String.toList)

def ReadsAs (clause : List Char) (ts : List Token) (after : List Char) : Prop :=
  tokens ts.length (clause ++ after) = some (ts, after)

def described (body : ContextCreate) (description : String) (tags : List String) : ContextCreate :=
  { body with description := some description, tags := some tags }

def redescribed (u : ContextUpdate) (description : String) (tags : List String) : ContextUpdate :=
  { u with description := some (some description), tags := some (some tags) }

section Clauses

variable {after : List Char}

theorem tagsClause_eq (lead : Char) (tags : List String) :
    tagsClause lead tags = lead :: "TAGS ".toList ++ listText (tags.map String.toList) := by
  rw [← literals_toList]
  rfl

theorem descriptionClause_eq (lead : Char) (description : String) :
    descriptionClause lead description = lead :: "DESCRIPTION ".toList ++ quoted description.toList := by
  rw [descriptionClause, literal_toList]

theorem descriptionClause_reads {lead : Char} (hlead : isBlank lead = true) (description : String)
    (hafter : Unquoted after) :
    ReadsAs (descriptionClause lead description) (descriptionTokens description) after := by
  have hkeyword : next (descriptionClause lead description ++ after) =
      some (.word "DESCRIPTION".toList, ' ' :: (quoted description.toList ++ after)) := by
    rw [descriptionClause_eq, List.append_assoc, List.cons_append, next_blank hlead]
    change next ("DESCRIPTION".toList ++ ' ' :: (quoted description.toList ++ after)) = _
    exact next_word rfl rfl (by decide) (by rintro _ ⟨⟩; rfl)
  apply tokens_cons hkeyword
  have hliteral := next_quoted description.toList hafter
  rw [← next_blank (c := ' ') rfl] at hliteral
  exact tokens_cons hliteral rfl

theorem tagsClause_reads {lead : Char} (hlead : isBlank lead = true) (tags : List String) (after : List Char) :
    ReadsAs (tagsClause lead tags) (tagsTokens tags) after := by
  have hkeyword : next (tagsClause lead tags ++ after) =
      some (.word "TAGS".toList, ' ' :: (listText (tags.map String.toList) ++ after)) := by
    rw [tagsClause_eq, List.append_assoc, List.cons_append, next_blank hlead]
    change next ("TAGS".toList ++ ' ' :: (listText (tags.map String.toList) ++ after)) = _
    exact next_word rfl rfl (by decide) (by rintro _ ⟨⟩; rfl)
  apply tokens_cons hkeyword
  have hlist := tokens_listText (tags.map String.toList) after
  cases tags with
  | nil => exact hlist
  | cons tag tags => exact hlist

theorem descriptionClause_cancel {lead : Char} {d d' : String} {after after' : List Char} (hafter : Unquoted after)
    (hafter' : Unquoted after') (h : descriptionClause lead d ++ after = descriptionClause lead d' ++ after') :
    d = d' ∧ after = after' := by
  rw [descriptionClause_eq, descriptionClause_eq, List.append_assoc, List.append_assoc] at h
  obtain ⟨hd, hrest⟩ := quoted_cancel hafter hafter' (List.append_cancel_left h)
  exact ⟨String.toList_inj.mp hd, hrest⟩

theorem tagsClause_cancel {lead : Char} {tags tags' : List String} {after after' : List Char}
    (h : tagsClause lead tags ++ after = tagsClause lead tags' ++ after') : tags = tags' ∧ after = after' := by
  rw [tagsClause_eq, tagsClause_eq, List.append_assoc, List.append_assoc] at h
  obtain ⟨htags, hrest⟩ := listText_cancel (List.append_cancel_left h)
  exact ⟨List.map_injective_iff.mpr (fun _ _ => String.toList_inj.mp) htags, hrest⟩

end Clauses

section Create

variable {q : String} {body : ContextCreate} {d d' : String} {tags tags' : List String} {ddl ddl' : Ddl}

def scoreOf (body : ContextCreate) : Option String := if body.hasScore then truthy body.scoreColumn else none

/-- What stands before the two clauses of a `CREATE CONTEXT`. -/
def createHead (q : String) (body : ContextCreate) : List Char :=
  (s!"CREATE CONTEXT {q} ON {body.entityKey}" ++ (scoreOf body).elim "" (fun c => s!"\nSCORE {c}")).toList

/-- What stands after them. -/
def createTail (body : ContextCreate) : List Char :=
  '\n' :: "AS ".toList ++ (rstripSemicolons body.definitionText).toList ++ [';']

theorem createStatement_described (hd : d ≠ "")
    (h : createStatement q (described body d tags) = .ok ddl) :
    ddl = .createContext q body.entityKey (scoreOf body) (some d) tags body.definitionText := by
  have htruthy : truthy (some d) = some d := by
    simp [truthy, Option.filter, hd]
  rw [(createStatement_ok h).1]
  change Ddl.createContext q body.entityKey (scoreOf body) (truthy (some d)) tags body.definitionText = _
  rw [htruthy]

/-- The text of a `CREATE CONTEXT` with its clauses. -/
theorem create_text (hd : d ≠ "") (htags : tags ≠ []) (h : createStatement q (described body d tags) = .ok ddl) :
    ddl.text.toList = createHead q body ++
      (descriptionClause '\n' d ++ (tagsClause '\n' tags ++ createTail body)) := by
  have hdescription : "\nDESCRIPTION ".toList = '\n' :: "DESCRIPTION ".toList := rfl
  have htagsWord : "\nTAGS (".toList = '\n' :: "TAGS (".toList := rfl
  have has : "\nAS ".toList = '\n' :: "AS ".toList := rfl
  have hclose : ")".toList = [')'] := rfl
  have hend : ";".toList = [';'] := rfl
  rw [createStatement_described hd h]
  unfold Ddl.text
  dsimp only
  simp only [if_neg htags, Option.elim_some, toString, String.toList_append, createHead, descriptionClause,
    tagsClause, createTail, hdescription, htagsWord, has, hclose, hend, List.append_assoc, List.cons_append]

/-- With the other arguments fixed, the text of a `CREATE CONTEXT` determines both clauses. -/
theorem create_injective (hd : d ≠ "") (hd' : d' ≠ "") (htags : tags ≠ []) (htags' : tags' ≠ [])
    (h : createStatement q (described body d tags) = .ok ddl)
    (h' : createStatement q (described body d' tags') = .ok ddl') (htext : ddl.text = ddl'.text) :
    d = d' ∧ tags = tags' := by
  have hlists := congrArg String.toList htext
  rw [create_text hd htags h, create_text hd' htags' h'] at hlists
  have hunquoted : ∀ tags : List String, Unquoted (tagsClause '\n' tags ++ createTail body) :=
    fun _ => (by decide : some '\n' ≠ some '\'')
  obtain ⟨rfl, hrest⟩ :=
    descriptionClause_cancel (hunquoted tags) (hunquoted tags') (List.append_cancel_left hlists)
  exact ⟨rfl, (tagsClause_cancel hrest).1⟩

end Create

section Update

variable {q : String} {u : ContextUpdate} {d d' : String} {tags tags' : List String}

def alterHead (q : String) : List Char := s!"ALTER CONTEXT {q} SET".toList

theorem setDescription_text (q d : String) :
    (Ddl.setDescription q d).text.toList = alterHead q ++ (descriptionClause ' ' d ++ [';']) := by
  have hset : " SET DESCRIPTION ".toList = " SET".toList ++ ' ' :: "DESCRIPTION ".toList := rfl
  have hend : ";".toList = [';'] := rfl
  unfold Ddl.text
  dsimp only
  simp only [toString, String.toList_append, alterHead, descriptionClause, hset, hend, List.append_assoc,
    List.cons_append]

theorem setTags_text (q : String) (tags : List String) :
    (Ddl.setTags q tags).text.toList = alterHead q ++ (tagsClause ' ' tags ++ [';']) := by
  have hset : " SET TAGS (".toList = " SET".toList ++ ' ' :: "TAGS (".toList := rfl
  have hend : ");".toList = [')', ';'] := rfl
  unfold Ddl.text
  dsimp only
  simp only [toString, String.toList_append, alterHead, tagsClause, hset, hend, List.append_assoc,
    List.cons_append, List.nil_append]

theorem alterations_redescribed (q : String) (u : ContextUpdate) :
    ∃ front back, ∀ d tags, alterations q (redescribed u d tags) =
      front ++ Ddl.setDescription q d :: Ddl.setTags q tags :: back := by
  refine ⟨u.definitionText.elim [] (fun d => [.setDefinition q (d.getD "")]),
    u.scoreColumn.elim [] (fun s => [(truthy s).elim (.dropScore q) (.setScore q)]), ?_⟩
  intro d tags
  rw [alterations, List.append_assoc, List.append_assoc]
  rfl

theorem update_injective (h : (alterations q (redescribed u d tags)).map Ddl.text =
    (alterations q (redescribed u d' tags')).map Ddl.text) : d = d' ∧ tags = tags' := by
  obtain ⟨front, back, hstatements⟩ := alterations_redescribed q u
  rw [hstatements, hstatements, List.map_append, List.map_append] at h
  have htexts := List.append_cancel_left h
  have hend : Unquoted [';'] := (by decide : some ';' ≠ some '\'')
  have hdescription := congrArg String.toList (List.cons.inj htexts).1
  rw [setDescription_text, setDescription_text] at hdescription
  have htags := congrArg String.toList (List.cons.inj (List.cons.inj htexts).2).1
  rw [setTags_text, setTags_text] at htags
  exact ⟨(descriptionClause_cancel hend hend (List.append_cancel_left hdescription)).1,
    (tagsClause_cancel (List.append_cancel_left htags)).1⟩

end Update

/-- The two clauses of a text, each with what stands before and after it, read as exactly the
description and the tags given. -/
structure Contained (lead : Char) (d : String) (tags : List String) (afterDescription afterTags : List Char) : Prop where
  description : ReadsAs (descriptionClause lead d) (descriptionTokens d) afterDescription
  tags : ReadsAs (tagsClause lead tags) (tagsTokens tags) afterTags

section ReadBack

variable {q : String} {d d' : String} {tags tags' : List String}

/-- The clauses of `create` and `update` read back, and tell descriptions and tags apart. -/
theorem clauses_read_back (q : String) (hd : d ≠ "") (htags : tags ≠ []) (hd' : d' ≠ "") (htags' : tags' ≠ [])
    (body : ContextCreate) (u : ContextUpdate) :
    (∀ ddl, createStatement q (described body d tags) = .ok ddl →
      ddl.text.toList = createHead q body ++
        (descriptionClause '\n' d ++ (tagsClause '\n' tags ++ createTail body)) ∧
      Contained '\n' d tags (tagsClause '\n' tags ++ createTail body) (createTail body) ∧
      (tagsClause '\n' tags ++ createTail body).head? = some '\n' ∧ (createTail body).head? = some '\n') ∧
    (Ddl.setDescription q d ∈ alterations q (redescribed u d tags) ∧
      (Ddl.setDescription q d).text.toList = alterHead q ++ (descriptionClause ' ' d ++ [';']) ∧
      Ddl.setTags q tags ∈ alterations q (redescribed u d tags) ∧
      (Ddl.setTags q tags).text.toList = alterHead q ++ (tagsClause ' ' tags ++ [';']) ∧
      Contained ' ' d tags [';'] [';']) ∧
    (∀ ddl ddl', createStatement q (described body d tags) = .ok ddl →
      createStatement q (described body d' tags') = .ok ddl' → (d, tags) ≠ (d', tags') → ddl.text ≠ ddl'.text) ∧
    ((d, tags) ≠ (d', tags') → (alterations q (redescribed u d tags)).map Ddl.text ≠
      (alterations q (redescribed u d' tags')).map Ddl.text) := by
  have hend : Unquoted [';'] := (by decide : some ';' ≠ some '\'')
  refine ⟨?_, ?_, ?_, ?_⟩
  · intro ddl h
    refine ⟨create_text hd htags h, ⟨?_, ?_⟩, rfl, rfl⟩
    · exact descriptionClause_reads rfl d (by decide : some '\n' ≠ some '\'')
    · exact tagsClause_reads rfl tags _
  · obtain ⟨front, back, hstatements⟩ := alterations_redescribed q u
    rw [hstatements]
    refine ⟨by simp, setDescription_text q d, by simp, setTags_text q tags, ?_⟩
    exact ⟨descriptionClause_reads rfl d hend, tagsClause_reads rfl tags _⟩
  · intro ddl ddl' h h' hne htext
    obtain ⟨rfl, rfl⟩ := create_injective hd hd' htags htags' h h' htext
    exact hne rfl
  · intro hne htexts
    obtain ⟨rfl, rfl⟩ := update_injective htexts
    exact hne rfl

/-- Texts made of quotes, commas and the like. -/
theorem clauses_read_back_sample :
    "a', 'b" ≠ "" ∧ Contained ' ' "a', 'b" ["", "')", "--\n;"] [';'] [';'] :=
  ⟨by decide, (clauses_read_back (d := "a', 'b") "desk" (by decide) (by decide : ["", "')", "--\n;"] ≠ [])
    (by decide : "'" ≠ "") (by decide : ["'"] ≠ [])
    ⟨"desk", "SELECT 1", "id", "default", false, none, none, none, "internal"⟩
    ⟨none, none, none, none, none, none, none⟩).2.1.2.2.2.2⟩

end ReadBack

end ContextqlServer.Db.DdlClauses
