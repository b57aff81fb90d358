import ContextqlServer.Db.AtomicUpdates
import ContextqlServer.Lib.JsonRead

namespace ContextqlServer.Db.ReadBack

open ContextqlServer.Lib.Effect ContextqlServer.Lib.JsonRead ContextqlServer.Lib.JsonText ContextqlServer.Lib.Python
open ContextqlServer.Lib.Sql
open ContextqlServer.Db.Schema ContextqlServer.Db.Statements ContextqlServer.Db.Services
open ContextqlServer.Db.RestCatalog ContextqlServer.Db.RestCatalog.CatalogService
open ContextqlServer.Db.Lifecycle ContextqlServer.Db.LanguageEngine
open ContextqlServer.Db.Calls (sampleConnection samplePackages)

section Fields

/-- What a client writes of a context, and reads of it. -/
structure Fields where
  definitionText : Option String
  entityKey : Option String
  hasScore : Option Bool
  scoreColumn : Option String
  description : Option String
  tags : Option Parsed
  classification : Option String

/-- A list of tags as a client reads it. -/
def tagList (tags : List String) : Parsed := .json (.arr (tags.map .str))

def shown (x : Context) : Fields where
  definitionText := some x.row.definitionText
  entityKey := x.row.entityKey
  hasScore := some x.hasScore
  scoreColumn := x.row.scoreColumn
  description := x.row.description
  tags := x.tags
  classification := x.row.classification

def written (body : ContextCreate) : Fields where
  definitionText := some body.definitionText
  entityKey := some body.entityKey
  hasScore := some body.hasScore
  scoreColumn := body.scoreColumn
  description := body.description
  tags := body.tags.map tagList
  classification := some body.classification

def Fields.write (f : Fields) (u : ContextUpdate) : Fields where
  definitionText := u.definitionText.getD f.definitionText
  entityKey := u.entityKey.getD f.entityKey
  hasScore := u.hasScore.getD f.hasScore
  scoreColumn := u.scoreColumn.getD f.scoreColumn
  description := u.description.getD f.description
  tags := (u.tags.map (Option.map tagList)).getD f.tags
  classification := u.classification.getD f.classification

def Writes (u : ContextUpdate) : Prop :=
  u.definitionText.isSome ∨ u.entityKey.isSome ∨ u.hasScore.isSome ∨ u.scoreColumn.isSome ∨ u.description.isSome ∨
    u.tags.isSome ∨ u.classification.isSome

/-- The fields that an update sends to the engine. -/
def sent (u : ContextUpdate) : List Bool :=
  [u.definitionText.isSome, u.description.isSome, u.tags.isSome, u.scoreColumn.isSome]

theorem length_alterations (q : String) (u : ContextUpdate) : (alterations q u).length = (sent u).count true := by
  obtain ⟨definitionText, entityKey, hasScore, scoreColumn, description, tags, classification⟩ := u
  cases definitionText <;> cases description <;> cases tags <;> cases scoreColumn <;> rfl

end Fields

section Engine

variable (T : FloatText)

/-- What `CREATE CONTEXT` stores: what it is given, and the defaults of the other columns. -/
def stored (untagged : Option Parsed) (entityKey : String) (scoreColumn description : Option String) (tags : List String)
    (definitionText : String) : Fields where
  definitionText := some (rstripSemicolons definitionText)
  entityKey := some entityKey
  hasScore := some scoreColumn.isSome
  scoreColumn
  description
  tags := if tags = [] then untagged else some (tagList tags)
  classification := some "internal"

/-- What an `ALTER` changes. -/
def Fields.alter (f : Fields) : Ddl → Fields
  | .setDefinition _ definitionText => { f with definitionText := some (rstripSemicolons definitionText) }
  | .setDescription _ description => { f with description := some description }
  | .setTags _ tags => { f with tags := some (tagList tags) }
  | .setScore _ column => { f with hasScore := some true, scoreColumn := some column }
  | .dropScore _ => { f with hasScore := some false, scoreColumn := none }
  | _ => f

def shownAt (name namespaceName : String) (c : Connection catalog) : Option (Int × Fields) :=
  (latestNamed c.pending name namespaceName).map (fun r => (r.version, shown (rowToDict T r)))

/-- What is relied on of the engine, for the statements whose texts it reads as they are meant. -/
structure Stores (untagged : Option Parsed) (plain : Ddl → Prop) (E : Engine) : Prop where
  creates : ∀ {q entityKey scoreColumn description tags definitionText c c' name namespaceName},
    plain (.createContext q entityKey scoreColumn description tags definitionText) → resolve q = (name, namespaceName) →
    E.execute (.createContext q entityKey scoreColumn description tags definitionText) c = (.ok (), c') →
    shownAt T name namespaceName c' = some (1, stored untagged entityKey scoreColumn description tags definitionText)
  alters : ∀ {ddl c c' name namespaceName v f}, plain ddl → resolve (target ddl) = (name, namespaceName) →
    IsAlteration ddl → E.execute ddl c = (.ok (), c') → shownAt T name namespaceName c = some (v, f) →
    shownAt T name namespaceName c' = some (v + 1, f.alter ddl)
  setsState : ∀ {q state c c' name namespaceName}, plain (.setState q state) →
    E.execute (.setState q state) c = (.ok (), c') → shownAt T name namespaceName c' = shownAt T name namespaceName c
  elsewhere : ∀ {ddl c c' name namespaceName}, plain ddl → resolve (target ddl) ≠ (name, namespaceName) →
    E.execute ddl c = (.ok (), c') → shownAt T name namespaceName c' = shownAt T name namespaceName c

variable {T}

theorem shownAt_contexts {c c' : Connection catalog} {name namespaceName : String}
    (h : c'.pending.contexts = c.pending.contexts) :
    shownAt T name namespaceName c' = shownAt T name namespaceName c := by
  rw [shownAt, shownAt, latestNamed_contexts h]

/-- What the alterations of an update come to. -/
def applied (f : Fields) (u : ContextUpdate) : Fields where
  definitionText := u.definitionText.elim f.definitionText (fun d => some (rstripSemicolons (d.getD "")))
  entityKey := f.entityKey
  hasScore := u.scoreColumn.elim f.hasScore (fun s => some (truthy s).isSome)
  scoreColumn := u.scoreColumn.elim f.scoreColumn truthy
  description := u.description.elim f.description (fun d => some (d.getD ""))
  tags := u.tags.elim f.tags (fun tags => some (tagList (tags.getD [])))
  classification := f.classification

theorem alter_score (q : String) (f : Fields) (s : Option String) :
    f.alter ((truthy s).elim (.dropScore q) (.setScore q)) =
      { f with hasScore := some (truthy s).isSome, scoreColumn := truthy s } := by
  cases truthy s <;> rfl

theorem foldl_alterations (q : String) (f : Fields) (u : ContextUpdate) :
    (alterations q u).foldl Fields.alter f = applied f u := by
  obtain ⟨definitionText, entityKey, hasScore, scoreColumn, description, tags, classification⟩ := u
  rw [alterations, List.foldl_append, List.foldl_append, List.foldl_append]
  cases scoreColumn with
  | none => cases definitionText <;> cases description <;> cases tags <;> rfl
  | some s =>
    rw [Option.elim_some, List.foldl_cons, List.foldl_nil, alter_score]
    cases definitionText <;> cases description <;> cases tags <;> rfl

end Engine

section Conditions

variable {q : String} {body : ContextCreate} {u : ContextUpdate} {f : Fields} {untagged : Option Parsed}

/-- A `create` of which nothing is lost on the way to the engine. -/
structure Storable (untagged : Option Parsed) (body : ContextCreate) : Prop where
  definitionText : rstripSemicolons body.definitionText = body.definitionText
  scoreColumn : body.hasScore = false → body.scoreColumn = none
  description : body.description ≠ some ""
  tags : body.tags.getD [] = [] → untagged = body.tags.map tagList
  classification : body.classification = "internal"

/-- An update of which nothing is lost, for a context with these fields. -/
structure Writable (f : Fields) (u : ContextUpdate) : Prop where
  single : Writes u → (sent u).count true = 1
  definitionText : ∀ d, u.definitionText = some (some d) → rstripSemicolons d = d
  scoreColumn : u.scoreColumn ≠ some (some "")
  description : u.description ≠ some none
  tags : u.tags ≠ some none
  hasScore : u.hasScore.getD f.hasScore = u.scoreColumn.elim f.hasScore (fun s => some (truthy s).isSome)
  entityKey : ∀ k, u.entityKey = some k → k = f.entityKey
  classification : ∀ k, u.classification = some k → k = f.classification

theorem truthy_eq_self {s : Option String} : truthy s = s ↔ s ≠ some "" := by
  cases s with
  | none => exact iff_of_true rfl nofun
  | some s =>
    rw [truthy, Option.filter_some]
    by_cases h : s = ""
    · subst h
      exact iff_of_false nofun (fun hne => hne rfl)
    · rw [if_pos (decide_eq_true h)]
      exact iff_of_true rfl (fun heq => h (Option.some.inj heq))

theorem createStatement_eq {ddl : Ddl} (h : createStatement q body = .ok ddl) :
    ∃ scoreColumn, ddl = .createContext q body.entityKey scoreColumn (truthy body.description) (body.tags.getD [])
        body.definitionText ∧
      if body.hasScore then scoreColumn.isSome ∧ scoreColumn = body.scoreColumn else scoreColumn = none := by
  obtain ⟨rfl, hsome⟩ := createStatement_ok h
  refine ⟨_, rfl, ?_⟩
  split
  · rename_i hscore
    obtain ⟨column, hcolumn⟩ := Option.isSome_iff_exists.mp (hsome hscore)
    refine ⟨hsome hscore, ?_⟩
    rw [hcolumn]
    exact (Option.filter_eq_some_iff.mp hcolumn).1.symm
  · rfl

theorem stored_eq_iff {scoreColumn : Option String}
    (h : if body.hasScore then scoreColumn.isSome ∧ scoreColumn = body.scoreColumn else scoreColumn = none) :
    stored untagged body.entityKey scoreColumn (truthy body.description) (body.tags.getD []) body.definitionText =
      written body ↔ Storable untagged body := by
  have hscore : (scoreColumn.isSome = body.hasScore ∧ scoreColumn = body.scoreColumn) ↔
      (body.hasScore = false → body.scoreColumn = none) := by
    cases hhas : body.hasScore with
    | true =>
      rw [hhas, if_pos rfl] at h
      exact iff_of_true h nofun
    | false =>
      rw [hhas, if_neg Bool.false_ne_true] at h
      subst h
      exact ⟨fun heq _ => heq.2.symm, fun heq => ⟨rfl, (heq rfl).symm⟩⟩
  have htags :
      (if body.tags.getD [] = [] then untagged else some (tagList (body.tags.getD []))) = body.tags.map tagList ↔
      (body.tags.getD [] = [] → untagged = body.tags.map tagList) := by
    by_cases hempty : body.tags.getD [] = []
    · rw [if_pos hempty]
      exact ⟨fun heq _ => heq, fun heq => heq hempty⟩
    · rw [if_neg hempty]
      cases hts : body.tags with
      | none => exact absurd (congrArg (fun o => Option.getD o []) hts) hempty
      | some tags => exact iff_of_true rfl (fun hnil => absurd (hts ▸ hnil) hempty)
  rw [stored, written, Fields.mk.injEq, htags, Option.some_inj, truthy_eq_self, Option.some_inj, Option.some_inj,
    Option.some_inj]
  constructor
  · rintro ⟨hdefinition, -, hhas, hcolumn, hdescription, hts, hclass⟩
    exact ⟨hdefinition, hscore.mp ⟨hhas, hcolumn⟩, hdescription, hts, hclass.symm⟩
  · intro hstorable
    obtain ⟨hhas, hcolumn⟩ := hscore.mpr hstorable.scoreColumn
    exact ⟨hstorable.definitionText, rfl, hhas, hcolumn, hstorable.description, hstorable.tags,
      hstorable.classification.symm⟩

theorem getD_eq_iff {α : Type} {o : Option α} {a : α} : a = o.getD a ↔ ∀ b, o = some b → b = a := by
  cases o with
  | none => exact iff_of_true rfl nofun
  | some b => exact ⟨fun h c hc => (Option.some.inj hc).symm.trans h.symm, fun h => (h b rfl).symm⟩

theorem applied_eq_iff (htext : u.definitionText ≠ some none) (hsingle : Writes u → (sent u).count true = 1) :
    applied f u = f.write u ↔ Writable f u := by
  have hdefinition : u.definitionText.elim f.definitionText (fun d => some (rstripSemicolons (d.getD ""))) =
      u.definitionText.getD f.definitionText ↔ ∀ d, u.definitionText = some (some d) → rstripSemicolons d = d := by
    cases hd : u.definitionText with
    | none => exact iff_of_true rfl nofun
    | some d =>
      cases d with
      | none => exact absurd hd htext
      | some d =>
        constructor
        · rintro heq d' ⟨⟩
          exact Option.some.inj heq
        · exact fun heq => congrArg some (heq d rfl)
  have hdescription : u.description.elim f.description (fun d => some (d.getD "")) = u.description.getD f.description ↔
      u.description ≠ some none := by
    cases u.description with
    | none => exact iff_of_true rfl nofun
    | some d =>
      cases d with
      | none => exact iff_of_false nofun (fun hne => hne rfl)
      | some d => exact iff_of_true rfl nofun
  have htags : u.tags.elim f.tags (fun tags => some (tagList (tags.getD []))) =
      (u.tags.map (Option.map tagList)).getD f.tags ↔ u.tags ≠ some none := by
    cases u.tags with
    | none => exact iff_of_true rfl nofun
    | some tags =>
      cases tags with
      | none => exact iff_of_false nofun (fun hne => hne rfl)
      | some tags => exact iff_of_true rfl nofun
  have hscore : u.scoreColumn.elim f.scoreColumn truthy = u.scoreColumn.getD f.scoreColumn ↔
      u.scoreColumn ≠ some (some "") := by
    cases u.scoreColumn with
    | none => exact iff_of_true rfl nofun
    | some s =>
      refine truthy_eq_self.trans (not_congr ?_)
      exact ⟨congrArg some, Option.some.inj⟩
  rw [applied, Fields.write, Fields.mk.injEq, hdefinition, hdescription, htags, hscore, getD_eq_iff, getD_eq_iff]
  constructor
  · rintro ⟨hd, hk, hh, hs, hdesc, ht, hc⟩
    exact ⟨hsingle, hd, hs, hdesc, ht, hh.symm, hk, hc⟩
  · intro h
    exact ⟨h.definitionText, h.entityKey, h.hasScore.symm, h.scoreColumn, h.description, h.tags, h.classification⟩

end Conditions

section Calls

variable {T : FloatText} {E : Engine} {self : CatalogService} {untagged : Option Parsed} {plain : Ddl → Prop}
  {name namespaceName q : String} {u : ContextUpdate} {body : ContextCreate} {c c' : Connection catalog}
  {x : Option Context}

theorem contexts_auditLog {eventType : String} {detail : Option Json} {out : Except ServiceError Unit}
    (h : (handler T E).exec (self.auditLog eventType name namespaceName detail) c = (out, c')) :
    c'.pending.contexts = c.pending.contexts := by
  obtain ⟨engine, audit⟩ := self
  cases audit with
  | false =>
    cases h
    rfl
  | true =>
    obtain rfl : ((handler T E).perform (.log _) c).2 = c' := congrArg Prod.snd h
    exact contexts_log _

theorem exec_create (h : (handler T E).exec (self.create T body) c = (.ok x, c')) :
    ∃ q ddl c₁ c₂, qualified body.name body.namespaceName = .ok q ∧ createStatement q body = .ok ddl ∧
      E.execute ddl c = (.ok (), c₁) ∧ E.execute (.setState q "draft") c₁ = (.ok (), c₂) ∧
      c'.pending.contexts = c₂.pending.contexts := by
  obtain ⟨engine, audit⟩ := self
  cases engine with
  | false => cases h
  | true =>
    change (handler T E).exec (Prog.ofExcept (qualified body.name body.namespaceName) >>= _) c = _ at h
    rw [Handler.exec_ofExcept_bind] at h
    cases hq : qualified body.name body.namespaceName with
    | error e =>
      rw [hq] at h
      cases h
    | ok q =>
      rw [hq] at h
      change (handler T E).exec (Prog.ofExcept (createStatement q body) >>= _) c = _ at h
      rw [Handler.exec_ofExcept_bind] at h
      cases hddl : createStatement q body with
      | error e =>
        rw [hddl] at h
        cases h
      | ok ddl =>
        rw [hddl] at h
        obtain ⟨⟨⟩, c₁, hcreate, h⟩ := Handler.exec_bind_ok.mp h
        obtain ⟨⟨⟩, c₂, hstate, h⟩ := Handler.exec_bind_ok.mp h
        rw [AtomicUpdates.exec_execute] at hcreate hstate
        refine ⟨q, ddl, c₁, c₂, rfl, hddl, hcreate, hstate, ?_⟩
        obtain ⟨⟨⟩, c₃, hlog, h⟩ := Handler.exec_bind_ok.mp h
        cases h
        have hcontexts : c₃.pending.contexts = c₂.pending.contexts := contexts_auditLog hlog
        exact hcontexts

theorem accepts_shown (hE : Stores T untagged plain E) {ddls : List Ddl} (hplain : ∀ ddl ∈ ddls, plain ddl)
    (halter : ∀ ddl ∈ ddls, IsAlteration ddl ∧ resolve (target ddl) = (name, namespaceName))
    (h : AtomicUpdates.Accepts E ddls c c') {v : Int} {f : Fields}
    (hshown : shownAt T name namespaceName c = some (v, f)) :
    shownAt T name namespaceName c' = some (v + ddls.length, ddls.foldl Fields.alter f) ∧
      ∀ name' namespaceName', (name, namespaceName) ≠ (name', namespaceName') →
        shownAt T name' namespaceName' c' = shownAt T name' namespaceName' c := by
  induction h generalizing v f with
  | nil c =>
    refine ⟨?_, fun _ _ _ => rfl⟩
    rw [List.length_nil, Nat.cast_zero, Int.add_zero]
    exact hshown
  | @cons ddl ddls c c₁ c₂ hddl hs ih =>
    obtain ⟨halteration, hresolve⟩ := halter ddl List.mem_cons_self
    have hnext := hE.alters (hplain ddl List.mem_cons_self) hresolve halteration hddl hshown
    obtain ⟨hsame, hother⟩ := ih (fun d hd => hplain d (List.mem_cons_of_mem _ hd))
      (fun d hd => halter d (List.mem_cons_of_mem _ hd)) hnext
    constructor
    · rw [hsame, List.foldl_cons, List.length_cons, Nat.cast_succ, Int.add_assoc, Int.add_comm 1]
    · intro name' namespaceName' hne
      rw [hother name' namespaceName' hne]
      exact hE.elsewhere (hplain ddl List.mem_cons_self) (hresolve ▸ hne) hddl

inductive Call where
  | create (body : ContextCreate)
  | update (name namespaceName : String) (u : ContextUpdate)

def Call.prog (T : FloatText) (self : CatalogService) : Call → ServiceProg (Option Context)
  | .create body => self.create T body
  | .update name namespaceName u => self.update T name namespaceName u

def Call.context : Call → String × String
  | .create body => (body.name, body.namespaceName)
  | .update name namespaceName _ => (name, namespaceName)

def Call.Sends (ddl : Ddl) : Call → Prop
  | .create body => ∃ q, qualified body.name body.namespaceName = .ok q ∧
      (createStatement q body = .ok ddl ∨ ddl = .setState q "draft")
  | .update name namespaceName u => ∃ q, qualified name namespaceName = .ok q ∧ ddl ∈ statements q u

/-- What has been written most recently of each context. -/
abbrev Recent := String × String → Option Fields

def Call.fields (F : Recent) : Call → Option Fields
  | .create body => some (written body)
  | .update name namespaceName u => (F (name, namespaceName)).map (fun f => f.write u)

def Call.record (F : Recent) (call : Call) : Recent := Function.update F call.context (call.fields F)

/-- `get` returns of every context what has been written of it most recently. -/
def ReadsBack (T : FloatText) (E : Engine) (c : Connection catalog) (F : Recent) : Prop :=
  ∀ name namespaceName, ∃ x, ((handler T E).exec (CatalogService.get T name namespaceName) c).1 = .ok x ∧
    x.map shown = F (name, namespaceName)

def Call.Raises (T : FloatText) (c c' : Connection catalog) : Call → Prop
  | .create _ => True
  | .update name namespaceName u => Writes u → ∀ v f, shownAt T name namespaceName c = some (v, f) →
      ∃ f', shownAt T name namespaceName c' = some (v + 1, f')

/-- Nothing of the call is lost on the way to the engine. -/
def Call.Lossless (untagged : Option Parsed) (F : Recent) : Call → Prop
  | .create body => Storable untagged body
  | .update name namespaceName u => ∀ f, F (name, namespaceName) = some f → Writable f u

theorem readsBack_iff {F : Recent} : ReadsBack T E c F ↔
    ∀ name namespaceName, (shownAt T name namespaceName c).map Prod.snd = F (name, namespaceName) := by
  apply forall_congr'
  intro name
  apply forall_congr'
  intro namespaceName
  have hget : ((handler T E).exec (CatalogService.get T name namespaceName) c).1 =
      .ok ((latestNamed c.pending name namespaceName).map (rowToDict T)) := rfl
  have hshown : (shownAt T name namespaceName c).map Prod.snd =
      ((latestNamed c.pending name namespaceName).map (rowToDict T)).map shown := by
    rw [shownAt, Option.map_map, Option.map_map]
    rfl
  rw [hshown]
  constructor
  · rintro ⟨x, hx, heq⟩
    obtain rfl := Except.ok.inj (hget.symm.trans hx)
    exact heq
  · exact fun heq => ⟨_, hget, heq⟩

theorem readsBack_record {F : Recent} {call : Call} (hF : ReadsBack T E c F)
    (hother : ∀ name namespaceName, call.context ≠ (name, namespaceName) →
      shownAt T name namespaceName c' = shownAt T name namespaceName c) :
    ReadsBack T E c' (call.record F) ↔
      (shownAt T call.context.1 call.context.2 c').map Prod.snd = call.fields F := by
  rw [readsBack_iff] at hF ⊢
  constructor
  · intro h
    rw [h, Call.record, Function.update_self]
  · intro h name namespaceName
    by_cases hsame : call.context = (name, namespaceName)
    · rw [Call.record, ← hsame, Function.update_self, ← h, hsame]
    · rw [Call.record, Function.update_of_ne (Ne.symm hsame), hother name namespaceName hsame, hF]

theorem create_reads_back (hE : Stores T untagged plain E) {F : Recent} (hF : ReadsBack T E c F)
    (hplain : ∀ ddl, (Call.create body).Sends ddl → plain ddl)
    (h : (handler T E).exec (self.create T body) c = (.ok x, c')) :
    ReadsBack T E c' ((Call.create body).record F) ↔ Storable untagged body := by
  obtain ⟨q, ddl, c₁, c₂, hq, hddl, hcreate, hstate, hcontexts⟩ := exec_create h
  obtain ⟨scoreColumn, rfl, hscore⟩ := createStatement_eq hddl
  have hplain₁ := hplain _ ⟨q, hq, .inl hddl⟩
  have hplain₂ := hplain _ ⟨q, hq, .inr rfl⟩
  have hresolve := resolve_qualified hq
  have hshown : ∀ name namespaceName, shownAt T name namespaceName c' = shownAt T name namespaceName c₁ := by
    intro name namespaceName
    rw [shownAt_contexts hcontexts, hE.setsState hplain₂ hstate]
  rw [readsBack_record hF]
  · rw [hshown, Call.context, hE.creates hplain₁ hresolve hcreate, Call.fields, Option.map_some, Option.some_inj]
    exact stored_eq_iff hscore
  · intro name namespaceName hne
    rw [hshown]
    exact hE.elsewhere hplain₁ (hresolve ▸ hne) hcreate

theorem prepared_text {t : Tables} (h : AtomicUpdates.prepared self t name namespaceName u = .ok q) :
    u.definitionText ≠ some none := by
  intro htext
  unfold AtomicUpdates.prepared at h
  split at h
  · cases h
  · split at h
    · cases h
    · split at h
      · cases h
      · cases h

theorem shownAt_of_view {view : View} (h : Lifecycle.view name namespaceName c = some view) :
    ∃ v f, shownAt T name namespaceName c = some (v, f) := by
  obtain ⟨r, hr, -⟩ := Option.map_eq_some_iff.mp h
  exact ⟨_, _, congrArg (Option.map _) hr⟩

theorem update_reads_back (hE : Stores T untagged plain E) {F : Recent} (hF : ReadsBack T E c F)
    (hplain : ∀ ddl, (Call.update name namespaceName u).Sends ddl → plain ddl)
    (h : (handler T E).exec (self.update T name namespaceName u) c = (.ok x, c')) :
    (ReadsBack T E c' ((Call.update name namespaceName u).record F) ∧ (Call.update name namespaceName u).Raises T c c') ↔
      ∀ f, F (name, namespaceName) = some f → Writable f u := by
  obtain ⟨q, c₂, hprepared, haccepts, hcontexts⟩ := AtomicUpdates.update_succeeds h
  obtain ⟨hq, view, hview⟩ := AtomicUpdates.prepared_ok hprepared
  have hresolve := resolve_qualified hq
  have hplain' : ∀ ddl ∈ statements q u, plain ddl := fun ddl hddl => hplain ddl ⟨q, hq, hddl⟩
  obtain ⟨c₁, halterations, _ | ⟨hstate, _ | _⟩⟩ := haccepts.split
  have htext := prepared_text hprepared
  obtain ⟨v, f, hshown⟩ : ∃ v f, shownAt T name namespaceName c = some (v, f) := shownAt_of_view hview
  have hadvance : shownAt T name namespaceName c.advance = some (v, f) := hshown
  obtain ⟨hsame, hother⟩ := accepts_shown hE (fun ddl hddl => hplain' ddl (List.mem_append_left _ hddl))
    (fun ddl hddl => ⟨(alteration_of_mem hddl).1, (alteration_of_mem hddl).2 ▸ hresolve⟩) halterations hadvance
  have hstates : ∀ name namespaceName, shownAt T name namespaceName c' = shownAt T name namespaceName c₁ := by
    intro name namespaceName
    rw [shownAt_contexts hcontexts]
    exact hE.setsState (hplain' _ (List.mem_append_right _ (List.mem_singleton_self _))) hstate
  rw [foldl_alterations, length_alterations] at hsame
  have hf : F (name, namespaceName) = some f := by
    rw [← readsBack_iff.mp hF, hshown]
    rfl
  have hraises : (Call.update name namespaceName u).Raises T c c' ↔ (Writes u → (sent u).count true = 1) := by
    rw [Call.Raises, hstates, hsame, hshown]
    apply imp_congr_right
    intro _
    constructor
    · intro h
      obtain ⟨f', hf'⟩ := h v f rfl
      obtain ⟨hversion, -⟩ := Prod.mk.inj (Option.some.inj hf')
      omega
    · rintro hone v' f' ⟨⟩
      rw [hone]
      exact ⟨_, rfl⟩
  rw [readsBack_record hF, hstates, Call.context, hsame, Call.fields, hf, Option.map_some, Option.map_some,
    Option.some_inj, hraises]
  · constructor
    · rintro ⟨heq, hsingle⟩ f' ⟨⟩
      exact (applied_eq_iff htext hsingle).mp heq
    · intro hwritable
      have hw := hwritable f rfl
      exact ⟨(applied_eq_iff htext hw.single).mpr hw, hw.single⟩
  · intro name' namespaceName' hne
    rw [hstates]
    exact hother name' namespaceName' hne

theorem call_reads_back (hE : Stores T untagged plain E) {F : Recent} (hF : ReadsBack T E c F) (call : Call)
    (hplain : ∀ ddl, call.Sends ddl → plain ddl) (h : (handler T E).exec (call.prog T self) c = (.ok x, c')) :
    (ReadsBack T E c' (call.record F) ∧ call.Raises T c c') ↔ call.Lossless untagged F := by
  cases call with
  | create body => exact (and_iff_left trivial).trans (create_reads_back hE hF hplain h)
  | update name namespaceName u => exact update_reads_back hE hF hplain h

end Calls

section Runs

variable {T : FloatText} {E : Engine} {self : CatalogService} {untagged : Option Parsed} {plain : Ddl → Prop}

def Call.after (T : FloatText) (E : Engine) (self : CatalogService) (c : Connection catalog) (call : Call) :
    Connection catalog :=
  ((handler T E).exec (call.prog T self) c).2

/-- All of the calls return. -/
def Succeed (T : FloatText) (E : Engine) (self : CatalogService) : Connection catalog → List Call → Prop
  | _, [] => True
  | c, call :: calls =>
    (∃ x, ((handler T E).exec (call.prog T self) c).1 = .ok x) ∧ Succeed T E self (call.after T E self c) calls

/-- After each call everything reads back, and each update has made one version. -/
def Faithful (T : FloatText) (E : Engine) (self : CatalogService) : Connection catalog → Recent → List Call → Prop
  | _, _, [] => True
  | c, F, call :: calls =>
    (ReadsBack T E (call.after T E self c) (call.record F) ∧ call.Raises T c (call.after T E self c)) ∧
      Faithful T E self (call.after T E self c) (call.record F) calls

/-- Nothing of any call is lost. -/
def AllLossless (untagged : Option Parsed) : Recent → List Call → Prop
  | _, [] => True
  | F, call :: calls => call.Lossless untagged F ∧ AllLossless untagged (call.record F) calls

/-- The fields of the contexts that are there already. -/
def present (T : FloatText) (c : Connection catalog) : Recent :=
  fun context => (shownAt T context.1 context.2 c).map Prod.snd

theorem faithful_iff (hE : Stores T untagged plain E) (calls : List Call)
    (hplain : ∀ call ∈ calls, ∀ ddl, call.Sends ddl → plain ddl) {c : Connection catalog} {F : Recent}
    (hF : ReadsBack T E c F) (h : Succeed T E self c calls) :
    Faithful T E self c F calls ↔ AllLossless untagged F calls := by
  induction calls generalizing c F with
  | nil => rfl
  | cons call calls ih =>
    obtain ⟨⟨x, hx⟩, hrest⟩ := h
    have hexec : (handler T E).exec (call.prog T self) c = (.ok x, call.after T E self c) :=
      Prod.ext hx rfl
    have hcall := call_reads_back hE hF call (hplain call List.mem_cons_self) hexec
    have hcalls := fun hF' =>
      ih (fun call' hmem => hplain call' (List.mem_cons_of_mem _ hmem)) (F := call.record F) hF' hrest
    rw [Faithful, AllLossless, ← hcall]
    constructor
    · rintro ⟨hstep, hfaithful⟩
      exact ⟨hstep, (hcalls hstep.1).mp hfaithful⟩
    · rintro ⟨hstep, hlossless⟩
      exact ⟨hstep, (hcalls hstep.1).mpr hlossless⟩

/-- A run of `create` and `update` calls reads back, one version for each update, exactly when nothing
is lost of any of them: every value has a statement that the engine stores it by, and an update has
one statement. -/
theorem reads_back_iff (hE : Stores T untagged plain E) (self : CatalogService) (c₀ : Connection catalog)
    (calls : List Call) (hplain : ∀ call ∈ calls, ∀ ddl, call.Sends ddl → plain ddl)
    (h : Succeed T E self c₀ calls) :
    Faithful T E self c₀ (present T c₀) calls ↔ AllLossless untagged (present T c₀) calls :=
  faithful_iff hE calls hplain (readsBack_iff.mpr fun _ _ => rfl) h

end Runs

section Language

variable (T : FloatText) {name namespaceName : String} {t : Tables}

theorem parsed_tagsText (tags : List String) : parsed T (tagsText tags) = tagList tags := by
  have hplain : Plain T (.arr (tags.map .str)) := by
    apply Plain.arr
    intro x hx
    obtain ⟨tag, -, rfl⟩ := List.mem_map.mp hx
    exact .str tag
  rw [parsed, tagsText_eq T, loads_dumps hplain, tagList]

theorem latestNamed_create (h : latestNamed t name namespaceName = none) (entityKey : String)
    (scoreColumn description : Option String) (tags : List String) (definitionText : String) :
    latestNamed (withRow t (created name namespaceName entityKey scoreColumn description tags definitionText))
        name namespaceName =
      some (created name namespaceName entityKey scoreColumn description tags definitionText
        (t.contexts.sequence + 1)) := by
  apply latestNamed_insert rfl
  · exact fun id => isLive_iff.mpr ⟨⟨rfl, rfl⟩, rfl⟩
  · intro id x hx hlive
    rw [latestNamed_eq] at h
    have hnone := (Lib.Ordering.head?_eq_none _).mp h
    exact absurd (hnone ▸ List.mem_filter.mpr ⟨hx, hlive⟩) List.not_mem_nil

theorem done_creates {t' : Tables} {q entityKey : String} {scoreColumn description : Option String} {tags : List String}
    {definitionText : String}
    (h : Done name namespaceName t (.createContext q entityKey scoreColumn description tags definitionText) t') :
    latestNamed t' name namespaceName = some (created name namespaceName entityKey scoreColumn description tags
      definitionText (t.contexts.sequence + 1)) := by
  cases h with
  | create hnone => exact latestNamed_create hnone ..
  | alter _ halter => cases halter

theorem shown_created (entityKey : String) (scoreColumn description : Option String) (tags : List String)
    (definitionText : String) (id : Nat) :
    shown (rowToDict T (created name namespaceName entityKey scoreColumn description tags definitionText id)) =
      stored (some (tagList [])) entityKey scoreColumn description tags definitionText := by
  have hscore : decide ((if scoreColumn.isSome then (1 : Int) else 0) ≠ 0) = scoreColumn.isSome := by
    cases scoreColumn <;> rfl
  have htags : some (parsed T (tagsText tags)) = if tags = [] then some (tagList []) else some (tagList tags) := by
    rw [parsed_tagsText]
    split
    next hnil => rw [hnil]
    next => rfl
  rw [stored, ← htags, ← hscore]
  rfl

theorem shown_nextVersion (r : ContextRow) (id : Nat) {ddl : Ddl} (halter : IsAlteration ddl) :
    shown (rowToDict T (nextVersion r ddl id)) = (shown (rowToDict T r)).alter ddl := by
  cases halter with
  | setTags q tags =>
    rw [Fields.alter, ← parsed_tagsText T]
    rfl
  | _ => rfl

theorem language_stores (parses : Ddl → Bool) :
    Stores T (some (tagList [])) (fun _ => True) (languageEngine parses) where
  creates _ hq h := by
    rw [shownAt, done_creates (done_of_execute h hq), Option.map_some, shown_created]
    rfl
  alters _ hq halter h hshown := by
    obtain ⟨r, id, hr, hr'⟩ := (done_of_execute h hq).alters halter
    rw [shownAt, hr] at hshown
    obtain ⟨rfl, rfl⟩ := Prod.mk.inj (Option.some.inj hshown)
    rw [shownAt, hr', Option.map_some, shown_nextVersion T r id halter]
    rfl
  setsState {q state c c' name namespaceName} _ h := by
    by_cases hq : resolve q = (name, namespaceName)
    · obtain ⟨r, hr, hr'⟩ := (done_of_execute h hq).setsState
      rw [shownAt, shownAt, hr, hr']
      rfl
    · rw [shownAt, shownAt, (done_of_execute h rfl).elsewhere hq]
  elsewhere _ hother h := by
    rw [shownAt, shownAt, (done_of_execute h rfl).elsewhere hother]

def sampleCreate : ContextCreate where
  name := "overdue"
  definitionText := "SELECT 1"
  entityKey := "invoice_id"
  namespaceName := "default"
  hasScore := false
  scoreColumn := none
  description := none
  tags := some []
  classification := "internal"

def describe (entityKey : Option (Option String)) (tags : Option (Option (List String))) : Call :=
  .update "overdue" "default" ⟨none, entityKey, none, none, some (some "late"), tags, none⟩

def emptyCatalog : Connection catalog := sampleConnection Tables.empty

def sampleEngine : Engine := languageEngine (fun _ => true)

theorem reads_back_iff_sample :
    Faithful samplePackages.floatText sampleEngine ⟨true, true⟩ emptyCatalog (present samplePackages.floatText emptyCatalog)
        [.create sampleCreate, describe none none] ↔
      AllLossless (some (tagList [])) (present samplePackages.floatText emptyCatalog)
        [.create sampleCreate, describe none none] :=
  reads_back_iff (language_stores samplePackages.floatText (fun _ => true)) ⟨true, true⟩ emptyCatalog
    [.create sampleCreate, describe none none] (fun _ _ _ _ => trivial) ⟨⟨_, rfl⟩, ⟨_, rfl⟩, trivial⟩

/-- The versions and keys that `get` returns after each call. -/
def seen (calls : List Call) : Option (Int × Option String) :=
  (latestNamed (calls.foldl (Call.after samplePackages.floatText sampleEngine ⟨true, true⟩) emptyCatalog).pending
    "overdue" "default").map (fun r => (r.version, r.entityKey))

/-- An update of the key and the description leaves the key, and one of the description and the tags
makes two versions. -/
theorem updates_lose_fields :
    seen [.create sampleCreate] = some (1, some "invoice_id") ∧
    seen [.create sampleCreate, describe (some (some "order_id")) none] = some (2, some "invoice_id") ∧
    seen [.create sampleCreate, describe none (some (some ["vip"]))] = some (3, some "invoice_id") ∧
    Succeed samplePackages.floatText sampleEngine ⟨true, true⟩ emptyCatalog
      [.create sampleCreate, describe (some (some "order_id")) none] ∧
    ¬ Faithful samplePackages.floatText sampleEngine ⟨true, true⟩ emptyCatalog
      (present samplePackages.floatText emptyCatalog)
      [.create sampleCreate, describe (some (some "order_id")) none] := by
  refine ⟨rfl, rfl, rfl, ⟨⟨_, rfl⟩, ⟨_, rfl⟩, trivial⟩, ?_⟩
  rintro ⟨-, ⟨hreads, -⟩, -⟩
  obtain ⟨x, hx, hkey⟩ := hreads "overdue" "default"
  obtain rfl := Except.ok.inj hx
  have hlost := congrArg (fun o => o.bind Fields.entityKey) hkey
  exact absurd hlost (by decide)

end Language

end ContextqlServer.Db.ReadBack
