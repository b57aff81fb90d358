import ContextqlServer.Db.LanguageEngine
import ContextqlServer.Lib.Threads

namespace ContextqlServer.Db.Deletion

open ContextqlServer.Lib.Effect ContextqlServer.Lib.JsonText ContextqlServer.Lib.Python
open ContextqlServer.Lib.Sql ContextqlServer.Lib.Threads
open ContextqlServer.Db.Schema ContextqlServer.Db.Statements ContextqlServer.Db.Services
open ContextqlServer.Db.RestCatalog ContextqlServer.Db.RestCatalog.CatalogService
open ContextqlServer.Db.Lifecycle ContextqlServer.Db.LanguageEngine
open ContextqlServer.Db.Calls (sampleConnection samplePackages)

/-- The calls of the service. -/
inductive Request where
  | create (body : ContextCreate)
  | get (name namespaceName : String)
  | list (f : Filters) (limit offset : Int)
  | update (name namespaceName : String) (u : ContextUpdate)
  | delete (name namespaceName : String)
  | validate (name namespaceName : String)
  | activate (name namespaceName : String)
  | retire (name namespaceName : String)
  /-- The route, which makes the check of the state that the service makes again. -/
  | deleteContext (name namespaceName : String)

def Request.prog (T : FloatText) (self : CatalogService) : Request → ServiceProg Unit
  | .create body => do let _ ← self.create T body
  | .get name namespaceName => do let _ ← CatalogService.get T name namespaceName
  | .list f limit offset => do let _ ← CatalogService.list T f limit offset
  | .update name namespaceName u => do let _ ← self.update T name namespaceName u
  | .delete name namespaceName => do let _ ← self.delete T name namespaceName
  | .validate name namespaceName => do let _ ← self.validate T name namespaceName
  | .activate name namespaceName => do let _ ← self.activate T name namespaceName
  | .retire name namespaceName => do let _ ← self.retire T name namespaceName
  | .deleteContext name namespaceName => RestCatalog.deleteContext T self name namespaceName

/-- The calls, each of them also behind a route that has to find a context. -/
def bodies (T : FloatText) (self : CatalogService) : Set (ServiceProg Unit) := {p | ∃ request : Request,
  p = request.prog T self ∨ ∃ name namespaceName, p = existing T name namespaceName >>= fun _ => request.prog T self}

/-- A row that says that the context is a draft. -/
def ReadsDraft (t : Tables) (q : String) : Prop :=
  ∃ name namespaceName r, qualified name namespaceName = .ok q ∧ latestNamed t name namespaceName = some r ∧
    r.lifecycleState = "draft"

/-- A context that is a draft or is not there. -/
def DraftOrGone (q : String) (c : Connection catalog) : Prop :=
  ∀ v, view (resolve q).1 (resolve q).2 c = some v → v.lifecycleState = "draft"

/-- What a thread has read last, where it has done nothing since. A `DROP CONTEXT` comes
right after a row that says draft. -/
def checking : Protocol serviceSig ServiceError (Option Tables) where
  allowed
    | φ, .execute (.dropContext q) => ∃ t, φ = some t ∧ ReadsDraft t q
    | _, .execute (.refreshContext _) => False
    | _, _ => True
  answers _ _ := True
  next
    | _, .read, .ok t => some t
    | _, _, _ => none

section Requests

variable {T : FloatText} {self : CatalogService} {name namespaceName : String} {φ : Option Tables}

/-- The statements that need no row to have been read. -/
def Unchecked (ddl : Ddl) : Prop := (∀ q, ddl ≠ .dropContext q) ∧ ∀ q, ddl ≠ .refreshContext q

theorem follows_of_sends {p : ServiceProg Unit} (h : Sends Unchecked p) (φ : Option Tables) :
    Follows checking (fun _ _ => True) p φ := by
  apply Follows.of_only ?_ h
  intro φ o ho
  cases o with
  | read | log => trivial
  | execute ddl =>
    obtain ⟨hdrop, hrefresh⟩ := ho ddl rfl
    cases ddl with
    | dropContext q => exact absurd rfl (hdrop q)
    | refreshContext q => exact absurd rfl (hrefresh q)
    | _ => trivial

theorem Unchecked.setState (q state : String) : Unchecked (.setState q state) := ⟨nofun, nofun⟩

theorem unchecked_of_mem {q : String} {u : ContextUpdate} {ddl : Ddl} (h : ddl ∈ statements q u) : Unchecked ddl := by
  obtain h | h := List.mem_append.mp h
  · obtain ⟨halter, -⟩ := alteration_of_mem h
    cases halter <;> exact ⟨nofun, nofun⟩
  · rw [List.mem_singleton.mp h]
    exact .setState q _

theorem get_follows : Follows checking (fun out φ' => ∀ x, out = .ok x →
    ∃ t, φ' = some t ∧ x = (latestNamed t name namespaceName).map (rowToDict T))
    (CatalogService.get T name namespaceName) φ := by
  apply Follows.bind
  apply Follows.perform trivial
  rintro (e | t) -
  · intro x hx
    cases hx
  · intro x hx
    obtain rfl := Except.ok.inj hx
    exact ⟨t, rfl, rfl⟩

theorem delete_follows : Follows checking (fun _ _ => True) (self.delete T name namespaceName) φ := by
  rw [CatalogService.delete]
  apply Follows.bind
  apply get_follows.mono
  rintro (e | x) φ' h
  · trivial
  obtain ⟨t, rfl, rfl⟩ := h x rfl
  cases hlatest : latestNamed t name namespaceName with
  | none => trivial
  | some r =>
    change Follows _ _ (if _ then _ else _) _
    split
    · trivial
    · rename_i hdraft
      rw [not_not] at hdraft
      rw [CatalogService.requireEngine]
      split
      · trivial
      · change Follows _ _ (Prog.ofExcept (qualified name namespaceName) >>= _) _
        cases hq : qualified name namespaceName with
        | error e => trivial
        | ok q =>
          change Follows _ _ (RestCatalog.execute (.dropContext q) >>= _) _
          apply Follows.bind
          refine Follows.perform (P := checking) (o := .execute (.dropContext q)) ?_ ?_
          · exact ⟨t, rfl, name, namespaceName, r, hq, hlatest, hdraft⟩
          · rintro (e | a) -
            · trivial
            · apply Follows.bind
              rw [CatalogService.auditLog]
              split
              · exact Follows.perform trivial fun r _ => by cases r <;> trivial
              · trivial

theorem follows_bind {α β : Type} {p : ServiceProg α} {f : α → ServiceProg β}
    (hp : ∀ φ, Follows checking (fun _ _ => True) p φ) (hf : ∀ a φ, Follows checking (fun _ _ => True) (f a) φ)
    (φ : Option Tables) : Follows checking (fun _ _ => True) (p >>= f) φ := by
  apply Follows.bind
  apply (hp φ).mono
  rintro (e | a) φ' -
  · trivial
  · exact hf a φ'

theorem follows_discard {α : Type} {p : ServiceProg α} (hp : ∀ φ, Follows checking (fun _ _ => True) p φ)
    (φ : Option Tables) : Follows checking (fun _ _ => True) (p >>= fun _ => (pure () : ServiceProg Unit)) φ := by
  apply follows_bind hp
  intro _ _
  trivial

/-- A call with a result that is left aside. -/
theorem discard_follows {α : Type} {p : ServiceProg α} (hp : Sends Unchecked p) (φ : Option Tables) :
    Follows checking (fun _ _ => True) (p >>= fun _ => (pure () : ServiceProg Unit)) φ := by
  apply follows_of_sends
  apply hp.bind
  intro _
  trivial

theorem existing_follows (φ : Option Tables) :
    Follows checking (fun _ _ => True) (existing T name namespaceName) φ := by
  apply Follows.bind
  apply get_follows.mono
  rintro (e | x) φ' -
  · trivial
  · cases x <;> trivial

theorem request_follows (request : Request) (φ : Option Tables) :
    Follows checking (fun _ _ => True) (request.prog T self) φ := by
  cases request with
  | create body => exact discard_follows (sends_create (fun _ _ _ _ _ _ => ⟨nofun, nofun⟩) fun q => .setState q _) φ
  | get name namespaceName => exact discard_follows sends_get φ
  | list f limit offset => exact discard_follows sends_list φ
  | update name namespaceName u => exact discard_follows (sends_update fun q _ ddl hddl => unchecked_of_mem hddl) φ
  | delete name namespaceName => exact follows_discard (fun _ => delete_follows) φ
  | validate name namespaceName =>
    refine discard_follows (sends_transition ?_) φ
    intro q ddl hddl
    obtain rfl | hddl := List.mem_cons.mp hddl
    · exact ⟨nofun, nofun⟩
    · rw [List.mem_singleton.mp hddl]
      exact .setState q _
  | activate name namespaceName | retire name namespaceName =>
    refine discard_follows (sends_transition ?_) φ
    intro q ddl hddl
    rw [List.mem_singleton.mp hddl]
    exact .setState q _
  | deleteContext name namespaceName =>
    apply follows_bind existing_follows
    intro context φ'
    dsimp only
    split
    · trivial
    · exact follows_discard (fun _ => delete_follows) φ'

theorem bodies_follow {p : ServiceProg Unit} (hp : p ∈ bodies T self) (φ : Option Tables) :
    Follows checking (fun _ _ => True) p φ := by
  obtain ⟨request, rfl | ⟨name, namespaceName, rfl⟩⟩ := hp
  · exact request_follows request φ
  · exact follows_bind existing_follows (fun _ => request_follows request) φ

end Requests

section Runs

variable {ι : Type} {T : FloatText} {E : Engine} {self : CatalogService}

/-- A thread that stands between its last reading and its `DROP CONTEXT`. -/
def Deleting (q : String) (p : ServiceProg Unit) : Prop := ∃ k, p = .call (.execute (.dropContext q)) k

def Disturbs (q : String) (e : Event serviceSig ServiceError ι) : Prop :=
  e.answer.isOk = true ∧ match e.op with
    | .execute (.createContext q' _ _ _ _ _) => resolve q' = resolve q
    | .execute (.setState q' state) => resolve q' = resolve q ∧ state ≠ "draft"
    | _ => False

/-- No statement of a call disturbs another call that is about to delete. -/
def Undisturbed (pool : Pool serviceSig ServiceError ι (Connection catalog)) (e : Event serviceSig ServiceError ι) :
    Prop :=
  ∀ q, Disturbs q e → ∀ u, u ≠ e.thread → ¬ Deleting q (pool.thread u)

/-- A thread that drops what is a draft, if it drops anything next. -/
def Careful (p : ServiceProg Unit) (c : Connection catalog) : Prop :=
  (∃ φ, Follows checking (fun _ _ => True) p φ) ∧ ∀ q, Deleting q p → DraftOrGone q c

theorem readsDraft_now {c : Connection catalog} {q : String} (h : ReadsDraft c.pending q) : DraftOrGone q c := by
  obtain ⟨name, namespaceName, r, hq, hr, hdraft⟩ := h
  intro v hv
  rw [resolve_qualified hq, view, hr] at hv
  obtain rfl := Option.some.inj hv
  exact hdraft

theorem careful_own {o : ServiceOp} {k : Except ServiceError (serviceSig.Res o) → ServiceProg Unit}
    {c c' : Connection catalog} {r : Except ServiceError (serviceSig.Res o)} (h : Careful (.call o k) c)
    (hA : (handler T E).Faulty o c r c') : Careful (k r) c' := by
  obtain ⟨⟨φ, hfollows⟩, -⟩ := h
  have hnext := hfollows.2 r trivial
  refine ⟨⟨_, hnext⟩, ?_⟩
  rintro q ⟨k', hk'⟩
  rw [hk'] at hnext
  obtain ⟨t, ht, hdraft⟩ := hnext.1
  -- only a reading leaves the phase in which a drop is allowed
  cases o with
  | execute ddl => cases r <;> cases ht
  | log e => cases r <;> cases ht
  | read =>
    obtain ⟨_ | failure, hA⟩ := hA
    · obtain ⟨rfl, rfl⟩ := Prod.mk.inj (Option.some.inj hA)
      obtain rfl := Option.some.inj ht
      exact readsDraft_now (c := c.advance) hdraft
    · cases hA

theorem careful_accepted {ddl : Ddl} {c c' : Connection catalog} {t : ι} {q : String} {φ : Option Tables}
    (hlaw : Lawful E (resolve q).1 (resolve q).2) (htarget : resolve (target ddl) = resolve q)
    (hallowed : checking.allowed φ (.execute ddl)) (hexecute : E.execute ddl c = (.ok (), c'))
    (hcalm : ¬ Disturbs q ⟨t, .execute ddl, .ok ()⟩) (h : DraftOrGone q c) : DraftOrGone q c' := by
  intro v' hv'
  cases hv : view (resolve q).1 (resolve q).2 c with
  | none =>
    have hcreate : ∀ q entityKey scoreColumn description tags definitionText,
        ddl ≠ .createContext q entityKey scoreColumn description tags definitionText := by
      rintro q' entityKey scoreColumn description tags definitionText rfl
      exact hcalm ⟨rfl, htarget⟩
    rw [hlaw.absent hcreate hexecute hv] at hv'
    cases hv'
  | some v =>
    have halters : IsAlteration ddl → v'.lifecycleState = "draft" := by
      intro halter
      obtain ⟨v₁, hv₁, -, hstate⟩ := hlaw.alters htarget halter hexecute hv
      obtain rfl := Option.some.inj (hv₁.symm.trans hv')
      rw [hstate]
      exact h v hv
    cases ddl with
    | createContext => exact absurd ⟨rfl, htarget⟩ hcalm
    | setState q' state =>
      obtain ⟨v₁, hv₁, hstate, -⟩ := hlaw.setsState htarget hexecute hv
      obtain rfl := Option.some.inj (hv₁.symm.trans hv')
      rw [hstate]
      by_contra hother
      exact hcalm ⟨rfl, htarget, hother⟩
    | validateContext =>
      rw [hlaw.validates hexecute] at hv'
      exact h v' hv'
    | dropContext =>
      rw [hlaw.drops htarget hexecute] at hv'
      cases hv'
    | refreshContext => exact hallowed.elim
    | setDefinition | setDescription | setTags | setScore | dropScore => exact halters (by constructor)

theorem careful_other (hE : ∀ name namespaceName, Lawful E name namespaceName) {o : ServiceOp}
    {c c' : Connection catalog} {r : Except ServiceError (serviceSig.Res o)} {t : ι} {q : String} {φ : Option Tables}
    {k : Except ServiceError (serviceSig.Res o) → ServiceProg Unit}
    (hfollows : Follows checking (fun _ _ => True) (.call o k) φ) (hA : (handler T E).Faulty o c r c')
    (hcalm : ¬ Disturbs q ⟨t, o, r⟩) (h : DraftOrGone q c) : DraftOrGone q c' := by
  have hsame : view (resolve q).1 (resolve q).2 c' = view (resolve q).1 (resolve q).2 c → DraftOrGone q c' := by
    intro hview v hv
    exact h v (hview ▸ hv)
  obtain ⟨_ | failure, hA⟩ := hA
  · have hperform : (handler T E).perform o c = (r, c') := Option.some.inj hA
    cases o with
    | read =>
      obtain ⟨rfl, rfl⟩ := Prod.mk.inj hperform
      exact hsame rfl
    | log e =>
      obtain rfl : _ = c' := congrArg Prod.snd hperform
      exact hsame (view_log e)
    | execute ddl =>
      replace hperform : E.execute ddl c = (r, c') := hperform
      have hlaw := hE (resolve q).1 (resolve q).2
      by_cases htarget : resolve (target ddl) = resolve q
      · cases r with
        | error e => exact hsame (hlaw.rejects hperform)
        | ok a => exact careful_accepted hlaw htarget hfollows.1 hperform hcalm h
      · exact hsame (hlaw.elsewhere htarget hperform)
  · cases o with
    | read | log => cases hA
    | execute ddl =>
      obtain ⟨rfl, rfl⟩ := Prod.mk.inj (Option.some.inj hA)
      exact hsame rfl

/-- Where no statement disturbs a call that is about to delete, a `DROP CONTEXT` finds a draft. -/
theorem drops_drafts [DecidableEq ι] (hE : ∀ name namespaceName, Lawful E name namespaceName) {c₀ : Connection catalog}
    {pool : Pool serviceSig ServiceError ι (Connection catalog)}
    (h : Reaches (handler T E).Faulty (bodies T self) Undisturbed c₀ pool) (t : ι) (q : String)
    (hnext : Deleting q (pool.thread t)) : DraftOrGone q pool.world := by
  have hcareful : Careful (pool.thread t) pool.world := by
    apply h.each (L := Careful)
    · exact fun w => ⟨⟨none, trivial⟩, fun q ⟨k, hk⟩ => by cases hk⟩
    · intro p hp w
      refine ⟨⟨none, bodies_follow hp none⟩, ?_⟩
      rintro q ⟨k, rfl⟩
      obtain ⟨t, ht, -⟩ := (bodies_follow hp none).1
      cases ht
    · exact fun o k w r w' => careful_own
    · intro w w' threads t u o k r hcall hL hA hok hu hother
      refine ⟨hother.1, fun q hq => ?_⟩
      obtain ⟨φ, hfollows⟩ := hL.1
      exact careful_other hE hfollows hA (fun hd => hok q hd u hu hq) (hother.2 q hq)
  exact hcareful.2 q hnext

end Runs

section Sample

def overdueDraft : Connection catalog :=
  sampleConnection { Tables.empty with contexts :=
    ⟨[{ created "overdue" "default" "invoice_id" none none [] "SELECT 1" 1 with lifecycleState := "draft" }], 1⟩ }

def acceptingEngine : Engine := languageEngine fun _ => true

abbrev samplePool := Pool serviceSig ServiceError Bool (Connection catalog)

abbrev SampleReaches (ok : samplePool → Event serviceSig ServiceError Bool → Prop) : samplePool → Prop :=
  Reaches (handler samplePackages.floatText acceptingEngine).Faulty (bodies samplePackages.floatText ⟨true, true⟩) ok
    overdueDraft

theorem deleting_reached {ok : samplePool → Event serviceSig ServiceError Bool → Prop}
    (hok : ∀ pool t r, ok pool ⟨t, .read, r⟩) : ∃ k, SampleReaches ok ⟨overdueDraft.advance,
      Function.update (fun _ => .pure ()) false (.call (.execute (.dropContext "overdue")) k)⟩ := by
  have hstart : SampleReaches ok ⟨overdueDraft, fun _ => .pure ()⟩ := .starts
  have hlaunch := hstart.launch (t := false)
    (p := (Request.delete "overdue" "default").prog samplePackages.floatText ⟨true, true⟩) trivial
    ⟨.delete "overdue" "default", .inl rfl⟩
  have hread := hlaunch.step (t := false) rfl (Handler.Sound.faulty rfl) (hok _ _ _)
  rw [Function.update_idem] at hread
  exact ⟨_, hread⟩

/-- Before the context is dropped another thread gives it a description and so a new version. -/
theorem drops_drafts_sample :
    ∃ pool : samplePool, SampleReaches Undisturbed pool ∧ Deleting "overdue" (pool.thread false) ∧
      (view "overdue" "default" pool.world).map View.version = some 2 ∧ DraftOrGone "overdue" pool.world := by
  obtain ⟨k, hdeleting⟩ := @deleting_reached Undisturbed fun _ _ _ _ hd => hd.2.elim
  have hlaunch := hdeleting.launch (t := true)
    (p := (Request.update "overdue" "default" ⟨none, none, none, none, some (some "late"), none, none⟩).prog
      samplePackages.floatText ⟨true, true⟩) trivial ⟨.update "overdue" "default" _, .inl rfl⟩
  have hread := hlaunch.step (t := true) rfl (Handler.Sound.faulty rfl) fun _ hd => hd.2.elim
  have haltered := hread.step (t := true) rfl (Handler.Sound.faulty rfl) fun _ hd => hd.2.elim
  exact ⟨_, haltered, ⟨k, rfl⟩, rfl, drops_drafts (language_lawful _) haltered false "overdue" ⟨k, rfl⟩⟩

/-- A context that is activated after the deletion has read its row is dropped all the same. -/
theorem dropped_active : ¬ ∀ pool : samplePool, SampleReaches (fun _ _ => True) pool →
    ∀ t q, Deleting q (pool.thread t) → DraftOrGone q pool.world := by
  intro h
  obtain ⟨k, hdeleting⟩ := @deleting_reached (fun _ _ => True) fun _ _ _ => trivial
  have hlaunch := hdeleting.launch (t := true)
    (p := (Request.activate "overdue" "default").prog samplePackages.floatText ⟨true, true⟩) trivial
    ⟨.activate "overdue" "default", .inl rfl⟩
  have hread := hlaunch.step (t := true) rfl (Handler.Sound.faulty rfl) trivial
  have hactive := hread.step (t := true) rfl (Handler.Sound.faulty rfl) trivial
  have hdraft := h _ hactive false "overdue" ⟨k, rfl⟩ _ rfl
  exact absurd hdraft (by decide)

end Sample

end ContextqlServer.Db.Deletion
