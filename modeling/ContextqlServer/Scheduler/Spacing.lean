import ContextqlServer.Scheduler.RefreshScheduler
import ContextqlServer.Lib.Threads

namespace ContextqlServer.Scheduler.Spacing

open ContextqlServer.Lib.Effect ContextqlServer.Lib.JsonText ContextqlServer.Lib.Mapping
open ContextqlServer.Lib.Python ContextqlServer.Lib.Threads
open ContextqlServer.Scheduler.RefreshScheduler

inductive Stage where
  | idle
  | scanning
  | locked
  | refreshing
  | released
  deriving DecidableEq

/-- Where a thread is: the clock reading of its tick, and the context it has last taken
the lock of. -/
structure Phase where
  stage : Stage
  reading : ℚ
  contextId : String

def Phase.at (φ : Phase) (stage : Stage) : Phase := { φ with stage }

def IntervalOf (S : Config) (entries : List Entry) (contextId : String) (interval : ℚ) : Prop :=
  ∃ x ∈ entries, x.contextId = contextId ∧ scheduledInterval S x = some interval

/-- The order of the calls of a tick over the given entries. -/
def ticking (S : Config) (entries : List Entry) : Protocol schedulerSig Exn Phase where
  allowed
    | φ, .acquire _ => φ.stage = .scanning
    | φ, .execute _ => φ.stage = .locked
    | φ, .release contextId => φ.stage = .refreshing ∧ φ.contextId = contextId
    | φ, .setNextDue contextId due => φ.stage = .released ∧ φ.contextId = contextId ∧
        ∃ interval factor, IntervalOf S entries contextId interval ∧ 0 ≤ factor ∧
          due = φ.reading + interval + interval * factor
    | _, _ => True
  answers
    | .listContexts, r => r = .ok entries
    | _, _ => True
  next
    | φ, .monotonic, .ok current => { φ with stage := .scanning, reading := current }
    | φ, .acquire contextId, .ok true => { φ with stage := .locked, contextId }
    | φ, .execute _, _ => φ.at .refreshing
    | φ, .release _, .ok _ => φ.at .released
    | φ, .setNextDue _ _, .ok _ => φ.at .scanning
    | φ, _, _ => φ

variable {S : Config} {entries : List Entry} {φ : Phase} {x : Entry}

theorem audit_follows (eventType : String) (detail : List (String × Json)) :
    Follows (ticking S entries) (fun _ φ' => φ' = φ) (audit S eventType x detail) φ := by
  rw [audit]
  split
  · exact Follows.perform trivial fun _ _ => rfl
  · exact rfl

theorem refresh_follows (hlocked : φ.stage = .locked) :
    Follows (ticking S entries) (fun _ φ' => φ' = φ.at .refreshing) (refresh S x) φ := by
  apply Follows.handle
  apply Follows.mono (Q := fun _ φ' => φ' = φ.at .refreshing)
  · rintro (e | a) φ' rfl
    · apply Follows.bind
      apply Follows.perform trivial
      rintro (e' | a) -
      · exact rfl
      · exact audit_follows ..
    · exact rfl
  · apply Follows.bind
    apply Follows.perform hlocked
    rintro (e | a) -
    · exact rfl
    · exact audit_follows ..

/-- A tick is between two entries. -/
def Scanning (current : ℚ) (φ : Phase) : Prop := φ.stage = .scanning ∧ φ.reading = current

theorem reschedule_follows {interval : ℚ} (hx : x ∈ entries) (hinterval : scheduledInterval S x = some interval)
    (hrefreshing : φ.stage = .refreshing) (hid : φ.contextId = x.contextId) :
    Follows (ticking S entries) (fun out φ' => out = .ok () → Scanning φ.reading φ')
      (reschedule φ.reading interval x.contextId) φ := by
  apply Follows.bind
  refine Follows.perform (P := ticking S entries) (o := .release x.contextId) ⟨hrefreshing, hid⟩ ?_
  rintro (e | a) -
  · exact nofun
  · rw [jitter]
    cases int16 (hexPrefix x.contextId) with
    | none => exact nofun
    | some n =>
      have hmod : (0 : ℚ) ≤ (n % 1000 : Int) := Int.cast_nonneg (Int.emod_nonneg _ (by decide))
      apply Follows.perform (S := schedulerSig)
      · exact ⟨rfl, hid, interval, (n % 1000 : Int) / 10000, ⟨x, hx, rfl, hinterval⟩,
          div_nonneg hmod (by norm_num), rfl⟩
      · rintro (e | a) - hok
        · cases hok
        · exact ⟨rfl, rfl⟩

theorem visit_follows {current : ℚ} (hx : x ∈ entries) (h : Scanning current φ) :
    Follows (ticking S entries) (fun out φ' => out = .ok () → Scanning current φ') (visit S current x) φ := by
  obtain ⟨hscanning, rfl⟩ := h
  rw [visit_eq]
  cases hinterval : scheduledInterval S x with
  | none => exact fun _ => ⟨hscanning, rfl⟩
  | some interval =>
    apply Follows.bind
    apply Follows.perform trivial
    rintro (e | due) -
    · exact nofun
    change Follows _ _ (if _ then _ else _) φ
    split
    · exact fun _ => ⟨hscanning, rfl⟩
    · apply Follows.bind
      apply Follows.perform hscanning
      rintro (e | acquired) -
      · exact nofun
      cases acquired with
      | false => exact fun _ => ⟨hscanning, rfl⟩
      | true =>
        apply Follows.handle
        apply (refresh_follows rfl).mono
        rintro (e | a) φ' rfl
        · apply Follows.bind
          apply (reschedule_follows hx hinterval rfl rfl).mono
          rintro (e' | a) φ' hφ'
          · exact nofun
          · exact nofun
        · apply Follows.bind
          apply (reschedule_follows hx hinterval rfl rfl).mono
          rintro (e' | a) φ' hφ'
          · exact nofun
          · exact fun _ => hφ' rfl

theorem tick_follows (φ : Phase) : Follows (ticking S entries) (fun _ _ => True) (tick S) φ := by
  apply Follows.bind
  apply Follows.perform trivial
  rintro (e | current) -
  · trivial
  apply Follows.bind
  apply Follows.perform trivial
  intro r hr
  obtain rfl : r = .ok entries := hr
  apply Follows.mono (fun _ _ _ => trivial)
  exact Follows.forM (I := Scanning current) (fun x hx φ hφ => visit_follows hx hφ) ⟨rfl, rfl⟩

/-- A thread between taking and releasing a lock. -/
def Phase.Holds (φ : Phase) : Prop := φ.stage = .locked ∨ φ.stage = .refreshing

/-- A thread whose refresh has started and has not set a due time yet. -/
def Phase.Owes (φ : Phase) : Prop := φ.stage = .refreshing ∨ φ.stage = .released

def Phase.Engaged (φ : Phase) : Prop := φ.stage = .locked ∨ φ.Owes

theorem Phase.not_holds (h : φ.stage = .scanning ∨ φ.stage = .released) : ¬ φ.Holds := by
  rintro (hlocked | hrefreshing)
  · rw [hlocked] at h
    simp at h
  · rw [hrefreshing] at h
    simp at h

/-- The clock goes on between the calls. -/
structure Later (w w' : World) : Prop where
  clock : w.clock ≤ w'.clock
  rest : w' = { w with clock := w'.clock }

section Exclusive

variable {ι : Type} {phase phase' : ι → Phase} {w w' : World}

/-- The locks are those of the threads that hold one. -/
structure Exclusive (entries : List Entry) (phase : ι → Phase) (w : World) : Prop where
  contexts : w.contexts = entries
  held : ∀ t, (phase t).Holds → w.locks.lookup (phase t).contextId = some true
  single : ∀ t u, (phase t).Holds → (phase u).Holds → (phase t).contextId = (phase u).contextId → t = u

theorem Exclusive.frame (h : Exclusive entries phase w) (hcontexts : w'.contexts = w.contexts)
    (hlocks : w'.locks = w.locks)
    (hphase : ∀ t, (phase' t).Holds → (phase t).Holds ∧ (phase' t).contextId = (phase t).contextId) :
    Exclusive entries phase' w' where
  contexts := hcontexts.trans h.contexts
  held t ht := by
    obtain ⟨ht, hid⟩ := hphase t ht
    rw [hlocks, hid]
    exact h.held t ht
  single t u ht hu heq := by
    obtain ⟨ht, htid⟩ := hphase t ht
    obtain ⟨hu, huid⟩ := hphase u hu
    exact h.single t u ht hu (htid ▸ huid ▸ heq)

theorem Exclusive.later (h : Exclusive entries phase w) (hlater : Later w w') :
    Exclusive entries phase w' := by
  rw [hlater.rest]
  exact h.frame rfl rfl fun _ ht => ⟨ht, rfl⟩

variable [DecidableEq ι]

theorem update_cases {Q : Phase → Phase → Prop} {t : ι} {φ : Phase} (ht : Q (phase t) φ)
    (hsame : ∀ ψ, Q ψ ψ) (u : ι) : Q (phase u) (Function.update phase t φ u) := by
  by_cases hu : u = t
  · subst hu
    rw [Function.update_self]
    exact ht
  · rw [Function.update_of_ne hu]
    exact hsame _

theorem Exclusive.update {t : ι} {φ : Phase} (h : Exclusive entries phase w) (hcontexts : w'.contexts = w.contexts)
    (hlocks : w'.locks = w.locks) (hφ : φ.Holds → (phase t).Holds ∧ φ.contextId = (phase t).contextId) :
    Exclusive entries (Function.update phase t φ) w' :=
  h.frame hcontexts hlocks
    (update_cases (Q := fun ψ ψ' => ψ'.Holds → ψ.Holds ∧ ψ'.contextId = ψ.contextId) hφ fun _ h => ⟨h, rfl⟩)

theorem Exclusive.acquire {t : ι} {φ : Phase} (h : Exclusive entries phase w)
    (hfree : w.locks.lookup φ.contextId ≠ some true) :
    Exclusive entries (Function.update phase t φ) (w.setLock φ.contextId true) := by
  have hother : ∀ u, (phase u).Holds → (phase u).contextId ≠ φ.contextId := by
    intro u hu hid
    exact hfree (hid ▸ h.held u hu)
  constructor
  · exact h.contexts
  · intro u hu
    change (w.locks.insert φ.contextId true).lookup _ = _
    by_cases hut : u = t
    · subst hut
      rw [Function.update_self, Finmap.lookup_insert]
    · rw [Function.update_of_ne hut] at hu ⊢
      rw [Finmap.lookup_insert_of_ne _ (hother u hu)]
      exact h.held u hu
  · intro u v hu hv hid
    by_cases hut : u = t <;> by_cases hvt : v = t
    · rw [hut, hvt]
    · subst hut
      rw [Function.update_self] at hid
      rw [Function.update_of_ne hvt] at hv hid
      exact absurd hid.symm (hother v hv)
    · subst hvt
      rw [Function.update_self] at hid
      rw [Function.update_of_ne hut] at hu hid
      exact absurd hid (hother u hu)
    · rw [Function.update_of_ne hut] at hu hid
      rw [Function.update_of_ne hvt] at hv hid
      exact h.single u v hu hv hid

theorem Exclusive.release {t : ι} {φ : Phase} (h : Exclusive entries phase w) (hholds : (phase t).Holds)
    (hφ : ¬ φ.Holds) :
    Exclusive entries (Function.update phase t φ) (w.setLock (phase t).contextId false) := by
  constructor
  · exact h.contexts
  · intro u hu
    change (w.locks.insert (phase t).contextId false).lookup _ = _
    by_cases hut : u = t
    · subst hut
      rw [Function.update_self] at hu
      exact absurd hu hφ
    · rw [Function.update_of_ne hut] at hu ⊢
      have hne : (phase u).contextId ≠ (phase t).contextId := fun hid => hut (h.single u t hu hholds hid)
      rw [Finmap.lookup_insert_of_ne _ hne]
      exact h.held u hu
  · have hkept : ∀ u, (Function.update phase t φ u).Holds → Function.update phase t φ u = phase u := by
      intro u hu
      by_cases hut : u = t
      · subst hut
        rw [Function.update_self] at hu
        exact absurd hu hφ
      · exact Function.update_of_ne hut ..
    intro u v hu hv hid
    have hu' := hkept u hu
    have hv' := hkept v hv
    rw [hu'] at hu
    rw [hv'] at hv
    rw [hu', hv'] at hid
    exact h.single u v hu hv hid

theorem Exclusive.step {t : ι} {o : SchedulerOp} {r : Except Exn (schedulerSig.Res o)}
    (h : Exclusive entries phase w) (hallowed : (ticking S entries).allowed (phase t) o)
    (hA : scheduler.Faulty o w r w') :
    Exclusive entries (Function.update phase t ((ticking S entries).next (phase t) o r)) w' := by
  cases o with
  | monotonic =>
    obtain ⟨rfl, rfl⟩ := answer_quiet rfl hA
    exact h.update rfl rfl fun hφ => absurd hφ (Phase.not_holds (.inl rfl))
  | listContexts | nextDue contextId =>
    obtain ⟨rfl, rfl⟩ := answer_quiet rfl hA
    exact h.update rfl rfl fun hφ => ⟨hφ, rfl⟩
  | recordRefreshFailure name error | auditLog event =>
    obtain rfl := answer_called rfl rfl hA
    exact h.update rfl rfl fun hφ => ⟨hφ, rfl⟩
  | execute statement =>
    obtain rfl := answer_called rfl rfl hA
    exact h.update rfl rfl fun _ => ⟨.inl hallowed, rfl⟩
  | acquire contextId =>
    obtain ⟨rfl, rfl⟩ := answer_quiet rfl hA
    by_cases hlocked : w.locks.lookup contextId = some true
    · simp only [World.perform, hlocked, ↓reduceIte]
      exact h.update rfl rfl fun hφ => ⟨hφ, rfl⟩
    · simp only [World.perform, hlocked, ↓reduceIte]
      exact h.acquire (φ := { phase t with stage := .locked, contextId }) hlocked
  | release contextId =>
    obtain ⟨hrefreshing, rfl⟩ := hallowed
    obtain ⟨rfl, rfl⟩ := answer_quiet rfl hA
    have hlocked := h.held t (.inr hrefreshing)
    simp only [World.perform, hlocked, ↓reduceIte]
    exact h.release (.inr hrefreshing) (Phase.not_holds (.inr rfl))
  | setNextDue contextId due =>
    obtain ⟨rfl, rfl⟩ := answer_quiet rfl hA
    exact h.update rfl rfl fun hφ => absurd hφ (Phase.not_holds (.inl rfl))

end Exclusive

section Spread

/-- The refreshes of each context: the readings of the ticks that have started one, the
latest first, and whether the latest has not set a due time yet. -/
structure Ledger where
  starts : String → List ℚ
  pending : String → Bool

def Ledger.note (l : Ledger) (φ : Phase) : SchedulerOp → Ledger
  | .execute _ => {
      starts := Function.update l.starts φ.contextId (φ.reading :: l.starts φ.contextId)
      pending := Function.update l.pending φ.contextId true }
  | .setNextDue contextId _ => { l with pending := Function.update l.pending contextId false }
  | _ => l

variable {ι : Type} {phase phase' : ι → Phase} {l : Ledger} {w w' : World}

/-- What the ledger says about the threads and the due times, and that the refreshes of
a context are an interval apart. -/
structure Spread (S : Config) (entries : List Entry) (phase : ι → Phase) (l : Ledger) (w : World) : Prop where
  single : ∀ t u, (phase t).Engaged → (phase u).Engaged → (phase t).contextId = (phase u).contextId → t = u
  locked : ∀ t, (phase t).stage = .locked → l.pending (phase t).contextId = false ∧
    ∀ due, w.nextDue.lookup (phase t).contextId = some due → due ≤ (phase t).reading
  owes : ∀ t, (phase t).Owes → l.pending (phase t).contextId = true ∧
    (l.starts (phase t).contextId).head? = some (phase t).reading
  settled : ∀ contextId, l.pending contextId = false → ∀ start ∈ l.starts contextId,
    ∃ due, w.nextDue.lookup contextId = some due ∧
      ∀ interval, IntervalOf S entries contextId interval → 0 < interval → start + interval ≤ due
  latest : ∀ contextId last earlier, l.starts contextId = last :: earlier → ∀ start ∈ earlier,
    ∀ interval, IntervalOf S entries contextId interval → 0 < interval → start + interval ≤ last
  spaced : ∀ contextId interval, IntervalOf S entries contextId interval →
    (l.starts contextId).Pairwise fun start start' => interval ≤ |start - start'|

theorem Spread.frame (h : Spread S entries phase l w) (hdue : w'.nextDue = w.nextDue)
    (hlocked : ∀ t, (phase' t).stage = .locked → phase' t = phase t)
    (howes : ∀ t, (phase' t).Owes → (phase t).Owes ∧ (phase' t).contextId = (phase t).contextId ∧
      (phase' t).reading = (phase t).reading) :
    Spread S entries phase' l w' := by
  have hengaged : ∀ t, (phase' t).Engaged → (phase t).Engaged ∧ (phase' t).contextId = (phase t).contextId := by
    rintro t (ht | ht)
    · rw [← hlocked t ht]
      exact ⟨.inl ht, rfl⟩
    · exact ⟨.inr (howes t ht).1, (howes t ht).2.1⟩
  constructor
  · intro t u ht hu hid
    obtain ⟨ht, htid⟩ := hengaged t ht
    obtain ⟨hu, huid⟩ := hengaged u hu
    exact h.single t u ht hu (htid ▸ huid ▸ hid)
  · intro t ht
    have heq := hlocked t ht
    rw [heq] at ht ⊢
    rw [hdue]
    exact h.locked t ht
  · intro t ht
    obtain ⟨ht, hid, hreading⟩ := howes t ht
    rw [hid, hreading]
    exact h.owes t ht
  · rw [hdue]
    exact h.settled
  · exact h.latest
  · exact h.spaced

theorem Spread.later (h : Spread S entries phase l w)
    (hlater : Later w w') : Spread S entries phase l w' := by
  rw [hlater.rest]
  exact h.frame rfl (fun _ _ => rfl) fun _ ht => ⟨ht, rfl, rfl⟩

variable [DecidableEq ι]

theorem Spread.update {t : ι} {ψ : Phase} (h : Spread S entries phase l w) (hdue : w'.nextDue = w.nextDue)
    (hlocked : ψ.stage = .locked → ψ = phase t)
    (howes : ψ.Owes → (phase t).Owes ∧ ψ.contextId = (phase t).contextId ∧ ψ.reading = (phase t).reading) :
    Spread S entries (Function.update phase t ψ) l w' :=
  h.frame hdue (update_cases (Q := fun ψ ψ' => ψ'.stage = .locked → ψ' = ψ) hlocked fun _ _ => rfl)
    (update_cases (Q := fun ψ ψ' => ψ'.Owes → ψ.Owes ∧ ψ'.contextId = ψ.contextId ∧ ψ'.reading = ψ.reading)
      howes fun _ h => ⟨h, rfl, rfl⟩)

theorem Spread.acquire {t : ι} {ψ : Phase} (h : Spread S entries phase l w) (hexclusive : Exclusive entries phase w)
    (hfree : w.locks.lookup ψ.contextId ≠ some true) (hψ : ψ.stage = .locked)
    (hpending : l.pending ψ.contextId = false)
    (hdue : ∀ due, w.nextDue.lookup ψ.contextId = some due → due ≤ ψ.reading)
    (hsame : w'.nextDue = w.nextDue) :
    Spread S entries (Function.update phase t ψ) l w' := by
  have hother : ∀ u, (phase u).Engaged → (phase u).contextId ≠ ψ.contextId := by
    rintro u (hu | hu) hid
    · exact hfree (hid ▸ hexclusive.held u (.inl hu))
    · have := (h.owes u hu).1
      rw [hid, hpending] at this
      cases this
  have howes : ¬ ψ.Owes := by
    rintro (hψ' | hψ')
    · rw [hψ] at hψ'
      cases hψ'
    · rw [hψ] at hψ'
      cases hψ'
  constructor
  · intro u v hu hv hid
    by_cases hut : u = t <;> by_cases hvt : v = t
    · rw [hut, hvt]
    · subst hut
      rw [Function.update_self] at hid
      rw [Function.update_of_ne hvt] at hv hid
      exact absurd hid.symm (hother v hv)
    · subst hvt
      rw [Function.update_self] at hid
      rw [Function.update_of_ne hut] at hu hid
      exact absurd hid (hother u hu)
    · rw [Function.update_of_ne hut] at hu hid
      rw [Function.update_of_ne hvt] at hv hid
      exact h.single u v hu hv hid
  · intro u hu
    rw [hsame]
    by_cases hut : u = t
    · subst hut
      rw [Function.update_self]
      exact ⟨hpending, hdue⟩
    · rw [Function.update_of_ne hut] at hu ⊢
      exact h.locked u hu
  · intro u hu
    by_cases hut : u = t
    · subst hut
      rw [Function.update_self] at hu
      exact absurd hu howes
    · rw [Function.update_of_ne hut] at hu ⊢
      exact h.owes u hu
  · rw [hsame]
    exact h.settled
  · exact h.latest
  · exact h.spaced

theorem Spread.others {t u : ι} {ψ : Phase} (h : Spread S entries phase l w) (ht : (phase t).Engaged)
    (hu : (Function.update phase t ψ u).Engaged) :
    u = t ∧ ψ.Engaged ∨ Function.update phase t ψ u = phase u ∧ (phase u).Engaged ∧
      (phase u).contextId ≠ (phase t).contextId := by
  by_cases hut : u = t
  · subst hut
    rw [Function.update_self] at hu
    exact .inl ⟨rfl, hu⟩
  · rw [Function.update_of_ne hut] at hu
    exact .inr ⟨Function.update_of_ne hut .., hu, fun hid => hut (h.single u t hu ht hid)⟩

theorem Spread.single_update {t : ι} {ψ : Phase} (h : Spread S entries phase l w) (ht : (phase t).Engaged)
    (hψ : ψ.contextId = (phase t).contextId) (u v : ι) (hu : (Function.update phase t ψ u).Engaged)
    (hv : (Function.update phase t ψ v).Engaged)
    (hid : (Function.update phase t ψ u).contextId = (Function.update phase t ψ v).contextId) : u = v := by
  obtain ⟨rfl, -⟩ | ⟨hueq, hu', hune⟩ := h.others ht hu
  · obtain ⟨rfl, -⟩ | ⟨hveq, hv', hvne⟩ := h.others ht hv
    · rfl
    · rw [Function.update_self, hveq, hψ] at hid
      exact absurd hid.symm hvne
  · obtain ⟨rfl, -⟩ | ⟨hveq, hv', hvne⟩ := h.others ht hv
    · rw [Function.update_self, hueq, hψ] at hid
      exact absurd hid hune
    · rw [hueq, hveq] at hid
      exact h.single u v hu' hv' hid

theorem Spread.start {t : ι} {statement : String} (h : Spread S entries phase l w)
    (hlocked : (phase t).stage = .locked) :
    Spread S entries (Function.update phase t ((phase t).at .refreshing))
      (l.note (phase t) (.execute statement)) w := by
  obtain ⟨hpending, hdue⟩ := h.locked t hlocked
  have hengaged : (phase t).Engaged := .inl hlocked
  have hearlier : ∀ start ∈ l.starts (phase t).contextId, ∀ interval,
      IntervalOf S entries (phase t).contextId interval → 0 < interval →
      start + interval ≤ (phase t).reading := by
    intro start hstart interval hinterval hpos
    obtain ⟨due, hlookup, hle⟩ := h.settled _ hpending start hstart
    exact (hle interval hinterval hpos).trans (hdue due hlookup)
  constructor
  · exact h.single_update hengaged rfl
  · intro u hu
    obtain ⟨rfl, -⟩ | ⟨heq, -, hne⟩ := h.others hengaged (.inl hu)
    · rw [Function.update_self] at hu
      cases hu
    · rw [heq] at hu ⊢
      change Function.update l.pending _ true _ = false ∧ _
      rw [Function.update_of_ne hne]
      exact h.locked u hu
  · intro u hu
    change Function.update l.pending (phase t).contextId true _ = true ∧
      (Function.update l.starts (phase t).contextId ((phase t).reading :: l.starts (phase t).contextId) _).head? = _
    obtain ⟨rfl, -⟩ | ⟨heq, -, hne⟩ := h.others hengaged (.inr hu)
    · rw [Function.update_self]
      change _ ∧ (Function.update l.starts (phase u).contextId _ (phase u).contextId).head? = _
      rw [Function.update_self]
      exact ⟨Function.update_self .., rfl⟩
    · rw [heq] at hu ⊢
      rw [Function.update_of_ne hne, Function.update_of_ne hne]
      exact h.owes u hu
  · intro contextId hsettled
    change Function.update l.pending _ true _ = false at hsettled
    change ∀ start ∈ Function.update l.starts _ _ contextId, _
    by_cases hid : contextId = (phase t).contextId
    · subst hid
      rw [Function.update_self] at hsettled
      cases hsettled
    · rw [Function.update_of_ne hid] at hsettled ⊢
      exact h.settled contextId hsettled
  · intro contextId last earlier hstarts
    change Function.update l.starts _ _ contextId = _ at hstarts
    by_cases hid : contextId = (phase t).contextId
    · subst hid
      rw [Function.update_self] at hstarts
      obtain ⟨rfl, rfl⟩ := List.cons.inj hstarts
      exact hearlier
    · rw [Function.update_of_ne hid] at hstarts
      exact h.latest contextId last earlier hstarts
  · intro contextId interval hinterval
    change (Function.update l.starts _ _ contextId).Pairwise _
    by_cases hid : contextId = (phase t).contextId
    · subst hid
      rw [Function.update_self, List.pairwise_cons]
      refine ⟨?_, h.spaced _ interval hinterval⟩
      intro start hstart
      by_cases hpos : 0 < interval
      · have hle := hearlier start hstart interval hinterval hpos
        exact (by linarith : interval ≤ (phase t).reading - start).trans (le_abs_self _)
      · exact (not_lt.mp hpos).trans (abs_nonneg _)
    · rw [Function.update_of_ne hid]
      exact h.spaced contextId interval hinterval

def OneInterval (S : Config) (entries : List Entry) : Prop :=
  ∀ contextId interval interval', IntervalOf S entries contextId interval →
    IntervalOf S entries contextId interval' → interval = interval'

theorem Spread.settle {t : ι} {due interval factor : ℚ} (hone : OneInterval S entries)
    (h : Spread S entries phase l w) (hreleased : (phase t).stage = .released)
    (hinterval : IntervalOf S entries (phase t).contextId interval) (hfactor : 0 ≤ factor)
    (hdue : due = (phase t).reading + interval + interval * factor) :
    Spread S entries (Function.update phase t ((phase t).at .scanning))
      (l.note (phase t) (.setNextDue (phase t).contextId due))
      { w with nextDue := w.nextDue.insert (phase t).contextId due } := by
  have howes : (phase t).Owes := .inr hreleased
  have hengaged : (phase t).Engaged := .inr howes
  have hleaves : ¬ ((phase t).at .scanning).Engaged := by
    rintro (⟨⟨⟩⟩ | ⟨⟨⟩⟩ | ⟨⟨⟩⟩)
  constructor
  · exact h.single_update hengaged rfl
  · intro u hu
    obtain ⟨-, hψ⟩ | ⟨heq, -, hne⟩ := h.others hengaged (.inl hu)
    · exact absurd hψ hleaves
    · rw [heq] at hu ⊢
      change Function.update l.pending _ false _ = false ∧ _
      rw [Function.update_of_ne hne, Finmap.lookup_insert_of_ne _ hne]
      exact h.locked u hu
  · intro u hu
    obtain ⟨-, hψ⟩ | ⟨heq, -, hne⟩ := h.others hengaged (.inr hu)
    · exact absurd hψ hleaves
    · rw [heq] at hu ⊢
      change Function.update l.pending _ false _ = true ∧ _
      rw [Function.update_of_ne hne]
      exact h.owes u hu
  · intro contextId hsettled start hstart
    change Function.update l.pending _ false contextId = false at hsettled
    change ∃ due', (w.nextDue.insert _ due).lookup contextId = some due' ∧ _
    by_cases hid : contextId = (phase t).contextId
    · subst hid
      refine ⟨due, Finmap.lookup_insert _, ?_⟩
      intro interval' hinterval' hpos
      obtain rfl := hone _ _ _ hinterval hinterval'
      have hjitter := mul_nonneg hpos.le hfactor
      obtain ⟨earlier, hstarts⟩ := List.head?_eq_some_iff.mp (h.owes t howes).2
      rw [show (l.note (phase t) (.setNextDue (phase t).contextId due)).starts (phase t).contextId = _ from hstarts]
        at hstart
      obtain rfl | hstart := List.mem_cons.mp hstart
      · rw [hdue]
        linarith
      · have hle := h.latest _ _ _ hstarts start hstart interval hinterval hpos
        rw [hdue]
        linarith
    · rw [Function.update_of_ne hid] at hsettled
      rw [Finmap.lookup_insert_of_ne _ hid]
      exact h.settled contextId hsettled start hstart
  · exact h.latest
  · exact h.spaced

/-- Where a lock is taken, the context's refreshes have set their due times, and the
tick's clock reading has come to the due time in the map. -/
def timely (φ : Phase) (l : Ledger) (w : World) : (o : SchedulerOp) → Except Exn (schedulerSig.Res o) → Bool
  | .acquire contextId, .ok true =>
    !l.pending contextId && (w.nextDue.lookup contextId).all (fun due => due ≤ φ.reading)
  | _, _ => true

theorem Spread.step {t : ι} {o : SchedulerOp} {r : Except Exn (schedulerSig.Res o)} (hone : OneInterval S entries)
    (h : Spread S entries phase l w) (hexclusive : Exclusive entries phase w)
    (hallowed : (ticking S entries).allowed (phase t) o) (hA : scheduler.Faulty o w r w')
    (htimely : timely (phase t) l w o r = true) :
    Spread S entries (Function.update phase t ((ticking S entries).next (phase t) o r)) (l.note (phase t) o) w' := by
  cases o with
  | monotonic =>
    obtain ⟨rfl, rfl⟩ := answer_quiet rfl hA
    refine h.update rfl nofun ?_
    rintro (hφ | hφ) <;> cases hφ
  | listContexts | nextDue contextId =>
    obtain ⟨rfl, rfl⟩ := answer_quiet rfl hA
    exact h.update rfl (fun _ => rfl) fun hφ => ⟨hφ, rfl, rfl⟩
  | recordRefreshFailure name error | auditLog event =>
    obtain rfl := answer_called rfl rfl hA
    exact h.update rfl (fun _ => rfl) fun hφ => ⟨hφ, rfl, rfl⟩
  | execute statement =>
    obtain rfl := answer_called rfl rfl hA
    exact h.start hallowed
  | acquire contextId =>
    obtain ⟨rfl, rfl⟩ := answer_quiet rfl hA
    by_cases hlocked : w.locks.lookup contextId = some true
    · simp only [World.perform, hlocked, ↓reduceIte]
      exact h.update rfl (fun _ => rfl) fun hφ => ⟨hφ, rfl, rfl⟩
    · simp only [World.perform, hlocked, ↓reduceIte] at htimely ⊢
      rw [timely, Bool.and_eq_true, Bool.not_eq_true', Option.all_eq_true] at htimely
      obtain ⟨hpending, hdue⟩ := htimely
      exact h.acquire (ψ := { phase t with stage := .locked, contextId }) hexclusive hlocked rfl hpending
        (fun due hlookup => of_decide_eq_true (hdue due hlookup)) rfl
  | release contextId =>
    obtain ⟨hrefreshing, rfl⟩ := hallowed
    obtain ⟨rfl, rfl⟩ := answer_quiet rfl hA
    have hlocked := hexclusive.held t (.inr hrefreshing)
    simp only [World.perform, hlocked, ↓reduceIte]
    exact h.update rfl nofun fun _ => ⟨.inl hrefreshing, rfl, rfl⟩
  | setNextDue contextId due =>
    obtain ⟨hreleased, rfl, interval, factor, hinterval, hfactor, hdue⟩ := hallowed
    obtain ⟨rfl, rfl⟩ := answer_quiet rfl hA
    exact h.settle hone hreleased hinterval hfactor hdue

end Spread

section Ticks

variable {ι : Type} [DecidableEq ι]

abbrev Events (ι : Type) := List (Event schedulerSig Exn ι)

def startPhase : Phase where
  stage := .idle
  reading := 0
  contextId := ""

def phasesOf (S : Config) (entries : List Entry) (events : Events ι) : ι → Phase :=
  phases (ticking S entries) startPhase events

def ledgerOf (S : Config) (entries : List Entry) (events : Events ι) : Ledger :=
  noted (ticking S entries) startPhase Ledger.note ⟨fun _ => [], fun _ => false⟩ events

/-- No two threads are refreshing one context. -/
def NoOverlap (S : Config) (entries : List Entry) (events : Events ι) : Prop :=
  ∀ t u, (phasesOf S entries events t).stage = .refreshing → (phasesOf S entries events u).stage = .refreshing →
    (phasesOf S entries events t).contextId = (phasesOf S entries events u).contextId → t = u

/-- The ticks that have started refreshes of one context have read the clock at least the
context's interval apart. -/
def Spaced (S : Config) (entries : List Entry) (events : Events ι) : Prop :=
  ∀ contextId interval, IntervalOf S entries contextId interval →
    ((ledgerOf S entries events).starts contextId).Pairwise fun start start' => interval ≤ |start - start'|

def Timely (S : Config) (entries : List Entry) (events : Events ι) (w : World) (e : Event schedulerSig Exn ι) :
    Prop :=
  timely (phasesOf S entries events e.thread) (ledgerOf S entries events) w e.op e.answer = true

theorem Exclusive.start (clock : ℚ) (nextDue : Dict String ℚ) :
    Exclusive entries (phasesOf S entries ([] : Events ι)) (started clock entries nextDue) where
  contexts := rfl
  held := by rintro t (⟨⟨⟩⟩ | ⟨⟨⟩⟩)
  single := by rintro t u (⟨⟨⟩⟩ | ⟨⟨⟩⟩)

theorem Spread.starts (clock : ℚ) (nextDue : Dict String ℚ) :
    Spread S entries (phasesOf S entries ([] : Events ι)) (ledgerOf S entries ([] : Events ι))
      (started clock entries nextDue) where
  single := by rintro t u (⟨⟨⟩⟩ | ⟨⟨⟩⟩ | ⟨⟨⟩⟩)
  locked := by rintro t ⟨⟩
  owes := by rintro t (⟨⟨⟩⟩ | ⟨⟨⟩⟩)
  settled _ _ _ hstart := by cases hstart
  latest _ _ _ hstarts := by cases hstarts
  spaced _ _ _ := List.Pairwise.nil

theorem listed {w w' : World} {o : SchedulerOp} {r : Except Exn (schedulerSig.Res o)} (hcontexts : w.contexts = entries)
    (hA : scheduler.Faulty o w r w') : (ticking S entries).answers o r := by
  cases o with
  | listContexts =>
    obtain ⟨rfl, -⟩ := answer_quiet rfl hA
    exact congrArg Except.ok hcontexts
  | _ => trivial

def sampleConfig : Config := .constant (some 10) false

def sampleEntries : List Entry :=
  [{ contextId := "0000"
     qualifiedName := "default.name"
     namespaceName := "default"
     materialization := { materialized := true, refreshMode := "scheduled", refreshInterval := some "10 seconds" } }]

abbrev SampleState := Events Bool × Pool schedulerSig Exn Bool World

def sampleStart : SampleState := ([], ⟨started 0 sampleEntries ∅, fun _ => .pure ()⟩)

instance (events : Events Bool) (w : World) (e : Event schedulerSig Exn Bool) :
    Decidable (Timely sampleConfig sampleEntries events w e) := inferInstanceAs (Decidable (_ = true))

/-- One thread refreshes the context when the clock says 0. -/
def sampleFirst : SampleState :=
  (List.replicate 8 false).foldl (turn scheduler (tick sampleConfig) (Timely sampleConfig sampleEntries)) sampleStart

def sampleLater : SampleState :=
  (sampleFirst.1, ⟨{ sampleFirst.2.world with clock := 12 }, sampleFirst.2.thread⟩)

/-- The other thread does when it says 12. -/
def sampleTurns : SampleState :=
  (List.replicate 8 true).foldl (turn scheduler (tick sampleConfig) (Timely sampleConfig sampleEntries)) sampleLater

theorem sampleTurns_starts : (ledgerOf sampleConfig sampleEntries sampleTurns.1).starts "0000" = [12, 0] := by
  decide +kernel

theorem sampleTurns_interleaves :
    Interleaves scheduler.Faulty Later {tick sampleConfig} (Timely sampleConfig sampleEntries)
      (started 0 sampleEntries ∅) sampleTurns.1 sampleTurns.2 := by
  have hfirst : Interleaves scheduler.Faulty Later {tick sampleConfig} (Timely sampleConfig sampleEntries)
      (started 0 sampleEntries ∅) sampleFirst.1 sampleFirst.2 := turns_interleave _ (s := sampleStart) .starts
  have hclock : sampleFirst.2.world.clock ≤ 12 := by decide +kernel
  have hlater : Later sampleFirst.2.world sampleLater.2.world := ⟨hclock, rfl⟩
  exact turns_interleave _ (s := sampleLater) (hfirst.surroundings hlater)

theorem intervalOf_sample {contextId : String} {interval : ℚ}
    (h : IntervalOf sampleConfig sampleEntries contextId interval) : interval = 10 := by
  obtain ⟨x, hx, -, hinterval⟩ := h
  obtain rfl := List.mem_singleton.mp hx
  exact (Option.some.inj hinterval).symm

/-- Both threads find the context due when the clock says 0; one refreshes it, and then the other. -/
def staleTurns : SampleState :=
  (List.replicate 4 false ++ List.replicate 4 true ++ List.replicate 4 false ++ List.replicate 4 true).foldl
    (turn scheduler (tick sampleConfig) (fun _ _ _ => True)) sampleStart

end Ticks

end ContextqlServer.Scheduler.Spacing
