import ContextqlServer.Scheduler.Isolation

namespace ContextqlServer.Scheduler.Cadence

open ContextqlServer.Lib.Effect ContextqlServer.Lib.Mapping ContextqlServer.Lib.Python
open ContextqlServer.Lib.Trace
open ContextqlServer.Scheduler.RefreshScheduler ContextqlServer.Scheduler.Isolation

section Hexadecimal

def hexDigits : List Char := "0123456789abcdefABCDEF".toList

/-- A context id that begins with four hexadecimal digits. -/
def StartsHex (contextId : String) : Prop :=
  4 ≤ contextId.toList.length ∧ ∀ c ∈ contextId.toList.take 4, c ∈ hexDigits

instance (contextId : String) : Decidable (StartsHex contextId) :=
  @instDecidableAnd _ _ inferInstance (List.decidableBAll (· ∈ hexDigits) (contextId.toList.take 4))

theorem hexDigit_value {c : Char} (h : c ∈ hexDigits) : (digitValue16 c).isSome := by
  have hall : hexDigits.all (fun c => (digitValue16 c).isSome) := by decide
  exact List.all_eq_true.mp hall c h

theorem hexDigit_plain {c : Char} (h : c ∈ hexDigits) :
    c ∉ ['_', '-', '+', 'x', 'X'] ∧ isSpace c = false := by
  have hall : hexDigits.all (fun c => c ∉ ['_', '-', '+', 'x', 'X'] ∧ isSpace c = false) := by decide
  exact of_decide_eq_true (List.all_eq_true.mp hall c h)

theorem digitsFrom16_hex {cs : List Char} (h : ∀ c ∈ cs, c ∈ hexDigits) (n : Nat) :
    (digitsFrom16 cs n).isSome := by
  induction cs generalizing n with
  | nil => rfl
  | cons c cs ih =>
    obtain ⟨d, hd⟩ := Option.isSome_iff_exists.mp (hexDigit_value (h c List.mem_cons_self))
    have hc : c ≠ '_' := fun hc => (hexDigit_plain (h c List.mem_cons_self)).1 (by simp [hc])
    rw [digitsFrom16, hd]
    · exact ih (fun c hc => h c (List.mem_cons_of_mem _ hc)) _
    · exact fun _ _ hunderscore => absurd hunderscore hc

theorem hexPrefix_toList {contextId : String} (h : StartsHex contextId) :
    (hexPrefix contextId).toList = contextId.toList.take 4 := by
  have hsplit := List.take_append_drop 4 contextId.toList
  have hkept : (contextId.toList.take 4).filter (· ≠ '-') = contextId.toList.take 4 := by
    rw [List.filter_eq_self]
    intro c hc
    rw [decide_eq_true_iff]
    rintro rfl
    exact (hexDigit_plain (h.2 _ hc)).1 (by decide)
  have hlength : (contextId.toList.take 4).length = 4 := by
    rw [List.length_take]
    exact Nat.min_eq_left h.1
  rw [hexPrefix, String.toList_ofList, ← hsplit, List.filter_append, hkept, hsplit]
  exact List.take_left' hlength

theorem strip_hex {cs : List Char} (h : ∀ c ∈ cs, c ∈ hexDigits) : strip cs = cs := by
  have hspace : ∀ c ∈ cs, isSpace c = false := fun c hc => (hexDigit_plain (h c hc)).2
  rw [strip]
  have hfront : cs.dropWhile isSpace = cs := by
    cases cs with
    | nil => rfl
    | cons c cs => rw [List.dropWhile_cons_of_neg (by simp [hspace c List.mem_cons_self])]
  rw [hfront, List.rdropWhile_eq_self_iff]
  intro hne
  rw [hspace _ (List.getLast_mem hne)]
  exact Bool.false_ne_true

theorem readable_of_hex {contextId : String} (h : StartsHex contextId) : readable contextId = true := by
  have hdigits : ∀ c ∈ (hexPrefix contextId).toList, c ∈ hexDigits := by
    rw [hexPrefix_toList h]
    exact h.2
  have hlength : (hexPrefix contextId).toList.length = 4 := by
    rw [hexPrefix_toList h, List.length_take]
    exact Nat.min_eq_left h.1
  rw [readable, int16, strip_hex hdigits]
  obtain ⟨a, b, c, d, hcs⟩ := List.length_eq_four.mp hlength
  rw [hcs] at hdigits ⊢
  have ha := hdigits a (by simp)
  have hb := hdigits b (by simp)
  have hliteral : (hexLiteral [a, b, c, d]).isSome := by
    have hx : ¬ (b = 'x' ∨ b = 'X') := by
      rintro (rfl | rfl) <;> exact (hexDigit_plain hb).1 (by decide)
    obtain ⟨n, hn⟩ := Option.isSome_iff_exists.mp (hexDigit_value ha)
    rw [hexLiteral, if_neg (by simp [not_or.mp hx]), unsigned16, hn]
    · exact digitsFrom16_hex (fun c hc => hdigits c (List.mem_cons_of_mem _ hc)) n
    · intro cs heq
      exact (hexDigit_plain (hdigits c (by simp))).1 (by rw [(List.cons.inj heq).1]; decide)
  have hminus : a ≠ '-' := by
    rintro rfl
    exact (hexDigit_plain ha).1 (by decide)
  have hplus : a ≠ '+' := by
    rintro rfl
    exact (hexDigit_plain ha).1 (by decide)
  split
  · rename_i heq
    exact absurd (List.cons.inj heq).1 hminus
  · rename_i heq
    exact absurd (List.cons.inj heq).1 hplus
  · obtain ⟨n, hn⟩ := Option.isSome_iff_exists.mp hliteral
    rw [hn]
    rfl

end Hexadecimal

variable {S : Config} {w w' : World} {calls : Calls} {current : ℚ} {nextDue : Dict String ℚ}
  {entries : List Entry}

section Visits

theorem visits_eq_filter (h : (entries.map Entry.contextId).Nodup) :
    visits S current nextDue entries = entries.filter (due S current nextDue) := by
  induction entries generalizing nextDue with
  | nil => rfl
  | cons entry rest ih =>
    rw [List.map_cons, List.nodup_cons] at h
    rw [visits, List.filter_cons, ih h.2, ih h.2]
    have hrest : rest.filter (due S current (nextDue.insert entry.contextId (current + period S entry))) =
        rest.filter (due S current nextDue) := by
      apply List.filter_congr
      intro x hx
      apply due_insert_of_ne
      intro hid
      exact h.1 (hid ▸ List.mem_map_of_mem hx)
    rw [hrest]

def settled (S : Config) (current : ℚ) (nextDue : Dict String ℚ) (visited : List Entry) : Dict String ℚ :=
  visited.foldl (fun m x => m.insert x.contextId (current + period S x)) nextDue

theorem settled_other {contextId : String} (h : contextId ∉ entries.map Entry.contextId) :
    (settled S current nextDue entries).lookup contextId = nextDue.lookup contextId := by
  induction entries generalizing nextDue with
  | nil => rfl
  | cons entry rest ih =>
    rw [List.map_cons, List.mem_cons, not_or] at h
    exact (ih h.2).trans (Finmap.lookup_insert_of_ne _ h.1)

theorem settled_visited (h : (entries.map Entry.contextId).Nodup) {x : Entry} (hx : x ∈ entries) :
    (settled S current nextDue entries).lookup x.contextId = some (current + period S x) := by
  induction entries generalizing nextDue with
  | nil => cases hx
  | cons entry rest ih =>
    rw [List.map_cons, List.nodup_cons] at h
    obtain rfl | hx := List.mem_cons.mp hx
    · exact (settled_other h.1).trans (Finmap.lookup_insert _)
    · exact ih h.2 hx

theorem sweep_nextDue (hfree : Unlocked w) (h : Ticks (forM entries (visit S current)) w calls (.ok ()) w') :
    w'.nextDue = settled S current w.nextDue (visits S current w.nextDue entries) := by
  induction entries generalizing w calls with
  | nil =>
    obtain ⟨-, -, rfl⟩ := Steps.pure_eq h
    rfl
  | cons entry rest ih =>
    rw [List.forM_cons] at h
    obtain ⟨_, _, _, w₁, rfl, hvisit, hrest⟩ | ⟨e, hout, -⟩ := Steps.bind_split h
    · obtain ⟨hfree₁, ⟨hdue, hvisited⟩ | ⟨hearly, -, hsame, -⟩⟩ := visit_steps hfree hvisit
      · obtain ⟨-, -, hinsert⟩ := hvisited.returned rfl
        rw [ih hfree₁ hrest, hinsert, visits, if_pos hdue]
        rfl
      · rw [ih hfree₁ hrest, hsame, visits, hearly]
        rfl
    · cases hout

theorem tick_nextDue (hfree : Unlocked w) (h : Ticks (tick S) w calls (.ok ()) w') :
    w'.nextDue = settled S w.clock w.nextDue (visits S w.clock w.nextDue w.contexts) := by
  obtain ⟨current, _, _, w₁, rfl, hclock, hrest⟩ | ⟨e, hout, -⟩ := Steps.bind_split h
  · obtain ⟨rfl, hA⟩ := Steps.perform_split hclock
    obtain ⟨hcurrent, rfl⟩ := answer_quiet rfl hA
    obtain rfl := Except.ok.inj hcurrent
    obtain ⟨entries, _, _, w₂, rfl, hlist, hsweep⟩ | ⟨e, hout, -⟩ := Steps.bind_split hrest
    · obtain ⟨rfl, hA⟩ := Steps.perform_split hlist
      obtain ⟨hentries, rfl⟩ := answer_quiet rfl hA
      obtain rfl := Except.ok.inj hentries
      exact sweep_nextDue hfree hsweep
    · cases hout
  · cases hout

end Visits

section Attempts

variable {e : Episode} {episodes : List Episode} {contextId : String} {d j : ℚ}

/-- The entries that a tick refreshes: those whose due time it sets. -/
def attempted (e : Episode) : List Entry :=
  e.start.contexts.filter (fun x => x.contextId ∈ rescheduled e.calls)

def attempts (contextId : String) (e : Episode) : Bool := (attempted e).any (fun x => x.contextId = contextId)

/-- The clock readings at which a context was refreshed. -/
def attemptTimes (contextId : String) (episodes : List Episode) : List ℚ :=
  (episodes.filter (attempts contextId)).map (fun e => e.start.clock)

/-- A tick with each context listed once, under an id that begins with hexadecimal digits;
what it records and logs goes through. -/
structure Regular (e : Episode) : Prop where
  calls : disturbed e.calls = false
  distinct : (e.start.contexts.map Entry.contextId).Nodup
  hexadecimal : ∀ x ∈ e.start.contexts, StartsHex x.contextId

def HasInterval (S : Config) (episodes : List Episode) (contextId : String) (d : ℚ) : Prop :=
  ∀ e ∈ episodes, ∀ x ∈ e.start.contexts, x.contextId = contextId →
    ∀ interval, scheduledInterval S x = some interval → interval = d

theorem attempts_iff : attempts contextId e = true ↔ ∃ x ∈ attempted e, x.contextId = contextId := by
  rw [attempts, List.any_eq_true]
  simp only [decide_eq_true_eq]

theorem attemptTimes_snoc : attemptTimes contextId (episodes ++ [e]) =
    attemptTimes contextId episodes ++ if attempts contextId e then [e.start.clock] else [] := by
  rw [attemptTimes, attemptTimes, List.filter_append, List.map_append, List.filter_singleton]
  cases attempts contextId e <;> rfl

theorem tick_regular (hfree : Unlocked e.start) (hregular : Regular e)
    (h : Ticks (tick S) e.start e.calls e.outcome w') :
    e.outcome = .ok () ∧ executed e.calls = (attempted e).map (fun x => refreshStatement x.qualifiedName) ∧
      attempted e = e.start.contexts.filter (due S e.start.clock e.start.nextDue) ∧
      w'.nextDue = settled S e.start.clock e.start.nextDue (attempted e) := by
  obtain ⟨-, hswept⟩ := tick_steps hfree h
  have hvisits : visits S e.start.clock e.start.nextDue e.start.contexts = _ := visits_eq_filter hregular.distinct
  have hreadable : ∀ x ∈ visits S e.start.clock e.start.nextDue e.start.contexts, readable x.contextId = true :=
    fun x hx => readable_of_hex (hregular.hexadecimal x (visits_subset hx))
  obtain ⟨hok, -⟩ := hswept.smooth hregular.calls hreadable
  obtain ⟨hexecuted, hrescheduled, -⟩ := hswept.returned hok
  have hattempted : attempted e = e.start.contexts.filter (due S e.start.clock e.start.nextDue) := by
    apply List.filter_congr
    intro x hx
    rw [hrescheduled, hvisits, Bool.eq_iff_iff, decide_eq_true_iff]
    constructor
    · intro hmem
      obtain ⟨y, hy, hid⟩ := List.mem_map.mp hmem
      obtain ⟨hy, hdue⟩ := List.mem_filter.mp hy
      rwa [← List.inj_on_of_nodup_map hregular.distinct hy hx hid]
    · exact fun hdue => List.mem_map_of_mem (List.mem_filter.mpr ⟨hx, hdue⟩)
  rw [hok] at h
  refine ⟨hok, ?_, hattempted, ?_⟩
  · rw [hexecuted, hvisits, hattempted]
  · rw [tick_nextDue hfree h, hvisits, hattempted]

theorem attempts_of_regular (hfree : Unlocked e.start) (hregular : Regular e)
    (h : Ticks (tick S) e.start e.calls e.outcome w') {x : Entry} (hx : x ∈ e.start.contexts) :
    attempts x.contextId e = due S e.start.clock e.start.nextDue x := by
  obtain ⟨-, -, hattempted, -⟩ := tick_regular hfree hregular h
  rw [Bool.eq_iff_iff, attempts_iff, hattempted]
  constructor
  · rintro ⟨y, hy, hid⟩
    obtain ⟨hy, hdue⟩ := List.mem_filter.mp hy
    rwa [← List.inj_on_of_nodup_map hregular.distinct hy hx hid]
  · exact fun hdue => ⟨x, List.mem_filter.mpr ⟨hx, hdue⟩, rfl⟩

theorem jitter_of_hex (h : StartsHex contextId) (d : ℚ) : ∃ j, jitter contextId d = .ok j ∧
    (0 < d → 0 ≤ j ∧ j < d / 10) ∧
    ∀ x : Entry, x.contextId = contextId → scheduledInterval S x = some d → period S x = d + j := by
  obtain ⟨n, hn⟩ := Option.isSome_iff_exists.mp (readable_of_hex h)
  refine ⟨d * ((n % 1000 : Int) / 10000), by rw [jitter, hn], ?_, ?_⟩
  · intro hd
    have hlow : (0 : ℚ) ≤ (n % 1000 : Int) := Int.cast_nonneg (Int.emod_nonneg _ (by decide))
    have hhigh : ((n % 1000 : Int) : ℚ) < 1000 := by exact_mod_cast Int.emod_lt_of_pos n (by decide)
    constructor
    · exact mul_nonneg hd.le (div_nonneg hlow (by norm_num))
    · rw [div_eq_mul_inv d, mul_lt_mul_iff_right₀ hd, div_lt_iff₀ (by norm_num)]
      linarith
  · rintro x rfl hinterval
    rw [period, hinterval, hn]
    rfl

theorem tick_due (hfree : Unlocked e.start) (hregular : Regular e)
    (h : Ticks (tick S) e.start e.calls e.outcome w')
    (hperiod : ∀ x ∈ e.start.contexts, x.contextId = contextId → (scheduledInterval S x).isSome → period S x = d + j)
    (hdue : e.start.nextDue.lookup contextId = (attemptTimes contextId episodes).getLast?.map (fun t => t + (d + j))) :
    w'.nextDue.lookup contextId = (attemptTimes contextId (episodes ++ [e])).getLast?.map (fun t => t + (d + j)) := by
  obtain ⟨-, -, hattempted, hnextDue⟩ := tick_regular hfree hregular h
  rw [hnextDue, attemptTimes_snoc]
  cases hattempts : attempts contextId e with
  | true =>
    obtain ⟨x, hx, rfl⟩ := attempts_iff.mp hattempts
    have hnodup : ((attempted e).map Entry.contextId).Nodup :=
      hregular.distinct.sublist (List.filter_sublist.map _)
    have hmem := hx
    rw [hattempted] at hmem
    obtain ⟨hlisted, hxdue⟩ := List.mem_filter.mp hmem
    rw [settled_visited hnodup hx, hperiod x hlisted rfl (scheduled_of_due hxdue), if_pos rfl,
      List.getLast?_append_of_ne_nil _ (by simp)]
    rfl
  | false =>
    have hother : contextId ∉ (attempted e).map Entry.contextId := by
      intro hmem
      obtain ⟨x, hx, hid⟩ := List.mem_map.mp hmem
      rw [attempts_iff.mpr ⟨x, hx, hid⟩] at hattempts
      cases hattempts
    rw [settled_other hother, hdue, if_neg nofun, List.append_nil]

end Attempts

section Runs

variable {episodes : List Episode} {contextId : String} {d j clock : ℚ} {contexts : List Entry}
  {out : Except Exn Unit}

theorem started_unlocked (clock : ℚ) (contexts : List Entry) (nextDue : Dict String ℚ) :
    Unlocked (started clock contexts nextDue) := fun contextId => by
  rw [started, Finmap.lookup_empty]
  intro h
  cases h

theorem Loop.split {w₀ : World} (h : Loop S w₀ episodes out w) {front : List Episode} {e : Episode}
    (hfront : front ++ [e] <+: episodes) : ∃ w₁ w₂, Loop S w₀ front (.ok ()) w₁ ∧ Elapsed w₁ e.start ∧
      Ticks (tick S) e.start e.calls e.outcome w₂ := by
  induction h with
  | starts => exact absurd (List.prefix_nil.mp hfront) (by simp)
  | @polls episodes w w₁ w₂ calls out h helapsed htick ih =>
    obtain heq | hfront := List.prefix_concat_iff.mp hfront
    · obtain ⟨rfl, hlast⟩ := List.append_inj' heq rfl
      obtain rfl := (List.cons.inj hlast).1
      exact ⟨w, w₂, h, helapsed, htick⟩
    · exact ih hfront

theorem loop_due (h : Loop S (started clock contexts ∅) episodes out w) (hregular : ∀ e ∈ episodes, Regular e)
    (hperiod : ∀ e ∈ episodes, ∀ x ∈ e.start.contexts, x.contextId = contextId →
      (scheduledInterval S x).isSome → period S x = d + j) :
    w.nextDue.lookup contextId = (attemptTimes contextId episodes).getLast?.map (fun t => t + (d + j)) := by
  induction h with
  | starts => exact Finmap.lookup_empty _
  | @polls episodes w w₁ w₂ calls out h helapsed htick ih =>
    have hfree := helapsed.unlocked (h.unlocked (started_unlocked _ _ _))
    have hdue := ih (fun e he => hregular e (by simp [he])) (fun e he => hperiod e (by simp [he]))
    rw [← helapsed.nextDue] at hdue
    exact tick_due (e := ⟨w₁, calls, out⟩) hfree (hregular _ (by simp)) htick (hperiod _ (by simp)) hdue

theorem refreshed_iff (h : Loop S (started clock contexts ∅) episodes out w) (hregular : ∀ e ∈ episodes, Regular e)
    (hperiod : ∀ e ∈ episodes, ∀ x ∈ e.start.contexts, x.contextId = contextId →
      (scheduledInterval S x).isSome → period S x = d + j)
    {front : List Episode} {e : Episode} (hfront : front ++ [e] <+: episodes) {x : Entry}
    (hx : x ∈ e.start.contexts) (hid : x.contextId = contextId) (hscheduled : (scheduledInterval S x).isSome) :
    attempts contextId e = true ↔
      ∀ t, (attemptTimes contextId front).getLast? = some t → t + d + j ≤ e.start.clock := by
  obtain ⟨w₁, w₂, hloop, helapsed, htick⟩ := Loop.split h hfront
  have hfree := helapsed.unlocked (hloop.unlocked (started_unlocked _ _ _))
  have hmem : ∀ e' ∈ front, e' ∈ episodes := fun e' he' => hfront.subset (List.mem_append_left _ he')
  have he : e ∈ episodes := hfront.subset (by simp)
  have hdue := loop_due hloop (fun e' he' => hregular e' (hmem e' he')) (fun e' he' => hperiod e' (hmem e' he'))
  subst hid
  rw [attempts_of_regular hfree (hregular e he) htick hx, due, hscheduled, Bool.true_and, helapsed.nextDue, hdue]
  cases (attemptTimes x.contextId front).getLast? with
  | none => simp
  | some t => simp [add_assoc]

theorem attempted_scheduled (h : Loop S (started clock contexts ∅) episodes out w)
    (hregular : ∀ e ∈ episodes, Regular e) {front : List Episode} {e : Episode} (hfront : front ++ [e] <+: episodes)
    (hattempts : attempts contextId e = true) :
    ∃ x ∈ e.start.contexts, x.contextId = contextId ∧ (scheduledInterval S x).isSome := by
  obtain ⟨w₁, w₂, hloop, helapsed, htick⟩ := Loop.split h hfront
  have hfree := helapsed.unlocked (hloop.unlocked (started_unlocked _ _ _))
  obtain ⟨-, -, hattempted, -⟩ := tick_regular hfree (hregular e (hfront.subset (by simp))) htick
  obtain ⟨x, hx, hid⟩ := attempts_iff.mp hattempts
  rw [hattempted] at hx
  obtain ⟨hx, hdue⟩ := List.mem_filter.mp hx
  exact ⟨x, hx, hid, scheduled_of_due hdue⟩

theorem pairwise_snoc {times : List ℚ} (hd : 0 ≤ d) (h : times.Pairwise (fun t t' => t + d ≤ t')) {clock : ℚ}
    (hlast : ∀ t, times.getLast? = some t → t + d ≤ clock) :
    (times ++ [clock]).Pairwise (fun t t' => t + d ≤ t') := by
  rw [List.pairwise_append]
  refine ⟨h, List.pairwise_singleton _ _, ?_⟩
  intro t ht t' ht'
  obtain rfl := List.mem_singleton.mp ht'
  obtain ⟨ts, last, rfl⟩ := List.eq_nil_or_concat' times |>.resolve_left (List.ne_nil_of_mem ht)
  have hclock := hlast last (by simp)
  obtain ht | ht := List.mem_append.mp ht
  · have hle := (List.pairwise_append.mp h).2.2 t ht last (by simp)
    linarith
  · obtain rfl := List.mem_singleton.mp ht
    exact hclock

theorem attemptTimes_apart (hd : 0 ≤ d) (hj : 0 ≤ j) (h : Loop S (started clock contexts ∅) episodes out w)
    (hregular : ∀ e ∈ episodes, Regular e)
    (hperiod : ∀ e ∈ episodes, ∀ x ∈ e.start.contexts, x.contextId = contextId →
      (scheduledInterval S x).isSome → period S x = d + j) :
    (attemptTimes contextId episodes).Pairwise (fun t t' => t + d ≤ t') := by
  induction h with
  | starts => exact .nil
  | @polls episodes w w₁ w₂ calls out h helapsed htick ih =>
    have hall := Loop.polls h helapsed htick
    have hbefore := ih (fun e he => hregular e (by simp [he])) (fun e he => hperiod e (by simp [he]))
    rw [attemptTimes_snoc]
    split
    · rename_i hattempts
      obtain ⟨x, hx, hid, hscheduled⟩ := attempted_scheduled hall hregular List.prefix_rfl hattempts
      have hrule := (refreshed_iff hall hregular hperiod List.prefix_rfl hx hid hscheduled).mp hattempts
      apply pairwise_snoc hd hbefore
      intro t ht
      linarith [hrule t ht]
    · rw [List.append_nil]
      exact hbefore

/-- Through every sequence of regular ticks of a new scheduler, each of which gets through: a
scheduled context with one positive interval is refreshed exactly when it never was, or when
its last refresh is the interval and the context's jitter ago. -/
theorem refreshes_spaced (h : Loop S (started clock contexts ∅) episodes out w) (hregular : ∀ e ∈ episodes, Regular e) :
    (∀ e ∈ episodes, e.outcome = .ok () ∧
      executed e.calls = (attempted e).map (fun x => refreshStatement x.qualifiedName)) ∧
    ∀ contextId d, StartsHex contextId → 0 < d → HasInterval S episodes contextId d →
      ∃ j, jitter contextId d = .ok j ∧ (0 ≤ j ∧ j < d / 10) ∧
        (∀ front e, front ++ [e] <+: episodes → ∀ x ∈ e.start.contexts, x.contextId = contextId →
          (scheduledInterval S x).isSome → (attempts contextId e = true ↔
            ∀ t, (attemptTimes contextId front).getLast? = some t → t + d + j ≤ e.start.clock)) ∧
        (attemptTimes contextId episodes).Pairwise (fun t t' => t + d ≤ t') := by
  constructor
  · intro e he
    obtain ⟨front, back, rfl⟩ := List.append_of_mem he
    have hfront : front ++ [e] <+: front ++ e :: back := ⟨back, by simp⟩
    obtain ⟨w₁, w₂, hloop, helapsed, htick⟩ := Loop.split h hfront
    have hfree := helapsed.unlocked (hloop.unlocked (started_unlocked _ _ _))
    obtain ⟨hok, hexecuted, -⟩ := tick_regular hfree (hregular e he) htick
    exact ⟨hok, hexecuted⟩
  · intro contextId d hhex hd hinterval
    obtain ⟨j, hj, hbounds, hjitter⟩ := jitter_of_hex hhex d
    have hperiod : ∀ e ∈ episodes, ∀ x ∈ e.start.contexts, x.contextId = contextId →
        (scheduledInterval S x).isSome → period S x = d + j := by
      intro e he x hx hid hscheduled
      obtain ⟨interval, hsome⟩ := Option.isSome_iff_exists.mp hscheduled
      obtain rfl := hinterval e he x hx hid interval hsome
      exact hjitter x hid hsome
    refine ⟨j, hj, hbounds hd, ?_, attemptTimes_apart hd.le (hbounds hd).1 h hregular hperiod⟩
    intro front e hfront x hx hid hscheduled
    exact refreshed_iff h hregular hperiod hfront hx hid hscheduled

theorem scheduledInterval_sample {x : Entry} {interval : ℚ}
    (h : scheduledInterval sampleConfig x = some interval) : 10 = interval := by
  rw [scheduledInterval, parsedInterval] at h
  split at h
  · rename_i hparsed
    split at hparsed <;> cases hparsed
    · exact Option.some.inj h
    · cases h
  · cases h

def sampleEpisode : Episode := ⟨started 0 sampleContexts ∅, (sampleTick failedRefresh).1, .ok ()⟩

def later (w : World) (clock : ℚ) : World := { w with clock, contexts := sampleContexts }

def laterTick (w : World) (clock : ℚ) :=
  replay scheduler (List.replicate 16 none) (tick sampleConfig) (later w clock)

def laterEpisode (w : World) (clock : ℚ) : Episode := ⟨later w clock, (laterTick w clock).1, .ok ()⟩

def returned : SchedulerProg Unit → Bool
  | .pure _ => true
  | _ => false

theorem eq_of_returned {p : SchedulerProg Unit} (h : returned p = true) : p = .ofExcept (.ok ()) := by
  cases p with
  | pure a => rfl
  | throw e => cases h
  | call o k => cases h

theorem laterTick_loop {w₀ w : World} {episodes : List Episode} (h : Loop sampleConfig w₀ episodes (.ok ()) w)
    {clock : ℚ} (hclock : w.clock ≤ clock) (hok : returned (laterTick w clock).2.1 = true) :
    Loop sampleConfig w₀ (episodes ++ [laterEpisode w clock]) (.ok ()) (laterTick w clock).2.2 := by
  refine .polls h ⟨hclock, rfl, rfl⟩ ?_
  rw [Ticks, ← eq_of_returned hok]
  exact replay_steps _ (tick sampleConfig) _

def early : Episode := laterEpisode (sampleTick failedRefresh).2.2 5

def late : Episode := laterEpisode (laterTick (sampleTick failedRefresh).2.2 5).2.2 20

/-- A tick before the context is due again, and one after. -/
theorem refreshes_spaced_sample :
    attempts "0a1b" sampleEpisode = true ∧ attempts "0a1b" early = false ∧ attempts "0a1b" late = true ∧
      (attemptTimes "0a1b" [sampleEpisode, early, late]).Pairwise (fun t t' => t + 10 ≤ t') := by
  have hloop : Loop sampleConfig (started 0 sampleContexts ∅) [sampleEpisode, early, late] (.ok ()) _ :=
    laterTick_loop (laterTick_loop (sampleTick_loop failedRefresh rfl) (by decide) (by decide +kernel))
      (by decide +kernel) (by decide +kernel)
  have hregular : ∀ e ∈ [sampleEpisode, early, late], Regular e := by
    simp only [List.forall_mem_cons]
    exact ⟨⟨by decide, by decide, by decide⟩, ⟨by decide +kernel, by decide, by decide⟩,
      ⟨by decide +kernel, by decide, by decide⟩, fun _ he => by cases he⟩
  have hinterval : HasInterval sampleConfig [sampleEpisode, early, late] "0a1b" 10 :=
    fun _ _ _ _ _ _ hsome => (scheduledInterval_sample hsome).symm
  obtain ⟨-, hcontexts⟩ := refreshes_spaced hloop hregular
  obtain ⟨j, -, ⟨hpos, hlt⟩, hrule, hapart⟩ := hcontexts "0a1b" 10 (by decide) (by norm_num) hinterval
  have hcatalog : sampleEntry "0a1b" "default.first" ∈ sampleContexts := List.mem_cons_self
  have hfirst : attempts "0a1b" sampleEpisode = true := by
    apply (hrule [] sampleEpisode ⟨[early, late], rfl⟩ _ hcatalog rfl rfl).mpr
    intro t ht
    cases ht
  have hlast : (attemptTimes "0a1b" [sampleEpisode]).getLast? = some 0 := by
    rw [attemptTimes, List.filter_cons_of_pos hfirst]
    rfl
  have hearly : attempts "0a1b" early = false := by
    rw [← Bool.not_eq_true, hrule [sampleEpisode] early ⟨[late], rfl⟩ _ hcatalog rfl rfl]
    intro hdue
    have hdue : 0 + 10 + j ≤ 5 := hdue 0 hlast
    linarith
  have hlate : attempts "0a1b" late = true := by
    apply (hrule [sampleEpisode, early] late ⟨[], rfl⟩ _ hcatalog rfl rfl).mpr
    intro t ht
    rw [attemptTimes, List.filter_cons_of_pos hfirst, List.filter_cons_of_neg (by rw [hearly]; decide)] at ht
    obtain rfl := Option.some.inj ht
    change 0 + 10 + j ≤ 20
    linarith
  exact ⟨hfirst, hearly, hlate, hapart⟩

end Runs

end ContextqlServer.Scheduler.Cadence
