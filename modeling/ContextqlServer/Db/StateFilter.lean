import ContextqlServer.Db.CatalogViews

namespace ContextqlServer.Db.StateFilter

open ContextqlServer.Lib.Effect ContextqlServer.Lib.JsonText ContextqlServer.Lib.Sql
open ContextqlServer.Db.Schema ContextqlServer.Db.Statements ContextqlServer.Db.Services
open ContextqlServer.Db.ContextCatalog ContextqlServer.Db.Calls ContextqlServer.Db.Runs
open ContextqlServer.Db.ContextRows ContextqlServer.Db.RestCatalog ContextqlServer.Db.CatalogViews

variable {t : Tables} {rs : List ContextRow} {r : ContextRow} {namespaceName : Option String} {state : String}

def InScope (namespaceName : Option String) (r : ContextRow) : Prop :=
  r.droppedAt = none ∧ ∀ n ∈ namespaceName, n = r.namespaceName

def LatestInState (rs : List ContextRow) (namespaceName : Option String) (state : String) : Prop :=
  ∀ r ∈ rs, InScope namespaceName r → r.lifecycleState = state →
    ∀ latest, IsLatestNamed rs r.name r.namespaceName latest → latest.lifecycleState = state

instance : Decidable (InScope namespaceName r) := inferInstanceAs (Decidable (_ ∧ _))

instance (rs : List ContextRow) (name namespaceName : String) (r : ContextRow) :
    Decidable (IsLatestNamed rs name namespaceName r) :=
  decidable_of_iff (r ∈ rs ∧ (r.name = name ∧ r.namespaceName = namespaceName) ∧ r.droppedAt = none ∧
      ∀ s ∈ rs, s.name = name → s.namespaceName = namespaceName → s.droppedAt = none → s.version ≤ r.version)
    ⟨fun ⟨hr, hn, hd, hle⟩ => ⟨hr, hn, hd, hle⟩, fun h => ⟨h.mem, h.isNamed, h.droppedAt, h.highest⟩⟩

instance (rs : List ContextRow) (namespaceName : Option String) (state : String) :
    Decidable (LatestInState rs namespaceName state) :=
  decidable_of_iff (∀ r ∈ rs, InScope namespaceName r → r.lifecycleState = state → ∀ latest ∈ rs,
      IsLatestNamed rs r.name r.namespaceName latest → latest.lifecycleState = state)
    ⟨fun h r hr hs hst l hl => h r hr hs hst l hl.mem hl, fun h r hr hs hst l _ hl => h r hr hs hst l hl⟩

theorem accepts_unfiltered : (⟨namespaceName, none⟩ : Filters).accepts r = true ↔ InScope namespaceName r := by
  cases namespaceName <;> simp [Filters.accepts, InScope]

theorem accepts_filtered : (⟨namespaceName, some state⟩ : Filters).accepts r = true ↔
    InScope namespaceName r ∧ r.lifecycleState = state := by
  have hstate : (⟨namespaceName, some state⟩ : Filters).accepts r =
      ((⟨namespaceName, none⟩ : Filters).accepts r && decide (state = r.lifecycleState)) := by
    simp [Filters.accepts]
  rw [hstate, Bool.and_eq_true, accepts_unfiltered, decide_eq_true_iff, eq_comm (a := state)]

theorem InScope.of_named (h : InScope namespaceName r) {s : ContextRow} (hd : s.droppedAt = none)
    (hns : s.namespaceName = r.namespaceName) : InScope namespaceName s :=
  ⟨hd, fun n hn => (h.2 n hn).trans hns.symm⟩

theorem mem_unfiltered (h : UniqueNames (rows t)) : r ∈ joined t ⟨namespaceName, none⟩ ↔
    InScope namespaceName r ∧ IsLatestNamed (rows t) r.name r.namespaceName r := by
  simp only [mem_joined_iff h, accepts_unfiltered]
  constructor
  · rintro ⟨hr, hscope, hle⟩
    exact ⟨hscope, hr, ⟨rfl, rfl⟩, hscope.1,
      fun s hs hname hns hd => hle s hs (hscope.of_named hd hns) hname hns⟩
  · rintro ⟨hscope, hl⟩
    exact ⟨hl.mem, hscope, fun s hs hs' hname hns => hl.highest s hs hname hns hs'.1⟩

theorem mem_filtered (h : UniqueNames (rows t)) : r ∈ joined t ⟨namespaceName, some state⟩ ↔
    r ∈ rows t ∧ (InScope namespaceName r ∧ r.lifecycleState = state) ∧
      ∀ s ∈ rows t, s.droppedAt = none → s.lifecycleState = state → s.name = r.name →
        s.namespaceName = r.namespaceName → s.version ≤ r.version := by
  simp only [mem_joined_iff h, accepts_filtered]
  refine and_congr_right fun hr => and_congr_right fun hscope => ?_
  constructor
  · exact fun hle s hs hd hstate hname hns => hle s hs ⟨hscope.1.of_named hd hns, hstate⟩ hname hns
  · exact fun hle s hs hs' hname hns => hle s hs hs'.1.1 hs'.2 hname hns

theorem exists_highest {p : ContextRow → Prop} (hr : r ∈ rs) (hp : p r) :
    ∃ m ∈ rs, p m ∧ ∀ s ∈ rs, p s → s.version ≤ m.version := by
  classical
  have hmem : r ∈ rs.filter (fun s => decide (p s)) := List.mem_filter.mpr ⟨hr, decide_eq_true hp⟩
  obtain ⟨m, hm, hle⟩ := Lib.Ordering.exists_least (fun s : ContextRow => OrderDual.toDual s.version) hmem
  simp only [List.mem_filter, decide_eq_true_eq, OrderDual.toDual_le_toDual] at hm hle
  exact ⟨m, hm.1, hm.2, fun s hs hps => hle s ⟨hs, hps⟩⟩

theorem latest_unique (h : UniqueNames rs) {name namespaceName : String} {s : ContextRow}
    (hr : IsLatestNamed rs name namespaceName r) (hs : IsLatestNamed rs name namespaceName s) : r = s := by
  apply h.eq hr.mem hs.mem (hr.isNamed.1.trans hs.isNamed.1.symm) (hr.isNamed.2.trans hs.isNamed.2.symm)
  apply le_antisymm
  · exact hs.highest r hr.mem hr.isNamed.1 hr.isNamed.2 hr.droppedAt
  · exact hr.highest s hs.mem hs.isNamed.1 hs.isNamed.2 hs.droppedAt

theorem latestInState_of_mem (h : UniqueNames (rows t))
    (hmem : ∀ r ∈ joined t ⟨namespaceName, some state⟩, r ∈ joined t ⟨namespaceName, none⟩) :
    LatestInState (rows t) namespaceName state := by
  intro r hr hscope hstate latest hlatest
  obtain ⟨m, hm, ⟨⟨hname, hns⟩, hd, hmstate⟩, hle⟩ := exists_highest hr
    (p := fun s => (s.name = r.name ∧ s.namespaceName = r.namespaceName) ∧ s.droppedAt = none ∧
      s.lifecycleState = state) ⟨⟨rfl, rfl⟩, hscope.1, hstate⟩
  have hjoined : m ∈ joined t ⟨namespaceName, some state⟩ := by
    refine (mem_filtered h).mpr ⟨hm, ⟨hscope.of_named hd hns, hmstate⟩, ?_⟩
    intro s hs hsd hsstate hsname hsns
    exact hle s hs ⟨⟨hsname.trans hname, hsns.trans hns⟩, hsd, hsstate⟩
  obtain ⟨-, hl⟩ := (mem_unfiltered h).mp (hmem m hjoined)
  rw [hname, hns] at hl
  rw [latest_unique h hlatest hl]
  exact hmstate

theorem joined_filter (h : UniqueNames (rows t)) (hlatest : LatestInState (rows t) namespaceName state) :
    joined t ⟨namespaceName, some state⟩ =
      (joined t ⟨namespaceName, none⟩).filter (fun r => r.lifecycleState = state) := by
  rw [joined, joined, List.filter_filter]
  apply List.filter_congr
  intro r hr
  have hmem : ∀ f, maxVersion t f r.name r.namespaceName = some r.version ↔ r ∈ joined t f := by
    intro f
    rw [joined, List.mem_filter, decide_eq_true_iff]
    exact (and_iff_right hr).symm
  rw [← Bool.decide_and, decide_eq_decide, hmem, hmem, mem_filtered h, mem_unfiltered h]
  constructor
  · rintro ⟨-, ⟨hscope, hstate⟩, hle⟩
    refine ⟨hstate, hscope, hr, ⟨rfl, rfl⟩, hscope.1, ?_⟩
    intro s hs hname hns hd
    obtain ⟨latest, hl, ⟨⟨hlname, hlns⟩, hld⟩, hlle⟩ := exists_highest hs
      (p := fun s => (s.name = r.name ∧ s.namespaceName = r.namespaceName) ∧ s.droppedAt = none)
      ⟨⟨hname, hns⟩, hd⟩
    have hlstate := hlatest r hr hscope hstate latest
      ⟨hl, ⟨hlname, hlns⟩, hld, fun x hx hxname hxns hxd => hlle x hx ⟨⟨hxname, hxns⟩, hxd⟩⟩
    exact (hlle s hs ⟨⟨hname, hns⟩, hd⟩).trans (hle latest hl hld hlstate hlname hlns)
  · rintro ⟨hstate, hscope, hl⟩
    exact ⟨hr, ⟨hscope, hstate⟩, fun s hs hd _ hname hns => hl.highest s hs hname hns hd⟩

section Answers

variable (T : FloatText) (E : Engine) (c : Connection catalog)

/-- What `list` answers for a state, with no limit in effect: the contexts it lists without
one that are in it, each as `get` returns it, and their number. -/
def FiltersLatest (namespaceName : Option String) (state : String) : Prop :=
  ∀ limit : Int, Storable limit → limit < 0 ∨ ((rows c.pending).length : Int) ≤ limit → ∃ filtered every total c₁ c₂,
    (handler T E).exec (CatalogService.list T ⟨namespaceName, some state⟩ limit 0) c =
      (.ok (filtered, filtered.length), c₁) ∧
    (handler T E).exec (CatalogService.list T ⟨namespaceName, none⟩ limit 0) c = (.ok (every, total), c₂) ∧
    filtered = every.filter (fun x => x.row.lifecycleState = state) ∧
    ∀ x ∈ filtered, ∃ c₃, (handler T E).exec (CatalogService.get T x.row.name x.row.namespaceName) c = (.ok (some x), c₃)

variable {c}

theorem exec_whole {limit : Int} (hstorable : Storable limit)
    (hlimit : limit < 0 ∨ ((rows c.pending).length : Int) ≤ limit) (f : Filters) :
    (handler T E).exec (CatalogService.list T f limit 0) c =
      (.ok ((listed f c.pending).map (rowToDict T), (joined c.pending f).length), c.advance.advance) := by
  have hlength : (listed f c.pending).length ≤ (rows c.pending).length := by
    rw [(listed_perm f c.pending).length_eq]
    exact List.length_filter_le _ _
  rw [exec_list T E c f hstorable (by decide), page_whole]
  exact hlimit.imp_right fun h => (Int.ofNat_le.mpr hlength).trans h

/-- A filter by state shows the latest versions in it exactly where no context has left the
state with a later version. -/
theorem filters_latest_iff (h : UniqueNames (rows c.pending)) (namespaceName : Option String) (state : String) :
    FiltersLatest T E c namespaceName state ↔ LatestInState (rows c.pending) namespaceName state := by
  constructor
  · intro hfilters
    apply latestInState_of_mem h
    intro r hr
    obtain ⟨filtered, every, total, c₁, c₂, hfiltered, hevery, heq, -⟩ := hfilters (-1) (by decide) (.inl (by decide))
    rw [exec_whole T E (by decide) (.inl (by decide))] at hfiltered hevery
    obtain ⟨rfl, -⟩ := Prod.mk.inj (Except.ok.inj (Prod.mk.inj hfiltered).1)
    obtain ⟨rfl, -⟩ := Prod.mk.inj (Except.ok.inj (Prod.mk.inj hevery).1)
    have hmem : rowToDict T r ∈ (listed ⟨namespaceName, some state⟩ c.pending).map (rowToDict T) :=
      List.mem_map_of_mem ((listed_perm _ _).mem_iff.mpr hr)
    rw [heq] at hmem
    obtain ⟨s, hs, hrow⟩ := List.mem_map.mp (List.mem_filter.mp hmem).1
    obtain rfl : s = r := congrArg Context.row hrow
    exact (listed_perm _ _).mem_iff.mp hs
  · intro hlatest limit hstorable hlimit
    have hfiltered := exec_whole T E hstorable hlimit ⟨namespaceName, some state⟩
    rw [← (listed_perm ⟨namespaceName, some state⟩ c.pending).length_eq, ← List.length_map (rowToDict T)] at hfiltered
    refine ⟨_, _, _, _, _, hfiltered, exec_whole T E hstorable hlimit _, ?_, ?_⟩
    · change (orderBy _ (joined c.pending ⟨namespaceName, some state⟩)).map _ =
        ((orderBy _ (joined c.pending ⟨namespaceName, none⟩)).map _).filter _
      rw [joined_filter h hlatest, List.filter_map, orderBy, orderBy, ← Lib.Ordering.filter_insertionSort]
      rfl
    · intro x hx
      obtain ⟨r, hr, rfl⟩ := List.mem_map.mp hx
      have hr : r ∈ joined c.pending ⟨namespaceName, some state⟩ := (listed_perm _ _).mem_iff.mp hr
      rw [joined_filter h hlatest] at hr
      obtain ⟨-, hl⟩ := (mem_unfiltered h).mp (List.mem_filter.mp hr).1
      have hget := exec_get T E c r.name r.namespaceName
      rw [(latestNamed_eq_some h).mpr hl] at hget
      exact ⟨_, hget⟩

end Answers

section Sample

/-- A context that was made active, and then given a second version, a draft. -/
def revisedCalls : List (Call samplePackages) :=
  [.save { sampleEntry "a" "name" 1 with lifecycleState := "active" } none, .save (sampleEntry "a" "name" 2) none]

def revised : Connection catalog := runCalls (sampleConnection .empty) revisedCalls

theorem filters_latest_iff_sample :
    FiltersLatest samplePackages.floatText sampleEngine revised (some "default") "draft" := by
  exact (filters_latest_iff _ _ (by decide) _ _).mpr (by decide)

/-- The first version is still listed as active. -/
theorem superseded_listed : ¬ ∀ (c : Connection catalog) (namespaceName : Option String) (state : String),
    UniqueNames (rows c.pending) → FiltersLatest samplePackages.floatText sampleEngine c namespaceName state := by
  intro h
  have hunique : UniqueNames (rows revised.pending) := by decide
  have hlatest := (filters_latest_iff _ _ hunique none "active").mp (h revised none "active" hunique)
  exact absurd hlatest (by decide)

end Sample

end ContextqlServer.Db.StateFilter
