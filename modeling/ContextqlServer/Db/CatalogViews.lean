import ContextqlServer.Db.RestCatalog
import ContextqlServer.Db.VersionedMap
import ContextqlServer.Lib.Ordering

namespace ContextqlServer.Db.CatalogViews

open ContextqlServer.Lib.Effect ContextqlServer.Lib.JsonText ContextqlServer.Lib.Sql
open ContextqlServer.Db.Schema ContextqlServer.Db.Statements ContextqlServer.Db.Services
open ContextqlServer.Db.ContextCatalog ContextqlServer.Db.ContextCatalog.SQLiteContextRuntimeRepository
open ContextqlServer.Db.Calls ContextqlServer.Db.Codec ContextqlServer.Db.Runs
open ContextqlServer.Db.ContextRows ContextqlServer.Db.RestCatalog

variable {P : Packages} {t t' : Tables} {rs : List ContextRow}

section Named

variable {name namespaceName : String} {r : ContextRow}

structure IsLatestNamed (rs : List ContextRow) (name namespaceName : String) (r : ContextRow) : Prop where
  mem : r ∈ rs
  isNamed : r.name = name ∧ r.namespaceName = namespaceName
  droppedAt : r.droppedAt = none
  highest : ∀ s ∈ rs, s.name = name → s.namespaceName = namespaceName → s.droppedAt = none →
    s.version ≤ r.version

theorem mem_liveNamed : r ∈ (rows t).filter (fun r => named name namespaceName r && r.droppedAt.isNone) ↔
    r ∈ rows t ∧ (r.name = name ∧ r.namespaceName = namespaceName) ∧ r.droppedAt = none := by
  rw [List.mem_filter, Bool.and_eq_true, named_iff, Option.isNone_iff_eq_none]

/-- `get` reads the row of the highest version. -/
theorem latestNamed_eq_some (h : UniqueNames (rows t)) :
    latestNamed t name namespaceName = some r ↔ IsLatestNamed (rows t) name namespaceName r := by
  rw [latestNamed, orderBy, Lib.Ordering.head?_eq_some]
  · simp only [mem_liveNamed, OrderDual.toDual_le_toDual]
    constructor
    · rintro ⟨⟨hr, hnamed, hd⟩, hle⟩
      exact ⟨hr, hnamed, hd, fun s hs hname hns hsd => hle s ⟨hs, ⟨hname, hns⟩, hsd⟩⟩
    · intro hl
      refine ⟨⟨hl.mem, hl.isNamed, hl.droppedAt⟩, ?_⟩
      exact fun s hs => hl.highest s hs.1 hs.2.1.1 hs.2.1.2 hs.2.2
  · intro r hr s hs hversion
    obtain ⟨hr, hrn, -⟩ := mem_liveNamed.mp hr
    obtain ⟨hs, hsn, -⟩ := mem_liveNamed.mp hs
    exact h.eq hr hs (hrn.1.trans hsn.1.symm) (hrn.2.trans hsn.2.symm)
      (OrderDual.toDual_inj.mp hversion)

theorem mem_joined_iff (h : UniqueNames (rows t)) {f : Filters} : r ∈ joined t f ↔
    r ∈ rows t ∧ f.accepts r = true ∧ ∀ s ∈ rows t, f.accepts s = true → s.name = r.name →
      s.namespaceName = r.namespaceName → s.version ≤ r.version := by
  have hmem : ∀ s, s ∈ (rows t).filter (fun s => f.accepts s && named r.name r.namespaceName s) ↔
      s ∈ rows t ∧ f.accepts s = true ∧ s.name = r.name ∧ s.namespaceName = r.namespaceName := by
    intro s
    rw [List.mem_filter, Bool.and_eq_true, named_iff]
  rw [joined, List.mem_filter, decide_eq_true_iff, maxVersion, List.max?_eq_some_iff]
  simp only [List.mem_map, forall_exists_index, and_imp, forall_apply_eq_imp_iff₂]
  constructor
  · rintro ⟨hr, ⟨s, hs, hversion⟩, hle⟩
    obtain ⟨hsmem, hsf, hsn⟩ := (hmem s).mp hs
    obtain rfl := h.eq hsmem hr hsn.1 hsn.2 hversion
    exact ⟨hr, hsf, fun s hs hf hname hns => hle s ((hmem s).mpr ⟨hs, hf, hname, hns⟩)⟩
  · rintro ⟨hr, hf, hle⟩
    refine ⟨hr, ⟨r, (hmem r).mpr ⟨hr, hf, rfl, rfl⟩, rfl⟩, ?_⟩
    intro s hs
    obtain ⟨hsmem, hsf, hsn⟩ := (hmem s).mp hs
    exact hle s hsmem hsf hsn.1 hsn.2

theorem mem_joined (h : UniqueNames (rows t)) :
    r ∈ joined t ⟨none, none⟩ ↔ IsLatestNamed (rows t) r.name r.namespaceName r := by
  have haccepts : ∀ s, (⟨none, none⟩ : Filters).accepts s = true ↔ s.droppedAt = none := by
    intro s
    simp [Filters.accepts]
  simp only [mem_joined_iff h, haccepts]
  constructor
  · rintro ⟨hr, hd, hle⟩
    exact ⟨hr, ⟨rfl, rfl⟩, hd, fun s hs hname hns hsd => hle s hs hsd hname hns⟩
  · intro hl
    exact ⟨hl.mem, hl.droppedAt, fun s hs hsd hname hns => hl.highest s hs hname hns hsd⟩

end Named

def Placed (place : String → String × String) (rs : List ContextRow) : Prop :=
  ∀ r ∈ rs, ∀ contextId, r.contextId = some contextId →
    (r.name, r.namespaceName) = place contextId ∧ r.namespaceName ≠ ""

/-- No two contexts are live under one name. -/
def Unshared (rs : List ContextRow) : Prop :=
  ∀ r ∈ rs, ∀ s ∈ rs, r.droppedAt = none → s.droppedAt = none → r.name = s.name →
    r.namespaceName = s.namespaceName → r.contextId = s.contextId

instance (rs : List ContextRow) : Decidable (Unshared rs) :=
  inferInstanceAs (Decidable (∀ r ∈ rs, ∀ s ∈ rs, _ → _ → _ → _ → _))

theorem isLatest_iff {place : String → String × String} (hp : Placed place rs) (hu : Unshared rs)
    {r : ContextRow} {contextId : String} (hid : r.contextId = some contextId) :
    IsLatest rs contextId r ↔ IsLatestNamed rs r.name r.namespaceName r := by
  constructor
  · intro hl
    refine ⟨hl.mem, ⟨rfl, rfl⟩, hl.droppedAt, ?_⟩
    intro s hs hname hns hd
    exact hl.highest s hs ((hu s hs r hl.mem hd hl.droppedAt hname hns).trans hid) hd
  · intro hl
    refine ⟨hl.mem, hid, hl.droppedAt, ?_⟩
    intro s hs hsid hd
    have hplace := (hp s hs _ hsid).1.trans (hp r hl.mem _ hid).1.symm
    exact hl.highest s hs (congrArg Prod.fst hplace) (congrArg Prod.snd hplace) hd

section Invariants

variable {place : String → String × String}

def KeepsPlace (place : String → String × String) : Call P → Prop
  | .save e _ => (e.name, e.namespaceName) = place e.contextId ∧ e.namespaceName ≠ ""
  | _ => True

theorem Placed.map {f : ContextRow → ContextRow} (h : Placed place rs)
    (hf : ∀ r ∈ rs, SamePlace r (f r)) : Placed place (rs.map f) := by
  intro s hs contextId hid
  obtain ⟨r, hr, rfl⟩ := List.mem_map.mp hs
  rw [(hf r hr).contextId] at hid
  rw [(hf r hr).name, (hf r hr).namespaceName]
  exact h r hr contextId hid

theorem Placed.rewrites (h : Placed place (rows t)) {call : Call P} (hc : KeepsPlace place call)
    (hw : Rewrites t t' call) : Placed place (rows t') := by
  obtain ⟨e, rawDdl, rfl, hs⟩ | ⟨f, hrows, hf⟩ := hw.saved_or_mapped
  · intro s hmem contextId hid
    obtain hmem | ⟨raw, hvalues⟩ := hs.mem hmem
    · exact h s hmem contextId hid
    · rw [hvalues] at hid ⊢
      obtain rfl := Option.some.inj hid
      exact hc
  · rw [hrows]
    exact h.map (fun r _ => hf r)

end Invariants

section Exec

variable (T : FloatText) (E : Engine) (c : Connection catalog)

theorem exec_get (name namespaceName : String) :
    (handler T E).exec (CatalogService.get T name namespaceName) c =
      (.ok ((latestNamed c.pending name namespaceName).map (rowToDict T)), c.advance) := rfl

/-- What `list` orders by the name. -/
def listed (f : Filters) (t : Tables) : List ContextRow :=
  orderByName (fun r => r.name) (fun r => r.namespaceName) (joined t f)

theorem listed_perm (f : Filters) (t : Tables) : (listed f t).Perm (joined t f) := List.perm_insertionSort _ _

theorem exec_list (f : Filters) {limit offset : Int} (hlimit : Storable limit) (hoffset : Storable offset) :
    (handler T E).exec (CatalogService.list T f limit offset) c =
      (.ok ((page limit offset (listed f c.pending)).map (rowToDict T), (joined c.pending f).length),
        c.advance.advance) := by
  rw [CatalogService.list, bindPage_ok hlimit hoffset]
  rfl

end Exec

theorem page_whole {α : Type} {limit : Int} {xs : List α} (h : limit < 0 ∨ (xs.length : Int) ≤ limit) :
    page limit 0 xs = xs := by
  rw [page]
  rw [Int.toNat_zero, List.drop_zero]
  split
  · rfl
  · exact List.take_of_length_le (by omega)

/-- What both views show of a context: its name, its id and its version. -/
abbrev Listing := String × String × Option String × Int

def rowListing (r : ContextRow) : Listing := (r.name, r.namespaceName, r.contextId, r.version)

def entryListing (e : ContextCatalogEntry P) : Listing :=
  (e.name, e.namespaceName, some e.contextId, e.version)

section Agreement

variable {place : String → String × String} {es : List (ContextCatalogEntry P)}

theorem nodup_rows (h : Keyed rs) : rs.Nodup := by
  refine h.versions.imp ?_
  rintro r s hne rfl
  exact hne rfl rfl

/-- The two queries pick the same rows. -/
theorem joined_perm (hk : Keyed (rows t)) (hp : Placed place (rows t)) (hu : Unshared (rows t)) :
    (joined t ⟨none, none⟩).Perm ((latestRows t).map Prod.snd) := by
  have hjoined : (joined t ⟨none, none⟩).Nodup := (nodup_rows hk).filter _
  have hlatest : ((latestRows t).map Prod.snd).Nodup := by
    refine List.Nodup.map_on ?_ (List.Nodup.of_map _ (latestRows_nodup hk))
    rintro ⟨k, r⟩ hx ⟨k', r'⟩ hy heq
    obtain rfl : r = r' := heq
    have hid := (mem_latestRows.mp hx).identified.symm.trans (mem_latestRows.mp hy).identified
    rw [Option.some.inj hid]
  rw [List.perm_ext_iff_of_nodup hjoined hlatest]
  intro r
  rw [mem_joined hk.names, List.mem_map]
  constructor
  · intro hl
    obtain ⟨contextId, hid⟩ := Option.isSome_iff_exists.mp (hk.identified r hl.mem)
    exact ⟨(contextId, r), mem_latestRows.mpr ((isLatest_iff hp hu hid).mpr hl), rfl⟩
  · rintro ⟨⟨contextId, s⟩, hs, rfl⟩
    have hl := mem_latestRows.mp hs
    exact (isLatest_iff hp hu hl.identified).mp hl

theorem loaded_listings (hp : Placed place (rows t)) (hes : loaded P t = .ok es) :
    es.map entryListing = (latestRows t).map (fun x => rowListing x.2) := by
  refine map_of_mapM hes ?_
  rintro ⟨contextId, r⟩ hr e he
  have hl := mem_latestRows.mp hr
  rw [copied he]
  simp only [entryListing, rowListing, rowEntry, hl.identified,
    orElse_some (hp r hl.mem contextId hl.identified).2]

/-- An entry and the row that `get` reads of its name. -/
theorem latestNamed_of_loaded (hk : Keyed (rows t)) (hp : Placed place (rows t)) (hu : Unshared (rows t))
    (hes : loaded P t = .ok es) {e : ContextCatalogEntry P} (he : e ∈ es) :
    ∃ r, latestNamed t e.name e.namespaceName = some r ∧ rowListing r = entryListing e := by
  obtain ⟨r, hr, hre⟩ := (mem_loaded hes).mp he
  have hl := (isLatest_iff hp hu hr.identified).mp hr
  have hlisting : rowListing r = entryListing e := by
    rw [copied hre]
    simp only [entryListing, rowListing, rowEntry, hr.identified,
      orElse_some (hp r hr.mem _ hr.identified).2]
  refine ⟨r, (latestNamed_eq_some hk.names).mpr ?_, hlisting⟩
  obtain ⟨hname, hns, -⟩ := Prod.mk.inj hlisting |>.imp id Prod.mk.inj
  rwa [← hname, ← hns]

theorem loaded_of_latestNamed (hk : Keyed (rows t)) (hp : Placed place (rows t))
    (hu : Unshared (rows t)) (hes : loaded P t = .ok es) {name namespaceName : String} {r : ContextRow}
    (hr : latestNamed t name namespaceName = some r) :
    ∃ e ∈ es, e.name = name ∧ e.namespaceName = namespaceName := by
  have hl := (latestNamed_eq_some hk.names).mp hr
  obtain ⟨rfl, rfl⟩ := hl.isNamed
  obtain ⟨contextId, hid⟩ := Option.isSome_iff_exists.mp (hk.identified r hl.mem)
  have hmem := mem_latestRows.mpr ((isLatest_iff hp hu hid).mpr hl)
  have hlistings := loaded_listings hp hes
  have hlisting : rowListing r ∈ es.map entryListing := by
    rw [hlistings]
    exact List.mem_map.mpr ⟨_, hmem, rfl⟩
  obtain ⟨e, he, heq⟩ := List.mem_map.mp hlisting
  obtain ⟨hname, hns, -⟩ := Prod.mk.inj heq |>.imp id Prod.mk.inj
  exact ⟨e, he, hname, hns⟩

end Agreement

section Views

variable {c₀ c : Connection catalog} {h : List (Entry P)} {place : String → String × String}

theorem reaches_placed (h₀ : Fresh c₀) (hr : Reaches c₀ h c) (hplace : ∀ e ∈ h, KeepsPlace place e.1) :
    Placed place (rows c.pending) := by
  refine (h₀.invariant (J := fun t => Placed place (rows t)) hr hplace ?_ ?_).2
  · exact fun call t t' hc hw hp => hp.rewrites hc hw
  · intro t ht
    rw [ht]
    exact List.forall_mem_nil _

/-- What `list` and `get` show of the catalog is what `load_contexts` returns, once
each context keeps its name and no two of them are live under one. -/
theorem views_agree (T : FloatText) (E : Engine) (h₀ : Fresh c₀) (hr : Reaches c₀ h c)
    (hplace : ∀ e ∈ h, KeepsPlace place e.1) (hu : Unshared (rows c.pending)) :
    ((∀ e ∈ h, SavesPlain e.1) →
      ∃ es, (Connection.handler catalog).exec (loadContexts P) c = (.ok es, c.advance)) ∧
    ∀ es, (Connection.handler catalog).exec (loadContexts P) c = (.ok es, c.advance) →
      (∀ limit : Int, Storable limit → limit < 0 ∨ (es.length : Int) ≤ limit → ∃ xs c',
        (handler T E).exec (CatalogService.list T ⟨none, none⟩ limit 0) c =
          (.ok (xs, es.length), c') ∧
        (xs.map (fun x => rowListing x.row)).Perm (es.map entryListing)) ∧
      ∀ name namespaceName, ∃ found c',
        (handler T E).exec (CatalogService.get T name namespaceName) c = (.ok found, c') ∧
        (∀ e ∈ es, e.name = name → e.namespaceName = namespaceName →
          found.map (fun x => rowListing x.row) = some (entryListing e)) ∧
        (found = none ↔ ∀ e ∈ es, ¬ (e.name = name ∧ e.namespaceName = namespaceName)) := by
  have hk := (reaches_keyed h₀ hr).2
  have hp := reaches_placed h₀ hr hplace
  refine ⟨?_, ?_⟩
  · intro hplain
    obtain ⟨es, hes⟩ := loaded_total (reaches_legible h₀ hr hplain)
    exact ⟨es, (exec_loadContexts P c).trans (by rw [hes])⟩
  intro es hes
  have hes : loaded P c.pending = .ok es := (Prod.mk.inj ((exec_loadContexts P c).symm.trans hes)).1
  have hperm := (joined_perm hk hp hu).map rowListing
  rw [List.map_map] at hperm
  have hlist : ((joined c.pending ⟨none, none⟩).map rowListing).Perm (es.map entryListing) :=
    (loaded_listings hp hes).symm ▸ hperm
  have hlength : (joined c.pending ⟨none, none⟩).length = es.length := by
    rw [← List.length_map (f := rowListing), hlist.length_eq, List.length_map]
  refine ⟨?_, ?_⟩
  · intro limit hstorable hlimit
    have hsort := listed_perm ⟨none, none⟩ c.pending
    have hwhole := page_whole
      (by
        rw [hsort.length_eq, hlength]
        exact hlimit)
    refine ⟨_, _, (exec_list T E c _ hstorable (by decide)).trans (by rw [hwhole, hlength]), ?_⟩
    rw [List.map_map]
    exact (hsort.map rowListing).trans hlist
  · intro name namespaceName
    refine ⟨_, _, exec_get T E c name namespaceName, ?_, ?_⟩
    · rintro e he rfl rfl
      obtain ⟨r, hr, hlisting⟩ := latestNamed_of_loaded hk hp hu hes he
      rw [hr]
      exact congrArg some hlisting
    · rw [Option.map_eq_none_iff]
      constructor
      · rintro hnone e he ⟨rfl, rfl⟩
        obtain ⟨r, hr, -⟩ := latestNamed_of_loaded hk hp hu hes he
        rw [hnone] at hr
        cases hr
      · intro hnone
        rw [Option.eq_none_iff_forall_ne_some]
        intro r hr
        obtain ⟨e, he, hname⟩ := loaded_of_latestNamed hk hp hu hes hr
        exact hnone e he hname

end Views

section Sample

def sampleEngine : Engine := ⟨fun _ c => (.error (.engine "unsupported"), c)⟩

open VersionedMap in
theorem views_agree_sample : ∃ xs c',
    (handler samplePackages.floatText sampleEngine).exec
        (CatalogService.list samplePackages.floatText ⟨none, none⟩ 100 0)
        (runCalls (sampleConnection .empty) sampleCalls) = (.ok (xs, 1), c') ∧
      xs.map (fun x => rowListing x.row) = [("name", "default", some "a", 2)] := by
  have hr := runCalls_reaches (c := sampleConnection .empty) .start sampleCalls
  have hmem : ∀ e ∈ outcomes (sampleConnection .empty) sampleCalls, e.1 ∈ sampleCalls := by
    intro e he
    rw [← outcomes_calls (sampleConnection .empty) sampleCalls]
    exact List.mem_map_of_mem he
  have hplace : ∀ e ∈ outcomes (sampleConnection .empty) sampleCalls,
      KeepsPlace (fun k => (if k = "a" then "name" else "other", "default")) e.1 := by
    intro e he
    have hcall := hmem e he
    simp only [sampleCalls, List.mem_cons, List.not_mem_nil, or_false] at hcall
    obtain hcall | hcall | hcall | hcall | hcall := hcall <;> rw [hcall]
    · exact ⟨by decide, by decide⟩
    · exact ⟨by decide, by decide⟩
    · exact ⟨by decide, by decide⟩
    · trivial
    · trivial
  have hplain : ∀ e ∈ outcomes (sampleConnection .empty) sampleCalls, SavesPlain e.1 := by
    intro e he
    have hproper := sampleCalls_proper e.1 (hmem e he)
    obtain ⟨call, out⟩ := e
    cases call with
    | save entry rawDdl => exact hproper.toJsonPlain
    | _ => trivial
  obtain ⟨htotal, hagree⟩ := views_agree samplePackages.floatText sampleEngine ⟨rfl, rfl⟩ hr hplace
    (by decide)
  obtain ⟨es, hes⟩ := htotal hplain
  have hlistings : (loaded samplePackages (runCalls (sampleConnection .empty) sampleCalls).pending).map
      (fun es => es.map entryListing) = .ok [("name", "default", some "a", 2)] := by decide
  have hes' := (exec_loadContexts samplePackages _).symm.trans hes
  rw [(Prod.mk.inj hes').1] at hlistings
  have hlistings : es.map entryListing = [("name", "default", some "a", 2)] := Except.ok.inj hlistings
  have hone : es.length = 1 := by simpa using congrArg List.length hlistings
  obtain ⟨xs, c', hlist, hperm⟩ := (hagree es hes).1 100 (by decide) (.inr (by rw [hone]; decide))
  rw [hlistings] at hperm
  rw [hone] at hlist
  exact ⟨xs, c', hlist, List.perm_singleton.mp hperm⟩

def unnamedCalls : List (Call samplePackages) :=
  [.save { sampleEntry "a" "name" 1 with namespaceName := "" } none]

/-- A namespace that is the empty text is another one for `load_contexts`. -/
theorem views_disagree :
    let c := runCalls (sampleConnection .empty) unnamedCalls
    Successful (outcomes (sampleConnection .empty) unnamedCalls) ∧ Unshared (rows c.pending) ∧
      ((Connection.handler catalog).exec (loadContexts samplePackages) c).1.map
          (fun es => es.map entryListing) = .ok [("name", "default", some "a", 1)] ∧
      ((handler samplePackages.floatText sampleEngine).exec
          (CatalogService.list samplePackages.floatText ⟨none, none⟩ 100 0) c).1.map
          (fun x => x.1.map (fun x => rowListing x.row)) = .ok [("name", "", some "a", 1)] := by
  refine ⟨successful_iff.mpr (by decide), by decide, by decide, by decide⟩

end Sample

end ContextqlServer.Db.CatalogViews
