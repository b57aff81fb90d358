import ContextqlServer.Db.ContextRows
import ContextqlServer.Lib.Versioned

namespace ContextqlServer.Db.VersionedMap

open ContextqlServer.Lib.Effect ContextqlServer.Lib.Isoformat ContextqlServer.Lib.JsonRead
open ContextqlServer.Lib.Rely ContextqlServer.Lib.Sql ContextqlServer.Lib.Versioned
open ContextqlServer.Db.Schema ContextqlServer.Db.Statements ContextqlServer.Db.Services
open ContextqlServer.Db.ContextCatalog ContextqlServer.Db.ContextCatalog.SQLiteContextRuntimeRepository
open ContextqlServer.Db.Calls ContextqlServer.Db.Codec ContextqlServer.Db.Runs
open ContextqlServer.Db.ContextRows

variable {P : Packages} {t t' : Tables} {rs : List ContextRow}

/-- The catalog as the callers of the repository see it. -/
abbrev Catalog (P : Packages) := VersionMap String Int (ContextCatalogEntry P)

def pointed (p : Promotion P) (e : ContextCatalogEntry P) : ContextCatalogEntry P :=
  { e with
    currentSnapshotVersion := some p.snapshot.version
    lastRefreshedAt := p.entry.lastRefreshedAt
    dataAsOf := p.entry.dataAsOf
    lastRefreshError := none }

def apply (m : Catalog P) : Call P → Catalog P
  | .save e _ => m.save e.contextId e.version e
  | .drop e => m.drop e.contextId
  | .promote p => m.modify p.entry.contextId p.entry.version (pointed p)
  | .prune .. | .record .. => m

def replay (calls : List (Call P)) : Catalog P := calls.foldl apply VersionMap.empty

structure Represents (r : ContextRow) (x : Version (ContextCatalogEntry P)) : Prop where
  stores : Stores r x.entry
  dropped : r.droppedAt.isSome = x.dropped

theorem Represents.contextId {r : ContextRow} {x : Version (ContextCatalogEntry P)}
    (h : Represents r x) : r.contextId = some x.entry.contextId := by
  obtain ⟨rawDdl, hr⟩ := h.stores
  exact congrArg ContextValues.contextId hr

theorem Represents.version {r : ContextRow} {x : Version (ContextCatalogEntry P)}
    (h : Represents r x) : r.version = x.entry.version := by
  obtain ⟨rawDdl, hr⟩ := h.stores
  exact congrArg ContextValues.version hr

theorem Represents.atVersion {r : ContextRow} {x : Version (ContextCatalogEntry P)} (h : Represents r x)
    {contextId : String} {version : Int} :
    atVersion contextId version r = true ↔ x.entry.contextId = contextId ∧ x.entry.version = version := by
  rw [atVersion_iff, h.contextId, h.version, Option.some.injEq]

structure Refines (rs : List ContextRow) (m : Catalog P) : Prop where
  keyed : Keyed rs
  sound : ∀ r ∈ rs, ∃ x, m x.entry.contextId x.entry.version = some x ∧ Represents r x
  complete : ∀ k v x, m k v = some x →
    x.entry.contextId = k ∧ x.entry.version = v ∧ ∃ r ∈ rs, Represents r x

namespace Refines

variable {m : Catalog P}

theorem empty : Refines [] (VersionMap.empty : Catalog P) where
  keyed := .nil
  sound := List.forall_mem_nil _
  complete _ _ _ h := by cases h

theorem map (h : Refines rs m) {f : ContextRow → ContextRow} (hkeyed : Keyed (rs.map f))
    {g : String → Int → Version (ContextCatalogEntry P) → Version (ContextCatalogEntry P)}
    (hg : ∀ k v x, m k v = some x →
      (g k v x).entry.contextId = k ∧ (g k v x).entry.version = v)
    (hf : ∀ r ∈ rs, ∀ x, m x.entry.contextId x.entry.version = some x → Represents r x →
      Represents (f r) (g x.entry.contextId x.entry.version x)) :
    Refines (rs.map f) (fun k v => (m k v).map (g k v)) where
  keyed := hkeyed
  sound s hs := by
    obtain ⟨r, hr, rfl⟩ := List.mem_map.mp hs
    obtain ⟨x, hx, hrx⟩ := h.sound r hr
    obtain ⟨hid, hversion⟩ := hg _ _ x hx
    refine ⟨g x.entry.contextId x.entry.version x, ?_, hf r hr x hx hrx⟩
    rw [hid, hversion, hx, Option.map_some]
  complete k v y hy := by
    obtain ⟨x, hx, rfl⟩ := Option.map_eq_some_iff.mp hy
    obtain ⟨rfl, rfl, r, hr, hrx⟩ := h.complete k v x hx
    obtain ⟨hid, hversion⟩ := hg _ _ x hx
    exact ⟨hid, hversion, f r, List.mem_map_of_mem hr, hf r hr x hx hrx⟩

theorem savedOver (h : Refines rs m) {e : ContextCatalogEntry P} {rawDdl : Option String} {now : String}
    (hkeyed : Keyed (rs.map (savedOver e rawDdl now)))
    (hexists : ∃ r ∈ rs, atVersion e.contextId e.version r) :
    Refines (rs.map (savedOver e rawDdl now)) (m.save e.contextId e.version e) := by
  obtain ⟨r₀, hr₀, hat⟩ := hexists
  obtain ⟨x₀, hx₀, hrx₀⟩ := h.sound r₀ hr₀
  obtain ⟨hid, hversion⟩ := hrx₀.atVersion.mp hat
  rw [hid, hversion] at hx₀
  rw [VersionMap.save_of_some m hx₀]
  apply h.map hkeyed
  · intro k v x hx
    obtain ⟨hk, hv, -⟩ := h.complete k v x hx
    split
    · rename_i hkv
      exact ⟨hkv.1.symm, hkv.2.symm⟩
    · exact ⟨hk, hv⟩
  · intro r hr x hx hrx
    cases hat : atVersion e.contextId e.version r with
    | false =>
      rw [savedOver_off e rawDdl now hat, if_neg]
      · exact hrx
      · intro hplace
        rw [hrx.atVersion.mpr hplace] at hat
        cases hat
    | true =>
      rw [if_pos (hrx.atVersion.mp hat)]
      refine ⟨⟨_, savedOver_at e rawDdl now hat⟩, ?_⟩
      rw [(savedOver_place e rawDdl now).2.2]
      exact hrx.dropped

theorem inserted (h : Refines rs m) {e : ContextCatalogEntry P} {rawDdl : Option String} {row : ContextRow}
    (hkeyed : Keyed (rs ++ [row])) (hrow : Inserted e rawDdl row)
    (hnew : ∀ r ∈ rs, atVersion e.contextId e.version r = false) :
    Refines (rs ++ [row]) (m.save e.contextId e.version e) := by
  have hnone : m e.contextId e.version = none := by
    rw [Option.eq_none_iff_forall_ne_some]
    intro x hx
    obtain ⟨hid, hversion, r, hr, hrx⟩ := h.complete _ _ x hx
    have := hnew r hr
    rw [hrx.atVersion.mpr ⟨hid, hversion⟩] at this
    cases this
  have hself : m.save e.contextId e.version e e.contextId e.version = some ⟨e, false⟩ := by
    rw [VersionMap.save, if_pos ⟨rfl, rfl⟩, hnone]
    rfl
  have hrep : Represents row (⟨e, false⟩ : Version (ContextCatalogEntry P)) := by
    refine ⟨⟨rawDdl, hrow.values⟩, ?_⟩
    rw [hrow.droppedAt]
    rfl
  refine ⟨hkeyed, ?_, ?_⟩
  · intro r hr
    obtain hr | hr := List.mem_append.mp hr
    · obtain ⟨x, hx, hrx⟩ := h.sound r hr
      refine ⟨x, ?_, hrx⟩
      rw [VersionMap.save, if_neg]
      · exact hx
      · rintro ⟨hid, hversion⟩
        rw [hid, hversion, hnone] at hx
        cases hx
    · rw [List.mem_singleton.mp hr]
      exact ⟨⟨e, false⟩, hself, hrep⟩
  · intro k v x hx
    by_cases hkv : k = e.contextId ∧ v = e.version
    · obtain ⟨rfl, rfl⟩ := hkv
      obtain rfl := Option.some.inj (hself.symm.trans hx)
      exact ⟨rfl, rfl, row, List.mem_append_right _ (List.mem_singleton_self row), hrep⟩
    · rw [VersionMap.save, if_neg hkv] at hx
      obtain ⟨hid, hversion, r, hr, hrx⟩ := h.complete k v x hx
      exact ⟨hid, hversion, r, List.mem_append_left _ hr, hrx⟩

theorem save (h : Refines (rows t) m) {e : ContextCatalogEntry P} {rawDdl : Option String}
    (hs : Saved e rawDdl t t') : Refines (rows t') (m.save e.contextId e.version e) := by
  have hkeyed := h.keyed.saved hs
  cases hs with
  | update now hexists hkey hname ht =>
    obtain rfl := ht
    exact h.savedOver hkeyed hexists
  | insert row hrow hkey hnew hname ht =>
    obtain rfl := ht
    exact h.inserted hkeyed hrow hnew

theorem rewrites (h : Refines (rows t) m) {call : Call P} (hw : Rewrites t t' call) :
    Refines (rows t') (apply m call) := by
  have hkeyed := h.keyed.rewrites hw
  have hsame : ∀ {k v x}, m k v = some x → x.entry.contextId = k ∧ x.entry.version = v :=
    fun hx => ⟨(h.complete _ _ _ hx).1, (h.complete _ _ _ hx).2.1⟩
  cases hw with
  | prune hrows => rwa [hrows]
  | save hs => exact h.save hs
  | @drop e now droppedAt hrows =>
    rw [hrows] at hkeyed ⊢
    rw [apply, VersionMap.drop_eq]
    apply h.map hkeyed
    · intro k v x hx
      have hkey := hsame hx
      split <;> exact hkey
    · intro r hr x hx hrx
      by_cases hid : x.entry.contextId = e.contextId
      · rw [if_pos hid, droppedAs, if_pos (hrx.contextId.trans (congrArg some hid))]
        exact ⟨hrx.stores, rfl⟩
      · rw [if_neg hid, droppedAs, if_neg]
        · exact hrx
        · exact fun hr => hid (Option.some.inj (hrx.contextId.symm.trans hr))
  | @record contextId version executedAt now hrows =>
    rw [hrows] at hkeyed ⊢
    have hmap := h.map hkeyed (g := fun _ _ x => x) (fun k v x hx => hsame hx) (by
      intro r hr x hx hrx
      rw [executedAs]
      split
      · exact ⟨hrx.stores, hrx.dropped⟩
      · exact hrx)
    have hid : (fun k v => (m k v).map (fun x => x)) = m := by
      funext k v
      exact Option.map_id'
    rwa [hid] at hmap
  | @promote p now hrows =>
    rw [hrows] at hkeyed ⊢
    rw [apply, VersionMap.modify_eq]
    apply h.map hkeyed
    · intro k v x hx
      have hkey := hsame hx
      split <;> exact hkey
    · intro r hr x hx hrx
      by_cases hkv : x.entry.contextId = p.entry.contextId ∧ x.entry.version = p.entry.version
      · rw [if_pos hkv, pointedAs, if_pos (hrx.atVersion.mpr hkv)]
        obtain ⟨rawDdl, hvalues⟩ := hrx.stores
        refine ⟨⟨rawDdl, ?_⟩, hrx.dropped⟩
        rw [hvalues]
        rfl
      · rw [if_neg hkv, pointedAs, if_neg]
        · exact hrx
        · exact fun hat => hkv (hrx.atVersion.mp hat)

end Refines

theorem performs_refines {calls : List (Call P)} (hp : Performs calls t t') (h : rows t = []) :
    Refines (rows t') (replay calls) := by
  induction hp with
  | nil t =>
    rw [h]
    exact .empty
  | snoc _ hc ih =>
    rw [replay, List.foldl_append]
    exact (ih h).rewrites (rewrites_of_effect hc)

/-- The arguments of a call are as its callers make them. -/
def Proper : Call P → Prop
  | .save e _ => WellFormed e
  | .promote p => (∀ d, p.entry.lastRefreshedAt = some d → Aware d) ∧
      ∀ d, p.entry.dataAsOf = some d → Aware d
  | _ => True

def AllWellFormed (m : Catalog P) : Prop := ∀ k v x, m k v = some x → WellFormed x.entry

theorem apply_wellFormed {m : Catalog P} (h : AllWellFormed m) {call : Call P} (hc : Proper call) :
    AllWellFormed (apply m call) := by
  intro k v x hx
  cases call with
  | save e rawDdl =>
    rw [apply, VersionMap.save] at hx
    split at hx
    · obtain rfl := Option.some.inj hx
      exact hc
    · exact h k v x hx
  | drop e =>
    rw [apply, VersionMap.drop_eq] at hx
    obtain ⟨y, hy, rfl⟩ := Option.map_eq_some_iff.mp hx
    have hwell := h k v y hy
    split <;> exact hwell
  | promote p =>
    rw [apply, VersionMap.modify_eq] at hx
    obtain ⟨y, hy, rfl⟩ := Option.map_eq_some_iff.mp hx
    have hwell := h k v y hy
    split
    · exact ⟨⟨hwell.tags, hwell.dependencies, hwell.composition, hwell.materialization, hwell.rebuilt⟩,
        hwell.namespaceName, hwell.sourceKind, hwell.isTemporal, hc.1, hc.2, hwell.historyAvailableFrom⟩
    · exact hwell
  | prune entry cutoff => exact h k v x hx
  | record contextId version executedAt => exact h k v x hx

theorem replay_wellFormed {calls : List (Call P)} (h : ∀ call ∈ calls, Proper call) :
    AllWellFormed (replay calls) := by
  induction calls using List.reverseRecOn with
  | nil => exact fun _ _ _ hx => by cases hx
  | append_singleton calls call ih =>
    rw [replay, List.foldl_append]
    exact apply_wellFormed (ih (fun c hc => h c (by simp [hc]))) (h call (by simp))

def ByName (es : List (ContextCatalogEntry P)) : Prop :=
  es.Pairwise (fun e e' => toLex (e.namespaceName, e.name) ≤ toLex (e'.namespaceName, e'.name))

/-- The entries are those of the latest versions of the catalog. -/
structure Lists (m : Catalog P) (es : List (ContextCatalogEntry P)) : Prop where
  byName : ByName es
  once : (es.map (fun e => e.contextId)).Nodup
  latest : ∀ e, e ∈ es ↔ m.Latest e.contextId e.version e
  covers : ∀ k, (∃ e ∈ es, e.contextId = k) ↔ ∃ v e, m k v = some ⟨e, false⟩

section Latest

variable {m : Catalog P} {k : String}

theorem Refines.latest (h : Refines (rows t) m) {r : ContextRow} (hr : IsLatest (rows t) k r) :
    ∃ e : ContextCatalogEntry P, Stores r e ∧ e.contextId = k ∧ e.version = r.version ∧
      m.Latest k r.version e := by
  obtain ⟨⟨e, dropped⟩, hx, hrx⟩ := h.sound r hr.mem
  have hid : e.contextId = k := Option.some.inj (hrx.contextId.symm.trans hr.identified)
  obtain rfl : dropped = false := by
    have hd := hrx.dropped
    rw [hr.droppedAt] at hd
    exact hd.symm
  refine ⟨e, hrx.stores, hid, hrx.version.symm, ?_, ?_⟩
  · rw [← hid, hrx.version]
    exact hx
  · intro v e' hv
    obtain ⟨hk, hversion, s, hs, hse⟩ := h.complete k v _ hv
    obtain rfl : e'.version = v := hversion
    rw [← hse.version]
    refine hr.highest s hs (hse.contextId.trans (congrArg some hk)) ?_
    exact Option.not_isSome_iff_eq_none.mp (by simp [hse.dropped])

theorem Refines.isLatest (h : Refines (rows t) m) {v : Int} {e : ContextCatalogEntry P}
    (hl : m.Latest k v e) : ∃ r, IsLatest (rows t) k r ∧ Stores r e ∧ r.version = v := by
  obtain ⟨hk, hversion, r, hr, hre⟩ := h.complete k v _ hl.entry
  obtain rfl : e.contextId = k := hk
  obtain rfl : e.version = v := hversion
  refine ⟨r, ⟨hr, hre.contextId, ?_, ?_⟩, hre.stores, hre.version⟩
  · exact Option.not_isSome_iff_eq_none.mp (by simp [hre.dropped])
  · intro s hs hid hd
    obtain ⟨⟨e', dropped⟩, hx, hsx⟩ := h.sound s hs
    obtain rfl : dropped = false := by
      have hd' := hsx.dropped
      rw [hd] at hd'
      exact hd'.symm
    have hid' : e'.contextId = e.contextId := Option.some.inj (hsx.contextId.symm.trans hid)
    rw [hre.version, hsx.version]
    exact hl.highest _ _ (hid' ▸ hx)

theorem Refines.lists (hP : Lawful P) (h : Refines (rows t) m) (hm : AllWellFormed m) :
    ∃ es, loaded P t = .ok es ∧ Lists m es := by
  have hread : ∀ k r, IsLatest (rows t) k r → ∃ e : ContextCatalogEntry P,
      entryFromRow P k r = .ok e ∧ Stores r e ∧ m.Latest k r.version e := by
    intro k r hr
    obtain ⟨e, hstores, rfl, -, hl⟩ := h.latest hr
    exact ⟨e, hstores.entryFromRow hP (hm _ _ _ hl.entry), hstores, hl⟩
  obtain ⟨es, hes⟩ : ∃ es, loaded P t = .ok es := by
    apply mapM_total
    rintro ⟨k, r⟩ hr
    obtain ⟨e, he, -⟩ := hread k r (mem_latestRows.mp hr)
    exact ⟨e, he⟩
  have hmem : ∀ e, e ∈ es ↔ m.Latest e.contextId e.version e := by
    intro e
    rw [mem_loaded hes]
    constructor
    · rintro ⟨r, hr, he⟩
      obtain ⟨e', he', -, hl⟩ := hread _ r hr
      obtain rfl : e' = e := Except.ok.inj (he'.symm.trans he)
      have hversion : e'.version = r.version := congrArg ContextCatalogEntry.version (copied he)
      rwa [hversion]
    · intro hl
      obtain ⟨r, hr, hstores, -⟩ := h.isLatest hl
      exact ⟨r, hr, hstores.entryFromRow hP (hm _ _ _ hl.entry)⟩
  refine ⟨es, hes, ?_, ?_, hmem, ?_⟩
  · have hkeys : es.map (fun e => toLex (e.namespaceName, e.name)) =
        (latestRows t).map (fun x => toLex (x.2.namespaceName, x.2.name)) := by
      refine map_of_mapM hes ?_
      rintro ⟨k, r⟩ hr e he
      obtain ⟨e', he', ⟨rawDdl, hvalues⟩, -⟩ := hread k r (mem_latestRows.mp hr)
      obtain rfl : e' = e := Except.ok.inj (he'.symm.trans he)
      dsimp only
      rw [hvalues]
      rfl
    have hsorted := List.pairwise_map.mpr (latestRows_sorted t)
    exact List.pairwise_map.mp (hkeys ▸ hsorted)
  · rw [loaded_ids hes]
    exact latestRows_nodup h.keyed
  · intro k
    constructor
    · rintro ⟨e, he, rfl⟩
      exact ⟨e.version, e, ((hmem e).mp he).entry⟩
    · rintro ⟨v, e, hv⟩
      obtain ⟨hk, hversion, r, hr, hre⟩ := h.complete k v _ hv
      have hlive : r ∈ live t k := mem_live.mpr ⟨hr, hre.contextId.trans (congrArg some hk),
        Option.not_isSome_iff_eq_none.mp (by simp [hre.dropped])⟩
      obtain ⟨s, hs⟩ := exists_isLatest hlive
      obtain ⟨e', he', -, hl⟩ := hread k s hs
      obtain rfl : e'.contextId = k := congrArg ContextCatalogEntry.contextId (copied he')
      exact ⟨e', (mem_loaded hes).mpr ⟨s, hs, he'⟩, rfl⟩

end Latest

section Resaved

variable {e : ContextCatalogEntry P} {rawDdl : Option String} {now : String}

def resaved (e : ContextCatalogEntry P) (rawDdl : Option String) (now : String) (r : ContextRow) : ContextRow :=
  if atVersion e.contextId e.version r then { r with rawDdl := rawDdl.or r.rawDdl, updatedAt := now } else r

theorem savedOver_eq {r : ContextRow} (h : atVersion e.contextId e.version r = true → Stores r e) :
    savedOver e rawDdl now r = resaved e rawDdl now r := by
  rw [savedOver, resaved]
  split
  · rename_i hat
    obtain ⟨raw, hvalues⟩ := h hat
    have hagain : e.values (rawDdl.or r.rawDdl) = { r.toContextValues with rawDdl := rawDdl.or r.rawDdl } := by
      rw [hvalues]
      rfl
    rw [hagain]
  · rfl

theorem resaved_contextId (r : ContextRow) : (resaved e rawDdl now r).contextId = r.contextId := by
  rw [resaved]
  split <;> rfl

theorem resaved_version (r : ContextRow) : (resaved e rawDdl now r).version = r.version := by
  rw [resaved]
  split <;> rfl

theorem resaved_droppedAt (r : ContextRow) : (resaved e rawDdl now r).droppedAt = r.droppedAt := by
  rw [resaved]
  split <;> rfl

theorem resaved_place (r : ContextRow) : toLex ((resaved e rawDdl now r).namespaceName, (resaved e rawDdl now r).name) =
    toLex (r.namespaceName, r.name) := by
  rw [resaved]
  split <;> rfl

theorem entryFromRow_resaved (k : String) (r : ContextRow) :
    entryFromRow P k (resaved e rawDdl now r) = entryFromRow P k r := by
  rw [resaved]
  split <;> rfl

theorem latestOf_resaved (ht : rows t' = (rows t).map (resaved e rawDdl now)) (r : ContextRow) :
    latestOf t' (resaved e rawDdl now r) = (latestOf t r).map (Prod.map id (resaved e rawDdl now)) := by
  have hlive (k : String) : (live t' k).map (fun r => r.version) = (live t k).map (fun r => r.version) := by
    rw [live, live]
    change ((rows t').filter _).map _ = ((rows t).filter _).map _
    rw [ht, List.filter_map, List.map_map]
    simp only [Function.comp_def, resaved_contextId, resaved_version, resaved_droppedAt]
  rw [latestOf, latestOf, resaved_contextId]
  cases r.contextId with
  | none => rfl
  | some k =>
    rw [Option.bind_some, Option.bind_some, resaved_droppedAt, resaved_version, hlive]
    split <;> rfl

theorem latestRows_resaved (ht : rows t' = (rows t).map (resaved e rawDdl now)) :
    latestRows t' = (latestRows t).map (Prod.map id (resaved e rawDdl now)) := by
  change orderBy _ ((rows t').filterMap (latestOf t')) = (orderBy _ ((rows t).filterMap (latestOf t))).map _
  have hlatest : latestOf t' ∘ resaved e rawDdl now =
      fun r => (latestOf t r).map (Prod.map id (resaved e rawDdl now)) := funext (latestOf_resaved ht)
  rw [ht, List.filterMap_map, hlatest, ← List.map_filterMap, orderBy, orderBy]
  refine (List.map_insertionSort _ _ _ _ ?_).symm
  intro x _ y _
  simp only [Prod.map_snd, resaved_place]

theorem loaded_resaved (ht : rows t' = (rows t).map (resaved e rawDdl now)) : loaded P t' = loaded P t := by
  rw [loaded, loaded, latestRows_resaved ht, List.mapM_map]
  congr 1
  funext x
  exact entryFromRow_resaved x.1 x.2

end Resaved

theorem save_listed {m : Catalog P} {c : Connection catalog} (h : Refines (rows c.pending) m)
    (hstorable : AllStorable (rows c.pending)) {e : ContextCatalogEntry P} (hl : m.Latest e.contextId e.version e)
    (rawDdl : Option String) :
    ∃ c', (Connection.handler catalog).exec (saveContext e rawDdl) c = (.ok (), c') ∧
      loaded P c'.pending = loaded P c.pending := by
  obtain ⟨r, hr, ⟨raw, hvalues⟩, hversion⟩ := h.isLatest hl
  have hat : atVersion e.contextId e.version r = true := atVersion_iff.mpr ⟨hr.identified, hversion⟩
  have hkey : e.entityKeyName.isSome := by
    have hsome := h.keyed.entityKeys r hr.mem
    rwa [hvalues] at hsome
  have hname : ∀ s ∈ rows c.pending, atVersion e.contextId e.version s = false →
      named e.name e.namespaceName s → s.version ≠ e.version := by
    intro s hs hoff hnamed hsversion
    obtain ⟨hsname, hsns⟩ := named_iff.mp hnamed
    have hrs : r = s := by
      refine UniqueNames.eq h.keyed.names hr.mem hs ?_ ?_ (hversion.trans hsversion.symm)
      · rw [hsname, hvalues]
        rfl
      · rw [hsns, hvalues]
        rfl
    rw [← hrs, hat] at hoff
    cases hoff
  have hints : ∀ n ∈ integers (e.values rawDdl), Storable n := by
    have hrow := hstorable r hr.mem
    rwa [hvalues] at hrow
  obtain ⟨t', ht'⟩ := run_saveStatement rawDdl c.advance.reading hints ⟨r, hr.mem, hat⟩ hkey hname
  refine ⟨_, exec_saveContext_ok ht', ?_⟩
  cases saved_of_run ht' with
  | update now _ _ _ ht =>
    have hrows : rows t' = (rows c.pending).map (resaved e rawDdl now) := by
      rw [ht]
      apply List.map_congr_left
      intro s hs
      apply savedOver_eq
      intro hsat
      obtain ⟨hid, hsversion⟩ := atVersion_iff.mp hsat
      obtain rfl := h.keyed.unique hr.mem hs (hr.identified.trans hid.symm) (hversion.trans hsversion.symm)
      exact ⟨raw, hvalues⟩
    exact loaded_resaved hrows
  | insert row _ _ hnew => exact absurd (hnew r hr.mem) (by simp [hat])

/-- After calls that all went through, `load_contexts` lists the latest versions of
the catalog that they make, and saving one of these entries again changes nothing of the list. -/
theorem catalog_refines (hP : Lawful P) {c₀ c : Connection catalog} {h : List (Entry P)}
    (h₀ : rows c₀.committed = [] ∧ c₀.transaction = none) (hr : Reaches c₀ h c) (hok : Successful h)
    (hproper : ∀ e ∈ h, Proper e.1) :
    ∃ es, (Connection.handler catalog).exec (loadContexts P) c = (.ok es, c.advance) ∧
      Lists (replay (h.map Prod.fst)) es ∧
      ∀ e ∈ es, ∀ rawDdl, ∃ c',
        (Connection.handler catalog).exec (saveContext e rawDdl) c = (.ok (), c') ∧
        (Connection.handler catalog).exec (loadContexts P) c' = (.ok es, c'.advance) := by
  obtain ⟨hnone, hp⟩ := performs_of_successful hr hok h₀.2
  have href : Refines (rows c.pending) (replay (h.map Prod.fst)) := by
    rw [Connection.pending_of_none hnone]
    exact performs_refines hp h₀.1
  have hstorable : AllStorable (rows c.pending) := by
    rw [Connection.pending_of_none hnone]
    exact performs_storable hp h₀.1
  have hwell : AllWellFormed (replay (h.map Prod.fst)) := by
    apply replay_wellFormed
    intro call hcall
    obtain ⟨e, he, rfl⟩ := List.mem_map.mp hcall
    exact hproper e he
  obtain ⟨es, hes, hlists⟩ := href.lists hP hwell
  refine ⟨es, (exec_loadContexts P c).trans (by rw [hes]), hlists, ?_⟩
  intro e he rawDdl
  obtain ⟨c', hsave, hsame⟩ := save_listed href hstorable ((hlists.latest e).mp he) rawDdl
  exact ⟨c', hsave, (exec_loadContexts P c').trans (by rw [hsame, hes])⟩

section Sample

theorem samplePackages_lawful : Lawful samplePackages where
  keyTypeOf _ := rfl
  keyTypeValue _ := (by decide : "UNKNOWN" ≠ "")

theorem sampleEntry_wellFormed (contextId name : String) (version : Int) :
    WellFormed (sampleEntry contextId name version) where
  tags := .arr (List.forall_mem_nil _)
  dependencies := .arr (List.forall_mem_nil _)
  composition := nofun
  materialization := .obj .nil (List.forall_mem_nil _)
  rebuilt := rfl
  namespaceName := (by decide : "default" ≠ "")
  sourceKind := (by decide : "native" ≠ "")
  isTemporal := (by decide : false = true ↔ orElse none "" ≠ "")
  lastRefreshedAt := by
    rintro _ ⟨⟩
    decide
  dataAsOf := by
    rintro _ ⟨⟩
    decide
  historyAvailableFrom := nofun

def sampleCalls : List (Call samplePackages) :=
  [.save (sampleEntry "a" "name" 1) none, .save (sampleEntry "b" "other" 1) none,
    .save (sampleEntry "a" "name" 2) none, .promote (samplePromotion "a" 1 3 [1]),
    .drop (sampleEntry "b" "other" 1)]

theorem sampleCalls_proper : ∀ call ∈ sampleCalls, Proper call := by
  have hpromotion : Proper (.promote (samplePromotion "a" 1 3 [1])) := by
    constructor
    · rintro _ ⟨⟩
      decide
    · rintro _ ⟨⟩
      decide
  intro call hcall
  simp only [sampleCalls, List.mem_cons, List.not_mem_nil, or_false] at hcall
  obtain rfl | rfl | rfl | rfl | rfl := hcall
  · exact sampleEntry_wellFormed "a" "name" 1
  · exact sampleEntry_wellFormed "b" "other" 1
  · exact sampleEntry_wellFormed "a" "name" 2
  · exact hpromotion
  · trivial

theorem catalog_refines_sample :
    ∃ es, (Connection.handler catalog).exec (loadContexts samplePackages)
        (runCalls (sampleConnection .empty) sampleCalls) =
        (.ok es, (runCalls (sampleConnection .empty) sampleCalls).advance) ∧
      es.map (fun e => (e.contextId, e.version)) = [("a", 2)] := by
  have hr := runCalls_reaches (c := sampleConnection .empty) .start sampleCalls
  have hok : Successful (outcomes (sampleConnection .empty) sampleCalls) :=
    successful_iff.mpr (by decide)
  have hproper : ∀ e ∈ outcomes (sampleConnection .empty) sampleCalls, Proper e.1 := by
    intro e he
    apply sampleCalls_proper
    rw [← outcomes_calls (sampleConnection .empty) sampleCalls]
    exact List.mem_map_of_mem he
  obtain ⟨es, hes, hlists, -⟩ := catalog_refines samplePackages_lawful ⟨rfl, rfl⟩ hr hok hproper
  have hkeys : (loaded samplePackages (runCalls (sampleConnection .empty) sampleCalls).pending).map
      (fun es => es.map (fun e => (e.contextId, e.version))) = .ok [("a", 2)] := by decide
  have hes' := (exec_loadContexts samplePackages _).symm.trans hes
  rw [(Prod.mk.inj hes').1] at hkeys
  exact ⟨es, hes, Except.ok.inj hkeys⟩

end Sample

end ContextqlServer.Db.VersionedMap
