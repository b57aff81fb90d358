import ContextqlServer.Db.LegacyRows

namespace ContextqlServer.Db.BackfilledHashes

open ContextqlServer.Lib.Effect ContextqlServer.Lib.Sql
open ContextqlServer.Db.Schema ContextqlServer.Db.Statements ContextqlServer.Db.ContextCatalog
open ContextqlServer.Db.ContextCatalog.SQLiteContextRuntimeRepository
open ContextqlServer.Db.Calls ContextqlServer.Db.ContextRows ContextqlServer.Db.Backfill
open ContextqlServer.Db.LegacyRows

variable {P : Packages} {t : Tables} {r s : ContextRow} {choice : List ContextRow → Nat}

section Bytes

/-- The loop of `toList`, with the bytes left to read. -/
theorem toList_loop (b : ByteArray) {left i : Nat} (hleft : i + left = b.data.size) (read : List UInt8) :
    ByteArray.toList.loop b i read = read.reverse ++ b.data.toList.drop i := by
  induction left generalizing i read with
  | zero =>
    have hdone : b.data.toList.drop i = [] := List.drop_eq_nil_of_le (by simp [← hleft])
    rw [ByteArray.toList.loop, if_neg (by simp [← ByteArray.size_data, ← hleft]), hdone, List.append_nil]
  | succ left ih =>
    have hlt : i < b.data.size := by omega
    have hdrop : b.data.toList.drop i = b.get! i :: b.data.toList.drop (i + 1) := by
      rw [List.drop_eq_getElem_cons (by simpa using hlt)]
      rw [ByteArray.get!, getElem!_pos b.data i hlt, Array.getElem_toList]
    rw [ByteArray.toList.loop, if_pos (by simpa using hlt), ih (by omega), hdrop]
    simp

theorem toUTF8_injective : Function.Injective (fun text : String => text.toUTF8.toList) := by
  intro a b h
  simp only [ByteArray.toList, toList_loop _ (Nat.zero_add _), List.reverse_nil, List.nil_append,
    List.drop_zero] at h
  exact String.toByteArray_inj.mp (ByteArray.ext (Array.toList_inj.mp h))

end Bytes

def ownHash (P : Packages) (r : ContextRow) : String := P.sha256 r.definitionText.toUTF8.toList

/-- Rows as the schema of version 2 leaves them. -/
def Legacy (rs : List ContextRow) : Prop := ∀ r ∈ rs, r.contextId = none ∧ r.definitionHash = none

structure Identifies (P : Packages) (rs rs' : List ContextRow) : Prop where
  own : List.Forall₂ (fun r r' => r'.definitionText = r.definitionText ∧ nameOf r' = nameOf r ∧
    r'.version = r.version ∧ r'.definitionHash = some (ownHash P r)) rs rs'
  equal : ∀ r ∈ rs', ∀ s ∈ rs', r.definitionHash = s.definitionHash ↔ r.definitionText = s.definitionText

def OneText (rs : List ContextRow) : Prop :=
  ∀ r ∈ rs, ∀ s ∈ rs, nameOf r = nameOf s → r.definitionText = s.definitionText

theorem ownHash_inj (hinj : Function.Injective P.sha256) :
    ownHash P r = ownHash P s ↔ r.definitionText = s.definitionText := by
  rw [ownHash, ownHash, hinj.eq_iff, toUTF8_injective.eq_iff]

theorem hashOf_eq (hr : r ∈ rows t) (hnone : r.contextId = none) :
    ∃ s ∈ rows t, nameOf s = nameOf r ∧ hashOf P choice t (nameOf r) = ownHash P s := by
  rw [hashOf]
  dsimp only
  generalize hgroup : ((rows t).filter (fun r => r.contextId = none)).filter
    (named (nameOf r).1 (nameOf r).2) = group
  have hmem : r ∈ group := by
    rw [← hgroup, List.mem_filter, List.mem_filter]
    exact ⟨⟨hr, by simpa using hnone⟩, named_nameOf.mpr rfl⟩
  have hlt : choice group % group.length < group.length := Nat.mod_lt _ (List.length_pos_of_mem hmem)
  have hpick : group[choice group % group.length] ∈ group := List.getElem_mem hlt
  have hsub : ∀ s ∈ group, s ∈ rows t ∧ nameOf s = nameOf r := by
    intro s hs
    rw [← hgroup, List.mem_filter, List.mem_filter] at hs
    exact ⟨hs.1.1, named_nameOf.mp hs.2⟩
  rw [List.getElem?_eq_getElem hlt, Option.elim_some]
  exact ⟨_, (hsub _ hpick).1, (hsub _ hpick).2, rfl⟩

/-- What a construction makes of a row without an id and a hash. -/
theorem definitionHash_assigned {given : String × String → Option (String × String)} {x : String × String}
    (hhash : r.definitionHash = none) (h : given (nameOf r) = some x) :
    (assigned given r).definitionHash = some x.2 := by
  rw [assigned, h]
  simp [hhash]

theorem text_assigned (given : String × String → Option (String × String)) (r : ContextRow) :
    (assigned given r).definitionText = r.definitionText ∧ (assigned given r).version = r.version := by
  unfold assigned
  split <;> exact ⟨rfl, rfl⟩

theorem identifies_iff {rs : List ContextRow} {given : String × String → Option (String × String)}
    (hinj : Function.Injective P.sha256)
    (hgiven : ∀ r ∈ rs, ∃ s ∈ rs, nameOf s = nameOf r ∧
      (assigned given r).definitionHash = some (ownHash P s))
    (hgroup : ∀ r ∈ rs, ∀ s ∈ rs, nameOf r = nameOf s →
      (assigned given r).definitionHash = (assigned given s).definitionHash) :
    Identifies P rs (rs.map (assigned given)) ↔ OneText rs := by
  constructor
  · intro h r hr s hs hname
    have hown := List.forall₂_same.mp (List.forall₂_map_right_iff.mp h.own)
    have heq := hgroup r hr s hs hname
    rw [(hown r hr).2.2.2, (hown s hs).2.2.2, Option.some.injEq] at heq
    exact (ownHash_inj hinj).mp heq
  · intro h
    have hown : ∀ r ∈ rs, (assigned given r).definitionHash = some (ownHash P r) := by
      intro r hr
      obtain ⟨s, hs, hname, hhash⟩ := hgiven r hr
      rw [hhash, ownHash, ownHash, h s hs r hr hname]
    refine ⟨?_, ?_⟩
    · rw [List.forall₂_map_right_iff, List.forall₂_same]
      intro r hr
      obtain ⟨htext, hversion⟩ := text_assigned given r
      exact ⟨htext, nameOf_assigned, hversion, hown r hr⟩
    · simp only [List.forall_mem_map]
      intro r hr s hs
      rw [hown r hr, hown s hs, Option.some.injEq, ownHash_inj hinj, (text_assigned given r).1,
        (text_assigned given s).1]

/-- The constructor of the repository gives every row the hash of its own definition
exactly where no context has versions with different definitions. -/
theorem hashes_identify_iff {c : Connection catalog} (hinj : Function.Injective P.sha256)
    (hlegacy : Legacy (rows c.pending)) (hfresh : NeverRepeats c) (choice : List ContextRow → Nat) :
    (∃ c', (Connection.handler catalog).exec (backfillV2Rows P choice) c = (.ok (), c') ∧
        Identifies P (rows c.pending) (rows c'.pending)) ↔ OneText (rows c.pending) := by
  obtain ⟨c', hrun, -⟩ := hfresh.succeeds (P := P) choice
  obtain ⟨given, index, hrows, hdraws⟩ := backfillV2Rows_assigns hrun
  have hhash : ∀ r ∈ rows c.pending,
      (assigned given r).definitionHash = some (hashOf P choice c.pending (nameOf r)) := by
    intro r hr
    obtain ⟨hid, hnone⟩ := hlegacy r hr
    exact definitionHash_assigned hnone (hdraws.drawn _ (mem_unnamed.mpr ⟨r, hr, hid, rfl⟩)).2.2
  have hiff : Identifies P (rows c.pending) (rows c'.pending) ↔ OneText (rows c.pending) := by
    rw [hrows]
    apply identifies_iff hinj
    · intro r hr
      have hpick : ∃ s ∈ rows c.pending, nameOf s = nameOf r ∧
          hashOf P choice c.pending (nameOf r) = ownHash P s := hashOf_eq hr (hlegacy r hr).1
      obtain ⟨s, hs, hname, heq⟩ := hpick
      exact ⟨s, hs, hname, (hhash r hr).trans (congrArg some heq)⟩
    · intro r hr s hs hname
      rw [hhash r hr, hhash s hs, hname]
  refine ⟨?_, fun h => ⟨c', hrun, hiff.mpr h⟩⟩
  rintro ⟨c₁, hrun', h⟩
  obtain rfl := (Prod.mk.inj (hrun.symm.trans hrun')).2
  exact hiff.mp h

section Sample

def facts : String := "SELECT id FROM facts"

def trades : String := "SELECT id FROM trades"

/-- The digests of two definitions; the others are only told apart. -/
def digest (b : Bytes) : String :=
  if b = facts.toUTF8.toList then "e104bea5b806f50e23c8e0fcf59ad6a40b5effe080b325ef2bc26a1bfaf376ad"
  else if b = trades.toUTF8.toList then "94a7e78cd2491f96bcb1dc739bb9082fe2d5f5ee54a3620ca22fc0bbea63915b"
  else .ofList ('x' :: b.map Char.ofUInt8)

def hashed : Packages := { samplePackages with sha256 := digest }

theorem ofUInt8_injective : Function.Injective Char.ofUInt8 := by
  intro x y h
  exact UInt8.toUInt32_inj.mp (congrArg Char.val h)

theorem digest_injective : Function.Injective hashed.sha256 := by
  have hmap : Function.Injective (fun b : Bytes => b.map Char.ofUInt8) :=
    List.map_injective_iff.mpr ofUInt8_injective
  have hhead (d : String) (hd : d.toList.head? ≠ some 'x') (b : Bytes) :
      d ≠ .ofList ('x' :: b.map Char.ofUInt8) := by
    rintro rfl
    simp at hd
  intro a b h
  change digest a = digest b at h
  unfold digest at h
  split_ifs at h with ha hb hb' ha' hb hb' hb hb'
  · exact ha.trans hb.symm
  · exact absurd h (by decide)
  · exact absurd h (hhead _ (by decide) b)
  · exact absurd h (by decide)
  · exact ha'.trans hb'.symm
  · exact absurd h (hhead _ (by decide) b)
  · exact absurd h.symm (hhead _ (by decide) a)
  · exact absurd h.symm (hhead _ (by decide) a)
  · exact hmap (List.cons.inj (String.ofList_injective h)).2

def twoVersions (first second : String) : List ContextRow :=
  [{ sampleLegacy with id := 1, version := 1, definitionText := first : LegacyRow }.migrated,
    { sampleLegacy with id := 2, version := 2, definitionText := second : LegacyRow }.migrated]

def migrated (first second : String) : Connection catalog :=
  sampleConnection { Tables.empty with contexts := ⟨twoVersions first second, 2⟩ }

theorem legacy_migrated (first second : String) : Legacy (rows (migrated first second).pending) := by
  change Legacy (twoVersions first second)
  simp [Legacy, twoVersions, LegacyRow.migrated]

theorem neverRepeats_migrated (first second : String) : NeverRepeats (migrated first second) := by
  have hgroups : unnamed (rows (migrated first second).pending) = [("large", "default")] := rfl
  have hdistinct : ∀ j < 4, ∀ i < j, uuidAt (migrated first second) i ≠ uuidAt (migrated first second) j := by
    change ∀ j < 4, ∀ i < j, uuidAt (sampleConnection .empty) i ≠ uuidAt (sampleConnection .empty) j
    decide
  constructor
  · intro i _ _ r hr
    rw [(legacy_migrated first second r hr).1]
    simp
  · rw [hgroups]
    exact fun i j _ hij hj => hdistinct j hj i hij

theorem hashes_identify_iff_facts :
    ∃ c', (Connection.handler catalog).exec (backfillV2Rows hashed (fun _ => 0)) (migrated facts facts) =
        (.ok (), c') ∧ Identifies hashed (twoVersions facts facts) (rows c'.pending) := by
  refine (hashes_identify_iff digest_injective (legacy_migrated _ _) (neverRepeats_migrated _ _) _).mpr ?_
  change OneText (twoVersions facts facts)
  simp [OneText, twoVersions, LegacyRow.migrated]

theorem shared_rows : (rows ((Connection.handler catalog).exec (backfillV2Rows hashed (fun _ => 0))
      (migrated facts trades)).2.pending).map (fun r => (r.definitionText, r.definitionHash)) =
    [(facts, some (hashed.sha256 facts.toUTF8.toList)), (trades, some (hashed.sha256 facts.toUTF8.toList))] := rfl

/-- Two versions with different definitions are given one hash, that of the first. -/
theorem shared_hash : ¬ ∃ c', (Connection.handler catalog).exec (backfillV2Rows hashed (fun _ => 0))
    (migrated facts trades) = (.ok (), c') ∧ Identifies hashed (twoVersions facts trades) (rows c'.pending) := by
  rintro ⟨c', hrun, h⟩
  have hrows := shared_rows
  rw [hrun] at hrows
  obtain ⟨r, rest, hrest, hr, htail⟩ := List.map_eq_cons_iff.mp hrows
  obtain ⟨s, others, hothers, hs, -⟩ := List.map_eq_cons_iff.mp htail
  have hequal := h.equal r (by simp [hrest]) s (by simp [hrest, hothers])
  obtain ⟨htext, hhash⟩ := Prod.mk.inj hr
  obtain ⟨htext', hhash'⟩ := Prod.mk.inj hs
  rw [hhash, hhash', htext, htext'] at hequal
  exact absurd (hequal.mp rfl) (by decide)

end Sample

end ContextqlServer.Db.BackfilledHashes
