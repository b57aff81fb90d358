import Mathlib.Data.Finmap
import Mathlib.Data.List.Sort
import Mathlib.Order.Nat

namespace ContextqlServer.Lib.Mapping

/-- A dictionary up to the order of its items, which is also how Python compares two. -/
abbrev Dict (κ V : Type) := Finmap (fun _ : κ => V)

section Sorted

variable {α : Type} [LinearOrder α]

/-- `sorted(s)` of a set or of the keys of a dictionary. -/
def sorted (s : Finset α) : List α :=
  Quot.liftOn s.val (fun l => l.insertionSort (· ≤ ·)) fun l l' h =>
    ((l.perm_insertionSort (· ≤ ·)).trans (h.trans (l'.perm_insertionSort (· ≤ ·)).symm)).eq_of_pairwise
      (fun _ _ _ _ => le_antisymm) (l.pairwise_insertionSort _) (l'.pairwise_insertionSort _)

theorem sorted_perm (l : List α) (h : (Multiset.ofList l).Nodup) : (sorted ⟨l, h⟩).Perm l :=
  l.perm_insertionSort (· ≤ ·)

@[simp] theorem mem_sorted {s : Finset α} {a : α} : a ∈ sorted s ↔ a ∈ s := by
  obtain ⟨⟨l⟩, h⟩ := s
  exact (sorted_perm l h).mem_iff

theorem sorted_nodup (s : Finset α) : (sorted s).Nodup := by
  obtain ⟨⟨l⟩, h⟩ := s
  exact (sorted_perm l h).nodup_iff.mpr h

theorem sorted_toFinset (s : Finset α) : (sorted s).toFinset = s := by
  ext a
  rw [List.mem_toFinset, mem_sorted]

theorem sorted_length (s : Finset α) : (sorted s).length = s.card := by
  obtain ⟨⟨l⟩, h⟩ := s
  exact (sorted_perm l h).length_eq

end Sorted

section Lookup

variable {κ V : Type} [DecidableEq κ]

theorem lookup_union (s t : Dict κ V) (k : κ) :
    (s ∪ t).lookup k = (s.lookup k).or (t.lookup k) := by
  by_cases h : k ∈ s
  · obtain ⟨v, hv⟩ := Option.isSome_iff_exists.mp (Finmap.lookup_isSome.mpr h)
    rw [Finmap.lookup_union_left h, hv, Option.some_or]
  · rw [Finmap.lookup_union_right h, Finmap.lookup_eq_none.mpr h, Option.none_or]

theorem lookup_insert' (s : Dict κ V) (a k : κ) (v : V) :
    (s.insert a v).lookup k = if k = a then some v else s.lookup k := by
  split
  · subst k
    exact Finmap.lookup_insert s
  · exact Finmap.lookup_insert_of_ne s (by assumption)

theorem lookup_erase' (s : Dict κ V) (a k : κ) :
    (s.erase a).lookup k = if k = a then none else s.lookup k := by
  split
  · subst k
    exact Finmap.lookup_erase a s
  · exact Finmap.lookup_erase_ne (by assumption)

theorem mem_iff_lookup {s : Dict κ V} {k : κ} : k ∈ s ↔ (s.lookup k).isSome :=
  Finmap.lookup_isSome.symm

/-- `{k: f(k) for k in ks}` over the keys at which `f` has a value. -/
def collect (f : κ → Option V) : List κ → Dict κ V
  | [] => ∅
  | k :: ks =>
    match f k with
    | some v => (collect f ks).insert k v
    | none => collect f ks

theorem lookup_collect (f : κ → Option V) (ks : List κ) (k : κ) :
    (collect f ks).lookup k = if k ∈ ks then f k else none := by
  induction ks with
  | nil => rfl
  | cons a ks ih =>
    rw [collect]
    cases ha : f a with
    | some v =>
      rw [lookup_insert', ih]
      by_cases hk : k = a
      · simp [hk, ha]
      · simp [hk]
    | none =>
      rw [ih]
      by_cases hk : k = a
      · simp [hk, ha]
      · simp [hk]

theorem collect_append (f : κ → Option V) (xs ys : List κ) :
    collect f (xs ++ ys) = collect f ys ∪ collect f xs := by
  refine Finmap.ext_lookup (fun k => ?_)
  rw [lookup_union, lookup_collect, lookup_collect, lookup_collect]
  by_cases hx : k ∈ xs
  · by_cases hy : k ∈ ys <;> simp [hx, hy]
  · by_cases hy : k ∈ ys <;> simp [hx, hy]

/-- The items of `{k: v for ...}` in order: a repeated key keeps its first place
and takes its last value. -/
def items (kvs : List (κ × V)) : List (κ × V) :=
  kvs.foldl (fun d e =>
    if d.any (fun e' => e'.1 = e.1) then d.map (fun e' => if e'.1 = e.1 then e else e')
    else d ++ [e]) []

theorem items_keys (kvs : List (κ × V)) (k : κ) :
    k ∈ (items kvs).map Prod.fst ↔ k ∈ kvs.map Prod.fst := by
  induction kvs using List.reverseRecOn with
  | nil => rfl
  | append_singleton kvs e ih =>
    rw [items, List.foldl_append, List.map_append, List.mem_append, ← ih, ← items]
    change k ∈ List.map Prod.fst (if (items kvs).any (fun e' => e'.1 = e.1) then _ else _) ↔ _
    split
    · rename_i h
      obtain ⟨e', he', h⟩ := List.any_eq_true.mp h
      have hk : (items kvs).map (Prod.fst ∘ fun e' => if e'.1 = e.1 then e else e') =
          (items kvs).map Prod.fst := by
        refine List.map_congr_left (fun x _ => ?_)
        by_cases hx : x.1 = e.1 <;> simp [hx]
      rw [List.map_map, hk, List.map_singleton, List.mem_singleton, iff_self_or]
      rintro rfl
      exact of_decide_eq_true h ▸ List.mem_map_of_mem he'
    · simp

end Lookup

theorem collect_lookup_sorted {κ V : Type} [LinearOrder κ] (s : Dict κ V) :
    collect s.lookup (sorted s.keys) = s := by
  refine Finmap.ext_lookup (fun k => ?_)
  by_cases h : k ∈ s
  · rw [lookup_collect, if_pos (mem_sorted.mpr (Finmap.mem_keys.mpr h))]
  · rw [lookup_collect, if_neg (mt (fun hk => Finmap.mem_keys.mp (mem_sorted.mp hk)) h),
      Finmap.lookup_eq_none.mpr h]

end ContextqlServer.Lib.Mapping
