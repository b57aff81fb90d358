import ContextqlServer.Lib.Ordering
import Mathlib.Data.List.Nodup
import Mathlib.Logic.Function.Basic

namespace ContextqlServer.Lib.Keyed

variable {ρ κ : Type} [DecidableEq κ] (key : ρ → κ) {rows : List ρ} {r : ρ} {k : κ} {f : ρ → ρ}

section Rows

def lookup (rows : List ρ) (k : κ) : Option ρ := rows.find? (fun r => key r = k)

def Distinct (rows : List ρ) : Prop := (rows.map key).Nodup

theorem lookup_eq_none : lookup key rows k = none ↔ ∀ r ∈ rows, key r ≠ k := by
  simp [lookup]

theorem key_of_lookup (h : lookup key rows k = some r) : key r = k := by
  simpa using List.find?_some h

theorem mem_of_lookup (h : lookup key rows k = some r) : r ∈ rows := List.mem_of_find?_eq_some h

theorem lookup_snoc (hfree : lookup key rows (key r) = none) :
    lookup key (rows ++ [r]) = Function.update (lookup key rows) (key r) (some r) := by
  funext k
  rw [lookup, List.find?_append, Function.update_apply]
  by_cases hk : k = key r
  · subst hk
    change (lookup key rows (key r)).or _ = _
    simp [hfree]
  · change (lookup key rows k).or _ = _
    simp [hk, Ne.symm hk]

theorem lookup_adjust (hf : ∀ r, key (f r) = key r) (k : κ) :
    lookup key (rows.map (fun r => if key r = k then f r else r)) =
      Function.update (lookup key rows) k ((lookup key rows k).map f) := by
  funext k'
  rw [Function.update_apply]
  induction rows with
  | nil =>
    simp [lookup]
  | cons r rows ih =>
    rw [List.map_cons, lookup, lookup, lookup, List.find?_cons, List.find?_cons, List.find?_cons]
    rw [lookup, lookup, lookup] at ih
    by_cases hr : key r = k
    · by_cases hk : k' = k
      · simp [hr, hf, hk]
      · simp [hr, hf, hk, Ne.symm hk, ih]
    · by_cases hk : k' = k
      · subst hk
        simp [hr, ih]
      · by_cases hr' : key r = k'
        · simp [hr', hk]
        · simp [hr, hr', hk, ih]

/-- The rows that a filter accepts, in some order. -/
structure Lists {ω : Type} [LE ω] (order : ρ → ω) (table : κ → Option ρ) (p : ρ → Bool) (listed : List ρ) : Prop where
  sorted : listed.Pairwise (fun r s => order r ≤ order s)
  nodup : listed.Nodup
  mem : ∀ r, r ∈ listed ↔ table (key r) = some r ∧ p r = true

namespace Distinct

variable {key}

theorem snoc (h : Distinct key rows) (hfree : lookup key rows (key r) = none) : Distinct key (rows ++ [r]) := by
  rw [Distinct, List.map_append, List.map_singleton, List.nodup_append]
  refine ⟨h, List.nodup_singleton _, ?_⟩
  intro a ha b hb
  obtain ⟨x, hx, rfl⟩ := List.mem_map.mp ha
  rw [List.mem_singleton.mp hb]
  exact (lookup_eq_none key).mp hfree x hx

theorem adjust (h : Distinct key rows) (hf : ∀ r, key (f r) = key r) (k : κ) :
    Distinct key (rows.map (fun r => if key r = k then f r else r)) := by
  have hsame : key ∘ (fun r => if key r = k then f r else r) = key := by
    funext r
    rw [Function.comp_apply]
    split
    · exact hf r
    · rfl
  rw [Distinct, List.map_map, hsame]
  exact h

theorem mem_iff (h : Distinct key rows) : r ∈ rows ↔ lookup key rows (key r) = some r := by
  constructor
  · intro hr
    cases hfound : lookup key rows (key r) with
    | none => exact absurd rfl ((lookup_eq_none key).mp hfound r hr)
    | some s =>
      exact congrArg some (List.inj_on_of_nodup_map h (mem_of_lookup key hfound) hr (key_of_lookup key hfound))
  · exact mem_of_lookup key

theorem lists {ω : Type} [LinearOrder ω] (h : Distinct key rows) (order : ρ → ω) (p : ρ → Bool) :
    Lists key order (lookup key rows) p ((rows.filter p).insertionSort (fun r s => order r ≤ order s)) where
  sorted := Ordering.sorted_insertionSort order _
  nodup := (List.perm_insertionSort _ _).nodup_iff.mpr ((List.Nodup.of_map key h).filter p)
  mem r := by
    rw [List.mem_insertionSort, List.mem_filter, h.mem_iff]

end Distinct

end Rows

section Durable

/-- What is kept when the process stops, and what its callers see. -/
structure Durable (σ : Type) where
  durable : σ
  current : σ

namespace Durable

variable {σ : Type}

/-- The process stops and starts again. -/
def crash (x : Durable σ) : Durable σ := ⟨x.durable, x.durable⟩

/-- What a call that makes one change may leave where it does not return: nothing of the
change, the change without it being kept, or the change. -/
inductive Interrupted (effect : σ → σ → Prop) (x : Durable σ) : Durable σ → Prop
  | before : Interrupted effect x x
  | pending {s : σ} (h : effect x.current s) : Interrupted effect x ⟨x.durable, s⟩
  | kept {s : σ} (h : effect x.current s) : Interrupted effect x ⟨s, s⟩

/-- A property holds of both parts. -/
def Both (P : σ → Prop) (x : Durable σ) : Prop := P x.durable ∧ P x.current

variable {effect : σ → σ → Prop} {P : σ → Prop} {x y : Durable σ}

theorem Both.crash (h : x.Both P) : x.crash.Both P := ⟨h.1, h.1⟩

theorem Both.interrupted (hP : ∀ s s', effect s s' → P s → P s') (h : x.Both P) (hy : Interrupted effect x y) :
    y.Both P := by
  induction hy with
  | before => exact h
  | pending hs => exact ⟨h.1, hP _ _ hs h.2⟩
  | kept hs => exact ⟨hP _ _ hs h.2, hP _ _ hs h.2⟩

end Durable

end Durable

end ContextqlServer.Lib.Keyed
