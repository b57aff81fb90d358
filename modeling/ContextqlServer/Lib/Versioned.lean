import Mathlib.Order.Defs.LinearOrder

namespace ContextqlServer.Lib.Versioned

/-- A version of something, which stays when it is dropped. -/
structure Version (E : Type) where
  entry : E
  dropped : Bool

abbrev VersionMap (κ ν E : Type) := κ → ν → Option (Version E)

namespace VersionMap

variable {κ ν E : Type} [DecidableEq κ]

def empty : VersionMap κ ν E := fun _ _ => none

variable (m : VersionMap κ ν E)

def drop (k : κ) : VersionMap κ ν E := fun k' v =>
  if k' = k then (m k' v).map (fun x => { x with dropped := true }) else m k' v

theorem drop_eq (k : κ) : drop m k = fun k' v => (m k' v).map (fun x =>
    if k' = k then { x with dropped := true } else x) := by
  funext k' v
  rw [drop]
  split
  · rfl
  · exact Option.map_id'.symm

variable [DecidableEq ν]

def save (k : κ) (v : ν) (e : E) : VersionMap κ ν E := fun k' v' =>
  if k' = k ∧ v' = v then some ⟨e, (m k v).any (fun x => x.dropped)⟩ else m k' v'

def modify (k : κ) (v : ν) (f : E → E) : VersionMap κ ν E := fun k' v' =>
  if k' = k ∧ v' = v then (m k' v').map (fun x => { x with entry := f x.entry }) else m k' v'

theorem save_of_some {k : κ} {v : ν} {x : Version E} (h : m k v = some x) (e : E) :
    save m k v e = fun k' v' => (m k' v').map (fun y =>
      if k' = k ∧ v' = v then { y with entry := e } else y) := by
  funext k' v'
  rw [save]
  split
  · rename_i hkv
    rw [hkv.1, hkv.2, h]
    rfl
  · exact Option.map_id'.symm

theorem modify_eq (k : κ) (v : ν) (f : E → E) : modify m k v f = fun k' v' => (m k' v').map (fun x =>
    if k' = k ∧ v' = v then { x with entry := f x.entry } else x) := by
  funext k' v'
  rw [modify]
  split
  · rfl
  · exact Option.map_id'.symm

structure Latest {κ ν E : Type} [LE ν] (m : VersionMap κ ν E) (k : κ) (v : ν) (e : E) : Prop where
  entry : m k v = some ⟨e, false⟩
  highest : ∀ v' e', m k v' = some ⟨e', false⟩ → v' ≤ v

end VersionMap

end ContextqlServer.Lib.Versioned
