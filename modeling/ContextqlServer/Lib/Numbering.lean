import Mathlib.Data.List.Infix
import Mathlib.Order.Lattice

namespace ContextqlServer.Lib.Numbering

/-- The numbers that follow `n`, one after the other. -/
def Consecutive (n : Int) : List Int → Prop
  | [] => True
  | v :: vs => v = n + 1 ∧ Consecutive v vs

namespace Consecutive

variable {n : Int} {vs ws : List Int}

theorem append_iff : Consecutive n (vs ++ ws) ↔ Consecutive n vs ∧ Consecutive (n + vs.length) ws := by
  induction vs generalizing n with
  | nil => simp [Consecutive]
  | cons v vs ih =>
    rw [List.cons_append, Consecutive, Consecutive, ih, and_assoc]
    refine and_congr_right fun hv => and_congr_right fun _ => ?_
    have hlen : v + vs.length = n + (v :: vs).length := by
      rw [List.length_cons, hv]
      omega
    rw [hlen]

theorem lt (h : Consecutive n vs) : ∀ v ∈ vs, n < v ∧ v ≤ n + vs.length := by
  induction vs generalizing n with
  | nil => exact List.forall_mem_nil _
  | cons v vs ih =>
    obtain ⟨rfl, h⟩ := h
    intro w hw
    rw [List.length_cons]
    obtain rfl | hw := List.mem_cons.mp hw
    · omega
    · have := ih h w hw
      omega

theorem ascending (h : Consecutive n vs) : vs.Pairwise (· < ·) := by
  induction vs generalizing n with
  | nil => exact .nil
  | cons v vs ih => exact List.pairwise_cons.mpr ⟨fun w hw => (h.2.lt w hw).1, ih h.2⟩

theorem tail_iff (h : Consecutive 0 vs) (hs : ws <:+ vs) (hne : ws ≠ []) :
    Consecutive 0 ws ↔ 1 ∈ ws := by
  obtain ⟨us, rfl⟩ := hs
  have hws := (append_iff.mp h).2
  constructor
  · intro h0
    cases ws with
    | nil => exact absurd rfl hne
    | cons w ws =>
      obtain ⟨rfl, -⟩ := h0
      exact List.mem_cons_self ..
  · intro hmem
    have hlt := (hws.lt 1 hmem).1
    have hzero : (us.length : Int) = 0 := by omega
    rwa [hzero, Int.add_zero] at hws

end Consecutive

theorem filter_suffix {vs : List Int} (h : vs.Pairwise (· < ·)) (bound : Int) :
    vs.filter (fun v => !(v < bound)) <:+ vs := by
  induction vs with
  | nil => exact List.suffix_refl []
  | cons v vs ih =>
    obtain ⟨hv, hvs⟩ := List.pairwise_cons.mp h
    by_cases hlt : v < bound
    · rw [List.filter_cons_of_neg (by simpa using hlt)]
      exact (ih hvs).trans (List.suffix_cons v vs)
    · rw [List.filter_eq_self.mpr]
      intro w hw
      obtain rfl | hw := List.mem_cons.mp hw
      · simpa using hlt
      · have := hv w hw
        simp only [Bool.not_eq_true', decide_eq_false_iff_not]
        omega

end ContextqlServer.Lib.Numbering
