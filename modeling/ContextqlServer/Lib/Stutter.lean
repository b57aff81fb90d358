import Mathlib.Data.List.Induction

namespace ContextqlServer.Lib.Stutter

variable {L σ τ : Type}

inductive Path (step : L → σ → σ → Prop) : List L → σ → σ → Prop
  | nil (s : σ) : Path step [] s s
  | snoc {ls : List L} {l : L} {s s₁ s₂ : σ} (h : Path step ls s s₁) (hl : step l s₁ s₂) :
      Path step (ls ++ [l]) s s₂

/-- The labels of the steps that are to be seen. -/
def visible (silent : L → Bool) (ls : List L) : List L := ls.filter (fun l => !silent l)

section Visible

variable {silent : L → Bool} {ls : List L} {l : L}

theorem visible_snoc (h : silent l = false) : visible silent (ls ++ [l]) = visible silent ls ++ [l] := by
  simp [visible, List.filter_append, h]

theorem visible_snoc_silent (h : silent l = true) : visible silent (ls ++ [l]) = visible silent ls := by
  simp [visible, List.filter_append, h]

end Visible

namespace Path

variable {step : L → σ → σ → Prop} {step' : L → τ → τ → Prop} {silent : L → Bool}
  {ok : List L → Prop} {R : List L → σ → τ → Prop} {ls : List L} {l : L} {s s' : σ} {t t' : τ}

theorem nil_iff : Path step [] s s' ↔ s' = s := by
  constructor
  · intro h
    generalize hls : ([] : List L) = ls at h
    cases h with
    | nil => rfl
    | snoc => simp at hls
  · rintro rfl
    exact .nil s'

theorem snoc_iff : Path step (ls ++ [l]) s s' ↔ ∃ s₁, Path step ls s s₁ ∧ step l s₁ s' := by
  constructor
  · intro h
    generalize hls : ls ++ [l] = ms at h
    cases h with
    | nil => simp at hls
    | snoc h hl =>
      obtain ⟨rfl, hlast⟩ := List.append_inj' hls rfl
      cases hlast
      exact ⟨_, h, hl⟩
  · rintro ⟨s₁, h, hl⟩
    exact h.snoc hl

theorem erase (hok : ∀ ls l, ok (ls ++ [l]) → ok ls)
    (hstep : ∀ ls l s s' t, ok (ls ++ [l]) → silent l = false → R ls s t → step l s s' →
      ∃ t', step' l t t' ∧ R (ls ++ [l]) s' t')
    (hsilent : ∀ ls l s s' t, ok (ls ++ [l]) → silent l = true → R ls s t → step l s s' → R (ls ++ [l]) s' t)
    (h : Path step ls s s') (hls : ok ls) (hR : R [] s t) :
    ∃ t', Path step' (visible silent ls) t t' ∧ R ls s' t' := by
  induction h with
  | nil s => exact ⟨t, .nil t, hR⟩
  | @snoc ls l s s₁ s₂ h hl ih =>
    obtain ⟨t₁, ht, hR₁⟩ := ih (hok ls l hls) hR
    cases hsil : silent l with
    | false =>
      obtain ⟨t₂, hl', hR₂⟩ := hstep ls l s₁ s₂ t₁ hls hsil hR₁ hl
      rw [visible_snoc hsil]
      exact ⟨t₂, ht.snoc hl', hR₂⟩
    | true =>
      rw [visible_snoc_silent hsil]
      exact ⟨t₁, ht, hsilent ls l s₁ s₂ t₁ hls hsil hR₁ hl⟩

/-- And what the other side does without them can be followed with them. -/
theorem restore (hok : ∀ ls l, ok (ls ++ [l]) → ok ls)
    (hstep : ∀ ls l s t t', ok (ls ++ [l]) → silent l = false → R ls s t → step' l t t' →
      ∃ s', step l s s' ∧ R (ls ++ [l]) s' t')
    (hsilent : ∀ ls l s t, ok (ls ++ [l]) → silent l = true → R ls s t → ∃ s', step l s s' ∧ R (ls ++ [l]) s' t)
    (h : Path step' (visible silent ls) t t') (hls : ok ls) (hR : R [] s t) :
    ∃ s', Path step ls s s' ∧ R ls s' t' := by
  induction ls using List.reverseRecOn generalizing t' with
  | nil =>
    rw [nil_iff.mp h]
    exact ⟨s, .nil s, hR⟩
  | append_singleton ls l ih =>
    cases hsil : silent l with
    | false =>
      rw [visible_snoc hsil] at h
      obtain ⟨t₁, h, hl⟩ := snoc_iff.mp h
      obtain ⟨s₁, hs, hR₁⟩ := ih h (hok ls l hls)
      obtain ⟨s₂, hl', hR₂⟩ := hstep ls l s₁ t₁ t' hls hsil hR₁ hl
      exact ⟨s₂, hs.snoc hl', hR₂⟩
    | true =>
      rw [visible_snoc_silent hsil] at h
      obtain ⟨s₁, hs, hR₁⟩ := ih h (hok ls l hls)
      obtain ⟨s₂, hl', hR₂⟩ := hsilent ls l s₁ t' hls hsil hR₁
      exact ⟨s₂, hs.snoc hl', hR₂⟩

end Path

end ContextqlServer.Lib.Stutter
