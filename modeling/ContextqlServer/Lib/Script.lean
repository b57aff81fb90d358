import Mathlib.Data.List.Basic
import Mathlib.Logic.Relation

namespace ContextqlServer.Lib.Script

variable {S σ ε : Type} (run : S → σ → Except ε σ)

/-- The statements of a script, one after the other, up to the first that raises. -/
def play (ss : List S) (s : σ) : Except ε σ := ss.foldlM (fun s x => run x s) s

/-- A script that was stopped between two of its statements. -/
def Cut (ss : List S) (s s' : σ) : Prop := ∃ done rest, ss = done ++ rest ∧ play run done s = .ok s'

variable {run} {ss rest : List S} {s s' : σ} {x : S}

theorem play_cons_ok (h : run x s = .ok s') : play run (x :: ss) s = play run ss s' := by
  rw [play, List.foldlM_cons, h]
  rfl

theorem play_cons_error {e : ε} (h : run x s = .error e) : play run (x :: ss) s = .error e := by
  rw [play, List.foldlM_cons, h]
  rfl

theorem play_append (xs ys : List S) (s : σ) : play run (xs ++ ys) s = play run xs s >>= play run ys :=
  List.foldlM_append

theorem play_append_ok {xs : List S} (h : play run xs s = .ok s') (ys : List S) :
    play run (xs ++ ys) s = play run ys s' := by
  rw [play_append, h]
  rfl

/-- What is true of the state at first and kept by every statement is true in the end. -/
theorem play_invariant {I : σ → Prop} (hstep : ∀ x ∈ ss, ∀ s s', run x s = .ok s' → I s → I s')
    (h : play run ss s = .ok s') (hs : I s) : I s' := by
  induction ss generalizing s with
  | nil =>
    obtain rfl := Except.ok.inj h
    exact hs
  | cons x ss ih =>
    cases hx : run x s with
    | error e =>
      rw [play_cons_error hx] at h
      cases h
    | ok s₁ =>
      rw [play_cons_ok hx] at h
      exact ih (fun y hy => hstep y (List.mem_cons_of_mem x hy)) h (hstep x (List.mem_cons_self ..) _ _ hx hs)

section Again

/-- A statement that is done is not done again, and no statement undoes it. -/
structure Lasting (run : S → σ → Except ε σ) (Done : S → σ → Prop) : Prop where
  again : ∀ x s, Done x s → run x s = .ok s
  stays : ∀ x y s s', Done x s → run y s = .ok s' → Done x s'

variable {Done : S → σ → Prop}

theorem done_of_play (hlasting : Lasting run Done)
    (hdone : ∀ x ∈ ss, ∀ s s', run x s = .ok s' → Done x s') (h : play run ss s = .ok s') :
    ∀ x ∈ ss, Done x s' := by
  induction ss generalizing s with
  | nil => exact List.forall_mem_nil _
  | cons x ss ih =>
    cases hx : run x s with
    | error e =>
      rw [play_cons_error hx] at h
      cases h
    | ok s₁ =>
      rw [play_cons_ok hx] at h
      rw [List.forall_mem_cons]
      refine ⟨?_, ih (fun y hy => hdone y (List.mem_cons_of_mem x hy)) h⟩
      exact play_invariant (fun y _ a b hy ha => hlasting.stays x y a b ha hy) h
        (hdone x (List.mem_cons_self ..) _ _ hx)

theorem play_done (hlasting : Lasting run Done) (h : ∀ x ∈ ss, Done x s) : play run ss s = .ok s := by
  induction ss with
  | nil => rfl
  | cons x ss ih =>
    rw [play_cons_ok (hlasting.again x s (h x (List.mem_cons_self ..)))]
    exact ih (fun y hy => h y (List.mem_cons_of_mem x hy))

/-- A script whose first statements were done goes on where it was stopped. -/
theorem play_again (hlasting : Lasting run Done)
    (hdone : ∀ x ∈ ss, ∀ s s', run x s = .ok s' → Done x s') (h : play run ss s = .ok s') (rest : List S) :
    play run (ss ++ rest) s' = play run (ss ++ rest) s := by
  rw [play_append_ok (play_done hlasting (done_of_play hlasting hdone h)), play_append_ok h]

end Again

section Levels

variable {level : σ → Int} {n : Int}

/-- A script that raises the level to `n`, with its last statement. -/
structure RaisesTo (run : S → σ → Except ε σ) (level : σ → Int) (n : Int) (body : List S) (last : S) : Prop where
  body : ∀ x ∈ body, ∀ s s', run x s = .ok s' → level s' = level s
  last : ∀ s s', level s < n → run last s = .ok s' → level s' = n

variable {body done : List S} {last : S}

/-- Where a script with others after it is stopped: before its last statement, or after it. -/
theorem RaisesTo.cut (hraises : RaisesTo run level n body last) (hlevel : level s < n)
    (hsplit : body ++ last :: ss = done ++ rest) (h : play run done s = .ok s') :
    (∃ rest', body = done ++ rest' ∧ level s' = level s) ∨
      ∃ s₁ done', play run (body ++ [last]) s = .ok s₁ ∧ level s₁ = n ∧ ss = done' ++ rest ∧
        play run done' s₁ = .ok s' := by
  have hbody {xs : List S} {s₁ : σ} (hxs : ∀ x ∈ xs, x ∈ body) (hplay : play run xs s = .ok s₁) : level s₁ = level s :=
    play_invariant (I := fun a => level a = level s)
      (fun x hx a b hrun ha => (hraises.body x (hxs x hx) a b hrun).trans ha) hplay rfl
  rcases List.append_eq_append_iff.mp hsplit with ⟨more, rfl, hmore⟩ | ⟨more, rfl, hmore⟩
  · cases more with
    | nil =>
      rw [List.append_nil] at h ⊢
      exact .inl ⟨[], (List.append_nil _).symm, hbody (fun _ hx => hx) h⟩
    | cons y more =>
      obtain ⟨rfl, rfl⟩ := List.cons.inj hmore
      rw [play_append] at h
      cases hfirst : play run body s with
      | error e =>
        rw [hfirst] at h
        cases h
      | ok s₁ =>
        rw [hfirst] at h
        change play run (last :: more) s₁ = .ok s' at h
        cases hlast : run last s₁ with
        | error e =>
          rw [play_cons_error hlast] at h
          cases h
        | ok s₂ =>
          rw [play_cons_ok hlast] at h
          refine .inr ⟨s₂, more, ?_, ?_, rfl, h⟩
          · rw [play_append_ok hfirst, play_cons_ok hlast]
            rfl
          · exact hraises.last s₁ s₂ (by rw [hbody (fun _ hx => hx) hfirst]; exact hlevel) hlast
  · exact .inl ⟨more, rfl, hbody (fun _ hx => List.mem_append_left _ hx) h⟩

end Levels

end ContextqlServer.Lib.Script
