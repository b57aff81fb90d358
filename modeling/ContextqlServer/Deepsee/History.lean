import ContextqlServer.Deepsee.MockService
import ContextqlServer.Lib.Log
import Mathlib.Logic.Relation

namespace ContextqlServer.Deepsee.History

open ContextqlServer.Lib.Log ContextqlServer.Lib.Mapping ContextqlServer.Lib.Python
open ContextqlServer.Deepsee.Models ContextqlServer.Deepsee.MockService

inductive Mutation where
  | addMember (entityId : Int) (score : Float64)
  | removeMember (entityId : Int)
  | changeScore (entityId : Int) (score : Float64)

def mutate (s : MockDeepSeeService) : Mutation → Except Exn MockDeepSeeService
  | .addMember i x => .ok (s.addMember i x).2
  | .removeMember i => .ok (s.removeMember i).2
  | .changeScore i x => (s.changeScore i x).map Prod.snd

theorem eventIdOf_injective : Function.Injective eventIdOf := by
  intro i j hid
  have hl := congrArg String.toList hid
  rw [eventIdOf, eventIdOf, String.toList_append, String.toList_append] at hl
  exact zpad_injective 8 (String.toList_injective (List.append_cancel_left hl))

def writesScore (e : ChangeEvent) (x : Int) : Option (Option Float64) :=
  if e.entityId = x then
    match e.changeType with
    | .added | .scoreChanged => some e.score
    | .removed => some none
  else none

def writesMember (e : ChangeEvent) (x : Int) : Option Bool :=
  if e.entityId = x then
    match e.changeType with
    | .added => some true
    | .removed => some false
    | .scoreChanged => none
  else none

def numberOf (watermark : String) : Int := (int watermark).getD 0

@[simp] theorem numberOf_watermarkOf (n : Nat) : numberOf (watermarkOf n) = n := by
  simp [numberOf, watermarkOf]

/-- The source's scores when it had emitted the first `v` of its events. -/
def scoresAt (initial : Dict Int Float64) (events : List ChangeEvent) (v : Nat) :
    Int → Option Float64 :=
  replay writesScore initial.lookup (events.take v)

def membersAt (initial : Dict Int Float64) (events : List ChangeEvent) (v : Nat) : Int → Bool :=
  replay writesMember (fun y => (initial.lookup y).isSome) (events.take v)

/-- A service that began with `initial` and went through the events of its log. -/
structure Coherent (initial : Dict Int Float64) (s : MockDeepSeeService) : Prop where
  seq_eq : s.seq = s.events.length
  numbered : ∀ i e, s.events[i]? = some e →
    e.eventId = eventIdOf (i + 1) ∧ e.watermark = watermarkOf (i + 1)
  scored : ∀ e ∈ s.events, e.changeType = .removed ∨ e.score.isSome
  changed : ∀ i e, s.events[i]? = some e → e.changeType = .scoreChanged →
    (scoresAt initial s.events i e.entityId).isSome
  members_eq : ∀ x, s.members.lookup x = scoresAt initial s.events s.events.length x

/-- The same service later: its log has grown and nothing else was reconfigured. -/
structure Extends (s s' : MockDeepSeeService) : Prop where
  events : s.events <+: s'.events
  settings : { s' with members := s.members, events := s.events, seq := s.seq } = s

namespace Extends

variable {s s' s'' : MockDeepSeeService}

theorem refl (s : MockDeepSeeService) : Extends s s := ⟨List.prefix_rfl, rfl⟩

theorem trans (h : Extends s s') (h' : Extends s' s'') : Extends s s'' where
  events := h.events.trans h'.events
  settings := by
    rw [← h.settings, ← h'.settings]

theorem pageSize (h : Extends s s') : s'.pageSize = s.pageSize := by
  rw [← h.settings]

theorem bitmapSnapshot (h : Extends s s') : s'.bitmapSnapshot = s.bitmapSnapshot := by
  rw [← h.settings]

theorem malformedBitmap (h : Extends s s') : s'.malformedBitmap = s.malformedBitmap := by
  rw [← h.settings]

theorem entityKeyType (h : Extends s s') : s'.entityKeyType = s.entityKeyType := by
  rw [← h.settings]
  rfl

theorem length_le (h : Extends s s') : s.events.length ≤ s'.events.length := h.events.length_le

end Extends

theorem scoresAt_extend {initial : Dict Int Float64} {xs ys : List ChangeEvent} (h : xs <+: ys)
    {v : Nat} (hv : v ≤ xs.length) : scoresAt initial ys v = scoresAt initial xs v := by
  obtain ⟨zs, rfl⟩ := h
  rw [scoresAt, scoresAt, List.take_append_of_le_length hv]

theorem membersAt_extend {initial : Dict Int Float64} {xs ys : List ChangeEvent} (h : xs <+: ys)
    {v : Nat} (hv : v ≤ xs.length) : membersAt initial ys v = membersAt initial xs v := by
  obtain ⟨zs, rfl⟩ := h
  rw [membersAt, membersAt, List.take_append_of_le_length hv]

theorem scoresAt_snoc (initial : Dict Int Float64) (xs : List ChangeEvent) (e : ChangeEvent) :
    scoresAt initial (xs ++ [e]) (xs ++ [e]).length =
      apply writesScore (scoresAt initial xs xs.length) e := by
  rw [scoresAt, scoresAt, List.take_length, List.take_length, replay_append]
  rfl

theorem Coherent.of_new {s : MockDeepSeeService} (hevents : s.events = []) (hseq : s.seq = 0) :
    Coherent s.members s where
  seq_eq := by
    rw [hseq, hevents]
    rfl
  numbered i e he := by simp [hevents] at he
  scored e he := by simp [hevents] at he
  changed i e he := by simp [hevents] at he
  members_eq x := by simp [hevents, scoresAt, replay]

namespace Coherent

variable {initial : Dict Int Float64} {s s' : MockDeepSeeService}

theorem record (h : Coherent initial s) {members : Dict Int Float64} {i : Int} {t : ChangeType}
    {score : Option Float64} (hscored : t = .removed ∨ score.isSome)
    (hchanged : t = .scoreChanged → i ∈ s.members)
    (hmembers : ∀ x, members.lookup x =
      if x = i then (if t = .removed then none else score) else s.members.lookup x) :
    Coherent initial (({ s with members }).recordEvent i t score).2 := by
  have hlen := h.seq_eq
  refine ⟨?_, ?_, ?_, ?_, ?_⟩
  · simp [MockDeepSeeService.recordEvent, hlen]
  · intro j e hj
    dsimp only [MockDeepSeeService.recordEvent] at hj
    rw [List.getElem?_append] at hj
    split at hj
    · exact h.numbered j e hj
    · rw [List.getElem?_singleton] at hj
      split at hj
      · obtain rfl := Option.some.inj hj
        have hj' : s.seq + 1 = j + 1 := by omega
        exact ⟨by rw [hj'], by rw [hj']⟩
      · cases hj
  · intro e he
    dsimp only [MockDeepSeeService.recordEvent] at he
    rcases List.mem_append.mp he with he | he
    · exact h.scored e he
    · obtain rfl := List.mem_singleton.mp he
      exact hscored
  · intro j e hj ht
    dsimp only [MockDeepSeeService.recordEvent] at hj ⊢
    rw [List.getElem?_append] at hj
    split at hj
    · rw [scoresAt_extend (List.prefix_append _ _) (by omega)]
      exact h.changed j e hj ht
    · rw [List.getElem?_singleton] at hj
      split at hj
      · obtain rfl := Option.some.inj hj
        have hj' : j = s.events.length := by omega
        rw [hj', scoresAt_extend (List.prefix_append _ _) le_rfl, ← h.members_eq,
          Finmap.lookup_isSome]
        exact hchanged ht
      · cases hj
  · intro x
    dsimp only [MockDeepSeeService.recordEvent]
    rw [scoresAt_snoc, hmembers, apply, writesScore, ← h.members_eq]
    by_cases hx : i = x
    · subst hx
      cases t <;> simp
    · simp [hx, Ne.symm hx]

theorem mutate (h : Coherent initial s) {m : Mutation} (hm : mutate s m = .ok s') :
    Coherent initial s' := by
  cases m with
  | addMember i x =>
    cases hm
    exact h.record (.inr rfl) (by simp) (fun y => by simp [lookup_insert'])
  | removeMember i =>
    cases hm
    exact h.record (.inl rfl) (by simp) (fun y => by simp [lookup_erase'])
  | changeScore i x =>
    rw [History.mutate, MockDeepSeeService.changeScore] at hm
    split at hm
    · cases hm
      exact h.record (.inr rfl) (fun _ => by assumption) (fun y => by simp [lookup_insert'])
    · cases hm

theorem isSome_scoresAt (h : Coherent initial s) {v : Nat} (hv : v ≤ s.events.length) (x : Int) :
    (scoresAt initial s.events v x).isSome = membersAt initial s.events v x := by
  induction v with
  | zero => rfl
  | succ v ih =>
    have hlt : v < s.events.length := by omega
    have hget : s.events[v]? = some s.events[v] := List.getElem?_eq_getElem hlt
    have htake : s.events.take (v + 1) = s.events.take v ++ [s.events[v]] := by
      rw [List.take_add_one, hget]
      rfl
    have ih := ih (by omega)
    rw [membersAt] at ih ⊢
    have hs : scoresAt initial s.events (v + 1) =
        apply writesScore (scoresAt initial s.events v) s.events[v] := by
      rw [scoresAt, htake, replay_append]
      rfl
    rw [hs, htake, replay_append]
    change (apply writesScore _ _ x).isSome = apply writesMember _ _ x
    rw [apply, apply, ← ih, writesScore, writesMember]
    by_cases hx : s.events[v].entityId = x
    · have hsc := h.scored s.events[v] (List.getElem_mem hlt)
      have hch := h.changed v s.events[v] hget
      rw [hx] at hch
      cases ht : s.events[v].changeType with
      | added => simpa [hx, ht] using hsc
      | removed => simp [hx]
      | scoreChanged =>
        have h₁ : s.events[v].score.isSome := by simpa [ht] using hsc
        simp [hx, h₁, hch ht]
    · simp [hx]

theorem watermark_eq (h : Coherent initial s) {j : Nat} {e : ChangeEvent}
    (hj : s.events[j]? = some e) : e.watermark = watermarkOf (j + 1) := (h.numbered j e hj).2

theorem numberOf_watermark (h : Coherent initial s) {j : Nat} {e : ChangeEvent}
    (hj : s.events[j]? = some e) : numberOf e.watermark = j + 1 := by
  rw [h.watermark_eq hj, numberOf_watermarkOf]
  rfl

theorem eventId_inj (h : Coherent initial s) {e e' : ChangeEvent} (he : e ∈ s.events)
    (he' : e' ∈ s.events) (hid : e.eventId = e'.eventId) : e = e' := by
  obtain ⟨i, hi⟩ := List.mem_iff_getElem?.mp he
  obtain ⟨j, hj⟩ := List.mem_iff_getElem?.mp he'
  rw [(h.numbered i e hi).1, (h.numbered j e' hj).1] at hid
  have hij := eventIdOf_injective hid
  obtain rfl : i = j := by omega
  exact Option.some.inj (hi.symm.trans hj)

theorem mem_members (h : Coherent initial s) (x : Int) :
    x ∈ s.members ↔ membersAt initial s.events s.events.length x = true := by
  rw [← h.isSome_scoresAt le_rfl, ← h.members_eq, Finmap.lookup_isSome]

end Coherent

/-- Any number of mutations. -/
def Mutates : MockDeepSeeService → MockDeepSeeService → Prop :=
  Relation.ReflTransGen (fun s s' => ∃ m, mutate s m = .ok s')

namespace Mutates

variable {initial : Dict Int Float64} {s s' : MockDeepSeeService}

theorem extends_mutate {m : Mutation} (h : mutate s m = .ok s') : Extends s s' := by
  cases m with
  | addMember i x =>
    cases h
    exact ⟨List.prefix_append _ _, rfl⟩
  | removeMember i =>
    cases h
    exact ⟨List.prefix_append _ _, rfl⟩
  | changeScore i x =>
    rw [mutate, MockDeepSeeService.changeScore] at h
    split at h
    · cases h
      exact ⟨List.prefix_append _ _, rfl⟩
    · cases h

theorem grows (h : Mutates s s') : Extends s s' := by
  induction h with
  | refl => exact .refl s
  | tail _ hm ih =>
    obtain ⟨m, hm⟩ := hm
    exact ih.trans (extends_mutate hm)

theorem coherent (h : Mutates s s') (hs : Coherent initial s) :
    Coherent initial s' := by
  induction h with
  | refl => exact hs
  | tail _ hm ih =>
    obtain ⟨m, hm⟩ := hm
    exact ih.mutate hm

theorem seq_succ {m : Mutation} (h : mutate s m = .ok s') : s'.seq = s.seq + 1 := by
  cases m with
  | addMember i x => cases h; rfl
  | removeMember i => cases h; rfl
  | changeScore i x =>
    rw [mutate, MockDeepSeeService.changeScore] at h
    split at h
    · cases h; rfl
    · cases h

/-- The source passes through every event number. -/
theorem at_number (h : Mutates s s') {v : Nat} (hv : s.seq ≤ v) (hv' : v ≤ s'.seq) :
    ∃ t, Mutates s t ∧ Mutates t s' ∧ t.seq = v := by
  induction h with
  | refl => exact ⟨s, .refl, .refl, by omega⟩
  | @tail t t' ht hm ih =>
    obtain ⟨m, hm⟩ := hm
    have hsucc := seq_succ hm
    by_cases hle : v ≤ t.seq
    · obtain ⟨r, hr, hr', hseq⟩ := ih hle
      exact ⟨r, hr, hr'.tail ⟨m, hm⟩, hseq⟩
    · exact ⟨t', ht.tail ⟨m, hm⟩, .refl, by omega⟩

end Mutates

end ContextqlServer.Deepsee.History
