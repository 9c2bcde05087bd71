import Metaheuristic.Proofs.Number.Double
import Metaheuristic.Proofs.Quality.Survivors

/-! What an archive without bound holds. Inserting keeps the members equal to the
survivors of everything offered, so an archive is a function of the sequence of
its inserts. Merging offers only the survivors of the other sequence; the agents
that it leaves out would not have changed anything. -/
namespace Metaheuristic.Archive

variable {α : Type} [Scalar α]

/-- Whether a member has these rewards. -/
def holds (s : Archive α) (reward : List α) : Bool :=
  s.members.any fun m => Scalar.sameList m.reward reward

/-- A way to fill an archive: inserts and merges of archives that were filled
themselves. -/
inductive History (α : Type) where
  | empty
  | insert (history : History α) (a : Agent α)
  | merge (history other : History α)

namespace History

/-- All agents that were ever inserted, those of merged archives in their turn. -/
def offered : History α → List (Agent α)
  | empty => []
  | insert history a => history.offered ++ [a]
  | merge history other => history.offered ++ other.offered

/-- The archive that a history leads to. -/
def replay (ds : List Direction) (capacity : Option Nat) : History α → Except Fault (Archive α)
  | empty => .ok (Archive.empty ds capacity)
  | insert history a => do return (← (← history.replay ds capacity).insert a).1
  | merge history other => do (← history.replay ds capacity).merge (← other.replay ds capacity)

end History

variable [Scalar.LawfulOrder α] {ds : List Direction} {s t u v : List (Agent α)} {a : Agent α}

/-- Whoever keeps a newcomer out dominates all that it could evict. -/
private theorem spared_of_blocked (sized : Sized ds u) (size : a.reward.length = ds.length)
    (allowed : admissible a = true) (out : (survivors ds u).any (blocks ds a) = true) :
    (survivors ds u).filter (fun m => !([a].any (beats ds m))) = survivors ds u := by
  refine List.filter_eq_self.mpr fun m member => ?_
  obtain ⟨b, other, ahead⟩ := List.any_eq_true.mp out
  have properA := proper_of_admissible size allowed
  have okB := admissible_of_mem_survivors other
  have properB := proper_of_admissible (sized b (mem_of_mem_survivors other)) okB
  have covers := (blocks_iff properB properA).mp ahead
  have unbeaten := not_dominates_of_mem_survivors member (mem_of_mem_survivors other) okB
  rw [Bool.eq_false_iff, ne_eq, dominates_iff] at unbeaten
  rw [List.any_cons, List.any_nil, Bool.or_false, Bool.not_eq_true', Bool.eq_false_iff, beats,
    allowed, Bool.true_and, ne_eq, dominates_iff]
  rintro ⟨worse, better⟩
  refine unbeaten ⟨covers.trans properA worse, fun back => ?_⟩
  exact better (back.trans properB covers)

theorem insert_survivors (sized : Sized ds (u ++ [a])) :
    ∃ entered, insert ⟨ds, none, survivors ds u⟩ a =
      .ok (⟨ds, none, survivors ds (u ++ [a])⟩, entered) := by
  have sizedBefore : Sized ds u := fun x member => sized x (List.mem_append_left _ member)
  have size := sized a (List.mem_append_right _ List.mem_cons_self)
  rw [survivors_append, survivors_singleton, insert]
  cases allowed : admissible a with
  | false =>
    refine ⟨false, ?_⟩
    have untouched : (survivors ds u).filter (fun _ => true) = survivors ds u :=
      List.filter_eq_self.mpr fun _ _ => rfl
    simp [beats, allowed, untouched]
  | true =>
    have blocked := any_survivors_blocks sizedBefore size allowed
    cases out : (survivors ds u).any (blocks ds a) with
    | true =>
      have spared := spared_of_blocked sizedBefore size allowed out
      rw [out] at blocked
      refine ⟨false, ?_⟩
      simp only [spared]
      rcases Bool.or_eq_true_iff.mp blocked.symm with beaten | repeated
      · simp [beaten]
      · simp [repeated]
    | false =>
      rw [out] at blocked
      obtain ⟨unbeaten, fresh⟩ := Bool.or_eq_false_iff.mp blocked.symm
      exact ⟨true, by simp [bounded, beats, allowed, unbeaten, fresh, bind, Except.bind, pure,
        Except.pure]⟩

theorem insertAll_survivors (sized : Sized ds (u ++ v)) :
    insertAll ⟨ds, none, survivors ds u⟩ v = .ok ⟨ds, none, survivors ds (u ++ v)⟩ := by
  induction v generalizing u with
  | nil => simp [insertAll]
  | cons a v ih =>
    rw [← List.singleton_append, ← List.append_assoc] at sized ⊢
    have first : Sized ds (u ++ [a]) := fun x member => sized x (List.mem_append_left _ member)
    obtain ⟨entered, inserted⟩ := insert_survivors first
    rw [List.singleton_append, insertAll, inserted]
    exact ih sized

/-- Offering only the survivors of a sequence has the effect of offering all of it. -/
theorem survivors_append_survivors (sized : Sized ds t) :
    survivors ds (s ++ survivors ds t) = survivors ds (s ++ t) := by
  rw [survivors_append, survivors_append, survivors_idem]
  simp only [any_survivors_beats sized]

theorem merge_survivors (left : Sized ds s) (right : Sized ds t) :
    merge ⟨ds, none, survivors ds s⟩ ⟨ds, none, survivors ds t⟩ =
      .ok ⟨ds, none, survivors ds (s ++ t)⟩ := by
  rw [merge, insertAll_survivors, survivors_append_survivors right]
  intro x member
  rcases List.mem_append.mp member with inside | inside
  · exact left x inside
  · exact right x (mem_of_mem_survivors inside)

/-- However an archive was filled, it holds the survivors of all that was offered. -/
theorem replay_survivors (history : History α) (sized : Sized ds history.offered) :
    history.replay ds none = .ok ⟨ds, none, survivors ds history.offered⟩ := by
  induction history with
  | empty => rfl
  | insert history a ih =>
    have before : Sized ds history.offered :=
      fun x member => sized x (List.mem_append_left _ member)
    obtain ⟨entered, inserted⟩ := insert_survivors sized
    rw [History.replay, ih before]
    simp only [bind, Except.bind, inserted]
    rfl
  | merge history other ihLeft ihRight =>
    have left : Sized ds history.offered :=
      fun x member => sized x (List.mem_append_left _ member)
    have right : Sized ds other.offered :=
      fun x member => sized x (List.mem_append_right _ member)
    rw [History.replay, ihLeft left, ihRight right]
    exact merge_survivors left right

theorem holds_of_same (sized : Sized ds u) (same : ∀ a, a ∈ u ↔ a ∈ v) {reward : List α}
    (held : holds ⟨ds, none, survivors ds u⟩ reward = true) :
    holds ⟨ds, none, survivors ds v⟩ reward = true := by
  obtain ⟨m, member, equal⟩ := List.any_eq_true.mp held
  obtain ⟨k, other, twin⟩ := exists_same_survivor sized same member
  exact List.any_eq_true.mpr ⟨k, other, Scalar.sameList_trans twin equal⟩

/-- An archive without bound that starts empty holds exactly the survivors of its
inserts, and merging a second archive holds the survivors of both sequences
joined. So the rewards it holds depend neither on the order of the inserts nor
on how they were grouped into merged archives. -/
theorem unbounded_archive_exact (ds : List Direction) :
    (∀ u : List (Agent α), Sized ds u →
      (empty ds none).insertAll u = .ok ⟨ds, none, survivors ds u⟩) ∧
    (∀ s t : List (Agent α), Sized ds s → Sized ds t →
      ∃ first second, (empty ds none).insertAll s = .ok first ∧
        (empty ds none).insertAll t = .ok second ∧
        (empty ds none).insertAll (s ++ t) = first.merge second ∧
        first.merge second = .ok ⟨ds, none, survivors ds (s ++ t)⟩) ∧
    (∀ h k : History α, Sized ds h.offered → (∀ a, a ∈ h.offered ↔ a ∈ k.offered) →
      ∃ first second, h.replay ds none = .ok first ∧ k.replay ds none = .ok second ∧
        ∀ reward, first.holds reward = second.holds reward) := by
  have build (u : List (Agent α)) (sized : Sized ds u) :
      (empty ds none).insertAll u = .ok ⟨ds, none, survivors ds u⟩ := by
    have filled := insertAll_survivors (u := []) (v := u) sized
    exact filled
  refine ⟨build, ?_, ?_⟩
  · intro s t left right
    have joined : Sized ds (s ++ t) := by
      intro x member
      rcases List.mem_append.mp member with inside | inside
      · exact left x inside
      · exact right x inside
    refine ⟨_, _, build s left, build t right, ?_, merge_survivors left right⟩
    rw [build (s ++ t) joined, merge_survivors left right]
  · intro h k sized same
    have sizedK : Sized ds k.offered := fun x member => sized x ((same x).mpr member)
    refine ⟨_, _, replay_survivors h sized, replay_survivors k sizedK, fun reward => ?_⟩
    rw [Bool.eq_iff_iff]
    exact ⟨holds_of_same sized same, holds_of_same sizedK fun a => (same a).symm⟩

/-- The later agent is better in the first reward and evicts the earlier one; the
infeasible agent never enters. -/
theorem unbounded_archive_exact_evicts :
    Sized [.minimize, .maximize]
        [(⟨[0.0], [2.0, 3.0], .feasible⟩ : Agent Float), ⟨[1.0], [1.0, 9.0], .infeasible⟩] ∧
      Sized [.minimize, .maximize] [(⟨[2.0], [1.0, 3.0], .unconstrained⟩ : Agent Float)] ∧
      (∃ first second,
        (empty [.minimize, .maximize] none).insertAll
          [(⟨[0.0], [2.0, 3.0], .feasible⟩ : Agent Float), ⟨[1.0], [1.0, 9.0], .infeasible⟩] =
            .ok first ∧
        (empty [.minimize, .maximize] none).insertAll [⟨[2.0], [1.0, 3.0], .unconstrained⟩] =
          .ok second ∧
        first.merge second =
          .ok ⟨[.minimize, .maximize], none, [⟨[2.0], [1.0, 3.0], .unconstrained⟩]⟩) ∧
      (∃ first second,
        History.replay [.minimize, .maximize] none
          ((History.empty.insert (⟨[0.0], [2.0, 3.0], .feasible⟩ : Agent Float)).insert
            ⟨[2.0], [1.0, 3.0], .unconstrained⟩) = .ok first ∧
        History.replay [.minimize, .maximize] none
          ((History.empty.insert (⟨[2.0], [1.0, 3.0], .unconstrained⟩ : Agent Float)).insert
            ⟨[0.0], [2.0, 3.0], .feasible⟩) = .ok second ∧
        ∀ reward, first.holds reward = second.holds reward) := by
  have left : Sized [.minimize, .maximize]
      [(⟨[0.0], [2.0, 3.0], .feasible⟩ : Agent Float), ⟨[1.0], [1.0, 9.0], .infeasible⟩] := by
    simp [Sized]
  have right : Sized [.minimize, .maximize]
      [(⟨[2.0], [1.0, 3.0], .unconstrained⟩ : Agent Float)] := by
    simp [Sized]
  refine ⟨left, right, ?_, ?_⟩
  · obtain ⟨first, second, built, other, _, merged⟩ :=
      (unbounded_archive_exact [.minimize, .maximize]).2.1 _ _ left right
    refine ⟨first, second, built, other, ?_⟩
    rw [merged]
    rfl
  · refine (unbounded_archive_exact [.minimize, .maximize]).2.2 _ _ ?_ ?_
    · simp [Sized, History.offered]
    · intro a
      simp [History.offered, or_comm]

end Metaheuristic.Archive
