import Mathlib.Data.List.Induction
import Metaheuristic.Proofs.Quality.Dominance
import Metaheuristic.Quality.Archive

/-! The agents of a sequence that deserve a place in an archive without bound,
told from the whole sequence and not from the inserts. An agent survives when it
is admissible, no admissible agent of the sequence dominates it, and no earlier
admissible agent has the same rewards.

How the survivors of a joined sequence come from those of its two parts is plain
bookkeeping. That survivors speak for the agents that did not survive needs the
transitivity of dominance: whoever kept an agent out may be evicted later, but
only by an agent that would have kept it out as well. -/
namespace Metaheuristic.Archive

variable {α : Type} [Scalar α]

/-- An admissible agent that dominates another. -/
def beats (ds : List Direction) (a b : Agent α) : Bool :=
  admissible b && dominates ds b.reward a.reward

/-- An admissible agent with the rewards of another. -/
def repeats (a b : Agent α) : Bool := admissible b && Scalar.sameList b.reward a.reward

/-- Whether an agent of the offered sequence survives, given those before it. -/
def survives (ds : List Direction) (offered before : List (Agent α)) (a : Agent α) : Bool :=
  admissible a && !offered.any (beats ds a) && !before.any (repeats a)

/-- The survivors among the agents that follow `before` in the offered sequence. -/
def survivorsFrom (ds : List Direction) (offered : List (Agent α)) :
    (before rest : List (Agent α)) → List (Agent α)
  | _, [] => []
  | before, a :: rest =>
    if survives ds offered before a then a :: survivorsFrom ds offered (before ++ [a]) rest
    else survivorsFrom ds offered (before ++ [a]) rest

/-- The survivors of a sequence, in its order. -/
def survivors (ds : List Direction) (offered : List (Agent α)) : List (Agent α) :=
  survivorsFrom ds offered [] offered

/-- A reward for each direction. -/
def Sized (ds : List Direction) (u : List (Agent α)) : Prop :=
  ∀ a ∈ u, a.reward.length = ds.length

section Joined

variable {ds : List Direction} {s t u xs : List (Agent α)} {a b : Agent α}

theorem mem_survivorsFrom {offered before : List (Agent α)}
    (member : a ∈ survivorsFrom ds offered before xs) :
    a ∈ xs ∧ survives ds offered before a = true := by
  induction xs generalizing before with
  | nil => cases member
  | cons x xs ih =>
    -- what survives after a longer beginning survives after a shorter one
    have shorter : survives ds offered (before ++ [x]) a = true →
        survives ds offered before a = true := by
      simp only [survives, List.any_append, Bool.not_or, Bool.and_eq_true]
      exact fun ⟨kept, fresh, _⟩ => ⟨kept, fresh⟩
    rw [survivorsFrom] at member
    split at member
    · rename_i stays
      rcases List.mem_cons.mp member with rfl | later
      · exact ⟨List.mem_cons_self, stays⟩
      · exact ⟨List.mem_cons_of_mem _ (ih later).1, shorter (ih later).2⟩
    · exact ⟨List.mem_cons_of_mem _ (ih member).1, shorter (ih member).2⟩

theorem mem_of_mem_survivors (member : a ∈ survivors ds u) : a ∈ u :=
  (mem_survivorsFrom member).1

theorem admissible_of_mem_survivors (member : a ∈ survivors ds u) : admissible a = true := by
  have kept := (mem_survivorsFrom member).2
  simp only [survives, Bool.and_eq_true] at kept
  exact kept.1.1

/-- No admissible agent of the sequence dominates a survivor. -/
theorem not_dominates_of_mem_survivors (member : a ∈ survivors ds u) (inside : b ∈ u)
    (allowed : admissible b = true) : dominates ds b.reward a.reward = false := by
  have kept := (mem_survivorsFrom member).2
  simp only [survives, Bool.and_eq_true, Bool.not_eq_true', List.any_eq_false] at kept
  have spared := kept.1.2 b inside
  simpa [beats, allowed] using spared

private theorem survivorsFrom_append {offered before : List (Agent α)} :
    survivorsFrom ds offered before (s ++ t) =
      survivorsFrom ds offered before s ++ survivorsFrom ds offered (before ++ s) t := by
  induction s generalizing before with
  | nil => simp [survivorsFrom]
  | cons a s ih =>
    have step : survivorsFrom ds offered (before ++ [a]) (s ++ t) =
        survivorsFrom ds offered (before ++ [a]) s ++
          survivorsFrom ds offered (before ++ a :: s) t := by
      simpa using @ih (before ++ [a])
    simp only [List.cons_append, survivorsFrom, step]
    split <;> simp

private theorem survivorsFrom_offered_append {before : List (Agent α)} :
    survivorsFrom ds (s ++ t) before xs =
      (survivorsFrom ds s before xs).filter fun a => !t.any (beats ds a) := by
  induction xs generalizing before with
  | nil => simp [survivorsFrom]
  | cons a xs ih =>
    have split_survives : survives ds (s ++ t) before a =
        (survives ds s before a && !t.any (beats ds a)) := by
      simp only [survives, List.any_append, Bool.not_or]
      cases admissible a <;> cases s.any (beats ds a) <;> cases before.any (repeats a) <;> simp
    simp only [survivorsFrom, ih, split_survives]
    cases survives ds s before a <;> cases blocked : t.any (beats ds a) <;>
      simp [blocked]

private theorem survivorsFrom_prepend {before : List (Agent α)} :
    survivorsFrom ds (s ++ t) (s ++ before) xs =
      (survivorsFrom ds t before xs).filter fun a =>
        !s.any (beats ds a) && !s.any (repeats a) := by
  induction xs generalizing before with
  | nil => simp [survivorsFrom]
  | cons a xs ih =>
    have split_survives : survives ds (s ++ t) (s ++ before) a =
        (survives ds t before a && (!s.any (beats ds a) && !s.any (repeats a))) := by
      simp only [survives, List.any_append, Bool.not_or]
      cases admissible a <;> cases s.any (beats ds a) <;> cases s.any (repeats a) <;>
        cases t.any (beats ds a) <;> simp
    simp only [survivorsFrom, List.append_assoc, ih, split_survives]
    cases survives ds t before a <;> cases beaten : s.any (beats ds a) <;>
      cases repeated : s.any (repeats a) <;> simp [beaten, repeated]

/-- Joining two sequences: of the first survivors those stay that nothing in the
second sequence beats, of the second those that nothing in the first sequence
beats or repeats. -/
theorem survivors_append :
    survivors ds (s ++ t) =
      ((survivors ds s).filter fun a => !t.any (beats ds a)) ++
        (survivors ds t).filter fun a => !s.any (beats ds a) && !s.any (repeats a) := by
  have second : survivorsFrom ds (s ++ t) (s ++ []) t =
      (survivors ds t).filter fun a => !s.any (beats ds a) && !s.any (repeats a) :=
    survivorsFrom_prepend
  rw [List.append_nil] at second
  rw [survivors, survivorsFrom_append, survivorsFrom_offered_append, List.nil_append, second]
  rfl

/-- Nothing dominates itself, so an admissible agent survives alone. -/
theorem survivors_singleton (ds : List Direction) (a : Agent α) :
    survivors ds [a] = if admissible a then [a] else [] := by
  have irreflexive : dominates ds a.reward a.reward = false := by
    rw [Bool.eq_false_iff, ne_eq, dominates_iff]
    exact fun ⟨worse, better⟩ => better worse
  cases allowed : admissible a <;>
    simp [survivors, survivorsFrom, survives, beats, allowed, irreflexive]

/-- A survivor that the newcomer does not beat stays. -/
private theorem survivor_stays (member : b ∈ survivors ds u) (spared : beats ds b a = false) :
    b ∈ survivors ds (u ++ [a]) := by
  rw [survivors_append]
  exact List.mem_append_left _ (List.mem_filter.mpr ⟨member, by simp [spared]⟩)

/-- No survivor has the rewards of an earlier one. -/
private theorem survivorsFrom_pairwise {offered before : List (Agent α)} :
    (survivorsFrom ds offered before xs).Pairwise fun b a => repeats a b = false := by
  induction xs generalizing before with
  | nil => simp [survivorsFrom]
  | cons x xs ih =>
    rw [survivorsFrom]
    split
    · refine List.pairwise_cons.mpr ⟨fun a later => ?_, ih⟩
      have kept := (mem_survivorsFrom later).2
      simp only [survives, Bool.and_eq_true, Bool.not_eq_true', List.any_eq_false] at kept
      simpa using kept.2 x (List.mem_append_right _ List.mem_cons_self)
    · exact ih

/-- A list in which everything survives. -/
private theorem survivorsFrom_eq_self {offered before : List (Agent α)}
    (allowed : ∀ a ∈ xs, admissible a = true)
    (unbeaten : ∀ a ∈ xs, ∀ b ∈ offered, beats ds a b = false)
    (fresh : ∀ a ∈ xs, ∀ b ∈ before, repeats a b = false)
    (apart : xs.Pairwise fun b a => repeats a b = false) :
    survivorsFrom ds offered before xs = xs := by
  induction xs generalizing before with
  | nil => rfl
  | cons x xs ih =>
    obtain ⟨first, rest⟩ := List.pairwise_cons.mp apart
    have survivesX : survives ds offered before x = true := by
      simp only [survives, Bool.and_eq_true, Bool.not_eq_true', List.any_eq_false]
      exact ⟨⟨allowed x List.mem_cons_self, fun b inside => by
        simp [unbeaten x List.mem_cons_self b inside]⟩, fun b inside => by
        simp [fresh x List.mem_cons_self b inside]⟩
    rw [survivorsFrom, if_pos survivesX, ih]
    · exact fun a inside => allowed a (List.mem_cons_of_mem _ inside)
    · exact fun a inside => unbeaten a (List.mem_cons_of_mem _ inside)
    · intro a inside b member
      rcases List.mem_append.mp member with earlier | last
      · exact fresh a (List.mem_cons_of_mem _ inside) b earlier
      · rw [List.mem_singleton.mp last]
        exact first a inside
    · exact rest

/-- Survivors all survive among themselves. -/
theorem survivors_idem : survivors ds (survivors ds u) = survivors ds u := by
  refine survivorsFrom_eq_self (fun a member => admissible_of_mem_survivors member) ?_ ?_
    survivorsFrom_pairwise
  · intro a member b other
    have unbeaten := not_dominates_of_mem_survivors member (mem_of_mem_survivors other)
      (admissible_of_mem_survivors other)
    simp [beats, unbeaten]
  · intro a _ b none
    cases none

end Joined

section Ordered

variable [Scalar.LawfulOrder α] {ds : List Direction} {s t u v : List (Agent α)} {a b : Agent α}

/-- The rewards of an admissible agent are numbers. -/
theorem proper_of_admissible (sized : a.reward.length = ds.length)
    (allowed : admissible a = true) : Proper ds a.reward := by
  refine ⟨sized, fun x member => Scalar.defined_of_finite ?_⟩
  simp only [admissible, Bool.and_eq_true, List.all_eq_true] at allowed
  exact allowed.2 x member

/-- A member keeps an agent out exactly when it is nowhere worse. -/
theorem blocks_iff (left : Proper ds b.reward) (right : Proper ds a.reward) :
    blocks ds a b = true ↔ NoWorse ds b.reward a.reward := by
  rw [noWorse_iff left right, blocks, Bool.or_eq_true]

/-- The newcomer enters when every admissible agent before it is somewhere worse. -/
private theorem newcomer_enters (sized : Sized ds (u ++ [a])) (allowed : admissible a = true)
    (free : ∀ c ∈ u, admissible c = true → ¬NoWorse ds c.reward a.reward) :
    a ∈ survivors ds (u ++ [a]) := by
  have apart (c : Agent α) (member : c ∈ u) (ok : admissible c = true)
      (blocked : blocks ds a c = true) : False := by
    have properC := proper_of_admissible (sized c (List.mem_append_left _ member)) ok
    have properA :=
      proper_of_admissible (sized a (List.mem_append_right _ List.mem_cons_self)) allowed
    exact free c member ok ((blocks_iff properC properA).mp blocked)
  rw [survivors_append, survivors_singleton, if_pos allowed]
  refine List.mem_append_right _ (List.mem_filter.mpr ⟨List.mem_cons_self, ?_⟩)
  simp only [Bool.and_eq_true, Bool.not_eq_true', List.any_eq_false]
  constructor
  · intro c member beaten
    simp only [beats, Bool.and_eq_true] at beaten
    exact apart c member beaten.1 (by simp [blocks, beaten.2])
  · intro c member repeated
    simp only [repeats, Bool.and_eq_true] at repeated
    exact apart c member repeated.1 (by simp [blocks, repeated.2])

/-- Every admissible agent of the sequence has a survivor that is nowhere worse. -/
theorem exists_survivor (sized : Sized ds u) (inside : b ∈ u) (allowed : admissible b = true) :
    ∃ m ∈ survivors ds u, NoWorse ds m.reward b.reward := by
  -- Agents come one at a time. The newcomer either leaves the speaker of `b` in
  -- place, or evicts it and takes its part: nobody can keep the newcomer out,
  -- since that agent would have dominated the speaker before.
  induction u using List.reverseRecOn generalizing b with
  | nil => cases inside
  | append_singleton u a ih =>
    have sizedBefore : Sized ds u := fun x member => sized x (List.mem_append_left _ member)
    have proper {x : Agent α} (member : x ∈ u) (ok : admissible x = true) :
        Proper ds x.reward := proper_of_admissible (sizedBefore x member) ok
    rcases List.mem_append.mp inside with earlier | last
    · obtain ⟨m, member, covers⟩ := ih sizedBefore earlier allowed
      cases evicted : beats ds m a with
      | false => exact ⟨m, survivor_stays member evicted, covers⟩
      | true =>
        simp only [beats, Bool.and_eq_true] at evicted
        obtain ⟨okA, ahead⟩ := evicted
        have strict := dominates_iff.mp ahead
        have properM := proper (mem_of_mem_survivors member) (admissible_of_mem_survivors member)
        have properA :=
          proper_of_admissible (sized a (List.mem_append_right _ List.mem_cons_self)) okA
        refine ⟨a, newcomer_enters sized okA ?_, strict.1.trans properM covers⟩
        intro c inU okC blocked
        have unbeaten := not_dominates_of_mem_survivors member inU okC
        rw [Bool.eq_false_iff, ne_eq, dominates_iff] at unbeaten
        exact unbeaten ⟨blocked.trans properA strict.1,
          fun back => strict.2 (back.trans (proper inU okC) blocked)⟩
    · cases List.mem_singleton.mp last
      by_cases blocked : ∃ c ∈ u, admissible c = true ∧ NoWorse ds c.reward a.reward
      · obtain ⟨c, inU, okC, ahead⟩ := blocked
        obtain ⟨m, member, covers⟩ := ih sizedBefore inU okC
        have reach := covers.trans (proper inU okC) ahead
        refine ⟨m, survivor_stays member ?_, reach⟩
        rw [Bool.eq_false_iff, beats, ne_eq, Bool.and_eq_true, dominates_iff]
        exact fun ⟨_, _, notBack⟩ => notBack reach
      · refine ⟨a, newcomer_enters sized allowed ?_, NoWorse.refl ds a.reward⟩
        exact fun c inU okC ahead => blocked ⟨c, inU, okC, ahead⟩

/-- What the survivors keep out is what the whole sequence keeps out. -/
theorem any_survivors_blocks (sized : Sized ds u) (size : a.reward.length = ds.length)
    (allowed : admissible a = true) :
    (survivors ds u).any (blocks ds a) = (u.any (beats ds a) || u.any (repeats a)) := by
  have properA := proper_of_admissible size allowed
  rw [Bool.eq_iff_iff, Bool.or_eq_true]
  simp only [List.any_eq_true]
  constructor
  · rintro ⟨m, member, blocked⟩
    have inside := mem_of_mem_survivors member
    have ok := admissible_of_mem_survivors member
    rw [blocks, Bool.or_eq_true] at blocked
    rcases blocked with same | ahead
    · exact .inr ⟨m, inside, by simp [repeats, ok, same]⟩
    · exact .inl ⟨m, inside, by simp [beats, ok, ahead]⟩
  · have speak (c : Agent α) (inside : c ∈ u) (ok : admissible c = true)
        (blocked : blocks ds a c = true) : ∃ m ∈ survivors ds u, blocks ds a m = true := by
      have properC := proper_of_admissible (sized c inside) ok
      obtain ⟨m, member, covers⟩ := exists_survivor sized inside ok
      have properM := proper_of_admissible (sized m (mem_of_mem_survivors member))
        (admissible_of_mem_survivors member)
      exact ⟨m, member, (blocks_iff properM properA).mpr
        (covers.trans properC ((blocks_iff properC properA).mp blocked))⟩
    rintro (⟨c, inside, beaten⟩ | ⟨c, inside, repeated⟩)
    · simp only [beats, Bool.and_eq_true] at beaten
      exact speak c inside beaten.1 (by simp [blocks, beaten.2])
    · simp only [repeats, Bool.and_eq_true] at repeated
      exact speak c inside repeated.1 (by simp [blocks, repeated.2])

/-- The survivors dominate whatever the whole sequence dominates. -/
theorem any_survivors_beats (sized : Sized ds u) :
    (survivors ds u).any (beats ds a) = u.any (beats ds a) := by
  rw [Bool.eq_iff_iff]
  simp only [List.any_eq_true]
  constructor
  · rintro ⟨m, member, beaten⟩
    exact ⟨m, mem_of_mem_survivors member, beaten⟩
  · rintro ⟨c, inside, beaten⟩
    simp only [beats, Bool.and_eq_true] at beaten
    obtain ⟨ok, ahead⟩ := beaten
    obtain ⟨m, member, covers⟩ := exists_survivor sized inside ok
    have okM := admissible_of_mem_survivors member
    have properM := proper_of_admissible (sized m (mem_of_mem_survivors member)) okM
    have properC := proper_of_admissible (sized c inside) ok
    have strict := dominates_iff.mp ahead
    refine ⟨m, member, ?_⟩
    rw [beats, okM, Bool.true_and, dominates_iff]
    exact ⟨covers.trans properC strict.1, fun back =>
      strict.2 (back.trans properM covers)⟩

/-- Sequences of the same agents in any order have survivors of the same rewards. -/
theorem exists_same_survivor (sized : Sized ds u) (same : ∀ a, a ∈ u ↔ a ∈ v)
    (member : a ∈ survivors ds u) :
    ∃ m ∈ survivors ds v, Scalar.sameList m.reward a.reward = true := by
  have allowed := admissible_of_mem_survivors member
  have inside := mem_of_mem_survivors member
  have sizedV : Sized ds v := fun x inV => sized x ((same x).mpr inV)
  obtain ⟨m, memberV, covers⟩ := exists_survivor sizedV ((same a).mp inside) allowed
  have inU := (same m).mpr (mem_of_mem_survivors memberV)
  have okM := admissible_of_mem_survivors memberV
  have unbeaten := not_dominates_of_mem_survivors member inU okM
  rw [Bool.eq_false_iff] at unbeaten
  have either := (noWorse_iff (proper_of_admissible (sized m inU) okM)
    (proper_of_admissible (sized a inside) allowed)).mp covers
  exact ⟨m, memberV, either.resolve_right unbeaten⟩

end Ordered

end Metaheuristic.Archive
