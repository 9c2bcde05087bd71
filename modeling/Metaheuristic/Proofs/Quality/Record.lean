import Metaheuristic.Proofs.Computation
import Metaheuristic.Proofs.Quality.Direction
import Metaheuristic.Quality.Record

/-! What a record remembers of the agents it was offered: with one objective the
first of the best, with several a part of them. -/
namespace Metaheuristic

variable {α : Type} [Scalar α]

namespace Archive

variable {s s' : Archive α} {a b : Agent α}

omit [Scalar α] in
theorem mem_dropAt {members : List (Agent α)} {i : Nat} (kept : b ∈ dropAt members i) :
    b ∈ members := by
  unfold dropAt at kept
  split at kept
  · cases kept
  · rename_i last final
    rcases List.mem_or_eq_of_mem_set (List.dropLast_subset _ kept) with held | rfl
    · exact held
    · exact List.mem_of_getLast? final

theorem mem_truncate {ds : List Direction} {limit fuel : Nat} {members kept : List (Agent α)}
    (ran : truncate ds limit fuel members = .ok kept) (member : b ∈ kept) : b ∈ members := by
  induction fuel generalizing members with
  | zero =>
    cases ran
    exact member
  | succ fuel ih =>
    rw [truncate] at ran
    split at ran
    · cases ran
      exact member
    · obtain ⟨distances, _, ran⟩ := bind_ok.mp ran
      split at ran
      · cases ran
        exact member
      · exact mem_dropAt (ih ran)

theorem mem_insert {entered : Bool} (ran : s.insert a = .ok (s', entered)) (member : b ∈ s'.members) :
    b ∈ s.members ∨ b = a := by
  unfold insert at ran
  split at ran
  · cases ran
    exact .inl member
  · obtain ⟨members, kept, built⟩ := bind_ok.mp ran
    cases built
    have offered : b ∈ (s.members.filter fun m => !dominates s.directions a.reward m.reward) ++ [a] := by
      unfold bounded at kept
      split at kept
      · cases kept
        exact member
      · exact mem_truncate kept member
    rcases List.mem_append.mp offered with held | new
    · exact .inl (List.mem_filter.mp held).1
    · exact .inr (List.mem_singleton.mp new)

theorem mem_insertAll {agents : List (Agent α)} (ran : s.insertAll agents = .ok s')
    (member : b ∈ s'.members) : b ∈ s.members ∨ b ∈ agents := by
  induction agents generalizing s with
  | nil =>
    cases ran
    exact .inl member
  | cons a rest ih =>
    obtain ⟨⟨next, entered⟩, inserted, ran⟩ := bind_ok.mp ran
    rcases ih ran with held | later
    · rcases mem_insert inserted held with old | rfl
      · exact .inl old
      · exact .inr List.mem_cons_self
    · exact .inr (List.mem_cons_of_mem _ later)

end Archive

namespace Record

variable {r r' other : Record α} {a b : Agent α}

/-- The agents that a record holds. -/
def held : Record α → List (Agent α)
  | single _ best => best.toList
  | archive s => s.members

omit [Scalar α] in
theorem held_empty (ds : List Direction) (capacity : Option Nat) :
    (empty ds capacity : Record α).held = [] := by
  unfold empty
  split <;> rfl

private theorem better_cases (d : Direction) (best : Option (Agent α)) (a : Agent α) :
    best = some (better d best a) ∨ better d best a = a := by
  unfold better
  split
  · exact .inr rfl
  · split
    · exact .inr rfl
    · exact .inl rfl

theorem mem_observe (ran : r.observe a = .ok r') (member : b ∈ r'.held) : b ∈ r.held ∨ b = a := by
  cases r with
  | single d best =>
    unfold observe at ran
    dsimp only at ran
    split at ran
    · cases ran
    · cases ran
      simp only [held, Option.toList_some, List.mem_singleton, Option.mem_toList] at member ⊢
      rcases better_cases d best a with kept | new
      · exact .inl (by rw [kept, member])
      · exact .inr (member.trans new)
  | archive s =>
    obtain ⟨⟨next, entered⟩, inserted, built⟩ := bind_ok.mp ran
    cases built
    exact Archive.mem_insert inserted member

/-- A record holds nothing but what it was offered. -/
theorem mem_observeAll {agents : List (Agent α)} (ran : r.observeAll agents = .ok r')
    (member : b ∈ r'.held) : b ∈ r.held ∨ b ∈ agents := by
  have bound := foldlM_ok (I := fun r' => ∀ b ∈ r'.held, b ∈ r.held ∨ b ∈ agents)
    (fun a offered s s' good step b inside => ?_) (fun b inside => .inl inside) ran
  · exact bound b member
  · rcases mem_observe step inside with old | rfl
    · exact good b old
    · exact .inr offered

theorem mem_merge (ran : r.merge other = .ok r') (member : b ∈ r'.held) :
    b ∈ r.held ∨ b ∈ other.held := by
  unfold merge at ran
  split at ran
  · rename_i d best _ a
    cases ran
    simp only [held, Option.toList_some, List.mem_singleton, Option.mem_toList] at member ⊢
    rcases better_cases d best a with kept | new
    · exact .inl (by rw [kept, member])
    · exact .inr (member.trans new)
  · obtain ⟨merged, inserted, built⟩ := bind_ok.mp ran
    cases built
    exact Archive.mem_insertAll inserted member
  · cases ran
    exact .inl member

/-- An agent of a log that is strictly better than every earlier one and that no
later one beats. -/
def FirstBest (d : Direction) (log : List (Agent α)) (a : Agent α) : Prop :=
  ∃ before after, log = before ++ a :: after ∧
    (∀ b ∈ before, d.isBetter a.leading b.leading = true) ∧
    ∀ b ∈ after, d.isBetter b.leading a.leading = false

theorem FirstBest.mem {d : Direction} {log : List (Agent α)} (first : FirstBest d log a) :
    a ∈ log := by
  obtain ⟨before, after, rfl, _⟩ := first
  exact List.mem_append_right _ List.mem_cons_self

/-- A record of one objective that has seen a log. -/
def Tracks (d : Direction) (log : List (Agent α)) (r : Record α) : Prop :=
  (log = [] ∧ r = single d none) ∨ ∃ a, r = single d (some a) ∧ FirstBest d log a

/-- First rewards are numbers. -/
def Defined (log : List (Agent α)) : Prop := ∀ a ∈ log, Scalar.isNaN a.leading = false

section FirstBest

variable [Scalar.LawfulOrder α] {d : Direction} {s t : List (Agent α)}

/-- Putting two logs together: the first best of the second one takes over exactly
when it is strictly better. Ties go to the first log, and nothing is lost: what
the loser has beaten the winner beats too. -/
theorem FirstBest.append (first : FirstBest d s a) (second : FirstBest d t b)
    (definedS : Defined s) (definedT : Defined t) :
    FirstBest d (s ++ t) (better d (some a) b) := by
  obtain ⟨beforeA, afterA, rfl, overA, underA⟩ := first
  obtain ⟨beforeB, afterB, rfl, overB, underB⟩ := second
  unfold better
  dsimp only
  split
  · rename_i wins
    refine ⟨(beforeA ++ a :: afterA) ++ beforeB, afterB, by simp, fun x earlier => ?_, underB⟩
    rcases List.mem_append.mp earlier with inFirst | inSecond
    · rcases List.mem_append.mp inFirst with before | rest
      · exact Direction.isBetter_trans wins (overA x before)
      · rcases List.mem_cons.mp rest with rfl | after
        · exact wins
        · -- `x` does not beat `a`, so it is worse than what does
          have defined := definedS x inFirst
          rcases Direction.isBetter_or_isBetter x.leading defined wins with above | below
          · exact above
          · rw [underA x after] at below
            contradiction
    · exact overB x inSecond
  · rename_i loses
    rw [Bool.not_eq_true] at loses
    refine ⟨beforeA, afterA ++ (beforeB ++ b :: afterB), by simp, overA, fun x later => ?_⟩
    have definedB : Scalar.isNaN b.leading = false :=
      definedT b (List.mem_append_right _ List.mem_cons_self)
    rcases List.mem_append.mp later with after | inSecond
    · exact underA x after
    · rcases List.mem_append.mp inSecond with before | rest
      · rw [Bool.eq_false_iff]
        intro beats
        have wins := Direction.isBetter_trans (overB x before) beats
        rw [loses] at wins
        contradiction
      · rcases List.mem_cons.mp rest with rfl | after
        · exact loses
        · exact Direction.not_isBetter_trans definedB loses (underB x after)

/-- What beats a bound that nothing before has beaten is the first best. -/
theorem FirstBest.of_beaten {bound : α} (defined : Defined s)
    (beaten : ∀ b ∈ s, d.isBetter b.leading bound = false)
    (better : d.isBetter a.leading bound = true) : FirstBest d (s ++ [a]) a := by
  refine ⟨s, [], rfl, fun b member => ?_, nofun⟩
  rcases Direction.isBetter_or_isBetter b.leading (defined b member) better with above | below
  · exact above
  · rw [beaten b member] at below
    contradiction

theorem Tracks.merge (first : Tracks d s r) (second : Tracks d t other) (definedS : Defined s)
    (definedT : Defined t) (ran : r.merge other = .ok r') : Tracks d (s ++ t) r' := by
  rcases second with ⟨rfl, rfl⟩ | ⟨b, rfl, firstB⟩
  · have same : r' = r := by
      cases r <;> cases ran <;> rfl
    rw [same, List.append_nil]
    exact first
  · rcases first with ⟨rfl, rfl⟩ | ⟨a, rfl, firstA⟩
    · cases ran
      exact .inr ⟨b, rfl, firstB⟩
    · cases ran
      exact .inr ⟨_, rfl, firstA.append firstB definedS definedT⟩

theorem Tracks.observe (tracks : Tracks d s r) (defined : Defined (s ++ [a]))
    (ran : r.observe a = .ok r') : Tracks d (s ++ [a]) r' := by
  have alone : Tracks d [a] (single d (some a)) :=
    .inr ⟨a, rfl, [], [], rfl, nofun, nofun⟩
  have definedS : Defined s := fun b member => defined b (List.mem_append_left _ member)
  have definedA : Defined [a] := fun b member => defined b (List.mem_append_right _ member)
  refine tracks.merge alone definedS definedA ?_
  -- observing is merging the record of the one agent
  rcases tracks with ⟨_, rfl⟩ | ⟨_, rfl, _⟩
  · unfold Record.observe at ran
    dsimp only at ran
    split at ran
    · cases ran
    · exact ran
  · unfold Record.observe at ran
    dsimp only at ran
    split at ran
    · cases ran
    · exact ran

theorem Tracks.observeAll {agents : List (Agent α)} (tracks : Tracks d s r)
    (defined : Defined (s ++ agents)) (ran : r.observeAll agents = .ok r') :
    Tracks d (s ++ agents) r' := by
  induction agents generalizing s r with
  | nil =>
    cases ran
    rw [List.append_nil]
    exact tracks
  | cons a agents ih =>
    unfold Record.observeAll at ran
    rw [List.foldlM_cons] at ran
    obtain ⟨next, offered, rest⟩ := bind_ok.mp ran
    rw [← List.singleton_append, ← List.append_assoc] at defined ⊢
    have earlier : Defined (s ++ [a]) := fun b member => defined b (List.mem_append_left _ member)
    exact ih (tracks.observe earlier offered) defined rest

/-- No agent of the log beats the first best. -/
theorem FirstBest.unbeaten (first : FirstBest d s a) :
    ∀ b ∈ s, d.isBetter b.leading a.leading = false := by
  obtain ⟨before, after, rfl, ahead, under⟩ := first
  intro b member
  rcases List.mem_append.mp member with earlier | rest
  · exact Direction.isBetter_asymm (ahead b earlier)
  · rcases List.mem_cons.mp rest with rfl | later
    · exact Direction.isBetter_irrefl
    · exact under b later

/-- The first best is the first agent of the log with its reward. -/
theorem FirstBest.find (first : FirstBest d s a) (defined : Defined s) :
    s.find? (fun b => b.leading == a.leading) = some a := by
  obtain ⟨before, after, rfl, ahead, _⟩ := first
  have definedA := defined a (List.mem_append_right _ List.mem_cons_self)
  have apart : before.find? (fun b => b.leading == a.leading) = none := by
    refine List.find?_eq_none.mpr fun b member => ?_
    have definedB := defined b (List.mem_append_left _ member)
    rw [Direction.eq_iff_not_isBetter (d := d) definedB definedA, ahead b member]
    simp
  rw [List.find?_append, apart, List.find?_cons, Scalar.eq_refl definedA]
  rfl

end FirstBest

end Record
end Metaheuristic
