import Metaheuristic.Proofs.Computation
import Metaheuristic.Proofs.Number.Negation
import Metaheuristic.Quality.Record
import Metaheuristic.Quality.Scoring

/-! Mirroring one objective: its direction is opposed and its values are negated.
Who is better, who dominates, and what is crowded stays as it was, so an archive or
a record of mirrored agents is the mirrored archive or record. -/
namespace Metaheuristic

/-- Directions with number `k` opposed. -/
def mirrorDirections (k : Nat) (ds : List Direction) : List Direction :=
  ds.modify k Direction.opposite

@[simp] theorem length_mirrorDirections (k : Nat) (ds : List Direction) :
    (mirrorDirections k ds).length = ds.length := List.length_modify ..

@[simp] theorem mirrorDirections_nil (k : Nat) : mirrorDirections k [] = [] := List.modify_nil ..

@[simp] theorem mirrorDirections_zero (d : Direction) (ds : List Direction) :
    mirrorDirections 0 (d :: ds) = d.opposite :: ds := rfl

@[simp] theorem mirrorDirections_succ (k : Nat) (d : Direction) (ds : List Direction) :
    mirrorDirections (k + 1) (d :: ds) = d :: mirrorDirections k ds := rfl

/-- The first direction is turned when it is the one that is mirrored. -/
theorem mirrorDirections_cons (k : Nat) (d : Direction) (ds : List Direction) :
    ∃ rest, mirrorDirections k (d :: ds) = d.turn (k == 0) :: rest := by
  cases k <;> exact ⟨_, rfl⟩

theorem mirrorDirections_single (k : Nat) (d : Direction) :
    mirrorDirections k [d] = [d.turn (k == 0)] := by
  cases k with
  | zero => rfl
  | succ k =>
    rw [mirrorDirections_succ, mirrorDirections_nil]
    rfl

variable {α : Type} [Scalar α]

/-- Rewards with number `k` negated. -/
def mirrorReward (k : Nat) (reward : List α) : List α := reward.modify k fun x => -x

@[simp] theorem length_mirrorReward (k : Nat) (reward : List α) :
    (mirrorReward k reward).length = reward.length := List.length_modify ..

@[simp] theorem mirrorReward_nil (k : Nat) : mirrorReward k ([] : List α) = [] :=
  List.modify_nil ..

@[simp] theorem mirrorReward_zero (x : α) (xs : List α) :
    mirrorReward 0 (x :: xs) = -x :: xs := rfl

@[simp] theorem mirrorReward_succ (k : Nat) (x : α) (xs : List α) :
    mirrorReward (k + 1) (x :: xs) = x :: mirrorReward k xs := rfl

theorem getElem?_mirrorReward (k i : Nat) (reward : List α) :
    (mirrorReward k reward)[i]? = reward[i]?.map (Scalar.turn (k == i)) := by
  rw [mirrorReward, List.getElem?_modify]
  by_cases same : k = i
  · rw [Scalar.turn_of_eq same]
    simp [same]
  · rw [Scalar.turn_of_ne same]
    simp [same]

def Agent.mirror (k : Nat) (a : Agent α) : Agent α := { a with reward := mirrorReward k a.reward }

def Archive.mirror (k : Nat) (s : Archive α) : Archive α :=
  { s with
    directions := mirrorDirections k s.directions
    members := s.members.map (Agent.mirror k) }

/-- A record of one objective is mirrored only when that objective is. -/
def Record.mirror (k : Nat) : Record α → Record α
  | single d best => single (d.turn (k == 0)) (best.map (Agent.mirror k))
  | archive s => archive (s.mirror k)

def Scoring.mirror (k : Nat) (s : Scoring α) : Scoring α :=
  { s with directions := mirrorDirections k s.directions }

variable [Scalar.LawfulNegation α] {ds : List Direction} {a b : List α} {k : Nat}

theorem isBetter_neg (d : Direction) (x y : α) : d.opposite.isBetter (-x) (-y) = d.isBetter x y :=
  d.isBetter_turn true x y

private theorem dominatesFrom_mirror (strictly : Bool) :
    dominatesFrom (mirrorDirections k ds) (mirrorReward k a) (mirrorReward k b) strictly =
      dominatesFrom ds a b strictly := by
  induction ds, a, b, strictly using dominatesFrom.induct generalizing k with
  | case1 d ds x xs y ys strictly worse =>
    cases k <;> simp [dominatesFrom, isBetter_neg, worse]
  | case2 d ds x xs y ys strictly notWorse ih =>
    cases k with
    | zero => simp [dominatesFrom, isBetter_neg]
    | succ k => simp [dominatesFrom, notWorse, ih]
  | case3 ds a b strictly short =>
    rcases ds with _ | ⟨d, ds⟩
    · simp [dominatesFrom]
    · rcases a with _ | ⟨x, xs⟩
      · simp [dominatesFrom]
      · rcases b with _ | ⟨y, ys⟩
        · simp [dominatesFrom]
        · exact absurd rfl (short d ds x xs y ys rfl rfl)

theorem dominates_mirror (ds : List Direction) (a b : List α) (k : Nat) :
    dominates (mirrorDirections k ds) (mirrorReward k a) (mirrorReward k b) = dominates ds a b :=
  dominatesFrom_mirror false

theorem sameList_mirror (a b : List α) (k : Nat) :
    Scalar.sameList (mirrorReward k a) (mirrorReward k b) = Scalar.sameList a b := by
  induction a generalizing b k with
  | nil => cases b <;> cases k <;> simp [Scalar.sameList]
  | cons x xs ih =>
    cases b with
    | nil => cases k <;> simp [Scalar.sameList]
    | cons y ys =>
      cases k with
      | zero => simp [Scalar.sameList, Scalar.LawfulNegation.beq_neg]
      | succ k => simp [Scalar.sameList, ih]

/-- As points to be minimized, mirrored rewards are the rewards. -/
theorem toMinima_mirror (ds : List Direction) (reward : List α) (k : Nat) :
    toMinima (mirrorDirections k ds) (mirrorReward k reward) = toMinima ds reward := by
  unfold toMinima
  induction ds generalizing reward k with
  | nil => simp
  | cons d ds ih =>
    cases reward with
    | nil => simp
    | cons x xs =>
      cases k with
      | zero =>
        have same : d.opposite.toMinimum (-x) = d.toMinimum x := d.toMinimum_turn true x
        simp [same]
      | succ k => simp [ih]

theorem worst_mirror (ds : List Direction) (k : Nat) :
    (mirrorDirections k ds).map (Direction.worst : Direction → α) =
      mirrorReward k (ds.map Direction.worst) := by
  induction ds generalizing k with
  | nil => simp
  | cons d ds ih =>
    cases k with
    | zero =>
      have opposed : (d.opposite.worst : α) = -d.worst := d.worst_turn true
      simp [opposed]
    | succ k => simp [ih]

theorem Agent.leading_mirror (k : Nat) (a : Agent α) :
    (a.mirror k).leading = Scalar.turn (k == 0) a.leading := by
  obtain ⟨chromosome, reward, status⟩ := a
  cases reward with
  | nil =>
    rw [mirror, mirrorReward_nil]
    exact (Scalar.turn_notANumber _).symm
  | cons x xs => cases k <;> rfl

namespace Archive

theorem admissible_mirror (k : Nat) (a : Agent α) : admissible (a.mirror k) = admissible a := by
  have finite (reward : List α) (k : Nat) :
      (mirrorReward k reward).all Scalar.isFinite = reward.all Scalar.isFinite := by
    induction reward generalizing k with
    | nil => simp
    | cons x xs ih =>
      cases k with
      | zero => simp [Scalar.LawfulNegation.isFinite_neg]
      | succ k => simp [ih]
  rw [admissible, admissible, Agent.mirror, finite]

theorem blocks_mirror (ds : List Direction) (a m : Agent α) (k : Nat) :
    blocks (mirrorDirections k ds) (a.mirror k) (m.mirror k) = blocks ds a m := by
  rw [blocks, blocks, Agent.mirror, Agent.mirror, sameList_mirror, dominates_mirror]

omit [Scalar.LawfulNegation α] in
theorem dropAt_mirror (members : List (Agent α)) (i k : Nat) :
    dropAt (members.map (Agent.mirror k)) i = (dropAt members i).map (Agent.mirror k) := by
  unfold dropAt
  rw [List.getLast?_map]
  cases members.getLast? with
  | none => rfl
  | some last => simp [List.map_set, List.map_dropLast]

theorem truncate_mirror (ds : List Direction) (limit fuel : Nat) (members : List (Agent α))
    (k : Nat) :
    truncate (mirrorDirections k ds) limit fuel (members.map (Agent.mirror k)) =
      (truncate ds limit fuel members).map (List.map (Agent.mirror k)) := by
  induction fuel generalizing members with
  | zero => rfl
  | succ fuel ih =>
    have points : (members.map (Agent.mirror k)).map
        (fun m => toMinima (mirrorDirections k ds) m.reward) =
          members.map fun m => toMinima ds m.reward := by
      rw [List.map_map]
      exact List.map_congr_left fun m _ => toMinima_mirror ds m.reward k
    rw [truncate, truncate, List.length_map, points]
    split
    · rfl
    · refine bind_same fun distances => ?_
      cases least distances with
      | none => rfl
      | some i => exact (congrArg _ (dropAt_mirror members i k)).trans (ih (dropAt members i))

theorem bounded_mirror (ds : List Direction) (capacity : Option Nat) (members : List (Agent α))
    (k : Nat) :
    bounded (mirrorDirections k ds) capacity (members.map (Agent.mirror k)) =
      (bounded ds capacity members).map (List.map (Agent.mirror k)) := by
  cases capacity with
  | none => rfl
  | some c =>
    rw [bounded, bounded, List.length_map]
    exact truncate_mirror ds _ _ members k

theorem insert_mirror (s : Archive α) (a : Agent α) (k : Nat) :
    (s.mirror k).insert (a.mirror k) =
      (s.insert a).map fun inserted => (inserted.1.mirror k, inserted.2) := by
  have blocked : (s.mirror k).members.any (blocks (s.mirror k).directions (a.mirror k)) =
      s.members.any (blocks s.directions a) := by
    rw [mirror, List.any_map]
    exact congrArg s.members.any (funext fun m => blocks_mirror s.directions a m k)
  have kept : ((s.mirror k).members.filter fun m =>
      !dominates (s.mirror k).directions (a.mirror k).reward m.reward) ++ [a.mirror k] =
        ((s.members.filter fun m => !dominates s.directions a.reward m.reward) ++ [a]).map
          (Agent.mirror k) := by
    rw [List.map_append, mirror, List.filter_map]
    refine congrArg (· ++ _) (congrArg (List.map _) ?_)
    refine congrArg (List.filter · s.members) (funext fun m => ?_)
    exact congrArg _ (dominates_mirror s.directions a.reward m.reward k)
  unfold insert
  dsimp only
  rw [blocked, admissible_mirror, kept]
  split
  · rfl
  · have bound := bounded_mirror s.directions s.capacity
      ((s.members.filter fun m => !dominates s.directions a.reward m.reward) ++ [a]) k
    exact bind_image bound fun _ => rfl

theorem insertAll_mirror (s : Archive α) (agents : List (Agent α)) (k : Nat) :
    (s.mirror k).insertAll (agents.map (Agent.mirror k)) =
      (s.insertAll agents).map (Archive.mirror k) := by
  induction agents generalizing s with
  | nil => rfl
  | cons a rest ih =>
    rw [List.map_cons, insertAll, insertAll]
    exact bind_image (insert_mirror s a k) fun inserted => ih inserted.1

end Archive

namespace Record

omit [Scalar.LawfulNegation α] in
theorem empty_mirror (ds : List Direction) (capacity : Option Nat) (k : Nat) :
    (empty (mirrorDirections k ds) capacity : Record α) = (empty ds capacity).mirror k := by
  match ds with
  | [] => simp [empty, mirror, Archive.empty, Archive.mirror]
  | [d] =>
    rw [mirrorDirections_single]
    rfl
  | d :: e :: rest => rcases k with _ | _ | k <;> rfl

theorem better_mirror (d : Direction) (best : Option (Agent α)) (a : Agent α) (k : Nat) :
    better (d.turn (k == 0)) (best.map (Agent.mirror k)) (a.mirror k) =
      (better d best a).mirror k := by
  cases best with
  | none => rfl
  | some b =>
    simp only [better, Option.map_some, Agent.leading_mirror, Direction.isBetter_turn]
    split <;> rfl

theorem observe_mirror (r : Record α) (a : Agent α) (k : Nat) :
    (r.mirror k).observe (a.mirror k) = (r.observe a).map (Record.mirror k) := by
  cases r with
  | single d best =>
    have blank : (a.mirror k).reward.isEmpty = a.reward.isEmpty := by
      cases k <;> cases reward : a.reward <;> simp [Agent.mirror, reward]
    simp only [observe, mirror, blank, better_mirror]
    split <;> rfl
  | archive s =>
    exact bind_image (s.insert_mirror a k) fun _ => rfl

theorem observeAll_mirror (r : Record α) (agents : List (Agent α)) (k : Nat) :
    (r.mirror k).observeAll (agents.map (Agent.mirror k)) =
      (r.observeAll agents).map (Record.mirror k) := by
  rw [observeAll, List.foldlM_map]
  exact foldlM_image (fun r a => observe_mirror r a k) agents r

theorem merge_mirror (r other : Record α) (k : Nat) :
    (r.mirror k).merge (other.mirror k) = (r.merge other).map (Record.mirror k) := by
  cases r with
  | single d best =>
    cases other with
    | single e second =>
      cases second with
      | none => rfl
      | some a =>
        simp only [merge, mirror, Option.map_some, better_mirror]
        rfl
    | archive s => rfl
  | archive s =>
    cases other with
    | single d best => cases best <;> rfl
    | archive t =>
      exact bind_image (s.insertAll_mirror t.members k) fun _ => rfl

end Record

namespace Scoring

omit [Scalar.LawfulNegation α] in
theorem make_mirror (coefficient : α) (ds : List Direction) (constraints k : Nat) :
    make coefficient (mirrorDirections k ds) constraints =
      (make coefficient ds constraints).map (Scoring.mirror k) := by
  refine bind_same fun _ => ?_
  split <;> rfl

/-- Under the opposite direction a violation worsens the negated value by as much. -/
theorem fitness_turn (s : Scoring α) (objective penalty : α) (d : Direction) (turned : Bool) :
    s.fitness (Scalar.turn turned objective) penalty (d.turn turned) =
      Scalar.turn turned (s.fitness objective penalty d) := by
  cases turned with
  | false => rfl
  | true =>
    have value : -objective - d.opposite.sign * s.coefficient * penalty * penalty =
        -(objective - d.sign * s.coefficient * penalty * penalty) := by
      rw [Direction.sign_opposite]
      simp only [Scalar.LawfulNegation.neg_mul, Scalar.LawfulNegation.neg_sub_neg]
    have opposed : (d.opposite.worst : α) = -d.worst := d.worst_turn true
    have unfolded : s.fitness (Scalar.turn true objective) penalty (d.turn true) =
        if Scalar.isNaN (-objective - d.opposite.sign * s.coefficient * penalty * penalty) then
          d.opposite.worst
        else -objective - d.opposite.sign * s.coefficient * penalty * penalty := rfl
    rw [unfolded, value, Scalar.isNaN_neg, opposed]
    unfold fitness
    dsimp only
    split <;> rfl

end Scoring
end Metaheuristic
