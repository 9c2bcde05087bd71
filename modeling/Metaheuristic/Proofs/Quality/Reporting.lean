import Metaheuristic.Proofs.Number.Total
import Metaheuristic.Proofs.Quality.Bounded
import Metaheuristic.Proofs.Sorting

/-! What an insert tells its caller. The answer is settled before a full archive makes room, and
the member that has to go may be the newcomer itself. Then the answer is that it entered although
nothing has changed. -/
namespace Metaheuristic.Archive

variable {α : Type} [Scalar α] {ds : List Direction} {s : Archive α} {a : Agent α}

section Least

variable [Scalar.LawfulTotal α]

/-- The last value is the first least one if it comes before the least so far and before all
that are passed on the way. -/
private theorem leastFrom_concat (xs : List α) (x : α) {i best : Nat} {least : α}
    (before : best < i) : leastFrom (xs ++ [x]) i best least = i + xs.length ↔
      Scalar.totalOrder x least = .lt ∧ ∀ y ∈ xs, Scalar.totalOrder x y = .lt := by
  induction xs generalizing i best least with
  | nil =>
    simp only [List.nil_append, leastFrom, beq_iff_eq]
    split
    · rename_i lower
      simpa using lower
    · rename_i notLower
      have passed : best ≠ i := Nat.ne_of_lt before
      simpa [passed] using notLower
  | cons y ys ih =>
    have place : i + (y :: ys).length = i + 1 + ys.length := by rw [List.length_cons]; omega
    rw [List.cons_append, leastFrom, place, List.forall_mem_cons]
    split
    · rename_i lower
      rw [ih (Nat.lt_succ_self i)]
      refine (and_iff_right_of_imp fun below => ?_).symm
      exact Std.TransCmp.lt_trans below.1 (by simpa using lower)
    · rename_i notLower
      rw [ih (Nat.lt_succ_of_lt before)]
      refine and_congr_right fun low => (and_iff_right ?_).symm
      have above : (Scalar.totalOrder least y).isLE := by
        have swapped : Scalar.totalOrder least y = (Scalar.totalOrder y least).swap :=
          Std.OrientedCmp.eq_swap
        rw [swapped]
        cases between : Scalar.totalOrder y least with
        | lt => simp [between] at notLower
        | eq | gt => rfl
      exact Std.TransCmp.lt_of_lt_of_isLE low above

/-- The last of some values is the first least one exactly when it comes before all others. -/
theorem least_concat_iff (xs : List α) (x : α) :
    least (xs ++ [x]) = some xs.length ↔ ∀ y ∈ xs, Scalar.totalOrder x y = .lt := by
  cases xs with
  | nil => simp [least, leastFrom]
  | cons y ys =>
    rw [List.cons_append, least, Option.some_inj, List.length_cons, Nat.add_comm ys.length,
      leastFrom_concat ys x Nat.one_pos, List.forall_mem_cons]

end Least

/-- The members that stay when an agent enters, and the agent. -/
def joined (s : Archive α) (a : Agent α) : List (Agent α) :=
  (s.members.filter fun m => !dominates s.directions a.reward m.reward) ++ [a]

/-- A full archive has no room for a newcomer that evicts no member and is more crowded than
every one of them. -/
structure NoRoom (s : Archive α) (a : Agent α) : Prop where
  full : ∃ c, s.capacity = some c ∧ s.members.length = Nat.max c 1
  evicts : ∀ m ∈ s.members, dominates s.directions a.reward m.reward = false
  crowded : ∃ distances own,
    Crowding.distances ((s.members ++ [a]).map fun m => toMinima s.directions m.reward) =
      .ok (distances ++ [own]) ∧ ∀ x ∈ distances, Scalar.totalOrder own x = .lt

theorem joined_eq (evicts : ∀ m ∈ s.members, dominates s.directions a.reward m.reward = false) :
    joined s a = s.members ++ [a] := by
  have stay : (s.members.filter fun m => !dominates s.directions a.reward m.reward) = s.members :=
    List.filter_eq_self.mpr fun m member => by rw [evicts m member]; rfl
  rw [joined, stay]

/-- Only an archive that was full overflows, and only when no member leaves. -/
theorem evicts_of_overflow {limit : Nat} (fits : s.members.length ≤ limit)
    (overflow : limit < (joined s a).length) : s.members.length = limit ∧
      ∀ m ∈ s.members, dominates s.directions a.reward m.reward = false := by
  rw [joined, List.length_append, List.length_singleton] at overflow
  have fewer := List.length_filter_le (fun m => !dominates s.directions a.reward m.reward) s.members
  refine ⟨by omega, fun m member => ?_⟩
  have spared := List.length_filter_eq_length_iff.mp (Nat.le_antisymm fewer (by omega)) m member
  simpa using spared

theorem truncate_of_fits {limit : Nat} {members : List (Agent α)} (fuel : Nat)
    (fits : members.length ≤ limit) : truncate ds limit fuel members = .ok members := by
  cases fuel with
  | zero => rfl
  | succ fuel => rw [truncate, if_pos fits]

/-- One member over its bound, an archive drops the member with the first least distance. -/
theorem bounded_of_overflow {c : Nat} {members : List (Agent α)} (sized : Sized ds members)
    (overflow : members.length = Nat.max c 1 + 1) :
    ∃ distances i, Crowding.distances (members.map fun m => toMinima ds m.reward) =
        .ok distances ∧ distances.length = members.length ∧ least distances = some i ∧
      i < members.length ∧ bounded ds (some c) members = .ok (dropAt members i) := by
  have full : Nat.max c 1 < members.length := by omega
  obtain ⟨distances, i, measured, length, found, inside, step⟩ :=
    truncate_step (Nat.max c 1) sized full
  have fewer := (dropAt_perm inside).length_eq
  rw [List.length_cons, overflow, Nat.add_right_cancel_iff] at fewer
  refine ⟨distances, i, measured, length, found, inside, ?_⟩
  rw [bounded, overflow]
  exact step.trans (truncate_of_fits _ (Nat.le_of_eq fewer))

/-- The newcomer to a full archive is dropped again exactly when there is no room for it. -/
private theorem noRoom_iff [Scalar.LawfulTotal α] {c : Nat} (bound : s.capacity = some c)
    (full : s.members.length = Nat.max c 1)
    (evicts : ∀ m ∈ s.members, dominates s.directions a.reward m.reward = false)
    {distances : List α} {i : Nat}
    (measured : Crowding.distances
      ((s.members ++ [a]).map fun m => toMinima s.directions m.reward) = .ok distances)
    (length : distances.length = (s.members ++ [a]).length) (found : least distances = some i) :
    NoRoom s a ↔ i = s.members.length := by
  obtain ⟨others, own, rfl⟩ : ∃ others own, distances = others ++ [own] := by
    rcases List.eq_nil_or_concat distances with rfl | ⟨others, own, rfl⟩
    · simp at length
    · exact ⟨others, own, List.concat_eq_append⟩
  have place : others.length = s.members.length := by simpa using length
  have last : (∀ x ∈ others, Scalar.totalOrder own x = .lt) ↔ i = s.members.length := by
    rw [← least_concat_iff, found, Option.some_inj, place]
  refine ⟨fun none => last.mp ?_, fun here => ⟨⟨c, bound, full⟩, evicts, others, own, measured,
    last.mpr here⟩⟩
  obtain ⟨others', own', same, crowded⟩ := none.crowded
  rw [measured, Except.ok.injEq, List.append_singleton_inj] at same
  obtain ⟨rfl, rfl⟩ := same
  exact crowded

/-- A newcomer to a bounded archive stays unless there is no room for it, and then everything is
as before. -/
private theorem bounded_joined [Scalar.LawfulTotal α] {c : Nat} (bound : s.capacity = some c)
    (fits : s.members.length ≤ Nat.max c 1) (sized : Sized s.directions (joined s a)) :
    ∃ members, bounded s.directions (some c) (joined s a) = .ok members ∧
      (NoRoom s a → members = s.members) ∧ (¬NoRoom s a → a ∈ members) := by
  by_cases overflow : Nat.max c 1 < (joined s a).length
  · obtain ⟨full, evicts⟩ := evicts_of_overflow fits overflow
    rw [joined_eq evicts] at sized ⊢
    have beyond : (s.members ++ [a]).length = Nat.max c 1 + 1 := by simp [full]
    obtain ⟨distances, i, measured, length, found, inside, ran⟩ := bounded_of_overflow sized beyond
    have dropped := noRoom_iff bound full evicts measured length found
    refine ⟨_, ran, fun none => ?_, fun some => ?_⟩
    · rw [dropped.mp none]
      simp [dropAt]
    · have other : s.members.length ≠ i := fun here => some (dropped.mpr here.symm)
      have stays := mem_dropAt_of_ne inside (by simp) other
      simpa using stays
  · have room : (joined s a).length ≤ Nat.max c 1 := Nat.le_of_not_lt overflow
    refine ⟨_, truncate_of_fits _ room, fun none => ?_, fun _ => by simp [joined]⟩
    obtain ⟨_, same, full⟩ := none.full
    rw [bound, Option.some_inj] at same
    subst same
    rw [joined_eq none.evicts, List.length_append, List.length_singleton] at room
    omega

/-- No agent with finite rewards gets past itself. -/
theorem not_mem_of_free [Scalar.LawfulOrder α] (length : a.reward.length = ds.length)
    (allowed : admissible a = true) {members : List (Agent α)}
    (free : ∀ m ∈ members, blocks ds a m = false) : a ∉ members := by
  intro member
  have proper := proper_of_admissible length allowed
  have blocked := (blocks_iff proper proper).mpr (NoWorse.refl ds a.reward)
  rw [free a member] at blocked
  contradiction

variable [Scalar.LawfulOrder α] [Scalar.LawfulTotal α]

/-- What an insert says and does, with the agents offered before. -/
theorem Kept.insert_answers {capacity : Option Nat} {u : List (Agent α)}
    (kept : Kept ds capacity u s) (sized : Sized ds (u ++ [a])) :
    ∃ s' entered, s.insert a = .ok (s', entered) ∧
      (entered = true ↔ admissible a = true ∧ ∀ m ∈ s.members, blocks ds a m = false) ∧
      (entered = false → s' = s) ∧
      (entered = true → a ∉ s.members ∧ (NoRoom s a → s' = s) ∧
        (¬NoRoom s a → a ∈ s'.members)) := by
  rcases insert_cases s a with ⟨out, same⟩ | ⟨allowed, free, entered⟩
  · refine ⟨s, false, same, ⟨nofun, fun ⟨allowed, free⟩ => ?_⟩, fun _ => rfl, nofun⟩
    rcases out with refused | ⟨m, member, blocked⟩
    · rw [allowed] at refused
      contradiction
    · rw [kept.towards, free m member] at blocked
      contradiction
  · have outside : a ∉ s.members := by
      refine not_mem_of_free (sized a (by simp)) allowed fun m member => ?_
      rw [← kept.towards]
      exact free m member
    have held : Sized s.directions (joined s a) := by
      rw [kept.towards, joined, kept.towards]
      exact fun m member => sized m (kept.entering allowed member).1
    have ⟨members, ran, unchanged, stays⟩ : ∃ members,
        bounded s.directions s.capacity (joined s a) = .ok members ∧
          (NoRoom s a → members = s.members) ∧ (¬NoRoom s a → a ∈ members) := by
      cases bound : s.capacity with
      | none =>
        refine ⟨_, rfl, fun none => ?_, fun _ => by simp [joined]⟩
        obtain ⟨c, some, _⟩ := none.full
        rw [bound] at some
        contradiction
      | some c => exact bounded_joined bound (kept.fits c (kept.bound ▸ bound)) held
    rw [joined] at ran
    rw [ran] at entered
    refine ⟨_, true, entered, ⟨fun _ => ⟨allowed, kept.towards ▸ free⟩, fun _ => rfl⟩, nofun,
      fun _ => ⟨outside, fun none => ?_, stays⟩⟩
    rw [unchanged none]

/-- What an insert reports. It answers that the agent entered exactly when the agent may enter
and no member keeps it out, and an agent that did not enter changes nothing. One that entered was
not a member before; it is one now unless there is no room for it, and then nothing has changed
either. -/
theorem insert_reports_entering (ds : List Direction) (capacity : Option Nat)
    (offers : List (Offer α)) (a : Agent α) (sized : Sized ds (Offer.offered offers ++ [a])) :
    ∃ s s' entered, Offer.replay (empty ds capacity) offers = .ok s ∧
      s.insert a = .ok (s', entered) ∧
      (entered = true ↔ admissible a = true ∧ ∀ m ∈ s.members, blocks ds a m = false) ∧
      (entered = false → s' = s) ∧
      (entered = true → a ∉ s.members ∧ (NoRoom s a → s' = s) ∧
        (¬NoRoom s a → a ∈ s'.members)) := by
  have before : Sized ds (Offer.offered offers) :=
    fun m member => sized m (List.mem_append_left _ member)
  obtain ⟨s, ran, kept⟩ := (Kept.empty ds capacity).insertAll (v := Offer.offered offers) before
  obtain ⟨s', entered, inserted, answers⟩ := kept.insert_answers sized
  exact ⟨s, s', entered, (replay_eq_insertAll _ offers).trans ran, inserted, answers⟩

/-- Two agents that are best in one reward each. -/
def opposite : List (Offer Float) :=
  [.insert ⟨[0.0], [0.0, 10.0], .unconstrained⟩, .insert ⟨[1.0], [10.0, 0.0], .unconstrained⟩]

/-- An agent between the two. -/
def between : Agent Float := ⟨[2.0], [5.0, 5.0], .unconstrained⟩

private theorem between_sized :
    Sized [.minimize, .minimize] (Offer.offered opposite ++ [between]) := by
  simp [Sized, Offer.offered, Offer.agents, opposite, between]

theorem insert_reports_entering_between :
    Sized [.minimize, .minimize] (Offer.offered opposite ++ [between]) ∧
      ∃ s s' entered, Offer.replay (empty [.minimize, .minimize] (some 2)) opposite = .ok s ∧
        s.insert between = .ok (s', entered) ∧ (entered = false → s' = s) := by
  obtain ⟨s, s', entered, ran, inserted, _, unchanged, _⟩ :=
    insert_reports_entering [.minimize, .minimize] (some 2) opposite between between_sized
  exact ⟨between_sized, s, s', entered, ran, inserted, unchanged⟩

/-- The two are the ends of both rewards, so the agent between them is the most crowded. -/
private theorem distances_between :
    Crowding.distances [[0.0, 10.0], [10.0, 0.0], [5.0, 5.0]] =
      .ok [Scalar.infinity, Scalar.infinity, 2.0] := by
  let points : Array (List Float) := #[[0.0, 10.0], [10.0, 0.0], [5.0, 5.0]]
  let order (k a b : Nat) := Scalar.totalOrder (Crowding.coordinate points k a)
    (Crowding.coordinate points k b)
  have _ (k : Nat) : Std.TransCmp (order k) := Sorting.transCmp_on _ (Crowding.coordinate points k)
  have sorted : ([0, 1, 2].mergeSort fun a b => order 0 a b != .gt) = [0, 2, 1] :=
    Sorting.mergeSort_eq (order 0) (by decide) (by decide +kernel)
  have sortedBack : ([0, 2, 1].mergeSort fun a b => order 1 a b != .gt) = [1, 2, 0] :=
    Sorting.mergeSort_eq (order 1) (by decide) (by decide +kernel)
  have first : Crowding.addCoordinate points ([0, 1, 2], #[0.0, 0.0, 0.0]) 0 =
      ([0, 2, 1], #[Scalar.infinity, Scalar.infinity, 1.0]) := by
    rw [Crowding.addCoordinate, sorted]
    decide +kernel
  have second : Crowding.addCoordinate points
      ([0, 2, 1], #[Scalar.infinity, Scalar.infinity, 1.0]) 1 =
        ([1, 2, 0], #[Scalar.infinity, Scalar.infinity, 2.0]) := by
    rw [Crowding.addCoordinate, sortedBack]
    decide +kernel
  have both : (List.range 2).foldl (Crowding.addCoordinate points) ([0, 1, 2], #[0.0, 0.0, 0.0]) =
      ([1, 2, 0], #[Scalar.infinity, Scalar.infinity, 2.0]) := by
    rw [List.range_succ, List.range_succ, List.range_zero, List.nil_append, List.singleton_append,
      List.foldl_cons, first, List.foldl_cons, second, List.foldl_nil]
  rw [Crowding.distances, if_neg (by decide)]
  dsimp only
  rw [if_neg (by decide +kernel)]
  exact congrArg (fun state => Except.ok state.2.toList) both

private theorem between_noRoom :
    NoRoom ⟨[.minimize, .minimize], some 2, Offer.offered opposite⟩ between := by
  refine ⟨⟨2, rfl, rfl⟩, by decide +kernel, [Scalar.infinity, Scalar.infinity], 2.0, ?_,
    by decide +kernel⟩
  have points : ((Offer.offered opposite ++ [between]).map fun m =>
      toMinima [.minimize, .minimize] m.reward) = [[0.0, 10.0], [10.0, 0.0], [5.0, 5.0]] := by
    decide +kernel
  rw [points]
  exact distances_between

/-- The agent between the two is said to enter an archive with two places, and is not one of its
members. -/
theorem insert_reports_dropped_newcomer :
    ∃ s, Offer.replay (empty [.minimize, .minimize] (some 2)) opposite = .ok s ∧
      s.insert between = .ok (s, true) ∧ between ∉ s.members := by
  obtain ⟨s, ran, kept⟩ := (Kept.empty _ (some 2)).insertAll (v := Offer.offered opposite)
    fun m member => between_sized m (List.mem_append_left _ member)
  have filled : s = ⟨[.minimize, .minimize], some 2, Offer.offered opposite⟩ := by
    cases ran
    rfl
  obtain ⟨s', entered, inserted, enters, _, answers⟩ := kept.insert_answers between_sized
  subst filled
  have said : entered = true := enters.mpr (by decide +kernel)
  subst said
  obtain ⟨outside, unchanged, _⟩ := answers rfl
  rw [unchanged between_noRoom] at inserted
  exact ⟨_, (replay_eq_insertAll _ opposite).trans ran, inserted, outside⟩

end Metaheuristic.Archive
