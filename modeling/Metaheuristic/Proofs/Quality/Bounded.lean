import Mathlib.Data.List.Perm.Subperm
import Metaheuristic.Proofs.Computation
import Metaheuristic.Proofs.Number.Double
import Metaheuristic.Proofs.Quality.Crowding
import Metaheuristic.Proofs.Quality.Survivors
import Metaheuristic.Quality.Archive

/-! What an archive of any capacity keeps to. An insert has one of two outcomes:
the agent stays out and nothing changes, or it enters, the members that it
dominates leave, and a full archive drops members until it fits. Dropping takes
members away one at a time and never the last one, so whatever holds of every two
members still holds afterwards. -/
namespace Metaheuristic

variable {α : Type} [Scalar α]

namespace Archive

section Dropping

omit [Scalar α] in
/-- Dropping takes one member away and keeps all the others. -/
theorem dropAt_perm {members : List (Agent α)} {i : Nat} (inside : i < members.length) :
    (members[i] :: dropAt members i).Perm members := by
  obtain ⟨front, last, rfl⟩ : ∃ front last, members = front ++ [last] := by
    rcases List.eq_nil_or_concat members with rfl | ⟨front, last, rfl⟩
    · cases inside
    · exact ⟨front, last, List.concat_eq_append⟩
  have unfolded : dropAt (front ++ [last]) i = ((front ++ [last]).set i last).dropLast := by
    simp [dropAt]
  rw [unfolded]
  by_cases early : i < front.length
  · rw [List.set_append_left i last early, List.dropLast_concat, List.getElem_append_left early]
    have moved := (List.set_perm_cons_eraseIdx early last).cons front[i]
    have back := (List.getElem_cons_eraseIdx_perm early).cons last
    exact (moved.trans (.swap ..)).trans (back.trans (List.perm_append_singleton last front).symm)
  · have final : i = front.length := by
      simp only [List.length_append, List.length_singleton] at inside
      omega
    subst final
    simpa using (List.perm_append_singleton last front).symm

omit [Scalar α] in
/-- A member at another position is not dropped. -/
theorem mem_dropAt_of_ne {members : List (Agent α)} {i j : Nat} (inside : i < members.length)
    (other : j < members.length) (apart : j ≠ i) : members[j] ∈ dropAt members i := by
  have both := (dropAt_perm inside).trans (List.getElem_cons_eraseIdx_perm inside).symm
  refine both.cons_inv.mem_iff.mpr (List.mem_eraseIdx_iff_getElem.mpr ?_)
  exact ⟨j, other, apart, rfl⟩

private theorem leastFrom_le (xs : List α) (i best : Nat) (x : α) (before : best < i) :
    leastFrom xs i best x < i + xs.length := by
  induction xs generalizing i best x with
  | nil => simpa [leastFrom] using before
  | cons y ys ih =>
    rw [leastFrom, List.length_cons]
    split
    · have later := ih (i + 1) i y (Nat.lt_succ_self i)
      omega
    · have later := ih (i + 1) best x (Nat.lt_succ_of_lt before)
      omega

/-- The least of some values is one of them. -/
theorem exists_least {xs : List α} (some : xs ≠ []) : ∃ i, least xs = .some i ∧ i < xs.length := by
  cases xs with
  | nil => contradiction
  | cons x xs =>
    have below := leastFrom_le xs 1 0 x Nat.one_pos
    exact ⟨_, rfl, by rw [List.length_cons]; omega⟩

/-- One round of dropping: an archive over its limit finds a member to drop. -/
theorem truncate_step {ds : List Direction} {limit : Nat} {members : List (Agent α)} (fuel : Nat)
    (sized : Sized ds members) (full : limit < members.length) :
    ∃ distance i, Crowding.distances (members.map fun m => toMinima ds m.reward) = .ok distance ∧
      distance.length = members.length ∧ least distance = some i ∧ i < members.length ∧
      truncate ds limit (fuel + 1) members = truncate ds limit fuel (dropAt members i) := by
  have level : ∀ p ∈ members.map fun m => toMinima ds m.reward, p.length = ds.length := by
    intro p member
    obtain ⟨m, inside, rfl⟩ := List.mem_map.mp member
    simp [toMinima, sized m inside]
  obtain ⟨distance, measured, length⟩ := Crowding.distances_ok level
  rw [List.length_map] at length
  have nonempty : distance ≠ [] := by
    rintro rfl
    simp only [List.length_nil] at length
    omega
  obtain ⟨i, found, below⟩ := exists_least nonempty
  refine ⟨distance, i, measured, length, found, by omega, ?_⟩
  rw [truncate, if_neg (by omega), measured]
  simp only [bind, Except.bind, found]

/-- Dropping ends with as many members as fit, all of them members before. -/
theorem truncate_spec {ds : List Direction} {limit fuel : Nat} {members : List (Agent α)}
    (sized : Sized ds members) (enough : members.length ≤ limit + fuel) :
    ∃ kept, truncate ds limit fuel members = .ok kept ∧ kept.Subperm members ∧
      kept.length = min members.length limit := by
  induction fuel generalizing members with
  | zero => exact ⟨members, rfl, .refl _, (Nat.min_eq_left enough).symm⟩
  | succ fuel ih =>
    by_cases fits : members.length ≤ limit
    · exact ⟨members, by rw [truncate, if_pos fits], .refl _, (Nat.min_eq_left fits).symm⟩
    · have full : limit < members.length := Nat.lt_of_not_le fits
      obtain ⟨_, i, _, _, _, inside, step⟩ := truncate_step fuel sized full
      have parted := dropAt_perm inside
      have fewer : (dropAt members i).length + 1 = members.length := parted.length_eq
      have smaller : (dropAt members i).Subperm members :=
        (List.sublist_cons_self _ _).subperm.trans parted.subperm
      have sizedRest : Sized ds (dropAt members i) :=
        fun m member => sized m (smaller.subset member)
      obtain ⟨kept, ran, part, length⟩ := ih sizedRest (by omega)
      refine ⟨kept, step.trans ran, part.trans smaller, ?_⟩
      omega

/-- A bounded archive keeps a part of the members, and at least one. -/
theorem bounded_spec {ds : List Direction} (capacity : Option Nat) {members : List (Agent α)}
    (sized : Sized ds members) :
    ∃ kept, bounded ds capacity members = .ok kept ∧ kept.Subperm members ∧
      (∀ c, capacity = some c → kept.length ≤ Nat.max c 1) ∧ (members ≠ [] → kept ≠ []) := by
  cases capacity with
  | none => exact ⟨members, rfl, .refl _, nofun, id⟩
  | some c =>
    obtain ⟨kept, ran, part, length⟩ := truncate_spec sized
      (Nat.le_add_left members.length (Nat.max c 1))
    refine ⟨kept, ran, part, ?_, ?_⟩
    · rintro _ ⟨⟩
      rw [length]
      exact Nat.min_le_right ..
    · intro nonempty
      have one := List.length_pos_iff.mpr nonempty
      have limit : 1 ≤ Nat.max c 1 := Nat.le_max_right c 1
      have both : 1 ≤ kept.length := length ▸ Nat.le_min.mpr ⟨one, limit⟩
      exact List.length_pos_iff.mp both

end Dropping

/-- The two outcomes of an insert. -/
theorem insert_cases (s : Archive α) (a : Agent α) :
    ((admissible a = false ∨ ∃ m ∈ s.members, blocks s.directions a m = true) ∧
      s.insert a = .ok (s, false)) ∨
    (admissible a = true ∧ (∀ m ∈ s.members, blocks s.directions a m = false) ∧
      s.insert a = (bounded s.directions s.capacity
        ((s.members.filter fun m => !dominates s.directions a.reward m.reward) ++ [a])).map
          fun kept => ({ s with members := kept }, true)) := by
  by_cases out : (!admissible a || s.members.any (blocks s.directions a)) = true
  · refine .inl ⟨?_, by rw [insert, if_pos out]⟩
    simpa using out
  · refine .inr ⟨?_, ?_, by rw [insert, if_neg out]; rfl⟩
    · cases allowed : admissible a with
      | true => rfl
      | false => simp [allowed] at out
    · intro m member
      rw [Bool.eq_false_iff]
      intro blocked
      refine out (Bool.or_eq_true_iff.mpr (.inr ?_))
      exact List.any_eq_true.mpr ⟨m, member, blocked⟩

/-- One call on an archive: an agent is offered, or all members of another
archive, whatever its directions and its capacity. -/
inductive Offer (α : Type) where
  | insert (a : Agent α)
  | merge (other : Archive α)

namespace Offer

/-- The agents of a call. -/
def agents : Offer α → List (Agent α)
  | insert a => [a]
  | merge other => other.members

/-- The archive after a call. -/
def apply (s : Archive α) : Offer α → Except Fault (Archive α)
  | insert a => do return (← s.insert a).1
  | merge other => s.merge other

/-- All agents of a sequence of calls. -/
def offered (offers : List (Offer α)) : List (Agent α) := offers.flatMap agents

/-- The archive after a sequence of calls. -/
def replay (s : Archive α) (offers : List (Offer α)) : Except Fault (Archive α) :=
  offers.foldlM apply s

end Offer

theorem insertAll_append (s : Archive α) (u v : List (Agent α)) :
    s.insertAll (u ++ v) = s.insertAll u >>= fun t => t.insertAll v := by
  induction u generalizing s with
  | nil => rfl
  | cons a u ih =>
    simp only [List.cons_append, insertAll, ih]
    cases s.insert a <;> rfl

/-- Calls do no more than offer their agents one after the other. -/
theorem replay_eq_insertAll (s : Archive α) (offers : List (Offer α)) :
    Offer.replay s offers = s.insertAll (Offer.offered offers) := by
  induction offers generalizing s with
  | nil => rfl
  | cons offer offers ih =>
    have single : Offer.apply s offer = s.insertAll offer.agents := by
      cases offer with
      | insert a =>
        rw [Offer.apply, Offer.agents, insertAll]
        cases s.insert a <;> rfl
      | merge other => rfl
    have split : Offer.offered (offer :: offers) = offer.agents ++ Offer.offered offers := rfl
    rw [Offer.replay, List.foldlM_cons, split, insertAll_append, single]
    exact bind_congr ih

/-- Neither of two agents keeps the other out. -/
def Apart (ds : List Direction) (a b : Agent α) : Prop :=
  blocks ds a b = false ∧ blocks ds b a = false

/-- What holds of an archive at every moment, given all the agents offered so far. -/
structure Kept (ds : List Direction) (capacity : Option Nat) (u : List (Agent α))
    (s : Archive α) : Prop where
  towards : s.directions = ds
  bound : s.capacity = capacity
  allowed : ∀ m ∈ s.members, admissible m = true
  apart : s.members.Pairwise (Apart ds)
  fits : ∀ c, capacity = some c → s.members.length ≤ Nat.max c 1
  among : ∀ m ∈ s.members, m ∈ u
  nonempty : (∃ a ∈ u, admissible a = true) → s.members ≠ []

namespace Kept

variable {ds : List Direction} {capacity : Option Nat} {u v : List (Agent α)} {s : Archive α}
  {a : Agent α}

theorem empty (ds : List Direction) (capacity : Option Nat) :
    Kept ds capacity [] (Archive.empty ds capacity : Archive α) where
  towards := rfl
  bound := rfl
  allowed := nofun
  apart := .nil
  fits _ _ := Nat.zero_le _
  among := nofun
  nonempty := by rintro ⟨_, ⟨⟩, _⟩

/-- An agent that stays out changes nothing: it is not admissible, or a member
speaks for it. -/
theorem stays_out (kept : Kept ds capacity u s)
    (out : Archive.admissible a = false ∨ ∃ m ∈ s.members, blocks s.directions a m = true) :
    Kept ds capacity (u ++ [a]) s where
  towards := kept.towards
  bound := kept.bound
  allowed := kept.allowed
  apart := kept.apart
  fits := kept.fits
  among m member := List.mem_append_left _ (kept.among m member)
  nonempty := by
    rintro ⟨b, inside, allowed⟩
    rcases List.mem_append.mp inside with earlier | last
    · exact kept.nonempty ⟨b, earlier, allowed⟩
    · cases List.mem_singleton.mp last
      rcases out with refused | ⟨m, member, _⟩
      · rw [refused] at allowed
        contradiction
      · exact List.ne_nil_of_mem member

/-- The members that stay and the newcomer, before the archive is made to fit. -/
theorem newcomer_apart [Scalar.LawfulOrder α] (kept : Kept ds capacity u s)
    (free : ∀ m ∈ s.members, blocks ds a m = false) :
    ((s.members.filter fun m => !dominates ds a.reward m.reward) ++ [a]).Pairwise (Apart ds) := by
  rw [List.pairwise_append]
  refine ⟨kept.apart.filter _, List.pairwise_singleton .., fun m member b last => ?_⟩
  cases List.mem_singleton.mp last
  obtain ⟨inside, spared⟩ := List.mem_filter.mp member
  have free := free m inside
  refine ⟨?_, free⟩
  simp only [blocks, Bool.or_eq_false_iff] at free ⊢
  refine ⟨?_, by simpa using spared⟩
  rw [Bool.eq_false_iff]
  intro same
  rw [Scalar.sameList_symm same] at free
  exact absurd free.1 (by decide)

/-- They were all offered, and they are all admissible. -/
theorem entering (kept : Kept ds capacity u s) (allowed : Archive.admissible a = true)
    {m : Agent α}
    (member : m ∈ (s.members.filter fun m => !dominates ds a.reward m.reward) ++ [a]) :
    m ∈ u ++ [a] ∧ Archive.admissible m = true := by
  rcases List.mem_append.mp member with held | last
  · have old := (List.mem_filter.mp held).1
    exact ⟨List.mem_append_left _ (kept.among m old), kept.allowed m old⟩
  · cases List.mem_singleton.mp last
    exact ⟨List.mem_append_right _ last, allowed⟩

theorem insert [Scalar.LawfulOrder α] (kept : Kept ds capacity u s) (sized : Sized ds (u ++ [a])) :
    ∃ s' entered, s.insert a = .ok (s', entered) ∧ Kept ds capacity (u ++ [a]) s' := by
  rcases insert_cases s a with ⟨out, same⟩ | ⟨allowed, free, entered⟩
  · exact ⟨s, false, same, kept.stays_out out⟩
  · rw [kept.towards, kept.bound] at entered
    rw [kept.towards] at free
    have inside := fun m => kept.entering allowed (m := m)
    obtain ⟨members, ran, part, fits, nonempty⟩ :=
      bounded_spec capacity fun m member => sized m (inside m member).1
    rw [ran] at entered
    refine ⟨_, true, entered, ?_⟩
    constructor
    case towards => rfl
    case bound => rfl
    case allowed => exact fun m member => (inside m (part.subset member)).2
    case apart =>
      -- what is left is a part of the members in some order, and apart has no order
      obtain ⟨ordered, same, sub⟩ := part
      have apart := (kept.newcomer_apart free).sublist sub
      exact (same.pairwise_iff fun both => both.symm).mp apart
    case fits => exact fits
    case among => exact fun m member => (inside m (part.subset member)).1
    case nonempty => exact fun _ => nonempty (by simp)

theorem insertAll [Scalar.LawfulOrder α] (kept : Kept ds capacity u s)
    (sized : Sized ds (u ++ v)) :
    ∃ s', s.insertAll v = .ok s' ∧ Kept ds capacity (u ++ v) s' := by
  induction v generalizing u s with
  | nil => exact ⟨s, rfl, by rwa [List.append_nil]⟩
  | cons a v ih =>
    rw [← List.singleton_append, ← List.append_assoc] at sized ⊢
    have first : Sized ds (u ++ [a]) := fun m member => sized m (List.mem_append_left _ member)
    obtain ⟨next, entered, inserted, after⟩ := kept.insert first
    obtain ⟨final, ran, done⟩ := ih after sized
    refine ⟨final, ?_, done⟩
    rw [List.singleton_append, Archive.insertAll, inserted]
    exact ran

/-- Merging two archives that were filled separately. The second one offers no more than
its members, and it has one if an admissible agent was offered to it. -/
theorem merge [Scalar.LawfulOrder α] {t : Archive α} (kept : Kept ds capacity u s)
    (other : Kept ds capacity v t) (sized : Sized ds (u ++ v)) :
    ∃ s', s.merge t = .ok s' ∧ Kept ds capacity (u ++ v) s' := by
  have offered : ∀ a ∈ u ++ t.members, a ∈ u ++ v := by
    intro a member
    rcases List.mem_append.mp member with own | new
    · exact List.mem_append_left _ own
    · exact List.mem_append_right _ (other.among a new)
  obtain ⟨s', ran, after⟩ := kept.insertAll fun a member => sized a (offered a member)
  refine ⟨s', ran, ?_⟩
  constructor
  case towards => exact after.towards
  case bound => exact after.bound
  case allowed => exact after.allowed
  case apart => exact after.apart
  case fits => exact after.fits
  case among => exact fun m member => offered m (after.among m member)
  case nonempty =>
    rintro ⟨a, inside, allowed⟩
    rcases List.mem_append.mp inside with own | new
    · exact after.nonempty ⟨a, List.mem_append_left _ own, allowed⟩
    · obtain ⟨m, member⟩ := List.exists_mem_of_ne_nil _ (other.nonempty ⟨a, new, allowed⟩)
      exact after.nonempty ⟨m, List.mem_append_right _ member, other.allowed m member⟩

end Kept

/-- The invariant of an archive of any capacity. After any calls on an archive that
starts empty, all members are feasible with finite rewards, no member dominates or
equals another, the capacity is kept, every member was offered, and one admissible
agent is enough for the archive never to be empty again. -/
theorem archive_invariant [Scalar.LawfulOrder α] (ds : List Direction) (capacity : Option Nat)
    (offers : List (Offer α)) (sized : Sized ds (Offer.offered offers)) :
    ∃ s, Offer.replay (empty ds capacity) offers = .ok s ∧
      (∀ m ∈ s.members, m.status.isFeasible = true ∧ ∀ x ∈ m.reward, Scalar.isFinite x = true) ∧
      (s.members.Pairwise fun a b => dominates ds a.reward b.reward = false ∧
        dominates ds b.reward a.reward = false ∧ Scalar.sameList a.reward b.reward = false) ∧
      (∀ c, capacity = some c → s.members.length ≤ Nat.max c 1) ∧
      (∀ m ∈ s.members, m ∈ Offer.offered offers) ∧
      ((∃ a ∈ Offer.offered offers, admissible a = true) → s.members ≠ []) := by
  obtain ⟨s, ran, kept⟩ := (Kept.empty ds capacity).insertAll (v := Offer.offered offers) sized
  refine ⟨s, (replay_eq_insertAll _ offers).trans ran, ?_, ?_, kept.fits, kept.among,
    kept.nonempty⟩
  · intro m member
    have allowed := kept.allowed m member
    simpa [admissible] using allowed
  · refine kept.apart.imp fun {a b} apart => ?_
    obtain ⟨left, right⟩ := apart
    simp only [blocks, Bool.or_eq_false_iff] at left right
    exact ⟨right.2, left.2, right.1⟩

/-- Of two incomparable agents the first is dropped again, since both are infinitely
far apart; then one agent with an infinite reward stays out and one that dominates
the only member takes its place. -/
def displacing : List (Offer Float) :=
  [.insert ⟨[0.0], [2.0, 3.0], .feasible⟩, .insert ⟨[1.0], [3.0, 4.0], .unconstrained⟩,
    .merge ⟨[], none, [⟨[2.0], [1.0 / 0.0, 5.0], .feasible⟩, ⟨[3.0], [3.0, 5.0], .feasible⟩]⟩]

theorem archive_invariant_displacing :
    Sized [.minimize, .maximize] (Offer.offered displacing) ∧
      Offer.replay (empty [.minimize, .maximize] (some 0)) displacing =
        .ok ⟨[.minimize, .maximize], some 0, [⟨[3.0], [3.0, 5.0], .feasible⟩]⟩ ∧
      ∃ s, Offer.replay (empty [.minimize, .maximize] (some 0)) displacing = .ok s ∧
        s.members.length ≤ 1 ∧ s.members ≠ [] := by
  have sized : Sized [.minimize, .maximize] (Offer.offered displacing) := by
    simp [Sized, Offer.offered, Offer.agents, displacing]
  have entered : ∃ a ∈ Offer.offered displacing, admissible a = true :=
    ⟨⟨[0.0], [2.0, 3.0], .feasible⟩, by simp [Offer.offered, Offer.agents, displacing], rfl⟩
  obtain ⟨s, ran, _, _, fits, _, nonempty⟩ :=
    archive_invariant [.minimize, .maximize] (some 0) displacing sized
  exact ⟨sized, rfl, s, ran, fits 0 rfl, nonempty entered⟩

end Archive
end Metaheuristic
