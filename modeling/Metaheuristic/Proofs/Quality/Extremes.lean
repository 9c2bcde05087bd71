import Metaheuristic.Proofs.Quality.Bounded
import Metaheuristic.Proofs.Quality.Crowding
import Metaheuristic.Proofs.Quality.Record

/-! A bounded archive keeps the best value of every objective, provided that it has
room for two members for each objective. Over exact numbers at most so many members
are infinitely far from the others, among them a best one in every objective. An
overfull archive thus has a member at a finite distance, and the one it drops is at
a finite distance as well. -/
namespace Metaheuristic.Archive

variable {K : Type} [Field K] [LinearOrder K] [FloorRing K] [Elementary K]

section Least

private theorem leastFrom_spec (xs ys : List (Exact K)) (best : Nat) (x : Exact K)
    (place : ys[best]? = some x) (least : ∀ y ∈ ys, Exact.atMost x y = true) :
    ∃ z, (ys ++ xs)[leastFrom xs ys.length best x]? = some z ∧
      ∀ y ∈ ys ++ xs, Exact.atMost z y = true := by
  induction xs generalizing ys best x with
  | nil => exact ⟨x, by simpa [leastFrom] using place, by simpa using least⟩
  | cons next xs ih =>
    have longer : ys ++ next :: xs = ys ++ [next] ++ xs := by simp
    have length : ys.length + 1 = (ys ++ [next]).length := by simp
    rw [leastFrom, longer, length]
    split
    · rename_i below
      rw [beq_iff_eq] at below
      refine ih (ys ++ [next]) ys.length next (by simp) fun y member => ?_
      rcases List.mem_append.mp member with earlier | last
      · exact Exact.atMost_trans (Exact.atMost_of_lt below) (least y earlier)
      · rw [List.mem_singleton.mp last]
        simpa using Exact.atMost_total next next
    · rename_i notBelow
      rw [beq_iff_eq] at notBelow
      have early : best < ys.length := (List.getElem?_eq_some_iff.mp place).1
      refine ih (ys ++ [next]) best x (by rwa [List.getElem?_append_left early]) fun y member => ?_
      rcases List.mem_append.mp member with earlier | last
      · exact least y earlier
      · rw [List.mem_singleton.mp last]
        exact Exact.atMost_of_not_lt notBelow

/-- No value comes before the least one. -/
theorem least_spec {xs : List (Exact K)} {i : Nat} (found : least xs = some i) :
    ∃ x, xs[i]? = some x ∧ ∀ y ∈ xs, Exact.atMost x y = true := by
  cases xs with
  | nil => cases found
  | cons x xs =>
    cases found
    exact leastFrom_spec xs [x] 0 x rfl fun y member => by
      rw [List.mem_singleton.mp member]
      simpa using Exact.atMost_total x x

end Least

section Best

variable {α : Type} [Scalar α] {d : Direction} {k : Nat} {a b c : Agent α} {u v : List (Agent α)}
  {s : Archive α}

/-- The first agent is not worse than the second in objective `k`. -/
def NotWorseAt (d : Direction) (k : Nat) (a b : Agent α) : Prop :=
  ∀ x y, a.reward[k]? = some x → b.reward[k]? = some y → d.isBetter y x = false

/-- No admissible agent of a sequence is better in objective `k`. -/
def Leads (d : Direction) (k : Nat) (u : List (Agent α)) (a : Agent α) : Prop :=
  ∀ b ∈ u, admissible b = true → NotWorseAt d k a b

variable [Scalar.LawfulOrder α] {ds : List Direction}

theorem NotWorseAt.trans (proper : Proper ds b.reward) (place : ds[k]? = some d)
    (first : NotWorseAt d k a b) (second : NotWorseAt d k b c) : NotWorseAt d k a c := by
  intro x z left right
  obtain ⟨inside, _⟩ := List.getElem?_eq_some_iff.mp place
  have middle := List.getElem?_eq_getElem (proper.length ▸ inside : k < b.reward.length)
  have defined := proper.defined _ (List.getElem_mem (proper.length ▸ inside))
  exact Direction.not_isBetter_trans defined (first x _ left middle) (second _ z middle right)

theorem NotWorseAt.refl (d : Direction) (k : Nat) (a : Agent α) : NotWorseAt d k a a := by
  intro x y left right
  cases left.symm.trans right
  exact Direction.isBetter_irrefl

omit [Scalar.LawfulOrder α] in
/-- A newcomer is one more agent that must not be better. -/
theorem Leads.snoc (leads : Leads d k u a) (last : admissible b = true → NotWorseAt d k a b) :
    Leads d k (u ++ [b]) a := by
  intro c inside ok
  rcases List.mem_append.mp inside with earlier | same
  · exact leads c earlier ok
  · cases List.mem_singleton.mp same
    exact last ok

/-- As soon as an admissible agent was offered, every objective has a member that is
best in it among all that was offered. -/
def Leading (ds : List Direction) (u : List (Agent α)) (s : Archive α) : Prop :=
  (∃ b ∈ u, admissible b = true) →
    ∀ k d, ds[k]? = some d → ∃ m ∈ s.members, Leads d k u m

namespace Leading

/-- Keeping an agent out loses nothing: the member that blocks it is nowhere worse. -/
theorem stays_out {capacity : Option Nat} (leading : Leading ds u s) (kept : Kept ds capacity u s)
    (sized : Sized ds (u ++ [a]))
    (out : admissible a = false ∨ ∃ m ∈ s.members, blocks s.directions a m = true) :
    Leading ds (u ++ [a]) s := by
  rintro ⟨b, inside, ok⟩ k d place
  rcases out with refused | ⟨w, member, blocked⟩
  · have before : b ∈ u := by
      rcases List.mem_append.mp inside with earlier | same
      · exact earlier
      · rw [List.mem_singleton.mp same, refused] at ok
        contradiction
    obtain ⟨m, held, leads⟩ := leading ⟨b, before, ok⟩ k d place
    refine ⟨m, held, leads.snoc fun allowed => ?_⟩
    rw [refused] at allowed
    contradiction
  · have okW := kept.allowed w member
    have properW := proper_of_admissible
      (sized w (List.mem_append_left _ (kept.among w member))) okW
    obtain ⟨m, held, leads⟩ := leading ⟨w, kept.among w member, okW⟩ k d place
    refine ⟨m, held, leads.snoc fun allowed => ?_⟩
    have properA := proper_of_admissible
      (sized a (List.mem_append_right _ List.mem_cons_self)) allowed
    rw [kept.towards] at blocked
    have noWorse := (blocks_iff properW properA).mp blocked
    have step : NotWorseAt d k w a := fun x y left right => noWorse.at place left right
    exact (leads w (kept.among w member) okW).trans properW place step

/-- Before the archive is made to fit, the best member or the newcomer is best in an
objective: the newcomer evicts no member that is better than itself. -/
theorem newcomer {capacity : Option Nat} (leading : Leading ds u s) (kept : Kept ds capacity u s)
    (sized : Sized ds (u ++ [a])) {k : Nat} {d : Direction}
    (place : ds[k]? = some d) :
    ∃ m ∈ (s.members.filter fun m => !dominates ds a.reward m.reward) ++ [a],
      Leads d k (u ++ [a]) m := by
  have inA : a ∈ (s.members.filter fun m => !dominates ds a.reward m.reward) ++ [a] :=
    List.mem_append_right _ List.mem_cons_self
  by_cases some : ∃ b ∈ u, admissible b = true
  · obtain ⟨m, held, leads⟩ := leading some k d place
    have okM := kept.allowed m held
    have sizeM := sized m (List.mem_append_left _ (kept.among m held))
    by_cases ahead : NotWorseAt d k a m
    · have properM := proper_of_admissible sizeM okM
      refine ⟨a, inA, Leads.snoc (fun b before ok => ?_) fun _ => NotWorseAt.refl d k a⟩
      exact ahead.trans properM place (leads b before ok)
    · simp only [NotWorseAt, not_forall] at ahead
      obtain ⟨x, y, left, right, better⟩ := ahead
      rw [Bool.not_eq_false] at better
      have spared : dominates ds a.reward m.reward = false := by
        rw [Bool.eq_false_iff, ne_eq, dominates_iff]
        rintro ⟨noWorse, _⟩
        rw [noWorse.at place left right] at better
        contradiction
      refine ⟨m, List.mem_append_left _ (List.mem_filter.mpr ⟨held, by rw [spared]; rfl⟩), ?_⟩
      refine leads.snoc fun _ y' x' right' left' => ?_
      cases left.symm.trans left'
      cases right.symm.trans right'
      exact Direction.isBetter_asymm better
  · refine ⟨a, inA, Leads.snoc (fun b before ok => ?_) fun _ => NotWorseAt.refl d k a⟩
    exact absurd ⟨b, before, ok⟩ some

end Leading

end Best

section Dropping

variable [IsStrictOrderedRing K] {ds : List Direction} {d : Direction} {k limit fuel : Nat}
  {members kept u : List (Agent (Exact K))} {f : Agent (Exact K)}

/-- The objective that is to be minimized places finite rewards the other way round
when the direction is to maximize. -/
theorem toMinimum_atMost {d : Direction} {a b : K} :
    Exact.atMost (d.toMinimum (.finite a)) (d.toMinimum (.finite b)) = true ↔
      d.isBetter (Exact.finite b) (.finite a) = false := by
  cases d with
  | minimize =>
    have value (x : K) : Direction.minimize.toMinimum (Exact.finite x) = .finite x := by
      simp [Direction.toMinimum, Direction.sign, Exact.one_eq, Exact.neg_finite, Exact.finite_mul]
    rw [value, value, Exact.atMost_finite, Direction.isBetter, Exact.lt_eq, Exact.below,
      decide_eq_false_iff_not, not_lt]
  | maximize =>
    have value (x : K) : Direction.maximize.toMinimum (Exact.finite x) = .finite (-x) := by
      simp [Direction.toMinimum, Direction.sign, Exact.one_eq, Exact.neg_finite, Exact.finite_mul]
    rw [value, value, Exact.atMost_finite, Direction.isBetter, Exact.lt_eq, Exact.below,
      decide_eq_false_iff_not, not_lt, neg_le_neg_iff]

omit [IsStrictOrderedRing K] in
/-- The points whose distances decide are the rewards as values to be minimized. -/
theorem coordinate_minima {j : Nat} {x : Exact K} (place : ds[k]? = some d)
    (inside : j < members.length) (value : members[j].reward[k]? = some x) :
    Crowding.coordinate (members.map fun m => toMinima ds m.reward).toArray k j =
      d.toMinimum x := by
  have row : (members.map fun m => toMinima ds m.reward).toArray.getD j [] =
      toMinima ds members[j].reward := by
    simp [Array.getD, inside]
  have entry : (toMinima ds members[j].reward)[k]? = some (d.toMinimum x) := by
    rw [toMinima, List.getElem?_zipWith_eq_some]
    exact ⟨d, x, place, value, rfl⟩
  rw [Crowding.coordinate, row, List.getD_eq_getElem?_getD, entry, Option.getD_some]

omit [IsStrictOrderedRing K] in
theorem finite_of_admissible {a : Agent (Exact K)} {x : Exact K} (allowed : admissible a = true)
    (value : a.reward[k]? = some x) : ∃ q, x = .finite q := by
  simp only [admissible, Bool.and_eq_true, List.all_eq_true] at allowed
  exact Exact.isFinite_iff.mp (allowed.2 x (List.mem_of_getElem? value))

/-- With room for two members for each objective, a member that is best in an
objective is not dropped. -/
theorem dropped_not_best (sized : Sized ds members) (allowed : ∀ m ∈ members, admissible m = true)
    (place : ds[k]? = some d) (room : 2 * ds.length < members.length) {distance : List (Exact K)}
    {i : Nat}
    (measured : Crowding.distances (members.map fun m => toMinima ds m.reward) = .ok distance)
    (found : least distance = some i) (inside : i < members.length) :
    ∃ f ∈ dropAt members i, ∀ b ∈ members, NotWorseAt d k f b := by
  have below : k < ds.length := (List.getElem?_eq_some_iff.mp place).1
  have level : ∀ p ∈ members.map fun m => toMinima ds m.reward, p.length = ds.length := by
    intro p member
    obtain ⟨m, among, rfl⟩ := List.mem_map.mp member
    simp [toMinima, sized m among]
  obtain ⟨state, ends, ran, spread⟩ := Crowding.distances_measured level (by
    rw [List.length_map]
    omega)
  rw [List.length_map] at spread
  cases measured.symm.trans ran
  -- there are more members than ends, so the least distance is finite
  obtain ⟨j, inner, free⟩ : ∃ j < members.length, j ∉ ends := by
    by_contra all
    push Not at all
    have covered : List.range members.length ⊆ ends := fun j member =>
      all j (List.mem_range.mp member)
    have few := (List.nodup_range.subperm covered).length_le
    rw [List.length_range, spread.few] at few
    omega
  obtain ⟨shares, held, parts, _⟩ := spread.inner j inner free
  obtain ⟨q, sum, _, _⟩ := Exact.value_sumShares parts
  have finite : state.2[j]? = some (.finite q) := sum ▸ held
  obtain ⟨x, dropped, least⟩ := least_spec found
  have notEnd : i ∉ ends := by
    intro isEnd
    have infinite := spread.outer i inside isEnd
    rw [Array.getElem?_toList, infinite] at dropped
    cases dropped
    have low := least (.finite q) (List.mem_of_getElem? (Array.getElem?_toList ▸ finite))
    cases low
  obtain ⟨first, isEnd, _, _, under, _, ahead⟩ := spread.extremes k below
  refine ⟨members[first], mem_dropAt_of_ne inside under ?_, fun b among => ?_⟩
  · rintro rfl
    exact notEnd isEnd
  · intro x y left right
    obtain ⟨place', here, rfl⟩ := List.mem_iff_getElem.mp among
    have order := (ahead place' here).1
    obtain ⟨p, rfl⟩ := finite_of_admissible (allowed _ (List.getElem_mem under)) left
    obtain ⟨r, rfl⟩ := finite_of_admissible (allowed _ (List.getElem_mem here)) right
    rw [Crowding.Ahead, coordinate_minima place under left,
      coordinate_minima place here right] at order
    exact toMinimum_atMost.mp (bne_iff_ne.mpr order)

theorem truncate_keeps_lead (sized : Sized ds members)
    (allowed : ∀ m ∈ members, admissible m = true) (place : ds[k]? = some d)
    (room : 2 * ds.length ≤ limit) (ran : truncate ds limit fuel members = .ok kept)
    (leads : ∃ m ∈ members, Leads d k u m) : ∃ m ∈ kept, Leads d k u m := by
  induction fuel generalizing members with
  | zero =>
    cases ran
    exact leads
  | succ fuel ih =>
    by_cases fits : members.length ≤ limit
    · rw [truncate, if_pos fits] at ran
      cases ran
      exact leads
    · obtain ⟨distance, i, measured, _, found, inside, step⟩ :=
        truncate_step fuel sized (Nat.lt_of_not_le fits)
      rw [step] at ran
      refine ih (fun m member => sized m (mem_dropAt member))
        (fun m member => allowed m (mem_dropAt member)) ran ?_
      obtain ⟨m, member, best⟩ := leads
      obtain ⟨f, stays, first⟩ :=
        dropped_not_best sized allowed place (by omega) measured found inside
      have proper := proper_of_admissible (sized m member) (allowed m member)
      exact ⟨f, stays, fun b offered ok => (first m member).trans proper place (best b offered ok)⟩

end Dropping

section Runs

variable [IsStrictOrderedRing K] {ds : List Direction} {c : Nat} {u v : List (Agent (Exact K))}
  {s s' : Archive (Exact K)} {a : Agent (Exact K)} {entered : Bool}

namespace Leading

theorem insert (leading : Leading ds u s) (kept : Kept ds (some c) u s)
    (room : 2 * ds.length ≤ c) (sized : Sized ds (u ++ [a]))
    (ran : s.insert a = .ok (s', entered)) : Leading ds (u ++ [a]) s' := by
  rcases insert_cases s a with ⟨out, same⟩ | ⟨allowed, _, built⟩
  · cases ran.symm.trans same
    exact leading.stays_out kept sized out
  · rw [built, kept.towards, kept.bound] at ran
    obtain ⟨members, truncated, result⟩ := map_ok.mp ran
    cases result
    intro _ k d place
    have inside := fun m => kept.entering allowed (m := m)
    exact truncate_keeps_lead (fun m member => sized m (inside m member).1)
      (fun m member => (inside m member).2) place (room.trans (Nat.le_max_left c 1)) truncated
      (leading.newcomer kept sized place)

theorem insertAll (leading : Leading ds u s) (kept : Kept ds (some c) u s)
    (room : 2 * ds.length ≤ c) (sized : Sized ds (u ++ v)) :
    ∃ s', s.insertAll v = .ok s' ∧ Kept ds (some c) (u ++ v) s' ∧ Leading ds (u ++ v) s' := by
  induction v generalizing u s with
  | nil =>
    rw [List.append_nil]
    exact ⟨s, rfl, kept, leading⟩
  | cons a v ih =>
    rw [← List.singleton_append, ← List.append_assoc] at sized ⊢
    have first : Sized ds (u ++ [a]) := fun m member => sized m (List.mem_append_left _ member)
    obtain ⟨next, entered, inserted, after⟩ := kept.insert first
    obtain ⟨final, ran, done⟩ := ih (leading.insert kept room first inserted) after sized
    refine ⟨final, ?_, done⟩
    rw [List.singleton_append, Archive.insertAll, inserted]
    exact ran

end Leading

/-- A bounded archive never loses an extreme. With room for two members for each
objective, after any inserts into an empty archive the best value of an objective
among all admissible agents offered is the value of a member. -/
theorem extremes_kept (ds : List Direction) (c : Nat) (room : 2 * ds.length ≤ c)
    (u : List (Agent (Exact K))) (sized : Sized ds u) :
    ∃ s, (empty ds (some c)).insertAll u = .ok s ∧
      ∀ (k : Nat) (d : Direction), ds[k]? = some d → (∃ a ∈ u, admissible a = true) →
        ∃ m ∈ s.members, ∃ x, m.reward[k]? = some x ∧
          ∀ b ∈ u, admissible b = true → ∀ y, b.reward[k]? = some y →
            d.isBetter y x = false := by
  have nothing : Leading ds [] (empty ds (some c) : Archive (Exact K)) := by
    rintro ⟨_, ⟨⟩, _⟩
  obtain ⟨s, ran, kept, leading⟩ :=
    nothing.insertAll (Kept.empty ds (some c)) room (v := u) sized
  refine ⟨s, ran, fun k d place some => ?_⟩
  obtain ⟨m, member, leads⟩ := leading some k d place
  obtain ⟨below, _⟩ := List.getElem?_eq_some_iff.mp place
  have size : m.reward.length = ds.length := sized m (kept.among m member)
  have value := List.getElem?_eq_getElem (size ▸ below : k < m.reward.length)
  exact ⟨m, member, _, value, fun b offered ok y right => leads b offered ok _ y value right⟩

/-- Five agents for four places; the infeasible one would be best in both objectives. -/
def crowd : List (Agent (Exact ℚ)) :=
  [⟨[.finite 0], [.finite 0, .finite 0], .feasible⟩,
    ⟨[.finite 1], [.finite 1, .finite 5], .feasible⟩,
    ⟨[.finite 2], [.finite (-9), .finite 99], .infeasible⟩,
    ⟨[.finite 3], [.finite 2, .finite 6], .feasible⟩,
    ⟨[.finite 4], [.finite 3, .finite 7], .unconstrained⟩,
    ⟨[.finite 5], [.finite 9, .finite 9], .feasible⟩]

theorem extremes_kept_crowd :
    2 * [Direction.minimize, .maximize].length ≤ 4 ∧
      Sized [.minimize, .maximize] crowd ∧
      ∃ s, (empty [.minimize, .maximize] (some 4)).insertAll crowd = .ok s ∧
        s.members.map Agent.reward = [[.finite 0, .finite 0], [.finite 1, .finite 5],
          [.finite 9, .finite 9], [.finite 3, .finite 7]] ∧
        ∃ m ∈ s.members, ∃ x, m.reward[1]? = some x ∧
          ∀ b ∈ crowd, admissible b = true → ∀ y, b.reward[1]? = some y →
            Direction.maximize.isBetter y x = false := by
  have sized : Sized [.minimize, .maximize] crowd := by simp [Sized, crowd]
  have offered : ∃ a ∈ crowd, admissible a = true :=
    ⟨⟨[.finite 0], [.finite 0, .finite 0], .feasible⟩, by simp [crowd], rfl⟩
  obtain ⟨s, ran, kept⟩ := extremes_kept [.minimize, .maximize] 4 (by decide) crowd sized
  refine ⟨by decide, sized, s, ran, ?_, kept 1 .maximize rfl offered⟩
  have evaluated : ((empty [.minimize, .maximize] (some 4)).insertAll crowd).map
      (fun s => s.members.map Agent.reward) = .ok [[.finite 0, .finite 0], [.finite 1, .finite 5],
          [.finite 9, .finite 9], [.finite 3, .finite 7]] := by
    cbv
  rw [ran] at evaluated
  exact Except.ok.inj evaluated

end Runs
end Metaheuristic.Archive
