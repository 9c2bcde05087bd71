import Metaheuristic.Proofs.Population.Ranking
import Metaheuristic.Proofs.Population.Standing
import Metaheuristic.Proofs.Quality.Minima
import Metaheuristic.Proofs.Quality.Spacing

/-! What a ranking says about quality. The order of the rows is that of one comparison, and row
order where it sees no difference. With one objective it compares rewards. With several it
compares fronts and, inside a front, crowding distances, which are measured front by front and put
back in the places of the points. Sorting by a ranking takes whole rows to their new places. -/
namespace Metaheuristic

variable {α : Type} [Scalar α] {l : Layout} {n : Nat}

/-- The first row stands before the second in an order of rows. -/
def Precedes (order : List Nat) (a b : Nat) : Prop := [a, b].Sublist order

theorem precedes_or_precedes {xs : List Nat} {a b : Nat} (first : a ∈ xs) (second : b ∈ xs)
    (apart : a ≠ b) : Precedes xs a b ∨ Precedes xs b a := by
  induction xs with
  | nil => cases first
  | cons x xs ih =>
    unfold Precedes
    rw [List.cons_sublist_cons', List.cons_sublist_cons', List.singleton_sublist,
      List.singleton_sublist]
    rcases List.mem_cons.mp first with rfl | laterA
    · exact .inl (.inr ⟨rfl, (List.mem_cons.mp second).resolve_left apart.symm⟩)
    · rcases List.mem_cons.mp second with rfl | laterB
      · exact .inr (.inr ⟨rfl, laterA⟩)
      · exact (ih laterA laterB).imp .inl .inl

/-- Of two rows the first one stands first when the order does not allow the reverse. -/
theorem precedes_of_not {order : List Nat} {R : Nat → Nat → Prop}
    (placed : order.Perm (List.range n)) (sorted : order.Pairwise R) {a b : Nat} (insideA : a < n)
    (insideB : b < n) (apart : a ≠ b) (not : ¬R b a) : Precedes order a b := by
  refine (precedes_or_precedes (placed.mem_iff.mpr (List.mem_range.mpr insideA))
    (placed.mem_iff.mpr (List.mem_range.mpr insideB)) apart).resolve_right fun reversed => ?_
  exact not (List.pairwise_iff_forall_sublist.mp sorted reversed)

namespace Direction

variable [Scalar.LawfulOrder α] (d : Direction)

instance : Std.TransCmp (d.compare : α → α → Ordering) where
  eq_swap {x y} := by
    unfold compare
    cases Scalar.isNaN x <;> cases Scalar.isNaN y <;> try rfl
    cases ahead : d.isBetter x y with
    | true => simp [isBetter_asymm ahead]
    | false => cases d.isBetter y x <;> simp
  isLE_trans {x y z} first second := by
    rw [← Sorting.isLE_eq] at *
    exact compare_trans x y z first second

end Direction

namespace Population

variable {p : Population α} {region : Region}

/-- The rewards of the rows. -/
def rewards (p : Population α) (region : Region) : List (List α) :=
  p.rows.map fun r => (r.block region).rewards

/-- The first rewards of the rows. -/
def fitness (p : Population α) (region : Region) : List α :=
  p.rows.map fun r => (r.block region).leading

omit [Scalar α] in
/-- A reading that answers for each row answers for all rows in turn. -/
theorem Sized.read_rows {β : Type} (sized : p.Sized l n) {f : Nat → Except Fault β} {g : Row α → β}
    (each : ∀ (i : Nat) r, p.rows[i]? = some r → f i = .ok (g r)) :
    (List.range p.count).mapM f = .ok (p.rows.map g) := by
  have held {i : Nat} (below : i < n) :=
    List.getElem?_eq_getElem (Nat.lt_of_lt_of_eq below sized.length.symm)
  obtain ⟨items, read, length, _⟩ := sized.exists_rows (Q := fun _ => True) fun i below =>
    ⟨_, each i _ (held below), trivial⟩
  rw [read]
  refine congrArg Except.ok (List.ext_getElem? fun i => ?_)
  by_cases below : i < n
  · obtain ⟨x, place, one⟩ := (mapM_ok read).2 i i
      (by rw [sized.count]; exact List.getElem?_range below)
    rw [each i _ (held below)] at one
    cases one
    rw [place, List.getElem?_map, held below, Option.map_some]
  · rw [List.getElem?_eq_none (by omega), List.getElem?_eq_none]
    rw [List.length_map, sized.length]
    exact Nat.le_of_not_lt below

omit [Scalar α] in
theorem Sized.read_rewards (sized : p.Sized l n) (region : Region) :
    ((List.range p.count).mapM fun row => p.reward row region) = .ok (p.rewards region) := by
  refine sized.read_rows fun i r held => ?_
  have below : i < n := Nat.lt_of_lt_of_eq (List.getElem?_eq_some_iff.mp held).1 sized.length
  obtain ⟨r', held', _, read⟩ := sized.exists_field below sized.rewards_inside Block.rewards []
  rw [held] at held'
  cases held'
  exact read

theorem Sized.read_fitness (sized : p.Sized l n) (objective : 0 < l.objectives) (region : Region) :
    p.rewardColumn region 0 = .ok (p.fitness region) := by
  refine sized.read_rows fun i r held => ?_
  have below : i < n := Nat.lt_of_lt_of_eq (List.getElem?_eq_some_iff.mp held).1 sized.length
  obtain ⟨x, read⟩ := sized.exists_rewardAt below objective region
  rw [read, rewardAt_ok held read]

/-- Rows by one objective. -/
structure ByFitness (d : Direction) (fitness : List α) (order : List Nat) : Prop where
  /-- In order of the comparison, and in row order where it sees no difference. -/
  sorted : order.Pairwise fun a b => ∀ x y, fitness[a]? = some x → fitness[b]? = some y →
    d.compare x y = .lt ∨ d.compare x y = .eq ∧ a < b
  /-- A better row comes before a worse one. -/
  better : ∀ a b x y, fitness[a]? = some x → fitness[b]? = some y → d.isBetter x y = true →
    Precedes order a b
  /-- Rows with equal values keep their order. -/
  tied : ∀ a b x y, fitness[a]? = some x → fitness[b]? = some y → (x == y) = true → a < b →
    Precedes order a b
  /-- Rows without a value come last. -/
  undefined : ∀ a b x y, fitness[a]? = some x → fitness[b]? = some y → Scalar.isNaN x = false →
    Scalar.isNaN y = true → Precedes order a b

theorem byFitness [Scalar.LawfulOrder α] {d : Direction} {fitness : List α} {order : List Nat}
    (placed : order.Perm (List.range fitness.length))
    (sorted : order.Pairwise fun a b => ∀ x y, fitness[a]? = some x → fitness[b]? = some y →
      d.compare x y = .lt ∨ d.compare x y = .eq ∧ a < b) : ByFitness d fitness order := by
  have leads (a b : Nat) (x y : α) (placeA : fitness[a]? = some x) (placeB : fitness[b]? = some y)
      (ahead : d.compare x y = .lt) : Precedes order a b := by
    have behind : d.compare y x = .gt := Std.OrientedCmp.gt_of_lt ahead
    refine precedes_of_not placed sorted (List.getElem?_eq_some_iff.mp placeA).1
      (List.getElem?_eq_some_iff.mp placeB).1 ?_ fun reversed => ?_
    · rintro rfl
      rw [placeA] at placeB
      cases placeB
      rw [ahead] at behind
      cases behind
    · rcases reversed y x placeB placeA with lower | ⟨same, _⟩
      · rw [behind] at lower
        cases lower
      · rw [behind] at same
        cases same
  refine ⟨sorted, fun a b x y placeA placeB better => leads a b x y placeA placeB ?_,
    fun a b x y placeA placeB same below => ?_,
    fun a b x y placeA placeB left right => leads a b x y placeA placeB ?_⟩
  · obtain ⟨left, right⟩ : Scalar.isNaN x = false ∧ Scalar.isNaN y = false := by
      cases d with
      | minimize => exact Scalar.LawfulOrder.defined_of_lt better
      | maximize => exact (Scalar.LawfulOrder.defined_of_lt better).symm
    rw [Direction.compare, left, right]
    exact if_pos better
  · obtain ⟨left, right, _⟩ := Scalar.LawfulOrder.eq_iff.mp same
    obtain ⟨notAhead, notBehind⟩ := (Direction.eq_iff_not_isBetter (d := d) left right).mp same
    have level : d.compare y x = .eq := by
      simp [Direction.compare, left, right, notAhead, notBehind]
    refine precedes_of_not placed sorted (List.getElem?_eq_some_iff.mp placeA).1
      (List.getElem?_eq_some_iff.mp placeB).1 below.ne fun reversed => ?_
    have ordered := reversed y x placeB placeA
    rw [level] at ordered
    simp only [reduceCtorEq, true_and, false_or] at ordered
    omega
  · rw [Direction.compare, left, right]

/-- Rows of one objective are ranked by it. -/
theorem Sized.ranking_byFitness [Scalar.LawfulOrder α] {d : Direction} (sized : p.Sized l n)
    (objective : 0 < l.objectives) (region : Region) :
    ∃ order, p.ranking region [d] = .ok order ∧ order.Perm (List.range n) ∧
      ByFitness d (p.fitness region) order := by
  have length : (p.fitness region).length = n := (List.length_map _).trans sized.length
  unfold ranking
  rw [sized.read_fitness objective region, sized.count]
  dsimp only
  split
  · rename_i few
    refine ⟨_, rfl, .refl _, byFitness (length ▸ .refl _) ?_⟩
    refine List.pairwise_lt_range.imp_of_mem fun {a b} _ inside below => ?_
    have bound := List.mem_range.mp inside
    omega
  · have _ := Sorting.transCmp_on d.compare fun a =>
      (p.fitness region).toArray.getD a Scalar.zero
    refine ⟨_, rfl, perm_sortedBy _, byFitness (length ▸ perm_sortedBy _) ?_⟩
    have sorted := Sorting.pairwise_positions (fun a b => d.compare
      ((p.fitness region).toArray.getD a Scalar.zero)
      ((p.fitness region).toArray.getD b Scalar.zero)) n
    refine sorted.imp fun {a b} ordered x y placeA placeB => ?_
    simpa [Array.getD_eq_getD_getElem?, placeA, placeB] using ordered

section Scatter

variable {β : Type} {entries : List (Nat × β)} {cells : Array β} {a : Nat}

/-- Puts values in their places. -/
def scatter (entries : List (Nat × β)) (cells : Array β) : Array β :=
  entries.foldl (fun c entry => c.setIfInBounds entry.1 entry.2) cells

omit [Scalar α] in
theorem size_scatter : (scatter entries cells).size = cells.size := by
  induction entries generalizing cells with
  | nil => rfl
  | cons entry rest ih => exact ih.trans (Array.size_setIfInBounds ..)

theorem scatter_of_not_mem (absent : a ∉ entries.map Prod.fst) :
    (scatter entries cells)[a]? = cells[a]? := by
  induction entries generalizing cells with
  | nil => rfl
  | cons entry rest ih =>
    rw [List.map_cons, List.mem_cons, not_or] at absent
    exact (ih absent.2).trans (Array.getElem?_setIfInBounds_ne (Ne.symm absent.1))

theorem scatter_of_mem {x : β} (once : (entries.map Prod.fst).Nodup) (member : (a, x) ∈ entries)
    (inside : a < cells.size) : (scatter entries cells)[a]? = some x := by
  induction entries generalizing cells with
  | nil => cases member
  | cons entry rest ih =>
    rw [List.map_cons, List.nodup_cons] at once
    rcases List.mem_cons.mp member with rfl | later
    · refine (scatter_of_not_mem once.1).trans ?_
      rw [Array.getElem?_setIfInBounds_self_of_lt inside]
    · exact ih once.2 later (inside.trans_eq (Array.size_setIfInBounds ..).symm)

end Scatter

/-- The distances of a front stand in the places of its points. -/
def Holds (points : List (List α)) (crowding : Array α) (front : List Nat) : Prop :=
  ∃ distances, Crowding.distances (front.map fun i => points.getD i []) = .ok distances ∧
    distances.length = front.length ∧ ∀ (i a : Nat) x, front[i]? = some a →
      distances[i]? = some x → crowding[a]? = some x

theorem crowdingByFront_holds {points : List (List α)} {dimension : Nat}
    (level : ∀ p ∈ points, p.length = dimension) {fronts : List (List Nat)}
    (once : fronts.flatten.Nodup) (within : ∀ front ∈ fronts, ∀ i ∈ front, i < points.length)
    (crowding : Array α) (size : crowding.size = points.length) :
    ∃ crowding', crowdingByFront points.toArray fronts crowding = .ok crowding' ∧
      (∀ a ∉ fronts.flatten, crowding'[a]? = crowding[a]?) ∧
      ∀ front ∈ fronts, Holds points crowding' front := by
  induction fronts generalizing crowding with
  | nil => exact ⟨crowding, rfl, fun _ _ => rfl, nofun⟩
  | cons front rest ih =>
    rw [List.flatten_cons, List.nodup_append] at once
    obtain ⟨onceFront, onceRest, apart⟩ := once
    have point (i : Nat) : points.toArray.getD i [] = points.getD i [] := by
      rw [Array.getD_eq_getD_getElem?, List.getElem?_toArray, List.getD_eq_getElem?_getD]
    have sized : ∀ p ∈ front.map fun i => points.getD i [], p.length = dimension := by
      intro p member
      obtain ⟨i, inside, rfl⟩ := List.mem_map.mp member
      have below := within front List.mem_cons_self i inside
      rw [List.getD_eq_getElem?_getD, List.getElem?_eq_getElem below]
      exact level _ (List.getElem_mem below)
    obtain ⟨distances, measured, length⟩ := Crowding.distances_ok sized
    rw [List.length_map] at length
    have keys : (front.zip distances).map Prod.fst = front :=
      List.map_fst_zip length.ge
    obtain ⟨crowding', ran, outside, holds⟩ := ih onceRest
      (fun later member => within later (List.mem_cons_of_mem _ member))
      (scatter (front.zip distances) crowding) (size_scatter.trans size)
    refine ⟨crowding', ?_, fun a absent => ?_, List.forall_mem_cons.mpr ⟨?_, holds⟩⟩
    · rw [crowdingByFront]
      simp only [point]
      rw [measured]
      exact ran
    · rw [List.flatten_cons, List.mem_append, not_or] at absent
      rw [outside a absent.2, scatter_of_not_mem (keys.symm ▸ absent.1)]
    · refine ⟨distances, measured, length, fun i a x place value => ?_⟩
      have member : a ∈ front := List.mem_of_getElem? place
      have entry : (a, x) ∈ front.zip distances := by
        refine List.mem_of_getElem? (i := i) ?_
        rw [List.getElem?_zip_eq_some]
        exact ⟨place, value⟩
      rw [outside a fun later => apart a member a later rfl]
      exact scatter_of_mem (keys.symm ▸ onceFront) entry
        ((within front List.mem_cons_self a member).trans_eq size.symm)

/-- How two points of a front stand, the first one before the second: the first is no more crowded,
and of equally crowded ones it has the lower position. -/
structure Spread (a b : Nat) (x y : α) : Prop where
  ordered : Scalar.totalOrder y x = .lt ∨ Scalar.totalOrder y x = .eq ∧ a < b
  decreasing : Scalar.lt x y = false
  tied : (x == y) = true → a < b

/-- Points by front and, inside a front, by crowding. -/
structure ByFronts (points : List (List α)) (order : List Nat) : Prop where
  fronts : ∀ (a b r s : Nat), (Fronts.ofPoints points).rank[a]? = some r →
    (Fronts.ofPoints points).rank[b]? = some s → r < s → Precedes order a b
  crowding : ∀ front ∈ (Fronts.ofPoints points).fronts, ∃ distances,
    Crowding.distances (front.map fun i => points.getD i []) = .ok distances ∧
      distances.length = front.length ∧
      ∀ (i j a b : Nat) x y, front[i]? = some a → distances[i]? = some x →
        front[j]? = some b → distances[j]? = some y → Precedes order a b → Spread a b x y

/-- The comparison of points by front and crowding. -/
def byFront (rank : List Nat) (crowding : Array α) (a b : Nat) : Ordering :=
  (compare (rank.toArray.getD a 0) (rank.toArray.getD b 0)).then
    (Scalar.totalOrder (crowding.getD b Scalar.zero) (crowding.getD a Scalar.zero))

instance [Scalar.LawfulTotal α] (rank : List Nat) (crowding : Array α) :
    Std.TransCmp (byFront rank crowding) :=
  have _ : Std.TransCmp fun x y : α => Scalar.totalOrder y x := Std.TransCmp.opposite
  have _ := Sorting.transCmp_on (fun x y : α => Scalar.totalOrder y x)
    fun a => crowding.getD a Scalar.zero
  inferInstanceAs (Std.TransCmp (compareLex (compareOn fun a => rank.toArray.getD a 0)
    fun a b => Scalar.totalOrder (crowding.getD b Scalar.zero) (crowding.getD a Scalar.zero)))

theorem byFront_of_lt {rank : List Nat} {crowding : Array α} {a b r s : Nat}
    (rankA : rank[a]? = some r) (rankB : rank[b]? = some s) (lower : r < s) :
    byFront rank crowding b a = .gt := by
  have compared : compare s r = .gt := Nat.compare_eq_gt.mpr lower
  simp [byFront, Array.getD_eq_getD_getElem?, rankA, rankB, compared]

theorem byFront_of_eq {rank : List Nat} {crowding : Array α} {a b r : Nat} {x y : α}
    (rankA : rank[a]? = some r) (rankB : rank[b]? = some r) (crowdingA : crowding[a]? = some x)
    (crowdingB : crowding[b]? = some y) :
    byFront rank crowding a b = Scalar.totalOrder y x := by
  simp [byFront, Array.getD_eq_getD_getElem?, rankA, rankB, crowdingA, crowdingB]

theorem rankPoints_byFronts [Scalar.LawfulOrder α] [Scalar.LawfulTotal α] [Scalar.LawfulGaps α]
    {points : List (List α)} {dimension : Nat} (level : ∀ p ∈ points, p.length = dimension) :
    ∃ order, rankPoints points = .ok order ∧ order.Perm (List.range points.length) ∧
      ByFronts points order := by
  obtain ⟨crowding, measured, _, holds⟩ := crowdingByFront_holds level
    (Fronts.nodup_ofPoints points) (fun front member => Fronts.mem_ofPoints member)
    (List.replicate points.length Scalar.zero).toArray (by simp)
  have placed := perm_sortedBy (n := points.length)
    (byFront (Fronts.ofPoints points).rank crowding)
  have sorted : (sortedBy (byFront (Fronts.ofPoints points).rank crowding) points.length).Pairwise
      fun a b => byFront (Fronts.ofPoints points).rank crowding a b = .lt ∨
        byFront (Fronts.ofPoints points).rank crowding a b = .eq ∧ a < b :=
    Sorting.pairwise_positions _ _
  refine ⟨_, ?_, placed, fun a b r s rankA rankB lower => ?_, fun front member => ?_⟩
  · unfold rankPoints
    dsimp only
    rw [measured]
    rfl
  · have length := Fronts.length_rank points
    refine precedes_of_not placed sorted (length ▸ (List.getElem?_eq_some_iff.mp rankA).1)
      (length ▸ (List.getElem?_eq_some_iff.mp rankB).1) ?_ ?_
    · rintro rfl
      rw [rankA] at rankB
      cases rankB
      exact Nat.lt_irrefl r lower
    · rw [byFront_of_lt rankA rankB lower]
      simp
  · obtain ⟨distances, spaced, length, values⟩ := holds front member
    obtain ⟨r, known⟩ := List.mem_iff_getElem?.mp member
    refine ⟨distances, spaced, length, fun i j a b x y placeA valueA placeB valueB before => ?_⟩
    have fromZero := Crowding.distances_fromZero spaced
    have ordered := List.pairwise_iff_forall_sublist.mp sorted before
    rw [byFront_of_eq (Fronts.rank_of_mem known (List.mem_of_getElem? placeA))
      (Fronts.rank_of_mem known (List.mem_of_getElem? placeB)) (values i a x placeA valueA)
      (values j b y placeB valueB)] at ordered
    refine ⟨ordered, Scalar.not_lt_of_totalOrder ?_, fun same => ?_⟩
    · rcases ordered with lower | ⟨same, _⟩
      · rw [lower]; decide
      · rw [same]; decide
    · have tied := Scalar.LawfulGaps.totalOrder_eq (fromZero y (List.mem_of_getElem? valueB))
        (fromZero x (List.mem_of_getElem? valueA)) (Scalar.eq_symm same)
      rw [tied] at ordered
      simpa using ordered

/-- Rewards under several directions. -/
structure ByQuality (directions : List Direction) (rewards : List (List α)) (order : List Nat) :
    Prop where
  /-- A row comes before those that its rewards dominate. -/
  dominating : ∀ (a b : Nat) r s, rewards[a]? = some r → rewards[b]? = some s →
    dominates directions r s = true → Precedes order a b
  byFronts : ByFronts (rewards.map (toMinima directions)) order

/-- Rows of several objectives are ranked by front and crowding. -/
theorem Sized.ranking_byQuality [Scalar.LawfulOrder α] [Scalar.LawfulTotal α]
    [Scalar.LawfulSigns α] [Scalar.LawfulGaps α] {directions : List Direction}
    (sized : p.Sized l n) (objectives : l.objectives = directions.length)
    (several : 2 ≤ directions.length) (region : Region) :
    ∃ order, p.ranking region directions = .ok order ∧ order.Perm (List.range n) ∧
      ((∀ reward ∈ p.rewards region, ∀ x ∈ reward, Scalar.isNaN x = false) →
        ByQuality directions (p.rewards region) order) := by
  have length : (p.rewards region).length = n := (List.length_map _).trans sized.length
  have level : ∀ reward ∈ p.rewards region, reward.length = directions.length := by
    intro reward member
    obtain ⟨r, inside, rfl⟩ := List.mem_map.mp member
    obtain ⟨i, held⟩ := List.mem_iff_getElem?.mp inside
    exact (((sized.rows i r held).block region).rewards).trans objectives
  have dimension : ∀ point ∈ (p.rewards region).map (toMinima directions),
      point.length = directions.length := by
    intro point member
    obtain ⟨reward, inside, rfl⟩ := List.mem_map.mp member
    exact length_toMinima (level reward inside)
  obtain ⟨order, ranked, placed, byFronts⟩ := rankPoints_byFronts dimension
  rw [List.length_map, length] at placed
  refine ⟨order, ?_, placed, fun defined => ⟨fun a b r s placeA placeB better => ?_, byFronts⟩⟩
  · unfold ranking
    split
    · rw [List.length_singleton] at several
      omega
    · rw [sized.read_rewards region]
      exact ranked
  · have comparable : Fronts.Comparable ((p.rewards region).map (toMinima directions))
        directions.length := by
      refine ⟨dimension, fun point member => ?_⟩
      obtain ⟨reward, inside, rfl⟩ := List.mem_map.mp member
      exact toMinima_defined (defined reward inside)
    have beaten : Fronts.beats ((p.rewards region).map (toMinima directions)) a b = true := by
      rw [Fronts.beats_iff]
      refine ⟨_, _, by rw [List.getElem?_map, placeA]; rfl, by rw [List.getElem?_map, placeB]; rfl,
        ?_⟩
      exact compare_toMinima.mpr better
    obtain ⟨i, j, rankA, rankB, lower⟩ := comparable.ordered beaten
    exact byFronts.fronts a b i j rankA rankB lower

/-- Whole rows in another order. -/
structure Rearranged (order : List Nat) (p q : Population α) : Prop where
  layout : q.layout = p.layout
  /-- No row is lost and none appears twice. -/
  rows : q.rows.Perm p.rows
  /-- Both blocks of a row move together. -/
  moved : ∀ (i row : Nat), order[i]? = some row → q.rows[i]? = p.rows[row]?
  /-- What is read of a row in its new place is what was read in its old one. -/
  agents : ∀ (i row : Nat), order[i]? = some row → ∀ region, q.agent i region = p.agent row region

omit [Scalar α] in
/-- Rows that are the same read the same. -/
theorem Sized.field_eq {β : Type} {q : Population α} {i row start length : Nat}
    (sized : p.Sized l n) (kept : q.Sized l n) (belowI : i < n) (below : row < n)
    (same : q.rows[i]? = p.rows[row]?)
    (inside : start + length ≤ l.block) (f : Block α → β) (none : β) :
    q.field i region start length f none = p.field row region start length f none := by
  obtain ⟨r, held, _, read⟩ := sized.exists_field below inside f none
  obtain ⟨r', held', _, read'⟩ := kept.exists_field belowI inside f none
  rw [held', held] at same
  cases same
  exact read'.trans read.symm

omit [Scalar α] in
theorem Sized.agent_eq {q : Population α} {i row : Nat} (sized : p.Sized l n) (kept : q.Sized l n)
    (belowI : i < n) (below : row < n) (same : q.rows[i]? = p.rows[row]?) (region : Region) :
    q.agent i region = p.agent row region := by
  unfold agent chromosome reward status
  rw [kept.layout.trans sized.layout.symm,
    sized.field_eq kept belowI below same sized.genes_inside,
    sized.field_eq kept belowI below same sized.rewards_inside,
    sized.field_eq kept belowI below same sized.status_inside]

omit [Scalar α] in
/-- A sized population has its rows at the positions below their number. -/
theorem Sized.rows_eq (sized : p.Sized l n) :
    p.rows.map some = (List.range n).map fun row => p.rows[row]? := by
  refine List.ext_getElem? fun i => ?_
  rw [List.getElem?_map, List.getElem?_map]
  by_cases below : i < n
  · rw [List.getElem?_range below, Option.map_some,
      List.getElem?_eq_getElem (Nat.lt_of_lt_of_eq below sized.length.symm), Option.map_some]
  · rw [List.getElem?_eq_none (by rw [sized.length]; exact Nat.le_of_not_lt below),
      List.getElem?_eq_none (by rw [List.length_range]; exact Nat.le_of_not_lt below)]
    rfl

omit [Scalar α] in
theorem Sized.reorder_rearranged {order : List Nat} (sized : p.Sized l n)
    (placed : order.Perm (List.range n)) :
    ∃ q, p.reorder order = .ok q ∧ q.Sized l n ∧ Rearranged order p q := by
  obtain ⟨q, ran, kept⟩ := sized.exists_reorder (placed.length_eq.trans List.length_range)
    fun row member => List.mem_range.mp (placed.mem_iff.mp member)
  refine ⟨q, ran, kept, ?_⟩
  obtain ⟨layout, _, length, copied⟩ := reorder_moved ran
  have moved (i row : Nat) (place : order[i]? = some row) : q.rows[i]? = p.rows[row]? := by
    obtain ⟨r, held, found⟩ := copied i row place
    exact found.trans held.symm
  have listed : q.rows.map some = order.map fun row => p.rows[row]? := by
    refine List.ext_getElem? fun i => ?_
    rw [List.getElem?_map, List.getElem?_map]
    cases place : order[i]? with
    | none =>
      have beyond := List.getElem?_eq_none_iff.mp place
      rw [← length] at beyond
      rw [List.getElem?_eq_none beyond]
      rfl
    | some row =>
      obtain ⟨r, held, found⟩ := copied i row place
      rw [found, Option.map_some, Option.map_some, held]
  refine ⟨layout, ?_, moved, fun i row place region => ?_⟩
  · refine (List.map_perm_map_iff (Option.some_injective _)).mp ?_
    rw [listed, sized.rows_eq]
    exact placed.map _
  · have below : row < n := List.mem_range.mp (placed.mem_iff.mp (List.mem_of_getElem? place))
    have belowI : i < n := by
      have inside := (List.getElem?_eq_some_iff.mp place).1
      rwa [placed.length_eq, List.length_range] at inside
    exact sized.agent_eq kept belowI below (moved i row place) region

/-- Ranking the rows of a population. -/
theorem ranking_respects_quality [Scalar.LawfulOrder α] [Scalar.LawfulTotal α]
    [Scalar.LawfulSigns α] [Scalar.LawfulGaps α] {directions : List Direction}
    (sized : p.Sized l n) (objectives : l.objectives = directions.length)
    (some : 1 ≤ l.objectives) (region : Region) :
    ∃ order q, p.ranking region directions = .ok order ∧ order.Perm (List.range n) ∧
      (∀ d, directions = [d] → ByFitness d (p.fitness region) order) ∧
      (2 ≤ directions.length →
        (∀ reward ∈ p.rewards region, ∀ x ∈ reward, Scalar.isNaN x = false) →
          ByQuality directions (p.rewards region) order) ∧
      p.sortBestFirst region directions = .ok q ∧ Rearranged order p q := by
  have ran : ∃ order, p.ranking region directions = .ok order ∧ order.Perm (List.range n) ∧
      (∀ d, directions = [d] → ByFitness d (p.fitness region) order) ∧
      (2 ≤ directions.length →
        (∀ reward ∈ p.rewards region, ∀ x ∈ reward, Scalar.isNaN x = false) →
          ByQuality directions (p.rewards region) order) := by
    match directions with
    | [] =>
      rw [objectives] at some
      cases some
    | [d] =>
      obtain ⟨order, ranked, placed, byFitness⟩ := sized.ranking_byFitness (d := d) some region
      refine ⟨order, ranked, placed, fun _ same => ?_, fun several => ?_⟩
      · cases same
        exact byFitness
      · cases Nat.le_of_succ_le_succ several
    | d :: d' :: rest =>
      obtain ⟨order, ranked, placed, byQuality⟩ :=
        sized.ranking_byQuality objectives (by simp) region
      exact ⟨order, ranked, placed, nofun, fun _ => byQuality⟩
  obtain ⟨order, ranked, placed, single, several⟩ := ran
  obtain ⟨q, reordered, _, rearranged⟩ := sized.reorder_rearranged placed
  refine ⟨order, q, ranked, placed, single, several, ?_, rearranged⟩
  rw [sortBestFirst, ranked]
  exact reordered

/-- Three rows that do not dominate each other, and below them two of which one dominates the
other. -/
def ridge : Population Float where
  layout := ⟨1, 2, false⟩
  count := 5
  rows := [[7, 2], [2, 1], [6, 4], [4, 3], [7, 3]].map fun reward =>
    ⟨⟨[0.5], .unconstrained, reward⟩, none⟩

theorem ridge_sized : ridge.Sized ⟨1, 2, false⟩ 5 := by
  refine ⟨rfl, rfl, rfl, fun i r held => ?_⟩
  obtain ⟨reward, inside, rfl⟩ := List.mem_map.mp (List.mem_of_getElem? held)
  have length : reward.length = 2 := by
    simp only [List.mem_cons, List.not_mem_nil, or_false] at inside
    rcases inside with rfl | rfl | rfl | rfl | rfl <;> rfl
  exact ⟨⟨rfl, length⟩, nofun, rfl⟩

theorem ranking_respects_quality_ridge :
    ∃ order q, ridge.ranking .trial [.minimize, .maximize] = .ok order ∧
      order.Perm (List.range 5) ∧ Precedes order 2 4 ∧ Precedes order 4 0 ∧
      ridge.sortBestFirst .trial [.minimize, .maximize] = .ok q ∧ q.rows.Perm ridge.rows := by
  have objectives : (⟨1, 2, false⟩ : Layout).objectives =
      [Direction.minimize, Direction.maximize].length := rfl
  obtain ⟨order, q, ranked, placed, _, several, sorted, rearranged⟩ :=
    ranking_respects_quality ridge_sized objectives (by decide) .trial
  have quality := several (by decide) (by decide +kernel)
  exact ⟨order, q, ranked, placed,
    quality.dominating 2 4 [6, 4] [7, 3] rfl rfl (by decide +kernel),
    quality.dominating 4 0 [7, 3] [7, 2] rfl rfl (by decide +kernel),
    sorted, rearranged.rows⟩

end Population
end Metaheuristic
