import Metaheuristic.Proofs.Population.Precedence
import Metaheuristic.Proofs.Population.Trials
import Metaheuristic.Proofs.Strategy.UnitCube

/-! Who leads the wolves, and how the others follow. The leaders are copies of the three rows that
rank best. A point around a leader is at most twice the reach away from it, because both
coefficients of a move keep to their ranges and all genes lie in the unit interval. So the mean of
the points is as close to the mean of the leaders, and clamping does not take it away again,
because the mean of the leaders lies in the unit interval itself. -/
namespace Metaheuristic

open Exact
open Population (Genes Sized)

namespace Row

variable {α : Type} (r : Row α) (genes : List α) (region : Region)

@[simp]
theorem status_withTrial : ((r.withTrial genes).block region).status = (r.block region).status := by
  obtain ⟨trial, incumbent⟩ := r
  cases incumbent <;> cases region <;> rfl

@[simp]
theorem rewards_withTrial :
    ((r.withTrial genes).block region).rewards = (r.block region).rewards := by
  obtain ⟨trial, incumbent⟩ := r
  cases incumbent <;> cases region <;> rfl

end Row

variable {K : Type} [Field K] [LinearOrder K]

namespace Exact

/-- The number that a finite value is. -/
def value : Exact K → K
  | finite x => x
  | _ => 0

/-- The mean of numbers. -/
def mean (xs : List (Exact K)) : K := (xs.map value).sum / xs.length

theorem abs_finite [FloorRing K] [Elementary K] (x : K) :
    Scalar.abs (finite x) = finite |x| := rfl

theorem InUnit.eq_value {x : Exact K} (inside : InUnit x) :
    x = .finite x.value ∧ 0 ≤ x.value ∧ x.value ≤ 1 := by
  obtain ⟨q, rfl, lower, upper⟩ := inside
  exact ⟨rfl, lower, upper⟩

/-- A gene of the unit interval that is at most that far away from a number. -/
def Near (center distance : K) (gene : Exact K) : Prop :=
  ∃ x : K, gene = finite x ∧ 0 ≤ x ∧ x ≤ 1 ∧ |x - center| ≤ distance

variable {center distance : K} {gene : Exact K}

theorem Near.inUnit (near : Near center distance gene) : InUnit gene := by
  obtain ⟨x, rfl, lower, upper, _⟩ := near
  exact ⟨x, rfl, lower, upper⟩

variable [IsStrictOrderedRing K]

/-- Nothing but the center is at no distance from it. -/
theorem Near.eq_of_zero (near : Near center 0 gene) : gene = finite center := by
  obtain ⟨x, rfl, _, _, close⟩ := near
  have same : x - center = 0 := abs_eq_zero.mp (le_antisymm close (abs_nonneg _))
  rw [sub_eq_zero.mp same]

/-- The mean of numbers of the unit interval lies in it. -/
theorem mean_inside {xs : List (Exact K)} (all : ∀ x ∈ xs, InUnit x) :
    0 ≤ mean xs ∧ mean xs ≤ 1 := by
  have inside : ∀ x ∈ xs.map Exact.value, 0 ≤ x ∧ x ≤ 1 := by
    intro x member
    obtain ⟨y, held, rfl⟩ := List.mem_map.mp member
    exact (all y held).eq_value.2
  have upper : (xs.map Exact.value).sum ≤ xs.length := by
    have bounded := List.sum_le_card_nsmul _ (1 : K) fun x member => (inside x member).2
    rwa [List.length_map, nsmul_one] at bounded
  unfold mean
  constructor
  · apply div_nonneg _ (Nat.cast_nonneg _)
    apply List.sum_nonneg
    intro x member
    exact (inside x member).1
  · exact div_le_one_of_le₀ upper (Nat.cast_nonneg _)

/-- Clamping takes nothing further away from a number of the unit interval. -/
theorem abs_clamp_sub_le {x : K} (lower : 0 ≤ center) (upper : center ≤ 1)
    (close : |x - center| ≤ distance) : |max 0 (min 1 x) - center| ≤ distance := by
  have positive : 0 ≤ distance := (abs_nonneg _).trans close
  rw [abs_le] at close ⊢
  constructor
  · have below : center - distance ≤ max 0 (min 1 x) :=
      le_max_of_le_right (le_min (by linarith) (by linarith))
    linarith
  · have above : max 0 (min 1 x) ≤ center + distance :=
      max_le (by linarith) (min_le_of_right_le (by linarith))
    linarith

/-- The mean of the points is near the mean of the leaders, and so it is when it is clamped. -/
theorem clampUnit_near [FloorRing K] [Elementary K] {xs : List (Exact K)}
    (inside : ∀ x ∈ xs, InUnit x) (nonempty : xs ≠ []) {y : K}
    (close : |y - (xs.map value).sum| ≤ xs.length * distance) :
    Near (mean xs) distance (Scalar.clampUnit (.finite y / Scalar.ofNat xs.length)) := by
  have positive : (0 : K) < xs.length := Nat.cast_pos.mpr (List.length_pos_iff.mpr nonempty)
  have meanClose : |y / xs.length - mean xs| ≤ distance := by
    rw [mean, ← sub_div, abs_div, Nat.abs_cast, div_le_iff₀ positive, mul_comm]
    exact close
  obtain ⟨lower, upper⟩ := mean_inside inside
  rw [ofNat_eq, finite_div positive.ne', clampUnit_finite]
  refine ⟨_, rfl, le_max_left _ _, max_le zero_le_one (min_le_left _ _), ?_⟩
  exact abs_clamp_sub_le lower upper meanClose

end Exact

namespace GreyWolf

/-- The chromosomes of the rows that rank best lead. -/
structure Led {α : Type} (ranked : List Nat) (p : Population α) (leaders : List (List α)) : Prop where
  three : leaders.length = 3
  best : ∀ place < 3, ∃ row, ranked[place]? = some row ∧
    leaders[place]? = some (p.genesOf .trial row)

theorem settle_led {α : Type} [Scalar α] {l : Layout} {n : Nat} {p : Population α}
    {directions : List Direction} (s : State α) (three : 3 ≤ n)
    (objectives : l.objectives = directions.length) (sized : p.Sized l n) :
    ∃ ranked t q, p.ranking .trial directions = .ok ranked ∧ ranked.Perm (List.range n) ∧
      settle directions s p = .ok (t, q) ∧ t.settings = s.settings ∧ Led ranked p t.leaders := by
  obtain ⟨ranked, named, placed⟩ := sized.exists_ranking objectives .trial
  obtain ⟨q, reordered, kept, moved⟩ := sized.reorder_rearranged placed
  have sorted : p.sortBestFirst .trial directions = .ok q := by
    rw [Population.sortBestFirst, named]
    exact reordered
  have same (place : Nat) (below : place < n) : ∃ row, ranked[place]? = some row ∧
      q.genesOf .trial place = p.genesOf .trial row := by
    have inside : place < ranked.length := by
      rw [placed.length_eq, List.length_range]
      exact below
    have found := List.getElem?_eq_getElem inside
    refine ⟨_, found, ?_⟩
    rw [Population.genesOf, Population.genesOf, moved.moved place _ found]
  have settled : ∃ t, settle directions s p = .ok (t, q) ∧ t.settings = s.settings ∧
      t.leaders = [q.genesOf .trial 0, q.genesOf .trial 1, q.genesOf .trial 2] := by
    unfold settle
    rw [sorted]
    simp only [bind, Except.bind, kept.read_genesOf (show 0 < n by omega),
      kept.read_genesOf (show 1 < n by omega), kept.read_genesOf (show 2 < n by omega)]
    exact ⟨_, rfl, rfl, rfl⟩
  obtain ⟨t, ran, settings, leaders⟩ := settled
  refine ⟨ranked, t, q, named, placed, ran, settings, ?_, fun place below => ?_⟩
  · rw [leaders]
    rfl
  · obtain ⟨row, found, genes⟩ := same place (by omega)
    refine ⟨row, found, ?_⟩
    rw [leaders, ← genes]
    have first : place = 0 ∨ place = 1 ∨ place = 2 := by omega
    rcases first with rfl | rfl | rfl <;> rfl

/-- The reach of an iteration: all of it at first, and less of it the more iterations are over. -/
def reachAt (full : K) (progress : Progress) : K :=
  full * (1 - (progress.iteration : K) / progress.budget)

section Moves

variable [IsStrictOrderedRing K] {a u v l x : K}

/-- The first coefficient of a move does not exceed the reach. -/
theorem abs_spread_le (reach : 0 ≤ a) (lower : 0 ≤ u) (upper : u < 1) :
    |2 * a * u - a| ≤ a := by
  have least : 0 ≤ a * u := mul_nonneg reach lower
  have most : a * u ≤ a := mul_le_of_le_one_right reach upper.le
  rw [abs_le]
  constructor <;> linarith

/-- The second one takes the leader at most two units away from the gene. -/
theorem abs_pull_le (lower : 0 ≤ v) (upper : v < 1) (leader : 0 ≤ l ∧ l ≤ 1)
    (gene : 0 ≤ x ∧ x ≤ 1) : |2 * v * l - x| ≤ 2 := by
  have least : 0 ≤ v * l := mul_nonneg lower leader.1
  have most : v * l ≤ 1 := mul_le_one₀ upper.le leader.1 leader.2
  rw [abs_le]
  constructor <;> linarith [gene.1, gene.2]

/-- So a point around a leader is at most twice the reach away from it. -/
theorem abs_move_le (reach : 0 ≤ a) (lowerU : 0 ≤ u) (upperU : u < 1) (lowerV : 0 ≤ v)
    (upperV : v < 1) (leader : 0 ≤ l ∧ l ≤ 1) (gene : 0 ≤ x ∧ x ≤ 1) :
    |(2 * a * u - a) * (|2 * v * l - x|)| ≤ 2 * a := by
  calc |(2 * a * u - a) * (|2 * v * l - x|)|
      = |2 * a * u - a| * |2 * v * l - x| := by rw [abs_mul, abs_abs]
    _ ≤ a * 2 := mul_le_mul (abs_spread_le reach lowerU upperU)
        (abs_pull_le lowerV upperV leader gene) (abs_nonneg _) reach
    _ = 2 * a := mul_comm a 2

theorem reachAt_nonneg {full : K} {progress : Progress}
    (started : progress.iteration < progress.budget) (reach : 0 ≤ full) :
    0 ≤ reachAt full progress := by
  have part : (progress.iteration : K) / progress.budget ≤ 1 :=
    div_le_one_of_le₀ (Nat.cast_le.mpr started.le) (Nat.cast_nonneg _)
  exact mul_nonneg reach (sub_nonneg.mpr part)

end Moves

variable {ρ : Type} [FloorRing K] [Elementary K] {l : Layout} {n : Nat}

/-- The genes of the leaders at a place. -/
def placed (leaders : List (List (Exact K))) (place : Nat) : List (Exact K) :=
  leaders.map fun leader => leader.getD place Scalar.zero

theorem placed_inUnit {leaders : List (List (Exact K))}
    (led : ∀ leader ∈ leaders, InCube l.genes leader) {place : Nat} (below : place < l.genes) :
    ∀ x ∈ placed leaders place, InUnit x := by
  intro x member
  obtain ⟨leader, held, rfl⟩ := List.mem_map.mp member
  obtain ⟨length, inside⟩ := led leader held
  rw [List.getD_eq_getElem _ _ (Nat.lt_of_lt_of_eq below length.symm)]
  exact inside _ (List.getElem_mem _)

theorem length_placed (leaders : List (List (Exact K))) (place : Nat) :
    (placed leaders place).length = leaders.length := List.length_map _

/-- Leaders with as many genes as there are places have one at each place. -/
theorem entry_leader {leader : List (Exact K)} (led : InCube l.genes leader) {place : Nat}
    (below : place < l.genes) : entry leader place = .ok (leader.getD place Scalar.zero) := by
  have inside : place < leader.length := Nat.lt_of_lt_of_eq below led.1.symm
  rw [entry, List.getElem?_eq_getElem inside, List.getD_eq_getElem _ _ inside]

/-- A row with genes near the means of the leaders, and nothing else of it changed. -/
def Gathered (leaders : List (List (Exact K))) (distance : K) (r r' : Row (Exact K)) : Prop :=
  ∃ genes, r' = r.withTrial genes ∧ genes.length = r.trial.genes.length ∧
    ∀ (place : Nat) gene, genes[place]? = some gene →
      Near (mean (placed leaders place)) distance gene

theorem Gathered.trans {leaders : List (List (Exact K))} {distance : K} {r r' r'' : Row (Exact K)}
    (first : Gathered leaders distance r r') (second : Gathered leaders distance r' r'') :
    Gathered leaders distance r r'' := by
  obtain ⟨genes, rfl, length, _⟩ := first
  obtain ⟨genes', rfl, length', near⟩ := second
  exact ⟨genes', rfl, length'.trans length, near⟩

section Draws

variable [RandomSource ρ (Exact K)] [IsStrictOrderedRing K] (within : RandomSource.WithinUnit ρ)
  {a : K}

include within

/-- A sum of points is as far away from the sum of the leaders as all the points together. By
induction on the leaders that are left. -/
theorem addPoints_near (reach : 0 ≤ a) {gene : Exact K} (own : InUnit gene) {place : Nat}
    (below : place < l.genes) {leaders : List (List (Exact K))}
    (led : ∀ leader ∈ leaders, InCube l.genes leader) (sum : K) :
    Draw.Answers (addPoints (.finite a) gene place leaders (.finite sum) : Draw ρ _) fun x =>
      ∃ y, x = .finite y ∧
        |y - (sum + ((placed leaders place).map value).sum)| ≤ leaders.length * (2 * a) := by
  obtain ⟨g, rfl, insideG⟩ := own
  have unit : Draw.Answers (Draw.unit : Draw ρ (Exact K)) _ :=
    Draw.Answers.unit.and_yields (Draw.Yields.unit_range within)
  induction leaders generalizing sum with
  | nil =>
    refine .pure ⟨sum, rfl, ?_⟩
    simp [placed]
  | cons leader leaders ih =>
    obtain ⟨first, rest⟩ := List.forall_mem_cons.mp led
    obtain ⟨x, held, insideX⟩ := placed_inUnit led below _ List.mem_cons_self
    have lead : leader.getD place Scalar.zero = .finite x := held
    have read : ∃ g, entry leader place = .ok g ∧ g = .finite x :=
      ⟨_, entry_leader first below, lead⟩
    refine unit.bind fun spread drawn => unit.bind fun pull drawn' => ?_
    obtain ⟨_, u, rfl, lowerU, upperU⟩ := drawn
    obtain ⟨_, v, rfl, lowerV, upperV⟩ := drawn'
    refine (Draw.Answers.ofExcept read).bind fun _ same => ?_
    subst same
    rw [ofNat_eq, Nat.cast_ofNat]
    simp only [finite_mul, finite_sub, finite_add, abs_finite]
    refine (ih rest _).weaken fun z ⟨y, same, close⟩ => ⟨y, same, ?_⟩
    have move := abs_move_le reach lowerU upperU lowerV upperV insideX insideG
    have split : y - (sum + ((placed (leader :: leaders) place).map value).sum) =
        y - (sum + (x - (2 * a * u - a) * (|2 * v * x - g|)) +
            ((placed leaders place).map value).sum) -
          (2 * a * u - a) * (|2 * v * x - g|) := by
      rw [placed, List.map_cons, lead]
      simp only [List.map_cons, List.sum_cons, value, placed]
      ring
    have length : ((leader :: leaders).length : K) * (2 * a) =
        leaders.length * (2 * a) + 2 * a := by
      rw [List.length_cons, Nat.cast_succ]
      ring
    rw [split, length]
    exact (abs_sub _ _).trans (add_le_add close move)

/-- Every gene moves near the mean of the leaders at its place. By induction on the genes. -/
theorem moveGenes_near (reach : 0 ≤ a) {leaders : List (List (Exact K))}
    (led : ∀ leader ∈ leaders, InCube l.genes leader) (nonempty : leaders ≠ []) (place : Nat)
    {genes : List (Exact K)} (own : ∀ x ∈ genes, InUnit x) (room : place + genes.length ≤ l.genes) :
    Draw.Answers (moveGenes (.finite a) leaders place genes : Draw ρ _) fun moved =>
      moved.length = genes.length ∧ ∀ (j : Nat) gene, moved[j]? = some gene →
        Near (mean (placed leaders (place + j))) (2 * a) gene := by
  induction genes generalizing place with
  | nil =>
    refine .pure ⟨rfl, ?_⟩
    intro j gene held
    simp at held
  | cons gene genes ih =>
    rw [List.length_cons] at room
    obtain ⟨first, rest⟩ := List.forall_mem_cons.mp own
    have below : place < l.genes := by omega
    have inside := placed_inUnit led below
    refine (addPoints_near within reach first below led ((0 : Nat) : K)).bind fun sum summed => ?_
    obtain ⟨y, rfl, close⟩ := summed
    refine (ih (place + 1) rest (by omega)).bind fun moved ⟨same, all⟩ => .pure ⟨?_, ?_⟩
    · rw [List.length_cons, List.length_cons, same]
    · intro j gene held
      cases j with
      | zero =>
        cases held
        rw [Nat.cast_zero, zero_add] at close
        have apart : placed leaders place ≠ [] := by
          simpa [placed] using nonempty
        rw [← length_placed leaders place] at close ⊢
        exact clampUnit_near inside apart close
      | succ j =>
        rw [List.getElem?_cons_succ] at held
        have shifted : place + (j + 1) = place + 1 + j := by omega
        rw [shifted]
        exact all j gene held

/-- Every row that is listed has moved near the means of the leaders, and the other rows are as
they were. By induction on the rows that are left, whose genes stay in the unit interval. -/
theorem moveRows_gathered (reach : 0 ≤ a) {leaders : List (List (Exact K))}
    (led : ∀ leader ∈ leaders, InCube l.genes leader) (nonempty : leaders ≠ []) {rows : List Nat}
    (below : ∀ row ∈ rows, row < n) {p : Population (Exact K)} (sized : p.Sized l n)
    (unit : p.Genes InUnit fun _ => True) :
    Draw.Answers (moveRows (.finite a) leaders rows p : Draw ρ _) fun q =>
      q.Sized l n ∧ ∀ (i : Nat) r, p.rows[i]? = some r → ∃ r', q.rows[i]? = some r' ∧
        if i ∈ rows then Gathered leaders (2 * a) r r' else r' = r := by
  induction rows generalizing p with
  | nil => exact .pure ⟨sized, fun i r held => ⟨r, held, by simp⟩⟩
  | cons row rows ih =>
    have here := below row List.mem_cons_self
    have later : ∀ row ∈ rows, row < n := fun row member => below row (List.mem_cons_of_mem _ member)
    have read := sized.read_genesOf here .trial
    have length := sized.length_genesOf here .trial
    have own : ∀ x ∈ p.genesOf .trial row, InUnit x := by
      intro x member
      obtain ⟨place, held⟩ := List.mem_iff_getElem?.mp member
      exact unit.gene held
    have room : 0 + (p.genesOf .trial row).length ≤ l.genes := by omega
    rw [moveRows, read]
    refine (moveGenes_near within reach led nonempty 0 own room).bind fun moved ⟨same, near⟩ => ?_
    have inside : ∀ x ∈ moved, InUnit x := by
      intro x member
      obtain ⟨place, held⟩ := List.mem_iff_getElem?.mp member
      exact (near place x held).inUnit
    obtain ⟨p', written, sized'⟩ :=
      sized.exists_setChromosome here (same.trans length) .trial
    obtain ⟨_, _, rows'⟩ := Population.setTrial_rows written
    rw [written]
    refine (ih later sized' (unit.setTrial inside written)).weaken fun q ⟨kept, moves⟩ =>
      ⟨kept, fun i r held => ?_⟩
    have found := rows' i
    rw [held, Option.map_some] at found
    obtain ⟨r', held', after⟩ := moves i _ found
    refine ⟨r', held', ?_⟩
    by_cases first : row = i
    · subst first
      rw [if_pos rfl] at after
      rw [if_pos List.mem_cons_self]
      have genes := Population.genesOf_of_row held .trial
      have gathered : Gathered leaders (2 * a) r (r.withTrial moved) := by
        refine ⟨moved, rfl, ?_, fun place gene found => ?_⟩
        · rw [same, genes]
          rfl
        · simpa using near place gene found
      split at after
      · exact gathered.trans after
      · rw [after]
        exact gathered
    · rw [if_neg first] at after
      have apart : (i ∈ row :: rows) = (i ∈ rows) := by
        simp [Ne.symm first]
      simpa only [apart] using after

theorem vary_gathered {progress : Progress} (started : progress.iteration < progress.budget)
    {s : State (Exact K)} {full : K} (settings : s.settings.reach = .finite full) (reach : 0 ≤ full)
    (led : ∀ leader ∈ s.leaders, InCube l.genes leader) (nonempty : s.leaders ≠ [])
    {p : Population (Exact K)} (sized : p.Sized l n) (unit : p.Genes InUnit fun _ => True) :
    Draw.Answers (vary progress s p : Draw ρ _) fun x =>
      x.1 = s ∧ x.2.Sized l n ∧ ∀ (i : Nat) r, p.rows[i]? = some r →
        ∃ r', x.2.rows[i]? = some r' ∧
          Gathered s.leaders (2 * reachAt full progress) r r' := by
  have reachEq : s.settings.reach * (Scalar.one - progress.fraction) =
      .finite (reachAt full progress) := by
    have budget : (progress.budget : K) ≠ 0 := Nat.cast_ne_zero.mpr (by omega)
    have fraction : (progress.fraction : Exact K) =
        .finite (progress.iteration / progress.budget) := by
      rw [Progress.fraction, if_neg (by omega), Scalar.ratio, ofNat_eq, ofNat_eq,
        finite_div budget]
    rw [settings, fraction, one_eq, finite_sub, finite_mul, reachAt]
  have below : ∀ row ∈ List.range p.count, row < n := by
    intro row member
    exact sized.count ▸ List.mem_range.mp member
  have moved := moveRows_gathered within (reachAt_nonneg started reach) led nonempty below sized unit
  unfold vary
  rw [if_neg (by simpa using nonempty)]
  dsimp only
  rw [reachEq]
  apply moved.bind
  rintro q ⟨kept, rows⟩
  refine .pure ⟨rfl, kept, fun i r held => ?_⟩
  obtain ⟨r', held', after⟩ := rows i r held
  have inside : i ∈ List.range p.count := by
    have bound := (List.getElem?_eq_some_iff.mp held).1
    rw [List.mem_range, sized.count, ← sized.length]
    exact bound
  rw [if_pos inside] at after
  exact ⟨r', held', after⟩

/-- What a move makes of a population that follows its leaders. -/
structure Moved (l : Layout) (n : Nat) (leaders : List (List (Exact K))) (reach : K)
    (p q : Population (Exact K)) : Prop where
  sized : q.Sized l n
  /-- Every gene is near the mean of the leaders at its place, and inside the unit interval. -/
  near : ∀ row < n, ∀ place < l.genes, ∃ gene, q.gene .trial row place = some gene ∧
    Near (mean (placed leaders place)) (2 * reach) gene
  /-- Without any reach it is the mean. -/
  center : reach = 0 → ∀ row < n, ∀ place < l.genes,
    q.gene .trial row place = some (.finite (mean (placed leaders place)))
  status : ∀ row < n, ∀ region, q.status row region = p.status row region
  reward : ∀ row < n, ∀ region, q.reward row region = p.reward row region

theorem vary_moved {progress : Progress} (started : progress.iteration < progress.budget)
    {s : State (Exact K)} {full : K} (settings : s.settings.reach = .finite full) (reach : 0 ≤ full)
    (led : ∀ leader ∈ s.leaders, InCube l.genes leader) (nonempty : s.leaders ≠ [])
    {p : Population (Exact K)} (sized : p.Sized l n) (unit : p.Genes InUnit fun _ => True) :
    Draw.Answers (vary progress s p : Draw ρ _) fun x =>
      x.1 = s ∧ Moved l n s.leaders (reachAt full progress) p x.2 := by
  refine (vary_gathered within started settings reach led nonempty sized unit).weaken
    fun x ⟨same, kept, rows⟩ => ⟨same, ?_⟩
  have found (row : Nat) (below : row < n) : ∃ r r', p.rows[row]? = some r ∧
      x.2.rows[row]? = some r' ∧ Gathered s.leaders (2 * reachAt full progress) r r' := by
    obtain ⟨r, held, _⟩ := sized.exists_row below
    obtain ⟨r', held', gathered⟩ := rows row r held
    exact ⟨r, r', held, held', gathered⟩
  have near (row : Nat) (below : row < n) (place : Nat) (inside : place < l.genes) :
      ∃ gene, x.2.gene .trial row place = some gene ∧
        Near (mean (placed s.leaders place)) (2 * reachAt full progress) gene := by
    obtain ⟨gene, held⟩ := kept.exists_gene below .trial inside
    obtain ⟨r, r', _, held', genes, rfl, _, all⟩ := found row below
    exact ⟨gene, held, all place gene (Population.gene_of_withTrial held' place ▸ held)⟩
  refine ⟨kept, near, fun zero row below place inside => ?_, fun row below region => ?_,
    fun row below region => ?_⟩
  · obtain ⟨gene, held, close⟩ := near row below place inside
    rw [zero, mul_zero] at close
    rw [held, close.eq_of_zero]
  · obtain ⟨r, r', held, held', genes, rfl, _⟩ := found row below
    rw [Population.status, Population.status, sized.read_field held sized.status_inside,
      kept.read_field held' kept.status_inside, Row.status_withTrial]
  · obtain ⟨r, r', held, held', genes, rfl, _⟩ := found row below
    rw [Population.reward, Population.reward, sized.read_field held sized.rewards_inside,
      kept.read_field held' kept.rewards_inside, Row.rewards_withTrial]

end Draws

end GreyWolf
end Metaheuristic
