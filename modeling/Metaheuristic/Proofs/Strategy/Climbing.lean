import Metaheuristic.Proofs.Population.Standing
import Metaheuristic.Proofs.Quality.Dominance
import Metaheuristic.Proofs.Search.Statistics
import Metaheuristic.Proofs.Strategy.Settings
import Metaheuristic.Random.Generator

/-! Greedy strategies. Differential evolution, annealing without a temperature and tabu search
without its memory only move to agents that are no worse in the first objective, a tabu search
after its first decision. -/
namespace Metaheuristic

variable {ρ α : Type} [Scalar α] {l : Layout} {n : Nat} {p : Population α}
  {d : Direction} {directions : List Direction}

open Population (Sized)

/-- The algorithms that never give up what is better in the first objective. -/
def Algorithm.Greedy : Algorithm α → Prop
  | differential _ => True
  | tabu s => s.strict = false
  | annealing s => (s.maxTemperature == Scalar.zero) = true
  | genetic _ | greyWolf _ => False

instance (a : Algorithm α) : Decidable a.Greedy :=
  match a with
  | .differential _ => inferInstanceAs (Decidable True)
  | .tabu s => inferInstanceAs (Decidable (s.strict = false))
  | .annealing s => inferInstanceAs (Decidable ((s.maxTemperature == Scalar.zero) = true))
  | .genetic _ | .greyWolf _ => inferInstanceAs (Decidable False)

theorem Algorithm.Greedy.twoPhase {a : Algorithm α} (greedy : a.Greedy) : a.twoPhase = true := by
  cases a with
  | genetic s | greyWolf s => exact greedy.elim
  | differential s | annealing s | tabu s => rfl

/-- The trial of a row is no worse than what the row has settled on. -/
def Row.NotWorse (d : Direction) (r : Row α) : Prop :=
  d.isBetter r.standing r.trial.leading = false

section Draws

variable [RandomSource ρ α]

/-- A source that draws no negative number from the unit interval. -/
def RandomSource.NonNegative (ρ : Type) [RandomSource ρ α] : Prop :=
  ∀ s : ρ, Scalar.lt (RandomSource.unit s).1 (Scalar.zero : α) = false

omit [RandomSource ρ α] in
/-- The word stream is such a source. -/
theorem Generator.nonNegative [Scalar.LawfulEnds α] :
    RandomSource.NonNegative (Generator α) := by
  intro g
  refine Scalar.LawfulEnds.not_ratio_lt_zero ?_ (by decide)
  exact (UInt64.toNat_lt _).trans_eq (by decide)

theorem Draw.Yields.unit_nonNegative (draws : RandomSource.NonNegative ρ) :
    Yields (Draw.unit : Draw ρ α) fun u => Scalar.lt u Scalar.zero = false := by
  intro s u s' _ ran
  cases ran
  exact draws s

end Draws

namespace Differential

variable [Scalar.LawfulOrder α]

/-- A trial that replaces its incumbent is nowhere worse, be it better or dominating. -/
theorem noWorse_of_improves {trial incumbent : List α}
    (left : trial.length = directions.length) (right : incumbent.length = directions.length)
    (improved : improves directions trial incumbent = .ok true) :
    NoWorse directions trial incumbent := by
  unfold improves at improved
  split at improved
  · rename_i d
    obtain ⟨x, rfl⟩ := List.length_eq_one_iff.mp left
    obtain ⟨y, rfl⟩ := List.length_eq_one_iff.mp right
    exact ⟨Direction.isBetter_asymm (Except.ok.inj improved), trivial⟩
  · exact (dominates_iff.mp (Except.ok.inj improved)).1

theorem not_worse_of_improves {trial incumbent : List α} (first : directions.head? = some d)
    (left : trial.length = directions.length) (right : incumbent.length = directions.length)
    (improved : improves directions trial incumbent = .ok true) :
    d.isBetter (incumbent.headD Scalar.notANumber) (trial.headD Scalar.notANumber) = false := by
  have noWorse := noWorse_of_improves left right improved
  obtain ⟨ds, rfl⟩ := List.head?_eq_some_iff.mp first
  obtain ⟨x, xs, rfl⟩ := List.exists_cons_of_length_eq_add_one left
  obtain ⟨y, ys, rfl⟩ := List.exists_cons_of_length_eq_add_one right
  exact noWorse.1

theorem settleRows_climbs (first : directions.head? = some d)
    (objectives : l.objectives = directions.length) (phases : l.twoPhase = true)
    {rows : List Nat} {s : State α} {x : State α × Population α} (sized : p.Sized l n)
    (ran : settleRows directions rows s p = .ok x) : p.Moves (Row.NotWorse d) x.2 := by
  induction rows generalizing s p with
  | nil =>
    cases ran
    exact .refl _ _
  | cons row rows ih =>
    obtain ⟨trial, readTrial, ran⟩ := bind_ok.mp ran
    obtain ⟨incumbent, readIncumbent, ran⟩ := bind_ok.mp ran
    obtain ⟨better, improved, ran⟩ := bind_ok.mp ran
    cases better with
    | true =>
      obtain ⟨q, promoted, ran⟩ := bind_ok.mp ran
      refine (Population.Moves.promote (fun r held => ?_) promoted).trans
        (ih (sized.promote promoted) ran)
      have rowSized := sized.rows row r held
      have below : row < n := sized.length ▸ (List.getElem?_eq_some_iff.mp held).1
      obtain ⟨_, held', rfl⟩ := Population.field_ok sized below readTrial
      obtain ⟨_, held'', rfl⟩ := Population.field_ok sized below readIncumbent
      rw [held] at held' held''
      cases held'
      cases held''
      rw [Row.NotWorse, rowSized.standing phases]
      exact not_worse_of_improves first ((rowSized.block .trial).rewards.trans objectives)
        ((rowSized.block .incumbent).rewards.trans objectives) improved
    | false => exact ih sized ran

omit [Scalar.LawfulOrder α] in
theorem vary_incumbents [RandomSource ρ α] (s : State α) (p : Population α) :
    Draw.Yields (vary s p : Draw ρ _) fun x => x.2.incumbents = p.incumbents := by
  have rows (rows : List Nat) (p : Population α) :
      Draw.Yields (varyRows s.settings rows p : Draw ρ (Population α))
        fun q => q.incumbents = p.incumbents := by
    induction rows generalizing p with
    | nil => exact .pure rfl
    | cons row rows ih =>
      refine Draw.Yields.anything.bind fun picks _ => ?_
      split
      · refine Draw.Yields.anything.bind fun forced _ => Draw.Yields.anything.bind fun base _ =>
          Draw.Yields.anything.bind fun a _ => Draw.Yields.anything.bind fun b _ =>
            Draw.Yields.anything.bind fun current _ => Draw.Yields.anything.bind fun genes _ =>
              (Draw.Yields.ofExcept fun q written =>
                Population.incumbents_setChromosome written).bind fun q same => ?_
        exact (ih q).weaken fun _ kept => kept.trans same
      · exact .throw _
  exact (rows _ p).bind fun q same => (Draw.Yields.ofExcept fun q' clipped =>
    Population.incumbents_clip clipped).bind fun q' kept => .pure (kept.trans same)

end Differential

namespace Annealing

variable [Scalar.LawfulOrder α] [Scalar.LawfulEnds α]

/-- Without a temperature to start with there never is one. -/
theorem temperature_not_positive {highest : α} (cold : (highest == Scalar.zero) = true)
    (c : Cooling α) (progress : Progress) :
    Scalar.lt Scalar.zero (c.temperature highest progress) = false := by
  cases c with
  | linear =>
    rw [Cooling.temperature]
    split
    · exact Scalar.LawfulOrder.lt_irrefl Scalar.zero
    · exact Scalar.LawfulEnds.not_zero_lt_mul_right _ cold
  | geometric factor => exact Scalar.LawfulEnds.not_zero_lt_mul_left _ cold

omit [Scalar.LawfulOrder α] [Scalar.LawfulEnds α] in
/-- What is accepted by chance is accepted at a temperature and lies at a finite distance. -/
theorem of_lucky {u temperature candidate current : α} (drawn : Scalar.lt u Scalar.zero = false)
    (lucky : Scalar.lt u (acceptance temperature candidate current) = true) :
    Scalar.lt Scalar.zero temperature = true ∧
      Scalar.isFinite (Scalar.abs (candidate - current)) = true := by
  unfold acceptance at lucky
  dsimp only at lucky
  split at lucky
  · rename_i warm
    exact Bool.and_eq_true_iff.mp warm
  · rw [drawn] at lucky
    contradiction

theorem settle_climbs [RandomSource ρ α] (draws : RandomSource.NonNegative ρ)
    (first : directions.head? = some d) (phases : l.twoPhase = true) (progress : Progress)
    {s : State α} (cold : (s.settings.maxTemperature == Scalar.zero) = true)
    (sized : p.Sized l n) :
    Draw.Yields (settle directions progress s p : Draw ρ _)
      fun x => p.Moves (fun r => 0 < progress.iteration → r.NotWorse d) x.2 := by
  refine (settle_verdict (.unit_nonNegative draws) directions progress s p).weaken ?_
  rintro x ⟨_, candidate, current, first', readTrial, readIncumbent, verdict⟩
  cases first.symm.trans first'
  cases verdict with
  | better wins promoted =>
    refine .promote (fun r held _ => ?_) promoted
    rw [Row.NotWorse, (sized.rows 0 r held).standing phases,
      ← Population.rewardAt_ok held readIncumbent]
    rcases wins with worst | better
    · exact Direction.not_isBetter_of_eq_worst worst _
    · rw [Population.rewardAt_ok held readTrial] at better
      exact Direction.isBetter_asymm better
  | chance _ _ drawn lucky =>
    have warm := (of_lucky drawn lucky).1
    rw [temperature_not_positive cold] at warm
    contradiction
  | reject => exact .refl _ _

end Annealing

namespace Tabu

variable [Scalar.LawfulOrder α]

/-- The first candidate is moved to in any case, and later ones have to be better. -/
theorem settle_climbs (first : directions.head? = some d) (phases : l.twoPhase = true)
    {progress : Progress} {s : State α} {x : State α × Population α}
    (lenient : s.settings.strict = false) (sized : p.Sized l n)
    (ran : settle directions progress s p = .ok x) :
    p.Moves (fun r => 0 < progress.iteration → r.NotWorse d) x.2 := by
  obtain ⟨_, reward, _, first', readTrial, _, verdict⟩ := settle_verdict ran
  cases first.symm.trans first'
  cases verdict with
  | enter allowed promoted =>
    have start : progress.iteration = 0 := allowed.resolve_right fun strict => by
      simp [lenient] at strict
    exact .promote (fun r _ later => absurd start (Nat.ne_of_gt later)) promoted
  | climb _ _ readIncumbent better promoted =>
    refine .promote (fun r held _ => ?_) promoted
    rw [Row.NotWorse, (sized.rows 0 r held).standing phases,
      ← Population.rewardAt_ok held readIncumbent]
    rw [Population.rewardAt_ok held readTrial] at better
    exact Direction.isBetter_asymm better
  | stay => exact .refl _ _
  | aspire strict | refuse _ strict => simp [lenient] at strict

end Tabu

namespace Strategy

/-- After the first iteration greedy strategies move only to what is no worse. -/
theorem settle_climbs [RandomSource ρ α] [Scalar.LawfulOrder α] [Scalar.LawfulEnds α]
    (draws : RandomSource.NonNegative ρ) (first : directions.head? = some d)
    (objectives : l.objectives = directions.length) (phases : l.twoPhase = true)
    (progress : Progress) {s : Strategy α} (greedy : s.algorithm.Greedy) (sized : p.Sized l n) :
    Draw.Yields (s.settle directions progress p : Draw ρ _)
      fun x => p.Moves (fun r => 0 < progress.iteration → r.NotWorse d) x.2 := by
  cases s with
  | genetic s | greyWolf s => exact greedy.elim
  | differential s =>
    refine (Draw.Yields.ofExcept fun x ran => Differential.settleRows_climbs first objectives
      phases sized ran).bind fun x moved => .pure ?_
    exact moved.weaken fun r notWorse _ => notWorse
  | annealing s =>
    exact (Annealing.settle_climbs draws first phases progress greedy sized).bind
      fun x moved => .pure moved
  | tabu s =>
    exact (Draw.Yields.ofExcept fun x ran => Tabu.settle_climbs first phases greedy sized ran).bind
      fun x moved => .pure moved

/-- New trials change nothing about what the rows have settled on. -/
theorem vary_incumbents [RandomSource ρ α] (progress : Progress) {s : Strategy α}
    (phases : s.algorithm.twoPhase = true) (p : Population α) :
    Draw.Yields (s.vary progress p : Draw ρ _) fun x => x.2.incumbents = p.incumbents := by
  cases s with
  | genetic s | greyWolf s => cases phases
  | differential s =>
    exact (Differential.vary_incumbents s p).bind fun x same => .pure same
  | annealing s | tabu s =>
    refine (Draw.Yields.bind (Population.incumbents_walkRows _ p) fun q same => ?_).bind
      fun x same => .pure same
    exact .pure same

end Strategy
end Metaheuristic
