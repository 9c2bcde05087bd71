import Metaheuristic.Proofs.Strategy.Answers

/-! Strategies keep their settings. Settling and varying count, remember and forget, but the
algorithm that a strategy carries out stays the one it started with. And with most settings
the budget of iterations has no part in what a strategy does. -/
namespace Metaheuristic

variable {ρ α : Type} [Scalar α] [RandomSource ρ α] {p : Population α}

namespace Genetic

theorem settle_settings (directions : List Direction) (s : State α) :
    Draw.Yields (settle directions s p : Draw ρ _) fun x => x.1.settings = s.settings := by
  refine Draw.Yields.anything.bind fun sorted _ => Draw.Yields.anything.bind fun fraction _ =>
    Draw.Yields.anything.bind fun order _ => Draw.Yields.anything.bind fun reordered _ => ?_
  exact .pure rfl

private theorem varyRows_settings (parents : Population α) (rows : List Nat) (s : State α) :
    Draw.Yields (varyRows parents rows s p : Draw ρ _) fun x => x.1.settings = s.settings := by
  induction rows generalizing s p with
  | nil => exact .pure rfl
  | cons row rows ih =>
    refine Draw.Yields.anything.bind fun mate _ => Draw.Yields.anything.bind fun others _ =>
      Draw.Yields.anything.bind fun own _ => Draw.Yields.anything.bind fun drawn _ =>
        Draw.Yields.anything.bind fun q _ => ?_
    exact ih _

theorem vary_settings (s : State α) :
    Draw.Yields (vary s p : Draw ρ _) fun x => x.1.settings = s.settings := by
  refine (varyRows_settings p _ s).bind fun x same => Draw.Yields.anything.bind fun q _ => ?_
  exact .pure same

end Genetic

namespace Differential

private theorem settleRows_settings {directions : List Direction} {rows : List Nat} {s : State α}
    {x : State α × Population α} (ran : settleRows directions rows s p = .ok x) :
    x.1.settings = s.settings := by
  induction rows generalizing s p with
  | nil =>
    cases ran
    rfl
  | cons row rows ih =>
    obtain ⟨trial, _, ran⟩ := bind_ok.mp ran
    obtain ⟨incumbent, _, ran⟩ := bind_ok.mp ran
    obtain ⟨better, _, ran⟩ := bind_ok.mp ran
    cases better with
    | true =>
      obtain ⟨q, _, ran⟩ := bind_ok.mp ran
      have same := ih ran
      exact same
    | false =>
      have same := ih ran
      exact same

theorem settle_settings {directions : List Direction} {s : State α}
    {x : State α × Population α} (ran : settle directions s p = .ok x) :
    x.1.settings = s.settings :=
  settleRows_settings ran

theorem vary_settings (s : State α) :
    Draw.Yields (vary s p : Draw ρ _) fun x => x.1.settings = s.settings := by
  refine Draw.Yields.anything.bind fun q _ => Draw.Yields.anything.bind fun q' _ => ?_
  exact .pure rfl

end Differential

namespace Annealing

theorem settle_settings (directions : List Direction) (progress : Progress) (s : State α) :
    Draw.Yields (settle directions progress s p : Draw ρ _)
      fun x => x.1.settings = s.settings :=
  (settle_verdict .anything directions progress s p).weaken
    fun _ ⟨_, _, _, _, _, _, verdict⟩ => verdict.settings

theorem vary_settings (s : State α) :
    Draw.Yields (vary s p : Draw ρ _) fun x => x.1.settings = s.settings :=
  Draw.Yields.anything.bind fun _ _ => .pure rfl

end Annealing

namespace Tabu

theorem settle_settings {directions : List Direction} {progress : Progress} {s : State α}
    {x : State α × Population α} (ran : settle directions progress s p = .ok x) :
    x.1.settings = s.settings := by
  obtain ⟨_, _, _, _, _, _, verdict⟩ := settle_verdict ran
  exact verdict.settings

theorem vary_settings (s : State α) :
    Draw.Yields (vary s p : Draw ρ _) fun x => x.1.settings = s.settings :=
  Draw.Yields.anything.bind fun _ _ => .pure rfl

end Tabu

namespace GreyWolf

theorem settle_settings {directions : List Direction} {s : State α}
    {x : State α × Population α} (ran : settle directions s p = .ok x) :
    x.1.settings = s.settings := by
  obtain ⟨q, _, ran⟩ := bind_ok.mp ran
  obtain ⟨first, _, ran⟩ := bind_ok.mp ran
  obtain ⟨second, _, ran⟩ := bind_ok.mp ran
  obtain ⟨third, _, ran⟩ := bind_ok.mp ran
  cases ran
  rfl

theorem vary_settings (progress : Progress) (s : State α) :
    Draw.Yields (vary progress s p : Draw ρ _) fun x => x.1.settings = s.settings := by
  unfold vary
  split
  · exact .pure rfl
  · exact Draw.Yields.anything.bind fun _ _ => .pure rfl

end GreyWolf

namespace Strategy

theorem settle_algorithm (directions : List Direction) (progress : Progress) (s : Strategy α) :
    Draw.Yields (s.settle directions progress p : Draw ρ _)
      fun x => x.1.algorithm = s.algorithm := by
  cases s with
  | genetic s =>
    exact (Genetic.settle_settings directions s).bind
      fun x same => .pure (congrArg Algorithm.genetic same)
  | differential s =>
    exact (Draw.Yields.ofExcept fun x ran => Differential.settle_settings ran).bind
      fun x same => .pure (congrArg Algorithm.differential same)
  | annealing s =>
    exact (Annealing.settle_settings directions progress s).bind
      fun x same => .pure (congrArg Algorithm.annealing same)
  | tabu s =>
    exact (Draw.Yields.ofExcept fun x ran => Tabu.settle_settings ran).bind
      fun x same => .pure (congrArg Algorithm.tabu same)
  | greyWolf s =>
    exact (Draw.Yields.ofExcept fun x ran => GreyWolf.settle_settings ran).bind
      fun x same => .pure (congrArg Algorithm.greyWolf same)

theorem vary_algorithm (progress : Progress) (s : Strategy α) :
    Draw.Yields (s.vary progress p : Draw ρ _) fun x => x.1.algorithm = s.algorithm := by
  cases s with
  | genetic s =>
    exact (Genetic.vary_settings s).bind
      fun x same => .pure (congrArg Algorithm.genetic same)
  | differential s =>
    exact (Differential.vary_settings s).bind
      fun x same => .pure (congrArg Algorithm.differential same)
  | annealing s =>
    exact (Annealing.vary_settings s).bind
      fun x same => .pure (congrArg Algorithm.annealing same)
  | tabu s =>
    exact (Tabu.vary_settings s).bind
      fun x same => .pure (congrArg Algorithm.tabu same)
  | greyWolf s =>
    exact (GreyWolf.vary_settings progress s).bind
      fun x same => .pure (congrArg Algorithm.greyWolf same)

end Strategy

/-- The algorithms that do not look at the budget: all but the grey wolves and an annealing
that cools down to zero. -/
def Algorithm.BudgetFree : Algorithm α → Prop
  | genetic _ | differential _ | tabu _ => True
  | annealing s => ∃ factor, s.cooling = .geometric factor
  | greyWolf _ => False

namespace Strategy

variable {s : Strategy α}

theorem settle_budget (free : s.algorithm.BudgetFree) (directions : List Direction)
    (iteration budget budget' : Nat) :
    (s.settle directions ⟨iteration, budget⟩ p : Draw ρ _) =
      s.settle directions ⟨iteration, budget'⟩ p := by
  cases s with
  | genetic s => rfl
  | differential s => rfl
  | annealing s =>
    obtain ⟨factor, geometric⟩ := free
    have cooled : s.settings.cooling.temperature s.settings.maxTemperature ⟨iteration, budget⟩ =
        s.settings.cooling.temperature s.settings.maxTemperature ⟨iteration, budget'⟩ := by
      rw [geometric]
      rfl
    have settled : (Annealing.settle directions ⟨iteration, budget⟩ s p : Draw ρ _) =
        Annealing.settle directions ⟨iteration, budget'⟩ s p := by
      unfold Annealing.settle
      rw [cooled]
    rw [settle, settle, settled]
  | tabu s => rfl
  | greyWolf s => cases free

theorem vary_budget (free : s.algorithm.BudgetFree) (iteration budget budget' : Nat) :
    (s.vary ⟨iteration, budget⟩ p : Draw ρ _) = s.vary ⟨iteration, budget'⟩ p := by
  cases s with
  | genetic s => rfl
  | differential s => rfl
  | annealing s => rfl
  | tabu s => rfl
  | greyWolf s => cases free

end Strategy
end Metaheuristic
