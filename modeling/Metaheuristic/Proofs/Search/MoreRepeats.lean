import Metaheuristic.Proofs.Search.Coverage
import Metaheuristic.Proofs.Search.Lockstep

/-! More repeats never hurt. The seeds of the first repeats do not depend on how many follow,
and a repeat of a pure model depends on nothing but its number and its seed. So a search with
more repeats evaluates all that one with fewer repeats does. -/
namespace Metaheuristic

variable {ρ α : Type}

/-- A longer list of seeds begins like a shorter one. -/
theorem take_streamSeeds [RandomSource ρ α] {m n : Nat} (fewer : m ≤ n) (s : ρ) :
    (streamSeeds n s).take m = streamSeeds m s := by
  induction m generalizing n s with
  | zero => rfl
  | succ m ih =>
    obtain ⟨k, rfl⟩ := Nat.exists_eq_succ_of_ne_zero (Nat.ne_of_gt (Nat.zero_lt_of_lt fewer))
    exact congrArg (List.cons _) (ih (Nat.le_of_succ_le_succ fewer) _)

namespace Search

variable [Scalar α] [RandomSource ρ α] {problem : Problem α} {config : Config α}

/-- The first repeats of a search, when all of them come to an outcome. -/
theorem attempts_take (count : Nat) {round passes passes' : Nat} {seeds : List UInt64}
    {outcomes : List (Except (Error α) (Outcome α))}
    (ran : attempts ρ problem config round passes seeds = .ok (outcomes, passes')) :
    ∃ last, attempts ρ problem config round passes (seeds.take count) =
      .ok (outcomes.take count, last) := by
  induction seeds generalizing round passes outcomes count with
  | nil =>
    cases ran
    exact ⟨passes', by simp [attempts]⟩
  | cons seed seeds ih =>
    obtain ⟨⟨outcome, middle⟩, begun, ran⟩ := bind_ok.mp ran
    obtain ⟨⟨rest, final⟩, later, built⟩ := bind_ok.mp ran
    cases built
    cases count with
    | zero => exact ⟨passes, rfl⟩
    | succ count =>
      obtain ⟨last, kept⟩ := ih count later
      refine ⟨last, ?_⟩
      rw [List.take_succ_cons, List.take_succ_cons, attempts]
      exact bind_ok.mpr ⟨(outcome, middle), begun, bind_ok.mpr ⟨(rest.take count, last), kept, rfl⟩⟩

/-- A fault among the first repeats ends the search. -/
theorem attempts_take_error (count : Nat) {round passes : Nat} {seeds : List UInt64}
    {fault : Fault}
    (ran : attempts ρ problem config round passes (seeds.take count) = .error fault) :
    attempts ρ problem config round passes seeds = .error fault := by
  induction seeds generalizing round passes count with
  | nil =>
    rw [List.take_nil] at ran
    exact ran
  | cons seed seeds ih =>
    cases count with
    | zero => cases ran
    | succ count =>
      rw [List.take_succ_cons, attempts] at ran
      rw [attempts]
      rcases bind_error.mp ran with first | ⟨⟨outcome, middle⟩, begun, ran⟩
      · exact bind_error.mpr (.inl first)
      · rcases bind_error.mp ran with later | ⟨_, _, built⟩
        · refine bind_error.mpr (.inr ⟨(outcome, middle), begun, ?_⟩)
          exact bind_error.mpr (.inl (ih count later))
        · cases built

omit [Scalar α] [RandomSource ρ α] in
/-- Configurations that differ in the number of repeats agree on what a repeat does. -/
theorem agrees_repeats (config : Config α) (m n : Nat) :
    Config.Agrees { config with repeats := m } { config with repeats := n } :=
  ⟨rfl, rfl, rfl, rfl, .inl rfl⟩

section Isolated

variable (pure : problem.model.Pure)

include pure

/-- The outcome of a repeat is a matter of its number and its seed, whatever was begun
before it. -/
theorem attempts_isolated {round passes passes' : Nat} {seeds : List UInt64}
    {outcomes : List (Except (Error α) (Outcome α))}
    (ran : attempts ρ problem config round passes seeds = .ok (outcomes, passes')) (j : Nat)
    (seed : UInt64) (place : seeds[j]? = some seed) :
    ∃ outcome, outcomes[j]? = some outcome ∧ ∀ before, ∃ after,
      attempt problem config (round + j) before (RandomSource.ofSeed seed : ρ) =
        .ok (outcome, after) := by
  obtain ⟨outcome, before', after', here, attempted⟩ := attempts_at ran j seed place
  refine ⟨outcome, here, fun before => ?_⟩
  have same := attempt_lockstep pure (agrees_repeats config config.repeats config.repeats) rfl
    (round + j) before' before (RandomSource.ofSeed seed : ρ)
  rw [attempted] at same
  obtain ⟨⟨outcome', after⟩, again, rfl⟩ := map_ok.mp same
  exact ⟨after, again⟩

/-- What fewer repeats come to, more repeats come to first. -/
theorem attempts_fewer (config : Config α) {m n : Nat} (fewer : m ≤ n) (seed : UInt64) :
    (∀ outcomes passes,
      attempts ρ problem { config with repeats := n } 0 0
        (streamSeeds n (RandomSource.ofSeed seed : ρ)) = .ok (outcomes, passes) →
      ∃ last, attempts ρ problem { config with repeats := m } 0 0
        (streamSeeds m (RandomSource.ofSeed seed : ρ)) = .ok (outcomes.take m, last)) ∧
    ∀ fault, attempts ρ problem { config with repeats := m } 0 0
        (streamSeeds m (RandomSource.ofSeed seed : ρ)) = .error fault →
      attempts ρ problem { config with repeats := n } 0 0
        (streamSeeds n (RandomSource.ofSeed seed : ρ)) = .error fault := by
  have same := attempts_lockstep (ρ := ρ) pure (agrees_repeats config m n) rfl 0 0 0
    (streamSeeds m (RandomSource.ofSeed seed : ρ))
  rw [← take_streamSeeds fewer] at same ⊢
  constructor
  · intro outcomes passes ran
    obtain ⟨last, taken⟩ := attempts_take m ran
    rw [taken] at same
    obtain ⟨⟨first, final⟩, begun, rfl⟩ := map_ok.mp same.symm
    exact ⟨final, begun⟩
  · intro fault ran
    rw [ran] at same
    refine attempts_take_error m ?_
    cases taken : attempts ρ problem { config with repeats := n } 0 0
        ((streamSeeds n (RandomSource.ofSeed seed : ρ)).take m) with
    | error fault' =>
      rw [taken] at same
      cases same
      rfl
    | ok pair =>
      rw [taken] at same
      cases same

end Isolated

/-- More repeats never hurt. For a pure model and a seed, the first outcomes of a search are
those of the search with fewer repeats: each of them, success or error, is a matter of the
number and the seed of its repeat alone. Where a repeat ends the shorter search with a fault
it ends the longer one too.

So when both searches succeed, the longer one reports nothing worse. With one objective its
best reward is not worse; with several, and an archive without bound, every candidate of the
shorter search has the same rewards as one of the longer search or is dominated by one. -/
theorem more_repeats_never_hurt [Scalar.LawfulOrder α] {model : Model α} {seed : UInt64}
    {m n : Nat} (pure : model.Pure)
    (made : Problem.make model config.penaltyCoefficient = .ok problem)
    (seeded : config.seed = some seed) (fewer : m ≤ n) :
    (∀ outcomes passes,
      attempts ρ problem { config with repeats := n } 0 0
        (streamSeeds n (RandomSource.ofSeed seed : ρ)) = .ok (outcomes, passes) →
      (∃ last, attempts ρ problem { config with repeats := m } 0 0
        (streamSeeds m (RandomSource.ofSeed seed : ρ)) = .ok (outcomes.take m, last)) ∧
      ∀ (j : Nat) own, (streamSeeds n (RandomSource.ofSeed seed : ρ))[j]? = some own →
        ∃ outcome, outcomes[j]? = some outcome ∧ ∀ before, ∃ after,
          attempt problem { config with repeats := n } j before (RandomSource.ofSeed own : ρ) =
            .ok (outcome, after)) ∧
    (∀ fault, attempts ρ problem { config with repeats := m } 0 0
        (streamSeeds m (RandomSource.ofSeed seed : ρ)) = .error fault →
      attempts ρ problem { config with repeats := n } 0 0
        (streamSeeds n (RandomSource.ofSeed seed : ρ)) = .error fault) ∧
    ∀ fallback fallback' result result',
      run ρ { config with repeats := m } fallback model = .ok result →
      run ρ { config with repeats := n } fallback' model = .ok result' →
      (∀ d, problem.directions = [d] → ∃ c c' x x',
        result.candidates = [c] ∧ result'.candidates = [c'] ∧ c.reward = [x] ∧
        c'.reward = [x'] ∧ Scalar.isNaN x' = false ∧ d.isBetter x x' = false) ∧
      (1 < problem.directions.length → config.archiveCapacity = none →
        ∀ c ∈ result.candidates, ∃ c' ∈ result'.candidates,
          Scalar.sameList c'.reward c.reward = true ∨
            dominates problem.directions c'.reward c.reward = true) := by
  have issued : problem.model.Pure := by
    rw [(Problem.make_ok made).2.1]
    exact pure
  obtain ⟨kept, faulted⟩ := attempts_fewer (ρ := ρ) issued config fewer seed
  refine ⟨fun outcomes passes ran => ⟨kept outcomes passes ran, fun j own place => ?_⟩, faulted, ?_⟩
  · have isolated := attempts_isolated issued ran j own place
    rw [Nat.zero_add] at isolated
    exact isolated
  · intro fallback fallback' result result' ran ran'
    have conclusion {count : Nat} {fallback : UInt64} {result : Result α}
        (ran : run ρ { config with repeats := count } fallback model = .ok result) :
        ∃ outcomes summary,
          Concluded ρ problem { config with repeats := count } seed outcomes summary result := by
      have same : config.seed.getD fallback = seed := by
        rw [seeded]
        rfl
      rw [← same]
      exact concluded_of_run made ran
    obtain ⟨outcomes, summary, few⟩ := conclusion ran
    obtain ⟨outcomes', summary', many⟩ := conclusion ran'
    have covers : ∀ a ∈ evaluated outcomes, a ∈ evaluated outcomes' := by
      obtain ⟨passes, attempted, _⟩ := few.attempted
      obtain ⟨passes', attempted', _⟩ := many.attempted
      obtain ⟨last, taken⟩ := kept outcomes' passes' attempted'
      dsimp only at attempted
      rw [attempted] at taken
      cases taken
      intro a member
      obtain ⟨o, inside, logged⟩ := mem_evaluated.mp member
      exact mem_evaluated.mpr ⟨o, List.mem_of_mem_take inside, logged⟩
    exact ⟨fun d objective => best_not_worse few many covers objective, fun several unbounded =>
      candidates_not_worse few many covers several unbounded unbounded⟩

/-- The best of one tabu search and the best of two. -/
theorem more_repeats_never_hurt_budget :
    Schema.budget.model.Pure ∧
    Problem.make Schema.budget.model budgetSearch.penaltyCoefficient = .ok budgetProblem ∧
    budgetSearch.seed = some 7 ∧ 1 ≤ 2 ∧
    ∃ result result',
      run (Generator Float) { budgetSearch with repeats := 1 } 0 Schema.budget.model =
        .ok result ∧
      run (Generator Float) budgetSearch 0 Schema.budget.model = .ok result' ∧
      ∃ c c' x x', result.candidates = [c] ∧ result'.candidates = [c'] ∧ c.reward = [x] ∧
        c'.reward = [x'] ∧ Direction.maximize.isBetter x x' = false := by
  have pure : Schema.budget.model.Pure :=
    Script.pure_model fun line member => (Schema.budget_rowwise line member).1
  have once : ∃ result, run (Generator Float) { budgetSearch with repeats := 1 } 0
      Schema.budget.model = .ok result := by
    refine exists_ok ?_
    have made : Problem.make Schema.budget.model
        ({ budgetSearch with repeats := 1 } : Config Float).penaltyCoefficient =
          .ok budgetProblem := budget_made
    rw [run, made]
    decide +kernel
  obtain ⟨result, ran⟩ := once
  obtain ⟨result', ran'⟩ := budget_runs
  obtain ⟨_, _, better⟩ := more_repeats_never_hurt (ρ := Generator Float) (m := 1) (n := 2) pure
    budget_made rfl (by decide)
  obtain ⟨single, _⟩ := better 0 0 result result' ran ran'
  obtain ⟨c, c', x, x', only, only', one, one', _, kept⟩ := single .maximize rfl
  exact ⟨pure, budget_made, rfl, by decide, result, result', ran, ran', c, c', x, x', only, only',
    one, one', kept⟩

end Search
end Metaheuristic
