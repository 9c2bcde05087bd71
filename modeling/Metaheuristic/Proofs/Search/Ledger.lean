import Metaheuristic.Proofs.Quality.Record
import Metaheuristic.Proofs.Search.Run
import Metaheuristic.Search.Basic

/-! The ledger of a run tells the truth. Every agent in it carries the scores that
its chromosome was given in some pass of the model, and the record is what comes
of offering all of them in order. Repeats hand both over to the search. -/
namespace Metaheuristic

variable {ρ α : Type} [Scalar α]

/-- An agent that was evaluated: its chromosome was a row of a pass, and its status
and rewards are the scores of that row. -/
def Problem.Assessed (problem : Problem α) (a : Agent α) : Prop :=
  ∃ (passes : Nat) (view : View α) (e : Evaluation α) (i : Nat),
    (problem.schema.evaluate (problem.model passes) view).1 = .ok e ∧
    view.genes = problem.schema.genes ∧ (∀ row ∈ view.rows, row.length = view.genes) ∧
    view.rows[i]? = some a.chromosome ∧ problem.scoring.Scores e i a.status a.reward

namespace Problem

variable {problem : Problem α} {a : Agent α}

theorem Assessed.genes (assessed : problem.Assessed a) :
    a.chromosome.length = problem.schema.genes := by
  obtain ⟨_, view, _, i, _, genes, uniform, place, _⟩ := assessed
  exact (uniform _ (List.mem_of_getElem? place)).trans genes

theorem Assessed.rewards (assessed : problem.Assessed a) :
    a.reward.length = problem.directions.length := by
  obtain ⟨_, _, _, _, _, _, _, _, _, _, _, length, _⟩ := assessed
  exact length

end Problem

namespace Record

theorem observeAll_append {r r' r'' : Record α} {s t : List (Agent α)}
    (first : r.observeAll s = .ok r') (second : r'.observeAll t = .ok r'') :
    r.observeAll (s ++ t) = .ok r'' := by
  unfold observeAll at *
  rw [List.foldlM_append, first]
  exact second

end Record

/-- A log of assessed agents together with what a record makes of it. -/
structure Problem.Told (problem : Problem α) (config : Config α) (log : List (Agent α))
    (record : Record α) : Prop where
  assessed : ∀ a ∈ log, problem.Assessed a
  recorded : (Record.empty problem.directions config.archiveCapacity).observeAll log = .ok record

namespace Run

/-- A run whose rows are sized and whose ledger tells the truth. -/
structure Sound (problem : Problem α) (config : Config α) (run : Run ρ α) : Prop where
  sized : run.population.Sized (problem.layout config.algorithm) config.agents
  told : problem.Told config run.ledger.log run.ledger.record

variable {problem : Problem α} {config : Config α} {round : Nat} {progress : Progress}

theorem log_enter {ledger ledger' : Ledger α} {agents : List (Agent α)} {latest : List α}
    (ran : ledger.enter agents latest = .ok ledger') :
    ledger'.log = ledger.log ++ agents ∧ ledger.record.observeAll agents = .ok ledger'.record := by
  obtain ⟨record, observed, built⟩ := bind_ok.mp ran
  cases built
  refine ⟨?_, observed⟩
  simp [Ledger.log]

/-- An evaluation adds an assessed agent for each row. -/
theorem evaluate_sound {before : List (Agent α)} :
    Ensures (fun run : Run ρ α => Sound problem config run ∧ run.ledger.log = before)
      (evaluate problem round progress) fun _ run => Sound problem config run ∧
        ∃ agents, agents.length = config.agents ∧ run.ledger.log = before ++ agents := by
  intro run _ run' good ran
  obtain ⟨⟨sized, told⟩, rfl⟩ := good
  obtain ⟨view, e, population, latest, agents, ledger, viewed, evaluated, assigned, _, copied,
    entered, rfl⟩ := evaluate_ok ran
  obtain ⟨length, scored⟩ := Scoring.assign_agents sized rfl viewed assigned copied
  obtain ⟨log, observed⟩ := log_enter entered
  obtain ⟨genes, count, rows⟩ := Population.view_ok sized viewed
  have uniform : ∀ row ∈ view.rows, row.length = view.genes := by
    intro row member
    obtain ⟨i, place⟩ := List.mem_iff_getElem?.mp member
    have below : i < config.agents := by
      rw [← count]
      exact (List.getElem?_eq_some_iff.mp place).1
    obtain ⟨r, held, same⟩ := rows i below
    rw [place] at same
    cases same
    rw [genes]
    exact ((sized.rows i r held).block .trial).genes
  refine ⟨⟨(Scoring.assign_written sized rfl assigned).sized, ?_, ?_⟩, agents, length, log⟩
  · intro a member
    rw [log] at member
    rcases List.mem_append.mp member with earlier | new
    · exact told.assessed a earlier
    · obtain ⟨i, place⟩ := List.mem_iff_getElem?.mp new
      obtain ⟨row, scores⟩ := scored i a place
      exact ⟨run.ledger.passes, view, e, i, evaluated, genes, uniform, row, scores⟩
  · rw [log]
    exact Record.observeAll_append told.recorded observed

variable [RandomSource ρ α]

theorem settle_sound {log : List (Agent α)} :
    Ensures (fun run : Run ρ α => Sound problem config run ∧ run.ledger.log = log)
      (settle problem progress) fun _ run => Sound problem config run ∧ run.ledger.log = log := by
  intro run _ run' good ran
  obtain ⟨⟨sized, told⟩, rfl⟩ := good
  obtain ⟨strategy, population, random, drawn, rfl⟩ := settle_ok ran
  have kept : Draw.Yields
      (run.strategy.settle problem.directions progress run.population : Draw ρ _) _ :=
    Strategy.settle_sized problem.directions progress run.strategy sized
  exact ⟨⟨kept run.random _ random trivial drawn, told⟩, rfl⟩

theorem vary_sound {log : List (Agent α)} :
    Ensures (fun run : Run ρ α => Sound problem config run ∧ run.ledger.log = log)
      (vary progress) fun _ run => Sound problem config run ∧ run.ledger.log = log := by
  intro run _ run' good ran
  obtain ⟨⟨sized, told⟩, rfl⟩ := good
  obtain ⟨strategy, population, random, drawn, rfl⟩ := vary_ok ran
  have kept : Draw.Yields (run.strategy.vary progress run.population : Draw ρ _) _ :=
    Strategy.vary_sized progress run.strategy sized
  exact ⟨⟨kept run.random _ random trivial drawn, told⟩, rfl⟩

theorem sound_phases (agents : 0 < config.agents) :
    Phases (ρ := ρ) problem config round (fun _ run => Sound problem config run)
      (fun _ run => Sound problem config run ∧ run.ledger.log ≠ [])
      fun _ run => Sound problem config run ∧ run.ledger.log ≠ [] where
  evaluate := by
    intro i run b run' sound ran
    obtain ⟨sound', entered, length, log⟩ := evaluate_sound run b run' ⟨sound, rfl⟩ ran
    refine ⟨sound', fun none => ?_⟩
    rw [log] at none
    rw [(List.append_eq_nil_iff.mp none).2] at length
    exact Nat.ne_of_lt agents length
  settle := by
    intro i run b run' sound ran
    obtain ⟨sound', log⟩ := settle_sound run b run' ⟨sound.1, rfl⟩ ran
    exact ⟨sound', log ▸ sound.2⟩
  varyWithin := fun _ run b run' sound ran => (vary_sound run b run' ⟨sound.1, rfl⟩ ran).1
  varyAfter := fun _ run b run' sound ran => (vary_sound run b run' ⟨sound.1, rfl⟩ ran).1

theorem start_sound {passes : Nat} {random : ρ} {run : Run ρ α}
    (ran : start problem config passes random = .ok run) : Sound problem config run := by
  obtain ⟨population, drawn, rfl⟩ := map_ok.mp ran
  have sized : Draw.Yields (Population.draw (problem.layout config.algorithm) problem.directions
      config.agents : Draw ρ _) _ := Population.draw_sized config.agents rfl
  exact ⟨sized random population _ trivial (Prod.ext drawn rfl), nofun, rfl⟩

end Run

namespace Search

variable [RandomSource ρ α] {problem : Problem α} {config : Config α}

/-- What a repeat hands over, from how its iterations end. -/
def handOver : Except (Failure α) (List (Statistics α)) × Run ρ α →
    Except Fault (Except (Error α) (Outcome α) × Nat)
  | (.ok history, run) =>
    .ok (.ok ⟨run.ledger.record, run.ledger.log, history, run.strategy.report⟩, run.ledger.passes)
  | (.error (.error cause), run) => .ok (.error cause, run.ledger.passes)
  | (.error (.fault fault), _) => .error fault

theorem attempt_eq_error (round : Nat) {passes : Nat} {random : ρ} {fault : Fault}
    (started : Run.start problem config passes random = .error fault) :
    attempt problem config round passes random = .error fault := by
  rw [attempt, started]
  rfl

theorem attempt_eq (round : Nat) {passes : Nat} {random : ρ} {run : Run ρ α}
    (started : Run.start problem config passes random = .ok run) :
    attempt problem config round passes random =
      handOver ((Run.iterate problem config round config.iterations 0).run.run run) := by
  unfold attempt
  rw [started]
  simp only [bind, Except.bind]
  cases (Run.iterate problem config round config.iterations 0).run.run run with
  | mk result run' =>
    cases result with
    | ok history => rfl
    | error failure => cases failure <;> rfl

/-- What a successful repeat leaves behind is what its last state holds. -/
theorem attempt_ok {round passes passes' : Nat} {random : ρ} {o : Outcome α}
    (ran : attempt problem config round passes random = .ok (.ok o, passes')) :
    ∃ first last, Run.start problem config passes random = .ok first ∧
      (Run.iterate problem config round config.iterations 0).run.run first = (.ok o.history, last) ∧
      o.log = last.ledger.log ∧ o.record = last.ledger.record ∧
      o.report = last.strategy.report := by
  cases started : Run.start problem config passes random with
  | error fault =>
    rw [attempt_eq_error round started] at ran
    cases ran
  | ok first =>
    rw [attempt_eq round started] at ran
    cases ended : (Run.iterate problem config round config.iterations 0).run.run first with
    | mk result last =>
      rw [ended] at ran
      cases result with
      | ok history =>
        cases ran
        exact ⟨first, last, rfl, ended, rfl, rfl, rfl⟩
      | error failure => cases failure <;> cases ran

/-- A configuration under which every repeat evaluates something. -/
structure Active (config : Config α) : Prop where
  agents : 0 < config.agents
  cycles : 0 < config.algorithm.cycles
  iterations : 0 < config.iterations

theorem attempt_told {round passes passes' : Nat} {random : ρ} {o : Outcome α}
    (active : Active config)
    (ran : attempt problem config round passes random = .ok (.ok o, passes')) :
    problem.Told config o.log o.record ∧ o.log ≠ [] := by
  obtain ⟨run, run', started, ended, log, record, _⟩ := attempt_ok ran
  obtain ⟨left, iterations⟩ := Nat.exists_eq_succ_of_ne_zero (Nat.ne_of_gt active.iterations)
  rw [iterations] at ended
  have settled := (Run.sound_phases active.agents).iterate active.cycles left 0 run o.history run'
    (Run.start_sound started) ended
  rw [log, record]
  exact ⟨settled.1.told, settled.2⟩

theorem attempts_told {round passes passes' : Nat} {seeds : List UInt64}
    {outcomes : List (Except (Error α) (Outcome α))} (active : Active config)
    (ran : attempts ρ problem config round passes seeds = .ok (outcomes, passes')) :
    ∀ o, .ok o ∈ outcomes → problem.Told config o.log o.record ∧ o.log ≠ [] := by
  induction seeds generalizing round passes outcomes with
  | nil =>
    cases ran
    exact nofun
  | cons seed seeds ih =>
    obtain ⟨⟨outcome, middle⟩, first, ran⟩ := bind_ok.mp ran
    obtain ⟨⟨rest, final⟩, later, built⟩ := bind_ok.mp ran
    cases built
    intro o member
    rcases List.mem_cons.mp member with rfl | inRest
    · exact attempt_told active first
    · exact ih later o inRest

end Search
end Metaheuristic
