import Metaheuristic.Proofs.Quality.Archive
import Metaheuristic.Proofs.Search.Best

/-! A search that evaluates more reports nothing worse. With one objective the reported agent
is a best one of all that were evaluated; with several, and an archive without bound, the
reported ones are the survivors of all that were evaluated. Either way, what is in reach of
one search and evaluated by another too has a candidate there that is nowhere worse. -/
namespace Metaheuristic

variable {ρ α : Type} [Scalar α]

omit [Scalar α] in
/-- Under several directions a record starts as an archive. -/
theorem Record.empty_several {ds : List Direction} (several : 1 < ds.length)
    (capacity : Option Nat) :
    (Record.empty ds capacity : Record α) = .archive (.empty ds capacity) := by
  unfold Record.empty
  split
  · exact absurd several (Nat.lt_irrefl 1)
  · rfl

/-- An archive that observes agents is one that they are inserted into. -/
theorem Record.observeAll_archive (s : Archive α) (agents : List (Agent α)) :
    (archive s).observeAll agents = (s.insertAll agents).map archive := by
  induction agents generalizing s with
  | nil => rfl
  | cons a agents ih =>
    rw [observeAll, List.foldlM_cons, Archive.insertAll, observe]
    cases s.insert a with
    | error fault => rfl
    | ok inserted => exact ih inserted.1

namespace Search

/-- A search that came to its result, seen from its repeats. -/
structure Concluded (ρ : Type) [RandomSource ρ α] (problem : Problem α) (config : Config α)
    (seed : UInt64) (outcomes : List (Except (Error α) (Outcome α))) (summary : Summary α)
    (result : Result α) : Prop where
  active : Active config
  tried : outcomes ≠ []
  attempted : ∃ passes, attempts ρ problem config 0 0
      (streamSeeds config.repeats (RandomSource.ofSeed seed : ρ)) = .ok (outcomes, passes) ∧
    conclude problem config passes summary = .ok result
  added : Summary.addAll config.recordHistory 0 outcomes
    (.empty problem.directions config.archiveCapacity) = .ok summary

variable [RandomSource ρ α] {problem : Problem α} {config : Config α} {fallback seed : UInt64}
  {model : Model α} {outcomes : List (Except (Error α) (Outcome α))} {summary : Summary α}
  {result : Result α} {d : Direction}

theorem concluded_of_run (made : Problem.make model config.penaltyCoefficient = .ok problem)
    (ran : run ρ config fallback model = .ok result) :
    ∃ outcomes summary,
      Concluded ρ problem config (config.seed.getD fallback) outcomes summary result := by
  obtain ⟨problem', outcomes, passes, summary, valid, made', fitting, attempted, added,
    concluded⟩ := run_ok ran
  rw [made] at made'
  cases made'
  refine ⟨outcomes, summary, active_of_valid valid fitting, ?_, ⟨passes, attempted, concluded⟩,
    added⟩
  intro none
  have length := length_attempts attempted
  rw [none, length_streamSeeds] at length
  exact Nat.ne_of_lt (Config.validate_ok valid).2.2 length

namespace Concluded

variable (concluded : Concluded ρ problem config seed outcomes summary result)

include concluded

theorem told {o : Outcome α} (member : .ok o ∈ outcomes) :
    problem.Told config o.log o.record ∧ o.log ≠ [] := by
  obtain ⟨passes, attempted, _⟩ := concluded.attempted
  exact attempts_told concluded.active attempted o member

/-- Candidates show the rewards of the agents that are kept. -/
theorem reward_of_candidate {c : Candidate α} (listed : c ∈ result.candidates) :
    ∃ a ∈ summary.record.held, c.reward = a.reward := by
  obtain ⟨passes, _, ended⟩ := concluded.attempted
  obtain ⟨a, chosen, built⟩ := mem_mapM_ok (conclude_ok ended).1 listed
  obtain ⟨_, _, _, reward, _⟩ := candidate_ok built
  exact ⟨a, Record.mem_reported.mp chosen, reward⟩

theorem candidate_of_held {a : Agent α} (held : a ∈ summary.record.held) :
    ∃ c ∈ result.candidates, c.reward = a.reward := by
  obtain ⟨passes, _, ended⟩ := concluded.attempted
  obtain ⟨i, place⟩ := List.mem_iff_getElem?.mp (Record.mem_reported.mpr held)
  obtain ⟨c, listed, built⟩ := (mapM_ok (conclude_ok ended).1).2 i a place
  obtain ⟨_, _, _, reward, _⟩ := candidate_ok built
  exact ⟨c, List.mem_of_getElem? listed, reward⟩

theorem evaluated_ne_nil : evaluated outcomes ≠ [] := by
  obtain ⟨passes, _, ended⟩ := concluded.attempted
  exact Search.evaluated_ne_nil (fun o member => (concluded.told member).2) concluded.tried
    concluded.added (conclude_ok ended).2

theorem sized : Archive.Sized problem.directions (evaluated outcomes) := by
  intro a member
  obtain ⟨o, inside, logged⟩ := mem_evaluated.mp member
  exact ((concluded.told inside).1.assessed a logged).rewards

variable [Scalar.LawfulOrder α]

theorem single (objective : problem.directions = [d]) {a : Agent α}
    (member : a ∈ evaluated outcomes) : a.Single := by
  obtain ⟨o, inside, logged⟩ := mem_evaluated.mp member
  exact ((concluded.told inside).1.assessed a logged).single objective

/-- With one objective there is one candidate. It has the rewards of an agent that was
evaluated, and no agent that was evaluated beats it. -/
theorem best (objective : problem.directions = [d]) :
    ∃ c, ∃ a ∈ evaluated outcomes, result.candidates = [c] ∧ c.reward = a.reward ∧
      ∀ b ∈ evaluated outcomes, d.isBetter b.leading a.leading = false := by
  have tracks := summary_tracks objective (fun o member => (concluded.told member).1)
    concluded.added
  rcases tracks with ⟨nothing, _⟩ | ⟨a, record, first⟩
  · exact absurd nothing concluded.evaluated_ne_nil
  · obtain ⟨passes, _, ended⟩ := concluded.attempted
    have reported := (conclude_ok ended).1
    rw [record] at reported
    obtain ⟨c, only⟩ := List.length_eq_one_iff.mp (mapM_ok reported).1
    have held : c ∈ result.candidates := by
      rw [only]
      exact List.mem_cons_self
    obtain ⟨a', kept, reward⟩ := concluded.reward_of_candidate held
    rw [record] at kept
    cases List.mem_singleton.mp kept
    have defined := Record.defined_of_single fun b member => concluded.single objective member
    exact ⟨c, a, List.mem_of_find?_eq_some (first.find defined), only, reward, first.unbeaten⟩

/-- With several objectives and no bound the archive holds the survivors of all agents that
were evaluated. -/
theorem survivors (several : 1 < problem.directions.length)
    (unbounded : config.archiveCapacity = none) :
    summary.record = .archive
      ⟨problem.directions, none, Archive.survivors problem.directions (evaluated outcomes)⟩ := by
  have fresh : Record.empty problem.directions none =
      (.archive (.empty problem.directions none) : Record α) :=
    Record.empty_several several none
  have sized (o : Outcome α) (member : .ok o ∈ outcomes) :
      Archive.Sized problem.directions o.log := fun a logged =>
    ((concluded.told member).1.assessed a logged).rewards
  have kept (o : Outcome α) (member : .ok o ∈ outcomes) : o.record = .archive
      ⟨problem.directions, none, Archive.survivors problem.directions o.log⟩ := by
    have recorded := (concluded.told member).1.recorded
    have filled : (Archive.empty problem.directions none).insertAll o.log = .ok
        ⟨problem.directions, none, Archive.survivors problem.directions o.log⟩ :=
      Archive.insertAll_survivors (u := []) (v := o.log) (sized o member)
    rw [unbounded, fresh, Record.observeAll_archive, filled] at recorded
    exact (Except.ok.inj recorded).symm
  have added := concluded.added
  rw [unbounded] at added
  -- merging needs sized rewards on both sides, so the invariant carries that too
  refine (Summary.addAll_ok (I := fun done r =>
    r = .archive ⟨problem.directions, none,
      Archive.survivors problem.directions (evaluated done)⟩ ∧
    Archive.Sized problem.directions (evaluated done)) ?_ ?_ ⟨fresh, nofun⟩ added).1
  · intro done cause r good
    rw [evaluated_append]
    have nothing : evaluated [(.error cause : Except (Error α) (Outcome α))] = [] := rfl
    rw [nothing, List.append_nil]
    exact good
  · intro done o r r' member good merged
    have own : evaluated [(.ok o : Except (Error α) (Outcome α))] = o.log := List.append_nil _
    rw [evaluated_append, own]
    obtain ⟨rfl, sizedDone⟩ := good
    have joined := Archive.merge_survivors sizedDone (sized o member)
    rw [kept o member, Record.merge, joined] at merged
    cases merged
    refine ⟨rfl, fun a inside => ?_⟩
    rcases List.mem_append.mp inside with earlier | new
    · exact sizedDone a earlier
    · exact sized o member a new

end Concluded

section Covering

variable [Scalar.LawfulOrder α] {config' : Config α} {seed' : UInt64}
  {outcomes' : List (Except (Error α) (Outcome α))} {summary' : Summary α} {result' : Result α}
  (few : Concluded ρ problem config seed outcomes summary result)
  (many : Concluded ρ problem config' seed' outcomes' summary' result')
  (covers : ∀ a ∈ evaluated outcomes, a ∈ evaluated outcomes')

include few many covers

/-- With one objective the best reward is not worse. -/
theorem best_not_worse (objective : problem.directions = [d]) :
    ∃ c c' x x', result.candidates = [c] ∧ result'.candidates = [c'] ∧ c.reward = [x] ∧
      c'.reward = [x'] ∧ Scalar.isNaN x' = false ∧ d.isBetter x x' = false := by
  obtain ⟨c, a, member, only, reward, _⟩ := few.best objective
  obtain ⟨c', a', member', only', reward', unbeaten⟩ := many.best objective
  obtain ⟨x, one, leading, _⟩ := few.single objective member
  obtain ⟨x', one', leading', number⟩ := many.single objective member'
  refine ⟨c, c', x, x', only, only', reward.trans one, reward'.trans one', number, ?_⟩
  rw [← leading, ← leading']
  exact unbeaten a (covers a member)

/-- With several objectives and no bound every candidate has one that equals or dominates
it. -/
theorem candidates_not_worse (several : 1 < problem.directions.length)
    (unbounded : config.archiveCapacity = none) (unbounded' : config'.archiveCapacity = none) :
    ∀ c ∈ result.candidates, ∃ c' ∈ result'.candidates,
      Scalar.sameList c'.reward c.reward = true ∨
        dominates problem.directions c'.reward c.reward = true := by
  intro c listed
  obtain ⟨a, held, reward⟩ := few.reward_of_candidate listed
  rw [few.survivors several unbounded] at held
  have inside := Archive.mem_of_mem_survivors held
  have allowed := Archive.admissible_of_mem_survivors held
  obtain ⟨m, survives, ahead⟩ := Archive.exists_survivor many.sized (covers a inside) allowed
  have kept : m ∈ summary'.record.held := by
    rw [many.survivors several unbounded']
    exact survives
  obtain ⟨c', listed', reward'⟩ := many.candidate_of_held kept
  refine ⟨c', listed', ?_⟩
  rw [reward, reward']
  have proper := Archive.proper_of_admissible (few.sized a inside) allowed
  have proper' := Archive.proper_of_admissible
    (many.sized m (Archive.mem_of_mem_survivors survives))
    (Archive.admissible_of_mem_survivors survives)
  exact (noWorse_iff proper' proper).mp ahead

end Covering

end Search
end Metaheuristic
