import Metaheuristic.Proofs.Random.Draw
import Metaheuristic.Strategy.Annealing
import Metaheuristic.Strategy.Tabu

/-! The decisions of the searches over one agent. An annealing has three of them and a tabu search
five. Some move to the candidate, the others leave everything but the counters as it is. -/
namespace Metaheuristic

variable {α : Type} [Scalar α] {d : Direction} {progress : Progress} {p : Population α}

namespace Annealing

variable {Q : α → Prop} {candidate current : α} {s : State α} {x : State α × Population α}

/-- What an annealing makes of a candidate, if what it draws has a property. -/
inductive Verdict (Q : α → Prop) (d : Direction) (progress : Progress) (candidate current : α)
    (s : State α) (p : Population α) : State α × Population α → Prop
  /-- It moves to what is better, and from the worst value to anything. -/
  | better {q : Population α}
      (wins : (current == d.worst) = true ∨ d.isBetter candidate current = true)
      (promoted : p.promote 0 = .ok q) :
      Verdict Q d progress candidate current s p
        ({ s with acceptedBetter := s.acceptedBetter + 1 }, q)
  /-- It moves by chance. -/
  | chance {q : Population α} {u : α} (known : (current == d.worst) = false)
      (notBetter : d.isBetter candidate current = false) (drawn : Q u)
      (lucky : Scalar.lt u (acceptance
        (s.settings.cooling.temperature s.settings.maxTemperature progress) candidate current) =
          true)
      (promoted : p.promote 0 = .ok q) :
      Verdict Q d progress candidate current s p
        ({ s with acceptedWorse := s.acceptedWorse + 1 }, q)
  /-- It stays where it is. -/
  | reject (known : (current == d.worst) = false)
      (notBetter : d.isBetter candidate current = false) :
      Verdict Q d progress candidate current s p ({ s with rejected := s.rejected + 1 }, p)

/-- Every decision is one of the three. -/
theorem settle_verdict {ρ : Type} [RandomSource ρ α]
    (draws : Draw.Yields (Draw.unit : Draw ρ α) Q) (directions : List Direction)
    (progress : Progress) (s : State α) (p : Population α) :
    Draw.Yields (settle directions progress s p : Draw ρ _) fun x => ∃ d candidate current,
      directions.head? = some d ∧ p.rewardAt .trial 0 0 = .ok candidate ∧
      p.rewardAt .incumbent 0 0 = .ok current ∧
      Verdict Q d progress candidate current s p x := by
  unfold settle
  split
  · exact .throw _
  · rename_i d ds
    refine (Draw.Yields.ofExcept fun candidate read => read).bind fun candidate readTrial =>
      (Draw.Yields.ofExcept fun current read => read).bind fun current readIncumbent => ?_
    suffices decided : Draw.Yields (ρ := ρ) _ (Verdict Q d progress candidate current s p) from
      decided.weaken fun x verdict =>
        ⟨d, candidate, current, rfl, readTrial, readIncumbent, verdict⟩
    split
    · rename_i wins
      exact (Draw.Yields.ofExcept fun q promoted => promoted).bind fun q promoted =>
        .pure (.better (Bool.or_eq_true_iff.mp wins) promoted)
    · rename_i loses
      obtain ⟨known, notBetter⟩ := Bool.or_eq_false_iff.mp (Bool.eq_false_iff.mpr loses)
      refine draws.bind fun u drawn => ?_
      split
      · rename_i lucky
        exact (Draw.Yields.ofExcept fun q promoted => promoted).bind fun q promoted =>
          .pure (.chance known notBetter drawn lucky promoted)
      · exact .pure (.reject known notBetter)

namespace Verdict

variable (verdict : Verdict Q d progress candidate current s p x)

include verdict

theorem settings : x.1.settings = s.settings := by
  cases verdict <;> rfl

/-- A candidate is counted once, as accepted for one reason or the other or as rejected. -/
theorem counted : x.1.acceptedBetter + x.1.acceptedWorse + x.1.rejected =
    s.acceptedBetter + s.acceptedWorse + s.rejected + 1 := by
  cases verdict <;> dsimp only <;> omega

end Verdict
end Annealing

namespace Tabu

variable {reward : α} {key : Key} {s : State α} {x : State α × Population α}

namespace State

/-- A state that has moved to a candidate. -/
def moved (d : Direction) (reward : α) (s : State α) : State α :=
  { s with
    moves := s.moves + 1
    best := if aspires d reward s then some reward else s.best }

omit [Scalar α] in
/-- A state that has put a key into memory. -/
def remembering (key : Key) (s : State α) : State α :=
  { s with memory := s.memory.remember s.settings.tenure key }

end State

/-- What a search makes of a candidate with a reward and a key. -/
inductive Verdict (d : Direction) (progress : Progress) (reward : α) (key : Key) (s : State α)
    (p : Population α) : State α × Population α → Prop
  /-- The first candidate is moved to, and in a strict search any one that is not in memory. -/
  | enter {q : Population α}
      (allowed : progress.iteration = 0 ∨
        s.settings.strict = true ∧ s.memory.contains key = false)
      (promoted : p.promote 0 = .ok q) :
      Verdict d progress reward key s p ((s.remembering key).moved d reward, q)
  /-- What is in memory is moved to if it beats the best reward. -/
  | aspire {q : Population α} (strict : s.settings.strict = true)
      (known : s.memory.contains key = true) (wins : aspires d reward s = true)
      (promoted : p.promote 0 = .ok q) :
      Verdict d progress reward key s p
        (({ s with hits := s.hits + 1, aspirations := s.aspirations + 1 }.remembering key).moved
          d reward, q)
  /-- What is in memory and does not beat the best reward is refused. -/
  | refuse (later : progress.iteration ≠ 0) (strict : s.settings.strict = true)
      (known : s.memory.contains key = true) (loses : aspires d reward s = false) :
      Verdict d progress reward key s p
        ({ s with hits := s.hits + 1, rejected := s.rejected + 1 }, p)
  /-- A search that does not consult its memory moves to what is better. -/
  | climb {q : Population α} {current : α} (later : progress.iteration ≠ 0)
      (climbing : s.settings.strict = false) (read : p.rewardAt .incumbent 0 0 = .ok current)
      (better : d.isBetter reward current = true) (promoted : p.promote 0 = .ok q) :
      Verdict d progress reward key s p (s.moved d reward, q)
  /-- It stays where nothing is gained. -/
  | stay {current : α} (later : progress.iteration ≠ 0) (climbing : s.settings.strict = false)
      (read : p.rewardAt .incumbent 0 0 = .ok current)
      (notBetter : d.isBetter reward current = false) :
      Verdict d progress reward key s p ({ s with rejected := s.rejected + 1 }, p)

private theorem commit_ok (ran : commit d reward s p = .ok x) :
    ∃ q, p.promote 0 = .ok q ∧ x = (s.moved d reward, q) := by
  obtain ⟨q, promoted, built⟩ := bind_ok.mp ran
  cases built
  exact ⟨q, promoted, rfl⟩

/-- Every decision is one of the five. -/
theorem settle_verdict {directions : List Direction}
    (ran : settle directions progress s p = .ok x) : ∃ d reward genes,
      directions.head? = some d ∧ p.rewardAt .trial 0 0 = .ok reward ∧
      p.chromosome 0 .trial = .ok genes ∧
      Verdict d progress reward (keyOf s.settings genes) s p x := by
  unfold settle at ran
  split at ran
  · cases ran
  · rename_i d ds
    obtain ⟨reward, readReward, ran⟩ := bind_ok.mp ran
    obtain ⟨genes, readGenes, ran⟩ := bind_ok.mp ran
    refine ⟨d, reward, genes, rfl, readReward, readGenes, ?_⟩
    dsimp only at ran
    split at ran
    · rename_i first
      obtain ⟨q, promoted, rfl⟩ := commit_ok ran
      exact .enter (.inl first) promoted
    · rename_i later
      split at ran
      · rename_i climbing
        obtain ⟨current, read, ran⟩ := bind_ok.mp ran
        split at ran
        · rename_i better
          obtain ⟨q, promoted, rfl⟩ := commit_ok ran
          exact .climb later (by simpa using climbing) read better promoted
        · rename_i notBetter
          cases ran
          exact .stay later (by simpa using climbing) read (by simpa using notBetter)
      · rename_i notClimbing
        have strict : s.settings.strict = true := by simpa using notClimbing
        split at ran
        · rename_i unknown
          obtain ⟨q, promoted, rfl⟩ := commit_ok ran
          exact .enter (.inr ⟨strict, by simpa using unknown⟩) promoted
        · rename_i known
          split at ran
          · rename_i wins
            obtain ⟨q, promoted, rfl⟩ := commit_ok ran
            exact .aspire strict (by simpa using known) wins promoted
          · rename_i loses
            cases ran
            exact .refuse later strict (by simpa using known) (by simpa using loses)

namespace Verdict

variable (verdict : Verdict d progress reward key s p x)

include verdict

/-- A search moves to its candidate or stays. -/
theorem population : p.promote 0 = .ok x.2 ∨ x.2 = p := by
  cases verdict with
  | enter _ promoted | aspire _ _ _ promoted | climb _ _ _ _ promoted => exact .inl promoted
  | refuse | stay => exact .inr rfl

theorem settings : x.1.settings = s.settings := by
  cases verdict <;> rfl

end Verdict
end Tabu
end Metaheuristic
