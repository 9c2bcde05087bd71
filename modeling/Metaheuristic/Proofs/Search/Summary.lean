import Metaheuristic.Proofs.Quality.Offering
import Metaheuristic.Proofs.Search.Repeats

/-! What folding repeats comes to. A successful repeat adds to what was found and leaves no
other trace; a failed one leaves its warning, and the first of them its error, and adds
nothing to what was found. So the two kinds of repeats do not get into each other's way,
in whatever pattern they come. -/
namespace Metaheuristic

variable {α : Type}

namespace Search

/-- The successful repeats, in order. -/
def successes (outcomes : List (Except (Error α) (Outcome α))) :
    List (Except (Error α) (Outcome α)) :=
  outcomes.filter (·.isOk)

/-- A warning for each failed repeat, in order, the first repeat having the given number. -/
def failures (round : Nat) (outcomes : List (Except (Error α) (Outcome α))) : List (Warning α) :=
  (outcomes.zipIdx round).filterMap fun
    | (.ok _, _) => none
    | (.error cause, i) => some (.repeatFailed i cause)

/-- The error of the first failed repeat. -/
def firstFailure (outcomes : List (Except (Error α) (Outcome α))) : Option (Error α) :=
  outcomes.findSome? fun
    | .ok _ => none
    | .error cause => some cause

variable {outcomes : List (Except (Error α) (Outcome α))}

theorem mem_successes {o : Outcome α} : .ok o ∈ successes outcomes ↔ .ok o ∈ outcomes := by
  rw [successes, List.mem_filter]
  exact and_iff_left rfl

end Search

/-- The record of a log that was told has agents with a reward for each direction. -/
theorem Problem.Told.sized [Scalar α] {problem : Problem α} {config : Config α}
    {log : List (Agent α)} {record : Record α} (told : problem.Told config log record) :
    record.Sized problem.directions := by
  obtain ⟨record', observed, sized⟩ :=
    (Record.empty_sized problem.directions config.archiveCapacity).exists_observeAll
      fun a member => (told.assessed a member).rewards
  rw [told.recorded] at observed
  cases observed
  exact sized

namespace Summary

open Search

/-- A summary without its warnings and without an error. -/
def found (s : Summary α) : Summary α := { s with warnings := [], firstError := none }

variable [Scalar α] {recordHistory : Bool} {round : Nat} {s s' : Summary α}
  {outcomes : List (Except (Error α) (Outcome α))}

/-- By induction on the repeats: the successful ones alone find what all of them find. -/
theorem addAll_successes (recordHistory : Bool) (round round' : Nat)
    (outcomes : List (Except (Error α) (Outcome α))) (s : Summary α) :
    addAll recordHistory round' (successes outcomes) s.found =
      (addAll recordHistory round outcomes s).map found := by
  induction outcomes generalizing round round' s with
  | nil => rfl
  | cons outcome outcomes ih =>
    cases outcome with
    | error cause =>
      have failed : s.add recordHistory round (.error cause) = .ok { s with
          warnings := s.warnings ++ [.repeatFailed round cause]
          firstError := some (s.firstError.getD cause) } := rfl
      have same := ih (round + 1) round' { s with
          warnings := s.warnings ++ [.repeatFailed round cause]
          firstError := some (s.firstError.getD cause) }
      rw [addAll, failed]
      exact same
    | ok o =>
      have first : s.found.add recordHistory round' (.ok o) =
          (s.add recordHistory round (.ok o)).map found :=
        bind_same fun record => rfl
      have kept : successes (.ok o :: outcomes) = .ok o :: successes outcomes := rfl
      rw [kept, addAll, addAll]
      exact bind_image first fun next => ih (round + 1) (round' + 1) next

/-- What the repeats leave besides what was found. -/
theorem addAll_traces (ran : addAll recordHistory round outcomes s = .ok s') :
    s'.warnings = s.warnings ++ failures round outcomes ∧
      s'.succeeded = s.succeeded + (successes outcomes).length ∧
      s'.firstError = s.firstError.or (firstFailure outcomes) := by
  induction outcomes generalizing round s with
  | nil =>
    cases ran
    exact ⟨(List.append_nil _).symm, rfl, Option.or_none.symm⟩
  | cons outcome outcomes ih =>
    obtain ⟨next, added, rest⟩ := bind_ok.mp ran
    obtain ⟨warnings, succeeded, first⟩ := ih rest
    rw [warnings, succeeded, first]
    cases outcome with
    | error cause =>
      cases added
      refine ⟨?_, rfl, ?_⟩
      · rw [List.append_assoc]
        rfl
      · cases s.firstError <;> rfl
    | ok o =>
      obtain ⟨record, _, built⟩ := bind_ok.mp added
      cases built
      refine ⟨rfl, ?_, rfl⟩
      have one : (successes (.ok o :: outcomes)).length = (successes outcomes).length + 1 := rfl
      rw [one]
      dsimp only
      omega

/-- Repeats whose records are sized can be folded into one that is. -/
theorem exists_addAll (recordHistory : Bool) (round : Nat) {ds : List Direction}
    (sized : s.record.Sized ds) (records : ∀ o, .ok o ∈ outcomes → o.record.Sized ds) :
    ∃ s', addAll recordHistory round outcomes s = .ok s' ∧ s'.record.Sized ds := by
  induction outcomes generalizing round s with
  | nil => exact ⟨s, rfl, sized⟩
  | cons outcome outcomes ih =>
    have later : ∀ o, .ok o ∈ outcomes → o.record.Sized ds := fun o member =>
      records o (List.mem_cons_of_mem _ member)
    rw [addAll]
    refine exists_bind (Q := fun s' => s'.record.Sized ds) ?_
      fun s' kept => ih (round + 1) kept later
    cases outcome with
    | error cause => exact ⟨_, rfl, sized⟩
    | ok o =>
      exact exists_bind (sized.exists_merge (records o List.mem_cons_self))
        fun record kept => ⟨_, rfl, kept⟩

end Summary
end Metaheuristic
