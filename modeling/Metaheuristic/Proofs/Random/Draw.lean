import Metaheuristic.Proofs.Computation
import Metaheuristic.Random.Source

/-! What is known of a drawn value whatever the source answers. -/
namespace Metaheuristic.Draw

variable {ρ β γ : Type}

/-- Every value that the computation can answer has the property. -/
def Yields (d : Draw ρ β) (Q : β → Prop) : Prop := Ensures (fun _ => True) d fun b _ => Q b

namespace Yields

variable {Q Q' : β → Prop} {R : γ → Prop}

theorem pure {b : β} (holds : Q b) : Yields (Pure.pure b : Draw ρ β) Q :=
  Ensures.pure fun _ _ => holds

theorem throw (cause : Fault) : Yields (MonadExcept.throw cause : Draw ρ β) Q :=
  Ensures.throw cause

theorem ofExcept {r : Except Fault β} (holds : ∀ b, r = .ok b → Q b) :
    Yields (Draw.ofExcept r : Draw ρ β) Q := by
  intro s b s' _ ran
  cases r with
  | error cause => cases ran
  | ok x =>
    cases ran
    exact holds _ rfl

theorem bind {d : Draw ρ β} {f : β → Draw ρ γ} (first : Yields d Q)
    (second : ∀ b, Q b → Yields (f b) R) : Yields (d >>= f) R :=
  Ensures.bind first fun b s c s' good ran => second b good s c s' trivial ran

/-- A drawn value of which nothing is known. -/
theorem anything {d : Draw ρ β} : Yields d fun _ => True := fun _ _ _ _ _ => trivial

/-- What two properties promise of a drawn value holds together. -/
theorem and {d : Draw ρ β} (first : Yields d Q) (second : Yields d Q') :
    Yields d fun b => Q b ∧ Q' b :=
  fun s b s' good ran => ⟨first s b s' good ran, second s b s' good ran⟩

theorem weaken {d : Draw ρ β} (yields : Yields d Q) (after : ∀ b, Q b → Q' b) : Yields d Q' :=
  Ensures.weaken yields (fun _ good => good) fun b _ => after b

end Yields

/-- A result that needs no draw, beside its image. -/
theorem parallels_ofExcept {r : Except Fault β} {r' : Except Fault γ} {g : β → γ}
    (image : r' = r.map g) : Parallels id g (ofExcept r : Draw ρ β) (ofExcept r') := by
  intro s
  rw [image]
  rfl

end Metaheuristic.Draw
