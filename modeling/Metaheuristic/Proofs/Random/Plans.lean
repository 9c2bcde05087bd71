import Metaheuristic.Proofs.Random.Answers

/-! Plans. What a computation draws can often be said beforehand, by a plan that draws the same
values in the same order but reads nothing else. A computation that follows a plan always answers,
leaves the source where the plan leaves it, and what it answers is related to what was planned. -/
namespace Metaheuristic.Draw

variable {ρ β γ δ ε : Type}

/-- From every state of the source both computations answer and leave the source at the same place,
with answers that are related. -/
def Follows (d : Draw ρ β) (plan : Draw ρ γ) (Q : γ → β → Prop) : Prop :=
  ∀ s, ∃ c s', plan.run.run s = (.ok c, s') ∧ ∃ b, d.run.run s = (.ok b, s') ∧ Q c b

namespace Follows

variable {Q Q' : γ → β → Prop} {R : ε → δ → Prop} {d : Draw ρ β} {plan : Draw ρ γ}

theorem pure {b : β} {c : γ} (related : Q c b) :
    Follows (Pure.pure b : Draw ρ β) (Pure.pure c : Draw ρ γ) Q :=
  fun s => ⟨c, s, rfl, b, rfl, related⟩

theorem bind {f : β → Draw ρ δ} {g : γ → Draw ρ ε} (first : Follows d plan Q)
    (second : ∀ c b, Q c b → Follows (f b) (g c) R) : Follows (d >>= f) (plan >>= g) R := by
  intro s
  obtain ⟨c, s', planned, b, ran, related⟩ := first s
  obtain ⟨c', s'', planned', b', ran', related'⟩ := second c b related s'
  exact ⟨c', s'', (run_bind_of_ok planned).trans planned', b', (run_bind_of_ok ran).trans ran',
    related'⟩

/-- After the plan nothing more is drawn. -/
theorem last {R : γ → δ → Prop} {f : β → Draw ρ δ} (first : Follows d plan Q)
    (second : ∀ c b, Q c b → Follows (f b) (Pure.pure c : Draw ρ γ) R) :
    Follows (d >>= f) plan R := by
  rw [← bind_pure plan]
  exact first.bind second

/-- A plan that is put together only after all is drawn. -/
theorem collect {g : γ → ε} {R : ε → β → Prop} (follows : Follows d plan Q)
    (after : ∀ c b, Q c b → R (g c) b) :
    Follows d (plan >>= fun c => Pure.pure (g c)) R := by
  rw [← bind_pure d]
  exact follows.bind fun c b related => .pure (after c b related)

/-- A draw is its own plan. -/
theorem self {P : β → Prop} (answers : Answers d P) : Follows d d fun c b => c = b ∧ P b := by
  intro s
  obtain ⟨b, s', ran, holds⟩ := answers s
  exact ⟨b, s', ran, b, ran, rfl, holds⟩

/-- What is only read is not planned. -/
theorem reads {r : Except Fault β} {b : β} {f : β → Draw ρ δ} {plan : Draw ρ ε} (read : r = .ok b)
    (rest : Follows (f b) plan R) : Follows (Draw.ofExcept r >>= f) plan R := by
  intro s
  obtain ⟨c, s', planned, b', ran, related⟩ := rest s
  exact ⟨c, s', planned, b', (run_ofExcept read f s).trans ran, related⟩

theorem weaken (follows : Follows d plan Q) (after : ∀ c b, Q c b → Q' c b) :
    Follows d plan Q' := by
  intro s
  obtain ⟨c, s', planned, b, ran, related⟩ := follows s
  exact ⟨c, s', planned, b, ran, after c b related⟩

/-- What every plan has, the plan that is followed has. -/
theorem and_yields {P : γ → Prop} (follows : Follows d plan Q) (yields : Yields plan P) :
    Follows d plan fun c b => P c ∧ Q c b := by
  intro s
  obtain ⟨c, s', planned, b, ran, related⟩ := follows s
  exact ⟨c, s', planned, b, ran, yields s c s' trivial planned, related⟩

end Follows
end Metaheuristic.Draw
