import Metaheuristic.Model.Schema
import Metaheuristic.Proofs.Space.Layout

/-! What discovery leaves behind. The program's declarations are accepted one after the
other, so the registry of a schema holds exactly their variables, in order and laid out
along the chromosome. Constraints and objectives only count. -/
namespace Metaheuristic

variable {α : Type} [Scalar α]

/-- A variable that stands for a declaration, with the bound that the checks answer. -/
def Variable.StandsFor (v : Variable α) (d : Declaration α) : Prop :=
  Registry.checkedBound d = .ok v.bound ∧ v.toDeclaration = { d with bound := v.bound }

namespace Registry

/-- Declarations that are accepted one after the other lead from one registry to another. -/
inductive Accepts : Registry α → List (Declaration α) → Registry α → Prop where
  | nil (r : Registry α) : Accepts r [] r
  | cons {r r' r'' : Registry α} {d : Declaration α} {ds : List (Declaration α)} {v : Variable α}
    (accepted : r.declare d = .ok (v, r')) (rest : Accepts r' ds r'') : Accepts r (d :: ds) r''

namespace Accepts

variable {r r' : Registry α} {ds : List (Declaration α)}

theorem laid (accepts : Accepts r ds r') (before : r.Laid) : r'.Laid := by
  induction accepts with
  | nil => exact before
  | cons accepted _ ih => exact ih (before.declare accepted)

/-- Accepting adds one variable for each declaration, at the end. -/
theorem declared (accepts : Accepts r ds r') : ∃ vs, r'.declared = r.declared ++ vs ∧
    List.Forall₂ Variable.StandsFor vs ds := by
  induction accepts with
  | nil r => exact ⟨[], (List.append_nil _).symm, .nil⟩
  | cons accepted _ ih =>
    obtain ⟨vs, behind, stands⟩ := ih
    obtain ⟨_, bound, checked, own, rfl⟩ := declare_ok accepted
    refine ⟨_ :: vs, by rw [behind, List.append_assoc]; rfl, .cons ?_ stands⟩
    rw [own]
    exact ⟨checked, rfl⟩

end Accepts
end Registry

namespace Schema

/-- The declarations that discovery accepts, in order. -/
def declarations : Program α → Schema α → List (Declaration α)
  | .done, _ | .stop _, _ => []
  | .mode next, s => declarations (next .discovery) s
  | .agents next, s => declarations (next 1) s
  | .declare d next, s =>
    match s.registry.declare d with
    | .error cause => declarations (next (.error cause)) s
    | .ok (v, registry) =>
      d :: declarations (next (.ok (placeholder v))) { s with registry := registry }
  | .constrain c next, s =>
    declarations (next (.ok ()))
      { s with constraints := s.constraints ++ [labelOf s.constraints.length c.label] }
  | .optimize direction _ next, s =>
    declarations (next (.ok ())) { s with directions := s.directions ++ [direction] }
  | .note _ next, s => declarations next s

/-- By induction on the program: the registry grows by its declarations. -/
theorem extend_accepts {program : Program α} {s s' : Schema α}
    (ran : (extend program s).1 = .ok s') :
    s.registry.Accepts (declarations program s) s'.registry := by
  induction program generalizing s with
  | done =>
    cases ran
    exact .nil _
  | stop failure => cases ran
  | mode next ih => exact ih .discovery ran
  | agents next ih => exact ih 1 ran
  | declare d next ih =>
    rw [extend] at ran
    rw [declarations]
    cases declared : s.registry.declare d with
    | error cause =>
      rw [declared] at ran
      exact ih (.error cause) ran
    | ok answer =>
      obtain ⟨v, registry⟩ := answer
      rw [declared] at ran
      exact .cons declared (ih (.ok (placeholder v)) ran)
  | constrain c next ih => exact ih (.ok ()) ran
  | optimize direction column next ih => exact ih (.ok ()) ran
  | note note next ih => exact ih ran

/-- A discovered schema holds the variables of the declarations, laid out along at least
one gene, and at least one objective. -/
theorem discover_ok {program : Program α} {schema : Schema α}
    (discovered : (discover program).1 = .ok schema) :
    Registry.Accepts .empty (declarations program .empty) schema.registry ∧
      schema.registry.Laid ∧ 1 ≤ schema.genes ∧ 1 ≤ schema.objectives := by
  obtain ⟨s, extended, checks⟩ := bind_ok.mp discovered
  rw [mapError_ok] at checks
  unfold checked at checks
  split at checks
  · cases checks
  · rename_i some
    split at checks
    · cases checks
    · rename_i directed
      cases checks
      have accepts := extend_accepts extended
      refine ⟨accepts, accepts.laid .empty, Nat.one_le_iff_ne_zero.mpr some, ?_⟩
      rw [List.isEmpty_iff] at directed
      exact List.length_pos_iff.mpr directed

end Schema
end Metaheuristic
