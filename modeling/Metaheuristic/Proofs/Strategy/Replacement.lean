import Metaheuristic.Proofs.Strategy.Climbing

/-! Replacement in differential evolution. What a row settles on depends on nothing but what it
had settled on before and its own trial: an update is a map over the rows. -/
namespace Metaheuristic

variable {α : Type} [Scalar α] {l : Layout} {n : Nat} {p q : Population α}
  {directions : List Direction}

namespace Differential

/-- What a row settles on, of what it had settled on before and its trial. -/
def replace (directions : List Direction) (now trial : Block α) : Block α :=
  match improves directions trial.rewards now.rewards with
  | .ok true => trial
  | _ => now

variable {now trial : Block α}

theorem replace_of_improves {better : Bool}
    (improved : improves directions trial.rewards now.rewards = .ok better) :
    replace directions now trial = if better then trial else now := by
  rw [replace, improved]
  cases better <;> rfl

theorem replace_single {d : Direction} {x y : α} (left : trial.rewards = [x])
    (right : now.rewards = [y]) :
    replace [d] now trial = if d.isBetter x y then trial else now :=
  replace_of_improves (by rw [left, right]; rfl)

theorem replace_cases (directions : List Direction) (now trial : Block α) :
    replace directions now trial = trial ∧
      improves directions trial.rewards now.rewards = .ok true ∨
    replace directions now trial = now := by
  unfold replace
  split
  · rename_i improved
    exact .inl ⟨rfl, improved⟩
  · exact .inr rfl

/-- How a row fares in an update, from what it had settled on and its trial to what it has
settled on then. -/
structure Replacement (directions : List Direction) (before : Block α) (trial : Agent α)
    (after : Block α) : Prop where
  own : after = replace directions before trial.block
  either : after = before ∨ after = trial.block
  dominating : 1 < directions.length →
    after.rewards = before.rewards ∨ dominates directions after.rewards before.rewards = true
  notWorse : ∀ (k : Nat) d, directions[k]? = some d → ∃ x y,
    before.rewards[k]? = some x ∧ after.rewards[k]? = some y ∧ d.isBetter x y = false

theorem replacement [Scalar.LawfulOrder α] {before : Block α} {trial : Agent α}
    (left : trial.reward.length = directions.length)
    (right : before.rewards.length = directions.length) :
    Replacement directions before trial (replace directions before trial.block) := by
  have place {rewards : List α} (length : rewards.length = directions.length) {k : Nat}
      {d : Direction} (direction : directions[k]? = some d) : ∃ x, rewards[k]? = some x :=
    ⟨_, List.getElem?_eq_getElem (length ▸ (List.getElem?_eq_some_iff.mp direction).1)⟩
  rcases replace_cases directions before trial.block with ⟨same, improved⟩ | same
  · refine ⟨rfl, .inr same, fun several => .inr ?_, fun k d direction => ?_⟩
    · rw [same]
      unfold improves at improved
      split at improved
      · exact absurd several (Nat.lt_irrefl 1)
      · exact Except.ok.inj improved
    · rw [same]
      obtain ⟨x, old⟩ := place right direction
      obtain ⟨y, new⟩ := place left direction
      exact ⟨x, y, old, new, (noWorse_of_improves left right improved).at direction new old⟩
  · refine ⟨rfl, .inl same, fun _ => .inl (congrArg Block.rewards same), fun k d direction => ?_⟩
    obtain ⟨x, old⟩ := place right direction
    exact ⟨x, x, old, same.symm ▸ old, Direction.isBetter_irrefl⟩

end Differential

/-- A row once its trial has been compared with what it had settled on. -/
def Row.settled (directions : List Direction) (r : Row α) : Row α :=
  { r with incumbent := r.incumbent.map fun now => Differential.replace directions now r.trial }

theorem Row.settled_of_improves {r : Row α} {now : Block α} {better : Bool}
    (held : r.incumbent = some now)
    (improved : Differential.improves directions r.trial.rewards now.rewards = .ok better) :
    r.settled directions = if better then r.promote else r := by
  obtain ⟨trial, incumbent⟩ := r
  cases held
  rw [Row.settled, Option.map_some, Differential.replace_of_improves improved]
  cases better <;> rfl

namespace Differential

variable {rows : List Nat} {s t : State α} {x y : State α × Population α}

/-- The first of the rows settles, whichever way that goes, and the others are left to do. -/
private theorem settleRows_cons (phases : l.twoPhase = true) {row : Nat} (inside : row < n)
    (sized : p.Sized l n) (ran : settleRows directions (row :: rows) s p = .ok x) :
    ∃ q s', settleRows directions rows s' q = .ok x ∧ q.Sized l n ∧
      ∀ i : Nat, q.rows[i]? = p.rows[i]?.map fun r =>
        if row = i then r.settled directions else r := by
  obtain ⟨trial, readTrial, ran⟩ := bind_ok.mp ran
  obtain ⟨rewards, readIncumbent, ran⟩ := bind_ok.mp ran
  obtain ⟨better, improved, ran⟩ := bind_ok.mp ran
  obtain ⟨r, held, rfl⟩ := Population.field_ok sized inside readTrial
  obtain ⟨_, held', rfl⟩ := Population.field_ok sized inside readIncumbent
  cases held.symm.trans held'
  have some : r.incumbent.isSome = true := (sized.rows row r held).phases.trans phases
  obtain ⟨now, incumbent⟩ := Option.isSome_iff_exists.mp some
  rw [Row.block, Row.block, incumbent] at improved
  have decided (i : Nat) : p.rows[i]?.map (fun r =>
      if row = i then r.settled directions else r) =
        p.rows[i]?.map fun r => if row = i then (if better then r.promote else r) else r := by
    by_cases same : row = i
    · subst same
      rw [held, Option.map_some, Row.settled_of_improves incumbent improved, Option.map_some]
    · simp only [same, if_false]
  cases better with
  | true =>
    obtain ⟨q, promoted, ran⟩ := bind_ok.mp ran
    exact ⟨q, _, ran, sized.promote promoted, fun i =>
      (sized.promote_row phases promoted i).trans (decided i).symm⟩
  | false =>
    refine ⟨p, _, ran, sized, fun i => Eq.trans ?_ (decided i).symm⟩
    simp

/-- Where the trials of some different rows are compared, each of them settles on its own and no
other row changes. By induction on these rows. -/
theorem settleRows_rows (phases : l.twoPhase = true) (nodup : rows.Nodup)
    (below : ∀ row ∈ rows, row < n) (sized : p.Sized l n)
    (ran : settleRows directions rows s p = .ok x) (i : Nat) :
    x.2.rows[i]? = p.rows[i]?.map fun r => if i ∈ rows then r.settled directions else r := by
  induction rows generalizing s p with
  | nil =>
    cases ran
    simp
  | cons row rows ih =>
    obtain ⟨q, s', later, sized', rest⟩ :=
      settleRows_cons phases (below row List.mem_cons_self) sized ran
    rw [ih nodup.of_cons (fun row member => below row (List.mem_cons_of_mem _ member)) sized' later,
      rest, Option.map_map]
    refine congrArg (fun f => p.rows[i]?.map f) (funext fun r => ?_)
    by_cases same : row = i
    · subst same
      simp [(List.nodup_cons.mp nodup).1]
    · simp [same, Ne.symm same]

/-- An update settles every row on its own. -/
theorem settle_rows (phases : l.twoPhase = true) (sized : p.Sized l n)
    (ran : settle directions s p = .ok x) : x.2.rows = p.rows.map (Row.settled directions) := by
  refine List.ext_getElem? fun i => ?_
  rw [settleRows_rows phases List.nodup_range
    (fun row member => Nat.lt_of_lt_of_eq (List.mem_range.mp member) sized.count) sized ran,
    List.getElem?_map]
  by_cases inside : i < n
  · have listed := List.mem_range.mpr (Nat.lt_of_lt_of_eq inside sized.count.symm)
    simp only [listed, if_true]
  · rw [List.getElem?_eq_none (Nat.le_trans (Nat.le_of_eq sized.length) (Nat.le_of_not_lt inside))]
    rfl

/-- What an update makes of a row does not depend on any other row. -/
theorem settle_frame (phases : l.twoPhase = true) (sized : p.Sized l n) (sized' : q.Sized l n)
    (ran : settle directions s p = .ok x) (ran' : settle directions t q = .ok y) {row : Nat}
    (agree : p.rows[row]? = q.rows[row]?) : x.2.rows[row]? = y.2.rows[row]? := by
  rw [settle_rows phases sized ran, settle_rows phases sized' ran', List.getElem?_map,
    List.getElem?_map, agree]

end Differential
end Metaheuristic
