import Mathlib.Data.List.Forall2
import Metaheuristic.Population.Sampling
import Metaheuristic.Proofs.Population.Evaluated
import Metaheuristic.Proofs.Quality.Direction
import Metaheuristic.Proofs.Random.Draw

/-! What the rows of a population have settled on. Writing into the trials leaves it as it is,
and a row moves when its trial takes the place of its incumbent. -/
namespace Metaheuristic

variable {ρ α : Type} {l : Layout} {n : Nat}

theorem Row.incumbent_modify_trial (r : Row α) (f : Block α → Block α) :
    (r.modify .trial f).incumbent = r.incumbent := by
  obtain ⟨trial, incumbent⟩ := r
  cases incumbent <;> rfl

namespace Population

variable {p q q' : Population α} {row : Nat} {P Q : Row α → Prop}

/-- The blocks that the rows have settled on. -/
def incumbents (p : Population α) : List (Option (Block α)) := p.rows.map Row.incumbent

/-- A row settles on its trial, and no other row changes. -/
theorem Sized.promote_row (sized : p.Sized l n) (phases : l.twoPhase = true)
    (ran : p.promote row = .ok q) (i : Nat) :
    q.rows[i]? = p.rows[i]?.map fun r => if row = i then r.promote else r := by
  unfold Population.promote at ran
  rw [sized.layout, phases] at ran
  split at ran
  · contradiction
  · split at ran
    · cases ran
      rw [List.getElem?_modify]
      by_cases same : row = i <;> simp [same]
    · cases ran

/-- Some rows with a property have settled on their trials, and the others are as before. -/
def Moves (P : Row α → Prop) (p q : Population α) : Prop :=
  List.Forall₂ (fun r r' => r' = r ∨ P r ∧ r' = r.promote) p.rows q.rows

namespace Moves

theorem refl (P : Row α → Prop) (p : Population α) : p.Moves P p :=
  List.forall₂_same.mpr fun _ _ => .inl rfl

/-- A row that moves twice settles on the same trial again. -/
theorem trans (first : p.Moves P q) (second : q.Moves P q') : p.Moves P q' := by
  unfold Moves at *
  generalize p.rows = rs at first ⊢
  generalize q.rows = rs' at first second
  generalize q'.rows = rs'' at second ⊢
  induction first generalizing rs'' with
  | nil =>
    cases second
    exact .nil
  | cons moved _ ih =>
    cases second with
    | cons moved' rest =>
      refine .cons ?_ (ih _ rest)
      rcases moved with rfl | ⟨holds, rfl⟩
      · exact moved'
      · rcases moved' with rfl | ⟨_, rfl⟩ <;> exact .inr ⟨holds, rfl⟩

theorem weaken (moves : p.Moves P q) (after : ∀ r, P r → Q r) : p.Moves Q q :=
  List.Forall₂.imp (fun _ _ => Or.imp_right fun moved => ⟨after _ moved.1, moved.2⟩) moves

theorem promote (holds : ∀ r, p.rows[row]? = some r → P r) (ran : p.promote row = .ok q) :
    p.Moves P q := by
  unfold Population.promote at ran
  split at ran
  · cases ran
    exact refl P p
  · split at ran
    · cases ran
      refine List.forall₂_iff_get.mpr ⟨(List.length_modify ..).symm, fun i below below' => ?_⟩
      simp only [List.get_eq_getElem, List.getElem_modify]
      split
      · rename_i same
        cases same
        exact .inr ⟨holds _ (List.getElem?_eq_getElem below), rfl⟩
      · exact .inl rfl
    · cases ran

end Moves
end Population

variable [Scalar α]

/-- The first reward of a block. -/
def Block.leading (b : Block α) : α := b.rewards.headD Scalar.notANumber

namespace Row

/-- The first reward that a row has settled on; without an incumbent there is none. -/
def standing (r : Row α) : α := (r.incumbent.map Block.leading).getD Scalar.notANumber

variable {r : Row α}

theorem Sized.standing (sized : r.Sized l) (phases : l.twoPhase = true) :
    r.standing = (r.block .incumbent).leading := by
  have held : r.incumbent.isSome = true := sized.phases.trans phases
  obtain ⟨b, held⟩ := Option.isSome_iff_exists.mp held
  rw [Row.standing, Row.block, held]
  rfl

end Row

namespace Population

variable {p q : Population α} {row : Nat} {region : Region} {P : Row α → Prop}

/-- The first rewards that the rows have settled on. -/
def standings (p : Population α) : List α := p.rows.map Row.standing

theorem standings_congr (same : q.incumbents = p.incumbents) : q.standings = p.standings := by
  have standings (p : Population α) : p.standings =
      p.incumbents.map fun b => (b.map Block.leading).getD Scalar.notANumber := by
    rw [incumbents, List.map_map]
    rfl
  rw [standings, standings, same]

theorem rewardAt_ok {r : Row α} {x : α} (held : p.rows[row]? = some r)
    (read : p.rewardAt region 0 row = .ok x) : x = (r.block region).leading := by
  obtain ⟨reward, found, read⟩ := bind_ok.mp read
  unfold Population.reward field at found
  split at found
  · rw [held] at found
    cases found
    dsimp only [Option.map_some, Option.getD_some] at read
    rw [Block.leading]
    split at read
    · rename_i first
      cases read
      rw [List.headD_eq_head?_getD, List.head?_eq_getElem?, first]
      rfl
    · cases read
  · cases found

/-- The column of the incumbents is what the rows have settled on. -/
theorem Sized.rewardColumn_standings {column : List α} (sized : p.Sized l n)
    (phases : l.twoPhase = true) (read : p.rewardColumn .incumbent 0 = .ok column) :
    column = p.standings := by
  obtain ⟨length, items⟩ := mapM_ok read
  rw [List.length_range, sized.count] at length
  refine List.ext_getElem? fun i => ?_
  by_cases below : i < n
  · have inside : i < p.rows.length := Nat.lt_of_lt_of_eq below sized.length.symm
    have held := List.getElem?_eq_getElem inside
    obtain ⟨x, place, one⟩ := items i i (by rw [sized.count]; exact List.getElem?_range below)
    rw [place, standings, List.getElem?_map, held, Option.map_some, rewardAt_ok held one,
      (sized.rows i _ held).standing phases]
  · rw [List.getElem?_eq_none (by omega), List.getElem?_eq_none]
    rw [standings, List.length_map, sized.length]
    exact Nat.le_of_not_lt below

section Trials

variable {start length : Nat} {f : Block α → Block α}

omit [Scalar α] in
theorem incumbents_modifyField (ran : p.modifyField row .trial start length f = .ok q) :
    q.incumbents = p.incumbents := by
  rw [modifyField_ok ran]
  refine List.ext_getElem? fun i => ?_
  simp only [incumbents, List.getElem?_map, List.getElem?_modify]
  cases p.rows[i]? with
  | none => rfl
  | some r =>
    by_cases same : row = i
    · simp [same, r.incumbent_modify_trial f]
    · simp [same]

omit [Scalar α] in
theorem incumbents_setChromosome {genes : List α}
    (ran : p.setChromosome row .trial genes = .ok q) : q.incumbents = p.incumbents := by
  unfold setChromosome at ran
  split at ran
  · exact incumbents_modifyField ran
  · cases ran

theorem incumbents_clip (ran : p.clip .trial = .ok q) : q.incumbents = p.incumbents :=
  foldlM_ok (I := fun q => q.incumbents = p.incumbents)
    (fun _ _ _ _ same step => (incumbents_modifyField step).trans same) rfl ran

theorem incumbents_assign {s : Scoring α} {e : Evaluation α} (ran : s.assign e p .trial = .ok q) :
    q.incumbents = p.incumbents := by
  refine foldlM_ok (I := fun q => q.incumbents = p.incumbents)
    (fun row _ q q' same step => ?_) rfl ran
  obtain ⟨_, _, step⟩ := bind_ok.mp step
  obtain ⟨q₁, marked, step⟩ := bind_ok.mp step
  obtain ⟨_, _, step⟩ := bind_ok.mp step
  obtain ⟨_, _, rewarded⟩ := bind_ok.mp step
  exact (incumbents_modifyField (setReward_ok rewarded)).trans
    ((incumbents_modifyField marked).trans same)

theorem incumbents_walkRows [RandomSource ρ α] (rows : List Nat) (p : Population α) :
    Draw.Yields (walkRows rows p : Draw ρ (Population α))
      fun q => q.incumbents = p.incumbents := by
  induction rows generalizing p with
  | nil => exact .pure rfl
  | cons row rows ih =>
    refine Draw.Yields.anything.bind fun base _ => Draw.Yields.anything.bind fun genes _ =>
      (Draw.Yields.ofExcept fun q written => incumbents_setChromosome written).bind
        fun q same => ?_
    exact (ih q).weaken fun _ kept => kept.trans same

/-- In a new population nothing is evaluated yet. -/
theorem draw_fresh [RandomSource ρ α] (directions : List Direction) (layout : Layout)
    (count : Nat) :
    Draw.Yields (draw layout directions count : Draw ρ (Population α))
      fun p => ∀ r ∈ p.rows, ∃ genes, r = freshRow layout directions genes := by
  have rows : Draw.Yields (drawRows layout directions count : Draw ρ (List (Row α)))
      fun rows => ∀ r ∈ rows, ∃ genes, r = freshRow layout directions genes := by
    induction count with
    | zero => exact .pure nofun
    | succ count ih =>
      exact Draw.Yields.anything.bind fun genes _ => ih.bind fun rest fresh =>
        .pure (List.forall_mem_cons.mpr ⟨⟨genes, rfl⟩, fresh⟩)
  exact rows.bind fun rows fresh => .pure fresh

theorem standings_draw [RandomSource ρ α] {d : Direction} {directions : List Direction}
    (first : directions.head? = some d) (layout : Layout) (phases : layout.twoPhase = true)
    (count : Nat) :
    Draw.Yields (draw layout directions count : Draw ρ (Population α))
      fun p => ∀ x ∈ p.standings, x = d.worst := by
  refine (draw_fresh directions layout count).weaken fun p fresh x member => ?_
  obtain ⟨r, inside, rfl⟩ := List.mem_map.mp member
  obtain ⟨genes, rfl⟩ := fresh r inside
  obtain ⟨ds, rfl⟩ := List.head?_eq_some_iff.mp first
  rw [freshRow, Row.standing, if_pos phases]
  rfl

end Trials

namespace Moves

/-- No row moves to something worse, if the property rules it out. -/
theorem standings [Scalar.LawfulOrder α] {d : Direction}
    (moves : p.Moves (fun r => d.isBetter r.standing r.trial.leading = false) q) :
    List.Forall₂ (fun x y => d.isBetter x y = false) p.standings q.standings := by
  refine List.forall₂_map_left_iff.mpr (List.forall₂_map_right_iff.mpr (moves.imp ?_))
  rintro r _ (rfl | ⟨notWorse, rfl⟩)
  · exact Direction.isBetter_irrefl
  · exact notWorse

/-- What a row has settled on it had before or found in its trial. -/
theorem mem_standings {x : α} (moves : p.Moves P q) (member : x ∈ q.standings) :
    x ∈ p.standings ∨ ∃ r ∈ p.rows, r.trial.leading = x := by
  obtain ⟨r', inside, rfl⟩ := List.mem_map.mp member
  obtain ⟨i, below, place⟩ := List.mem_iff_getElem.mp inside
  have below' : i < p.rows.length := moves.length_eq ▸ below
  have moved := moves.get below' below
  rw [List.get_eq_getElem, List.get_eq_getElem, place] at moved
  rcases moved with same | ⟨_, same⟩
  · rw [same]
    exact .inl (List.mem_map.mpr ⟨_, List.getElem_mem below', rfl⟩)
  · rw [same]
    exact .inr ⟨_, List.getElem_mem below', rfl⟩

end Moves
end Population
end Metaheuristic
