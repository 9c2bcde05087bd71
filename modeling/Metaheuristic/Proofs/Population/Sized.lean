import Metaheuristic.Population.Ranking
import Metaheuristic.Proofs.Computation
import Metaheuristic.Quality.Scoring

/-! Populations in which every row holds what the layout says: as many genes and
rewards in each block, and an incumbent exactly when there are two phases. No
operation on a population breaks this. -/
namespace Metaheuristic

variable {α : Type} {l : Layout} {n : Nat}

structure Block.Sized (l : Layout) (b : Block α) : Prop where
  genes : b.genes.length = l.genes
  rewards : b.rewards.length = l.objectives

structure Row.Sized (l : Layout) (r : Row α) : Prop where
  trial : r.trial.Sized l
  incumbent : ∀ b, r.incumbent = some b → b.Sized l
  phases : r.incumbent.isSome = l.twoPhase

namespace Row

variable {r : Row α}

theorem Sized.block (sized : r.Sized l) (region : Region) : (r.block region).Sized l := by
  cases region with
  | trial => exact sized.trial
  | incumbent =>
    unfold Row.block
    cases held : r.incumbent with
    | none => exact sized.trial
    | some b => exact sized.incumbent b held

theorem Sized.modify (sized : r.Sized l) (region : Region) {f : Block α → Block α}
    (keeps : ∀ b, b.Sized l → (f b).Sized l) : (r.modify region f).Sized l := by
  obtain ⟨trial, incumbent⟩ := r
  cases region with
  | trial => exact ⟨keeps _ sized.trial, sized.incumbent, sized.phases⟩
  | incumbent =>
    cases incumbent with
    | none => exact ⟨keeps _ sized.trial, sized.incumbent, sized.phases⟩
    | some b =>
      refine ⟨sized.trial, fun c held => ?_, sized.phases⟩
      cases held
      exact keeps b (sized.incumbent b rfl)

theorem Sized.promote (sized : r.Sized l) (phases : l.twoPhase = true) : r.promote.Sized l := by
  refine ⟨sized.trial, fun b held => ?_, phases.symm⟩
  cases held
  exact sized.trial

end Row

namespace Population

/-- A population of `n` rows of a layout. -/
structure Sized (l : Layout) (n : Nat) (p : Population α) : Prop where
  layout : p.layout = l
  count : p.count = n
  length : p.rows.length = n
  rows : ∀ (i : Nat) r, p.rows[i]? = some r → r.Sized l

variable {p p' : Population α} {row : Nat} {region : Region}

theorem modifyField_ok {start length : Nat} {f : Block α → Block α}
    (ran : p.modifyField row region start length f = .ok p') :
    p' = { p with rows := p.rows.modify row fun r => r.modify region f } := by
  unfold modifyField at ran
  split at ran
  · cases ran
    rfl
  · cases ran

private theorem Sized.modify (sized : p.Sized l n) {f : Row α → Row α}
    (keeps : ∀ r, r.Sized l → (f r).Sized l) :
    { p with rows := p.rows.modify row f }.Sized l n := by
  refine ⟨sized.layout, sized.count, ?_, fun i r place => ?_⟩
  · exact (List.length_modify ..).trans sized.length
  · simp only [List.getElem?_modify] at place
    cases held : p.rows[i]? with
    | none =>
      rw [held] at place
      cases place
    | some old =>
      rw [held] at place
      have rowSized := sized.rows i old held
      cases place
      split
      · exact keeps old rowSized
      · exact rowSized

theorem Sized.modifyField {start length : Nat} {f : Block α → Block α} (sized : p.Sized l n)
    (ran : p.modifyField row region start length f = .ok p')
    (keeps : ∀ b, b.Sized l → (f b).Sized l) : p'.Sized l n := by
  rw [modifyField_ok ran]
  exact Sized.modify sized fun r rowSized => rowSized.modify region keeps

theorem Sized.setChromosome {genes : List α} (sized : p.Sized l n)
    (ran : p.setChromosome row region genes = .ok p') : p'.Sized l n := by
  unfold Population.setChromosome at ran
  split at ran
  · rename_i length
    rw [sized.layout] at length
    exact sized.modifyField ran fun b blockSized => ⟨length, blockSized.rewards⟩
  · cases ran

theorem Sized.setStatus {status : Feasibility} (sized : p.Sized l n)
    (ran : p.setStatus row region status = .ok p') : p'.Sized l n :=
  Sized.modifyField sized ran fun _ blockSized => ⟨blockSized.genes, blockSized.rewards⟩

theorem Sized.setReward {rewards : List α} (sized : p.Sized l n)
    (ran : p.setReward row region rewards = .ok p') : p'.Sized l n := by
  unfold Population.setReward at ran
  split at ran
  · rename_i length
    rw [sized.layout] at length
    exact sized.modifyField ran fun b blockSized => ⟨blockSized.genes, length⟩
  · cases ran

theorem Sized.promote (sized : p.Sized l n) (ran : p.promote row = .ok p') : p'.Sized l n := by
  unfold Population.promote at ran
  split at ran
  · cases ran
    exact sized
  · rename_i twice
    split at ran
    · cases ran
      have phases : l.twoPhase = true := by
        rw [sized.layout] at twice
        simpa using twice
      exact Sized.modify sized fun r rowSized => rowSized.promote phases
    · cases ran

theorem Sized.copyRow {source target : Nat} (sized : p.Sized l n)
    (ran : p.copyRow source target region = .ok p') : p'.Sized l n := by
  unfold Population.copyRow at ran
  split at ran
  · cases ran
    exact sized
  · split at ran
    · rename_i r _ held _
      cases ran
      have block := (sized.rows source r held).block region
      exact Sized.modify sized fun t rowSized => rowSized.modify region fun _ _ => block
    · cases ran

theorem Sized.clip [Scalar α] (sized : p.Sized l n) (ran : p.clip region = .ok p') :
    p'.Sized l n := by
  refine foldlM_ok (I := Sized l n) (fun row _ q q' good step => ?_) sized ran
  exact good.modifyField step
    fun b blockSized => ⟨(List.length_map _).trans blockSized.genes, blockSized.rewards⟩

/-- A row, which must be there. -/
def rowAt (p : Population α) (row : Nat) : Except Fault (Row α) :=
  match p.rows[row]? with
  | some r => .ok r
  | none => .error .outOfRange

theorem reorder_eq (p : Population α) (order : List Nat) :
    p.reorder order = (order.mapM p.rowAt).map fun rows => { p with rows := rows } := by
  have unfolded : p.reorder order =
      (order.mapM p.rowAt >>= fun rows => .ok { p with rows := rows }) := rfl
  rw [unfolded]
  cases order.mapM p.rowAt <;> rfl

/-- Reordering copies whole rows: each place of the order gets the row that it names. -/
theorem reorder_moved {order : List Nat} (ran : p.reorder order = .ok p') :
    p'.layout = p.layout ∧ p'.count = p.count ∧ p'.rows.length = order.length ∧
      ∀ i row : Nat, order[i]? = some row → ∃ r, p.rows[row]? = some r ∧ p'.rows[i]? = some r := by
  obtain ⟨rows, taken, built⟩ := bind_ok.mp ran
  cases built
  obtain ⟨length, items⟩ := mapM_ok taken
  refine ⟨rfl, rfl, length, fun i row place => ?_⟩
  obtain ⟨r, found, read⟩ := items i row place
  split at read
  · rename_i held
    cases read
    exact ⟨r, held, found⟩
  · cases read

/-- An order with an entry for each row. -/
theorem Sized.reorder {order : List Nat} (sized : p.Sized l n) (length : order.length = n)
    (ran : p.reorder order = .ok p') : p'.Sized l n := by
  obtain ⟨layout, count, same, moved⟩ := reorder_moved ran
  refine ⟨layout.trans sized.layout, count.trans sized.count, same.trans length,
    fun i r place => ?_⟩
  have below : i < order.length := same ▸ (List.getElem?_eq_some_iff.mp place).1
  obtain ⟨r', held, place'⟩ := moved i _ (List.getElem?_eq_getElem below)
  rw [place] at place'
  cases place'
  exact sized.rows _ _ held

theorem perm_sortedBy (compare : Nat → Nat → Ordering) :
    (sortedBy compare n).Perm (List.range n) := List.mergeSort_perm ..

theorem perm_rankPoints [Scalar α] {points : List (List α)} {order : List Nat}
    (ran : rankPoints points = .ok order) : order.Perm (List.range points.length) := by
  obtain ⟨_, _, built⟩ := bind_ok.mp ran
  cases built
  exact perm_sortedBy _

/-- A ranking names each row once. -/
theorem perm_ranking [Scalar α] {directions : List Direction} {order : List Nat}
    (ran : p.ranking region directions = .ok order) : order.Perm (List.range p.count) := by
  unfold ranking at ran
  split at ran
  · split at ran
    · cases ran
      exact .refl _
    · obtain ⟨_, _, built⟩ := bind_ok.mp ran
      cases built
      exact perm_sortedBy _
  · obtain ⟨rewards, read, ranked⟩ := bind_ok.mp ran
    have placed := perm_rankPoints ranked
    rwa [List.length_map, (mapM_ok read).1, List.length_range] at placed

theorem length_ranking [Scalar α] {directions : List Direction} {order : List Nat}
    (ran : p.ranking region directions = .ok order) : order.length = p.count :=
  (perm_ranking ran).length_eq.trans List.length_range

theorem Sized.sortBestFirst [Scalar α] {directions : List Direction} (sized : p.Sized l n)
    (ran : p.sortBestFirst region directions = .ok p') : p'.Sized l n := by
  obtain ⟨order, ranked, reordered⟩ := bind_ok.mp ran
  exact sized.reorder ((length_ranking ranked).trans sized.count) reordered

end Population
end Metaheuristic
