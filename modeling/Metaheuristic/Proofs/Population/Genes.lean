import Metaheuristic.Proofs.Population.Evaluated
import Metaheuristic.Proofs.Population.Sized

/-! Properties that all genes of a population have, one property for the trials and one for
the incumbents. What is written into the trials decides about these, promoting takes the
property of the trials over to the incumbents, and reordering, selecting and scoring leave
the genes as they are. -/
namespace Metaheuristic

variable {α : Type} {P P' Q R : α → Prop}

/-- Every gene of the trial has one property and every gene of the incumbent another. -/
structure Row.Genes (P Q : α → Prop) (r : Row α) : Prop where
  trial : ∀ g ∈ r.trial.genes, P g
  incumbent : ∀ b, r.incumbent = some b → ∀ g ∈ b.genes, Q g

namespace Row.Genes

variable {r : Row α}

theorem weaken (genes : r.Genes P Q) (after : ∀ g, P g → P' g) : r.Genes P' Q :=
  ⟨fun g member => after g (genes.trial g member), genes.incumbent⟩

/-- Without an incumbent both regions mean the trial. -/
theorem block (genes : r.Genes P Q) (region : Region) (first : ∀ g, P g → R g)
    (second : ∀ g, Q g → R g) : ∀ g ∈ (r.block region).genes, R g := by
  intro g member
  cases region with
  | trial => exact first g (genes.trial g member)
  | incumbent =>
    unfold Row.block at member
    cases held : r.incumbent with
    | none =>
      rw [held] at member
      exact first g (genes.trial g member)
    | some b =>
      rw [held] at member
      exact second g (genes.incumbent b held g member)

theorem modifyTrial (genes : r.Genes P Q) {f : Block α → Block α}
    (written : ∀ g ∈ (f r.trial).genes, P' g) : (r.modify .trial f).Genes P' Q :=
  ⟨written, genes.incumbent⟩

theorem promote (genes : r.Genes P Q) (taken : ∀ g, P g → Q g) : r.promote.Genes P Q := by
  refine ⟨genes.trial, fun b held => ?_⟩
  cases held
  exact fun g member => taken g (genes.trial g member)

/-- Changing anything but genes. -/
theorem modify (genes : r.Genes P Q) (region : Region) {f : Block α → Block α}
    (same : ∀ b, (f b).genes = b.genes) : (r.modify region f).Genes P Q := by
  obtain ⟨trial, incumbent⟩ := r
  have changed : ∀ g ∈ (f trial).genes, P g := by
    rw [same]
    exact genes.trial
  cases region with
  | trial => exact ⟨changed, genes.incumbent⟩
  | incumbent =>
    cases incumbent with
    | none => exact ⟨changed, genes.incumbent⟩
    | some b =>
      refine ⟨genes.trial, fun c held => ?_⟩
      cases held
      rw [same]
      exact genes.incumbent b rfl

end Row.Genes

namespace Population

/-- The genes of every row have the properties. -/
def Genes (P Q : α → Prop) (p : Population α) : Prop :=
  ∀ (i : Nat) r, p.rows[i]? = some r → r.Genes P Q

namespace Genes

variable {p p' : Population α} {row : Nat} {region : Region}

theorem weaken (genes : p.Genes P Q) (after : ∀ g, P g → P' g) : p.Genes P' Q :=
  fun i r held => (genes i r held).weaken after

/-- Genes that are read have the property of their region. -/
theorem chromosome {xs : List α} (genes : p.Genes P Q) (ran : p.chromosome row region = .ok xs)
    (first : ∀ g, P g → R g) (second : ∀ g, Q g → R g) : ∀ g ∈ xs, R g := by
  unfold Population.chromosome field at ran
  split at ran
  · cases held : p.rows[row]? with
    | none =>
      rw [held] at ran
      cases ran
      exact nofun
    | some r =>
      rw [held] at ran
      cases ran
      exact (genes row r held).block region first second
  · cases ran

/-- Behind a row of a list in which one was changed stands the row that was there. -/
private theorem modify_place {rows : List (Row α)} {f : Row α → Row α} {i : Nat} {r : Row α}
    (place : (rows.modify row f)[i]? = some r) :
    ∃ old, rows[i]? = some old ∧ r = if row = i then f old else old := by
  rw [List.getElem?_modify] at place
  obtain ⟨old, held, rfl⟩ := Option.map_eq_some_iff.mp place
  exact ⟨old, held, rfl⟩

private theorem modifyRow (genes : p.Genes P Q) {f : Row α → Row α}
    (keeps : ∀ r, r.Genes P Q → (f r).Genes P Q) :
    Genes P Q { p with rows := p.rows.modify row f } := by
  intro i r place
  obtain ⟨old, held, rfl⟩ := modify_place place
  split
  · exact keeps old (genes i old held)
  · exact genes i old held

theorem setTrial {xs : List α} (genes : p.Genes P Q) (new : ∀ g ∈ xs, P g)
    (ran : p.setChromosome row .trial xs = .ok p') : p'.Genes P Q := by
  unfold setChromosome at ran
  split at ran
  · rw [modifyField_ok ran]
    exact genes.modifyRow fun r own => own.modifyTrial new
  · cases ran

theorem promote (genes : p.Genes P Q) (taken : ∀ g, P g → Q g) (ran : p.promote row = .ok p') :
    p'.Genes P Q := by
  unfold Population.promote at ran
  split at ran
  · cases ran
    exact genes
  · split at ran
    · cases ran
      exact genes.modifyRow fun r own => own.promote taken
    · cases ran

/-- Clamping goes from row to row; the rows that it has passed have the new property. -/
theorem clip [Scalar α] (genes : p.Genes P Q) (covered : p.rows.length ≤ p.count)
    (clamped : ∀ g, P g → P' (Scalar.clampUnit g)) (ran : p.clip .trial = .ok p') :
    p'.Genes P' Q := by
  have passed : p'.rows.length = p.rows.length ∧
      ∀ (i : Nat) r, p'.rows[i]? = some r → r.Genes (if i < p.count then P' else P) Q := by
    refine foldlM_range (I := fun k (q : Population α) => q.rows.length = p.rows.length ∧
      ∀ (i : Nat) r, q.rows[i]? = some r → r.Genes (if i < k then P' else P) Q) ?_ ?_ ran
    · rintro k _ q q' ⟨length, good⟩ step
      rw [modifyField_ok step]
      refine ⟨(List.length_modify ..).trans length, fun i r place => ?_⟩
      obtain ⟨old, held, rfl⟩ := modify_place place
      have own := good i old held
      by_cases here : k = i
      · subst here
        rw [if_neg (Nat.lt_irrefl k)] at own
        rw [if_pos (Nat.lt_succ_self k), if_pos rfl]
        refine own.modifyTrial fun g member => ?_
        obtain ⟨g', inside, rfl⟩ := List.mem_map.mp member
        exact clamped g' (own.trial g' inside)
      · have same : (i < k + 1) = (i < k) := propext (by omega)
        rw [if_neg here]
        simpa only [same] using own
    · exact ⟨rfl, fun i r held => by simpa using genes i r held⟩
  intro i r place
  have own := passed.2 i r place
  have below : i < p'.rows.length := (List.getElem?_eq_some_iff.mp place).1
  rw [passed.1] at below
  rwa [if_pos (Nat.lt_of_lt_of_le below covered)] at own

/-- Reordered rows are rows that were there. -/
theorem reorder {order : List Nat} (genes : p.Genes P Q) (ran : p.reorder order = .ok p') :
    p'.Genes P Q := by
  obtain ⟨rows, taken, built⟩ := bind_ok.mp ran
  cases built
  intro i r place
  obtain ⟨j, _, read⟩ := mem_mapM_ok taken (List.mem_of_getElem? place)
  split at read
  · rename_i held
    cases read
    exact genes j _ held
  · cases read

theorem sortBestFirst [Scalar α] {directions : List Direction} (genes : p.Genes P Q)
    (ran : p.sortBestFirst region directions = .ok p') : p'.Genes P Q := by
  obtain ⟨order, _, reordered⟩ := bind_ok.mp ran
  exact genes.reorder reordered

private theorem modifyField {start length : Nat} {f : Block α → Block α} (genes : p.Genes P Q)
    (ran : p.modifyField row region start length f = .ok p')
    (same : ∀ b, (f b).genes = b.genes) : p'.Genes P Q := by
  rw [modifyField_ok ran]
  exact genes.modifyRow fun r own => own.modify region same

/-- Writing the outcome of a pass leaves the genes as they are. -/
theorem assign [Scalar α] {s : Scoring α} {e : Evaluation α} (genes : p.Genes P Q)
    (ran : s.assign e p region = .ok p') : p'.Genes P Q := by
  refine foldlM_ok (I := Genes P Q) (fun row _ q q' good step => ?_) genes ran
  obtain ⟨penalty, _, step⟩ := bind_ok.mp step
  obtain ⟨q₁, classified, step⟩ := bind_ok.mp step
  obtain ⟨slots, _, step⟩ := bind_ok.mp step
  obtain ⟨rewards, _, step⟩ := bind_ok.mp step
  have first : q₁.Genes P Q := good.modifyField classified fun b => rfl
  exact first.modifyField (setReward_ok step) fun b => rfl

end Genes
end Population
end Metaheuristic
