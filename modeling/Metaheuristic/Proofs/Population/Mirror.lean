import Metaheuristic.Population.Sampling
import Metaheuristic.Proofs.Model.Mirror
import Metaheuristic.Proofs.Population.Addressed
import Metaheuristic.Proofs.Random.Draw

/-! Populations with one objective mirrored. Genes and feasibility are the same, so
whatever reads or writes them does the same; ranking and scoring commute with the
mirror because comparing and penalizing do. -/
namespace Metaheuristic

variable {α : Type} [Scalar α]

def Block.mirror (k : Nat) (b : Block α) : Block α :=
  { b with rewards := mirrorReward k b.rewards }

def Row.mirror (k : Nat) (r : Row α) : Row α :=
  ⟨r.trial.mirror k, r.incumbent.map (Block.mirror k)⟩

def Population.mirror (k : Nat) (p : Population α) : Population α :=
  { p with rows := p.rows.map (Row.mirror k) }

namespace Row

theorem block_mirror (r : Row α) (region : Region) (k : Nat) :
    (r.mirror k).block region = (r.block region).mirror k := by
  obtain ⟨trial, _ | incumbent⟩ := r <;> cases region <;> rfl

theorem modify_mirror {f f' : Block α → Block α} {k : Nat}
    (same : ∀ b, f' (b.mirror k) = (f b).mirror k) (r : Row α) (region : Region) :
    (r.mirror k).modify region f' = (r.modify region f).mirror k := by
  obtain ⟨trial, _ | incumbent⟩ := r <;> cases region <;> simp [modify, mirror, same]

theorem promote_mirror (r : Row α) (k : Nat) : (r.mirror k).promote = r.promote.mirror k := rfl

theorem Sized.mirror {l : Layout} {r : Row α} (sized : r.Sized l) (k : Nat) :
    (r.mirror k).Sized l := by
  have block {b : Block α} (own : b.Sized l) : (b.mirror k).Sized l :=
    ⟨own.genes, (List.length_modify ..).trans own.rewards⟩
  refine ⟨block sized.trial, fun b held => ?_, (Option.isSome_map ..).trans sized.phases⟩
  obtain ⟨old, found, rfl⟩ := Option.map_eq_some_iff.mp held
  exact block (sized.incumbent old found)

end Row

namespace Population

variable {p : Population α} {k row start length : Nat} {region : Region}

theorem Sized.mirror {l : Layout} {n : Nat} (sized : p.Sized l n) (k : Nat) :
    (p.mirror k).Sized l n := by
  refine ⟨sized.layout, sized.count, (List.length_map _).trans sized.length, fun i r place => ?_⟩
  obtain ⟨old, held, rfl⟩ := Option.map_eq_some_iff.mp (List.getElem?_map .. ▸ place)
  exact (sized.rows i old held).mirror k

/-- Changing one row of a list, and mirroring all of them. -/
theorem map_modify {f f' : Row α → Row α} (same : ∀ r, f' (r.mirror k) = (f r).mirror k)
    (rows : List (Row α)) (row : Nat) :
    (rows.map (Row.mirror k)).modify row f' = (rows.modify row f).map (Row.mirror k) := by
  induction rows generalizing row with
  | nil => simp
  | cons r rows ih => cases row <;> simp [same, ih]

theorem fits_mirror :
    (p.mirror k).fits row region start length = p.fits row region start length := by
  rw [fits, fits, mirror, List.length_map]

theorem field_mirror {β : Type} {f : Block α → β} {none : β} {g : β → β}
    (same : ∀ b, f (b.mirror k) = g (f b)) (absent : none = g none) :
    (p.mirror k).field row region start length f none =
      (p.field row region start length f none).map g := by
  have read : ((p.mirror k).rows[row]?.map fun r => f (r.block region)).getD none =
      g ((p.rows[row]?.map fun r => f (r.block region)).getD none) := by
    rw [mirror, List.getElem?_map]
    cases p.rows[row]? with
    | none => exact absent
    | some r => exact (congrArg f (r.block_mirror region k)).trans (same _)
  unfold field
  rw [fits_mirror, read]
  split <;> rfl

/-- A field that is no reward. -/
theorem field_same {β : Type} {f : Block α → β} {none : β} (same : ∀ b, f (b.mirror k) = f b) :
    (p.mirror k).field row region start length f none = p.field row region start length f none :=
  (field_mirror (g := id) same rfl).trans (congrFun Except.map_id _)

theorem chromosome_mirror (p : Population α) (row : Nat) (region : Region) (k : Nat) :
    (p.mirror k).chromosome row region = p.chromosome row region :=
  field_same fun _ => rfl

theorem status_mirror (p : Population α) (row : Nat) (region : Region) (k : Nat) :
    (p.mirror k).status row region = p.status row region :=
  field_same fun _ => rfl

theorem reward_mirror (p : Population α) (row : Nat) (region : Region) (k : Nat) :
    (p.mirror k).reward row region = (p.reward row region).map (mirrorReward k) :=
  field_mirror (fun _ => rfl) (mirrorReward_nil k).symm

theorem modifyField_mirror {f f' : Block α → Block α}
    (same : ∀ b, f' (b.mirror k) = (f b).mirror k) :
    (p.mirror k).modifyField row region start length f' =
      (p.modifyField row region start length f).map (Population.mirror k) := by
  have rows : (p.mirror k).rows.modify row (fun r => r.modify region f') =
      (p.rows.modify row fun r => r.modify region f).map (Row.mirror k) :=
    map_modify (fun r => r.modify_mirror same region) p.rows row
  unfold modifyField
  rw [fits_mirror, rows]
  split <;> rfl

theorem setChromosome_mirror (p : Population α) (row : Nat) (region : Region) (genes : List α)
    (k : Nat) :
    (p.mirror k).setChromosome row region genes =
      (p.setChromosome row region genes).map (Population.mirror k) := by
  have layout : (p.mirror k).layout = p.layout := rfl
  rw [setChromosome, setChromosome, layout]
  by_cases fitting : genes.length = p.layout.genes
  · rw [if_pos fitting, if_pos fitting]
    exact modifyField_mirror fun _ => rfl
  · rw [if_neg fitting, if_neg fitting]
    rfl

theorem setStatus_mirror (p : Population α) (row : Nat) (region : Region) (status : Feasibility)
    (k : Nat) :
    (p.mirror k).setStatus row region status =
      (p.setStatus row region status).map (Population.mirror k) :=
  modifyField_mirror fun _ => rfl

theorem setReward_mirror (p : Population α) (row : Nat) (region : Region) (rewards : List α)
    (k : Nat) :
    (p.mirror k).setReward row region (mirrorReward k rewards) =
      (p.setReward row region rewards).map (Population.mirror k) := by
  have layout : (p.mirror k).layout = p.layout := rfl
  rw [setReward, setReward, length_mirrorReward, layout]
  by_cases fitting : rewards.length = p.layout.objectives
  · rw [if_pos fitting, if_pos fitting]
    exact modifyField_mirror fun _ => rfl
  · rw [if_neg fitting, if_neg fitting]
    rfl

theorem promote_mirror (p : Population α) (row k : Nat) :
    (p.mirror k).promote row = (p.promote row).map (Population.mirror k) := by
  have rows : (p.mirror k).rows.modify row Row.promote =
      (p.rows.modify row Row.promote).map (Row.mirror k) :=
    map_modify (fun r => r.promote_mirror k) p.rows row
  have length : (p.mirror k).rows.length = p.rows.length := List.length_map _
  have layout : (p.mirror k).layout = p.layout := rfl
  rw [promote, promote, rows, length, layout]
  by_cases single : (!p.layout.twoPhase) = true
  · rw [if_pos single, if_pos single]
    rfl
  · rw [if_neg single, if_neg single]
    split <;> rfl

theorem clip_mirror (p : Population α) (region : Region) (k : Nat) :
    (p.mirror k).clip region = (p.clip region).map (Population.mirror k) := by
  have step (p : Population α) (row : Nat) :
      (p.mirror k).modifyField row region 0 p.layout.genes
          (fun b => { b with genes := b.genes.map Scalar.clampUnit }) =
        (p.modifyField row region 0 p.layout.genes
          fun b => { b with genes := b.genes.map Scalar.clampUnit }).map (Population.mirror k) :=
    modifyField_mirror fun _ => rfl
  exact foldlM_image step (List.range p.count) p

theorem view_mirror (p : Population α) (region : Region) (k : Nat) :
    (p.mirror k).view region = p.view region := by
  have rows : (fun row => (p.mirror k).chromosome row region) = fun row =>
      p.chromosome row region := funext fun row => chromosome_mirror p row region k
  unfold view
  rw [fits_mirror, rows]
  rfl

theorem agent_mirror (p : Population α) (row : Nat) (region : Region) (k : Nat) :
    (p.mirror k).agent row region = (p.agent row region).map (Agent.mirror k) := by
  rw [agent, agent, chromosome_mirror, status_mirror]
  refine bind_same fun genes => bind_image (p.reward_mirror row region k) fun reward => ?_
  exact bind_same fun status => rfl

theorem agents_mirror (p : Population α) (region : Region) (k : Nat) :
    (p.mirror k).agents region = (p.agents region).map (List.map (Agent.mirror k)) :=
  mapM_image (fun row => agent_mirror p row region k) (List.range p.count)

theorem rewardAt_mirror (p : Population α) (region : Region) (i row k : Nat) :
    (p.mirror k).rewardAt region i row =
      (p.rewardAt region i row).map (Scalar.turn (k == i)) := by
  refine bind_image (p.reward_mirror row region k) fun reward => ?_
  rw [getElem?_mirrorReward]
  cases reward[i]? <;> rfl

theorem rewardColumn_mirror (p : Population α) (region : Region) (i k : Nat) :
    (p.mirror k).rewardColumn region i =
      (p.rewardColumn region i).map (List.map (Scalar.turn (k == i))) :=
  mapM_image (fun row => rewardAt_mirror p region i row k) (List.range p.count)

theorem reorder_mirror (p : Population α) (order : List Nat) (k : Nat) :
    (p.mirror k).reorder order = (p.reorder order).map (Population.mirror k) := by
  have picked (row : Nat) : (p.mirror k).rowAt row = (p.rowAt row).map (Row.mirror k) := by
    rw [rowAt, rowAt, mirror, List.getElem?_map]
    cases p.rows[row]? <;> rfl
  rw [reorder_eq, reorder_eq, mapM_image picked]
  cases order.mapM p.rowAt <;> rfl

section Ranking

variable [Scalar.LawfulNegation α]

omit [Scalar.LawfulNegation α] in
/-- Without exactly one objective, fronts and crowding rank. -/
private theorem ranking_many (p : Population α) {ds : List Direction} (region : Region)
    (many : ds.length ≠ 1) :
    p.ranking region ds = (do
      let rewards ← (List.range p.count).mapM fun row => p.reward row region
      rankPoints (rewards.map (toMinima ds))) := by
  match ds, many with
  | [], _ => rfl
  | [d], many => exact absurd rfl many
  | d :: e :: rest, _ => rfl

theorem ranking_mirror (p : Population α) (region : Region) (ds : List Direction) (k : Nat) :
    (p.mirror k).ranking region (mirrorDirections k ds) = p.ranking region ds := by
  by_cases one : ds.length = 1
  · obtain ⟨d, rfl⟩ := List.length_eq_one_iff.mp one
    rw [mirrorDirections_single, ranking, ranking, rewardColumn_mirror]
    have count : (p.mirror k).count = p.count := rfl
    rw [count]
    split
    · rfl
    · rw [bind_map_except]
      refine bind_congr fun column => ?_
      have entry (i : Nat) :
          (column.map (Scalar.turn (k == 0))).toArray.getD i Scalar.zero =
            Scalar.turn (k == 0) (column.toArray.getD i Scalar.zero) := by
        rw [Array.getD_eq_getD_getElem?, Array.getD_eq_getD_getElem?, List.getElem?_toArray,
          List.getElem?_toArray, List.getElem?_map]
        cases column[i]? with
        | none => exact (Scalar.turn_zero _).symm
        | some x => rfl
      simp only [entry, Direction.compare_turn]
  · rw [ranking_many _ _ (by rwa [length_mirrorDirections]), ranking_many _ _ one]
    have rewards := mapM_image (fun row => reward_mirror p row region k) (List.range p.count)
    have count : (p.mirror k).count = p.count := rfl
    rw [count, rewards, bind_map_except]
    refine bind_congr fun rewards => congrArg rankPoints ?_
    rw [List.map_map]
    exact List.map_congr_left fun reward _ => toMinima_mirror ds reward k

theorem sortBestFirst_mirror (p : Population α) (region : Region) (ds : List Direction) (k : Nat) :
    (p.mirror k).sortBestFirst region (mirrorDirections k ds) =
      (p.sortBestFirst region ds).map (Population.mirror k) := by
  rw [sortBestFirst, sortBestFirst, ranking_mirror]
  exact bind_same fun order => reorder_mirror p order k

end Ranking

section Drawing

variable {ρ : Type} [RandomSource ρ α]

theorem freshRow_mirror [Scalar.LawfulNegation α] (layout : Layout) (ds : List Direction)
    (genes : List α) (k : Nat) :
    freshRow layout (mirrorDirections k ds) genes = (freshRow layout ds genes).mirror k := by
  rw [freshRow, freshRow, worst_mirror]
  by_cases twoPhase : layout.twoPhase = true <;> simp [Row.mirror, Block.mirror, twoPhase]

theorem draw_mirror [Scalar.LawfulNegation α] (layout : Layout) (ds : List Direction)
    (count k : Nat) :
    Parallels id (Population.mirror k) (draw layout ds count : Draw ρ (Population α))
      (draw layout (mirrorDirections k ds) count) := by
  have rows (n : Nat) : Parallels id (List.map (Row.mirror k))
      (drawRows layout ds n : Draw ρ (List (Row α)))
      (drawRows layout (mirrorDirections k ds) n) := by
    induction n with
    | zero => exact .pure rfl
    | succ n ih =>
      refine .after _ fun genes => .bind ih fun rest => .pure ?_
      rw [freshRow_mirror]
      rfl
  exact .bind (rows count) fun _ => .pure rfl

/-- Walks only read and write genes. -/
theorem walk_mirror (p : Population α) (k : Nat) :
    Parallels id (Population.mirror k) (p.walk : Draw ρ (Population α)) (p.mirror k).walk := by
  have rows (listed : List Nat) (p : Population α) : Parallels id (Population.mirror k)
      (walkRows listed p : Draw ρ (Population α)) (walkRows listed (p.mirror k)) := by
    induction listed generalizing p with
    | nil => exact .pure rfl
    | cons row listed ih =>
      rw [walkRows, walkRows, chromosome_mirror]
      refine .after _ fun base => .after _ fun genes => ?_
      exact .bind (Draw.parallels_ofExcept (setChromosome_mirror p row .trial genes k)) ih
  exact rows (List.range p.count) p

end Drawing

end Population

namespace Scoring

/-- Objective `i` of a pass, where objective `k` may be negated. -/
private theorem entry_mirror (columns : List (Column α)) (i row k : Nat) :
    (entry (mirrorColumns k columns) i >>= fun column => entry column.values row) =
      (entry columns i >>= fun column => entry column.values row).map (Scalar.turn (k == i)) := by
  rw [entry, entry, mirrorColumns, List.getElem?_modify]
  cases columns[i]? with
  | none => rfl
  | some column =>
    by_cases same : k = i
    · have negated : entry column.negate.values row =
          (entry column.values row).map fun x => -x := by
        rw [entry, entry, Column.negate, Column.map, List.getElem?_map]
        cases column.values[row]? <;> rfl
      rw [Scalar.turn_of_eq same]
      simp only [same, if_true]
      exact negated
    · rw [Scalar.turn_of_ne same]
      simp only [same, if_false]
      exact (congrFun Except.map_id _).symm

variable {s : Scoring α} {e : Evaluation α} {row : Nat} {penalty : α}

/-- Fitness of objectives `i` and on, one slot each. -/
private theorem rewards_cons (d : Direction) (ds : List Direction) (slot : α) (slots : List α)
    (i : Nat) :
    s.rewards e row penalty (d :: ds) (slot :: slots) i =
      (entry e.objectives i >>= fun column => entry column.values row) >>= fun objective =>
        (s.rewards e row penalty ds slots (i + 1)).map (s.fitness objective penalty d :: ·) := by
  rw [rewards, bind_assoc]
  refine bind_congr fun column => bind_congr fun objective => ?_
  cases s.rewards e row penalty ds slots (i + 1) <;> rfl

/-- Behind the mirrored objective all are as they were. -/
private theorem rewards_behind {k i : Nat} (behind : k < i) (ds : List Direction)
    (slots : List α) :
    (s.mirror k).rewards (e.mirror k) row penalty ds slots i =
      s.rewards e row penalty ds slots i := by
  induction ds generalizing slots i with
  | nil => rfl
  | cons d ds ih =>
    cases slots with
    | nil => rfl
    | cons slot slots =>
      have read := entry_mirror e.objectives i row k
      rw [Scalar.turn_of_ne (Nat.ne_of_lt behind)] at read
      rw [rewards_cons, rewards_cons, ih (Nat.lt_succ_of_lt behind)]
      exact congrArg (· >>= _) (read.trans (congrFun Except.map_id _))

variable [Scalar.LawfulNegation α]

/-- From objective `i` on, where the mirrored one comes after `j` others. -/
private theorem rewards_mirror {k : Nat} (ds : List Direction) (slots : List α) {i j : Nat}
    (place : i + j = k) :
    (s.mirror k).rewards (e.mirror k) row penalty (mirrorDirections j ds)
        (mirrorReward j slots) i =
      (s.rewards e row penalty ds slots i).map (mirrorReward j) := by
  induction ds generalizing slots i j with
  | nil =>
    rw [mirrorDirections_nil]
    rfl
  | cons d ds ih =>
    cases slots with
    | nil =>
      rw [mirrorReward_nil]
      cases j <;> rfl
    | cons slot slots =>
      have read := entry_mirror e.objectives i row k
      cases j with
      | zero =>
        rw [Scalar.turn_of_eq (by omega)] at read
        rw [mirrorDirections_zero, mirrorReward_zero, rewards_cons, rewards_cons,
          rewards_behind (by omega)]
        refine bind_image read fun objective => ?_
        have opposed : (s.mirror k).fitness (-objective) penalty d.opposite =
            -s.fitness objective penalty d := s.fitness_turn objective penalty d true
        rw [opposed]
        cases s.rewards e row penalty ds slots (i + 1) <;> rfl
      | succ j =>
        rw [Scalar.turn_of_ne (by omega)] at read
        rw [mirrorDirections_succ, mirrorReward_succ, rewards_cons, rewards_cons,
          ih slots (by omega)]
        refine bind_image read fun objective => ?_
        cases s.rewards e row penalty ds slots (i + 1) <;> rfl

private theorem assignRow_mirror (s : Scoring α) (e : Evaluation α) (region : Region)
    (p : Population α) (row k : Nat) :
    (s.mirror k).assignRow (e.mirror k) region (p.mirror k) row =
      (s.assignRow e region p row).map (Population.mirror k) := by
  refine bind_same fun penalty => ?_
  refine bind_image (p.setStatus_mirror row region _ k) fun p => ?_
  refine bind_image (p.reward_mirror row region k) fun slots => ?_
  have scored : (s.mirror k).rewards (e.mirror k) row penalty (mirrorDirections k s.directions)
      (mirrorReward k slots) 0 = (s.rewards e row penalty s.directions slots 0).map _ :=
    rewards_mirror s.directions slots (Nat.zero_add k)
  exact bind_image scored fun rewards => p.setReward_mirror row region rewards k

theorem assign_mirror (s : Scoring α) (e : Evaluation α) (p : Population α) (region : Region)
    (k : Nat) :
    (s.mirror k).assign (e.mirror k) (p.mirror k) region =
      (s.assign e p region).map (Population.mirror k) :=
  foldlM_image (fun p row => assignRow_mirror s e region p row k) (List.range p.count) p

/-- Writing the outcomes of a pass and of its mirror image. Where columns are missing, neither of
them can be written into any row. -/
theorem assign_reflects {l : Layout} {n k : Nat} {s : Scoring α} {e e' : Evaluation α}
    {p : Population α} (sized : p.Sized l n) (objective : l.objectives = s.directions.length)
    (penalties : e.penalty.length = n) (columns : ∀ c ∈ e.objectives, c.size = n)
    (columns' : ∀ c ∈ e'.objectives, c.size = n)
    (within : e.objectives.length ≤ s.directions.length)
    (reflects : e.Reflects k s.directions.length e') (region : Region) :
    (s.mirror k).assign e' (p.mirror k) region =
      (s.assign e p region).map (Population.mirror k) := by
  by_cases complete : e.objectives.length = s.directions.length
  · rw [reflects.complete complete]
    exact assign_mirror s e p region k
  · rcases Nat.eq_zero_or_pos n with rfl | some
    · rw [assign_empty e region sized.count, assign_empty e' region (sized.mirror k).count]
      rfl
    · have mirrored : l.objectives = (s.mirror k).directions.length :=
        objective.trans (length_mirrorDirections k s.directions).symm
      have lacks : e.objectives.length < l.objectives := by omega
      rw [assign_lacking sized objective penalties columns some lacks,
        assign_lacking (sized.mirror k) mirrored (reflects.penalty ▸ penalties) columns' some
          (reflects.count ▸ lacks)]
      rfl

end Scoring
end Metaheuristic
