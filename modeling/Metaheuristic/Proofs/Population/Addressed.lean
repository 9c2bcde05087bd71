import Metaheuristic.Proofs.Model.Delivery
import Metaheuristic.Proofs.Population.Evaluated

/-! Sized populations answer. Every field of every row lies inside the matrix, so reading
and writing within the rows succeeds, and so does writing what a pass has delivered for
as many rows. -/
namespace Metaheuristic

variable {α : Type} {l : Layout} {n : Nat}

/-- The blocks of a row lie inside it. -/
theorem Layout.offset_block (l : Layout) (region : Region) :
    l.offset region + l.block ≤ l.stride := by
  unfold offset stride
  cases region <;> cases l.twoPhase <;> simp <;> omega

namespace Population

variable {p : Population α} {row : Nat} {region : Region}

theorem Sized.genes_inside (sized : p.Sized l n) : 0 + p.layout.genes ≤ l.block := by
  rw [sized.layout, Layout.block]
  omega

theorem Sized.status_inside (sized : p.Sized l n) : p.layout.genes + 1 ≤ l.block := by
  rw [sized.layout, Layout.block]
  omega

theorem Sized.rewards_inside (sized : p.Sized l n) :
    p.layout.genes + 1 + p.layout.objectives ≤ l.block :=
  Nat.le_of_eq (congrArg Layout.block sized.layout)

theorem Sized.fits {start length : Nat} (sized : p.Sized l n) (below : row < n)
    (inside : start + length ≤ l.block) : p.fits row region start length = true := by
  have block := l.offset_block region
  have rows : (row + 1) * l.stride ≤ n * l.stride := Nat.mul_le_mul_right _ below
  rw [Nat.succ_mul] at rows
  rw [Population.fits, sized.layout, sized.length, decide_eq_true_eq]
  omega

theorem Sized.read_field {β : Type} {start length : Nat} {r : Row α} (sized : p.Sized l n)
    (held : p.rows[row]? = some r) (inside : start + length ≤ l.block) (f : Block α → β)
    (none : β) : p.field row region start length f none = .ok (f (r.block region)) := by
  have below : row < n := sized.length ▸ (List.getElem?_eq_some_iff.mp held).1
  rw [field, if_pos (sized.fits below inside), held]
  rfl

theorem Sized.read_chromosome {r : Row α} (sized : p.Sized l n) (held : p.rows[row]? = some r)
    (region : Region) : p.chromosome row region = .ok (r.block region).genes :=
  sized.read_field held sized.genes_inside Block.genes []

theorem Sized.read_agent {r : Row α} (sized : p.Sized l n) (held : p.rows[row]? = some r)
    (region : Region) : p.agent row region =
      .ok ⟨(r.block region).genes, (r.block region).rewards, (r.block region).status⟩ := by
  rw [agent, sized.read_chromosome held, reward,
    sized.read_field held sized.rewards_inside Block.rewards [], status,
    sized.read_field held sized.status_inside Block.status .infeasible]
  rfl

theorem Sized.exists_field {β : Type} {start length : Nat} (sized : p.Sized l n) (below : row < n)
    (inside : start + length ≤ l.block) (f : Block α → β) (none : β) :
    ∃ r, p.rows[row]? = some r ∧ r.Sized l ∧
      p.field row region start length f none = .ok (f (r.block region)) := by
  have held := List.getElem?_eq_getElem (Nat.lt_of_lt_of_eq below sized.length.symm)
  exact ⟨_, held, sized.rows row _ held, sized.read_field held inside f none⟩

theorem Sized.exists_chromosome (sized : p.Sized l n) (below : row < n) (region : Region) :
    ∃ genes, p.chromosome row region = .ok genes ∧ genes.length = l.genes := by
  obtain ⟨r, _, rowSized, read⟩ := sized.exists_field below sized.genes_inside Block.genes []
  exact ⟨_, read, (rowSized.block region).genes⟩

theorem Sized.exists_reward (sized : p.Sized l n) (below : row < n) (region : Region) :
    ∃ rewards, p.reward row region = .ok rewards ∧ rewards.length = l.objectives := by
  obtain ⟨r, _, rowSized, read⟩ := sized.exists_field below sized.rewards_inside Block.rewards []
  exact ⟨_, read, (rowSized.block region).rewards⟩

theorem Sized.exists_status (sized : p.Sized l n) (below : row < n) (region : Region) :
    ∃ status, p.status row region = .ok status := by
  obtain ⟨r, _, _, read⟩ := sized.exists_field below sized.status_inside Block.status .infeasible
  exact ⟨_, read⟩

private theorem Sized.exists_modifyField {start length : Nat} (sized : p.Sized l n)
    (below : row < n) (inside : start + length ≤ l.block) (f : Block α → Block α) :
    ∃ q, p.modifyField row region start length f = .ok q := by
  unfold Population.modifyField
  rw [if_pos (sized.fits below inside)]
  exact ⟨_, rfl⟩

theorem Sized.exists_setChromosome {genes : List α} (sized : p.Sized l n) (below : row < n)
    (length : genes.length = l.genes) (region : Region) :
    ∃ q, p.setChromosome row region genes = .ok q ∧ q.Sized l n := by
  obtain ⟨q, written⟩ := sized.exists_modifyField below sized.genes_inside
    fun b => { b with genes := genes }
  have ran : p.setChromosome row region genes = .ok q := by
    rw [Population.setChromosome, sized.layout, if_pos length, ← sized.layout, written]
  exact ⟨q, ran, sized.setChromosome ran⟩

theorem Sized.exists_setStatus (sized : p.Sized l n) (below : row < n) (region : Region)
    (status : Feasibility) : ∃ q, p.setStatus row region status = .ok q ∧ q.Sized l n := by
  obtain ⟨q, written⟩ := sized.exists_modifyField below sized.status_inside
    fun b => { b with status := status }
  exact ⟨q, written, sized.setStatus written⟩

theorem Sized.exists_setReward {rewards : List α} (sized : p.Sized l n) (below : row < n)
    (length : rewards.length = l.objectives) (region : Region) :
    ∃ q, p.setReward row region rewards = .ok q ∧ q.Sized l n := by
  obtain ⟨q, written⟩ := sized.exists_modifyField below sized.rewards_inside
    fun b => { b with rewards := rewards }
  have ran : p.setReward row region rewards = .ok q := by
    rw [Population.setReward, sized.layout, if_pos length, ← sized.layout, written]
  exact ⟨q, ran, sized.setReward ran⟩

theorem Sized.exists_promote (sized : p.Sized l n) (below : row < n) :
    ∃ q, p.promote row = .ok q ∧ q.Sized l n := by
  have ran : ∃ q, p.promote row = .ok q := by
    unfold Population.promote
    split
    · exact ⟨p, rfl⟩
    · rw [if_pos (Nat.lt_of_lt_of_eq below sized.length.symm)]
      exact ⟨_, rfl⟩
  obtain ⟨q, promoted⟩ := ran
  exact ⟨q, promoted, sized.promote promoted⟩

theorem Sized.exists_clip [Scalar α] (sized : p.Sized l n) (region : Region) :
    ∃ q, p.clip region = .ok q ∧ q.Sized l n := by
  unfold Population.clip
  refine exists_foldlM (I := Sized l n) (fun row member q good => ?_) sized
  have below : row < n := Nat.lt_of_lt_of_eq (List.mem_range.mp member) sized.count
  obtain ⟨q', written⟩ := good.exists_modifyField below good.genes_inside
    fun b => { b with genes := b.genes.map Scalar.clampUnit }
  exact ⟨q', written, good.modifyField written
    fun b blockSized => ⟨(List.length_map _).trans blockSized.genes, blockSized.rewards⟩⟩

/-- A reading of every row, when each row can be read. -/
theorem Sized.exists_rows {β : Type} {f : Nat → Except Fault β} {Q : β → Prop}
    (sized : p.Sized l n) (each : ∀ row < n, ∃ x, f row = .ok x ∧ Q x) :
    ∃ items, (List.range p.count).mapM f = .ok items ∧ items.length = n ∧ ∀ x ∈ items, Q x := by
  rw [sized.count]
  obtain ⟨items, read, length, good⟩ :=
    exists_mapM fun row (member : row ∈ List.range n) => each row (List.mem_range.mp member)
  exact ⟨items, read, length.trans List.length_range, good⟩

theorem Sized.exists_view (sized : p.Sized l n) (region : Region) :
    ∃ view, p.view region = .ok view := by
  have within : (0 < p.count && !p.fits (p.count - 1) region 0 p.layout.genes) = false := by
    rw [sized.count]
    rcases Nat.eq_zero_or_pos n with rfl | positive
    · rfl
    · rw [sized.fits (Nat.sub_one_lt_of_lt positive) sized.genes_inside, Bool.not_true,
        Bool.and_false]
  obtain ⟨rows, read, _⟩ := sized.exists_rows fun row below => sized.exists_chromosome below region
  unfold Population.view
  rw [within, read]
  exact ⟨_, rfl⟩

/-- All rows of a view have the length that the layout says. -/
theorem Sized.view_uniform {view : View α} (sized : p.Sized l n)
    (viewed : p.view region = .ok view) : ∀ row ∈ view.rows, row.length = l.genes := by
  obtain ⟨_, count, rows⟩ := view_ok sized viewed
  intro row member
  obtain ⟨i, place⟩ := List.mem_iff_getElem?.mp member
  have below : i < n := Nat.lt_of_lt_of_eq (List.getElem?_eq_some_iff.mp place).1 count
  obtain ⟨r, held, same⟩ := rows i below
  rw [place] at same
  cases same
  exact ((sized.rows i r held).block region).genes

theorem Sized.exists_agents (sized : p.Sized l n) (region : Region) :
    ∃ agents, p.agents region = .ok agents ∧ agents.length = n ∧
      ∀ a ∈ agents, a.chromosome.length = l.genes ∧ a.reward.length = l.objectives := by
  refine sized.exists_rows fun row below => ?_
  obtain ⟨genes, readGenes, genesLength⟩ := sized.exists_chromosome below region
  obtain ⟨rewards, readRewards, rewardsLength⟩ := sized.exists_reward below region
  obtain ⟨status, readStatus⟩ := sized.exists_status below region
  refine ⟨⟨genes, rewards, status⟩, ?_, genesLength, rewardsLength⟩
  rw [agent, readGenes, readRewards, readStatus]
  rfl

theorem Sized.exists_rewardAt {k : Nat} (sized : p.Sized l n) (below : row < n)
    (objective : k < l.objectives) (region : Region) : ∃ x, p.rewardAt region k row = .ok x := by
  obtain ⟨rewards, read, length⟩ := sized.exists_reward below region
  unfold rewardAt
  rw [read]
  refine ⟨rewards[k], ?_⟩
  simp only [bind, Except.bind, List.getElem?_eq_getElem (Nat.lt_of_lt_of_eq objective length.symm)]

theorem Sized.exists_rewardColumn {k : Nat} (sized : p.Sized l n) (objective : k < l.objectives)
    (region : Region) : ∃ column, p.rewardColumn region k = .ok column := by
  obtain ⟨column, read, _⟩ := sized.exists_rows (Q := fun _ => True) fun row below => by
    obtain ⟨x, read⟩ := sized.exists_rewardAt below objective region
    exact ⟨x, read, trivial⟩
  exact ⟨column, read⟩

theorem Sized.exists_reorder {order : List Nat} (sized : p.Sized l n) (length : order.length = n)
    (below : ∀ row ∈ order, row < n) : ∃ q, p.reorder order = .ok q ∧ q.Sized l n := by
  have ran : ∃ q, p.reorder order = .ok q ∧ True := by
    refine exists_bind (exists_mapM (Q := fun _ => True) fun row member => ?_)
      fun rows _ => ⟨_, rfl, trivial⟩
    have inside : row < p.rows.length := Nat.lt_of_lt_of_eq (below row member) sized.length.symm
    split
    · exact ⟨_, rfl, trivial⟩
    · rename_i absent
      exact absurd (List.getElem?_eq_none_iff.mp absent) (Nat.not_le.mpr inside)
  obtain ⟨q, reordered, _⟩ := ran
  exact ⟨q, reordered, sized.reorder length reordered⟩

end Population

namespace Scoring

variable {s : Scoring α} {e : Evaluation α} {region : Region} {p : Population α} {row : Nat}

variable [Scalar α] {objectives : Nat}

/-- Each slot finds its column, and each column the value of the row. -/
private theorem exists_rewards (spans : e.Spans .evaluate n objectives) (below : row < n)
    (penalty : α) {ds : List Direction} {slots : List α} {k : Nat}
    (slot : slots.length = ds.length) (room : k + ds.length = objectives) :
    ∃ rewards, s.rewards e row penalty ds slots k = .ok rewards ∧
      rewards.length = slots.length := by
  induction ds generalizing slots k with
  | nil => exact ⟨slots, by rw [rewards.eq_def], rfl⟩
  | cons d ds ih =>
    rw [List.length_cons] at room
    cases slots with
    | nil => cases slot
    | cons old slots =>
      have columns : e.objectives.length = objectives := spans.count rfl
      rw [rewards]
      refine exists_bind (exists_entry (by omega)) fun column member => ?_
      refine exists_bind
        (exists_entry (Nat.lt_of_lt_of_eq below (spans.columns column member).symm))
        fun objective _ => ?_
      refine exists_bind (ih (Nat.succ.inj slot) (by omega)) fun rest length => ?_
      exact ⟨_, rfl, congrArg Nat.succ length⟩

/-- The outcome of a pass over as many rows, with as many objectives, can be written. -/
theorem exists_assign (sized : p.Sized l n) (objective : l.objectives = s.directions.length)
    (spans : e.Spans .evaluate n l.objectives) (region : Region) :
    ∃ q, s.assign e p region = .ok q ∧ q.Sized l n := by
  unfold assign
  rw [sized.count]
  refine exists_foldlM (I := Population.Sized l n) (fun row member q good => ?_) sized
  have below : row < n := List.mem_range.mp member
  refine exists_bind (exists_entry (Nat.lt_of_lt_of_eq below spans.penalty.symm))
    fun penalty _ => ?_
  refine exists_bind (good.exists_setStatus below region _) fun q' kept => ?_
  refine exists_bind (kept.exists_reward below region) fun slots length => ?_
  exact exists_bind (exists_rewards spans below penalty (length.trans objective)
    ((Nat.zero_add _).trans objective.symm))
    fun rewards same => kept.exists_setReward below (same.trans length) region

/-- The first slot without a column faults, however many have one. -/
private theorem rewards_lacking (columns : ∀ c ∈ e.objectives, c.size = n) (below : row < n)
    (penalty : α)
    {ds : List Direction} {slots : List α} {k : Nat} (slot : slots.length = ds.length)
    (present : k ≤ e.objectives.length) (lacks : e.objectives.length < k + ds.length) :
    s.rewards e row penalty ds slots k = .error .outOfRange := by
  induction ds generalizing slots k with
  | nil =>
    rw [List.length_nil] at lacks
    omega
  | cons d ds ih =>
    rw [List.length_cons] at lacks
    cases slots with
    | nil => cases slot
    | cons old slots =>
      rw [rewards]
      rcases Nat.lt_or_eq_of_le present with inside | missing
      · obtain ⟨column, read, member⟩ := exists_entry inside
        obtain ⟨objective, value, _⟩ :=
          exists_entry (Nat.lt_of_lt_of_eq below (columns column member).symm)
        rw [read]
        simp only [bind, Except.bind, value, ih (Nat.succ.inj slot) inside (by omega)]
      · rw [entry, List.getElem?_eq_none (Nat.le_of_eq missing.symm)]
        rfl

/-- An outcome with fewer columns than objectives cannot be written into any row. -/
theorem assign_lacking (sized : p.Sized l n) (objective : l.objectives = s.directions.length)
    (penalties : e.penalty.length = n) (columns : ∀ c ∈ e.objectives, c.size = n)
    (some : 0 < n) (lacks : e.objectives.length < l.objectives) (region : Region) :
    s.assign e p region = .error .outOfRange := by
  obtain ⟨penalty, charged, _⟩ := exists_entry (Nat.lt_of_lt_of_eq some penalties.symm)
  obtain ⟨q, written, kept⟩ := sized.exists_setStatus some region (s.classify penalty)
  obtain ⟨slots, read, length⟩ := kept.exists_reward some region
  have faults := rewards_lacking (s := s) columns some penalty
    (length.trans objective) (Nat.zero_le _) (by omega : e.objectives.length < 0 + s.directions.length)
  have first : s.assignRow e region p 0 = .error .outOfRange := by
    rw [assignRow, charged]
    simp only [bind, Except.bind, written, read, faults]
  obtain ⟨rest, count⟩ := Nat.exists_eq_succ_of_ne_zero some.ne'
  rw [assign, sized.count, count, List.range_succ_eq_map, List.foldlM_cons, first]
  rfl

/-- Nothing is written where there are no rows. -/
theorem assign_empty (e : Evaluation α) (region : Region) (empty : p.count = 0) :
    s.assign e p region = .ok p := by
  rw [assign, empty]
  rfl

end Scoring
end Metaheuristic
