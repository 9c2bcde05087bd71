import Metaheuristic.Proofs.Population.Sized

/-! What writing the outcome of a pass does to a population: every row keeps its
genes, and its status and rewards are those of its own entry in the outcome. -/
namespace Metaheuristic

variable {α : Type} {l : Layout} {n : Nat}

/-- The agent in a block. -/
def Block.agent (b : Block α) : Agent α := ⟨b.genes, b.rewards, b.status⟩

/-- An agent as a row holds it. -/
def Agent.block (a : Agent α) : Block α := ⟨a.chromosome, a.status, a.reward⟩

@[simp]
theorem Block.block_agent (b : Block α) : b.agent.block = b := rfl

theorem Row.block_modify (r : Row α) (region : Region) (f : Block α → Block α) :
    (r.modify region f).block region = f (r.block region) := by
  obtain ⟨trial, incumbent⟩ := r
  cases region <;> cases incumbent <;> rfl

namespace Population

variable {p : Population α} {region : Region}

theorem field_ok {β : Type} {row start length : Nat} {f : Block α → β} {none x : β}
    (sized : p.Sized l n) (below : row < n)
    (ran : p.field row region start length f none = .ok x) :
    ∃ r, p.rows[row]? = some r ∧ x = f (r.block region) := by
  have inside : row < p.rows.length := Nat.lt_of_lt_of_eq below sized.length.symm
  unfold field at ran
  split at ran
  · rw [List.getElem?_eq_getElem inside] at ran ⊢
    cases ran
    exact ⟨_, rfl, rfl⟩
  · cases ran

theorem agents_ok {agents : List (Agent α)} (sized : p.Sized l n)
    (ran : p.agents region = .ok agents) :
    agents.length = n ∧ ∀ i < n, ∃ r, p.rows[i]? = some r ∧ agents[i]? =
      some ⟨(r.block region).genes, (r.block region).rewards, (r.block region).status⟩ := by
  obtain ⟨length, items⟩ := mapM_ok ran
  rw [List.length_range, sized.count] at length
  refine ⟨length, fun i below => ?_⟩
  obtain ⟨a, place, read⟩ := items i i (by rw [sized.count]; exact List.getElem?_range below)
  obtain ⟨chromosome, readGenes, read⟩ := bind_ok.mp read
  obtain ⟨reward, readRewards, read⟩ := bind_ok.mp read
  obtain ⟨status, readStatus, built⟩ := bind_ok.mp read
  cases built
  obtain ⟨r, held, rfl⟩ := field_ok sized below readGenes
  obtain ⟨_, held', rfl⟩ := field_ok sized below readRewards
  obtain ⟨_, held'', rfl⟩ := field_ok sized below readStatus
  rw [held] at held' held''
  cases held'
  cases held''
  exact ⟨r, held, place⟩

/-- The agents of a region are those in its blocks, row by row. -/
theorem Sized.agents_eq {agents : List (Agent α)} (sized : p.Sized l n)
    (ran : p.agents region = .ok agents) :
    agents = p.rows.map fun r => (r.block region).agent := by
  obtain ⟨length, items⟩ := agents_ok sized ran
  refine List.ext_getElem? fun i => ?_
  rw [List.getElem?_map]
  by_cases inside : i < n
  · obtain ⟨r, held, agent⟩ := items i inside
    rw [agent, held]
    rfl
  · rw [List.getElem?_eq_none (by omega), List.getElem?_eq_none (by rw [sized.length]; omega)]
    rfl

theorem view_ok {view : View α} (sized : p.Sized l n) (ran : p.view region = .ok view) :
    view.genes = l.genes ∧ view.rows.length = n ∧
      ∀ i < n, ∃ r, p.rows[i]? = some r ∧ view.rows[i]? = some (r.block region).genes := by
  unfold Population.view at ran
  split at ran
  · cases ran
  · obtain ⟨rows, read, built⟩ := bind_ok.mp ran
    cases built
    obtain ⟨length, items⟩ := mapM_ok read
    rw [List.length_range, sized.count] at length
    refine ⟨congrArg Layout.genes sized.layout, length, fun i below => ?_⟩
    obtain ⟨genes, place, one⟩ := items i i (by rw [sized.count]; exact List.getElem?_range below)
    obtain ⟨r, held, rfl⟩ := field_ok sized below one
    exact ⟨r, held, place⟩

/-- A write reaches one block of one row. -/
theorem modifyField_row {q : Population α} {row i start length : Nat} {f : Block α → Block α}
    {r : Row α} (ran : p.modifyField row region start length f = .ok q)
    (held : p.rows[i]? = some r) :
    q.rows[i]? = some (if row = i then r.modify region f else r) := by
  rw [modifyField_ok ran]
  simp [List.getElem?_modify, held]

theorem setReward_ok {q : Population α} {row : Nat} {rewards : List α}
    (ran : p.setReward row region rewards = .ok q) :
    p.modifyField row region (p.layout.genes + 1) p.layout.objectives
      (fun b => { b with rewards := rewards }) = .ok q := by
  unfold setReward at ran
  split at ran
  · exact ran
  · cases ran

end Population

namespace Scoring

variable [Scalar α] {s : Scoring α} {e : Evaluation α}

/-- The status and the rewards that entry `i` of an outcome stands for. -/
def Scores (s : Scoring α) (e : Evaluation α) (i : Nat) (status : Feasibility)
    (rewards : List α) : Prop :=
  ∃ penalty, e.penalty[i]? = some penalty ∧ status = s.classify penalty ∧
    rewards.length = s.directions.length ∧
    ∀ (k : Nat) (d : Direction), s.directions[k]? = some d → ∃ (c : Column α) (x : α),
      e.objectives[k]? = some c ∧ c.values[i]? = some x ∧
        rewards[k]? = some (s.fitness x penalty d)

private theorem rewards_ok {row k : Nat} {penalty : α} {ds : List Direction}
    {slots rewards : List α} (slot : slots.length = ds.length)
    (ran : s.rewards e row penalty ds slots k = .ok rewards) :
    rewards.length = ds.length ∧ ∀ (j : Nat) (d : Direction), ds[j]? = some d →
      ∃ (c : Column α) (x : α), e.objectives[k + j]? = some c ∧ c.values[row]? = some x ∧
        rewards[j]? = some (s.fitness x penalty d) := by
  induction ds generalizing slots rewards k with
  | nil =>
    cases List.eq_nil_of_length_eq_zero slot
    cases ran
    exact ⟨rfl, fun j d absent => by cases absent⟩
  | cons d ds ih =>
    cases slots with
    | nil => cases slot
    | cons old slots =>
      rw [Scoring.rewards] at ran
      obtain ⟨column, readColumn, ran⟩ := bind_ok.mp ran
      obtain ⟨objective, readValue, ran⟩ := bind_ok.mp ran
      obtain ⟨rest, later, built⟩ := bind_ok.mp ran
      cases built
      obtain ⟨length, places⟩ := ih (Nat.succ.inj slot) later
      refine ⟨congrArg Nat.succ length, fun j d' place => ?_⟩
      cases j with
      | zero =>
        cases place
        exact ⟨column, objective, entry_ok readColumn, entry_ok readValue, rfl⟩
      | succ j =>
        have shifted : k + 1 + j = k + (j + 1) := by omega
        rw [← shifted]
        exact places j d' place

/-- How far writing has come: the first `k` rows are scored, no row has other
genes than before. -/
structure Written (s : Scoring α) (e : Evaluation α) (region : Region) (l : Layout) (n : Nat)
    (p : Population α) (k : Nat) (q : Population α) : Prop where
  sized : q.Sized l n
  genes : ∀ i < n, ∃ r r', p.rows[i]? = some r ∧ q.rows[i]? = some r' ∧
    (r'.block region).genes = (r.block region).genes
  scored : ∀ i < k, ∀ r, q.rows[i]? = some r →
    s.Scores e i (r.block region).status (r.block region).rewards

private theorem assignRow_written {p q q' : Population α} {region : Region} {k : Nat}
    (objectives : l.objectives = s.directions.length) (below : k < n)
    (written : Written s e region l n p k q) (ran : s.assignRow e region q k = .ok q') :
    Written s e region l n p (k + 1) q' := by
  obtain ⟨penalty, readPenalty, ran⟩ := bind_ok.mp ran
  obtain ⟨q₁, marked, ran⟩ := bind_ok.mp ran
  obtain ⟨slots, readSlots, ran⟩ := bind_ok.mp ran
  obtain ⟨rewards, scored, rewarded⟩ := bind_ok.mp ran
  have sized₁ := written.sized.setStatus marked
  obtain ⟨r₁, held₁, rfl⟩ := Population.field_ok sized₁ below readSlots
  have slot := ((sized₁.rows k r₁ held₁).block region).rewards.trans objectives
  obtain ⟨length, places⟩ := rewards_ok slot scored
  have write := Population.setReward_ok rewarded
  refine ⟨sized₁.setReward rewarded, fun i inside => ?_, fun i reached r held => ?_⟩
  · obtain ⟨r, r', old, now, same⟩ := written.genes i inside
    refine ⟨r, _, old, Population.modifyField_row write (Population.modifyField_row marked now), ?_⟩
    split
    · rw [Row.block_modify, Row.block_modify]
      exact same
    · exact same
  · obtain ⟨_, r', _, now, _⟩ := written.genes i (by omega)
    have final := Population.modifyField_row write (Population.modifyField_row marked now)
    rw [held] at final
    by_cases last : k = i
    · rw [if_pos last, if_pos last] at final
      cases final
      cases last
      rw [Row.block_modify, Row.block_modify]
      exact ⟨penalty, entry_ok readPenalty, rfl, length, fun j d place => by
        simpa using places j d place⟩
    · rw [if_neg last, if_neg last] at final
      cases final
      exact written.scored i (by omega) r now

/-- Every row is scored by its own entry of the outcome, and keeps its genes. -/
theorem assign_written {p q : Population α} {region : Region} (sized : p.Sized l n)
    (objectives : l.objectives = s.directions.length) (ran : s.assign e p region = .ok q) :
    Written s e region l n p n q := by
  unfold assign at ran
  rw [sized.count] at ran
  refine foldlM_range (I := Written s e region l n p) (fun k below q q' => ?_) ?_ ran
  · exact assignRow_written objectives below
  · refine ⟨sized, fun i below => ?_, fun i none => by omega⟩
    have inside : i < p.rows.length := Nat.lt_of_lt_of_eq below sized.length.symm
    exact ⟨_, _, List.getElem?_eq_getElem inside, List.getElem?_eq_getElem inside, rfl⟩

/-- The agents of an evaluated population: agent `i` carries the chromosome of row
`i` of the view and the scores of entry `i` of the outcome. -/
theorem assign_agents {p q : Population α} {region : Region} {view : View α}
    {agents : List (Agent α)} (sized : p.Sized l n)
    (objectives : l.objectives = s.directions.length) (viewed : p.view region = .ok view)
    (ran : s.assign e p region = .ok q) (read : q.agents region = .ok agents) :
    agents.length = n ∧ ∀ (i : Nat) (a : Agent α), agents[i]? = some a →
      view.rows[i]? = some a.chromosome ∧ s.Scores e i a.status a.reward := by
  have written := assign_written sized objectives ran
  obtain ⟨length, places⟩ := Population.agents_ok written.sized read
  refine ⟨length, fun i a place => ?_⟩
  have below : i < n := by
    rw [← length]
    exact (List.getElem?_eq_some_iff.mp place).1
  obtain ⟨r', held, same⟩ := places i below
  rw [place] at same
  cases same
  obtain ⟨r, _, old, now, genes⟩ := written.genes i below
  rw [held] at now
  cases now
  obtain ⟨_, _, rows⟩ := Population.view_ok sized viewed
  obtain ⟨_, old', row⟩ := rows i below
  rw [old] at old'
  cases old'
  exact ⟨by rw [row, genes], written.scored i below r' held⟩

end Scoring
end Metaheuristic
