import Metaheuristic.Proofs.Quality.Bounded
import Metaheuristic.Proofs.Quality.Record

/-! Records take whatever they are offered. Agents with a reward for each direction can
be compared, ordered and measured, so neither offering such an agent to a record nor
merging two records of such agents fails. -/
namespace Metaheuristic

variable {α : Type} [Scalar α] {ds : List Direction} {a : Agent α}

namespace Archive

theorem exists_insert {s : Archive α} (towards : s.directions = ds)
    (sized : Sized ds s.members) (length : a.reward.length = ds.length) :
    ∃ x, s.insert a = .ok x ∧ x.1.directions = ds ∧ Sized ds x.1.members := by
  have ran : ∃ x, s.insert a = .ok x ∧ x.1.directions = ds := by
    rcases insert_cases s a with ⟨_, same⟩ | ⟨_, _, entered⟩
    · exact ⟨_, same, towards⟩
    · have held : Sized s.directions
          ((s.members.filter fun m => !dominates s.directions a.reward m.reward) ++ [a]) := by
        rw [towards]
        intro m member
        rcases List.mem_append.mp member with old | new
        · exact sized m (List.mem_filter.mp old).1
        · rw [List.mem_singleton.mp new]
          exact length
      obtain ⟨kept, bounded, _⟩ := bounded_spec s.capacity held
      rw [bounded] at entered
      exact ⟨_, entered, towards⟩
  obtain ⟨x, inserted, same⟩ := ran
  refine ⟨x, inserted, same, fun m member => ?_⟩
  rcases mem_insert inserted member with old | rfl
  · exact sized m old
  · exact length

theorem exists_insertAll {s : Archive α} (towards : s.directions = ds)
    (sized : Sized ds s.members) {agents : List (Agent α)} (offered : Sized ds agents) :
    ∃ s', s.insertAll agents = .ok s' ∧ s'.directions = ds ∧ Sized ds s'.members := by
  induction agents generalizing s with
  | nil => exact ⟨s, rfl, towards, sized⟩
  | cons a rest ih =>
    rw [insertAll]
    exact exists_bind (exists_insert towards sized (offered a List.mem_cons_self))
      fun x kept => ih kept.1 kept.2 fun b member => offered b (List.mem_cons_of_mem _ member)

end Archive

namespace Record

/-- A record for these directions, whose agents have a reward for each of them. -/
def Sized (ds : List Direction) : Record α → Prop
  | single d _ => ds = [d]
  | archive s => s.directions = ds ∧ Archive.Sized ds s.members

variable {r other : Record α}

omit [Scalar α] in
theorem empty_sized (ds : List Direction) (capacity : Option Nat) :
    (empty ds capacity : Record α).Sized ds := by
  unfold empty
  split
  · rfl
  · exact ⟨rfl, nofun⟩

theorem Sized.exists_observe (sized : r.Sized ds) (length : a.reward.length = ds.length) :
    ∃ r', r.observe a = .ok r' ∧ r'.Sized ds := by
  cases r with
  | single d best =>
    have directed : ds = [d] := sized
    have rewarded : a.reward.isEmpty = false := by
      rw [directed] at length
      obtain ⟨x, only⟩ := List.length_eq_one_iff.mp length
      rw [only]
      rfl
    refine ⟨single d (some (better d best a)), ?_, directed⟩
    simp only [observe, rewarded, Bool.false_eq_true, if_false]
  | archive s =>
    exact exists_bind (Archive.exists_insert sized.1 sized.2 length) fun x kept => ⟨_, rfl, kept⟩

theorem Sized.exists_observeAll (sized : r.Sized ds) {agents : List (Agent α)}
    (lengths : ∀ a ∈ agents, a.reward.length = ds.length) :
    ∃ r', r.observeAll agents = .ok r' ∧ r'.Sized ds :=
  exists_foldlM (fun a member _ good => good.exists_observe (lengths a member)) sized

theorem Sized.exists_merge (sized : r.Sized ds) (offered : other.Sized ds) :
    ∃ r', r.merge other = .ok r' ∧ r'.Sized ds := by
  unfold merge
  split
  · exact ⟨_, rfl, sized⟩
  · exact exists_bind (Archive.exists_insertAll sized.1 sized.2 offered.2)
      fun s kept => ⟨_, rfl, kept⟩
  · exact ⟨_, rfl, sized⟩

end Record
end Metaheuristic
