import Metaheuristic.Population.Flat
import Metaheuristic.Proofs.Computation

/-! Stretches of a vector. Reading a stretch finds the list that stands there. Overwriting a
stretch puts a list in its place, and every stretch apart from it reads as before; so does
copying, which overwrites one stretch with another. -/
namespace Metaheuristic

variable {α : Type}

/-- A list stands in another from a place on. -/
def Stands (part whole : List α) (start : Nat) : Prop :=
  ∃ before after, whole = before ++ part ++ after ∧ before.length = start

namespace Stands

variable {part middle whole : List α} {start first offset length : Nat}

theorem trans (inner : Stands part middle start) (outer : Stands middle whole first) :
    Stands part whole (first + start) := by
  obtain ⟨before, after, rfl, rfl⟩ := inner
  obtain ⟨left, right, rfl, rfl⟩ := outer
  exact ⟨left ++ before, after ++ right, by simp, by simp⟩

theorem slice (stands : Stands part whole start) : View.slice whole start part.length = .ok part := by
  obtain ⟨before, after, rfl, rfl⟩ := stands
  have inside : before.length + part.length ≤ (before ++ part ++ after).length := by simp
  rw [View.slice, if_pos inside, List.append_assoc, List.drop_left, List.take_left]

theorem of_slice (cut : View.slice whole start length = .ok part) :
    Stands part whole start ∧ part.length = length := by
  unfold View.slice at cut
  split at cut
  · rename_i inside
    cases cut
    refine ⟨⟨whole.take start, (whole.drop start).drop length, ?_, ?_⟩, ?_⟩
    · rw [List.append_assoc, List.take_append_drop, List.take_append_drop]
    · rw [List.length_take]
      omega
    · rw [List.length_take, List.length_drop]
      omega
  · cases cut

/-- A stretch inside the part is found from where the part starts. -/
theorem slice_within (stands : Stands part whole start) (room : offset + length ≤ part.length) :
    View.slice whole (start + offset) length = View.slice part offset length := by
  have cut : View.slice part offset length = .ok ((part.drop offset).take length) := if_pos room
  obtain ⟨inner, size⟩ := of_slice cut
  have found := (inner.trans stands).slice
  rw [size] at found
  rw [found, cut]

end Stands

variable {data data' part xs before old new after rest : List α}
  {start source target offset length size : Nat}

theorem exists_slice (inside : start + length ≤ data.length) :
    ∃ xs, View.slice data start length = .ok xs ∧ xs.length = length :=
  ⟨_, if_pos inside, (Stands.of_slice (if_pos inside)).2⟩

theorem slice_of_not_inside (beyond : data.length < start + length) :
    View.slice data start length = .error .outOfRange :=
  if_neg (Nat.not_le.mpr beyond)

/-- A cell is a stretch of length one. -/
theorem entry_eq_slice (data : List α) (start : Nat) :
    entry data start = View.slice data start 1 >>= fun xs => entry xs 0 := by
  by_cases inside : start < data.length
  · have cut : View.slice data start 1 = .ok [data[start]] := by
      rw [View.slice, if_pos (Nat.succ_le_of_lt inside), List.drop_eq_getElem_cons inside]
      rfl
    rw [cut, entry, List.getElem?_eq_getElem inside]
    rfl
  · rw [slice_of_not_inside (by omega), entry, List.getElem?_eq_none (by omega)]
    rfl

theorem overwrite_ok (ran : overwrite data start xs = .ok data') :
    start + xs.length ≤ data.length ∧
      data' = data.take start ++ xs ++ data.drop (start + xs.length) := by
  unfold overwrite at ran
  split at ran
  · rename_i inside
    cases ran
    exact ⟨inside, rfl⟩
  · cases ran

theorem exists_overwrite (inside : start + xs.length ≤ data.length) :
    ∃ data', overwrite data start xs = .ok data' := ⟨_, if_pos inside⟩

theorem length_overwrite (ran : overwrite data start xs = .ok data') :
    data'.length = data.length := by
  obtain ⟨inside, rfl⟩ := overwrite_ok ran
  simp only [List.length_append, List.length_take, List.length_drop]
  omega

/-- What was written stands where it was written. -/
theorem stands_overwrite (ran : overwrite data start xs = .ok data') : Stands xs data' start := by
  obtain ⟨inside, rfl⟩ := overwrite_ok ran
  refine ⟨data.take start, _, rfl, ?_⟩
  rw [List.length_take]
  omega

private theorem cell_overwrite (ran : overwrite data start xs = .ok data') {cell : Nat}
    (outside : cell < start ∨ start + xs.length ≤ cell) : data'[cell]? = data[cell]? := by
  obtain ⟨inside, rfl⟩ := overwrite_ok ran
  have left : (data.take start).length = start := by
    rw [List.length_take]
    omega
  rcases outside with earlier | later
  · rw [List.append_assoc, List.getElem?_append_left (by omega), List.getElem?_take_of_lt earlier]
  · have ends : (data.take start ++ xs).length = start + xs.length := by
      rw [List.length_append, left]
    rw [List.getElem?_append_right (by omega), List.getElem?_drop, ends]
    congr 1
    omega

/-- And a stretch apart from it reads as before. -/
theorem slice_overwrite_apart (ran : overwrite data start xs = .ok data')
    (apart : offset + size ≤ start ∨ start + xs.length ≤ offset) :
    View.slice data' offset size = View.slice data offset size := by
  have cells : (data'.drop offset).take size = (data.drop offset).take size := by
    refine List.ext_getElem? fun k => ?_
    rw [List.getElem?_take, List.getElem?_take, List.getElem?_drop, List.getElem?_drop]
    split
    · exact cell_overwrite ran (by omega)
    · rfl
  rw [View.slice, View.slice, length_overwrite ran, cells]

/-- A list of the same length can take the place of another one. -/
theorem overwrite_slot (starts : before.length = start) (same : new.length = old.length) :
    overwrite (before ++ old ++ after) start new = .ok (before ++ new ++ after) := by
  subst starts
  have inside : before.length + new.length ≤ (before ++ old ++ after).length := by
    simp only [List.length_append]
    omega
  rw [overwrite, if_pos inside, same, ← List.length_append, List.drop_left,
    List.append_assoc before old, List.take_left]

theorem exists_copyWithin (first : source + length ≤ data.length)
    (second : target + length ≤ data.length) :
    ∃ data', copyWithin data source length target = .ok data' := by
  obtain ⟨xs, cut, size⟩ := exists_slice first
  obtain ⟨data', ran⟩ : ∃ data', overwrite data target xs = .ok data' :=
    exists_overwrite (size ▸ second)
  exact ⟨data', bind_ok.mpr ⟨xs, cut, ran⟩⟩

section Copying

variable (ran : copyWithin data source length target = .ok data')

include ran

theorem length_copyWithin : data'.length = data.length := by
  obtain ⟨xs, _, written⟩ := bind_ok.mp ran
  exact length_overwrite written

/-- A copy reads as what it was made of. -/
theorem slice_copyWithin (room : offset + size ≤ length) :
    View.slice data' (target + offset) size = View.slice data (source + offset) size := by
  obtain ⟨xs, cut, written⟩ := bind_ok.mp ran
  obtain ⟨stands, long⟩ := Stands.of_slice cut
  rw [← long] at room
  rw [(stands_overwrite written).slice_within room, stands.slice_within room]

theorem slice_copyWithin_apart (apart : offset + size ≤ target ∨ target + length ≤ offset) :
    View.slice data' offset size = View.slice data offset size := by
  obtain ⟨xs, cut, written⟩ := bind_ok.mp ran
  rw [← (Stands.of_slice cut).2] at apart
  exact slice_overwrite_apart written apart

end Copying

theorem length_flatten_uniform {parts : List (List α)}
    (uniform : ∀ part ∈ parts, part.length = length) :
    parts.flatten.length = parts.length * length := by
  induction parts with
  | nil => simp
  | cons part parts ih =>
    obtain ⟨first, rest⟩ := List.forall_mem_cons.mp uniform
    rw [List.flatten_cons, List.length_append, first, ih rest, List.length_cons, Nat.succ_mul,
      Nat.add_comm]

/-- Parts of one length stand one after the other in the whole that they make. -/
theorem stands_flatten {parts : List (List α)} (uniform : ∀ part ∈ parts, part.length = length)
    {i : Nat} (held : parts[i]? = some part) : Stands part parts.flatten (i * length) := by
  obtain ⟨below, rfl⟩ := List.getElem?_eq_some_iff.mp held
  have split : parts = parts.take i ++ parts[i] :: parts.drop (i + 1) := by
    rw [← List.drop_eq_getElem_cons below, List.take_append_drop]
  refine ⟨(parts.take i).flatten, (parts.drop (i + 1)).flatten, ?_, ?_⟩
  · rw [List.append_assoc, ← List.flatten_cons, ← List.flatten_append, ← split]
  · rw [length_flatten_uniform fun part member => uniform part (List.mem_of_mem_take member),
      List.length_take, Nat.min_eq_left (Nat.le_of_lt below)]

end Metaheuristic
