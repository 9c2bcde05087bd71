import Mathlib.Data.List.DropRight
import Mathlib.Data.List.Nodup
import Metaheuristic.Strategy.Tabu

/-! The memory of a tabu search as a window on its newcomers. A key that is remembered while it is
in memory changes nothing, so only the keys that were absent when their turn came count. Memory
holds the last of them, as many as it has room for, in the order in which they came. -/
namespace Metaheuristic.Tabu.Memory

variable {tenure : Nat} {m : Memory} {key : Key}

/-- The last entries of a list and what follows them decide on the last entries of the whole. -/
private theorem rtake_rtake_append {β : Type} (n : Nat) (before after : List β) :
    (before.rtake n ++ after).rtake n = (before ++ after).rtake n := by
  simp only [List.rtake_eq_reverse_take_reverse, List.reverse_append, List.reverse_reverse,
    List.take_append, List.length_reverse, List.take_take]
  rw [Nat.min_eq_left (Nat.sub_le n after.length)]

private theorem rtake_append_of_length_le {β : Type} {n : Nat} (before : List β) {after : List β}
    (short : after.length ≤ n) :
    (before ++ after).rtake n = before.rtake (n - after.length) ++ after := by
  rw [List.rtake, List.rtake, List.length_append, List.drop_append]
  have behind : before.length + after.length - n - before.length = 0 := by omega
  have within : before.length + after.length - n = before.length - (n - after.length) := by omega
  rw [behind, within, List.drop_zero]

private theorem length_rtake {β : Type} (n : Nat) (l : List β) :
    (l.rtake n).length = min n l.length := by
  rw [List.rtake, List.length_drop]
  omega

theorem remember_of_contains (known : m.contains key = true) : m.remember tenure key = m :=
  if_pos known

/-- A key that is not in memory enters at the end, and only the last keys stay. -/
theorem queue_remember (positive : 0 < tenure) (fits : m.queue.length ≤ tenure)
    (absent : m.contains key = false) :
    (m.remember tenure key).queue = (m.queue ++ [key]).rtake tenure := by
  obtain ⟨n, rfl⟩ := Nat.exists_eq_succ_of_ne_zero (Nat.ne_of_gt positive)
  rw [List.rtake_concat_succ]
  rw [remember, if_neg (by simp [absent])]
  dsimp only
  congr 1
  split
  · rename_i full
    cases queue : m.queue with
    | nil => simp [queue] at full
    | cons oldest rest =>
      rw [queue, List.length_cons] at fits full
      have exact : rest.length = n := by omega
      simp [forgetOldest, queue, List.rtake, exact]
  · rename_i room
    have few : m.queue.length - n = 0 := by omega
    rw [List.rtake, few, List.drop_zero]

/-- Memory grows by one state at most, and not beyond its bound. -/
theorem size_remember (positive : 0 < tenure) (fits : m.size ≤ tenure) (key : Key) :
    (m.remember tenure key).size ≤ tenure ∧ (m.remember tenure key).size ≤ m.size + 1 := by
  cases known : m.contains key with
  | true => simpa [remember_of_contains known] using fits
  | false =>
    rw [size, queue_remember positive fits known, length_rtake, List.length_append,
      List.length_singleton]
    exact ⟨Nat.min_le_left _ _, Nat.min_le_right _ _⟩

/-- A state that was remembered is in memory, so that memory is not empty. -/
theorem size_remember_pos (tenure : Nat) {m : Memory} (key : Key)
    (some : m = .empty ∨ 0 < m.size) : 0 < (m.remember tenure key).size := by
  cases known : m.contains key with
  | true =>
    rw [remember_of_contains known]
    refine some.resolve_left ?_
    rintro rfl
    exact absurd known (by simp [contains, empty])
  | false =>
    rw [remember, if_neg (by simp [known])]
    simp [size]

/-- A memory of bounded size whose two halves agree. -/
structure Consistent (tenure : Nat) (m : Memory) : Prop where
  distinct : m.queue.Nodup
  listed : ∀ key, key ∈ m.members ↔ key ∈ m.queue
  fits : m.queue.length ≤ tenure

namespace Consistent

theorem empty (tenure : Nat) : Consistent tenure Memory.empty :=
  ⟨.nil, by simp [Memory.empty], Nat.zero_le _⟩

variable (consistent : Consistent tenure m)

include consistent

theorem contains_iff : m.contains key = true ↔ key ∈ m.queue :=
  Std.HashSet.contains_iff_mem.trans (consistent.listed key)

theorem forgetOldest : Consistent tenure m.forgetOldest := by
  unfold Memory.forgetOldest
  split
  · exact consistent
  · rename_i oldest rest queue
    have distinct := consistent.distinct
    have fits := consistent.fits
    rw [queue, List.nodup_cons] at distinct
    rw [queue, List.length_cons] at fits
    refine ⟨distinct.2, fun key => ?_, by dsimp only; omega⟩
    rw [Std.HashSet.mem_erase, consistent.listed, queue]
    simp only [beq_eq_false_iff_ne, List.mem_cons]
    refine ⟨fun ⟨other, held⟩ => held.resolve_left (Ne.symm other), fun held => ⟨?_, .inr held⟩⟩
    rintro rfl
    exact distinct.1 held

theorem remember (positive : 0 < tenure) (key : Key) :
    Consistent tenure (m.remember tenure key) := by
  cases known : m.contains key with
  | true => rwa [remember_of_contains known]
  | false =>
    have queue := queue_remember positive consistent.fits known
    have absent : key ∉ m.queue := by simp [← consistent.contains_iff, known]
    refine ⟨?_, fun other => ?_, ?_⟩
    · rw [queue]
      have all : (m.queue ++ [key]).Nodup :=
        consistent.distinct.append (List.nodup_singleton key) (by simpa using absent)
      exact all.sublist (List.drop_sublist _ _)
    · have roomy : Consistent tenure (if tenure ≤ m.queue.length then m.forgetOldest else m) := by
        split
        · exact consistent.forgetOldest
        · exact consistent
      rw [Memory.remember, if_neg (by simp [known])]
      simp only [Std.HashSet.mem_insert, roomy.listed, List.mem_append, List.mem_singleton,
        beq_iff_eq]
      tauto
    · rw [queue, length_rtake]
      exact Nat.min_le_left _ _

end Consistent

/-- What was just remembered is in memory. -/
theorem contains_remember (key : Key) : (m.remember tenure key).contains key = true := by
  cases known : m.contains key with
  | true => rwa [remember_of_contains known]
  | false =>
    rw [remember, if_neg (by simp [known])]
    exact Std.HashSet.contains_insert_self

/-- Remembers keys one after another. -/
def rememberAll (tenure : Nat) (m : Memory) (keys : List Key) : Memory :=
  keys.foldl (remember tenure) m

/-- Those of the keys that are not in memory when their turn comes. -/
def newcomers (tenure : Nat) (m : Memory) : List Key → List Key
  | [] => []
  | key :: keys =>
    (if m.contains key then [] else [key]) ++ newcomers tenure (m.remember tenure key) keys

theorem newcomers_concat (tenure : Nat) (m : Memory) (keys : List Key) (key : Key) :
    newcomers tenure m (keys ++ [key]) = newcomers tenure m keys ++
      if (m.rememberAll tenure keys).contains key then [] else [key] := by
  induction keys generalizing m with
  | nil => exact List.append_nil _
  | cons first keys ih =>
    rw [List.cons_append, newcomers, newcomers, ih, List.append_assoc]
    rfl

namespace Consistent

variable (consistent : Consistent tenure m) (positive : 0 < tenure)

include consistent positive

theorem rememberAll (keys : List Key) : Consistent tenure (m.rememberAll tenure keys) := by
  induction keys generalizing m with
  | nil => exact consistent
  | cons key keys ih => exact ih (consistent.remember positive key)

/-- Memory is a window on what it held and the newcomers since. -/
theorem queue_rememberAll (keys : List Key) :
    (m.rememberAll tenure keys).queue = (m.queue ++ newcomers tenure m keys).rtake tenure := by
  induction keys generalizing m with
  | nil =>
    have all : m.queue.length - tenure = 0 := Nat.sub_eq_zero_of_le consistent.fits
    rw [newcomers, List.append_nil, List.rtake, all, List.drop_zero]
    rfl
  | cons key keys ih =>
    have after := ih (consistent.remember positive key)
    cases known : m.contains key with
    | true =>
      rw [remember_of_contains known] at after
      simpa [newcomers, known, Memory.rememberAll, remember_of_contains known] using after
    | false =>
      calc (m.rememberAll tenure (key :: keys)).queue
          = ((m.remember tenure key).queue ++
              newcomers tenure (m.remember tenure key) keys).rtake tenure := after
        _ = (m.queue ++ newcomers tenure m (key :: keys)).rtake tenure := by
          rw [queue_remember positive consistent.fits known, rtake_rtake_append]
          simp [newcomers, known]

/-- A newcomer stays while there is room behind it. -/
theorem contains_of_few (absent : m.contains key = false) (later : List Key)
    (few : (newcomers tenure (m.remember tenure key) later).length < tenure) :
    ((m.remember tenure key).rememberAll tenure later).contains key = true := by
  have entered := consistent.remember positive key
  rw [(entered.rememberAll positive later).contains_iff, entered.queue_rememberAll positive,
    queue_remember positive consistent.fits absent, rtake_rtake_append,
    rtake_append_of_length_le _ (Nat.le_of_lt few)]
  obtain ⟨room, shape⟩ := Nat.exists_eq_succ_of_ne_zero (Nat.sub_ne_zero_of_lt few)
  rw [shape, List.rtake_concat_succ]
  simp

/-- As long as a newcomer stays it does not come again. -/
theorem not_mem_newcomers (absent : m.contains key = false) (later : List Key)
    (few : (newcomers tenure (m.remember tenure key) later).length ≤ tenure) :
    key ∉ newcomers tenure (m.remember tenure key) later := by
  induction later using List.reverseRecOn with
  | nil => exact List.not_mem_nil
  | append_singleton later next ih =>
    rw [newcomers_concat] at few ⊢
    split at few
    · rename_i known
      rw [if_pos known]
      simpa using ih (by simpa using few)
    · rename_i unknown
      rw [List.length_append, List.length_singleton] at few
      rw [if_neg unknown, List.mem_append, List.mem_singleton]
      rintro (earlier | rfl)
      · exact ih (by omega) earlier
      · exact unknown (consistent.contains_of_few positive absent later (by omega))

/-- A newcomer is gone when as many others have come as memory has room for. -/
theorem not_contains_of_full (absent : m.contains key = false) (later : List Key)
    (full : (newcomers tenure (m.remember tenure key) later).length = tenure) :
    ((m.remember tenure key).rememberAll tenure later).contains key = false := by
  have entered := consistent.remember positive key
  have queue : ((m.remember tenure key).rememberAll tenure later).queue =
      newcomers tenure (m.remember tenure key) later := by
    rw [entered.queue_rememberAll positive, rtake_append_of_length_le _ (Nat.le_of_eq full), full,
      Nat.sub_self, List.rtake_zero, List.nil_append]
  rw [← Bool.not_eq_true, (entered.rememberAll positive later).contains_iff, queue]
  exact consistent.not_mem_newcomers positive absent later (Nat.le_of_eq full)

end Consistent

/-- Memory holds the last newcomers, each once, and no more than it has room for. A newcomer stays
until as many others have come as there is room for, however often known keys are remembered in
between, and is gone then. -/
theorem newcomers_stay_for_tenure {tenure : Nat} (positive : 0 < tenure) (keys : List Key) :
    let m := Memory.empty.rememberAll tenure keys
    m.queue = (newcomers tenure Memory.empty keys).rtake tenure ∧
    m.queue.Nodup ∧ (∀ key, key ∈ m.members ↔ key ∈ m.queue) ∧ m.queue.length ≤ tenure ∧
    ∀ key, (m.remember tenure key).contains key = true ∧
      (m.contains key = false → ∀ later,
        let others := (newcomers tenure (m.remember tenure key) later).length
        let known := ((m.remember tenure key).rememberAll tenure later).contains key
        (others < tenure → known = true) ∧ (others = tenure → known = false)) := by
  have consistent := (Consistent.empty tenure).rememberAll positive keys
  refine ⟨?_, consistent.distinct, consistent.listed, consistent.fits, fun key =>
    ⟨contains_remember key, fun absent later => ?_⟩⟩
  · exact (Consistent.empty tenure).queue_rememberAll positive keys
  · exact ⟨consistent.contains_of_few positive absent later,
      consistent.not_contains_of_full positive absent later⟩

/-- With room for two states, the first of three is gone although it came twice. -/
theorem newcomers_stay_for_two : 0 < 2 ∧
    (rememberAll 2 (remember 2 .empty [0]) [[1]]).contains [0] = true ∧
    (rememberAll 2 (remember 2 .empty [0]) [[1], [0], [2]]).contains [0] = false := by
  have kept := (@newcomers_stay_for_tenure 2 (by decide) []).2.2.2.2 [0]
  have absent : Memory.empty.contains [0] = false := Std.HashSet.contains_empty
  refine ⟨by decide, (kept.2 absent [[1]]).1 ?_, (kept.2 absent [[1], [0], [2]]).2 ?_⟩
  · simp [newcomers, rememberAll, remember, contains, empty]
  · simp [newcomers, rememberAll, remember, contains, empty]

end Metaheuristic.Tabu.Memory
