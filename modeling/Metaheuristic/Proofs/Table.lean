import Mathlib.Data.String.Basic
import Metaheuristic.Table

/-! What is found in a table after one of its entries was changed: the new value under its
name, and under every other name what was there before. The order of the names is what makes
the first of them the only one. -/
namespace Metaheuristic.Table

variable {β : Type} {name other : String} {f : Option β → β}

/-- The names stand in strict order. -/
def Ordered (entries : List (String × β)) : Prop := entries.Pairwise fun a b => a.1 < b.1

theorem lookup_alterEntry_of_ne (different : other ≠ name) (f : Option β → β)
    (entries : List (String × β)) :
    (alterEntry name f entries).lookup other = entries.lookup other := by
  have differs : (other == name) = false := by simpa using different
  induction entries with
  | nil => rw [alterEntry, List.lookup_cons, differs]
  | cons e entries ih =>
    obtain ⟨key, y⟩ := e
    unfold alterEntry
    split
    · rw [List.lookup_cons, differs]
    · split
      · rename_i same
        rw [List.lookup_cons, List.lookup_cons, ← same, differs]
      · rw [List.lookup_cons, List.lookup_cons, ih]

/-- A new value that does not depend on the old one needs no order. -/
theorem lookup_insertEntry_self (name : String) (x : β) (entries : List (String × β)) :
    (alterEntry name (fun _ => x) entries).lookup name = some x := by
  induction entries with
  | nil => exact List.lookup_cons_self
  | cons e entries ih =>
    obtain ⟨key, y⟩ := e
    unfold alterEntry
    split
    · exact List.lookup_cons_self
    · split
      · exact List.lookup_cons_self
      · rename_i different
        have differs : (name == key) = false := by simpa using different
        rw [List.lookup_cons, differs]
        exact ih

/-- Nothing is found under a name that is below all names. -/
theorem lookup_eq_none_of_lt {entries : List (String × β)}
    (below : ∀ e ∈ entries, name < e.1) : entries.lookup name = none := by
  refine List.lookup_eq_none_iff.mpr fun e member => ?_
  have differs := (below e member).ne
  simpa using differs

theorem lookup_alterEntry_self {entries : List (String × β)} (ordered : Ordered entries) :
    (alterEntry name f entries).lookup name = some (f (entries.lookup name)) := by
  induction entries with
  | nil => exact List.lookup_cons_self
  | cons e entries ih =>
    obtain ⟨key, y⟩ := e
    obtain ⟨first, rest⟩ := List.pairwise_cons.mp ordered
    unfold alterEntry
    split
    · rename_i before
      have missing : ((key, y) :: entries).lookup name = none := by
        refine lookup_eq_none_of_lt fun e member => ?_
        rcases List.mem_cons.mp member with rfl | later
        · exact before
        · exact before.trans (first e later)
      rw [missing]
      exact List.lookup_cons_self
    · split
      · rename_i same
        rw [same, List.lookup_cons_self, List.lookup_cons_self]
      · rename_i different
        have differs : (name == key) = false := by simpa using different
        rw [List.lookup_cons, List.lookup_cons, differs]
        exact ih rest

theorem mem_alterEntry {entries : List (String × β)} {e : String × β}
    (member : e ∈ alterEntry name f entries) : e.1 = name ∨ e ∈ entries := by
  induction entries with
  | nil =>
    rw [List.mem_singleton.mp member]
    exact .inl rfl
  | cons head entries ih =>
    obtain ⟨key, y⟩ := head
    unfold alterEntry at member
    split at member
    · rcases List.mem_cons.mp member with rfl | old
      · exact .inl rfl
      · exact .inr old
    · split at member
      · rcases List.mem_cons.mp member with rfl | old
        · exact .inl rfl
        · exact .inr (List.mem_cons_of_mem _ old)
      · rcases List.mem_cons.mp member with rfl | old
        · exact .inr List.mem_cons_self
        · exact (ih old).imp_right (List.mem_cons_of_mem _)

/-- A name that is not there yet only adds its entry. -/
theorem perm_alterEntry {entries : List (String × β)} (fresh : ∀ e ∈ entries, e.1 ≠ name) :
    (alterEntry name f entries).Perm ((name, f none) :: entries) := by
  induction entries with
  | nil => exact .refl _
  | cons e entries ih =>
    obtain ⟨key, y⟩ := e
    obtain ⟨first, rest⟩ := List.forall_mem_cons.mp fresh
    unfold alterEntry
    split
    · exact .refl _
    · split
      · rename_i same
        exact absurd same.symm first
      · exact ((ih rest).cons (key, y)).trans (.swap ..)

/-- In order of the names, what is there is what is found. -/
theorem Ordered.mem_iff_lookup {entries : List (String × β)} (ordered : Ordered entries) {x : β} :
    (name, x) ∈ entries ↔ entries.lookup name = some x := by
  constructor
  · intro member
    obtain ⟨before, after, rfl⟩ := List.append_of_mem member
    refine List.lookup_eq_some_iff.mpr ⟨before, after, rfl, fun e earlier => ?_⟩
    have lower := (List.pairwise_append.mp ordered).2.2 e earlier _ List.mem_cons_self
    simpa using lower.ne'
  · intro found
    obtain ⟨before, after, rfl, _⟩ := List.lookup_eq_some_iff.mp found
    exact List.mem_append_right _ List.mem_cons_self

theorem Ordered.alterEntry {entries : List (String × β)} (ordered : Ordered entries)
    (name : String) (f : Option β → β) : Ordered (alterEntry name f entries) := by
  induction entries with
  | nil => exact List.pairwise_singleton ..
  | cons e entries ih =>
    obtain ⟨key, y⟩ := e
    obtain ⟨first, rest⟩ := List.pairwise_cons.mp ordered
    unfold Table.alterEntry
    split
    · rename_i before
      refine List.pairwise_cons.mpr ⟨fun e member => ?_, ordered⟩
      rcases List.mem_cons.mp member with rfl | later
      · exact before
      · exact before.trans (first e later)
    · rename_i notBefore
      split
      · rename_i same
        refine List.pairwise_cons.mpr ⟨fun e member => ?_, rest⟩
        rw [same]
        exact first e member
      · rename_i different
        refine List.pairwise_cons.mpr ⟨fun e member => ?_, ih rest⟩
        rcases mem_alterEntry member with new | old
        · rw [new]
          exact lt_of_le_of_ne (not_lt.mp notBefore) (Ne.symm different)
        · exact first e old

end Metaheuristic.Table
