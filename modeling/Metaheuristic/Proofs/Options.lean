import Mathlib.Data.List.Nodup
import Mathlib.Data.String.Basic
import Metaheuristic.Options
import Metaheuristic.Proofs.Table

/-! What a reader of options makes of a table. Each thing a reader asks for is a key: a name with
the kind of number it takes. A reading is then described by the keys it asks for, in their order,
and by what it makes of a table in which they all hold suitable numbers; if one of them does not,
the first that does not is what is reported. Such descriptions compose, so that a reader of many
options is described by the keys of its parts, one after the other. -/
namespace Metaheuristic

/-- The kinds of numbers that options take. -/
inductive OptionKind where
  /-- Any finite number. -/
  | real
  /-- A whole number that is not negative. -/
  | count
  /-- Off for zero, on for every other finite number. -/
  | flag
  /-- Zero or one. -/
  | choice
  deriving DecidableEq, Repr

/-- An option that a reader asks for. -/
structure OptionKey where
  name : String
  kind : OptionKind
  deriving DecidableEq, Repr

/-- The number found under a name, cast to a machine word. -/
def Table.word? {α : Type} [Scalar α] (t : Table α) (name : String) : Option Nat :=
  (t.get? name).map Scalar.toWord

/-- The switch found under a name. -/
def Table.flag? {α : Type} [Scalar α] (t : Table α) (name : String) : Option Bool :=
  (t.get? name).map fun x => !(x == Scalar.zero)

section Keys

variable {α : Type} [Scalar α]

namespace OptionKind

/-- A whole number that is not negative. -/
def IsCount (x : α) : Prop :=
  Scalar.isFinite x = true ∧ Scalar.le Scalar.zero x = true ∧ Scalar.isWhole x = true

/-- The number is of the kind. -/
def Suits : OptionKind → α → Prop
  | real, x | flag, x => Scalar.isFinite x = true
  | count, x => IsCount x
  | choice, x => IsCount x ∧ ((x == Scalar.zero) = true ∨ (x == Scalar.one) = true)

/-- What a number is told that is no whole number or a negative one. -/
def countObjection (x : α) : Option (Requirement α) :=
  if !Scalar.isFinite x then some (.finite x)
  else if Scalar.le Scalar.zero x && Scalar.isWhole x then none
  else some (.wholeNonNegative x)

/-- What a number is told that is not of the kind. -/
def objection : OptionKind → α → Option (Requirement α)
  | real, x | flag, x => if Scalar.isFinite x then none else some (.finite x)
  | count, x => countObjection x
  | choice, x =>
    (countObjection x).or <|
      if x == Scalar.zero || x == Scalar.one then none
      else some (.selectionCode (Scalar.toWord x))

theorem countObjection_eq_none (x : α) : countObjection x = none ↔ IsCount x := by
  cases finite : Scalar.isFinite x <;> simp [countObjection, IsCount, finite]

theorem objection_eq_none (kind : OptionKind) (x : α) :
    kind.objection x = none ↔ kind.Suits x := by
  cases kind with
  | real => simp [objection, Suits]
  | flag => simp [objection, Suits]
  | count => exact countObjection_eq_none x
  | choice =>
    rw [objection, Option.or_eq_none_iff, countObjection_eq_none]
    refine and_congr_right fun _ => ?_
    cases (x == Scalar.zero) <;> simp

instance (kind : OptionKind) (x : α) : Decidable (kind.Suits x) :=
  decidable_of_iff ((kind.objection x).isNone = true)
    (Option.isNone_iff_eq_none.trans (objection_eq_none kind x))

end OptionKind

namespace OptionKey

/-- What the table holds under the name, if anything, is of the kind. -/
def Valid (key : OptionKey) (t : Table α) : Prop :=
  ∀ x, t.get? key.name = some x → key.kind.Suits x

/-- The error for what the table holds under the name, if that is not of the kind. -/
def objection (t : Table α) (key : OptionKey) : Option (ConfigError α) :=
  (t.get? key.name).bind fun x => (key.kind.objection x).map (.invalidParameter key.name)

theorem objection_eq_none (key : OptionKey) (t : Table α) :
    key.objection t = none ↔ key.Valid t := by
  unfold objection Valid
  cases t.get? key.name with
  | none => simp
  | some x => simp [OptionKind.objection_eq_none]

instance (key : OptionKey) (t : Table α) : Decidable (key.Valid t) :=
  decidable_of_iff ((key.objection t).isNone = true)
    (Option.isNone_iff_eq_none.trans (objection_eq_none key t))

end OptionKey

/-- The names of the keys. -/
def keyNames (keys : List OptionKey) : List String := keys.map OptionKey.name

/-- The first name in the table that is none of the keys. -/
def firstUnknown (keys : List OptionKey) (t : Table α) : Option String :=
  t.names.find? fun name => !(keyNames keys).contains name

/-- The error for the first of the keys that is not valid. -/
def firstObjection (keys : List OptionKey) (t : Table α) : Option (ConfigError α) :=
  keys.findSome? (·.objection t)

theorem firstObjection_append (keys later : List OptionKey) (t : Table α) :
    firstObjection (keys ++ later) t = (firstObjection keys t).or (firstObjection later t) :=
  List.findSome?_append

theorem firstObjection_eq_none {keys : List OptionKey} {t : Table α} :
    firstObjection keys t = none ↔ ∀ key ∈ keys, key.Valid t := by
  simp [firstObjection, OptionKey.objection_eq_none]

/-- If one of the keys holds another number than it should, then the first such key is the one
that is reported. -/
theorem firstObjection_of_invalid {keys : List OptionKey} {t : Table α} {invalid : OptionKey}
    (member : invalid ∈ keys) (notValid : ¬ invalid.Valid t) :
    ∃ before key after x requirement, keys = before ++ key :: after ∧
      (∀ earlier ∈ before, earlier.Valid t) ∧ t.get? key.name = some x ∧
      key.kind.objection x = some requirement ∧
      firstObjection keys t = some (.invalidParameter key.name requirement) := by
  cases first : firstObjection keys t with
  | none => exact absurd (firstObjection_eq_none.mp first invalid member) notValid
  | some e =>
    obtain ⟨before, key, after, split, objection, passed⟩ := List.findSome?_eq_some_iff.mp first
    have earlier : ∀ other ∈ before, other.Valid t := by
      intro other inside
      exact (OptionKey.objection_eq_none other t).mp (passed other inside)
    rw [OptionKey.objection, Option.bind_eq_some_iff] at objection
    obtain ⟨x, held, objection⟩ := objection
    obtain ⟨requirement, because, rfl⟩ := Option.map_eq_some_iff.mp objection
    exact ⟨before, key, after, x, requirement, split, earlier, held, because, rfl⟩

section Tables

variable {keys : List OptionKey} {t : Table α}

/-- Every entry of the table is one of the keys with a number of its kind. -/
def Table.Understood (keys : List OptionKey) (t : Table α) : Prop :=
  ∀ e ∈ t.entries, ∃ key ∈ keys, key.name = e.1 ∧ key.kind.Suits e.2

instance : Decidable (t.Understood keys) :=
  inferInstanceAs (Decidable (∀ e ∈ t.entries, ∃ key ∈ keys, key.name = e.1 ∧ key.kind.Suits e.2))

omit [Scalar α] in
theorem firstUnknown_eq_none :
    firstUnknown keys t = none ↔ ∀ name ∈ t.names, name ∈ keyNames keys := by
  simp [firstUnknown]

theorem eq_of_name_eq (distinct : (keyNames keys).Nodup) {key other : OptionKey}
    (member : key ∈ keys) (otherMember : other ∈ keys) (same : other.name = key.name) :
    other = key :=
  List.inj_on_of_nodup_map distinct otherMember member same

theorem understood_iff (distinct : (keyNames keys).Nodup) (ordered : Table.Ordered t.entries) :
    t.Understood keys ↔ firstObjection keys t = none ∧ firstUnknown keys t = none := by
  rw [firstObjection_eq_none, firstUnknown_eq_none]
  constructor
  · intro understood
    constructor
    · intro key member x held
      have entry : (key.name, x) ∈ t.entries := (ordered.mem_iff_lookup).mpr held
      obtain ⟨other, otherMember, same, suits⟩ := understood _ entry
      rw [eq_of_name_eq distinct member otherMember same] at suits
      exact suits
    · intro name named
      obtain ⟨e, entry, rfl⟩ := List.mem_map.mp named
      obtain ⟨key, member, same, _⟩ := understood e entry
      rw [← same]
      exact List.mem_map_of_mem member
  · intro ⟨valid, known⟩ e entry
    obtain ⟨key, member, same⟩ := List.mem_map.mp (known e.1 (List.mem_map_of_mem entry))
    refine ⟨key, member, same, valid key member e.2 ?_⟩
    rw [same]
    exact (ordered.mem_iff_lookup).mp entry

omit [Scalar α] in
/-- In a table in order, the first name that is none of the keys is the least one. -/
theorem firstUnknown_eq_some (ordered : Table.Ordered t.entries) {name : String}
    (named : name ∈ t.names) (unknown : name ∉ keyNames keys)
    (least : ∀ other ∈ t.names, other ∉ keyNames keys → name ≤ other) :
    firstUnknown keys t = some name := by
  have names : t.names.Pairwise (· < ·) := List.pairwise_map.mpr ordered
  cases first : firstUnknown keys t with
  | none => exact absurd (firstUnknown_eq_none.mp first name named) unknown
  | some other =>
    obtain ⟨notKey, before, after, split, earlier⟩ := List.find?_eq_some_iff_append.mp first
    have otherNamed : other ∈ t.names := by simp [split]
    have bound : name ≤ other := least other otherNamed (by simpa using notKey)
    rw [split] at named names
    rcases List.mem_append.mp named with inside | inside
    · have key : name ∈ keyNames keys := by simpa using earlier name inside
      exact absurd key unknown
    · rcases List.mem_cons.mp inside with same | later
      · rw [same]
      · have above : other < name :=
          (List.pairwise_cons.mp (List.pairwise_append.mp names).2.1).1 name later
        exact absurd above (not_lt.mpr bound)

end Tables
end Keys

section Readings

variable {α β γ : Type} {m : Reading α β} {k : β → Reading α γ}

theorem OptionReader.run_bind_accepted {r r' : OptionReader α} {b : β}
    (ran : m.run.run r = (.ok b, r')) : (m >>= k).run.run r = (k b).run.run r' := by
  rw [ExceptT.run_bind, StateT.run_bind, ran]
  rfl

theorem OptionReader.run_bind_refused {r r' : OptionReader α} {e : ConfigError α}
    (ran : m.run.run r = (.error e, r')) : (m >>= k).run.run r = (.error e, r') := by
  rw [ExceptT.run_bind, StateT.run_bind, ran]
  rfl

theorem OptionReader.run_ask (name : String) (r : OptionReader α) :
    (ask name : Reading α (Option α)).run.run r =
      (.ok (r.options.get? name), ⟨r.options, name :: r.consumed⟩) := rfl

theorem OptionReader.run_finish (keys : List OptionKey) (t : Table α) (scope : String) :
    ((OptionReader.finish scope : Reading α Unit).run.run ⟨t, (keyNames keys).reverse⟩) =
      ((match firstUnknown keys t with
        | some name => .error (.unknownOption name scope)
        | none => .ok ()), ⟨t, (keyNames keys).reverse⟩) := by
  have asked : (fun name => !((keyNames keys).reverse).contains name) =
      fun name => !(keyNames keys).contains name := by
    funext name
    simp
  have unfolded : (OptionReader.finish scope : Reading α Unit).run.run ⟨t, (keyNames keys).reverse⟩ =
      (match t.names.find? fun name => !((keyNames keys).reverse).contains name with
      | some name => (throw (ConfigError.unknownOption name scope) : Reading α Unit)
      | none => return ()).run.run ⟨t, (keyNames keys).reverse⟩ := rfl
  rw [unfolded, asked, ← firstUnknown]
  cases firstUnknown keys t <;> rfl

variable [Scalar α]

/-- The reading asks for the keys in their order and makes of a table what the function says. -/
structure Reads (keys : List OptionKey) (m : Reading α β) (f : Table α → β) : Prop where
  accepts (r : OptionReader α) : firstObjection keys r.options = none →
    m.run.run r =
      (.ok (f r.options), ⟨r.options, (keyNames keys).reverse ++ r.consumed⟩)
  refuses (r : OptionReader α) (e : ConfigError α) : firstObjection keys r.options = some e →
    ∃ r', m.run.run r = (.error e, r')

namespace Reads

variable {keys later : List OptionKey} {f : Table α → β}

/-- Nothing is asked for. -/
theorem pure (b : β) : Reads [] (pure b : Reading α β) (fun _ => b) where
  accepts _ _ := rfl
  refuses _ _ objection := nomatch objection

/-- What is read first is asked for first. -/
theorem bind {g : β → Table α → γ} (first : Reads keys m f) (rest : ∀ b, Reads later (k b) (g b)) :
    Reads (keys ++ later) (m >>= k) (fun t => g (f t) t) where
  accepts r silent := by
    rw [firstObjection_append, Option.or_eq_none_iff] at silent
    obtain ⟨before, after⟩ := silent
    have ran := (rest (f r.options)).accepts
      ⟨r.options, (keyNames keys).reverse ++ r.consumed⟩ after
    rw [OptionReader.run_bind_accepted (first.accepts r before), ran]
    simp [keyNames]
  refuses r e objects := by
    rw [firstObjection_append] at objects
    cases before : firstObjection keys r.options with
    | some e' =>
      rw [before, Option.some_or] at objects
      cases objects
      obtain ⟨r', ran⟩ := first.refuses r e before
      exact ⟨r', OptionReader.run_bind_refused ran⟩
    | none =>
      rw [before, Option.none_or] at objects
      rw [OptionReader.run_bind_accepted (first.accepts r before)]
      exact (rest (f r.options)).refuses ⟨r.options, _⟩ e objects

/-- A reading whose value is worked on once more. -/
theorem map (g : β → γ) (reads : Reads keys m f) :
    Reads keys (do return g (← m)) (fun t => g (f t)) := by
  have composed := reads.bind fun b => Reads.pure (g b)
  rw [List.append_nil] at composed
  exact composed

end Reads

/-- A reading of one option: without it, with a suitable number, and with another one. -/
theorem Reads.single {key : OptionKey} {f : Option α → β}
    (absent : ∀ r : OptionReader α, r.options.get? key.name = none →
      m.run.run r = (.ok (f none), ⟨r.options, key.name :: r.consumed⟩))
    (suits : ∀ (r : OptionReader α) (x : α), r.options.get? key.name = some x →
      key.kind.objection x = none →
      m.run.run r = (.ok (f (some x)), ⟨r.options, key.name :: r.consumed⟩))
    (objects : ∀ (r : OptionReader α) (x : α) (requirement : Requirement α),
      r.options.get? key.name = some x → key.kind.objection x = some requirement →
      m.run.run r = (.error (.invalidParameter key.name requirement),
        ⟨r.options, key.name :: r.consumed⟩)) :
    Reads [key] m (fun t => f (t.get? key.name)) where
  accepts r silent := by
    replace silent : key.objection r.options = none := by simpa [firstObjection] using silent
    cases held : r.options.get? key.name with
    | none => exact absent r held
    | some x =>
      rw [OptionKey.objection, held] at silent
      exact suits r x held (by simpa using silent)
  refuses r e objection := by
    replace objection : key.objection r.options = some e := by
      simpa [firstObjection] using objection
    cases held : r.options.get? key.name with
    | none => simp [OptionKey.objection, held] at objection
    | some x =>
      simp only [OptionKey.objection, held, Option.bind_some, Option.map_eq_some_iff] at objection
      obtain ⟨requirement, because, rfl⟩ := objection
      exact ⟨_, objects r x requirement held because⟩

namespace OptionReader

variable {name : String} {r : OptionReader α} {x : α}

theorem run_real_absent (held : r.options.get? name = none) :
    (real name : Reading α (Option α)).run.run r =
      (.ok none, ⟨r.options, name :: r.consumed⟩) := by
  rw [real, run_bind_accepted (run_ask name r), held]
  rfl

theorem run_real_finite (held : r.options.get? name = some x)
    (finite : Scalar.isFinite x = true) :
    (real name : Reading α (Option α)).run.run r =
      (.ok (some x), ⟨r.options, name :: r.consumed⟩) := by
  rw [real, run_bind_accepted (run_ask name r), held]
  simp only [finite, if_true]
  rfl

theorem run_real_not_finite (held : r.options.get? name = some x)
    (infinite : Scalar.isFinite x = false) :
    (real name : Reading α (Option α)).run.run r =
      (.error (.invalidParameter name (.finite x)), ⟨r.options, name :: r.consumed⟩) := by
  rw [real, run_bind_accepted (run_ask name r), held]
  simp only [infinite, Bool.false_eq_true, if_false]
  rfl

theorem reads_real (name : String) :
    Reads [⟨name, .real⟩] (real name : Reading α (Option α)) (fun t => t.get? name) := by
  refine Reads.single (f := id) (fun r held => run_real_absent held) ?_ ?_
  · intro r x held silent
    have finite : Scalar.isFinite x = true := (OptionKind.objection_eq_none _ x).mp silent
    exact run_real_finite held finite
  · intro r x requirement held because
    cases finite : Scalar.isFinite x with
    | true => simp [OptionKind.objection, finite] at because
    | false =>
      simp only [OptionKind.objection, finite, Bool.false_eq_true, if_false,
        Option.some.injEq] at because
      rw [← because]
      exact run_real_not_finite held finite

theorem run_count_absent (held : r.options.get? name = none) :
    (count name : Reading α (Option Nat)).run.run r =
      (.ok none, ⟨r.options, name :: r.consumed⟩) := by
  rw [count, run_bind_accepted (run_real_absent held)]
  rfl

theorem run_count_suits (held : r.options.get? name = some x) (suits : OptionKind.IsCount x) :
    (count name : Reading α (Option Nat)).run.run r =
      (.ok (some (Scalar.toWord x)), ⟨r.options, name :: r.consumed⟩) := by
  obtain ⟨finite, lower, whole⟩ := suits
  rw [count, run_bind_accepted (run_real_finite held finite)]
  simp only [lower, whole, Bool.and_self, if_true]
  rfl

theorem run_count_objects {requirement : Requirement α} (held : r.options.get? name = some x)
    (because : OptionKind.countObjection x = some requirement) :
    (count name : Reading α (Option Nat)).run.run r =
      (.error (.invalidParameter name requirement), ⟨r.options, name :: r.consumed⟩) := by
  cases finite : Scalar.isFinite x with
  | false =>
    simp only [OptionKind.countObjection, finite, Bool.not_false, if_true,
      Option.some.injEq] at because
    rw [← because]
    exact run_bind_refused (run_real_not_finite held finite)
  | true =>
    simp only [OptionKind.countObjection, finite, Bool.not_true, Bool.false_eq_true,
      if_false] at because
    rw [count, run_bind_accepted (run_real_finite held finite)]
    by_cases whole : (Scalar.le Scalar.zero x && Scalar.isWhole x) = true
    · simp [whole] at because
    · simp only [whole, Bool.false_eq_true, if_false, Option.some.injEq] at because ⊢
      rw [← because]
      rfl

theorem reads_count (name : String) :
    Reads [⟨name, .count⟩] (count name : Reading α (Option Nat)) (fun t => t.word? name) := by
  refine Reads.single (f := fun held => held.map Scalar.toWord)
    (fun r held => run_count_absent held) ?_ ?_
  · intro r x held silent
    exact run_count_suits held ((OptionKind.objection_eq_none _ x).mp silent)
  · intro r x requirement held because
    exact run_count_objects held because

/-- A switch is read as a number. -/
theorem reads_flag (name : String) :
    Reads [⟨name, .flag⟩] (flag name : Reading α (Option Bool)) (fun t => t.flag? name) := by
  have reads := (reads_real name (α := α)).map fun held => held.map fun x => !(x == Scalar.zero)
  exact ⟨reads.accepts, reads.refuses⟩

/-- A reading after which no option may be left over. -/
def complete (m : Reading α β) (scope : β → String) : Reading α β := do
  let b ← m
  finish (scope b)
  return b

variable {keys : List OptionKey} {f : Table α → β} {scope : β → String} {t : Table α}

theorem complete_refused {e : ConfigError α} (reads : Reads keys m f)
    (objects : firstObjection keys t = some e) :
    ((complete m scope).run.run (ofTable t)).1 = .error e := by
  obtain ⟨r', ran⟩ := reads.refuses (ofTable t) e objects
  rw [complete, run_bind_refused ran]

theorem complete_of_valid (reads : Reads keys m f) (silent : firstObjection keys t = none) :
    ((complete m scope).run.run (ofTable t)).1 =
      match firstUnknown keys t with
      | some name => .error (.unknownOption name (scope (f t)))
      | none => .ok (f t) := by
  have ran := reads.accepts (ofTable t) silent
  rw [ofTable, List.append_nil] at ran
  rw [complete, ofTable, run_bind_accepted ran]
  cases unknown : firstUnknown keys t with
  | some name =>
    have finished := run_finish keys t (scope (f t))
    rw [unknown] at finished
    rw [run_bind_refused finished]
  | none =>
    have finished := run_finish keys t (scope (f t))
    rw [unknown] at finished
    rw [run_bind_accepted finished]
    rfl

end OptionReader
end Readings
end Metaheuristic
