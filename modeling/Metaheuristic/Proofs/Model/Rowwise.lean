import Metaheuristic.Model.Formula
import Metaheuristic.Proofs.Model.Rows

/-! Formulas that treat the agents alike. Such a formula neither asks for the
number of agents nor brings in a column of several given values; evaluated for
many agents it yields for each of them what it yields for that agent alone. -/
namespace Metaheuristic

/-- A computation for `n` agents against the computations for each agent alone:
whatever it yields is good, and each agent alone gets its share of it, or the
same failure. -/
def Splits {ε β : Type} (n : Nat) (good : β → Prop) (share : Nat → β → β)
    (whole : Except ε β) (alone : Nat → Except ε β) : Prop :=
  (∀ x, whole = .ok x → good x) ∧ ∀ i < n, alone i = whole.map (share i)

namespace Splits

variable {ε β γ : Type} {n : Nat} {good : β → Prop} {share : Nat → β → β}
  {good' : γ → Prop} {share' : Nat → γ → γ}

theorem ok {x : β} (holds : good x) :
    Splits n good share (.ok x : Except ε β) fun i => .ok (share i x) := by
  refine ⟨fun y same => ?_, fun _ _ => rfl⟩
  cases same
  exact holds

theorem error (e : ε) : Splits n good share (.error e) fun _ => .error e :=
  ⟨nofun, fun _ _ => rfl⟩

/-- Running one computation after another one. -/
theorem bind {whole : Except ε β} {alone : Nat → Except ε β} {next : β → Except ε γ}
    {nextAlone : Nat → β → Except ε γ} (first : Splits n good share whole alone)
    (second : ∀ x, good x →
      Splits n good' share' (next x) fun i => nextAlone i (share i x)) :
    Splits n good' share' (whole >>= next) fun i => alone i >>= nextAlone i := by
  obtain ⟨holds, shares⟩ := first
  cases ran : whole with
  | error e =>
    refine ⟨nofun, fun i below => ?_⟩
    simp only [shares i below, ran]
    rfl
  | ok x =>
    obtain ⟨holds', shares'⟩ := second x (holds x ran)
    refine ⟨holds', fun i below => ?_⟩
    simp only [shares i below, ran]
    exact shares' i below

/-- Only the agents of the batch matter. -/
theorem congr {whole : Except ε β} {alone alone' : Nat → Except ε β}
    (splits : Splits n good share whole alone) (same : ∀ i < n, alone' i = alone i) :
    Splits n good share whole alone' :=
  ⟨splits.1, fun i below => (same i below).trans (splits.2 i below)⟩

/-- Turning the yield into something else. -/
theorem map {whole : Except ε β} {alone : Nat → Except ε β} {f : β → γ} {f' : Nat → β → γ}
    (splits : Splits n good share whole alone) (holds : ∀ x, good x → good' (f x))
    (shares : ∀ i x, f' i (share i x) = share' i (f x)) :
    Splits n good' share' (whole.map f) fun i => (alone i).map (f' i) := by
  obtain ⟨holdsX, sharesX⟩ := splits
  cases ran : whole with
  | error e =>
    refine ⟨nofun, fun i below => ?_⟩
    simp only [sharesX i below, ran]
    rfl
  | ok x =>
    refine ⟨fun y same => ?_, fun i below => ?_⟩
    · cases same
      exact holds x (holdsX x ran)
    · simp only [sharesX i below, ran, Except.map, shares]

theorem mapError {ε' : Type} {whole : Except ε β} {alone : Nat → Except ε β} (f : ε → ε')
    (splits : Splits n good share whole alone) :
    Splits n good share (whole.mapError f) fun i => (alone i).mapError f := by
  obtain ⟨holds, shares⟩ := splits
  cases ran : whole with
  | error e =>
    refine ⟨nofun, fun i below => ?_⟩
    simp only [shares i below, ran]
    rfl
  | ok x =>
    refine ⟨fun y same => ?_, fun i below => ?_⟩
    · cases same
      exact holds x ran
    · simp only [shares i below, ran]
      rfl

end Splits

namespace Column

variable {α : Type} {n : Nat} {a b : Column α}

theorem zipWith_splits (f : α → α → α) (left : a.Spans n) (right : b.Spans n) :
    Splits n (Spans n) row (zipWith f a b) fun i => zipWith f (a.row i) (b.row i) := by
  obtain ⟨c, combined, spans, shares⟩ := zipWith_row f left right
  rw [combined]
  exact (Splits.ok spans).congr shares

theorem total_splits [Scalar α] {columns : List (Column α)} (spans : ∀ c ∈ columns, c.Spans n) :
    Splits n (Spans n) row (total columns) fun i => total (columns.map (row i)) := by
  obtain ⟨c, added, spansC, shares⟩ := total_row spans
  rw [added]
  exact (Splits.ok spansC).congr shares

end Column

namespace Assignment

variable {α : Type} [Scalar α] {n : Nat} {v : Assignment α}

theorem element_splits (agents : v.agents = n) (flat : Nat) :
    Splits n (Column.Spans n) Column.row (v.element flat) fun i => (v.row i).element flat := by
  refine ⟨fun c read => ?_, fun i below => element_row (agents ▸ below) flat⟩
  unfold element at read
  split at read
  · cases read
    exact spans_columnAt agents flat
  · cases read

theorem get?_splits (agents : v.agents = n) (index : List Nat) :
    Splits n (fun found => ∀ c, found = some c → c.Spans n) (fun i => Option.map (Column.row i))
      (v.get? index) fun i => (v.row i).get? index := by
  refine ⟨fun found read c same => ?_, fun i below => get?_row (agents ▸ below) index⟩
  subst same
  unfold get? at read
  split at read
  · cases read
  · rename_i flat _
    cases element : v.element flat with
    | error cause =>
      rw [element] at read
      cases read
    | ok c' =>
      rw [element] at read
      cases read
      exact (element_splits agents flat).1 c element

theorem get_splits (agents : v.agents = n) (index : List Nat) :
    Splits n (Column.Spans n) Column.row (v.get index) fun i => (v.row i).get index := by
  refine (get?_splits agents index).bind fun found spans => ?_
  cases found with
  | none => exact Splits.error _
  | some c => exact Splits.ok (spans c rfl)

theorem spans_elements (agents : v.agents = n) : ∀ c ∈ v.elements, c.Spans n := by
  intro c member
  obtain ⟨flat, _, rfl⟩ := List.mem_map.mp member
  exact spans_columnAt agents flat

end Assignment

namespace Environment

variable {α : Type} {n : Nat} {env : Environment α}

/-- The values of one agent. -/
def row (i : Nat) (env : Environment α) : Environment α := env.map fun e => (e.1, e.2.row i)

/-- Every variable has values for `n` agents. -/
def Spans (n : Nat) (env : Environment α) : Prop := ∀ e ∈ env, e.2.agents = n

theorem find_splits (spans : env.Spans n) (name : String) :
    Splits n (fun v => v.agents = n) Assignment.row (env.find name)
      fun i => (env.row i).find name := by
  induction env with
  | nil => exact Splits.error _
  | cons e env ih =>
    obtain ⟨other, v⟩ := e
    have rest := ih fun e member => spans e (List.mem_cons_of_mem _ member)
    cases same : name == other with
    | true =>
      have agents : v.agents = n := spans (other, v) List.mem_cons_self
      have found : Splits n (fun v => v.agents = n) Assignment.row (.ok v : Except (Failure α) _)
          fun i => .ok (v.row i) := Splits.ok agents
      simpa [find, row, List.lookup_cons, same] using found
    | false => simpa [find, row, List.lookup_cons, same] using rest

end Environment

namespace Formula

variable {α : Type}

/-- Formulas in which an agent cannot see the others. -/
inductive Rowwise : Formula α → Prop where
  | scalar (x : α) : Rowwise (.scalar x)
  | constant (x : α) : Rowwise (.constant x)
  | column (x : α) : Rowwise (.column [x])
  | element (name : String) (flat : Nat) : Rowwise (.element name flat)
  | entry (name : String) (index : List Nat) : Rowwise (.entry name index)
  | lookup (name : String) (index : List Nat) : Rowwise (.lookup name index)
  | sum (name : String) : Rowwise (.sum name)
  | total (name : String) : Rowwise (.total name)
  | weighted (name : String) (weights : List α) : Rowwise (.weighted name weights)
  | addAll {terms : List (Formula α)} (each : ∀ a ∈ terms, Rowwise a) : Rowwise (.addAll terms)
  | map (f : α → α) {a : Formula α} (inner : Rowwise a) : Rowwise (.map f a)
  | zip (f : α → α → α) {a b : Formula α} (left : Rowwise a) (right : Rowwise b) :
    Rowwise (.zip f a b)

variable [Scalar α] {n : Nat} {env : Environment α}

private theorem evalAll_splits {terms : List (Formula α)}
    (each : ∀ a ∈ terms, Splits n (Column.Spans n) Column.row (a.eval n env)
      fun i => a.eval 1 (env.row i)) :
    Splits n (fun columns => ∀ c ∈ columns, c.Spans n) (fun i => List.map (Column.row i))
      (evalAll n env terms) fun i => evalAll 1 (env.row i) terms := by
  induction terms with
  | nil => exact Splits.ok fun _ none => by cases none
  | cons a terms ih =>
    have first := each a List.mem_cons_self
    have rest := ih fun a member => each a (List.mem_cons_of_mem _ member)
    refine first.bind fun c spans => rest.bind fun columns all => Splits.ok fun c' member => ?_
    rcases List.mem_cons.mp member with rfl | later
    · exact spans
    · exact all c' later

/-- Evaluating for one agent alone is reading the agent's value in the batch. -/
theorem eval_splits {φ : Formula α} (rowwise : φ.Rowwise) (spans : env.Spans n) :
    Splits n (Column.Spans n) Column.row (φ.eval n env) fun i => φ.eval 1 (env.row i) := by
  induction rowwise with
  | scalar x => exact Splits.ok (Column.spans_single x)
  | constant x =>
    refine (Splits.ok (Column.spans_constant x)).congr fun i below => ?_
    rw [Column.row_constant x below]
    rfl
  | column x => exact Splits.ok (Column.spans_single x)
  | element name flat =>
    exact (env.find_splits spans name).bind fun v agents =>
      (Assignment.element_splits agents flat).mapError Failure.fault
  | entry name index =>
    exact (env.find_splits spans name).bind fun v agents =>
      (Assignment.get_splits agents index).mapError Failure.fault
  | lookup name index =>
    refine (env.find_splits spans name).bind fun v agents =>
      ((Assignment.get?_splits agents index).mapError Failure.fault).bind fun found spansC => ?_
    cases found with
    | none => exact Splits.error _
    | some c => exact Splits.ok (spansC c rfl)
  | sum name =>
    refine (env.find_splits spans name).bind fun v agents =>
      (Splits.ok (Assignment.spans_sum agents)).congr fun i below => ?_
    rw [Assignment.sum_row (agents ▸ below)]
    rfl
  | total name =>
    refine (env.find_splits spans name).bind fun v agents => ?_
    refine ((Column.total_splits (Assignment.spans_elements agents)).mapError Failure.fault).congr
      fun i below => ?_
    rw [Assignment.elements_row (agents ▸ below)]
    rfl
  | weighted name weights =>
    refine (env.find_splits spans name).bind fun v agents => ?_
    have spansW : ∀ c ∈ List.zipWith (fun c w => c.map (· * w)) v.elements weights,
        c.Spans n := by
      intro c member
      obtain ⟨k, bound, rfl⟩ := List.mem_iff_getElem.mp member
      rw [List.getElem_zipWith]
      exact Column.spans_map _ (Assignment.spans_elements agents _ (List.getElem_mem _))
    refine ((Column.total_splits spansW).mapError Failure.fault).congr fun i below => ?_
    rw [Assignment.elements_row (agents ▸ below)]
    simp only [List.zipWith_map_left, List.map_zipWith, Column.row_map]
    rfl
  | addAll each ih =>
    exact (evalAll_splits ih).bind fun columns all => (Column.total_splits all).mapError Failure.fault
  | map f inner ih =>
    refine ih.bind fun c spansC => (Splits.ok (Column.spans_map f spansC)).congr fun i _ => ?_
    rw [Column.row_map]
    rfl
  | zip f left right ihLeft ihRight =>
    exact ihLeft.bind fun a spansA => ihRight.bind fun b spansB =>
      (Column.zipWith_splits f spansA spansB).mapError Failure.fault

end Formula
end Metaheuristic
