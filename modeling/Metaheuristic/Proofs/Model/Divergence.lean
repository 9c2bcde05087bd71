import Metaheuristic.Proofs.Model.Batch
import Metaheuristic.Proofs.Model.Discovery
import Metaheuristic.Proofs.Model.Reading
import Metaheuristic.Proofs.Number.Double

/-! A pass against discovery. The cursor of a pass stands behind the declarations that said
what was discovered, so a pass diverges exactly where its declarations first part from the
discovered ones: at one that says something else, at one too many, or at the first one that
is missing. Only then are the objectives counted, and only then the constraints. -/
namespace Metaheuristic

variable {α : Type} [Scalar α]

namespace Declaration

/-- A declaration that says the same as a discovered one. The bounds of binary variables
and sequences are implied by their kind. -/
def Matches (discovered issued : Declaration α) : Prop :=
  discovered.name = issued.name ∧ discovered.kind = issued.kind ∧
    discovered.shape = issued.shape ∧
    (issued.kind = .continuous ∨ issued.kind = .positive ∨ issued.kind = .integer →
      (discovered.bound.lo == issued.bound.lo) = true ∧
        (discovered.bound.hi == issued.bound.hi) = true)

/-- The place where two lists of declarations first part: before it they match, and there
one of them has ended or they do not match. -/
def PartAt (discovered issued : List (Declaration α)) (k : Nat) : Prop :=
  (∀ i < k, ∃ d d', discovered[i]? = some d ∧ issued[i]? = some d' ∧ d.Matches d') ∧
    (k < discovered.length ∨ k < issued.length) ∧
    ∀ d d', discovered[k]? = some d → issued[k]? = some d' → ¬d.Matches d'

/-- Lists that match position by position part nowhere. -/
theorem not_partAt {discovered issued : List (Declaration α)} {k : Nat}
    (same : List.Forall₂ Matches discovered issued) : ¬PartAt discovered issued k := by
  rintro ⟨_, inside, parts⟩
  have length := same.length_eq
  have below : k < discovered.length := by omega
  have below' : k < issued.length := by omega
  exact parts _ _ (List.getElem?_eq_getElem below) (List.getElem?_eq_getElem below')
    (List.forall₂_iff_get.mp same |>.2 k below below')

variable {d issued : Declaration α} {v : Variable α}

/-- The checks keep the bounds of real and whole numbers, which are finite. -/
theorem checkedBound_ranged {bound : Bound α}
    (ranged : d.kind = .continuous ∨ d.kind = .positive ∨ d.kind = .integer)
    (checked : Registry.checkedBound d = .ok bound) :
    bound = d.bound ∧ Scalar.isFinite d.bound.lo = true ∧ Scalar.isFinite d.bound.hi = true := by
  unfold Registry.checkedBound at checked
  rcases ranged with kind | kind | kind <;>
  · simp only [kind] at checked
    split at checked
    · cases checked
    · split at checked
      · cases checked
      · rename_i finite
        simp only [Bool.or_eq_true, Bool.not_eq_true', not_or, Bool.not_eq_false] at finite
        split at checked
        · cases checked
        · split at checked
          · cases checked
          · cases checked
            exact ⟨rfl, finite⟩

/-- A variable agrees with a declaration exactly when the declaration that it stands for
matches it, although the variable may have another bound. -/
theorem agrees_iff_matches (stands : v.StandsFor d) :
    v.toDeclaration.agrees issued = true ↔ d.Matches issued := by
  have own : v.toDeclaration = { d with bound := v.bound } := stands.2
  have name : v.name = d.name := by rw [own]
  have kind : v.kind = d.kind := by rw [own]
  have shape : v.shape = d.shape := by rw [own]
  simp only [agrees, Matches, Bool.and_eq_true, beq_iff_eq, name, kind, shape, and_assoc]
  refine and_congr_right fun _ => and_congr_right fun same => and_congr_right fun _ => ?_
  cases issuedKind : issued.kind with
  | binary | sequence => simp
  | continuous | positive | integer =>
    have bound := (checkedBound_ranged (by rw [same, issuedKind]; simp) stands.1).1
    simp [bound]

/-- A declaration that was accepted matches itself: its bounds are numbers. -/
theorem matches_self [Scalar.LawfulOrder α] (stands : v.StandsFor d) : d.Matches d := by
  refine ⟨rfl, rfl, rfl, fun ranged => ?_⟩
  obtain ⟨_, lower, upper⟩ := checkedBound_ranged ranged stands.1
  exact ⟨Scalar.eq_refl (Scalar.defined_of_finite lower),
    Scalar.eq_refl (Scalar.defined_of_finite upper)⟩

end Declaration

namespace Pass

variable {mode : Mode} {schema : Schema α} {view : View α}

/-- The requests of a program that follows a schema from a position on: the declarations,
the number of objectives and the number of constraints. Declarations that agree with the
schema are answered; at one that does not the program stops with the error, and whatever may
be written behind it does not matter. The program does not give up by itself, and every column
has a value for each agent or one for all of them. -/
inductive Issues (mode : Mode) (schema : Schema α) (view : View α) :
    Program α → (position : Nat) → List (Declaration α) → (objectives constraints : Nat) → Prop
  | done (k : Nat) : Issues mode schema view .done k [] 0 0
  | mode {next : Mode → Program α} {k m c : Nat} {issued : List (Declaration α)}
    (rest : Issues mode schema view (next mode) k issued m c) :
    Issues mode schema view (.mode next) k issued m c
  | agents {next : Nat → Program α} {k m c : Nat} {issued : List (Declaration α)}
    (rest : Issues mode schema view (next view.rows.length) k issued m c) :
    Issues mode schema view (.agents next) k issued m c
  | note {note : Note α} {next : Program α} {k m c : Nat} {issued : List (Declaration α)}
    (rest : Issues mode schema view next k issued m c) :
    Issues mode schema view (.note note next) k issued m c
  | declare {d : Declaration α} {next : Except (Error α) (Assignment α) → Program α} {k m c : Nat}
    {issued : List (Declaration α)} {v : Variable α} (known : schema.registry.get? k = some v)
    (agrees : v.toDeclaration.agrees d = true)
    (rest : Issues mode schema view (next (.ok (answer view k v d))) (k + 1) issued m c) :
    Issues mode schema view (.declare d next) k (d :: issued) m c
  | part {d : Declaration α} {next : Except (Error α) (Assignment α) → Program α} {k : Nat}
    (parts : ∀ v, schema.registry.get? k = some v → v.toDeclaration.agrees d = false)
    (stops : ∀ cause, next (.error cause) = .stop (.error cause))
    (behind : List (Declaration α)) (m c : Nat) :
    Issues mode schema view (.declare d next) k (d :: behind) m c
  | constrain {constraint : Constraint α} {next : Except (Error α) Unit → Program α} {k m c : Nat}
    {issued : List (Declaration α)} (spans : constraint.violation.Spans view.rows.length)
    (rest : Issues mode schema view (next (.ok ())) k issued m c) :
    Issues mode schema view (.constrain constraint next) k issued m (c + 1)
  | optimize {direction : Direction} {column : Column α}
    {next : Except (Error α) Unit → Program α} {k m c : Nat}
    {issued : List (Declaration α)} (spans : column.Spans view.rows.length)
    (rest : Issues mode schema view (next (.ok ())) k issued m c) :
    Issues mode schema view (.optimize direction column next) k issued (m + 1) c

/-- The first declarations agree with the variables from a position on. -/
def Agreed (schema : Schema α) (k : Nat) (issued : List (Declaration α)) (i : Nat) : Prop :=
  ∀ j < i, ∃ v d, schema.registry.get? (k + j) = some v ∧ issued[j]? = some d ∧
    v.toDeclaration.agrees d = true

/-- What a pass reports at a declaration that does not agree, or at a missing one. -/
def diverged (schema : Schema α) (k : Nat) (found : Option (Declaration α)) : Failure α :=
  .error (.schema (.divergent k ((schema.registry.get? k).map Variable.toDeclaration) found))

variable {p : Pass α} {k i : Nat} {issued : List (Declaration α)} {d : Declaration α}
  {v : Variable α}

theorem Agreed.zero (schema : Schema α) (k : Nat) (issued : List (Declaration α)) :
    Agreed schema k issued 0 := fun _ below => absurd below (Nat.not_lt_zero _)

theorem Agreed.cons (known : schema.registry.get? k = some v)
    (agrees : v.toDeclaration.agrees d = true) (agreed : Agreed schema (k + 1) issued i) :
    Agreed schema k (d :: issued) (i + 1) := by
  intro j below
  cases j with
  | zero => exact ⟨v, d, known, rfl, agrees⟩
  | succ j =>
    obtain ⟨w, d', held, place, same⟩ := agreed j (by omega)
    exact ⟨w, d', by rwa [← Nat.add_assoc, Nat.add_right_comm], place, same⟩

theorem declare_diverged
    (parts : ∀ v, schema.registry.get? p.declared = some v → v.toDeclaration.agrees d = false) :
    declare schema view p d = .error (diverged schema p.declared (some d)) := by
  unfold declare diverged
  cases known : schema.registry.get? p.declared with
  | none => rfl
  | some v =>
    simp only [parts v known, Bool.false_eq_true, if_false]
    rfl

omit [Scalar α] in
theorem exists_optimize {c : Column α} (direction : Direction)
    (spans : c.Spans view.rows.length) :
    ∃ q, optimize mode view.rows.length p direction c = (.ok (), q) ∧ q.declared = p.declared ∧
      q.directions = p.directions ++ [direction] ∧ q.constraints = p.constraints := by
  by_cases evaluates : mode = .evaluate
  · obtain ⟨full, _, _, granted⟩ := optimize_evaluate p direction spans
    rw [evaluates]
    exact ⟨_, granted, rfl, rfl, rfl⟩
  · exact ⟨_, optimize_other evaluates _ p direction c, rfl, rfl, rfl⟩

/-- By induction on the requests: either all declarations agree with the variables from the
position on, and the pass goes through and has counted everything, or it reports the first
one that does not. -/
theorem follow_issues (cut : ∀ v ∈ schema.registry.declared, ∀ row ∈ view.rows,
      ∃ genes, v.stretchOf row = .ok genes) {program : Program α} {m c : Nat}
    (issues : Issues mode schema view program k issued m c) (place : p.declared = k) :
    (∃ q, (follow mode schema view program p).1 = .ok q ∧ q.declared = k + issued.length ∧
      q.directions.length = p.directions.length + m ∧ q.constraints = p.constraints + c ∧
      Agreed schema k issued issued.length) ∨
    ∃ i d, issued[i]? = some d ∧ Agreed schema k issued i ∧
      (∀ v, schema.registry.get? (k + i) = some v → v.toDeclaration.agrees d = false) ∧
      (follow mode schema view program p).1 = .error (diverged schema (k + i) (some d)) := by
  induction issues generalizing p with
  | done k => exact .inl ⟨p, rfl, place, rfl, rfl, .zero _ _ _⟩
  | mode _ ih => exact ih place
  | agents _ ih => exact ih place
  | note _ ih =>
    rw [follow_note]
    exact ih place
  | @declare d next k m c issued v known agrees rest ih =>
    have answered := @declare_eq _ _ schema view p d v (by rwa [place]) agrees
      (cut v (List.mem_of_getElem? known))
    rw [follow, answered, place]
    rcases @ih { p with declared := k + 1 } rfl with
      ⟨q, ran, declared, directions, constraints, agreed⟩ | ⟨i, d', here, agreed, parts, ran⟩
    · refine .inl ⟨q, ran, ?_, directions, constraints, agreed.cons known agrees⟩
      rw [declared, List.length_cons]
      omega
    · refine .inr ⟨i + 1, d', here, agreed.cons known agrees, ?_, ?_⟩
      · rwa [Nat.add_right_comm] at parts
      · rw [Nat.add_right_comm] at ran
        exact ran
  | @part d next k parts stops behind m c =>
    refine .inr ⟨0, d, rfl, .zero _ _ _, parts, ?_⟩
    have refused := @declare_diverged _ _ schema view p d (by rwa [place])
    rw [follow, refused, diverged]
    dsimp only
    rw [stops, place]
    rfl
  | @constrain constraint next k m c issued spans rest ih =>
    rw [follow_constrain, constrain_granted p spans]
    rcases @ih { p with
        constraints := p.constraints + 1,
        penalty := addViolation p.penalty constraint.violation } place with
      ⟨q, ran, declared, directions, constraints, agreed⟩ | reported
    · refine .inl ⟨q, ran, declared, directions, ?_, agreed⟩
      dsimp only at constraints
      omega
    · exact .inr reported
  | @optimize direction column next k m c issued spans rest ih =>
    obtain ⟨q, accepted, declared, directions, constraints⟩ :=
      @exists_optimize _ mode view p _ direction spans
    rw [follow_optimize, accepted]
    rcases @ih q (declared.trans place) with
      ⟨q', ran, declared', directions', constraints', agreed⟩ | reported
    · refine .inl ⟨q', ran, declared', ?_, by rw [constraints', constraints], agreed⟩
      rw [directions', directions, List.length_append, List.length_singleton]
      omega
    · exact .inr reported

end Pass

namespace Schema

variable {mode : Mode} {schema : Schema α} {view : View α} {first later : Program α}
  {issued : List (Declaration α)} {objectives constraints k : Nat}

/-- Position by position a variable of the schema stands for a discovered declaration. -/
theorem stands_at (discovered : (discover first).1 = .ok schema) (k : Nat) :
    (schema.registry.get? k = none ∧ (declarations first .empty)[k]? = none) ∨
    ∃ v d, schema.registry.get? k = some v ∧ (declarations first .empty)[k]? = some d ∧
      v.StandsFor d := by
  obtain ⟨vs, declared, stands⟩ := (discover_ok discovered).1.declared
  have held : schema.registry.get? k = vs[k]? := by
    rw [Registry.get?, declared]
    rfl
  have length := stands.length_eq
  rw [held]
  by_cases below : k < vs.length
  · have below' : k < (declarations first .empty).length := by omega
    exact .inr ⟨_, _, List.getElem?_eq_getElem below, List.getElem?_eq_getElem below',
      List.forall₂_iff_get.mp stands |>.2 k below below'⟩
  · exact .inl ⟨List.getElem?_eq_none (by omega), List.getElem?_eq_none (by omega)⟩

/-- Declarations that agree with the variables match the discovered ones. -/
private theorem matches_of_agreed (discovered : (discover first).1 = .ok schema) {i : Nat}
    (agreed : Pass.Agreed schema 0 issued i) : ∀ j < i, ∃ d d',
      (declarations first .empty)[j]? = some d ∧ issued[j]? = some d' ∧ d.Matches d' := by
  intro j below
  obtain ⟨v, d', known, place, agrees⟩ := agreed j below
  rw [Nat.zero_add] at known
  rcases stands_at discovered j with ⟨missing, _⟩ | ⟨v', d, known', place', stands⟩
  · rw [missing] at known
    cases known
  · rw [known] at known'
    cases known'
    exact ⟨d, d', place', place, (Declaration.agrees_iff_matches stands).mp agrees⟩

/-- How a pass can end: all declarations match and only the counts are compared, or it
reports the place where the declarations part. -/
def Verdict (first : Program α) (schema : Schema α) (issued : List (Declaration α))
    (objectives constraints : Nat) (result : Except (Failure α) (Evaluation α)) : Prop :=
  (List.Forall₂ Declaration.Matches (declarations first .empty) issued ∧
    ∃ e, result =
      if objectives ≠ schema.objectives then
        .error (.error (.schema (.objectiveCount schema.objectives objectives)))
      else if constraints ≠ schema.constraints.length then
        .error (.error (.schema (.constraintCount schema.constraints.length constraints)))
      else .ok e) ∨
  ∃ k, Declaration.PartAt (declarations first .empty) issued k ∧
    result = .error (Pass.diverged schema k issued[k]?)

/-- A pass that went through all its declarations misses one, or it compares the counts. -/
private theorem close_verdict (discovered : (discover first).1 = .ok schema) {q : Pass α}
    (declared : q.declared = issued.length) (directions : q.directions.length = objectives)
    (counted : q.constraints = constraints)
    (agreed : Pass.Agreed schema 0 issued issued.length) :
    Verdict first schema issued objectives constraints
      ((q.close schema).mapError .error) := by
  have behind := matches_of_agreed discovered agreed
  rw [Pass.close, declared]
  rcases stands_at discovered issued.length with ⟨missing, ended⟩ | ⟨v, d, known, place, _⟩
  · have length : (declarations first .empty).length = issued.length := by
      refine Nat.le_antisymm (List.getElem?_eq_none_iff.mp ended) ?_
      by_contra shorter
      obtain ⟨d, _, place, _⟩ := behind (declarations first .empty).length (by omega)
      simp at place
    have same : List.Forall₂ Declaration.Matches (declarations first .empty) issued := by
      refine List.forall₂_iff_get.mpr ⟨length, fun j below below' => ?_⟩
      obtain ⟨d, d', place, place', same⟩ := behind j below'
      rw [List.getElem?_eq_getElem below] at place
      rw [List.getElem?_eq_getElem below'] at place'
      cases place
      cases place'
      exact same
    refine .inl ⟨same, ⟨q.objectives, q.penalty⟩, ?_⟩
    simp only [missing, directions, counted]
    split
    · rfl
    · split
      · rfl
      · rfl
  · refine .inr ⟨issued.length, ⟨behind, .inl ?_, fun _ d' _ place' => ?_⟩, ?_⟩
    · exact (List.getElem?_eq_some_iff.mp place).1
    · simp at place'
    · rw [known, Pass.diverged, known, List.getElem?_eq_none (Nat.le_refl _)]
      rfl

/-- The first declaration that does not agree is where the declarations part. -/
private theorem partAt_of_agreed (discovered : (discover first).1 = .ok schema)
    {d : Declaration α} (here : issued[k]? = some d) (agreed : Pass.Agreed schema 0 issued k)
    (parts : ∀ v, schema.registry.get? k = some v → v.toDeclaration.agrees d = false) :
    Declaration.PartAt (declarations first .empty) issued k := by
  refine ⟨matches_of_agreed discovered agreed, .inr (List.getElem?_eq_some_iff.mp here).1, ?_⟩
  intro d₁ d₂ place place' same
  rw [here] at place'
  cases place'
  rcases stands_at discovered k with ⟨_, missing⟩ | ⟨v, d, known, place', stands⟩
  · rw [missing] at place
    cases place
  · rw [place] at place'
    cases place'
    have agrees := (Declaration.agrees_iff_matches stands).mpr same
    rw [parts v known] at agrees
    contradiction

theorem run_verdict (discovered : (discover first).1 = .ok schema)
    (decodes : ∀ row ∈ view.rows, ∃ s, schema.decode row = .ok s)
    (issues : Pass.Issues mode schema view later 0 issued objectives constraints) :
    Verdict first schema issued objectives constraints (Pass.run mode schema later view).1 := by
  have cut : ∀ v ∈ schema.registry.declared, ∀ row ∈ view.rows,
      ∃ genes, v.stretchOf row = .ok genes := by
    intro v member row inside
    obtain ⟨s, decoded⟩ := decodes row inside
    obtain ⟨genes, read, _⟩ := (discover_ok discovered).2.1.decode_ok decoded v member
    exact ⟨genes, read⟩
  rw [Pass.run_eq]
  rcases Pass.follow_issues cut issues (p := Pass.start view.rows.length) rfl with
    ⟨q, ran, declared, directions, counted, agreed⟩ | ⟨i, d, here, agreed, parts, ran⟩
  · rw [Nat.zero_add] at declared
    rw [ran]
    exact close_verdict discovered declared (by simpa [Pass.start] using directions)
      (by simpa [Pass.start] using counted) agreed
  · rw [Nat.zero_add] at parts ran
    refine .inr ⟨i, partAt_of_agreed discovered here agreed parts, ?_⟩
    rw [ran, here]
    rfl

/-- A pass diverges exactly when its declarations do not match the discovered ones position
by position, and it reports the place where they first part, with what the schema says
there and what was issued. When they match, it reports first another number of objectives,
then another number of constraints, and succeeds otherwise. A program that issues what was
discovered never diverges. -/
theorem divergence_exact [Scalar.LawfulOrder α] (discovered : (discover first).1 = .ok schema)
    (decodes : ∀ row ∈ view.rows, ∃ s, schema.decode row = .ok s)
    (issues : Pass.Issues mode schema view later 0 issued objectives constraints) :
    ((∀ k expected found, (Pass.run mode schema later view).1 ≠
        .error (.error (.schema (.divergent k expected found)))) ↔
      List.Forall₂ Declaration.Matches (declarations first .empty) issued) ∧
    (¬List.Forall₂ Declaration.Matches (declarations first .empty) issued →
      ∃ k, Declaration.PartAt (declarations first .empty) issued k ∧
        (Pass.run mode schema later view).1 = .error (.error (.schema (.divergent k
          ((schema.registry.get? k).map Variable.toDeclaration) issued[k]?)))) ∧
    (List.Forall₂ Declaration.Matches (declarations first .empty) issued →
      ((Pass.run mode schema later view).1 = .error (.error (.schema
          (.objectiveCount schema.objectives objectives))) ↔ objectives ≠ schema.objectives) ∧
      (objectives = schema.objectives →
        ((Pass.run mode schema later view).1 = .error (.error (.schema
            (.constraintCount schema.constraints.length constraints))) ↔
          constraints ≠ schema.constraints.length) ∧
        (constraints = schema.constraints.length →
          ∃ e, (Pass.run mode schema later view).1 = .ok e))) ∧
    (issued = declarations first .empty → ∀ k expected found,
      (Pass.run mode schema later view).1 ≠
        .error (.error (.schema (.divergent k expected found)))) := by
  have steady (same : issued = declarations first .empty) :
      List.Forall₂ Declaration.Matches (declarations first .empty) issued := by
    rw [same]
    refine List.forall₂_same.mpr fun d member => ?_
    obtain ⟨k, place⟩ := List.mem_iff_getElem?.mp member
    rcases stands_at discovered k with ⟨_, missing⟩ | ⟨v, d', _, place', stands⟩
    · rw [missing] at place
      cases place
    · rw [place] at place'
      cases place'
      exact Declaration.matches_self stands
  rcases run_verdict discovered decodes issues with ⟨same, e, ended⟩ | ⟨k, parts, diverged⟩
  · have kept (k : Nat) (expected found : Option (Declaration α)) :
        (Pass.run mode schema later view).1 ≠
          .error (.error (.schema (.divergent k expected found))) := by
      rw [ended]
      split
      · nofun
      · split
        · nofun
        · nofun
    refine ⟨⟨fun _ => same, fun _ => kept⟩, fun other => absurd same other, fun _ => ?_,
      fun _ => kept⟩
    rw [ended]
    refine ⟨?_, fun counted => ⟨?_, fun complete => ⟨e, ?_⟩⟩⟩
    · by_cases other : objectives ≠ schema.objectives
      · simp [other]
      · simp only [other, if_false, iff_false]
        split
        · nofun
        · nofun
    · by_cases other : constraints ≠ schema.constraints.length
      · simp [counted, other]
      · simp [counted, other]
    · rw [if_neg (not_not_intro counted), if_neg (not_not_intro complete)]
  · have apart (same : List.Forall₂ Declaration.Matches (declarations first .empty) issued) :
        False :=
      Declaration.not_partAt same parts
    exact ⟨⟨fun never => absurd diverged (never _ _ _), fun same => (apart same).elim⟩,
      fun _ => ⟨k, parts, diverged⟩, fun same => (apart same).elim,
      fun same => (apart (steady same)).elim⟩

/-- A number that nobody declared in discovery. -/
def surplus : Declaration Float := ⟨"y", .continuous, .scalar, ⟨0.0, 1.0⟩⟩

/-- A pass that declares the budget's amounts and then one number too many is reported
there. -/
theorem divergence_exact_surplus :
    (∀ row ∈ ([[0.25, 0.5], [0.5, 1.0]] : List (List Float)),
      ∃ s, budgetSchema.decode row = .ok s) ∧
    (Pass.run .evaluate budgetSchema
        (.declare ⟨"x", .continuous, .vector 2, ⟨0.0, 10.0⟩⟩ (.require fun _ =>
          .declare surplus (.require fun _ => .done)))
        ⟨2, [[0.25, 0.5], [0.5, 1.0]]⟩).1 =
      .error (.error (.schema (.divergent 1 none (some surplus)))) := by
  have decodes : ∀ row ∈ ([[0.25, 0.5], [0.5, 1.0]] : List (List Float)),
      ∃ s, budgetSchema.decode row = .ok s := by
    intro row member
    simp only [List.mem_cons, List.not_mem_nil, or_false] at member
    rcases member with rfl | rfl
    · exact ⟨_, rfl⟩
    · exact ⟨_, rfl⟩
  have issues : Pass.Issues .evaluate budgetSchema ⟨2, [[0.25, 0.5], [0.5, 1.0]]⟩
      (.declare ⟨"x", .continuous, .vector 2, ⟨0.0, 10.0⟩⟩ (.require fun _ =>
        .declare surplus (.require fun _ => .done)))
      0 [⟨"x", .continuous, .vector 2, ⟨0.0, 10.0⟩⟩, surplus] 0 0 :=
    .declare rfl (by decide +kernel)
      (.part (fun _ known => by cases known) (fun _ => rfl) [] 0 0)
  refine ⟨decodes, ?_⟩
  obtain ⟨_, parted, _, _⟩ := divergence_exact budget_discovered decodes issues
  have short : (declarations (budget.model 0) .empty).length ≤ 1 := by
    rcases stands_at budget_discovered 1 with ⟨_, ended⟩ | ⟨v, d, known, _, _⟩
    · exact List.getElem?_eq_none_iff.mp ended
    · cases known
  obtain ⟨k, ⟨_, inside, apart⟩, ran⟩ := parted fun same => by
    have length := same.length_eq
    simp only [List.length_cons, List.length_nil] at length
    omega
  have second : k = 1 := by
    rcases Nat.eq_zero_or_pos k with rfl | positive
    · rcases stands_at budget_discovered 0 with ⟨missing, _⟩ | ⟨v, d, known, place, stands⟩
      · cases missing
      · cases known
        have same : d.Matches ⟨"x", .continuous, .vector 2, ⟨0.0, 10.0⟩⟩ :=
          (Declaration.agrees_iff_matches stands).mp (by decide +kernel)
        exact absurd same (apart d _ place rfl)
    · simp only [List.length_cons, List.length_nil] at inside
      omega
  rw [second] at ran
  exact ran

end Schema
end Metaheuristic
