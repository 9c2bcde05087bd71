import Metaheuristic.Fault

/-! Computations that can fail, and what is known when they do not. -/
namespace Metaheuristic

section Entries

variable {β : Type} {xs : List β} {i : Nat}

theorem entry_ok {x : β} (ran : entry xs i = .ok x) :
    xs[i]? = some x := by
  unfold entry at ran
  split at ran
  · rename_i found
    cases ran
    exact found
  · cases ran

theorem exists_entry (below : i < xs.length) :
    ∃ x, entry xs i = .ok x ∧ x ∈ xs := by
  refine ⟨xs[i], ?_, List.getElem_mem below⟩
  rw [entry, List.getElem?_eq_getElem below]

end Entries

section Failing

variable {ε ε' β γ : Type}

theorem bind_ok {x : Except ε β} {f : β → Except ε γ} {r : γ} :
    (x >>= f) = .ok r ↔ ∃ a, x = .ok a ∧ f a = .ok r := by
  cases x with
  | error e => exact ⟨nofun, fun ⟨_, ran, _⟩ => nomatch ran⟩
  | ok a =>
    constructor
    · intro ran
      exact ⟨a, rfl, ran⟩
    · rintro ⟨_, ⟨⟩, ran⟩
      exact ran

/-- A sequence fails in its first step or in what comes after. -/
theorem bind_error {x : Except ε β} {f : β → Except ε γ} {e : ε} :
    (x >>= f) = .error e ↔ x = .error e ∨ ∃ a, x = .ok a ∧ f a = .error e := by
  cases x with
  | error e' =>
    constructor
    · rintro ⟨⟩
      exact .inl rfl
    · rintro (⟨⟨⟩⟩ | ⟨_, ⟨⟩, _⟩)
      rfl
  | ok a =>
    constructor
    · intro ran
      exact .inr ⟨a, rfl, ran⟩
    · rintro (⟨⟨⟩⟩ | ⟨_, ⟨⟩, ran⟩)
      exact ran

theorem map_ok {x : Except ε β} {f : β → γ} {r : γ} :
    x.map f = .ok r ↔ ∃ a, x = .ok a ∧ f a = r := by
  cases x <;> simp [Except.map]

theorem bind_map_except {x : Except ε β} {g : β → γ} {δ : Type} {f : γ → Except ε δ} :
    x.map g >>= f = x >>= fun a => f (g a) := by
  cases x <;> rfl

/-- When the first step answers an image, and from images of what it answers the rest comes to
images, so does the whole. -/
theorem bind_image_of_ok {δ δ' : Type} {x : Except ε β} {x' : Except ε γ} {g : β → γ}
    {f : β → Except ε δ} {f' : γ → Except ε δ'} {h : δ → δ'} (first : x' = x.map g)
    (rest : ∀ a, x = .ok a → f' (g a) = (f a).map h) : x' >>= f' = (x >>= f).map h := by
  rw [first]
  cases x with
  | error e => rfl
  | ok a => exact rest a rfl

theorem bind_image {δ δ' : Type} {x : Except ε β} {x' : Except ε γ} {g : β → γ}
    {f : β → Except ε δ} {f' : γ → Except ε δ'} {h : δ → δ'} (first : x' = x.map g)
    (rest : ∀ a, f' (g a) = (f a).map h) : x' >>= f' = (x >>= f).map h :=
  bind_image_of_ok first fun a _ => rest a

/-- The same first step, and a rest that answers images. -/
theorem bind_same {δ : Type} {x : Except ε β} {f : β → Except ε γ} {f' : β → Except ε δ}
    {h : γ → δ} (rest : ∀ a, f' a = (f a).map h) : x >>= f' = (x >>= f).map h := by
  cases x with
  | error e => rfl
  | ok a => exact rest a

theorem mapError_map {x : Except ε β} {f : ε → ε'} {g : β → γ} :
    (x.map g).mapError f = (x.mapError f).map g := by
  cases x <;> rfl

theorem mapError_ok {x : Except ε β} {f : ε → ε'} {r : β} :
    x.mapError f = .ok r ↔ x = .ok r := by
  cases x with
  | error e => exact ⟨nofun, nofun⟩
  | ok a =>
    constructor
    · rintro ⟨⟩
      rfl
    · rintro ⟨⟩
      rfl

theorem mapError_error {x : Except ε β} {f : ε → ε'} {e' : ε'} :
    x.mapError f = .error e' ↔ ∃ e, x = .error e ∧ f e = e' := by
  cases x with
  | error e =>
    constructor
    · rintro ⟨⟩
      exact ⟨e, rfl, rfl⟩
    · rintro ⟨_, ⟨⟩, rfl⟩
      rfl
  | ok a => exact ⟨nofun, nofun⟩

theorem exists_ok {x : Except ε β} (ran : x.toOption.isSome = true) : ∃ r, x = .ok r := by
  cases x with
  | error e => cases ran
  | ok r => exact ⟨r, rfl⟩

theorem exists_ok_of_any {x : Except ε β} {P : β → Prop} [DecidablePred P]
    (ran : (x.toOption.any fun r => decide (P r)) = true) : ∃ r, x = .ok r ∧ P r := by
  cases x with
  | error e => cases ran
  | ok r => exact ⟨r, rfl, of_decide_eq_true ran⟩

/-- A traversal that succeeds answers every item in its place. -/
theorem mapM_ok {f : β → Except ε γ} {xs : List β} {ys : List γ} (ran : xs.mapM f = .ok ys) :
    ys.length = xs.length ∧
      ∀ (i : Nat) x, xs[i]? = some x → ∃ y, ys[i]? = some y ∧ f x = .ok y := by
  induction xs generalizing ys with
  | nil =>
    cases ran
    exact ⟨rfl, fun i x absent => by cases absent⟩
  | cons head xs ih =>
    rw [List.mapM_cons] at ran
    obtain ⟨y, first, ran⟩ := bind_ok.mp ran
    obtain ⟨rest, later, ran⟩ := bind_ok.mp ran
    cases ran
    obtain ⟨length, items⟩ := ih later
    refine ⟨congrArg Nat.succ length, fun i x place => ?_⟩
    cases i with
    | zero =>
      cases place
      exact ⟨y, rfl, first⟩
    | succ i => exact items i x place

/-- A traversal in which every item succeeds. -/
theorem mapM_eq_ok {f : β → Except ε γ} {g : β → γ} {xs : List β}
    (each : ∀ x ∈ xs, f x = .ok (g x)) : xs.mapM f = .ok (xs.map g) := by
  induction xs with
  | nil => rfl
  | cons x xs ih =>
    rw [List.mapM_cons, each x List.mem_cons_self,
      ih fun y member => each y (List.mem_cons_of_mem _ member)]
    rfl

theorem mem_mapM_ok {f : β → Except ε γ} {xs : List β} {ys : List γ} {y : γ}
    (ran : xs.mapM f = .ok ys) (member : y ∈ ys) : ∃ x ∈ xs, f x = .ok y := by
  obtain ⟨length, items⟩ := mapM_ok ran
  obtain ⟨i, below, place⟩ := List.mem_iff_getElem.mp member
  have inside : i < xs.length := Nat.lt_of_lt_of_eq below length
  obtain ⟨y', place', answer⟩ := items i _ (List.getElem?_eq_getElem inside)
  rw [List.getElem?_eq_getElem below, place] at place'
  cases place'
  exact ⟨_, List.getElem_mem inside, answer⟩

/-- What the answers of a traversal show, when each shows it of its item. -/
theorem map_of_mapM {δ : Type} {f : β → Except ε γ} {g : γ → δ} {h : β → δ} {xs : List β}
    {ys : List γ} (each : ∀ x ∈ xs, ∀ y, f x = .ok y → g y = h x) (ran : xs.mapM f = .ok ys) :
    ys.map g = xs.map h := by
  induction xs generalizing ys with
  | nil =>
    cases ran
    rfl
  | cons x xs ih =>
    rw [List.mapM_cons] at ran
    obtain ⟨y, first, ran⟩ := bind_ok.mp ran
    obtain ⟨rest, later, ran⟩ := bind_ok.mp ran
    cases ran
    rw [List.map_cons, List.map_cons, each x List.mem_cons_self y first,
      ih (fun z member => each z (List.mem_cons_of_mem _ member)) later]

/-- A traversal fails at the first item that does; those after it are not looked at. -/
theorem mapM_error_iff {f : β → Except ε γ} {xs : List β} {e : ε} :
    xs.mapM f = .error e ↔ ∃ before x after, xs = before ++ x :: after ∧
      (∀ b ∈ before, ∃ y, f b = .ok y) ∧ f x = .error e := by
  induction xs with
  | nil =>
    constructor
    · rintro ⟨⟩
    · rintro ⟨before, x, after, split, _⟩
      cases before <;> cases split
  | cons x xs ih =>
    rw [List.mapM_cons, bind_error]
    constructor
    · rintro (failed | ⟨y, first, rest⟩)
      · exact ⟨[], x, xs, rfl, nofun, failed⟩
      · rcases bind_error.mp rest with failed | ⟨ys, _, built⟩
        · obtain ⟨before, z, after, rfl, good, failed⟩ := ih.mp failed
          exact ⟨x :: before, z, after, rfl, List.forall_mem_cons.mpr ⟨⟨y, first⟩, good⟩, failed⟩
        · cases built
    · rintro ⟨before, z, after, split, good, failed⟩
      cases before with
      | nil =>
        cases split
        exact .inl failed
      | cons b before =>
        cases split
        obtain ⟨⟨y, first⟩, good⟩ := List.forall_mem_cons.mp good
        exact .inr ⟨y, first, bind_error.mpr (.inl (ih.mpr ⟨before, z, after, rfl, good, failed⟩))⟩

theorem mapM_error {f : β → Except ε γ} {xs : List β} {e : ε} (ran : xs.mapM f = .error e) :
    ∃ x ∈ xs, f x = .error e := by
  obtain ⟨before, x, after, rfl, _, failed⟩ := mapM_error_iff.mp ran
  exact ⟨x, List.mem_append_right _ List.mem_cons_self, failed⟩

/-- A sequence succeeds when its first step does and the rest does from what it answers. -/
theorem exists_bind {x : Except ε β} {f : β → Except ε γ} {Q : β → Prop} {R : γ → Prop}
    (first : ∃ a, x = .ok a ∧ Q a) (second : ∀ a, Q a → ∃ c, f a = .ok c ∧ R c) :
    ∃ c, x >>= f = .ok c ∧ R c := by
  obtain ⟨a, ran, good⟩ := first
  rw [ran]
  exact second a good

/-- A traversal that can answer every item answers all of them. -/
theorem exists_mapM {f : β → Except ε γ} {Q : γ → Prop} {xs : List β}
    (each : ∀ x ∈ xs, ∃ y, f x = .ok y ∧ Q y) :
    ∃ ys, xs.mapM f = .ok ys ∧ ys.length = xs.length ∧ ∀ y ∈ ys, Q y := by
  induction xs with
  | nil => exact ⟨[], rfl, rfl, nofun⟩
  | cons x xs ih =>
    obtain ⟨y, first, good⟩ := each x List.mem_cons_self
    obtain ⟨ys, rest, length, all⟩ := ih fun z member => each z (List.mem_cons_of_mem _ member)
    refine ⟨y :: ys, ?_, congrArg Nat.succ length, List.forall_mem_cons.mpr ⟨good, all⟩⟩
    rw [List.mapM_cons, first, rest]
    rfl

/-- A fold whose steps all succeed from good states ends in a good state. -/
theorem exists_foldlM {f : γ → β → Except ε γ} {I : γ → Prop} {xs : List β} {s : γ}
    (step : ∀ x ∈ xs, ∀ s, I s → ∃ s', f s x = .ok s' ∧ I s') (initial : I s) :
    ∃ s', xs.foldlM f s = .ok s' ∧ I s' := by
  induction xs generalizing s with
  | nil => exact ⟨s, rfl, initial⟩
  | cons x xs ih =>
    obtain ⟨s', first, good⟩ := step x List.mem_cons_self s initial
    obtain ⟨s'', rest, done⟩ := ih (fun y member => step y (List.mem_cons_of_mem _ member)) good
    refine ⟨s'', ?_, done⟩
    rw [List.foldlM_cons, first]
    exact rest

/-- What each step of a fold preserves, the whole fold preserves. -/
theorem foldlM_ok {f : γ → β → Except ε γ} {xs : List β} {s s' : γ} {I : γ → Prop}
    (step : ∀ x ∈ xs, ∀ s s', I s → f s x = .ok s' → I s') (initial : I s)
    (ran : xs.foldlM f s = .ok s') : I s' := by
  induction xs generalizing s with
  | nil =>
    cases ran
    exact initial
  | cons x xs ih =>
    rw [List.foldlM_cons] at ran
    obtain ⟨next, first, rest⟩ := bind_ok.mp ran
    have after := step x List.mem_cons_self s next initial first
    exact ih (fun y member => step y (List.mem_cons_of_mem _ member)) after rest

/-- A fold over the first numbers, with an invariant that tells how far it came. -/
theorem foldlM_range {f : γ → Nat → Except ε γ} {n : Nat} {s s' : γ} {I : Nat → γ → Prop}
    (step : ∀ k < n, ∀ s s', I k s → f s k = .ok s' → I (k + 1) s') (initial : I 0 s)
    (ran : (List.range n).foldlM f s = .ok s') : I n s' := by
  induction n generalizing s' with
  | zero =>
    cases ran
    exact initial
  | succ n ih =>
    rw [List.range_succ, List.foldlM_append] at ran
    obtain ⟨middle, before, last⟩ := bind_ok.mp ran
    rw [List.foldlM_cons] at last
    obtain ⟨final, one, done⟩ := bind_ok.mp last
    cases done
    have reached := ih (fun k below => step k (Nat.lt_succ_of_lt below)) before
    exact step n (Nat.lt_succ_self n) middle s' reached one

/-- Such a fold succeeds when each of its steps does. -/
theorem exists_foldlM_range {f : γ → Nat → Except ε γ} {n : Nat} {s : γ} {I : Nat → γ → Prop}
    (step : ∀ k < n, ∀ s, I k s → ∃ s', f s k = .ok s' ∧ I (k + 1) s') (initial : I 0 s) :
    ∃ s', (List.range n).foldlM f s = .ok s' ∧ I n s' := by
  induction n with
  | zero => exact ⟨s, rfl, initial⟩
  | succ n ih =>
    obtain ⟨middle, before, reached⟩ := ih fun k below => step k (Nat.lt_succ_of_lt below)
    obtain ⟨final, one, done⟩ := step n (Nat.lt_succ_self n) middle reached
    refine ⟨final, ?_, done⟩
    rw [List.range_succ, List.foldlM_append]
    refine bind_ok.mpr ⟨middle, before, ?_⟩
    rw [List.foldlM_cons]
    exact bind_ok.mpr ⟨final, one, rfl⟩

/-- When each step takes images to images from where an invariant holds, and keeps the
invariant, the whole fold takes images to images. -/
theorem foldlM_image_of {δ : Type} {g : γ → δ} {f : γ → β → Except ε γ} {f' : δ → β → Except ε δ}
    {I : γ → Prop} {xs : List β} {s : γ} (step : ∀ x ∈ xs, ∀ s, I s → f' (g s) x = (f s x).map g)
    (keeps : ∀ x ∈ xs, ∀ s s', I s → f s x = .ok s' → I s') (initial : I s) :
    xs.foldlM f' (g s) = (xs.foldlM f s).map g := by
  induction xs generalizing s with
  | nil => rfl
  | cons x xs ih =>
    rw [List.foldlM_cons, List.foldlM_cons]
    obtain ⟨image, images⟩ := List.forall_mem_cons.mp step
    obtain ⟨kept, keep⟩ := List.forall_mem_cons.mp keeps
    exact bind_image_of_ok (image s initial) fun s' ran => ih images keep (kept s s' initial ran)

/-- When each step takes images to images, so does the whole fold. -/
theorem foldlM_image {δ : Type} {g : γ → δ} {f : γ → β → Except ε γ} {f' : δ → β → Except ε δ}
    (step : ∀ s x, f' (g s) x = (f s x).map g) (xs : List β) (s : γ) :
    xs.foldlM f' (g s) = (xs.foldlM f s).map g :=
  foldlM_image_of (I := fun _ => True) (fun x _ s _ => step s x) (fun _ _ _ _ _ _ => trivial) trivial

theorem mapM_congr {f f' : β → Except ε γ} {xs : List β} (same : ∀ x ∈ xs, f' x = f x) :
    xs.mapM f' = xs.mapM f := by
  induction xs with
  | nil => rfl
  | cons x xs ih =>
    obtain ⟨first, rest⟩ := List.forall_mem_cons.mp same
    rw [List.mapM_cons, List.mapM_cons, first, ih rest]

/-- When each item has an image, so does the whole traversal. -/
theorem mapM_image {δ : Type} {g : γ → δ} {f : β → Except ε γ} {f' : β → Except ε δ}
    (item : ∀ x, f' x = (f x).map g) (xs : List β) :
    xs.mapM f' = (xs.mapM f).map (List.map g) := by
  induction xs with
  | nil => rfl
  | cons x xs ih =>
    rw [List.mapM_cons, List.mapM_cons]
    exact bind_image (item x) fun _ => bind_image ih fun _ => rfl

/-- Two results that fail alike, or succeed with answers that belong together. -/
def Corresponds (R : β → γ → Prop) : Except ε β → Except ε γ → Prop
  | .ok b, .ok c => R b c
  | .error e, .error e' => e = e'
  | _, _ => False

theorem Corresponds.bind {β' γ' : Type} {R : β → γ → Prop} {R' : β' → γ' → Prop} {x : Except ε β}
    {y : Except ε γ} {f : β → Except ε β'} {g : γ → Except ε γ'} (first : Corresponds R x y)
    (second : ∀ b c, R b c → Corresponds R' (f b) (g c)) : Corresponds R' (x >>= f) (y >>= g) := by
  cases x with
  | error e =>
    cases y with
    | error e' => exact first
    | ok c => exact first.elim
  | ok b =>
    cases y with
    | error e' => exact first.elim
    | ok c => exact second b c first

theorem Corresponds.mapError {R : β → γ → Prop} {x : Except ε β} {y : Except ε γ} (f : ε → ε')
    (corresponds : Corresponds R x y) : Corresponds R (x.mapError f) (y.mapError f) := by
  cases x with
  | error e =>
    cases y with
    | error e' => exact congrArg f corresponds
    | ok c => exact corresponds.elim
  | ok b =>
    cases y with
    | error e' => exact corresponds.elim
    | ok c => exact corresponds

end Failing

/-- A sequence of two computations over a state succeeds through both of them. -/
theorem run_bind_ok {σ ε β γ : Type} {x : ExceptT ε (StateM σ) β}
    {f : β → ExceptT ε (StateM σ) γ} {s s'' : σ} {c : γ}
    (ran : (x >>= f).run.run s = (.ok c, s'')) :
    ∃ b s', x.run.run s = (.ok b, s') ∧ (f b).run.run s' = (.ok c, s'') := by
  cases step : x.run.run s with
  | mk result s' =>
    have unfolded : (x >>= f).run.run s = (ExceptT.bindCont f result).run s' := by
      rw [ExceptT.run_bind, StateT.run_bind, step]
      rfl
    rw [unfolded] at ran
    cases result with
    | error e => cases ran
    | ok b => exact ⟨b, s', rfl, ran⟩

/-- A sequence of two computations over a state fails in the first or after it. -/
theorem run_bind_error {σ ε β γ : Type} {x : ExceptT ε (StateM σ) β}
    {f : β → ExceptT ε (StateM σ) γ} {s s'' : σ} {e : ε}
    (ran : (x >>= f).run.run s = (.error e, s'')) :
    x.run.run s = (.error e, s'') ∨
      ∃ b s', x.run.run s = (.ok b, s') ∧ (f b).run.run s' = (.error e, s'') := by
  cases step : x.run.run s with
  | mk result s' =>
    have unfolded : (x >>= f).run.run s = (ExceptT.bindCont f result).run s' := by
      rw [ExceptT.run_bind, StateT.run_bind, step]
      rfl
    rw [unfolded] at ran
    cases result with
    | error e' =>
      cases ran
      exact .inl rfl
    | ok b => exact .inr ⟨b, s', rfl, ran⟩

/-- A computation over a state: from a good state, whenever it succeeds, the answer
and the new state are as promised. -/
def Ensures {σ ε β : Type} (P : σ → Prop) (x : ExceptT ε (StateM σ) β) (Q : β → σ → Prop) : Prop :=
  ∀ s b s', P s → x.run.run s = (.ok b, s') → Q b s'

namespace Ensures

variable {σ ε β γ : Type} {P P' : σ → Prop} {Q Q' : β → σ → Prop} {R : γ → σ → Prop}

theorem pure {b : β} (holds : ∀ s, P s → Q b s) :
    Ensures P (Pure.pure b : ExceptT ε (StateM σ) β) Q := by
  intro s b' s' good ran
  cases ran
  exact holds s good

theorem throw (e : ε) : Ensures P (MonadExcept.throw e : ExceptT ε (StateM σ) β) Q := by
  intro s b s' _ ran
  cases ran

theorem weaken {x : ExceptT ε (StateM σ) β} (ensures : Ensures P x Q)
    (before : ∀ s, P' s → P s) (after : ∀ b s, Q b s → Q' b s) : Ensures P' x Q' :=
  fun s b s' good ran => after b s' (ensures s b s' (before s good) ran)

theorem bind {x : ExceptT ε (StateM σ) β} {f : β → ExceptT ε (StateM σ) γ}
    (first : Ensures P x Q) (second : ∀ b, Ensures (Q b) (f b) R) : Ensures P (x >>= f) R := by
  intro s c s'' good ran
  obtain ⟨b, s', begun, rest⟩ := run_bind_ok ran
  exact second b s' c s'' (first s b s' good begun) rest

end Ensures

section Parallel

variable {σ σ' ε β β' γ γ' : Type}

/-- Two computations over states, side by side: from the image of a state the second
one ends as the first one does, with the image of its answer and in the image of the
state it leaves. When one fails, so does the other, with the same error. -/
def Parallels (S : σ → σ') (g : β → β') (x : ExceptT ε (StateM σ) β)
    (x' : ExceptT ε (StateM σ') β') : Prop :=
  ∀ s, x'.run.run (S s) = ((x.run.run s).1.map g, S (x.run.run s).2)

namespace Parallels

variable {S : σ → σ'} {g : β → β'} {h : γ → γ'}

theorem pure {b : β} {b' : β'} (image : b' = g b) :
    Parallels S g (Pure.pure b : ExceptT ε (StateM σ) β) (Pure.pure b') :=
  fun s => congrArg (fun b => (Except.ok b, S s)) image

theorem throw (e : ε) :
    Parallels S g (MonadExcept.throw e : ExceptT ε (StateM σ) β) (MonadExcept.throw e) :=
  fun _ => rfl

theorem bind {x : ExceptT ε (StateM σ) β} {x' : ExceptT ε (StateM σ') β'}
    {f : β → ExceptT ε (StateM σ) γ} {f' : β' → ExceptT ε (StateM σ') γ'}
    (first : Parallels S g x x') (second : ∀ b, Parallels S h (f b) (f' (g b))) :
    Parallels S h (x >>= f) (x' >>= f') := by
  intro s
  have begun := first s
  have unfolded : (x >>= f).run.run s =
      (ExceptT.bindCont f (x.run.run s).1).run (x.run.run s).2 := rfl
  have unfolded' : (x' >>= f').run.run (S s) =
      (ExceptT.bindCont f' (x'.run.run (S s)).1).run (x'.run.run (S s)).2 := rfl
  rw [unfolded, unfolded', begun]
  cases (x.run.run s).1 with
  | error e => rfl
  | ok b => exact second b _

/-- A computation beside itself, when the states are the same. -/
theorem same (x : ExceptT ε (StateM σ) β) : Parallels id id x x := by
  intro s
  rw [Except.map_id]
  rfl

/-- The same computation first. -/
theorem after (x : ExceptT ε (StateM σ) β) {f : β → ExceptT ε (StateM σ) γ}
    {f' : β → ExceptT ε (StateM σ) γ'} (second : ∀ b, Parallels id h (f b) (f' b)) :
    Parallels id h (x >>= f) (x >>= f') :=
  (same x).bind second

/-- Looking at the state. -/
theorem get : Parallels S S (MonadState.get : ExceptT ε (StateM σ) σ) MonadState.get := fun _ => rfl

theorem set {s : σ} {s' : σ'} (image : s' = S s) :
    Parallels S id (MonadState.set s : ExceptT ε (StateM σ) PUnit) (MonadState.set s') :=
  fun _ => congrArg (Prod.mk _) image

theorem modify {f : σ → σ} {f' : σ' → σ'} (image : ∀ s, f' (S s) = S (f s)) :
    Parallels S id (modify f : ExceptT ε (StateM σ) PUnit) (modify f') :=
  fun s => congrArg (Prod.mk _) (image s)

end Parallels

/-- The same from good states only. -/
def ParallelsFrom (P : σ → Prop) (S : σ → σ') (g : β → β') (x : ExceptT ε (StateM σ) β)
    (x' : ExceptT ε (StateM σ') β') : Prop :=
  ∀ s, P s → x'.run.run (S s) = ((x.run.run s).1.map g, S (x.run.run s).2)

namespace ParallelsFrom

variable {S : σ → σ'} {g : β → β'} {h : γ → γ'} {P : σ → Prop} {Q : β → σ → Prop}

theorem of_parallels {x : ExceptT ε (StateM σ) β} {x' : ExceptT ε (StateM σ') β'}
    (parallels : Parallels S g x x') : ParallelsFrom P S g x x' :=
  fun s _ => parallels s

theorem bind {x : ExceptT ε (StateM σ) β} {x' : ExceptT ε (StateM σ') β'}
    {f : β → ExceptT ε (StateM σ) γ} {f' : β' → ExceptT ε (StateM σ') γ'}
    (first : ParallelsFrom P S g x x') (keeps : Ensures P x Q)
    (second : ∀ b, ParallelsFrom (Q b) S h (f b) (f' (g b))) :
    ParallelsFrom P S h (x >>= f) (x' >>= f') := by
  intro s good
  have begun := first s good
  have unfolded : (x >>= f).run.run s =
      (ExceptT.bindCont f (x.run.run s).1).run (x.run.run s).2 := rfl
  have unfolded' : (x' >>= f').run.run (S s) =
      (ExceptT.bindCont f' (x'.run.run (S s)).1).run (x'.run.run (S s)).2 := rfl
  rw [unfolded, unfolded', begun]
  have after := keeps s
  cases ended : x.run.run s with
  | mk result s' =>
    cases result with
    | error e => rfl
    | ok b => exact second b s' (after b s' good ended)

end ParallelsFrom
end Parallel
end Metaheuristic
