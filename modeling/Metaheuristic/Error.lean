import Metaheuristic.Space.Variable

/-! What can be wrong with a model, a configuration or an evaluation.

An error records its cause; `Error.message` words it. Errors of the space and of
the configuration are found before a search starts, an evaluation error carries
the repeat and the iteration in which the model failed. -/
namespace Metaheuristic

/-- Disagreements about the space of a model. -/
inductive SchemaError (α : Type) where
  | duplicateName (name : String)
  /-- A later pass declared something else; nothing stands for the end of the
  declarations. -/
  | divergent (position : Nat) (expected found : Option (Declaration α))
  /-- A later pass registered another number of objectives. -/
  | objectiveCount (expected found : Nat)
  /-- A later pass registered another number of constraints. -/
  | constraintCount (expected found : Nat)
  | noObjective
  /-- There is nothing to decide. -/
  | emptySchema

/-- What is wrong with a bound. -/
inductive BoundFlaw where
  | notFinite
  | inverted
  | negative
  deriving DecidableEq, Repr

/-- What a setting should have been, with the value it has. -/
inductive Requirement (α : Type) where
  | finite (got : α)
  | finiteNonNegative (got : α)
  | positive (got : α)
  | wholeNonNegative (got : α)
  | atLeastOne
  | within (hi : Nat) (got : α)
  | strictlyWithinUnit (got : α)
  | survivalRange (lo hi : α)
  | selectionCode (got : Nat)

/-- Settings that cannot be used. -/
inductive ConfigError (α : Type) where
  /-- Constraints without a weight. -/
  | unpenalizedConstraint (constraints : Nat)
  /-- A bound that does not suit its variable. -/
  | invalidBound (name : String) (bound : Bound α) (flaw : BoundFlaw)
  /-- A shape that does not suit its kind. -/
  | unsupportedDimension (name : String) (kind : Kind) (shape : Shape)
  /-- A setting outside its range. -/
  | invalidParameter (name : String) (requirement : Requirement α)
  /-- An option nobody asked for. -/
  | unknownOption (key scope : String)
  | unknownAlgorithm (name : String)
  /-- An algorithm for one objective met several. -/
  | unsupportedMultiObjective (algorithm : String) (objectives : Nat)
  /-- An algorithm met too few agents. -/
  | populationTooSmall (algorithm : String) (required actual : Nat)

/-- What a model registered with a column of the wrong length. -/
inductive Registered where
  | labelledConstraint (label : String)
  | constraint (index : Nat)
  | objective (index : Nat)
  deriving DecidableEq, Repr

inductive Error (α : Type) where
  | schema (cause : SchemaError α)
  | config (cause : ConfigError α)
  /-- The model failed in a repeat, at an iteration. -/
  | evaluation (round iteration : Nat) (source : Error α)
  /-- The model itself gave up. -/
  | model (text : String)
  /-- The model registered a column that does not fit the agents. -/
  | columnLength (what : Registered) (values agents : Nat)

/-- What ends a computation: an error that can be reported, or a fault. -/
inductive Failure (α : Type) where
  | error (cause : Error α)
  | fault (cause : Fault)

variable {α : Type}

/-- The iteration at which an evaluation failed. -/
def Error.iteration : Error α → Option Nat
  | evaluation _ i _ => some i
  | _ => none

variable [NumberText α]

/-- The text of a declaration, or of its absence. -/
def declarationText : Option (Declaration α) → String
  | some d => d.text
  | none => "end of declarations"

/-- The wording of a disagreement about the space. -/
def SchemaError.message : SchemaError α → String
  | duplicateName name => "variable `" ++ name ++ "` is already declared"
  | divergent position expected found =>
    s!"declaration #{position} diverged from discovery: expected " ++ declarationText expected ++
      ", found " ++ declarationText found
  | objectiveCount expected found =>
    s!"objective count diverged from discovery: expected {expected}, found {found}"
  | constraintCount expected found =>
    s!"constraint count diverged from discovery: expected {expected}, found {found}"
  | noObjective => "model registers no objective"
  | emptySchema => "model declares no decision variable"

def BoundFlaw.message : BoundFlaw → String
  | notFinite => "bounds must be finite"
  | inverted => "lower bound exceeds upper bound"
  | negative => "positive variables need a non-negative lower bound"

def Requirement.message : Requirement α → String
  | finite got => "must be finite, got " ++ NumberText.text got
  | finiteNonNegative got => "must be finite and non-negative, got " ++ NumberText.text got
  | positive got => "must be positive, got " ++ NumberText.text got
  | wholeNonNegative got => "must be a non-negative integer, got " ++ NumberText.text got
  | atLeastOne => "must be at least 1"
  | within hi got => s!"must be in [0, {hi}], got " ++ NumberText.text got
  | strictlyWithinUnit got => "must be in (0, 1), got " ++ NumberText.text got
  | survivalRange lo hi =>
    "need 0 < survival_lb <= survival_ub <= 1, got [" ++ NumberText.text lo ++ ", " ++
      NumberText.text hi ++ "]"
  | selectionCode got => s!"expected 0 (random) or 1 (tournament), got {got}"

def ConfigError.message : ConfigError α → String
  | unpenalizedConstraint constraints =>
    s!"{constraints} constraint(s) registered with a zero penalty coefficient"
  | invalidBound name bound flaw =>
    "invalid bound [" ++ NumberText.text bound.lo ++ ", " ++ NumberText.text bound.hi ++
      "] for variable `" ++ name ++ "`: " ++ flaw.message
  | unsupportedDimension name kind shape =>
    "variable `" ++ name ++ "` of kind " ++ kind.name ++ " does not support shape " ++
      bracketed shape.dims
  | invalidParameter name requirement =>
    "invalid parameter `" ++ name ++ "`: " ++ requirement.message
  | unknownOption key scope => "unknown option `" ++ key ++ "` for " ++ scope
  | unknownAlgorithm name => "unknown algorithm `" ++ name ++ "`"
  | unsupportedMultiObjective algorithm objectives =>
    s!"{algorithm} does not support {objectives} objectives"
  | populationTooSmall algorithm required actual =>
    s!"{algorithm} needs at least {required} agents, got {actual}"

/-- How a message names what was registered. -/
def Registered.text : Registered → String
  | labelledConstraint label => "constraint `" ++ label ++ "`"
  | constraint index => s!"constraint c{index}"
  | objective index => s!"objective #{index}"

def Error.message : Error α → String
  | schema cause => cause.message
  | config cause => cause.message
  | evaluation round iteration source =>
    s!"evaluation failed in repeat {round} at iteration {iteration}: " ++ source.message
  | model text => "model error: " ++ text
  | columnLength what values agents =>
    "model error: " ++ what.text ++ s!" has {values} values for {agents} agents"

end Metaheuristic
