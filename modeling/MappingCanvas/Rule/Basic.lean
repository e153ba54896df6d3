/-
# Rules

A rule says how one target field gets its value: it copies a source field, sets a constant,
chooses between two values by a condition on a source field, or looks a source field up in a
table, perhaps after a change of its text.  A rule may also say that the field is skipped.

All rules read a source field, apart from constants, which must not, and skips, which may.
-/

import MappingCanvas.Canvas.Operation

namespace MappingCanvas

/-- A comparison of a source field with a value. -/
structure Condition where
  operator : Comparison
  value : Value
  deriving BEq

/-- A change of a text before it is looked up. -/
inductive TextStep
  | substring (start : Nat) (stop : Option Nat)
  | split (delimiter : String) (index : Nat)
  | uppercase
  | lowercase
  | trim
  deriving DecidableEq

namespace TextStep

/-- The step that a text change makes; one that changes nothing makes none. -/
def ofTextChange? (c : TextChange) : Option TextStep :=
  match c.operation with
  | .none => none
  | .uppercase => some uppercase
  | .lowercase => some lowercase
  | .trim => some trim
  | .substring => some (substring (c.start.getD 0) c.stop)

/-- The step that a split makes. -/
def ofSplit (s : Split) : TextStep := split s.delimiter s.index

/-- The operation of a node that makes a step. -/
def operation : TextStep → Operation
  | substring start stop => .text ⟨.substring, some start, stop⟩
  | split delimiter index => .split ⟨delimiter, index⟩
  | uppercase => .text ⟨.uppercase, none, none⟩
  | lowercase => .text ⟨.lowercase, none, none⟩
  | trim => .text ⟨.trim, none, none⟩

end TextStep

namespace Rule

/-- What a rule does with the source field. -/
inductive Action
  | copy
  | constant (value : Value)
  | choose (condition : Condition) (whenTrue whenFalse : Value)
  | lookUp (table : Table) (step : Option TextStep)
  | skip
  deriving BEq

/-- The name of an action. -/
def Action.name : Action → String
  | copy => "direct"
  | constant _ => "static"
  | choose _ _ _ => "ifThen"
  | lookUp _ _ => "map"
  | skip => "skip"

end Rule

/-- How one target field gets its value. -/
structure Rule where
  source : Option String
  target : String
  action : Rule.Action
  deriving BEq

/-- A rule whose source field does not go with its action. -/
inductive RuleError
  | constantWithSource (target : String)
  | missingSource (target : String)
  deriving DecidableEq

/-- The wording of a rule error. -/
def RuleError.message : RuleError → String
  | constantWithSource target =>
    "mapping to '" ++ target ++ "' is invalid: static rules must not name a source field"
  | missingSource target =>
    "mapping to '" ++ target ++ "' is invalid: only static rules may omit the source field"

/-- Checks that a rule has a source field exactly when its action reads one; a skip may have
either. -/
def Rule.validate (r : Rule) : Except RuleError Unit :=
  match r.action, r.source with
  | .constant _, some _ => .error (.constantWithSource r.target)
  | .constant _, none => .ok ()
  | .skip, _ => .ok ()
  | _, none => .error (.missingSource r.target)
  | _, some _ => .ok ()

/-- The rules of a mapping, with the groupings of its arrays. -/
structure RuleSet where
  name : Option String
  version : Option String
  rules : List Rule
  groupings : List Grouping
  deriving BEq

namespace RuleSet

/-- The rule set without rules. -/
def empty : RuleSet := ⟨none, none, [], []⟩

instance : Inhabited RuleSet := ⟨empty⟩

/-- Checks all rules, in order. -/
def validate (s : RuleSet) : Except RuleError Unit := s.rules.forM Rule.validate

/-- **A rule set is valid exactly when every rule of it is.** -/
theorem validate_eq_ok_iff (s : RuleSet) :
    s.validate = .ok () ↔ ∀ r ∈ s.rules, r.validate = .ok () := by
  rw [validate, List.forM_eq_forM]
  induction s.rules with
  | nil => simp [pure, Except.pure]
  | cons r rs ih =>
    rw [List.forM_cons, List.forall_mem_cons, ← ih]
    cases r.validate <;> simp [bind, Except.bind]

/-- The rules for one target field. -/
def rulesFor (s : RuleSet) (target : String) : List Rule :=
  s.rules.filter fun r => r.target == target

end RuleSet
end MappingCanvas
