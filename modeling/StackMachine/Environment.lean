/-!
# Environment variables

The variables that a command sees. A variable that is not set has no value, which differs from a
variable that is set to the empty text.
-/

namespace StackMachine

/-- The variables that are set, each with its value. -/
structure Environment where
  assignments : List (String × String) := []

/-- The value of a variable, if it is set. -/
def Environment.get? (env : Environment) (name : String) : Option String :=
  env.assignments.lookup name

end StackMachine
