/-!
# The operand stack

A last-in-first-out stack of machine integers. `Stack.toList` shows it from bottom to top; every
operation is described by what it does to that list.
-/

namespace StackMachine

/-- A stack of machine integers, the topmost one first. -/
structure Stack where
  values : List Int64 := []
  deriving DecidableEq

namespace Stack

/-- The stack without values. -/
def empty : Stack := {}

/-- The values from bottom to top. -/
def toList (s : Stack) : List Int64 :=
  s.values.reverse

/-- The number of values. -/
def depth (s : Stack) : Nat :=
  s.values.length

/-- Whether there is no value. -/
def isEmpty (s : Stack) : Bool :=
  s.values.isEmpty

/-- Puts a value on top. -/
def push (s : Stack) (value : Int64) : Stack :=
  ⟨value :: s.values⟩

/-- The topmost value. -/
def top? (s : Stack) : Option Int64 :=
  s.values.head?

/-- The topmost value and the stack without it. -/
def pop? (s : Stack) : Option (Int64 × Stack) :=
  match s.values with
  | [] => none
  | value :: rest => some (value, ⟨rest⟩)

/-- Drops every value. -/
def clear (_ : Stack) : Stack := empty

@[simp] theorem toList_empty : empty.toList = [] := rfl

@[simp] theorem toList_push (s : Stack) (value : Int64) :
    (s.push value).toList = s.toList ++ [value] := by
  simp [toList, push]

@[simp] theorem length_toList (s : Stack) : s.toList.length = s.depth := by
  simp [toList, depth]

@[simp] theorem pop?_push (s : Stack) (value : Int64) : (s.push value).pop? = some (value, s) := rfl

end Stack

end StackMachine
