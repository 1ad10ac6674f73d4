import Tangible.Error

/-!
# Stacks

A stack is a list of what a load cycle has gathered, the oldest first. Taking a newer entry
discards all entries before it.
-/

namespace Tangible.Stack

variable {α : Type}

/-- The entry at the given place and the entries behind it. -/
def take? (stack : List α) (place : Nat) : Except Error (α × List α) :=
  match stack[place]? with
  | some a => .ok (a, stack.drop (place + 1))
  | none => .error (.outOfRange place stack.length)

/-- The newest entry; nothing is left behind it. -/
def latest? (stack : List α) : Option (α × List α) :=
  stack.getLast?.map fun a => (a, [])

def oldest? : List α → Option (α × List α)
  | [] => none
  | a :: rest => some (a, rest)

end Tangible.Stack
