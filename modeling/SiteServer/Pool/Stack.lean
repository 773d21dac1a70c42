/-!
# The stack of pending work

Pending items wait on a stack: the one that came last goes first.
-/

namespace SiteServer

/-- Pending items, the newest first. -/
structure WorkStack (α : Type) where
  items : List α := []
  deriving DecidableEq, Repr

namespace WorkStack

variable {α : Type}

/-- The stack with one more item on top. -/
def push (stack : WorkStack α) (item : α) : WorkStack α :=
  ⟨item :: stack.items⟩

/-- The newest item and the stack without it. -/
def pop (stack : WorkStack α) : Option (α × WorkStack α) :=
  match stack.items with
  | [] => none
  | item :: rest => some (item, ⟨rest⟩)

/-- The number of pending items. -/
def size (stack : WorkStack α) : Nat :=
  stack.items.length

/-- All items, the oldest first, and the empty stack. -/
def drain (stack : WorkStack α) : List α × WorkStack α :=
  (stack.items.reverse, {})

@[simp] theorem pop_push (stack : WorkStack α) (item : α) :
    (stack.push item).pop = some (item, stack) := rfl

@[simp] theorem size_push (stack : WorkStack α) (item : α) :
    (stack.push item).size = stack.size + 1 := rfl

end WorkStack

end SiteServer
