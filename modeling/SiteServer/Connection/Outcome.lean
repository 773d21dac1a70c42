import SiteServer.Text.Basic

/-!
# What sockets and files do

A socket takes as much of what it is offered as it likes, and a read gives as much as it likes.
What they do during one step of a connection is written down as a list of outcomes, one for each
call; a statement about every list is a statement about every way in which the outside can behave.
When a list is used up, a socket takes no more and a file gives all that is asked for.
-/

namespace SiteServer

/-- What the one read of a request gives. -/
inductive Receipt where
  /-- The bytes that have arrived; none are the end of the stream. -/
  | data (bytes : Bytes)
  | wouldBlock
  | interrupted
  | failed
  deriving DecidableEq, Repr

/-- What a write to the socket does. -/
inductive WriteOutcome where
  /-- The socket takes up to that many of the bytes it is offered. -/
  | accepted (limit : Nat)
  | wouldBlock
  | interrupted
  | failed
  deriving DecidableEq, Repr

/-- What a read from a body file does. -/
inductive ReadOutcome where
  /-- The file gives up to that many of the bytes asked for. -/
  | upTo (limit : Nat)
  | interrupted
  | failed
  deriving DecidableEq, Repr

/-- What the outside does during one step of a connection. -/
structure Turn where
  receipt : Receipt
  writes : List WriteOutcome
  reads : List ReadOutcome
  deriving DecidableEq, Repr

/-- How far an attempt to send some bytes came. -/
inductive Flow where
  | complete
  /-- The socket takes no more for now. -/
  | blocked
  | failed
  deriving DecidableEq, Repr

/-- The result of an attempt to send some bytes: how many were taken, how far it came, and the
outcomes that are left. -/
structure Delivery where
  count : Nat
  flow : Flow
  writes : List WriteOutcome
  deriving DecidableEq, Repr

/-- A result with more bytes taken before it. -/
def Delivery.add (delivery : Delivery) (count : Nat) : Delivery :=
  { delivery with count := count + delivery.count }

/-- Offering `size` bytes until all are taken or the socket takes no more.  An interrupted write is
repeated, and a write that takes nothing has failed. -/
def deliver : Nat → List WriteOutcome → Delivery
  | 0, writes => ⟨0, .complete, writes⟩
  | _ + 1, [] => ⟨0, .blocked, []⟩
  | _ + 1, .wouldBlock :: rest => ⟨0, .blocked, rest⟩
  | _ + 1, .failed :: rest => ⟨0, .failed, rest⟩
  | size + 1, .interrupted :: rest => deliver (size + 1) rest
  | _ + 1, .accepted 0 :: rest => ⟨0, .failed, rest⟩
  | size + 1, .accepted (limit + 1) :: rest =>
    (deliver (size - limit) rest).add (min limit size + 1)

/-- No more is taken than was offered. -/
theorem count_deliver_le (size : Nat) (writes : List WriteOutcome) :
    (deliver size writes).count ≤ size := by
  fun_induction deliver size writes <;> simp_all [Delivery.add]
  omega

/-- The attempt is complete exactly when everything has been taken. -/
theorem flow_deliver_eq_complete_iff (size : Nat) (writes : List WriteOutcome) :
    (deliver size writes).flow = .complete ↔ (deliver size writes).count = size := by
  fun_induction deliver size writes <;> simp_all [Delivery.add]
  omega

end SiteServer
