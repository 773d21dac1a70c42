import SiteServer.Slot.Id

/-!
# Poll tokens

A poll event names what it is about by a word of 64 bits.  The largest word is the waker, the
listeners count down from below it, and the words without the top bit are slot identities.
-/

namespace SiteServer.Token

/-- How many tokens there are. -/
def count : Nat := 18446744073709551616

/-- The token of the waker. -/
def waker : Nat := count - 1

/-- The token of the listener with that index. -/
def listener (index : Nat) : Nat :=
  count - 2 - index

/-- The index of the listener with that token, among `listeners` of them. -/
def listenerIndex? (token listeners : Nat) : Option Nat :=
  if token ≤ count - 2 ∧ count - 2 - token < listeners then some (count - 2 - token) else none

theorem listenerIndex?_listener {index listeners : Nat} (h : index < listeners)
    (hl : listeners ≤ count / 2) : listenerIndex? (listener index) listeners = some index := by
  have hi : index ≤ count - 2 := by unfold count at *; omega
  simp [listenerIndex?, listener, Nat.sub_sub_self hi, h]

theorem listenerIndex?_waker (listeners : Nat) : listenerIndex? waker listeners = none := by
  simp [listenerIndex?, waker, count]

end SiteServer.Token
