/-!
# Counted registrations

A counter that is one higher for every registration that is alive.  Registrations are kept under
keys; making one under a key that has one drops the earlier registration afterwards.  The counter is
a word, which goes on at zero above its greatest value; a registration that is dropped takes away
what it has added, also across that step.
-/

namespace SiteServer

/-- A counter and the keys of the registrations on it that are alive. -/
structure Counter where
  value : UInt64
  keys : List Nat := []
  deriving DecidableEq, Repr

namespace Counter

/-- The counter after the registration under a key has been dropped, if there is one. -/
def drop (counter : Counter) (key : Nat) : Counter :=
  if key ∈ counter.keys then ⟨counter.value - 1, counter.keys.erase key⟩ else counter

/-- The counter with a new registration under a key. -/
def register (counter : Counter) (key : Nat) : Counter :=
  let dropped := Counter.drop ⟨counter.value + 1, counter.keys⟩ key
  { dropped with keys := key :: dropped.keys }

theorem register_of_not_mem {counter : Counter} {key : Nat} (h : key ∉ counter.keys) :
    (counter.register key).value = counter.value + 1 := by
  simp [register, drop, h]

theorem register_of_mem {counter : Counter} {key : Nat} (h : key ∈ counter.keys) :
    (counter.register key).value = counter.value := by
  simp [register, drop, h]

end Counter

end SiteServer
