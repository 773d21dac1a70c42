/-!
# Slot identities

A slot is named by its index together with the generation it was in when it was allocated, and both
are packed into one poll token.  Generations stay below half of what the token has room for, so
tokens of slots never have the top bit and are free for other uses from there on.
-/

namespace SiteServer

/-- The identity of an allocation: the index of its slot and the slot's generation. -/
structure SlotId where
  index : Nat
  generation : Nat
  deriving DecidableEq, Repr

namespace SlotId

/-- How many indices there are: an index has 24 bits. -/
def indexCount : Nat := 16777216

/-- How many generations there are: a generation has 39 bits, and after the last one comes the first
again. -/
def generationCount : Nat := 549755813888

/-- The poll token that carries an identity. -/
def token (id : SlotId) : Nat :=
  id.generation * indexCount + id.index

/-- The identity that a token carries; tokens with the top bit carry none. -/
def ofToken? (token : Nat) : Option SlotId :=
  if token / indexCount < generationCount then
    some ⟨token % indexCount, token / indexCount⟩
  else
    none

/-- The generation after one more release. -/
def nextGeneration (generation : Nat) : Nat :=
  (generation + 1) % generationCount

theorem ofToken?_token {id : SlotId} (hi : id.index < indexCount)
    (hg : id.generation < generationCount) : ofToken? id.token = some id := by
  have hpos : 0 < indexCount := Nat.zero_lt_of_lt hi
  have hdiv : (id.generation * indexCount + id.index) / indexCount = id.generation := by
    rw [Nat.mul_comm, Nat.mul_add_div hpos, Nat.div_eq_of_lt hi, Nat.add_zero]
  have hmod : (id.generation * indexCount + id.index) % indexCount = id.index := by
    rw [Nat.mul_comm, Nat.mul_add_mod, Nat.mod_eq_of_lt hi]
  simp [ofToken?, token, hdiv, hmod, hg]

theorem token_of_ofToken? {token : Nat} {id : SlotId} (h : ofToken? token = some id) :
    id.token = token := by
  simp only [ofToken?, Option.ite_none_right_eq_some, Option.some.injEq] at h
  obtain ⟨-, rfl⟩ := h
  exact Nat.div_add_mod' token indexCount

end SlotId

end SiteServer
