/-!
# Text and bytes

Two kinds of sequence run through the whole library: text, a list of Unicode scalar values, and
bytes, as they travel over a socket or lie in a file.  Both are plain lists, so every function on
them is a recursion and every statement about them an induction.
-/

namespace SiteServer

/-- A text is a list of Unicode scalar values. -/
abbrev Text := List Char

/-- A byte string. -/
abbrev Bytes := List UInt8

namespace Text

/-- The text whose characters have the values of the given bytes, one character a byte.  On ASCII
bytes this is their text. -/
def ofBytes (bytes : Bytes) : Text :=
  bytes.map fun b => Char.ofNat b.toNat

@[simp] theorem length_ofBytes (bytes : Bytes) : (ofBytes bytes).length = bytes.length := by
  simp [ofBytes]

/-- An ASCII letter in lower case; every other character stays. -/
def foldCase (text : Text) : Text :=
  text.map Char.toLower

/-- Two texts that differ at most in the case of ASCII letters. -/
def sameName (a b : Text) : Bool :=
  foldCase a == foldCase b

@[simp] theorem sameName_self (a : Text) : sameName a a = true := by
  simp [sameName]

theorem sameName_comm (a b : Text) : sameName a b = sameName b a := by
  exact Bool.beq_comm

end Text

end SiteServer
