import SiteServer.Text.Basic

/-!
# File contents

The content of a file is a size and a byte at every offset below it.  It is given by a function, so
that a large file costs nothing until it is read; `toList` is its plain view.
-/

namespace SiteServer

/-- The content of a file. -/
structure Content where
  size : Nat
  byte : Nat → UInt8

namespace Content

/-- The content that a byte string makes. -/
def ofBytes (bytes : Bytes) : Content :=
  let array := bytes.toArray
  ⟨array.size, fun i => array[i]?.getD 0⟩

/-- That many zero bytes. -/
def zeros (size : Nat) : Content :=
  ⟨size, fun _ => 0⟩

/-- Bytes that count up from zero and start again after 250. -/
def counting (size : Nat) : Content :=
  ⟨size, fun i => (i % 251).toUInt8⟩

/-- The content cut or filled up with zero bytes to a new size. -/
def resize (content : Content) (size : Nat) : Content :=
  ⟨size, fun i => if i < content.size then content.byte i else 0⟩

/-- Up to `count` bytes from an offset on, fewer where the content ends. -/
def slice (content : Content) (offset count : Nat) : Bytes :=
  (List.range' offset (min count (content.size - offset))).map content.byte

/-- All bytes of the content. -/
def toList (content : Content) : Bytes :=
  content.slice 0 content.size

@[simp] theorem length_slice (content : Content) (offset count : Nat) :
    (content.slice offset count).length = min count (content.size - offset) := by
  simp [slice]

@[simp] theorem length_toList (content : Content) : content.toList.length = content.size := by
  simp [toList]

/-- A slice is what the plain view has there. -/
theorem slice_eq (content : Content) (offset count : Nat) :
    content.slice offset count = (content.toList.drop offset).take count := by
  apply List.ext_getElem
  · simp
  · intro i h₁ h₂
    simp [slice, toList]

@[simp] theorem toList_ofBytes (bytes : Bytes) : (ofBytes bytes).toList = bytes := by
  apply List.ext_getElem
  · simp [ofBytes]
  · intro i h₁ h₂
    simp [toList, slice, ofBytes, h₂]

end Content

end SiteServer
