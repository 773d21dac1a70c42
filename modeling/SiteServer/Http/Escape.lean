import SiteServer.Text.Basic

/-!
# Escapes in a request target

Twenty-two characters can be written in a target as a percent sign and two capital hexadecimal
digits.  Decoding goes through the table in its order and substitutes each code everywhere, at most
`limit` times, before it comes to the next one.  Since `%25` stands in the table before most codes,
a code that it uncovers is substituted if it comes later in the table, and stays if it came earlier.
-/

namespace SiteServer

/-- A code `%` `high` `low` and the character it stands for. -/
structure Escape where
  high : Char
  low : Char
  char : Char
  deriving DecidableEq, Repr

namespace Escape

/-- The codes in the order in which they are substituted. -/
def table : List Escape :=
  [⟨'2', '0', ' '⟩, ⟨'3', 'C', '<'⟩, ⟨'3', 'E', '>'⟩, ⟨'2', '3', '#'⟩, ⟨'2', '5', '%'⟩,
   ⟨'7', 'B', '{'⟩, ⟨'7', 'D', '}'⟩, ⟨'7', 'C', '|'⟩, ⟨'5', 'C', '\\'⟩, ⟨'5', 'E', '^'⟩,
   ⟨'7', 'E', '~'⟩, ⟨'5', 'B', '['⟩, ⟨'5', 'D', ']'⟩, ⟨'6', '0', '\x60'⟩, ⟨'3', 'B', ';'⟩,
   ⟨'2', 'F', '/'⟩, ⟨'3', 'F', '?'⟩, ⟨'3', 'A', ':'⟩, ⟨'4', '0', '@'⟩, ⟨'3', 'D', '='⟩,
   ⟨'2', '6', '&'⟩, ⟨'2', '4', '$'⟩]

/-- How often one code is substituted in one text. -/
def limit : Nat := 128

/-- The code as it stands in a target. -/
def text (code : Escape) : Text :=
  ['%', code.high, code.low]

/-- The text with the first `budget` occurrences of a code substituted. -/
def substitute (code : Escape) : Nat → Text → Text
  | budget + 1, c :: high :: low :: rest =>
    if c = '%' ∧ high = code.high ∧ low = code.low then
      code.char :: substitute code budget rest
    else
      c :: substitute code (budget + 1) (high :: low :: rest)
  | _, text => text

/-- The target text with every code of the table substituted. -/
def decode (target : Text) : Text :=
  table.foldl (fun text code => code.substitute limit text) target

/-- A text without a percent sign has no code. -/
theorem substitute_of_not_mem {code : Escape} {budget : Nat} {text : Text} (h : '%' ∉ text) :
    code.substitute budget text = text := by
  fun_induction substitute code budget text <;> simp_all

theorem decode_of_not_mem {target : Text} (h : '%' ∉ target) : decode target = target := by
  unfold decode
  induction table with
  | nil => rfl
  | cons code rest ih => simpa [substitute_of_not_mem h] using ih

end Escape

end SiteServer
