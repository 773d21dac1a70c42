import SiteServer.Text.Basic

/-!
# Text inside markup

The four characters that mean something in a page are written as character references, so that
text of any origin can stand between tags and inside a quoted attribute.
-/

namespace SiteServer.Markup

/-- The written form of one character. -/
def reference (c : Char) : Text :=
  if c = '&' then "&amp;".toList
  else if c = '<' then "&lt;".toList
  else if c = '>' then "&gt;".toList
  else if c = '"' then "&quot;".toList
  else [c]

/-- The written form of a text. -/
def escape (text : Text) : Text :=
  text.flatMap reference

@[simp] theorem escape_nil : escape [] = [] := rfl

@[simp] theorem escape_cons (c : Char) (text : Text) :
    escape (c :: text) = reference c ++ escape text := by
  simp [escape]

@[simp] theorem escape_append (a b : Text) : escape (a ++ b) = escape a ++ escape b := by
  simp [escape]

end SiteServer.Markup
