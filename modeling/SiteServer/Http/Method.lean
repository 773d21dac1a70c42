import SiteServer.Text.Basic

/-!
# Request methods

The first word of a request line.  Only `GET` is served; the others are told apart so that a
rejected request can be reported.
-/

namespace SiteServer

/-- A request method. -/
inductive Method where
  | get | head | post | put | delete | connect | options | trace | patch
  /-- A word that is no registered method. -/
  | other (word : Text)
  deriving DecidableEq, Repr

namespace Method

/-- The registered methods. -/
def registered : List Method :=
  [.get, .head, .post, .put, .delete, .connect, .options, .trace, .patch]

/-- The method as it stands in a request line. -/
def text : Method → Text
  | .get => "GET".toList
  | .head => "HEAD".toList
  | .post => "POST".toList
  | .put => "PUT".toList
  | .delete => "DELETE".toList
  | .connect => "CONNECT".toList
  | .options => "OPTIONS".toList
  | .trace => "TRACE".toList
  | .patch => "PATCH".toList
  | .other word => word

/-- The method that a word names, in capital letters only. -/
def ofText (word : Text) : Method :=
  (registered.find? fun method => method.text = word).getD (.other word)

/-- Whether requests with the method are answered. -/
def isSupported (method : Method) : Bool :=
  method = .get

@[simp] theorem text_ofText (word : Text) : (ofText word).text = word := by
  unfold ofText
  cases h : registered.find? fun method => method.text = word with
  | none => rfl
  | some method => simpa using List.find?_some h

/-- The one word that is served is `GET`. -/
theorem isSupported_ofText_iff (word : Text) :
    (ofText word).isSupported = true ↔ word = "GET".toList := by
  constructor
  · intro h
    have : (ofText word) = .get := by simpa [isSupported] using h
    rw [← text_ofText word, this]
    rfl
  · rintro rfl
    rfl

end Method

end SiteServer
