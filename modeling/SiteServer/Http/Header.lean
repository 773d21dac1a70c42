import SiteServer.Text.Blank
import SiteServer.Text.Decimal
import SiteServer.Text.Utf8

/-!
# Header lines of a request

The few header lines that are kept.  Each is a name and a value around the first colon, both without
the white space at their ends; the case of ASCII letters in a name means nothing.  A name that comes
again replaces what it said before.
-/

namespace SiteServer

/-- The host that a request asks for. -/
structure Authority where
  host : Text
  port : Nat
  deriving DecidableEq, Repr

namespace Authority

/-- The port of a host that is named without one. -/
def defaultPort : Nat := 80

/-- The most bytes of a host that are kept. -/
def hostLimit : Nat := 64

/-- The port that a text names: decimal digits, perhaps after a plus sign, up to 65535. -/
def readPort? (text : Text) : Option Nat :=
  let digits := match text with
    | '+' :: digits => digits
    | digits => digits
  (Decimal.read? digits).filter (· < 65536)

/-- The value of a `Host` line: the host, and after its first colon the port.  A port that cannot
be read is the default port. -/
def parse (value : Text) : Authority :=
  match Text.splitFirst? ':' value with
  | some (host, port) =>
    ⟨Utf8.cut hostLimit host, (readPort? (Text.trim port)).getD defaultPort⟩
  | none => ⟨Utf8.cut hostLimit value, defaultPort⟩

end Authority

/-- What the header lines of a request say. -/
structure Headers where
  userAgent : Option Text := none
  referer : Option Text := none
  fromAddress : Option Text := none
  authority : Option Authority := none
  close : Bool := false
  deriving DecidableEq, Repr

namespace Headers

/-- The most bytes of `User-Agent`, `Referer` and `From` that are kept. -/
def userAgentLimit : Nat := 128

def refererLimit : Nat := 128

def fromLimit : Nat := 64

/-- Whether a `Connection` value has the token `close` between its commas. -/
def asksClose (value : Text) : Bool :=
  (Text.pieces ',' value).any fun token => Text.sameName (Text.trim token) "close".toList

/-- The headers after one more named value. -/
def capture (headers : Headers) (name value : Text) : Headers :=
  if Text.sameName name "User-Agent".toList then
    { headers with userAgent := some (Utf8.cut userAgentLimit value) }
  else if Text.sameName name "Referer".toList then
    { headers with referer := some (Utf8.cut refererLimit value) }
  else if Text.sameName name "From".toList then
    { headers with fromAddress := some (Utf8.cut fromLimit value) }
  else if Text.sameName name "Connection".toList then
    { headers with close := asksClose value }
  else if Text.sameName name "Host".toList then
    { headers with authority := some (Authority.parse value) }
  else
    headers

/-- The name and the value of a header line; a line without a colon has none. -/
def field? (line : Bytes) : Option (Text × Text) :=
  (Text.splitFirst? ':' (Utf8.decode line)).map fun (name, value) =>
    (Text.trim name, Text.trim value)

/-- The headers after one more line. -/
def addLine (headers : Headers) (line : Bytes) : Headers :=
  match field? line with
  | some (name, value) => headers.capture name value
  | none => headers

/-- The headers that a list of lines gives. -/
def ofLines (lines : List Bytes) : Headers :=
  lines.foldl addLine {}

@[simp] theorem ofLines_nil : ofLines [] = {} := rfl

theorem ofLines_append (a b : List Bytes) : ofLines (a ++ b) = b.foldl addLine (ofLines a) := by
  simp [ofLines]

end Headers

end SiteServer
