import SiteServer.Text.Basic

/-!
# Protocol versions

The version that ends a request line.  Two versions are served; a text that names another one by
two digits is told apart from a text that is no version at all.
-/

namespace SiteServer

/-- The versions that are served. -/
inductive Version where
  | http10
  | http11
  deriving DecidableEq, Repr

/-- Why a text is not a served version. -/
inductive VersionError where
  /-- `HTTP/major.minor` with other digits. -/
  | unsupported (major minor : Char)
  | unparseable
  deriving DecidableEq, Repr

namespace Version

/-- The number of a version. -/
def number : Version → Text
  | .http10 => "1.0".toList
  | .http11 => "1.1".toList

/-- The version as it stands in a request line. -/
def text (version : Version) : Text :=
  "HTTP/".toList ++ version.number

/-- The version that a text names. -/
def parse : Text → Except VersionError Version
  | ['H', 'T', 'T', 'P', '/', major, '.', minor] =>
    if major = '1' ∧ minor = '1' then .ok .http11
    else if major = '1' ∧ minor = '0' then .ok .http10
    else if major.isDigit ∧ minor.isDigit then .error (.unsupported major minor)
    else .error .unparseable
  | _ => .error .unparseable

@[simp] theorem parse_text (version : Version) : parse version.text = .ok version := by
  cases version <;> rfl

end Version

/-- The text that reports the error. -/
def VersionError.message : VersionError → Text
  | .unsupported major minor => "unsupported HTTP/".toList ++ [major, '.', minor]
  | .unparseable => "unparseable HTTP version".toList

end SiteServer
