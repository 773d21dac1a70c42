import SiteServer.Proofs.Http.Lines

/-!
# The grammar of a request

What the first line of a buffer makes of it, told without reading it in steps.  `Outcome` has one
rule for each kind of answer, and the conditions of a rule are those under which no earlier
complaint has been made: no word at all, a byte above 127, another method, not three words, another
version.
Reading a buffer gives the answer that the rules allow, and no other (`parse_iff_outcome`), so
nothing behind the first line can make a buffer fail.
-/

namespace SiteServer.Request

/-! ### The rules -/

/-- What a request asks for in its first line: the version, the path and the parameters. -/
def asked (request : Request) : Version × Text × List Param :=
  (request.version, request.path, request.params)

def IsAscii (line : Bytes) : Prop :=
  ∀ b ∈ line, b.toNat ≤ 127

/-- The word that names a version by two digits. -/
def versionWord (major minor : Char) : Text :=
  "HTTP/".toList ++ [major, '.', minor]

/-- The error that a word is as a version. -/
inductive Unserved (word : Text) : VersionError → Prop where
  | unsupported {major minor : Char} (read : word = versionWord major minor)
      (digits : major.isDigit ∧ minor.isDigit)
      (other : ∀ version : Version, word ≠ version.text) :
      Unserved word (.unsupported major minor)
  | unparseable
      (form : ∀ major minor : Char, major.isDigit → minor.isDigit →
        word ≠ versionWord major minor) : Unserved word .unparseable

/-- The path and the parameters of a target, which is cut at its first question mark after it has
been decoded. -/
inductive Aims (target : Text) : Text → List Param → Prop where
  | plain (no_query : '?' ∉ Escape.decode target) : Aims target (Escape.decode target) []
  | query {path query : Text} (cut : Escape.decode target = path ++ '?' :: query)
      (first : '?' ∉ path) : Aims target path (Query.parse query)

/-- What a buffer is, by its first line and the words of this line. -/
inductive Outcome (line : Bytes) (words : List Text) :
    Except RequestError (Version × Text × List Param) → Prop where
  | empty (blank : ∀ b ∈ line, b = 32) : Outcome line words (.error .empty)
  | notAscii {b : UInt8} (mem : b ∈ line) (high : 127 < b.toNat) :
      Outcome line words (.error .notAscii)
  | unsupportedMethod {word : Text} {more : List Text} (ascii : IsAscii line)
      (read : words = word :: more) (other : word ≠ "GET".toList) :
      Outcome line words (.error (.unsupportedMethod (Method.ofText word)))
  | malformedLine {more : List Text} (ascii : IsAscii line)
      (read : words = "GET".toList :: more) (count : words.length ≠ 3) :
      Outcome line words (.error .malformedLine)
  | unsupportedVersion {target word : Text} {error : VersionError} (ascii : IsAscii line)
      (read : words = ["GET".toList, target, word]) (unserved : Unserved word error) :
      Outcome line words (.error (.unsupportedVersion error))
  | accepted {target path : Text} {version : Version} {params : List Param} (ascii : IsAscii line)
      (read : words = ["GET".toList, target, version.text]) (aims : Aims target path params) :
      Outcome line words (.ok (version, path, params))

/-! ### Versions and targets -/

lemma parse_versionWord {major minor : Char} (digits : major.isDigit ∧ minor.isDigit)
    (other : ∀ version : Version, versionWord major minor ≠ version.text) :
    Version.parse (versionWord major minor) = .error (.unsupported major minor) := by
  have h11 : ¬ (major = '1' ∧ minor = '1') := by
    rintro ⟨rfl, rfl⟩
    exact other .http11 rfl
  have h10 : ¬ (major = '1' ∧ minor = '0') := by
    rintro ⟨rfl, rfl⟩
    exact other .http10 rfl
  have hword : versionWord major minor = ['H', 'T', 'T', 'P', '/', major, '.', minor] := rfl
  rw [hword, Version.parse, if_neg h11, if_neg h10, if_pos digits]

lemma parse_of_form {word : Text}
    (form : ∀ major minor : Char, major.isDigit → minor.isDigit → word ≠ versionWord major minor) :
    Version.parse word = .error .unparseable := by
  unfold Version.parse
  split
  · next major minor =>
    have hnot : ¬ (major.isDigit ∧ minor.isDigit) :=
      fun hdigits => form major minor hdigits.1 hdigits.2 rfl
    have h11 : ¬ (major = '1' ∧ minor = '1') := by
      rintro ⟨rfl, rfl⟩
      exact hnot (by decide)
    have h10 : ¬ (major = '1' ∧ minor = '0') := by
      rintro ⟨rfl, rfl⟩
      exact hnot (by decide)
    rw [if_neg h11, if_neg h10, if_neg hnot]
  · rfl

lemma parse_of_unserved {word : Text} {error : VersionError} (h : Unserved word error) :
    Version.parse word = .error error := by
  cases h with
  | unsupported read digits other =>
    subst read
    exact parse_versionWord digits other
  | unparseable form => exact parse_of_form form

/-- A word is a version that is served, or it is an error. -/
lemma version_or_unserved (word : Text) :
    (∃ version : Version, word = version.text) ∨ ∃ error, Unserved word error := by
  by_cases hversion : ∃ version : Version, word = version.text
  · exact .inl hversion
  · refine .inr ?_
    by_cases hform : ∃ major minor : Char,
        (major.isDigit ∧ minor.isDigit) ∧ word = versionWord major minor
    · obtain ⟨major, minor, hdigits, hread⟩ := hform
      exact ⟨_, .unsupported hread hdigits fun version heq => hversion ⟨version, heq⟩⟩
    · refine ⟨_, .unparseable fun major minor hmajor hminor hread => ?_⟩
      exact hform ⟨major, minor, ⟨hmajor, hminor⟩, hread⟩

lemma splitTarget_of_not_mem {target : Text} (h : '?' ∉ Escape.decode target) :
    splitTarget target = (Escape.decode target, []) := by
  simp only [splitTarget, Text.splitFirst?_eq_none_iff.2 h]

lemma splitTarget_of_cut {target path query : Text}
    (cut : Escape.decode target = path ++ '?' :: query) (first : '?' ∉ path) :
    splitTarget target = (path, Query.parse query) := by
  simp only [splitTarget, cut, Text.splitFirst?_append_sep first]

/-- A target has one path. -/
lemma Aims.eq_splitTarget {target path : Text} {params : List Param} (h : Aims target path params) :
    splitTarget target = (path, params) := by
  cases h with
  | plain no_query => exact splitTarget_of_not_mem no_query
  | query cut first => exact splitTarget_of_cut cut first

lemma exists_aims (target : Text) : ∃ path params, Aims target path params := by
  rcases hsplit : Text.splitFirst? '?' (Escape.decode target) with _ | ⟨path, query⟩
  · exact ⟨_, _, .plain (Text.splitFirst?_eq_none_iff.1 hsplit)⟩
  · obtain ⟨hcut, hfirst⟩ := Text.splitFirst?_eq_some hsplit
    exact ⟨_, _, .query hcut hfirst⟩

/-! ### Reading the first line -/

/-- What the first line gives, without the headers behind it. -/
def readLine (line : Bytes) : Except RequestError (Version × Text × List Param) :=
  (parseLine line).map fun (version, target) => (version, splitTarget target)

/-- The first line alone decides what a buffer is. -/
lemma map_asked_parse (raw : Bytes) : (parse raw).map asked = readLine (firstLine raw) := by
  obtain ⟨rest, hlines⟩ := exists_lines_eq_cons raw
  simp only [parse, hlines, readLine]
  rcases parseLine (firstLine raw) with error | ⟨version, target⟩
  · rfl
  · simp only [Except.map, asked]

section

variable {line : Bytes} {runs : List Bytes} {word target : Text} {more : List Text}

lemma parseLine_of_blank (h : ∀ b ∈ line, b = 32) : parseLine line = .error .empty := by
  have hwords : words (Text.ofBytes line) = [] := words_ofBytes (Text.runs_nil h)
  have hascii : ¬ (line.any (128 ≤ ·.toNat)) = true := by
    rw [List.any_eq_true]
    rintro ⟨b, hmem, hhigh⟩
    rw [h b hmem] at hhigh
    simp at hhigh
  rw [parseLine, if_neg hascii, hwords]
  simp

lemma parseLine_of_high {b : UInt8} (hmem : b ∈ line) (high : 127 < b.toNat) :
    parseLine line = .error .notAscii := by
  have hne : line ≠ [] := List.ne_nil_of_mem hmem
  have hany : (line.any (128 ≤ ·.toNat)) = true :=
    List.any_eq_true.2 ⟨b, hmem, decide_eq_true high⟩
  rw [parseLine, if_neg hne, if_pos hany]

/-- An ASCII line with a word in it comes to its words. -/
lemma ne_nil_and_not_high (ascii : IsAscii line)
    (hread : words (Text.ofBytes line) = word :: more) :
    line ≠ [] ∧ ¬ (line.any (128 ≤ ·.toNat)) = true := by
  constructor
  · rintro rfl
    simp [words, Text.ofBytes, Text.pieces] at hread
  · rw [List.any_eq_true]
    rintro ⟨b, hmem, hhigh⟩
    have hle := ascii b hmem
    have hlt := of_decide_eq_true hhigh
    omega

lemma parseLine_of_method (ascii : IsAscii line) (hread : words (Text.ofBytes line) = word :: more)
    (other : word ≠ "GET".toList) :
    parseLine line = .error (.unsupportedMethod (Method.ofText word)) := by
  obtain ⟨hne, hhigh⟩ := ne_nil_and_not_high ascii hread
  have hmethod := mt (Method.isSupported_ofText_iff word).1 other
  simp only [parseLine, if_neg hne, if_neg hhigh, hread, if_neg hmethod]

lemma parseLine_of_count (ascii : IsAscii line)
    (hread : words (Text.ofBytes line) = "GET".toList :: more) (count : more.length ≠ 2) :
    parseLine line = .error .malformedLine := by
  obtain ⟨hne, hhigh⟩ := ne_nil_and_not_high ascii hread
  have hmethod := (Method.isSupported_ofText_iff "GET".toList).2 rfl
  simp only [parseLine, if_neg hne, if_neg hhigh, hread, if_pos hmethod]
  split
  · simp at count
  · rfl

lemma parseLine_of_three (ascii : IsAscii line)
    (hread : words (Text.ofBytes line) = ["GET".toList, target, word]) :
    parseLine line
      = ((Version.parse word).mapError .unsupportedVersion).map
          fun version => (version, target) := by
  obtain ⟨hne, hhigh⟩ := ne_nil_and_not_high ascii hread
  have hmethod := (Method.isSupported_ofText_iff "GET".toList).2 rfl
  simp only [parseLine, if_neg hne, if_neg hhigh, hread, if_pos hmethod]
  cases Version.parse word <;> rfl

/-- What the rules say of a line is what reading it gives. -/
lemma Outcome.eq_readLine (hruns : Text.Runs 32 line runs)
    {result : Except RequestError (Version × Text × List Param)}
    (h : Outcome line (runs.map Text.ofBytes) result) : readLine line = result := by
  rw [← words_ofBytes hruns] at h
  cases h with
  | empty blank => rw [readLine, parseLine_of_blank blank, Except.map]
  | notAscii mem high => rw [readLine, parseLine_of_high mem high, Except.map]
  | unsupportedMethod ascii read other =>
    rw [readLine, parseLine_of_method ascii read other, Except.map]
  | malformedLine ascii read count =>
    rw [read] at count
    rw [readLine, parseLine_of_count ascii read (by simpa using count), Except.map]
  | unsupportedVersion ascii read unserved =>
    rw [readLine, parseLine_of_three ascii read, parse_of_unserved unserved, Except.mapError,
      Except.map, Except.map]
  | accepted ascii read aims =>
    simp only [readLine, parseLine_of_three ascii read, Version.parse_text, Except.mapError,
      Except.map, aims.eq_splitTarget]

/-- Some rule speaks of every line. -/
lemma exists_outcome (hruns : Text.Runs 32 line runs) :
    ∃ result, Outcome line (runs.map Text.ofBytes) result := by
  -- the conditions are asked in the order in which a line is complained about
  by_cases hblank : ∀ b ∈ line, b = 32
  · exact ⟨_, .empty hblank⟩
  by_cases hascii : IsAscii line
  · rcases hread : runs.map Text.ofBytes with _ | ⟨word, more⟩
    · obtain rfl := List.map_eq_nil_iff.1 hread
      exact absurd hruns.eq_sep hblank
    · by_cases hget : word = "GET".toList
      · subst hget
        by_cases hcount : more.length = 2
        · obtain ⟨target, word, rfl⟩ := List.length_eq_two.1 hcount
          rcases version_or_unserved word with ⟨version, rfl⟩ | ⟨error, hunserved⟩
          · obtain ⟨path, params, haims⟩ := exists_aims target
            exact ⟨_, .accepted hascii rfl haims⟩
          · exact ⟨_, .unsupportedVersion hascii rfl hunserved⟩
        · exact ⟨_, .malformedLine hascii rfl (by simpa using hcount)⟩
      · exact ⟨_, .unsupportedMethod hascii rfl hget⟩
  · simp only [IsAscii, not_forall, Nat.not_le] at hascii
    obtain ⟨b, hmem, hhigh⟩ := hascii
    exact ⟨_, .notAscii hmem hhigh⟩

theorem outcome_iff (hruns : Text.Runs 32 line runs)
    {result : Except RequestError (Version × Text × List Param)} :
    Outcome line (runs.map Text.ofBytes) result ↔ readLine line = result := by
  refine ⟨fun h => h.eq_readLine hruns, ?_⟩
  rintro rfl
  obtain ⟨result, hresult⟩ := exists_outcome hruns
  rwa [hresult.eq_readLine hruns]

end

/-- **The grammar.**  A buffer is what the rules say of its first line and of the words in it, the
longest runs without a space: each line has one list of words, and the rules allow one answer.  The
lines behind the first one make no difference to it, and how lines end makes none to the request. -/
theorem parse_iff_outcome (raw : Bytes) :
    ∃ runs : List Bytes,
      (∀ runs', Text.Runs 32 (firstLine raw) runs' ↔ runs' = runs) ∧
      (∀ result, Outcome (firstLine raw) (runs.map Text.ofBytes) result ↔
        (parse raw).map asked = result) ∧
      (∀ other, firstLine other = firstLine raw →
        (parse other).map asked = (parse raw).map asked) ∧
      ∀ other, SameLines raw other → parse other = parse raw := by
  refine ⟨(Text.pieces 32 (firstLine raw)).filter (· ≠ []), fun runs' => Text.runs_iff,
    fun result => ?_, fun other hfirst => ?_, fun other hsame => ?_⟩
  · rw [map_asked_parse]
    exact outcome_iff (Text.runs_iff.2 rfl)
  · rw [map_asked_parse, map_asked_parse, hfirst]
  · rw [parse, parse, lines_eq_of_sameLines hsame]

/-- A request with two spaces in its first line, whose lines all end in the same way. -/
def spacedRequest (withReturn : Bool) : Bytes :=
  Utf8.encode "GET  /a?x=1 HTTP/1.1".toList ++ ending withReturn ++
    (Utf8.encode "Host: a".toList ++ ending withReturn ++ ([] ++ ending withReturn ++ []))

theorem parse_iff_outcome_spacedRequest :
    SameLines (spacedRequest true) (spacedRequest false) ∧
      parse (spacedRequest false) = parse (spacedRequest true) ∧
      firstLine (spacedRequest false) = firstLine (spacedRequest true) ∧
      (parse (spacedRequest false)).map asked = (parse (spacedRequest true)).map asked ∧
      (parse (spacedRequest true)).map asked
        = .ok (.http11, "/a".toList, [⟨"x".toList, "1".toList⟩]) := by
  obtain ⟨runs, -, -, hfirst, hsame⟩ := parse_iff_outcome (spacedRequest true)
  have hlines : SameLines (spacedRequest true) (spacedRequest false) :=
    .line (by decide) (by decide) (.line (by decide) (by decide)
      (.line (by decide) (by decide) (.last [])))
  have heq : firstLine (spacedRequest false) = firstLine (spacedRequest true) := by decide
  exact ⟨hlines, hsame _ hlines, heq, hfirst _ heq, by decide +kernel⟩

end SiteServer.Request
