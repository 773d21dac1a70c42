import SiteServer.Text.Pieces

/-!
# Media types

The kinds of body that the server tells apart.  They form a table: every kind but the first has the
file extension that selects it, and the row of a kind is its numeric code.  The first row, plain
bytes, is what an unknown extension or code stands for.
-/

namespace SiteServer

/-- The kind of a body, one for every row of the table of extensions. -/
inductive MediaType where
  | octetStream | avi | c | conf | cpp | css | gif | gz | h | html | htm | jpeg | jpg | js
  | m4a | midi | mp3 | mpeg | mpg | ogg | pdf | php | pl | png | sd | swf | tiff | txt | wav
  | wmv | xml
  deriving DecidableEq, Repr

namespace MediaType

/-- The rows of the table in their order. -/
def all : List MediaType :=
  [.octetStream, .avi, .c, .conf, .cpp, .css, .gif, .gz, .h, .html, .htm, .jpeg, .jpg, .js,
   .m4a, .midi, .mp3, .mpeg, .mpg, .ogg, .pdf, .php, .pl, .png, .sd, .swf, .tiff, .txt, .wav,
   .wmv, .xml]

/-- The file extension that selects the kind, without the dot; the first row has none. -/
def extension : MediaType → Text
  | .octetStream => "".toList
  | .avi => "avi".toList
  | .c => "c".toList
  | .conf => "conf".toList
  | .cpp => "cpp".toList
  | .css => "css".toList
  | .gif => "gif".toList
  | .gz => "gz".toList
  | .h => "h".toList
  | .html => "html".toList
  | .htm => "htm".toList
  | .jpeg => "jpeg".toList
  | .jpg => "jpg".toList
  | .js => "js".toList
  | .m4a => "m4a".toList
  | .midi => "midi".toList
  | .mp3 => "mp3".toList
  | .mpeg => "mpeg".toList
  | .mpg => "mpg".toList
  | .ogg => "ogg".toList
  | .pdf => "pdf".toList
  | .php => "php".toList
  | .pl => "pl".toList
  | .png => "png".toList
  | .sd => "sd".toList
  | .swf => "swf".toList
  | .tiff => "tiff".toList
  | .txt => "txt".toList
  | .wav => "wav".toList
  | .wmv => "wmv".toList
  | .xml => "xml".toList

/-- The text that announces the kind in a header block. -/
def mime : MediaType → Text
  | .octetStream => "application/octet-stream".toList
  | .avi => "video/x-msvideo".toList
  | .c => "text/plain".toList
  | .conf => "text/plain".toList
  | .cpp => "text/plain".toList
  | .css => "text/css".toList
  | .gif => "image/gif".toList
  | .gz => "application/x-gzip".toList
  | .h => "text/plain".toList
  | .html => "text/html".toList
  | .htm => "text/html".toList
  | .jpeg => "image/jpeg".toList
  | .jpg => "image/jpeg".toList
  | .js => "application/javascript".toList
  | .m4a => "audio/mp4".toList
  | .midi => "audio/midi".toList
  | .mp3 => "audio/mpeg".toList
  | .mpeg => "video/mpeg".toList
  | .mpg => "video/mpeg".toList
  | .ogg => "application/ogg".toList
  | .pdf => "application/pdf".toList
  | .php => "text/plain".toList
  | .pl => "text/plain".toList
  | .png => "image/png".toList
  | .sd => "text/plain".toList
  | .swf => "application/x-shockwave-flash".toList
  | .tiff => "image/tiff".toList
  | .txt => "text/plain".toList
  | .wav => "audio/x-wav".toList
  | .wmv => "video/x-ms-wmv".toList
  | .xml => "text/xml".toList

/-- The numeric code of a kind: its row. -/
def code (type : MediaType) : Nat :=
  all.idxOf type

/-- The kind with a given code. -/
def ofCode? (code : Nat) : Option MediaType :=
  all[code]?

/-- The kind with a given code, plain bytes for a code that is no row. -/
def ofCode (code : Nat) : MediaType :=
  (ofCode? code).getD .octetStream

/-- The kind that an extension selects; upper and lower case differ. -/
def ofExtension (extension : Text) : MediaType :=
  (all.tail.find? fun type => type.extension = extension).getD .octetStream

/-- The kind that the text after the last dot of a file name selects. -/
def ofFileName (name : Text) : MediaType :=
  match Text.splitLast? '.' name with
  | some (_, extension) => ofExtension extension
  | none => .octetStream

@[simp] theorem ofCode?_code (type : MediaType) : ofCode? type.code = some type := by
  cases type <;> rfl

theorem ofCode?_eq_none_iff {code : Nat} : ofCode? code = none ↔ 31 ≤ code := by
  simp [ofCode?, all]

theorem ofExtension_extension (type : MediaType) : ofExtension type.extension = type := by
  cases type <;> decide

end MediaType

end SiteServer
