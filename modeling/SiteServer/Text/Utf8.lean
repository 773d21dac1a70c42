import SiteServer.Text.Basic

/-!
# UTF-8

Writing text as UTF-8, reading bytes as UTF-8 with replacement characters, and cutting a text to a
number of bytes without cutting a character.

Reading is a machine that takes one byte at a time.  Between two bytes it either stands between
characters or inside a sequence, and then it knows how many continuation bytes are missing and in
which range the next one has to lie.  A byte outside that range ends the sequence with one
replacement character and is read afresh, so each longest part of a possible sequence gives exactly
one replacement character.
-/

namespace SiteServer.Utf8

/-- The UTF-8 form of a text. -/
def encode (text : Text) : Bytes :=
  text.flatMap String.utf8EncodeChar

/-- The number of bytes of the UTF-8 form. -/
def size : Text → Nat
  | [] => 0
  | c :: rest => c.utf8Size + size rest

@[simp] theorem encode_nil : encode [] = [] := rfl

@[simp] theorem encode_append (a b : Text) : encode (a ++ b) = encode a ++ encode b := by
  simp [encode]

@[simp] theorem size_nil : size [] = 0 := rfl

@[simp] theorem size_cons (c : Char) (text : Text) : size (c :: text) = c.utf8Size + size text :=
  rfl

@[simp] theorem length_encode (text : Text) : (encode text).length = size text := by
  induction text with
  | nil => rfl
  | cons c rest ih =>
    have : encode (c :: rest) = String.utf8EncodeChar c ++ encode rest := by simp [encode]
    rw [this, List.length_append, ih, size_cons, String.length_utf8EncodeChar]

/-! ## Cutting -/

/-- The longest beginning of the text with at most `limit` bytes. -/
def cut : Nat → Text → Text
  | _, [] => []
  | limit, c :: rest => if c.utf8Size ≤ limit then c :: cut (limit - c.utf8Size) rest else []

theorem cut_prefix (limit : Nat) (text : Text) : cut limit text <+: text := by
  induction text generalizing limit with
  | nil => simp [cut]
  | cons c rest ih =>
    simp only [cut]
    split
    · exact (List.prefix_cons_inj c).2 (ih _)
    · exact List.nil_prefix

theorem size_cut_le (limit : Nat) (text : Text) : size (cut limit text) ≤ limit := by
  induction text generalizing limit with
  | nil => simp [cut]
  | cons c rest ih =>
    simp only [cut]
    split
    · have := ih (limit - c.utf8Size)
      simp only [size_cons]
      omega
    · simp

theorem cut_of_size_le {limit : Nat} {text : Text} (h : size text ≤ limit) :
    cut limit text = text := by
  induction text generalizing limit with
  | nil => rfl
  | cons c rest ih =>
    simp only [size_cons] at h
    simp [cut, show c.utf8Size ≤ limit by omega, ih (show size rest ≤ limit - c.utf8Size by omega)]

/-! ## Reading -/

/-- What stands for bytes that are no UTF-8. -/
def replacement : Char := '\ufffd'

/-- A sequence whose first bytes have been read: `missing + 1` continuation bytes are still to
come, the next one between `low` and `high`, and `value` holds the bits read so far. -/
structure Sequence where
  missing : Nat
  low : Nat
  high : Nat
  value : Nat
  deriving DecidableEq, Repr

/-- What the first byte of a character gives: characters, or a sequence to be continued. -/
def start (b : Nat) : Text × Option Sequence :=
  if b < 0x80 then ([Char.ofNat b], none)
  else if b < 0xC2 then ([replacement], none)
  else if b < 0xE0 then ([], some ⟨0, 0x80, 0xBF, b - 0xC0⟩)
  else if b = 0xE0 then ([], some ⟨1, 0xA0, 0xBF, 0⟩)
  else if b = 0xED then ([], some ⟨1, 0x80, 0x9F, 0xD⟩)
  else if b < 0xF0 then ([], some ⟨1, 0x80, 0xBF, b - 0xE0⟩)
  else if b = 0xF0 then ([], some ⟨2, 0x90, 0xBF, 0⟩)
  else if b < 0xF4 then ([], some ⟨2, 0x80, 0xBF, b - 0xF0⟩)
  else if b = 0xF4 then ([], some ⟨2, 0x80, 0x8F, 4⟩)
  else ([replacement], none)

/-- The next byte, inside a sequence or between characters. -/
def feed (b : Nat) : Option Sequence → Text × Option Sequence
  | none => start b
  | some s =>
    if s.low ≤ b ∧ b ≤ s.high then
      let value := s.value * 64 + (b - 0x80)
      match s.missing with
      | 0 => ([Char.ofNat value], none)
      | missing + 1 => ([], some ⟨missing, 0x80, 0xBF, value⟩)
    else
      let (text, next) := start b
      (replacement :: text, next)

/-- The text that the bytes give after what has been read; a sequence that the end cuts off gives
one replacement character. -/
def decodeFrom : Option Sequence → Bytes → Text
  | none, [] => []
  | some _, [] => [replacement]
  | s, b :: rest =>
    let (text, next) := feed b.toNat s
    text ++ decodeFrom next rest

/-- The text of the bytes read as UTF-8. -/
def decode (bytes : Bytes) : Text :=
  decodeFrom none bytes

@[simp] theorem decode_nil : decode [] = [] := rfl

/-- ASCII bytes are read one by one. -/
theorem decode_of_ascii {bytes : Bytes} (h : ∀ b ∈ bytes, b.toNat < 0x80) :
    decode bytes = Text.ofBytes bytes := by
  unfold decode
  induction bytes with
  | nil => rfl
  | cons b rest ih =>
    have hb : b.toNat < 0x80 := h b (by simp)
    have hr := ih fun x hx => h x (by simp [hx])
    simp [decodeFrom, feed, start, hb, hr, Text.ofBytes]

end SiteServer.Utf8
