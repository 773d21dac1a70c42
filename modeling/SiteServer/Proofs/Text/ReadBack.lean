import Mathlib.Data.List.Basic
import SiteServer.Text.Decimal
import SiteServer.Text.Utf8

/-!
# Reading what has been written

A number written in decimal is read back, and so is a text written as UTF-8: the machine that reads
UTF-8 comes back to where it stands between characters after each character's bytes, with this
character read (`decodeFrom_encodeChar`).  Where the bytes of a text are looked at without reading
them, a byte below 128 stands for a character of the text and for nothing else.
-/

namespace SiteServer

namespace Decimal

lemma isDigit_of_mem_write {n : Nat} {c : Char} (h : c ∈ write n) : c.isDigit = true :=
  Nat.isDigit_of_mem_toDigits (by decide) (by decide) h

lemma write_ne_nil (n : Nat) : write n ≠ [] :=
  Nat.toDigits_ne_nil

/-- The digits of a number stand for this number. -/
theorem read?_write (n : Nat) : read? (write n) = some n := by
  have hdigits : (write n).all Char.isDigit = true :=
    List.all_eq_true.2 fun _ hmem => isDigit_of_mem_write hmem
  have hvalue : value (write n) = n := Nat.ofDigitChars_ten_toDigits
  rw [read?, if_pos ⟨write_ne_nil n, hdigits⟩, hvalue]

end Decimal

namespace Text

/-- What has been found true of each character of a text. -/
lemma forall_of_all {text : Text} {P : Char → Prop} [DecidablePred P]
    (h : text.all (fun c => decide (P c)) = true) : ∀ c ∈ text, P c := by
  simpa using h

lemma toNat_ofNat_of_lt {n : Nat} (h : n < 256) : (Char.ofNat n).toNat = n := by
  rw [Char.ofNat, dif_pos (.inl (Nat.lt_trans h (by decide)))]
  rfl

/-- Two bytes are the same when the characters with their values are. -/
lemma ofNat_toNat_inj {a b : UInt8} : Char.ofNat a.toNat = Char.ofNat b.toNat ↔ a = b := by
  constructor
  · intro h
    rw [← UInt8.toNat_inj, ← toNat_ofNat_of_lt a.toNat_lt, ← toNat_ofNat_of_lt b.toNat_lt, h]
  · rintro rfl
    rfl

lemma ofBytes_injective : Function.Injective ofBytes :=
  List.map_injective_iff.2 fun _ _ h => ofNat_toNat_inj.1 h

end Text

namespace Utf8

variable {text rest : Text} {bytes : Bytes} {b value missing low high : Nat} {c : Char}

/-! ### Sequences -/

lemma decodeFrom_cons (s : Option Sequence) (b : UInt8) (rest : Bytes) :
    decodeFrom s (b :: rest) = (feed b.toNat s).1 ++ decodeFrom (feed b.toNat s).2 rest := by
  cases s <;> simp [decodeFrom]

lemma toNat_ofNat (hb : b < 256) : (UInt8.ofNat b).toNat = b := by
  rw [UInt8.toNat_ofNat', Nat.mod_eq_of_lt hb]

/-- The first byte of a sequence. -/
lemma decodeFrom_start {s : Sequence} (hb : b < 256) (h : start b = ([], some s)) :
    decodeFrom none (UInt8.ofNat b :: bytes) = decodeFrom (some s) bytes := by
  rw [decodeFrom_cons, toNat_ofNat hb, feed, h, List.nil_append]

/-- A continuation byte that is not the last one. -/
lemma decodeFrom_next (hb : b < 64) (hlow : low ≤ b + 0x80) (hhigh : b + 0x80 ≤ high) :
    decodeFrom (some ⟨missing + 1, low, high, value⟩) (UInt8.ofNat (b + 0x80) :: bytes)
      = decodeFrom (some ⟨missing, 0x80, 0xBF, value * 64 + b⟩) bytes := by
  rw [decodeFrom_cons, toNat_ofNat (by omega), feed, if_pos ⟨hlow, hhigh⟩]
  simp

/-- The last byte of a sequence. -/
lemma decodeFrom_last (hb : b < 64) (hlow : low ≤ b + 0x80) (hhigh : b + 0x80 ≤ high) :
    decodeFrom (some ⟨0, low, high, value⟩) (UInt8.ofNat (b + 0x80) :: bytes)
      = Char.ofNat (value * 64 + b) :: decodeFrom none bytes := by
  rw [decodeFrom_cons, toNat_ofNat (by omega), feed, if_pos ⟨hlow, hhigh⟩]
  simp

lemma start_two : ∀ k < 32, 2 ≤ k → start (k + 0xC0) = ([], some ⟨0, 0x80, 0xBF, k⟩) := by
  decide

/-- What a sequence of three bytes begins with narrows down its second one. -/
lemma start_three : ∀ k < 16, start (k + 0xE0)
    = ([], some ⟨1, if k = 0 then 0xA0 else 0x80, if k = 13 then 0x9F else 0xBF, k⟩) := by
  decide

lemma start_four : ∀ k < 5, start (k + 0xF0)
    = ([], some ⟨2, if k = 0 then 0x90 else 0x80, if k = 4 then 0x8F else 0xBF, k⟩) := by
  decide

/-! ### Characters -/

/-- The bytes of a character are read as this character. -/
lemma decodeFrom_encodeChar (c : Char) (bytes : Bytes) :
    decodeFrom none (String.utf8EncodeChar c ++ bytes) = c :: decodeFrom none bytes := by
  have hvalid : c.toNat < 0xD800 ∨ 0xDFFF < c.toNat ∧ c.toNat < 0x110000 := c.valid
  obtain ⟨v, hv⟩ : ∃ v, c.toNat = v := ⟨_, rfl⟩
  have hc : Char.ofNat v = c := by rw [← hv, Char.ofNat_toNat]
  have hval : c.val.toNat = v := hv
  rw [hv] at hvalid
  simp only [String.utf8EncodeChar, hval]
  split
  · -- one byte
    rw [List.singleton_append, decodeFrom_cons, toNat_ofNat (by omega)]
    simp [feed, start, show v < 128 by omega, hc]
  split
  · have hstart : start (v / 64 % 32 + 0xC0) = ([], some ⟨0, 0x80, 0xBF, v / 64⟩) := by
      rw [Nat.mod_eq_of_lt (by omega), start_two (v / 64) (by omega) (by omega)]
    simp only [List.cons_append, List.nil_append]
    rw [decodeFrom_start (by omega) hstart, decodeFrom_last (by omega) (by omega) (by omega),
      show v / 64 * 64 + v % 64 = v by omega, hc]
  split
  · have hstart := start_three (v / 4096) (by omega)
    rw [← Nat.mod_eq_of_lt (show v / 4096 < 16 by omega)] at hstart
    simp only [List.cons_append, List.nil_append]
    rw [decodeFrom_start (by omega) hstart, decodeFrom_next (by omega) (by split <;> omega)
      (by split <;> omega), decodeFrom_last (by omega) (by omega) (by omega),
      show (v / 4096 % 16 * 64 + v / 64 % 64) * 64 + v % 64 = v by omega, hc]
  · have hstart := start_four (v / 262144) (by omega)
    rw [← Nat.mod_eq_of_lt (show v / 262144 < 8 by omega)] at hstart
    simp only [List.cons_append, List.nil_append]
    rw [decodeFrom_start (by omega) hstart, decodeFrom_next (by omega) (by split <;> omega)
      (by split <;> omega), decodeFrom_next (by omega) (by omega) (by omega),
      decodeFrom_last (by omega) (by omega) (by omega),
      show ((v / 262144 % 8 * 64 + v / 4096 % 64) * 64 + v / 64 % 64) * 64 + v % 64 = v by omega,
      hc]

lemma encode_cons (c : Char) (text : Text) :
    encode (c :: text) = String.utf8EncodeChar c ++ encode text := by
  simp [encode]

/-- A text written as UTF-8 is read back, whatever follows it. -/
lemma decode_encode_append (text : Text) (bytes : Bytes) :
    decode (encode text ++ bytes) = text ++ decode bytes := by
  unfold decode
  induction text with
  | nil => rfl
  | cons c text ih =>
    rw [encode_cons, List.append_assoc, decodeFrom_encodeChar, ih, List.cons_append]

theorem decode_encode_text (text : Text) : decode (encode text) = text := by
  simpa using decode_encode_append text []

lemma encode_injective : Function.Injective encode :=
  Function.LeftInverse.injective decode_encode_text

/-! ### Bytes below 128 -/

/-- A byte below 128 is a character of its own. -/
lemma mem_of_mem_encode {b : UInt8} (h : b ∈ encode text) (hb : b.toNat < 128) :
    Char.ofNat b.toNat ∈ text := by
  obtain ⟨c, hmem, hbyte⟩ := List.mem_flatMap.1 h
  obtain ⟨v, hv⟩ : ∃ v, c.val.toNat = v := ⟨_, rfl⟩
  have hc : Char.ofNat v = c := by rw [← hv]; exact Char.ofNat_toNat c
  -- the bytes of a longer sequence are all above
  have hlow : ∀ {k : Nat}, b = UInt8.ofNat k → k < 256 → k < 128 := by
    rintro k rfl hk
    rwa [toNat_ofNat hk] at hb
  simp only [String.utf8EncodeChar, hv] at hbyte
  split at hbyte
  · obtain rfl := List.mem_singleton.1 hbyte
    rwa [toNat_ofNat (by omega), hc]
  · exfalso
    split at hbyte
    · simp only [List.mem_cons, List.not_mem_nil, or_false] at hbyte
      rcases hbyte with h | h <;> have := hlow h (by omega) <;> omega
    split at hbyte
    · simp only [List.mem_cons, List.not_mem_nil, or_false] at hbyte
      rcases hbyte with h | h | h <;> have := hlow h (by omega) <;> omega
    · simp only [List.mem_cons, List.not_mem_nil, or_false] at hbyte
      rcases hbyte with h | h | h | h <;> have := hlow h (by omega) <;> omega

lemma not_mem_encode {b : UInt8} (h : Char.ofNat b.toNat ∉ text) (hb : b.toNat < 128) :
    b ∉ encode text :=
  fun hmem => h (mem_of_mem_encode hmem hb)

lemma encode_ofNat (hb : b < 128) : encode [Char.ofNat b] = [UInt8.ofNat b] := by
  have hval : (Char.ofNat b).val.toNat = b := Text.toNat_ofNat_of_lt (by omega)
  rw [encode_cons, String.utf8EncodeChar, hval, if_pos (by omega)]
  rfl

/-- The first character of a text is the first byte, where one of the two is below 128. -/
lemma head?_encode_iff {b : UInt8} (hb : b.toNat < 128) :
    (encode text).head? = some b ↔ text.head? = some (Char.ofNat b.toNat) := by
  rcases text with _ | ⟨c, rest⟩
  · simp
  · have hne : encode [c] ≠ [] := by simp [encode, String.utf8EncodeChar_ne_nil]
    have hbytes : encode (c :: rest) = encode [c] ++ encode rest := encode_append [c] rest
    rw [hbytes, List.head?_append_of_ne_nil _ hne, List.head?_cons, Option.some.injEq]
    constructor
    · intro hhead
      have hmem := mem_of_mem_encode (List.mem_of_head? hhead) hb
      exact (List.mem_singleton.1 hmem).symm
    · rintro rfl
      rw [encode_ofNat hb, UInt8.ofNat_toNat]
      rfl

/-- The last character of a text is the last byte, where one of the two is below 128. -/
lemma getLast?_encode_iff {b : UInt8} (hb : b.toNat < 128) :
    (encode text).getLast? = some b ↔ text.getLast? = some (Char.ofNat b.toNat) := by
  rcases text.eq_nil_or_concat' with rfl | ⟨front, c, rfl⟩
  · simp
  · have hne : encode [c] ≠ [] := by simp [encode, String.utf8EncodeChar_ne_nil]
    rw [encode_append, List.getLast?_append_of_ne_nil _ hne, List.getLast?_concat,
      Option.some.injEq]
    constructor
    · intro hlast
      have hmem := mem_of_mem_encode (List.mem_of_getLast? hlast) hb
      exact (List.mem_singleton.1 hmem).symm
    · rintro rfl
      rw [encode_ofNat hb, UInt8.ofNat_toNat]
      rfl

/-- The bytes of an ASCII text are its characters. -/
lemma encode_of_ascii (h : ∀ c ∈ text, c.toNat < 128) :
    encode text = text.map fun c => UInt8.ofNat c.toNat := by
  induction text with
  | nil => rfl
  | cons c text ih =>
    have hc : c.val.toNat ≤ 0x7f := Nat.le_of_lt_succ (h c List.mem_cons_self)
    have hchar : String.utf8EncodeChar c = [UInt8.ofNat c.toNat] := by
      rw [String.utf8EncodeChar, if_pos hc]
      rfl
    rw [encode_cons, hchar, ih fun c hmem => h c (List.mem_cons_of_mem _ hmem)]
    rfl

lemma toNat_lt_of_mem_encode (h : ∀ c ∈ text, c.toNat < 128) {b : UInt8} (hb : b ∈ encode text) :
    b.toNat < 128 := by
  rw [encode_of_ascii h] at hb
  obtain ⟨c, hmem, rfl⟩ := List.mem_map.1 hb
  have hc := h c hmem
  rwa [toNat_ofNat (by omega)]

lemma ofBytes_encode (h : ∀ c ∈ text, c.toNat < 128) : Text.ofBytes (encode text) = text := by
  rw [← decode_of_ascii fun b hb => toNat_lt_of_mem_encode h hb, decode_encode_text]

end Utf8

end SiteServer
