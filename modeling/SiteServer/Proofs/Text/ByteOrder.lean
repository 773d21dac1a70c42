import SiteServer.Proofs.Text.ReadBack

/-!
# The order of texts and of their bytes

Texts are ordered character by character.  UTF-8 keeps this order: a character with more bytes has a
greater first byte, and of two characters with equally many bytes the one with the first greater
digit has the first greater byte.  So the bytes of two texts are ordered as the texts are
(`encode_lt_encode`).
-/

namespace SiteServer.Utf8

variable {a b : Nat} {c d : Char} {x y : Bytes} {first later : Text}

/-- Of two lists of bytes the first difference decides. -/
lemma cons_lt_cons (hle : a ≤ b) (hb : b < 256) (hxy : a = b → x < y) :
    UInt8.ofNat a :: x < UInt8.ofNat b :: y := by
  rw [List.cons_lt_cons_iff, UInt8.lt_iff_toNat_lt, toNat_ofNat (by omega), toNat_ofNat hb]
  rcases Nat.lt_or_eq_of_le hle with hlt | heq
  · exact .inl hlt
  · exact .inr ⟨by rw [heq], hxy heq⟩

/-- The bytes of a smaller character come first, whatever follows. -/
lemma encodeChar_append_lt (h : c < d) (x y : Bytes) :
    String.utf8EncodeChar c ++ x < String.utf8EncodeChar d ++ y := by
  obtain ⟨v, hv⟩ : ∃ v, c.val.toNat = v := ⟨_, rfl⟩
  obtain ⟨w, hw⟩ : ∃ w, d.val.toNat = w := ⟨_, rfl⟩
  have hlt : v < w := by
    rw [← hv, ← hw]
    exact Char.lt_def.1 h
  have hbound : w < 0x110000 := by
    have hvalid : d.val.toNat < 0xD800 ∨ 0xDFFF < d.val.toNat ∧ d.val.toNat < 0x110000 := d.valid
    omega
  simp only [String.utf8EncodeChar, hv, hw]
  -- the cases are the numbers of bytes; where they differ the first bytes do
  split
  · repeat' split
    all_goals exact cons_lt_cons (by omega) (by omega) fun _ => by omega
  rw [if_neg (show ¬ w ≤ 0x7f by omega)]
  split
  · split
    · exact cons_lt_cons (by omega) (by omega) fun _ =>
        cons_lt_cons (by omega) (by omega) fun _ => by omega
    · split <;> exact cons_lt_cons (by omega) (by omega) fun _ => by omega
  rw [if_neg (show ¬ w ≤ 0x7ff by omega)]
  split
  · split
    · exact cons_lt_cons (by omega) (by omega) fun _ =>
        cons_lt_cons (by omega) (by omega) fun _ =>
        cons_lt_cons (by omega) (by omega) fun _ => by omega
    · exact cons_lt_cons (by omega) (by omega) fun _ => by omega
  · rw [if_neg (show ¬ w ≤ 0xffff by omega)]
    exact cons_lt_cons (by omega) (by omega) fun _ =>
      cons_lt_cons (by omega) (by omega) fun _ =>
      cons_lt_cons (by omega) (by omega) fun _ =>
      cons_lt_cons (by omega) (by omega) fun _ => by omega

/-- **UTF-8 keeps the order of texts.** -/
theorem encode_lt_encode (h : first < later) : encode first < encode later := by
  induction first generalizing later with
  | nil =>
    rcases later with _ | ⟨d, later⟩
    · exact absurd h (List.not_lt_nil _)
    · have hne : String.utf8EncodeChar d ≠ [] := String.utf8EncodeChar_ne_nil
      obtain ⟨byte, bytes, hbytes⟩ := List.exists_cons_of_ne_nil hne
      rw [encode_cons, hbytes]
      exact List.nil_lt_cons _ _
  | cons c first ih =>
    rcases later with _ | ⟨d, later⟩
    · exact absurd h (List.not_lt_nil _)
    · rw [encode_cons, encode_cons]
      rcases List.cons_lt_cons_iff.1 h with hlt | ⟨rfl, hrest⟩
      · exact encodeChar_append_lt hlt _ _
      · exact List.append_left_lt (ih hrest)

end SiteServer.Utf8
