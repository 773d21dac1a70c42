import SiteServer.Proofs.Paths.Bytes

/-!
# Texts that are cut to a limit

What a header line says is kept up to a number of bytes.  The cut is made in the bytes: from the
limit it goes down, byte by byte, to an offset at which a character begins.  One begins at the
offset zero, so the way down ends there at the latest and never goes below, and at the offset that
is found a cut can be made.  What is left is the longest beginning of the text that fits
(`capped?_encode`).
-/

namespace SiteServer.Utf8

variable {value kept other front : Text} {bytes : Bytes} {c : Char} {limit offset : Nat}

/-- The last offset up to a given one at which a character begins, found on the way down.  There is
nothing below zero. -/
def boundaryBelow? (bytes : Bytes) : Nat → Option Nat
  | 0 => if isBoundary bytes 0 then some 0 else none
  | offset + 1 =>
    if isBoundary bytes (offset + 1) then some (offset + 1) else boundaryBelow? bytes offset

/-- The bytes up to an offset, which may not lie inside a character. -/
def sliceTo? (bytes : Bytes) (offset : Nat) : Option Bytes :=
  if isBoundary bytes offset then some (bytes.take offset) else none

/-- The bytes cut to a limit. -/
def capped? (limit : Nat) (bytes : Bytes) : Option Bytes :=
  if bytes.length ≤ limit then some bytes
  else (boundaryBelow? bytes limit).bind (sliceTo? bytes)

/-- `kept` is the longest beginning of a text with at most so many bytes. -/
structure IsCap (limit : Nat) (value kept : Text) : Prop where
  isPrefix : kept <+: value
  length_le : (encode kept).length ≤ limit
  longest : ∀ other, other <+: value → (encode other).length ≤ limit → other <+: kept

/-! ### The longest beginning -/

lemma IsCap.unique (h : IsCap limit value kept) (h' : IsCap limit value other) : kept = other := by
  have hle := h'.longest kept h.isPrefix h.length_le
  have hge := h.longest other h'.isPrefix h'.length_le
  exact hle.eq_of_length_le hge.length_le

lemma isCap_cut (limit : Nat) (value : Text) : IsCap limit value (cut limit value) := by
  constructor
  · exact cut_prefix limit value
  · rw [length_encode]
    exact size_cut_le limit value
  · intro other hprefix hlength
    rw [length_encode] at hlength
    induction value generalizing limit other with
    | nil => rwa [cut]
    | cons c rest ih =>
      rcases other with _ | ⟨d, other⟩
      · exact List.nil_prefix
      · obtain ⟨rfl, hrest⟩ := List.cons_prefix_cons.1 hprefix
        rw [size_cons] at hlength
        rw [cut, if_pos (by omega), List.cons_prefix_cons]
        exact ⟨rfl, ih (limit - d.utf8Size) other hrest (by omega)⟩

lemma isCap_iff : IsCap limit value kept ↔ cut limit value = kept := by
  constructor
  · intro h
    exact (isCap_cut limit value).unique h
  · rintro rfl
    exact isCap_cut limit value

/-- Of two beginnings the one with fewer bytes is a beginning of the other. -/
lemma prefix_of_length_encode_le (h : kept <+: value) (h' : other <+: value)
    (hle : (encode kept).length ≤ (encode other).length) : kept <+: other := by
  rcases List.prefix_or_prefix_of_prefix h h' with hprefix | ⟨more, rfl⟩
  · exact hprefix
  · rw [encode_append, List.length_append] at hle
    have hmore : encode more = encode [] := List.eq_nil_of_length_eq_zero (by omega)
    obtain rfl : more = [] := encode_injective hmore
    exact ⟨[], by simp⟩

/-! ### Where characters begin -/

/-- Behind the first byte of a character there are continuation bytes. -/
lemma isContinuation_of_mem_tail {b : UInt8} (h : b ∈ (String.utf8EncodeChar c).tail) :
    0x80 ≤ b.toNat ∧ b.toNat < 0xC0 := by
  have hbyte : ∀ k, b = UInt8.ofNat (k % 64 + 0x80) → 0x80 ≤ b.toNat ∧ b.toNat < 0xC0 := by
    rintro k rfl
    rw [toNat_ofNat (by omega)]
    omega
  simp only [String.utf8EncodeChar] at h
  -- a character has one byte, two, three or four
  split at h
  · simp at h
  split at h
  · simp only [List.tail_cons, List.mem_cons, List.not_mem_nil, or_false] at h
    exact hbyte _ h
  split at h
  · simp only [List.tail_cons, List.mem_cons, List.not_mem_nil, or_false] at h
    rcases h with h | h <;> exact hbyte _ h
  · simp only [List.tail_cons, List.mem_cons, List.not_mem_nil, or_false] at h
    rcases h with h | h | h <;> exact hbyte _ h

@[simp] lemma isBoundary_zero (bytes : Bytes) : isBoundary bytes 0 = true := by
  rcases bytes with _ | ⟨b, rest⟩ <;> simp [isBoundary]

/-- No character begins inside another one. -/
lemma le_of_isBoundary (h : isBoundary (encode (c :: value)) offset = true) :
    offset = 0 ∨ (encode [c]).length ≤ offset := by
  by_contra hinside
  obtain ⟨hpos, hlt⟩ := not_or.1 hinside
  rw [encode_cons, encode_nil, List.append_nil, Nat.not_le] at hlt
  -- the byte at an offset inside the character is one of its continuation bytes
  obtain ⟨offset, rfl⟩ := Nat.exists_eq_succ_of_ne_zero hpos
  have hnext : (encode (c :: value))[offset + 1]? = some (String.utf8EncodeChar c)[offset + 1] := by
    rw [encode_cons, List.getElem?_append_left hlt, List.getElem?_eq_getElem hlt]
  have hmem : (String.utf8EncodeChar c)[offset + 1] ∈ (String.utf8EncodeChar c).tail := by
    have htail : offset < (String.utf8EncodeChar c).tail.length := by
      rw [List.length_tail]
      omega
    rw [← List.getElem_tail htail]
    exact List.getElem_mem _
  have hbyte := isContinuation_of_mem_tail hmem
  simp only [isBoundary, hnext, Bool.or_eq_true, decide_eq_true_eq] at h
  omega

/-- Behind a character the offsets count on. -/
lemma isBoundary_cons (c : Char) (value : Text) (offset : Nat) :
    isBoundary (encode (c :: value)) ((encode [c]).length + offset)
      = isBoundary (encode value) offset := by
  have hbytes : encode (c :: value) = encode [c] ++ encode value := encode_append [c] value
  rw [hbytes]
  rcases offset with _ | offset
  · rw [Nat.add_zero, isBoundary_encode, isBoundary_zero]
  · have hget : (encode [c] ++ encode value)[(encode [c]).length + (offset + 1)]?
        = (encode value)[offset + 1]? := by
      rw [List.getElem?_append_right (by omega), Nat.add_sub_cancel_left]
    unfold isBoundary
    rw [hget, List.length_append]
    cases (encode value)[offset + 1]? with
    | none => simp only [Nat.add_left_cancel_iff]
    | some b =>
      have hne : (encode [c]).length + (offset + 1) ≠ 0 := by omega
      simp only [hne, Nat.succ_ne_zero]

/-- Characters begin behind the beginnings of a text, and nowhere else. -/
lemma isBoundary_iff : isBoundary (encode value) offset = true ↔
    ∃ front, front <+: value ∧ (encode front).length = offset := by
  constructor
  · intro h
    induction value generalizing offset with
    | nil =>
      have hzero : offset = 0 := of_decide_eq_true h
      exact ⟨[], List.nil_prefix, hzero.symm⟩
    | cons c value ih =>
      rcases le_of_isBoundary h with rfl | hle
      · exact ⟨[], List.nil_prefix, rfl⟩
      · obtain ⟨offset, rfl⟩ := Nat.exists_eq_add_of_le hle
        rw [isBoundary_cons] at h
        obtain ⟨front, hprefix, hlength⟩ := ih h
        refine ⟨c :: front, List.cons_prefix_cons.2 ⟨rfl, hprefix⟩, ?_⟩
        have hbytes : encode (c :: front) = encode [c] ++ encode front := encode_append [c] front
        rw [hbytes, List.length_append, hlength]
  · rintro ⟨front, ⟨rest, rfl⟩, rfl⟩
    rw [encode_append]
    exact isBoundary_encode front rest

/-! ### The cut in the bytes -/

/-- The way down ends at the last offset where a character begins, and never below zero. -/
lemma exists_boundaryBelow? (bytes : Bytes) (limit : Nat) :
    ∃ offset, boundaryBelow? bytes limit = some offset ∧ offset ≤ limit ∧
      isBoundary bytes offset = true ∧
      ∀ other ≤ limit, isBoundary bytes other = true → other ≤ offset := by
  induction limit with
  | zero =>
    refine ⟨0, ?_, Nat.le_refl 0, isBoundary_zero bytes, ?_⟩
    · rw [boundaryBelow?, if_pos (isBoundary_zero bytes)]
    · intro other hle _
      exact hle
  | succ limit ih =>
    by_cases hhere : isBoundary bytes (limit + 1) = true
    · refine ⟨limit + 1, ?_, Nat.le_refl _, hhere, ?_⟩
      · rw [boundaryBelow?, if_pos hhere]
      · intro other hle _
        exact hle
    · obtain ⟨offset, hfound, hle, hboundary, hlast⟩ := ih
      refine ⟨offset, ?_, Nat.le_succ_of_le hle, hboundary, ?_⟩
      · rw [boundaryBelow?, if_neg hhere, hfound]
      · intro other hother hbegins
        have hne : other ≠ limit + 1 := by
          rintro rfl
          exact hhere hbegins
        exact hlast other (by omega) hbegins

/-- **Cutting.**  The bytes of a text that are kept are those of its longest beginning that fits. -/
theorem capped?_encode (limit : Nat) (value : Text) :
    capped? limit (encode value) = some (encode (cut limit value)) := by
  unfold capped?
  split
  · next hle =>
    rw [length_encode] at hle
    rw [cut_of_size_le hle]
  · obtain ⟨offset, hfound, hle, hboundary, hlast⟩ := exists_boundaryBelow? (encode value) limit
    obtain ⟨front, ⟨rest, rfl⟩, rfl⟩ := isBoundary_iff.1 hboundary
    have hcap : IsCap limit (front ++ rest) front := by
      refine ⟨List.prefix_append _ _, hle, ?_⟩
      intro other hother hlength
      refine prefix_of_length_encode_le hother (List.prefix_append _ _) ?_
      exact hlast _ hlength (isBoundary_iff.2 ⟨other, hother, rfl⟩)
    rw [hfound, Option.bind_some, sliceTo?, if_pos hboundary, isCap_iff.1 hcap, encode_append,
      List.take_left]

end SiteServer.Utf8
