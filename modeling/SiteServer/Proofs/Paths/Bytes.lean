import SiteServer.Proofs.Paths.Condensing
import SiteServer.Proofs.Text.ReadBack

/-!
# Paths byte by byte

The system takes a file path as bytes, and a document root need not be UTF-8.  `rawPath` builds the
file path of a request from the bytes of the root.  Under the contained policy names are pushed
onto it; under the compatible policy `scan` goes over the UTF-8 bytes of the request, and each time
it has seen what stands first, it cuts the bytes off behind it.  A cut inside a character would be a
failure.  There is none: behind every piece of text that the scan looks at a character begins, and
for a root in UTF-8 the result is the file path as it is built from characters
(`rawPath_encode`).
-/

namespace SiteServer

namespace Utf8

variable {text front rest pattern : Text} {bytes left : Bytes} {offset : Nat}

/-! ### Cutting between characters -/

/-- Whether a character begins at an offset, or the bytes end there. -/
def isBoundary (bytes : Bytes) (offset : Nat) : Bool :=
  match bytes[offset]? with
  | some b => offset = 0 || b.toNat < 0x80 || 0xC0 ≤ b.toNat
  | none => offset = bytes.length

/-- The bytes from an offset on, which may not lie inside a character. -/
def sliceFrom? (bytes : Bytes) (offset : Nat) : Option Bytes :=
  if isBoundary bytes offset then some (bytes.drop offset) else none

/-- The number of bytes of the character that some bytes begin with. -/
def charLength : Bytes → Nat
  | [] => 0
  | b :: _ =>
    if b.toNat < 0x80 then 1 else if b.toNat < 0xE0 then 2 else if b.toNat < 0xF0 then 3 else 4

lemma charLength_pos (h : bytes ≠ []) : 0 < charLength bytes := by
  rcases bytes with _ | ⟨b, more⟩
  · exact absurd rfl h
  · rw [charLength]
    split
    · decide
    · split
      · decide
      · split <;> decide

lemma length_lt_of_sliceFrom? (hne : bytes ≠ []) (hpos : 0 < offset)
    (h : sliceFrom? bytes offset = some left) : left.length < bytes.length := by
  unfold sliceFrom? at h
  split at h
  · obtain rfl := Option.some.inj h
    have hlength := List.length_pos_iff.2 hne
    rw [List.length_drop]
    omega
  · simp at h

/-- What the first byte of a character says about how many follow. -/
lemma lead_of_ofNat {lead : Nat} {more : Bytes} (hbyte : lead < 256)
    (hmore : lead < 0x80 ∧ more.length = 0 ∨ 0xC0 ≤ lead ∧ lead < 0xE0 ∧ more.length = 1 ∨
      0xE0 ≤ lead ∧ lead < 0xF0 ∧ more.length = 2 ∨ 0xF0 ≤ lead ∧ more.length = 3) :
    ∃ b behind, UInt8.ofNat lead :: more = b :: behind ∧ (b.toNat < 0x80 ∨ 0xC0 ≤ b.toNat) ∧
      ∀ bytes, charLength (b :: bytes) = (UInt8.ofNat lead :: more).length := by
  refine ⟨_, more, rfl, ?_, fun bytes => ?_⟩
  · rw [toNat_ofNat hbyte]
    omega
  · rw [charLength, toNat_ofNat hbyte, List.length_cons]
    split
    · omega
    · split
      · omega
      · split <;> omega

/-- The first byte of a character tells how many bytes it has, and is no continuation byte. -/
lemma exists_lead (c : Char) :
    ∃ b more, String.utf8EncodeChar c = b :: more ∧ (b.toNat < 0x80 ∨ 0xC0 ≤ b.toNat) ∧
      ∀ bytes, charLength (b :: bytes) = (String.utf8EncodeChar c).length := by
  have hvalid : c.toNat < 0xD800 ∨ 0xDFFF < c.toNat ∧ c.toNat < 0x110000 := c.valid
  obtain ⟨v, hv⟩ : ∃ v, c.toNat = v := ⟨_, rfl⟩
  have hval : c.val.toNat = v := hv
  rw [hv] at hvalid
  simp only [String.utf8EncodeChar, hval]
  split
  · exact lead_of_ofNat (by omega) (.inl ⟨by omega, rfl⟩)
  split
  · exact lead_of_ofNat (by omega) (.inr (.inl ⟨by omega, by omega, rfl⟩))
  split
  · exact lead_of_ofNat (by omega) (.inr (.inr (.inl ⟨by omega, by omega, rfl⟩)))
  · exact lead_of_ofNat (by omega) (.inr (.inr (.inr ⟨by omega, rfl⟩)))

lemma isBoundary_encode (front rest : Text) :
    isBoundary (encode front ++ encode rest) (encode front).length = true := by
  rcases rest with _ | ⟨c, rest⟩
  · simp [isBoundary]
  · obtain ⟨b, more, hchar, hlead, -⟩ := exists_lead c
    have hnext : (encode front ++ encode (c :: rest))[(encode front).length]? = some b := by
      rw [List.getElem?_append_right (Nat.le_refl _), Nat.sub_self, encode_cons, hchar]
      rfl
    simp only [isBoundary, hnext, Bool.or_eq_true, decide_eq_true_eq]
    rcases hlead with hlow | hhigh
    · exact .inl (.inr hlow)
    · exact .inr hhigh

lemma charLength_encode (c : Char) (text : Text) :
    charLength (encode (c :: text)) = (encode [c]).length := by
  obtain ⟨b, more, hchar, -, hlength⟩ := exists_lead c
  rw [encode_cons, hchar, List.cons_append, hlength, encode_cons, encode_nil, List.append_nil]

/-- Behind the bytes of a text that stands in front a cut can be made. -/
lemma sliceFrom?_encode (front rest : Text) :
    sliceFrom? (encode (front ++ rest)) (encode front).length = some (encode rest) := by
  rw [sliceFrom?, encode_append, if_pos (isBoundary_encode front rest), List.drop_left]

/-- The bytes begin with those of a text exactly when this text stands in front. -/
lemma encode_isPrefixOf (pattern text : Text) :
    (encode pattern).isPrefixOf (encode text) = pattern.isPrefixOf text := by
  rw [Bool.eq_iff_iff, List.isPrefixOf_iff_prefix, List.isPrefixOf_iff_prefix]
  constructor
  · rintro ⟨more, hmore⟩
    have htext : pattern ++ decode more = text := by
      rw [← decode_encode_append, hmore, decode_encode_text]
    exact ⟨decode more, htext⟩
  · rintro ⟨rest, rfl⟩
    exact ⟨encode rest, (encode_append pattern rest).symm⟩

end Utf8

namespace Path

/-- The path of `child` seen from `base`, in bytes. -/
def joinBytes (base child : Bytes) : Bytes :=
  if child.head? = some 47 then child
  else if base = [] ∨ base.getLast? = some 47 then base ++ child
  else base ++ 47 :: child

lemma encode_join (base child : Text) :
    Utf8.encode (join base child) = joinBytes (Utf8.encode base) (Utf8.encode child) := by
  have hchild : (Utf8.encode child).head? = some 47 ↔ isAbsolute child = true := by
    rw [Utf8.head?_encode_iff (by decide), isAbsolute, decide_eq_true_eq]
    rfl
  have hnil : Utf8.encode base = [] ↔ base = [] :=
    ⟨fun h => Utf8.encode_injective h, fun h => h ▸ rfl⟩
  have hbase : (Utf8.encode base).getLast? = some 47 ↔ base.getLast? = some '/' :=
    Utf8.getLast?_encode_iff (by decide)
  simp only [join, joinBytes, hchild, hnil, hbase]
  split
  · rfl
  · split
    · rw [Utf8.encode_append]
    · rw [Utf8.encode_append, Utf8.encode_cons]
      rfl

lemma foldl_joinBytes_encode (names : List Text) (base : Text) :
    (names.map Utf8.encode).foldl joinBytes (Utf8.encode base)
      = Utf8.encode (joinAll base names) := by
  induction names generalizing base with
  | nil => rfl
  | cons name rest ih =>
    rw [List.map_cons, List.foldl_cons, ← encode_join, ih]
    rfl

lemma ofBytes_joinBytes (base child : Bytes) :
    Text.ofBytes (joinBytes base child) = join (Text.ofBytes base) (Text.ofBytes child) := by
  have hchar : ∀ {b : UInt8}, Char.ofNat b.toNat = '/' ↔ b = 47 := fun {b} =>
    Text.ofNat_toNat_inj (b := 47)
  have hchild : isAbsolute (Text.ofBytes child) = true ↔ child.head? = some 47 := by
    rw [isAbsolute, decide_eq_true_eq, Text.ofBytes, List.head?_map, Option.map_eq_some_iff]
    simp [hchar]
  have hnil : Text.ofBytes base = [] ↔ base = [] := List.map_eq_nil_iff
  have hbase : (Text.ofBytes base).getLast? = some '/' ↔ base.getLast? = some 47 := by
    rw [Text.ofBytes, List.getLast?_map, Option.map_eq_some_iff]
    simp [hchar]
  simp only [join, joinBytes, hchild, hnil, hbase]
  split
  · rfl
  · split <;> simp [Text.ofBytes]

lemma ofBytes_foldl_joinBytes (names : List Bytes) (base : Bytes) :
    Text.ofBytes (names.foldl joinBytes base)
      = joinAll (Text.ofBytes base) (names.map Text.ofBytes) := by
  induction names generalizing base with
  | nil => rfl
  | cons name rest ih =>
    rw [List.foldl_cons, ih, ofBytes_joinBytes]
    rfl

end Path

namespace Target

/-! ### The scan -/

/-- What the scan does with what stands first: the bytes that it puts out and the number of bytes
that it goes on by. -/
structure Cut where
  put : Bytes
  length : Nat

/-- What stands first in the bytes that are left. -/
def cutOf (bytes : Bytes) : Cut :=
  if (Utf8.encode ['.', '/']).isPrefixOf bytes then ⟨[], 2⟩
  else if (Utf8.encode ['.', '.', '/']).isPrefixOf bytes then ⟨[], 3⟩
  else if (Utf8.encode ['%', '2', '0']).isPrefixOf bytes then ⟨Utf8.encode [' '], 3⟩
  else if (Utf8.encode ['/', '/']).isPrefixOf bytes then ⟨Utf8.encode ['/'], 2⟩
  else ⟨bytes.take (Utf8.charLength bytes), Utf8.charLength bytes⟩

lemma length_cutOf_pos {bytes : Bytes} (h : bytes ≠ []) : 0 < (cutOf bytes).length := by
  unfold cutOf
  repeat' split
  all_goals first | exact Utf8.charLength_pos h | decide

/-- Going over the bytes that are left, behind those that have been put out; nothing comes of it
when a cut falls inside a character. -/
def scan (out left : Bytes) : Option Bytes :=
  match left with
  | [] => some out
  | first :: more =>
    match _h : Utf8.sliceFrom? (first :: more) (cutOf (first :: more)).length with
    | none => none
    | some left => scan (out ++ (cutOf (first :: more)).put) left
termination_by left.length
decreasing_by exact Utf8.length_lt_of_sliceFrom? (by simp) (length_cutOf_pos (by simp)) _h

/-- One cut and the scan of what is left. -/
lemma scan_of_cut {front put rest more : Text} (hne : front ≠ [])
    (hcut : cutOf (Utf8.encode (front ++ rest)) = ⟨Utf8.encode put, (Utf8.encode front).length⟩)
    (hrest : ∀ out, scan out (Utf8.encode rest) = some (out ++ Utf8.encode more)) (out : Bytes) :
    scan out (Utf8.encode (front ++ rest)) = some (out ++ Utf8.encode (put ++ more)) := by
  have hslice := Utf8.sliceFrom?_encode front rest
  have hbytes : Utf8.encode (front ++ rest) ≠ [] := by
    obtain ⟨c, more, rfl⟩ := List.exists_cons_of_ne_nil hne
    rw [List.cons_append, Utf8.encode_cons]
    simp [String.utf8EncodeChar_ne_nil]
  generalize Utf8.encode (front ++ rest) = bytes at hcut hslice hbytes ⊢
  obtain ⟨first, left, rfl⟩ := List.exists_cons_of_ne_nil hbytes
  rw [scan]
  split
  · next hnone =>
    rw [hcut, hslice] at hnone
    simp at hnone
  · next hsome =>
    rw [hcut, hslice] at hsome
    rw [hcut, ← Option.some.inj hsome, hrest, Utf8.encode_append, List.append_assoc]

/-- A character that opens none of the patterns is copied. -/
lemma cutOf_of_not_prefix {c : Char} {rest : Text} (hhere : ¬ ['.', '/'] <+: c :: rest)
    (habove : ¬ ['.', '.', '/'] <+: c :: rest) (hspace : ¬ ['%', '2', '0'] <+: c :: rest)
    (hslashes : ¬ ['/', '/'] <+: c :: rest) :
    cutOf (Utf8.encode (c :: rest)) = ⟨Utf8.encode [c], (Utf8.encode [c]).length⟩ := by
  have hbytes : Utf8.encode (c :: rest) = Utf8.encode [c] ++ Utf8.encode rest :=
    Utf8.encode_append [c] rest
  simp only [cutOf, Utf8.encode_isPrefixOf, List.isPrefixOf_iff_prefix, hhere, habove, hspace,
    hslashes, if_false, Utf8.charLength_encode]
  rw [hbytes, List.take_left]

/-- No cut of the scan falls inside a character: behind what has been put out it puts the UTF-8 form
of the condensed text. -/
theorem scan_encode (out : Bytes) (text : Text) :
    scan out (Utf8.encode text) = some (out ++ Utf8.encode (condense text)) := by
  fun_induction condense text generalizing out with
  | case1 rest ih =>
    have hcut : cutOf (Utf8.encode (['.', '/'] ++ rest)) = ⟨Utf8.encode [], 2⟩ := by
      simp [cutOf, Utf8.encode_isPrefixOf, List.isPrefixOf]
    exact scan_of_cut (by simp) hcut ih out
  | case2 rest ih =>
    have hcut : cutOf (Utf8.encode (['.', '.', '/'] ++ rest)) = ⟨Utf8.encode [], 3⟩ := by
      simp [cutOf, Utf8.encode_isPrefixOf, List.isPrefixOf]
    exact scan_of_cut (by simp) hcut ih out
  | case3 rest ih =>
    have hcut : cutOf (Utf8.encode (['%', '2', '0'] ++ rest)) = ⟨Utf8.encode [' '], 3⟩ := by
      simp [cutOf, Utf8.encode_isPrefixOf, List.isPrefixOf]
    exact scan_of_cut (by simp) hcut ih out
  | case4 rest ih =>
    have hcut : cutOf (Utf8.encode (['/', '/'] ++ rest)) = ⟨Utf8.encode ['/'], 2⟩ := by
      simp [cutOf, Utf8.encode_isPrefixOf, List.isPrefixOf]
    exact scan_of_cut (by simp) hcut ih out
  | case5 c rest hhere habove hspace hslashes ih =>
    have hcut : cutOf (Utf8.encode ([c] ++ rest))
        = ⟨Utf8.encode [c], (Utf8.encode [c]).length⟩ := by
      refine cutOf_of_not_prefix ?_ ?_ ?_ ?_ <;> rintro ⟨more, hmore⟩ <;>
        simp only [List.cons_append, List.nil_append, List.cons.injEq] at hmore
      · exact hhere more hmore.1.symm hmore.2.symm
      · exact habove more hmore.1.symm hmore.2.symm
      · exact hspace more hmore.1.symm hmore.2.symm
      · exact hslashes more hmore.1.symm hmore.2.symm
    exact scan_of_cut (by simp) hcut ih out
  | case6 => simp [scan]

/-! ### File paths in bytes -/

/-- The file path of a request below a root that is given by its bytes; there is none when a cut
falls inside a character. -/
def rawPath (policy : Policy) (root : Bytes) (requested : Text) : Option Bytes :=
  match policy with
  | .contained => some (((segments requested).map Utf8.encode).foldl Path.joinBytes root)
  | .compatible => scan (Utf8.encode (Utf8.decode root)) (Utf8.encode requested)

/-- Below a root in UTF-8 the bytes are those of the file path. -/
theorem rawPath_encode (policy : Policy) (root requested : Text) :
    rawPath policy (Utf8.encode root) requested
      = some (Utf8.encode (filePath policy root requested)) := by
  cases policy with
  | contained =>
    show some _ = some _
    rw [Path.foldl_joinBytes_encode]
    rfl
  | compatible =>
    show scan _ _ = some _
    rw [Utf8.decode_encode_text, scan_encode, ← Utf8.encode_append]
    rfl

/-! ### Names in bytes -/

/-- The bytes of a name are a name. -/
lemma isName_ofBytes {name : Text} (h : Path.IsName name) :
    Path.IsName (Text.ofBytes (Utf8.encode name)) := by
  have hne {text : Text} (ascii : ∀ c ∈ text, c.toNat < 128) (hne : name ≠ text) :
      Text.ofBytes (Utf8.encode name) ≠ text := fun heq => by
    rw [← Utf8.ofBytes_encode ascii] at heq
    exact hne (Utf8.encode_injective (Text.ofBytes_injective heq))
  refine ⟨hne (by simp) h.ne_nil, fun hmem => ?_, hne (by simp [Path.here]) h.ne_here,
    hne (by simp [Path.above]) h.ne_above⟩
  obtain ⟨b, hb, hslash⟩ := List.mem_map.1 hmem
  obtain rfl : b = 47 := Text.ofNat_toNat_inj.1 hslash
  exact h.slash_not_mem (Utf8.mem_of_mem_encode hb (by decide))

/-- The segments of a request as they are pushed, byte for byte. -/
def rawNames (requested : Text) : List Text :=
  (segments requested).map fun name => Text.ofBytes (Utf8.encode name)

lemma isName_of_mem_rawNames {requested name : Text} (h : name ∈ rawNames requested) :
    Path.IsName name := by
  obtain ⟨segment, hmem, rfl⟩ := List.mem_map.1 h
  exact isName_ofBytes (isName_of_mem_segments hmem)

lemma rawNames_inj {requested other : Text} :
    rawNames requested = rawNames other ↔ segments requested = segments other :=
  (List.map_injective_iff.2 fun _ _ h =>
    Utf8.encode_injective (Text.ofBytes_injective h)).eq_iff

/-- The bytes of a contained file path, one character a byte. -/
lemma exists_rawPath (root : Bytes) (requested : Text) :
    ∃ path, rawPath .contained root requested = some path ∧
      Text.ofBytes path = Path.joinAll (Text.ofBytes root) (rawNames requested) := by
  have hnames : rawNames requested
      = ((segments requested).map Utf8.encode).map Text.ofBytes := by
    rw [rawNames, List.map_map]
    rfl
  exact ⟨_, rfl, by rw [hnames, Path.ofBytes_foldl_joinBytes]⟩

/-! ### Routes are canonical -/

/-- The route of a request under the contained policy is its own route, in normal form, and requests
the same file, below whatever root. -/
structure IsCanonical (requested : Text) : Prop where
  route_route : route .contained (route .contained requested) = route .contained requested
  isNormal : IsNormal (route .contained requested)
  filePath_route : ∀ root : Text,
    filePath .contained root (route .contained requested) = filePath .contained root requested
  rawPath_route : ∀ root : Bytes,
    rawPath .contained root (route .contained requested) = rawPath .contained root requested

/-- Under the contained policy two requests have the same file path below a root, as a text, as a
path and byte for byte, exactly when their routes differ at most in a slash at the end. -/
structure ToldApart (requested other : Text) : Prop where
  filePath_iff : ∀ root : Text,
    filePath .contained root requested = filePath .contained root other ↔
      Alike (route .contained requested) (route .contained other)
  same_iff : ∀ root : Text,
    Path.Same (filePath .contained root requested) (filePath .contained root other) ↔
      Alike (route .contained requested) (route .contained other)
  rawPath_iff : ∀ root : Bytes, ∃ path path',
    rawPath .contained root requested = some path ∧ rawPath .contained root other = some path' ∧
      (path = path' ↔ Alike (route .contained requested) (route .contained other)) ∧
      (Path.Same (Text.ofBytes path) (Text.ofBytes path') ↔
        Alike (route .contained requested) (route .contained other))

lemma isCanonical (requested : Text) : IsCanonical requested where
  route_route := route_route requested
  isNormal := isNormal_route requested
  filePath_route root := by
    show Path.joinAll root (segments (route .contained requested))
      = Path.joinAll root (segments requested)
    rw [segments_route]
  rawPath_route root := by
    simp only [rawPath, segments_route]

lemma toldApart (requested other : Text) : ToldApart requested other where
  filePath_iff root := by
    rw [alike_route_iff]
    exact Path.joinAll_inj (fun _ => isName_of_mem_segments) (fun _ => isName_of_mem_segments) root
  same_iff root := by
    rw [alike_route_iff]
    exact Path.same_joinAll_iff (fun _ => isName_of_mem_segments)
      (fun _ => isName_of_mem_segments) root
  rawPath_iff root := by
    obtain ⟨path, hpath, hnames⟩ := exists_rawPath root requested
    obtain ⟨path', hpath', hnames'⟩ := exists_rawPath root other
    refine ⟨path, path', hpath, hpath', ?_, ?_⟩
    · rw [alike_route_iff, ← rawNames_inj, ← Text.ofBytes_injective.eq_iff, hnames, hnames']
      exact Path.joinAll_inj (fun _ => isName_of_mem_rawNames) (fun _ => isName_of_mem_rawNames) _
    · rw [alike_route_iff, ← rawNames_inj, hnames, hnames']
      exact Path.same_joinAll_iff (fun _ => isName_of_mem_rawNames)
        (fun _ => isName_of_mem_rawNames) _

/-- Under the contained policy routes are canonical for file paths.  Under the compatible policy the
file path is the root's text with the route behind it, whatever the root is; and byte by byte, where
the scan goes over the request behind the root for the one and behind nothing for the other, both
come out as they do from characters, with no cut inside a character.  That is so below a root that
is not UTF-8 too, which is decoded first. -/
theorem routes_canonical (requested other root : Text) (raw : Bytes) :
    IsCanonical requested ∧ ToldApart requested other ∧
      filePath .compatible root requested = root ++ route .compatible requested ∧
      scan [] (Utf8.encode requested) = some (Utf8.encode (route .compatible requested)) ∧
      rawPath .compatible (Utf8.encode root) requested
        = some (Utf8.encode root ++ Utf8.encode (route .compatible requested)) ∧
      rawPath .compatible raw requested
        = some (Utf8.encode (Utf8.decode raw ++ route .compatible requested)) ∧
      ∀ policy, rawPath policy (Utf8.encode root) requested
        = some (Utf8.encode (filePath policy root requested)) := by
  have hscan (out : Bytes) : scan out (Utf8.encode requested)
      = some (out ++ Utf8.encode (route .compatible requested)) := scan_encode out requested
  refine ⟨isCanonical requested, toldApart requested other, rfl, hscan [], ?_, ?_,
    fun policy => rawPath_encode policy root requested⟩
  · rw [rawPath, Utf8.decode_encode_text, hscan]
  · rw [rawPath, hscan, ← Utf8.encode_append]

end Target

end SiteServer
