import Mathlib.Data.List.TakeWhile
import SiteServer.Http.Request
import SiteServer.Proofs.Paths.Joining
import SiteServer.Proofs.Text.ReadBack

/-!
# Lines and words of a request

How a buffer is cut into lines and a line into words, without the cutting: the words of a line are
its longest runs without a space, which `Runs` takes off one by one (`runs_iff`), the first line is
what stands before the first line feed, and it makes no difference whether a line ends in a line
feed alone or has a carriage return before it (`lines_eq_of_sameLines`).
-/

namespace SiteServer

namespace Text

variable {α β : Type} {sep : α} {list : List α} {runs : List (List α)}

/-- The longest runs without a separator, in their order. -/
inductive Runs (sep : α) : List α → List (List α) → Prop where
  | done : Runs sep [] []
  | skip {rest : List α} {runs : List (List α)} : Runs sep rest runs → Runs sep (sep :: rest) runs
  /-- A run goes on to the next separator or to the end. -/
  | run {run rest : List α} {runs : List (List α)} (ne_nil : run ≠ []) (sep_not_mem : sep ∉ run)
      (ends : ∀ c ∈ rest.head?, c = sep) : Runs sep rest runs → Runs sep (run ++ rest) (run :: runs)

/-- What has been put together from parts without a separator has those that are not empty as its
runs. -/
lemma runs_intercalate {parts : List (List α)} (h : ∀ part ∈ parts, sep ∉ part) :
    Runs sep ([sep].intercalate parts) (parts.filter (· ≠ [])) := by
  induction parts with
  | nil => exact .done
  | cons part more ih =>
    have hpart : sep ∉ part := h part List.mem_cons_self
    have hmore := ih fun part' hmem => h part' (List.mem_cons_of_mem _ hmem)
    rcases more with _ | ⟨next, more⟩
    · by_cases hnil : part = []
      · subst hnil
        exact .done
      · simpa [hnil] using Runs.run hnil hpart (by simp) Runs.done
    · -- what follows the part starts with a separator, so a part that is not empty ends there
      rw [List.intercalate_cons_cons, List.append_assoc, List.singleton_append]
      by_cases hnil : part = []
      · subst hnil
        simpa using Runs.skip hmore
      · simpa [hnil] using Runs.run hnil hpart (by simp) (Runs.skip hmore)

/-- A list that is nothing but separators has no runs. -/
lemma runs_nil (h : ∀ c ∈ list, c = sep) : Runs sep list [] := by
  induction list with
  | nil => exact .done
  | cons c rest ih =>
    obtain rfl := h c List.mem_cons_self
    exact .skip (ih fun c hmem => h c (List.mem_cons_of_mem _ hmem))

lemma Runs.eq_sep (h : Runs sep list []) : ∀ c ∈ list, c = sep := by
  generalize hruns : ([] : List (List α)) = runs at h
  induction h with
  | done => simp
  | skip _ ih => simpa using ih hruns
  | run => simp at hruns

variable [DecidableEq α] [DecidableEq β]

/-- The runs are the pieces that are not empty. -/
lemma Runs.eq_filter (h : Runs sep list runs) : runs = (pieces sep list).filter (· ≠ []) := by
  induction h with
  | done => rfl
  | skip _ ih => simpa [pieces] using ih
  | @run run rest runs ne_nil sep_not_mem ends _ ih =>
    rcases rest with _ | ⟨c, rest⟩
    · rw [ih, List.append_nil, pieces_of_not_mem sep_not_mem]
      simp [pieces, ne_nil]
    · obtain rfl : c = sep := ends c rfl
      rw [ih, pieces_append_sep, pieces_of_not_mem sep_not_mem]
      simp [pieces, ne_nil]

theorem runs_iff : Runs sep list runs ↔ runs = (pieces sep list).filter (· ≠ []) := by
  refine ⟨Runs.eq_filter, ?_⟩
  rintro rfl
  have h := runs_intercalate fun part (hmem : part ∈ pieces sep list) => not_mem_of_mem_pieces hmem
  rwa [intercalate_pieces] at h

lemma pieces_map {f : α → β} (hf : ∀ c, f c = f sep → c = sep) (list : List α) :
    pieces (f sep) (list.map f) = (pieces sep list).map (List.map f) := by
  induction list with
  | nil => rfl
  | cons c rest ih =>
    simp only [List.map_cons, pieces, ih]
    by_cases hc : c = sep
    · simp [hc]
    · rw [if_neg hc, if_neg (mt (hf c) hc)]
      cases pieces sep rest <;> rfl

lemma exists_pieces_eq_cons (sep : α) (list : List α) :
    ∃ more, pieces sep list = list.takeWhile (· ≠ sep) :: more := by
  induction list with
  | nil => exact ⟨[], rfl⟩
  | cons c rest ih =>
    obtain ⟨more, hmore⟩ := ih
    by_cases hc : c = sep
    · exact ⟨pieces sep rest, by simp [pieces, hc]⟩
    · exact ⟨more, by simp [pieces, hc, hmore]⟩

lemma splitFirst?_append_sep {before : List α} (h : sep ∉ before) (after : List α) :
    splitFirst? sep (before ++ sep :: after) = some (before, after) := by
  induction before with
  | nil => simp [splitFirst?]
  | cons c rest ih =>
    have hc : c ≠ sep := Ne.symm (List.ne_of_not_mem_cons h)
    simp [splitFirst?, hc, ih (List.not_mem_of_not_mem_cons h)]

/-- A list goes on to its end without a separator exactly when it has none. -/
lemma takeWhile_ne_eq_self_iff : list.takeWhile (· ≠ sep) = list ↔ sep ∉ list := by
  rw [List.takeWhile_eq_self_iff]
  constructor
  · intro hall hmem
    exact of_decide_eq_true (hall sep hmem) rfl
  · intro hsep c hmem
    exact decide_eq_true (ne_of_mem_of_not_mem hmem hsep)

lemma takeWhile_ne_append_sep {before : List α} (h : sep ∉ before) (after : List α) :
    (before ++ sep :: after).takeWhile (· ≠ sep) = before := by
  rw [List.takeWhile_append_of_pos, List.takeWhile_cons_of_neg, List.append_nil]
  · simp
  · intro c hmem
    exact decide_eq_true (ne_of_mem_of_not_mem hmem h)

lemma stripLast_concat (x : α) (list : List α) : stripLast x (list ++ [x]) = list := by
  simp [stripLast]

lemma stripLast_of_ne {x : α} (h : list.getLast? ≠ some x) : stripLast x list = list := by
  rw [stripLast, if_neg h]

end Text

namespace Request

/-- What stands before the first line feed, less one carriage return at the end. -/
def firstLine (raw : Bytes) : Bytes :=
  Text.stripLast 13 (raw.takeWhile (· ≠ 10))

lemma exists_lines_eq_cons (raw : Bytes) : ∃ rest, lines raw = firstLine raw :: rest := by
  obtain ⟨more, hmore⟩ := Text.exists_pieces_eq_cons 10 raw
  exact ⟨more.map (Text.stripLast 13), by rw [lines, hmore]; rfl⟩

/-- The words of a line are its runs, byte by byte. -/
lemma words_ofBytes {line : Bytes} {runs : List Bytes} (h : Text.Runs 32 line runs) :
    words (Text.ofBytes line) = runs.map Text.ofBytes := by
  have hspace : ∀ b : UInt8, Char.ofNat b.toNat = Char.ofNat (32 : UInt8).toNat → b = 32 :=
    fun b => Text.ofNat_toNat_inj.1
  have hpieces : Text.pieces ' ' (Text.ofBytes line)
      = (Text.pieces 32 line).map Text.ofBytes := Text.pieces_map hspace line
  rw [words, hpieces, h.eq_filter, List.filter_map]
  congr 2
  funext piece
  simp [Text.ofBytes]

/-! ### Line endings -/

/-- What ends a line: a line feed, perhaps with a carriage return before it. -/
def ending (withReturn : Bool) : Bytes :=
  if withReturn then [13, 10] else [10]

/-- The buffers differ at most in how those lines end that have no carriage return of their own at
the end. -/
inductive SameLines : Bytes → Bytes → Prop where
  /-- The last line is not ended. -/
  | last (line : Bytes) : SameLines line line
  | same {line a b : Bytes} : SameLines a b → SameLines (line ++ 10 :: a) (line ++ 10 :: b)
  | line {line a b : Bytes} {withReturn withReturn' : Bool} (feed_not_mem : 10 ∉ line)
      (no_return : line.getLast? ≠ some 13) :
      SameLines a b → SameLines (line ++ ending withReturn ++ a) (line ++ ending withReturn' ++ b)

/-- The end of a line is not part of it. -/
lemma lines_ending {line : Bytes} (hfeed : 10 ∉ line) (hreturn : line.getLast? ≠ some 13)
    (withReturn : Bool) (rest : Bytes) :
    lines (line ++ ending withReturn ++ rest) = line :: lines rest := by
  cases withReturn with
  | false =>
    have hpieces : Text.pieces 10 (line ++ 10 :: rest) = line :: Text.pieces 10 rest := by
      rw [Text.pieces_append_sep, Text.pieces_of_not_mem hfeed, List.singleton_append]
    simp [lines, ending, hpieces, Text.stripLast_of_ne hreturn]
  | true =>
    have hfeed' : 10 ∉ line ++ [13] := by simp [hfeed]
    have hpieces : Text.pieces 10 (line ++ [13] ++ 10 :: rest)
        = (line ++ [13]) :: Text.pieces 10 rest := by
      rw [Text.pieces_append_sep, Text.pieces_of_not_mem hfeed', List.singleton_append]
    have hbytes : line ++ ending true ++ rest = line ++ [13] ++ 10 :: rest := by simp [ending]
    rw [lines, hbytes, hpieces, List.map_cons, Text.stripLast_concat]
    rfl

theorem lines_eq_of_sameLines {raw other : Bytes} (h : SameLines raw other) :
    lines other = lines raw := by
  induction h with
  | last => rfl
  | @same line a b _ ih =>
    simp only [lines, Text.pieces_append_sep, List.map_append] at ih ⊢
    rw [ih]
  | line feed_not_mem no_return _ ih =>
    rw [lines_ending feed_not_mem no_return, lines_ending feed_not_mem no_return, ih]

end Request

end SiteServer
