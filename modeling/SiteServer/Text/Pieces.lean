import SiteServer.Text.Basic

/-!
# Pieces between separators

A list is cut at every occurrence of a separator, or once, at the first or at the last one.  The
pieces with the separator put back between them are the list again (`intercalate_pieces`).
-/

namespace SiteServer.Text

variable {α : Type} [DecidableEq α]

/-- The parts of a list between the occurrences of `sep`; there is always one more of them than
there are separators. -/
def pieces (sep : α) : List α → List (List α)
  | [] => [[]]
  | c :: rest =>
    if c = sep then
      [] :: pieces sep rest
    else
      match pieces sep rest with
      | [] => [[c]]
      | piece :: more => (c :: piece) :: more

/-- The parts before and after the first occurrence of `sep`. -/
def splitFirst? (sep : α) : List α → Option (List α × List α)
  | [] => none
  | c :: rest =>
    if c = sep then
      some ([], rest)
    else
      (splitFirst? sep rest).map fun (before, after) => (c :: before, after)

/-- The parts before and after the last occurrence of `sep`. -/
def splitLast? (sep : α) : List α → Option (List α × List α)
  | [] => none
  | c :: rest =>
    match splitLast? sep rest with
    | some (before, after) => some (c :: before, after)
    | none => if c = sep then some ([], rest) else none

/-- What follows the last occurrence of `sep`, and the whole list when there is none. -/
def afterLast (sep : α) (list : List α) : List α :=
  match splitLast? sep list with
  | some (_, after) => after
  | none => list

/-- The list without the longest end in which every element satisfies `p`. -/
def dropEndWhile (p : α → Bool) (list : List α) : List α :=
  (list.reverse.dropWhile p).reverse

/-- A list with one trailing `x` removed, if it ends in one. -/
def stripLast (x : α) (list : List α) : List α :=
  if list.getLast? = some x then list.dropLast else list

theorem pieces_ne_nil (sep : α) (list : List α) : pieces sep list ≠ [] := by
  cases list with
  | nil => simp [pieces]
  | cons c rest =>
    simp only [pieces]
    split
    · simp
    · split <;> simp

/-- No piece holds a separator. -/
theorem not_mem_of_mem_pieces {sep : α} {list piece : List α} (h : piece ∈ pieces sep list) :
    sep ∉ piece := by
  induction list generalizing piece with
  | nil => simp_all [pieces]
  | cons c rest ih =>
    simp only [pieces] at h
    split at h
    · rcases List.mem_cons.1 h with rfl | h
      · simp
      · exact ih h
    · next hc =>
      split at h
      · next heq => exact absurd heq (pieces_ne_nil sep rest)
      · next first more heq =>
        rcases List.mem_cons.1 h with rfl | h
        · have : sep ∉ first := ih (by simp [heq])
          simp [this, Ne.symm hc]
        · exact ih (by simp [heq, h])

/-- The pieces with the separator between them are the list. -/
theorem intercalate_pieces (sep : α) (list : List α) :
    [sep].intercalate (pieces sep list) = list := by
  induction list with
  | nil => simp [pieces, List.intercalate]
  | cons c rest ih =>
    simp only [pieces]
    split
    · next hc =>
      cases hp : pieces sep rest with
      | nil => exact absurd hp (pieces_ne_nil sep rest)
      | cons piece more => rw [hp] at ih; simp_all [List.intercalate, List.intersperse]
    · split
      · next hp => exact absurd hp (pieces_ne_nil sep rest)
      · next piece more hp =>
        rw [hp] at ih
        cases more <;> simp_all [List.intercalate, List.intersperse]

/-- The two parts around the first separator make up the list, and the first holds none. -/
theorem splitFirst?_eq_some {sep : α} {list before after : List α}
    (h : splitFirst? sep list = some (before, after)) :
    list = before ++ sep :: after ∧ sep ∉ before := by
  induction list generalizing before with
  | nil => simp [splitFirst?] at h
  | cons c rest ih =>
    simp only [splitFirst?] at h
    split at h
    · simp_all
    · next hc =>
      obtain ⟨⟨b, a⟩, hb, heq⟩ := Option.map_eq_some_iff.1 h
      obtain ⟨rfl, rfl⟩ := heq
      obtain ⟨hl, hm⟩ := ih hb
      exact ⟨by simp [hl], by simp [hm, Ne.symm hc]⟩

theorem splitFirst?_eq_none_iff {sep : α} {list : List α} :
    splitFirst? sep list = none ↔ sep ∉ list := by
  induction list with
  | nil => simp [splitFirst?]
  | cons c rest ih =>
    simp only [splitFirst?]
    split
    · simp_all
    · next hc => simp [ih, Ne.symm hc]

theorem splitLast?_eq_none_iff {sep : α} {list : List α} :
    splitLast? sep list = none ↔ sep ∉ list := by
  induction list with
  | nil => simp [splitLast?]
  | cons c rest ih =>
    simp only [splitLast?]
    split
    · next heq =>
      have : ¬ sep ∉ rest := fun h => by simp [ih.2 h] at heq
      simp_all
    · next heq =>
      have := ih.1 heq
      split
      · simp_all
      · next hc => simp [this, Ne.symm hc]

/-- The two parts around the last separator make up the list, and the second holds none. -/
theorem splitLast?_eq_some {sep : α} {list before after : List α}
    (h : splitLast? sep list = some (before, after)) :
    list = before ++ sep :: after ∧ sep ∉ after := by
  induction list generalizing before with
  | nil => simp [splitLast?] at h
  | cons c rest ih =>
    simp only [splitLast?] at h
    split at h
    · next b a hrest =>
      simp only [Option.some.injEq, Prod.mk.injEq] at h
      obtain ⟨rfl, rfl⟩ := h
      obtain ⟨hl, hm⟩ := ih hrest
      exact ⟨by simp [hl], hm⟩
    · next hrest =>
      have := splitLast?_eq_none_iff.1 hrest
      split at h <;> simp_all

end SiteServer.Text
