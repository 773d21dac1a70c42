import Mathlib.Data.List.Induction
import SiteServer.Proofs.Connection.Passes

/-!
# Chunk by chunk

Sending a body file may be asked for any number of times, and each time reads and writes may come to
anything.  The books of the transfer stay balanced all the way: what has been written is what has
been read but for the bytes that are left of the chunk, and those come next.  No pass gets stuck,
and as each pass that does not return moves bytes or has been interrupted, the loop ends
(`chunks_accounted`).
-/

namespace SiteServer

/-- Some bytes are read or written by these calls. -/
def Moving (calls : List StreamCall) : Prop :=
  givenBy calls ≠ [] ∨ takenBy calls ≠ []

instance : DecidablePred Moving :=
  fun _ => inferInstanceAs (Decidable (_ ∨ _))

/-- How many bytes are read or written by these calls. -/
def movedBy (calls : List StreamCall) : Nat :=
  (givenBy calls).length + (takenBy calls).length

lemma moving_iff {calls : List StreamCall} : Moving calls ↔ 0 < movedBy calls := by
  rw [Moving, movedBy, ← List.length_pos_iff, ← List.length_pos_iff]
  omega

@[simp] lemma movedBy_append (calls more : List StreamCall) :
    movedBy (calls ++ more) = movedBy calls + movedBy more := by
  simp only [movedBy, givenBy_append, takenBy_append, List.length_append]
  omega

/-- How many of the calls have been interrupted. -/
def interruptions (calls : List StreamCall) : Nat :=
  calls.countP StreamCall.isInterrupted

@[simp] lemma interruptions_append (calls more : List StreamCall) :
    interruptions (calls ++ more) = interruptions calls + interruptions more :=
  List.countP_append

/-- With a call that is not idle, bytes are moved or there is an interruption. -/
lemma moving_or_interrupted {calls : List StreamCall} (hne : calls ≠ [])
    (h : ∀ call ∈ calls, call.isIdle = false) : Moving calls ∨ 0 < interruptions calls := by
  obtain ⟨call, rest, rfl⟩ := List.exists_cons_of_ne_nil hne
  rcases StreamCall.isIdle_eq_false_iff.1 (h call List.mem_cons_self) with hinterrupted | hmoved
  · refine .inr (List.countP_pos_iff.2 ⟨call, List.mem_cons_self, hinterrupted⟩)
  · refine .inl (moving_iff.2 ?_)
    simp only [movedBy, givenBy_cons, takenBy_cons, List.length_append]
    simp only [StreamCall.moved] at hmoved
    omega

/-! ### What is read -/

/-- The bytes that have been read stay a beginning of the file. -/
lemma Follows.isPrefix_givenBy {content : Content} {length : Nat} {front : List StreamCall}
    {call : StreamCall} (h : Follows content length front call)
    (hfront : givenBy front <+: content.toList) : givenBy (front ++ [call]) <+: content.toList := by
  obtain ⟨asked, result, rfl, -, -, -, hresult⟩ | ⟨left, -, -, result, rfl, -⟩ := h
  · cases result with
    | error refusal => simpa [StreamCall.given] using hfront
    | ok bytes =>
      obtain ⟨count, -, rfl⟩ := hresult bytes rfl
      obtain ⟨rest, hrest⟩ := hfront
      have hslice : content.slice (givenBy front).length count = rest.take count := by
        rw [Content.slice_eq, ← hrest, List.drop_left]
      refine ⟨rest.drop count, ?_⟩
      simp [StreamCall.given, hslice, hrest]
  · simpa [StreamCall.given] using hfront

namespace Transfer

variable {content : Content} {length : Nat} {t next last : Transfer} {flow : Flow}
  {calls more : List StreamCall} {passes : List (List StreamCall)} {pass : Pass}

lemma Does.isPrefix_givenBy (h : Does content length t more pass)
    (hcalls : givenBy t.calls <+: content.toList) :
    givenBy pass.transfer.calls <+: content.toList := by
  have hfront : ∀ front back, more = front ++ back →
      givenBy (t.calls ++ front) <+: content.toList := by
    intro front
    -- call by call, from the first one on
    induction front using List.reverseRecOn with
    | nil => simpa using hcalls
    | append_singleton front call ih =>
      intro back heq
      rw [List.append_assoc, List.singleton_append] at heq
      have hcall := (h.follows front call back heq).isPrefix_givenBy (ih (call :: back) heq)
      rwa [List.append_assoc] at hcall
  rw [h.calls_eq]
  exact hfront more [] (List.append_nil more).symm

/-! ### Pass after pass -/

/-- What the loop comes to when it goes on from a transfer, one pass after the other. -/
inductive Runs (content : Content) (length : Nat) : Transfer → Flow → Transfer → Prop
  | returned {t last : Transfer} {flow : Flow}
    (hpass : t.pass? content length = some (.returned flow last)) :
    Runs content length t flow last
  | again {t next last : Transfer} {flow : Flow}
    (hpass : t.pass? content length = some (.again next))
    (hruns : Runs content length next flow last) : Runs content length t flow last

/-- The loop ends, and what it comes to is what `FileBody.send` comes to. -/
lemma Balanced.exists_runs (hlength : length < 2 ^ 64) (h : Balanced length t)
    (content : Content) :
    ∃ flow last, Runs content length t flow last ∧ ∀ inode wire,
      t.rest content length inode wire
        = ⟨last.window.body inode, wire ++ takenBy last.calls, flow⟩ := by
  -- on what is still to be done
  induction hgo : t.toGo length using Nat.strongRecOn generalizing t with
  | ind go ih =>
    obtain ⟨pass, more, hpass, hbalanced, hdoes⟩ := exists_pass hlength h content
    cases pass with
    | returned flow last => exact ⟨flow, last, .returned hpass, hdoes.rest_eq⟩
    | again next =>
      have hlt := hdoes.toGo_lt next rfl
      obtain ⟨flow, last, hruns, hrest⟩ := ih _ (hgo ▸ hlt) hbalanced rfl
      exact ⟨flow, last, .again hpass hruns,
        fun inode wire => (hdoes.rest_eq inode wire).trans (hrest inode wire)⟩

/-- The transfers that sending a file comes by, with the calls of each pass that has not returned.
Sending may be asked for at any time, whatever came of it before, and reads and writes may then come
to anything. -/
inductive Reaches (content : Content) (length : Nat) : List (List StreamCall) → Transfer → Prop
  | start : Reaches content length [] {}
  | resumed {passes : List (List StreamCall)} {t : Transfer} (h : Reaches content length passes t)
    (reads : List ReadOutcome) (writes : List WriteOutcome) :
    Reaches content length passes { t with reads, writes }
  | again {passes : List (List StreamCall)} {t next : Transfer} {more : List StreamCall}
    (h : Reaches content length passes t) (hpass : t.pass? content length = some (.again next))
    (hcalls : next.calls = t.calls ++ more) : Reaches content length (passes ++ [more]) next
  | returned {passes : List (List StreamCall)} {t last : Transfer} {flow : Flow}
    (h : Reaches content length passes t)
    (hpass : t.pass? content length = some (.returned flow last)) :
    Reaches content length passes last

/-- What all passes keep: the books are balanced, and the passes are paid for by the bytes that have
been moved and by interruptions. -/
structure Kept (content : Content) (length : Nat) (passes : List (List StreamCall))
    (t : Transfer) : Prop where
  balanced : Balanced length t
  isPrefix_given : givenBy t.calls <+: content.toList
  moving : ∀ calls ∈ passes, Moving calls ∨ 0 < interruptions calls
  countP_le : passes.countP Moving ≤ movedBy t.calls
  length_le : passes.length ≤ movedBy t.calls + interruptions t.calls

namespace Kept

/-- A pass is the one that `exists_pass` speaks of. -/
lemma does (h : Kept content length passes t) (hlength : length < 2 ^ 64)
    (hpass : t.pass? content length = some pass) :
    ∃ more, Balanced length pass.transfer ∧ Does content length t more pass := by
  obtain ⟨other, more, hother, hbalanced, hdoes⟩ := exists_pass hlength h.balanced content
  obtain rfl : pass = other := Option.some.inj (hpass.symm.trans hother)
  exact ⟨more, hbalanced, hdoes⟩

/-- Any pass keeps the books, and what has been paid for stays so. -/
lemma after (h : Kept content length passes t) (hbalanced : Balanced length pass.transfer)
    (hdoes : Does content length t more pass) : Kept content length passes pass.transfer where
  balanced := hbalanced
  isPrefix_given := hdoes.isPrefix_givenBy h.isPrefix_given
  moving := h.moving
  countP_le := by
    rw [hdoes.calls_eq, movedBy_append]
    exact Nat.le_add_right_of_le h.countP_le
  length_le := by
    have hle := h.length_le
    rw [hdoes.calls_eq, movedBy_append, interruptions_append]
    omega

/-- A pass that does not return pays for itself. -/
lemma again (h : Kept content length passes t) (hbalanced : Balanced length next)
    (hdoes : Does content length t more (.again next)) :
    Kept content length (passes ++ [more]) next := by
  obtain ⟨hne, hidle⟩ := hdoes.goes_on next rfl
  have hpaid := moving_or_interrupted hne hidle
  have hcalls : next.calls = t.calls ++ more := hdoes.calls_eq
  refine ⟨hbalanced, hdoes.isPrefix_givenBy h.isPrefix_given, ?_, ?_, ?_⟩
  · intro calls hmem
    rcases List.mem_append.1 hmem with hmem | hmem
    · exact h.moving calls hmem
    · exact List.mem_singleton.1 hmem ▸ hpaid
  · have hle := h.countP_le
    have hmoving : Moving more ↔ 0 < movedBy more := moving_iff
    rw [hcalls, movedBy_append, List.countP_append, List.countP_singleton]
    by_cases hmore : Moving more
    · have hpos := hmoving.1 hmore
      simp only [hmore, decide_true, if_true]
      omega
    · simp only [hmore, decide_false, Bool.false_eq_true, if_false]
      omega
  · have hle := h.length_le
    rw [moving_iff] at hpaid
    rw [hcalls, movedBy_append, interruptions_append, List.length_append, List.length_singleton]
    omega

end Kept

/-- Every transfer that is reached keeps its books. -/
lemma Reaches.kept (hlength : length < 2 ^ 64) (h : Reaches content length passes t) :
    Kept content length passes t := by
  induction h with
  | start => exact ⟨.start length, List.nil_prefix, by simp, by simp, by simp⟩
  | resumed _ reads writes ih =>
    exact ⟨ih.balanced.with_outcomes reads writes, ih.isPrefix_given, ih.moving, ih.countP_le,
      ih.length_le⟩
  | again _ hpass hcalls ih =>
    obtain ⟨more, hbalanced, hdoes⟩ := ih.does hlength hpass
    obtain rfl := List.append_cancel_left (hcalls.symm.trans hdoes.calls_eq)
    exact ih.again hbalanced hdoes
  | returned _ hpass ih =>
    obtain ⟨more, hbalanced, hdoes⟩ := ih.does hlength hpass
    exact ih.after hbalanced hdoes

lemma Balanced.movedBy_le (h : Balanced length t) : movedBy t.calls ≤ 2 * length := by
  have hread := h.read_le
  rw [movedBy, h.taken_eq, List.length_take, h.length_given]
  omega

/-- **Chunks are accounted for.**  Wherever sending a file stands, also behind an error or when the
socket takes no more, its books are balanced, the next pass comes to something, and the loop ends.
Each pass that does not return moves bytes or has been interrupted, and twice the bytes to be sent
is the most passes that move some. -/
theorem chunks_accounted (hlength : length < 2 ^ 64) (h : Reaches content length passes t) :
    Balanced length t ∧ givenBy t.calls <+: content.toList
      ∧ (∃ pass more, t.pass? content length = some pass ∧ Does content length t more pass)
      ∧ (∀ calls ∈ passes, Moving calls ∨ 0 < interruptions calls)
      ∧ passes.countP Moving ≤ 2 * length
      ∧ passes.length ≤ 2 * length + interruptions t.calls
      ∧ ∃ flow last, Runs content length t flow last ∧ ∀ inode (wire : Wire),
        (t.window.body inode).send content length (wire ++ takenBy t.calls) t.reads t.writes
          = ⟨last.window.body inode, wire ++ takenBy last.calls, flow⟩ := by
  have hkept := h.kept hlength
  have hmoved := hkept.balanced.movedBy_le
  have hcount := hkept.countP_le
  have hpasses := hkept.length_le
  obtain ⟨pass, more, hpass, -, hdoes⟩ := exists_pass hlength hkept.balanced content
  exact ⟨hkept.balanced, hkept.isPrefix_given, ⟨pass, more, hpass, hdoes⟩, hkept.moving, by omega,
    by omega, hkept.balanced.exists_runs hlength content⟩

/-- Three bytes on their way: the first read has been interrupted, the second one has given two
bytes, and the socket has taken one of them. -/
def halfway : Transfer where
  window := ⟨[10, 20] ++ List.replicate 4094 0, 1, 2, 2⟩
  calls := [.read 3 (.error .interrupted), .read 3 (.ok [10, 20]), .write [10, 20] (.ok 1),
    .write [20] (.error .wouldBlock)]

lemma reaches_halfway :
    Reaches (.ofBytes [10, 20, 30]) 3 [[.read 3 (.error .interrupted)]] halfway := by
  have hstart : Reaches (.ofBytes [10, 20, 30]) 3 []
      { reads := [.interrupted, .upTo 2], writes := [.accepted 1, .wouldBlock] } :=
    .resumed .start _ _
  have hagain : Reaches (.ofBytes [10, 20, 30]) 3 [[.read 3 (.error .interrupted)]]
      { calls := [.read 3 (.error .interrupted)], reads := [.upTo 2],
        writes := [.accepted 1, .wouldBlock] } := by
    refine hstart.again ?_ rfl
    have hbalanced := (hstart.kept (by decide)).balanced
    rw [pass?_of_lt hbalanced _ rfl (by decide)]
    rfl
  refine hagain.returned (?_ : _ = some (Pass.returned .blocked halfway))
  have hbalanced := (hagain.kept (by decide)).balanced
  rw [pass?_of_lt hbalanced _ rfl (by decide), readIn?_of_some rfl (by decide) (by decide),
    writeOut?_eq]
  · rfl
  · exact hbalanced.filled rfl (by decide)

theorem chunks_accounted_halfway :
    3 < 2 ^ 64 ∧ Reaches (.ofBytes [10, 20, 30]) 3 [[.read 3 (.error .interrupted)]] halfway
      ∧ Balanced 3 halfway ∧ takenBy halfway.calls = [10] ∧ halfway.window.pending = [20]
      ∧ ∃ flow last, Runs (.ofBytes [10, 20, 30]) 3 halfway flow last := by
  have hlength : 3 < 2 ^ 64 := by decide
  obtain ⟨hbalanced, -, -, -, -, -, flow, last, hruns, -⟩ :=
    chunks_accounted hlength reaches_halfway
  exact ⟨hlength, reaches_halfway, hbalanced, rfl, rfl, flow, last, hruns⟩

end Transfer

end SiteServer
