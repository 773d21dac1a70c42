import Mathlib.Data.Nat.PSub
import SiteServer.Proofs.Connection.Calls

/-!
# The books of a transfer

A body file is sent through a buffer that is never cleared: each read writes over its beginning, and
two numbers say which part of it is still to be written.  A pass of the loop reads when nothing is
left to be written, and then writes until everything has been taken or the socket takes no more.
A pass has no result where a number would fall below zero or rise beyond 64 bits, or a slice would
reach out of the buffer.  A transfer keeps a list of the calls that it has made, so that what has
been read and written is known from the calls and not from the numbers; it is `Balanced` when the
numbers say the same as the calls.
-/

namespace SiteServer

/-! ### The outer loop -/

/-- The buffer through which a file is sent. -/
structure Window where
  buffer : Bytes := List.replicate FileBody.chunkSize 0
  /-- The next byte of the buffer to be written. -/
  position : Nat := 0
  /-- How many bytes of the buffer have been read last. -/
  filled : Nat := 0
  /-- How many bytes have been read in all. -/
  read : Nat := 0

namespace Window

/-- The bytes that are still to be written. -/
def pending (window : Window) : Bytes :=
  (window.buffer.take window.filled).drop window.position

/-- The window after a read has written some bytes over the beginning of the buffer. -/
def fill (window : Window) (bytes : Bytes) : Window where
  buffer := bytes ++ window.buffer.drop bytes.length
  position := 0
  filled := bytes.length
  read := window.read + bytes.length

/-- The body file that is sent through the window. -/
def body (window : Window) (inode : Nat) : FileBody where
  inode := inode
  chunk := window.buffer.take window.filled
  position := window.position
  read := window.read

@[simp] lemma pending_fill (window : Window) (bytes : Bytes) :
    (window.fill bytes).pending = bytes := by
  simp [pending, fill]

@[simp] lemma body_fill (window : Window) (bytes : Bytes) (inode : Nat) :
    (window.fill bytes).body inode = (window.body inode).refill bytes := by
  simp [body, fill, FileBody.refill]

end Window

/-- A body file on its way to the socket. -/
structure Transfer where
  window : Window := {}
  /-- The calls that have been made, the first one first. -/
  calls : List StreamCall := []
  reads : List ReadOutcome := []
  writes : List WriteOutcome := []

/-- What a pass of the loop comes to. -/
inductive Pass where
  | again (next : Transfer)
  | returned (flow : Flow) (last : Transfer)

namespace Pass

/-- The transfer after a pass. -/
def transfer : Pass → Transfer
  | .again next => next
  | .returned _ last => last

/-- The loop goes on when the chunk has been written, and returns otherwise. -/
def behind (t : Transfer) : Flow → Pass
  | .complete => .again t
  | flow => .returned flow t

@[simp] lemma transfer_behind (t : Transfer) (flow : Flow) : (behind t flow).transfer = t := by
  cases flow <;> rfl

lemma again_eq_behind_iff {next t : Transfer} {flow : Flow} :
    behind t flow = .again next ↔ flow = .complete ∧ t = next := by
  cases flow <;> simp [behind]

end Pass

namespace Transfer

/-- Where the open file stands: behind the bytes that it has given. -/
def cursor (t : Transfer) : Nat :=
  (givenBy t.calls).length

/-- The transfer after writing what is left of the chunk has come to something. -/
def wrote (t : Transfer) (written : Written) : Transfer where
  window := { t.window with position := written.offset }
  calls := t.calls ++ written.calls
  reads := t.reads
  writes := written.writes

/-- The second half of a pass: what has been read and not written is written. -/
def writeOut? (t : Transfer) : Option Pass :=
  if t.window.filled ≤ t.window.buffer.length then
    let written :=
      writeFrom (t.window.buffer.take t.window.filled) t.window.position t.writes
    some (.behind (t.wrote written) written.flow)
  else
    none

/-- The transfer after a read. -/
def asked (t : Transfer) (size : Nat) (outcome : Except Refusal Bytes × List ReadOutcome) :
    Transfer :=
  { t with calls := t.calls ++ [.read size outcome.1], reads := outcome.2 }

/-- The first half of a pass: a read that asks for `size` bytes, and what comes of it. -/
def readIn? (content : Content) (size : Nat) (t : Transfer) : Option Pass :=
  let outcome := nextRead content t.cursor size t.reads
  let next := t.asked size outcome
  match outcome.1 with
  | .error .interrupted => some (.again next)
  | .error _ => some (.returned .failed next)
  | .ok bytes =>
    if bytes = [] then
      some (.returned .failed next)
    else if t.window.read + bytes.length < 2 ^ 64 then
      { next with window := t.window.fill bytes }.writeOut?
    else
      none

/-- One pass of the loop that sends the first `length` bytes of a file. -/
def pass? (content : Content) (length : Nat) (t : Transfer) : Option Pass :=
  if t.window.position = t.window.filled then
    if length ≤ t.window.read then
      some (.returned .complete t)
    else
      (Nat.psub length t.window.read).bind fun rest =>
        t.readIn? content (min rest t.window.buffer.length)
  else
    t.writeOut?

end Transfer

/-! ### The books of a transfer -/

namespace Transfer

open FileBody (chunkSize)

/-- How the numbers of a transfer of `length` bytes go together with its calls. -/
structure Balanced (length : Nat) (t : Transfer) : Prop where
  /-- The buffer keeps its size. -/
  length_buffer : t.window.buffer.length = chunkSize
  position_le : t.window.position ≤ t.window.filled
  filled_le : t.window.filled ≤ chunkSize
  left_le : t.window.filled - t.window.position ≤ t.window.read
  read_le : t.window.read ≤ length
  length_given : (givenBy t.calls).length = t.window.read
  /-- What has been written is what has been read, but for the bytes that are left. -/
  taken_eq : takenBy t.calls
    = (givenBy t.calls).take (t.window.read - (t.window.filled - t.window.position))
  /-- The bytes that are left are the ones to be written next. -/
  pending_eq : t.window.pending
    = (givenBy t.calls).drop (t.window.read - (t.window.filled - t.window.position))

namespace Balanced

variable {length : Nat} {t : Transfer}

/-- The books are balanced when nothing is lost between the file and the socket. -/
lemma of_given_eq (hbuffer : t.window.buffer.length = chunkSize)
    (hposition : t.window.position ≤ t.window.filled) (hfilled : t.window.filled ≤ chunkSize)
    (hread : t.window.read ≤ length) (hlength : (givenBy t.calls).length = t.window.read)
    (hgiven : givenBy t.calls = takenBy t.calls ++ t.window.pending) : Balanced length t := by
  have hpending : t.window.pending.length = t.window.filled - t.window.position := by
    simp only [Window.pending, List.length_drop, List.length_take]
    omega
  have hsum : (takenBy t.calls).length + t.window.pending.length = t.window.read := by
    rw [← List.length_append, ← hgiven, hlength]
  have htaken : t.window.read - (t.window.filled - t.window.position)
      = (takenBy t.calls).length := by omega
  refine ⟨hbuffer, hposition, hfilled, by omega, hread, hlength, ?_, ?_⟩
  · rw [htaken, hgiven, List.take_left]
  · rw [htaken, hgiven, List.drop_left]

lemma given_eq (h : Balanced length t) : givenBy t.calls = takenBy t.calls ++ t.window.pending := by
  rw [h.taken_eq, h.pending_eq, List.take_append_drop]

lemma start (length : Nat) : Balanced length {} :=
  of_given_eq (by simp) (Nat.le_refl _) (Nat.zero_le _) (Nat.zero_le _) rfl rfl

/-- The books do not depend on what the next calls will come to. -/
lemma with_outcomes (h : Balanced length t) (reads : List ReadOutcome)
    (writes : List WriteOutcome) : Balanced length { t with reads, writes } :=
  { h with }

variable {delivery : Delivery} {written : Written}

/-- The part of the buffer that is written from. -/
lemma length_take (h : Balanced length t) :
    (t.window.buffer.take t.window.filled).length = t.window.filled := by
  rw [List.length_take, h.length_buffer, Nat.min_eq_left h.filled_le]

lemma length_pending (h : Balanced length t) :
    t.window.pending.length = t.window.filled - t.window.position := by
  rw [Window.pending, List.length_drop, h.length_take]

lemma pending_eq_nil (h : Balanced length t)
    (hposition : t.window.position = t.window.filled) : t.window.pending = [] := by
  rw [← List.length_eq_zero_iff, h.length_pending, hposition, Nat.sub_self]

/-- Writing keeps the books balanced, whatever it comes to. -/
lemma wrote (h : Balanced length t)
    (hdelivers : Delivers (t.window.buffer.take t.window.filled) t.window.position delivery written)
    (hcount : delivery.count ≤ t.window.filled - t.window.position) :
    Balanced length (t.wrote written) := by
  have hposition := h.position_le
  have hgiven : givenBy (t.wrote written).calls = givenBy t.calls := by
    rw [Transfer.wrote, givenBy_append, hdelivers.givenBy_eq_nil, List.append_nil]
  have hlength : (givenBy (t.wrote written).calls).length = t.window.read := by
    rw [hgiven, h.length_given]
  refine of_given_eq h.length_buffer ?_ h.filled_le h.read_le hlength ?_
  · simp only [Transfer.wrote, hdelivers.offset_eq]
    omega
  · have hpending : (t.wrote written).window.pending = t.window.pending.drop delivery.count := by
      simp only [Transfer.wrote, Window.pending, hdelivers.offset_eq, List.drop_drop]
    rw [hgiven, h.given_eq, hpending, Transfer.wrote, takenBy_append, hdelivers.taken_eq,
      List.append_assoc]
    rw [Window.pending, List.take_append_drop]

/-- A read that gives nothing keeps the books balanced. -/
lemma asked (h : Balanced length t) {size : Nat} {result : Except Refusal Bytes}
    {reads : List ReadOutcome} (hresult : (StreamCall.read size result).given = []) :
    Balanced length (t.asked size (result, reads)) := by
  have hgiven : givenBy (t.asked size (result, reads)).calls = givenBy t.calls := by
    simp [Transfer.asked, hresult]
  have htaken : takenBy (t.asked size (result, reads)).calls = takenBy t.calls := by
    simp [Transfer.asked, StreamCall.taken]
  refine of_given_eq h.length_buffer h.position_le h.filled_le h.read_le ?_ ?_
  · rw [hgiven, h.length_given]
    rfl
  · rw [hgiven, htaken]
    exact h.given_eq

/-- A read that gives bytes keeps the books balanced. -/
lemma filled (h : Balanced length t) (hposition : t.window.position = t.window.filled)
    {size : Nat} {bytes : Bytes} {reads : List ReadOutcome}
    (hbytes : bytes.length ≤ min (length - t.window.read) chunkSize) :
    Balanced length { t.asked size (.ok bytes, reads) with window := t.window.fill bytes } := by
  have hread := h.read_le
  refine of_given_eq ?_ (Nat.zero_le _) ?_ ?_ ?_ ?_
  · simp only [Window.fill, List.length_append, List.length_drop, h.length_buffer]
    omega
  · exact Nat.le_trans hbytes (Nat.min_le_right _ _)
  · simp only [Window.fill]
    omega
  · simp [Transfer.asked, StreamCall.given, Window.fill, h.length_given]
  · simp [Transfer.asked, StreamCall.given, StreamCall.taken, h.given_eq,
      h.pending_eq_nil hposition]

end Balanced

end Transfer

end SiteServer
