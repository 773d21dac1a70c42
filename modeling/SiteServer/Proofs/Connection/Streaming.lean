import Mathlib.Data.List.Basic
import SiteServer.Connection.FileBody

/-!
# Streaming keeps count

While a body file is being sent, its bookkeeping says which bytes have been taken by the socket: all
that have been read but the ones that still stand in the chunk.  The file may be written to in the
meantime, so what is known of a byte is that it has been at its offset when it was read.  A relation
`shown` says which bytes the file may show at which offset; `Tracks` states the bookkeeping of a
file that keeps to it, and `exists_sent` says that sending preserves it, whatever the reads and
writes do: the bytes that are taken go to the wire, and the attempt is complete exactly when
`length` of them have been taken.
-/

namespace SiteServer

/-- An attempt that is not complete has left something. -/
lemma count_deliver_lt {size : Nat} {writes : List WriteOutcome}
    (h : (deliver size writes).flow ≠ .complete) : (deliver size writes).count < size :=
  Nat.lt_of_le_of_ne (count_deliver_le size writes)
    fun heq => h ((flow_deliver_eq_complete_iff size writes).2 heq)

/-! ### Bytes at their places -/

/-- Every byte of `bytes` is one that its place may show. -/
def Faithful (shown : Nat → UInt8 → Prop) (bytes : Bytes) : Prop :=
  ∀ i b, bytes[i]? = some b → shown i b

namespace Faithful

variable {shown : Nat → UInt8 → Prop}

lemma nil : Faithful shown [] := by
  simp [Faithful]

lemma mono {front bytes : Bytes} (h : Faithful shown bytes) (hfront : front <+: bytes) :
    Faithful shown front := by
  obtain ⟨rest, rfl⟩ := hfront
  intro i b hi
  refine h i b ?_
  rw [List.getElem?_append_left (List.getElem?_eq_some_iff.1 hi).1]
  exact hi

/-- A read goes on where the one before has ended. -/
lemma append_slice {front : Bytes} {content : Content} (h : Faithful shown front)
    (hcontent : Faithful shown content.toList) (count : Nat) :
    Faithful shown (front ++ content.slice front.length count) := by
  intro i b hi
  rcases Nat.lt_or_ge i front.length with hlt | hge
  · rw [List.getElem?_append_left hlt] at hi
    exact h i b hi
  · rw [List.getElem?_append_right hge, Content.slice_eq, List.getElem?_take] at hi
    split at hi
    · rw [List.getElem?_drop, Nat.add_sub_cancel' hge] at hi
      exact hcontent i b hi
    · simp at hi

/-- Bytes that are found at their places in another string are its beginning. -/
lemma isBeginning {bytes whole : Bytes} (h : Faithful (fun i b => whole[i]? = some b) bytes) :
    bytes <+: whole := by
  rw [List.prefix_iff_getElem?]
  exact fun i hi => h i bytes[i] (List.getElem?_eq_getElem hi)

end Faithful

/-! ### The bookkeeping -/

namespace FileBody

/-- The bookkeeping of a body file of which `length` bytes are to be sent and the bytes `taken` have
been taken by the socket. -/
structure Tracks (shown : Nat → UInt8 → Prop) (length : Nat) (taken : Bytes) (body : FileBody) :
    Prop where
  position_le : body.position ≤ body.chunk.length
  chunk_le : body.chunk.length ≤ chunkSize
  read_le : body.read ≤ length
  length_add : taken.length + body.pending.length = body.read
  /-- What stands in the chunk are the bytes of the file that come next. -/
  faithful : Faithful shown (taken ++ body.pending)

namespace Tracks

variable {shown : Nat → UInt8 → Prop} {content : Content} {length count : Nat} {taken : Bytes}
  {body : FileBody}

lemma start (length inode : Nat) : Tracks shown length [] { inode } where
  position_le := by simp
  chunk_le := by simp
  read_le := by simp
  length_add := by simp [pending]
  faithful := by simpa [pending] using Faithful.nil

lemma length_taken_le (h : body.Tracks shown length taken) : taken.length ≤ length := by
  have hadd := h.length_add
  have hle := h.read_le
  omega

lemma faithful_taken (h : body.Tracks shown length taken) : Faithful shown taken :=
  h.faithful.mono (List.prefix_append taken body.pending)

lemma pending_advance (body : FileBody) (count : Nat) :
    (body.advance count).pending = body.pending.drop count := by
  simp [pending, advance, List.drop_drop]

@[simp] lemma pending_refill (body : FileBody) (chunk : Bytes) :
    (body.refill chunk).pending = chunk := by
  simp [pending, FileBody.refill]

/-- The socket takes some more bytes of the chunk. -/
lemma advance (h : body.Tracks shown length taken) (hcount : count ≤ body.pending.length) :
    (body.advance count).Tracks shown length (taken ++ body.pending.take count) where
  position_le := by
    have hle := h.position_le
    have hlength : body.pending.length = body.chunk.length - body.position := by simp [pending]
    simp only [FileBody.advance]
    omega
  chunk_le := h.chunk_le
  read_le := h.read_le
  length_add := by
    have hadd := h.length_add
    rw [pending_advance, List.length_append, List.length_take, List.length_drop]
    simp only [FileBody.advance]
    omega
  faithful := by
    rw [pending_advance, List.append_assoc, List.take_append_drop]
    exact h.faithful

/-- A chunk is read when the one before has been taken. -/
lemma refill (h : body.Tracks shown length taken) (hcontent : Faithful shown content.toList)
    (hpending : body.pending = []) (limit : Nat) :
    (body.refill (body.nextChunk content length limit)).Tracks shown length taken := by
  -- nothing is pending, so the file goes on where the socket has stopped
  have hread : taken.length = body.read := by simpa [hpending] using h.length_add
  have hread_le := h.read_le
  have hchunk : (body.nextChunk content length limit).length
      = min (min (min (length - body.read) chunkSize) limit) (content.size - body.read) := by
    simp [nextChunk]
  refine ⟨by simp [FileBody.refill], ?_, ?_, ?_, ?_⟩
  · simp only [FileBody.refill, hchunk]
    omega
  · simp only [FileBody.refill, hchunk]
    omega
  · rw [pending_refill, hread]
    rfl
  · rw [pending_refill, nextChunk, ← hread]
    exact h.faithful_taken.append_slice hcontent _

end Tracks

/-! ### Sending -/

/-- An attempt to send a body file during which the bytes `more` are taken. -/
structure Sent (shown : Nat → UInt8 → Prop) (length : Nat) (taken more : Bytes) (wire : Wire)
    (streamed : Streamed) : Prop where
  tracks : streamed.body.Tracks shown length (taken ++ more)
  wire_eq : streamed.wire.toList = wire.toList ++ more
  complete_iff : streamed.flow = .complete ↔ (taken ++ more).length = length

namespace Sent

variable {shown : Nat → UInt8 → Prop} {length count : Nat} {taken more : Bytes} {wire : Wire}
  {body : FileBody} {streamed : Streamed}

/-- Nothing is sent. -/
lemma none {flow : Flow} (h : body.Tracks shown length taken)
    (hflow : flow = .complete ↔ taken.length = length) :
    Sent shown length taken [] wire ⟨body, wire, flow⟩ where
  tracks := by simpa using h
  wire_eq := by simp
  complete_iff := by simpa using hflow

/-- Some bytes of the chunk have been taken before. -/
lemma prepend {front : Bytes}
    (h : Sent shown length (taken ++ front) more (wire ++ front) streamed) :
    Sent shown length taken (front ++ more) wire streamed where
  tracks := by simpa using h.tracks
  wire_eq := by simpa using h.wire_eq
  complete_iff := by simpa using h.complete_iff

/-- The socket takes a part of the chunk and then no more. -/
lemma stop {writes : List WriteOutcome} (h : body.Tracks shown length taken)
    (hflow : (deliver body.pending.length writes).flow ≠ .complete) :
    Sent shown length taken (body.pending.take (deliver body.pending.length writes).count) wire
      ⟨body.advance (deliver body.pending.length writes).count,
        wire ++ body.pending.take (deliver body.pending.length writes).count,
        (deliver body.pending.length writes).flow⟩ := by
  have hlt := count_deliver_lt hflow
  have hread := h.read_le
  have hadd := h.length_add
  have hiff : (deliver body.pending.length writes).flow = .complete ↔
      (taken ++ body.pending.take (deliver body.pending.length writes).count).length = length :=
    ⟨fun hcomplete => absurd hcomplete hflow, by
      rw [List.length_append, List.length_take]
      omega⟩
  have hnone : Sent shown length _ []
      (wire ++ body.pending.take (deliver body.pending.length writes).count) _ :=
    .none (h.advance (Nat.le_of_lt hlt)) hiff
  simpa using hnone.prepend

end Sent

variable {shown : Nat → UInt8 → Prop} {content : Content} {length : Nat} {taken : Bytes}
  {body : FileBody}

lemma exists_sent_pump (content : Content) (length : Nat) (taken : Bytes) (body : FileBody)
    (wire : Wire) (reads : List ReadOutcome) (writes : List WriteOutcome)
    (hcontent : Faithful shown content.toList) (h : body.Tracks shown length taken)
    (hpending : body.pending = []) :
    ∃ more, Sent shown length taken more wire (pump content length body wire reads writes) := by
  have hadd := h.length_add
  rw [hpending, List.length_nil] at hadd
  -- along the chunks: each one that is taken completely leads to the same situation
  fun_induction pump content length body wire reads writes generalizing taken with
  | case1 body wire reads writes hdone =>
    have hread := h.read_le
    exact ⟨[], .none h (by simp; omega)⟩
  | case2 body wire writes hleft rest => exact ⟨[], .none h (by simp; omega)⟩
  | case3 body wire writes hleft rest ih => exact ih taken h hpending hadd
  | case4 body wire writes hleft reads => exact ⟨[], .none h (by simp; omega)⟩
  | case5 body wire writes hleft reads _ _ chunk hchunk delivery next wire' hflow ih =>
    have hrefill : (body.refill chunk).Tracks shown length taken :=
      h.refill hcontent hpending (readLimit reads)
    have hcount : delivery.count = chunk.length :=
      (flow_deliver_eq_complete_iff chunk.length writes).1 hflow
    have hle : delivery.count ≤ (body.refill chunk).pending.length := by simp [hcount]
    have hnext := hrefill.advance hle
    obtain ⟨more, hsent⟩ := ih _ hnext (by simp [next, Tracks.pending_advance, hcount])
      (by simpa [next, Tracks.pending_advance, hcount] using hnext.length_add)
    exact ⟨_, .prepend (by simpa using hsent)⟩
  | case6 body wire writes hleft reads _ _ chunk hchunk delivery next wire' hflow =>
    have hrefill : (body.refill chunk).Tracks shown length taken :=
      h.refill hcontent hpending (readLimit reads)
    have hstop : Sent shown length taken _ wire _ := .stop hrefill (by simpa using hflow)
    rw [Tracks.pending_refill] at hstop
    exact ⟨_, hstop⟩

/-- Sending a body file keeps count. -/
theorem exists_sent (h : body.Tracks shown length taken) (hcontent : Faithful shown content.toList)
    (wire : Wire) (reads : List ReadOutcome) (writes : List WriteOutcome) :
    ∃ more, Sent shown length taken more wire (body.send content length wire reads writes) := by
  unfold send
  by_cases hflow : (deliver body.pending.length writes).flow = .complete
  · have hcount := (flow_deliver_eq_complete_iff _ _).1 hflow
    have hnext := h.advance (count_deliver_le body.pending.length writes)
    obtain ⟨more, hsent⟩ := exists_sent_pump content length _ _
      (wire ++ body.pending.take (deliver body.pending.length writes).count) reads
      (deliver body.pending.length writes).writes hcontent hnext
      (by simp [Tracks.pending_advance, hcount])
    exact ⟨_, .prepend (by simpa [hflow] using hsent)⟩
  · have hstop : Sent shown length taken _ wire _ := .stop h hflow
    exact ⟨_, by simpa using hstop⟩

end FileBody

end SiteServer
