import SiteServer.Proofs.Connection.Streaming

/-!
# The calls of streaming

While a body file is being sent, bytes are read from the file and written to the socket by calls,
each of which may be interrupted, may fail and may move fewer bytes than it asks for.  A list of
calls tells what has been read and what has been taken, whatever the numbers say that a loop keeps
beside it.  `writeFrom` is the inner loop, which writes a chunk call by call; `delivers_writeFrom`
says that it does what `deliver` says in one go.
-/

namespace SiteServer

/-! ### Calls -/

/-- Why a call moves no bytes. -/
inductive Refusal where
  | interrupted
  | wouldBlock
  | failed
  deriving DecidableEq, Repr

/-- A call on the body file or on the socket, and what it comes to. -/
inductive StreamCall where
  /-- A read that asks for up to so many bytes. -/
  | read (asked : Nat) (result : Except Refusal Bytes)
  /-- A write that offers some bytes; so many of them are taken. -/
  | write (offered : Bytes) (result : Except Refusal Nat)

namespace StreamCall

/-- The bytes that the file gives. -/
def given : StreamCall → Bytes
  | .read _ (.ok bytes) => bytes
  | _ => []

/-- The bytes that the socket takes. -/
def taken : StreamCall → Bytes
  | .write offered (.ok count) => offered.take count
  | _ => []

def isInterrupted : StreamCall → Bool
  | .read _ (.error .interrupted) | .write _ (.error .interrupted) => true
  | _ => false

/-- The call offers these bytes to the socket, which takes no more than it is offered. -/
def Offers (bytes : Bytes) (call : StreamCall) : Prop :=
  bytes ≠ [] ∧ ∃ result, call = .write bytes result ∧
    ∀ count, result = .ok count → count ≤ bytes.length

/-- How many bytes the call moves. -/
def moved (call : StreamCall) : Nat :=
  call.given.length + call.taken.length

/-- The call moves nothing, and it is not worth repeating. -/
def isIdle (call : StreamCall) : Bool :=
  !call.isInterrupted && call.moved == 0

lemma isIdle_eq_false_iff {call : StreamCall} :
    call.isIdle = false ↔ call.isInterrupted = true ∨ 0 < call.moved := by
  cases hinterrupted : call.isInterrupted <;> simp [isIdle, hinterrupted, Nat.pos_iff_ne_zero]

/-- A write is worth its while when some of the bytes are taken. -/
lemma isIdle_write {offered : Bytes} {count : Nat} (hoffered : offered ≠ []) (hcount : count ≠ 0) :
    (write offered (.ok count)).isIdle = false := by
  have hlength := List.length_pos_iff.2 hoffered
  refine isIdle_eq_false_iff.2 (.inr ?_)
  simp only [moved, given, taken, List.length_take, List.length_nil]
  omega

lemma isIdle_read {asked : Nat} {bytes : Bytes} (hbytes : bytes ≠ []) :
    (read asked (.ok bytes)).isIdle = false := by
  have hlength := List.length_pos_iff.2 hbytes
  refine isIdle_eq_false_iff.2 (.inr ?_)
  simp only [moved, given, taken, List.length_nil]
  omega

end StreamCall

/-- All bytes that the file has given. -/
def givenBy (calls : List StreamCall) : Bytes :=
  calls.flatMap StreamCall.given

/-- All bytes that the socket has taken. -/
def takenBy (calls : List StreamCall) : Bytes :=
  calls.flatMap StreamCall.taken

@[simp] lemma givenBy_nil : givenBy [] = [] := rfl

@[simp] lemma takenBy_nil : takenBy [] = [] := rfl

@[simp] lemma givenBy_append (calls more : List StreamCall) :
    givenBy (calls ++ more) = givenBy calls ++ givenBy more :=
  List.flatMap_append

@[simp] lemma takenBy_append (calls more : List StreamCall) :
    takenBy (calls ++ more) = takenBy calls ++ takenBy more :=
  List.flatMap_append

@[simp] lemma givenBy_cons (call : StreamCall) (calls : List StreamCall) :
    givenBy (call :: calls) = call.given ++ givenBy calls :=
  List.flatMap_cons

@[simp] lemma takenBy_cons (call : StreamCall) (calls : List StreamCall) :
    takenBy (call :: calls) = call.taken ++ takenBy calls :=
  List.flatMap_cons

/-- The only call of a list has nothing around it. -/
lemma only_call {call other : StreamCall} {front back : List StreamCall}
    (h : [call] = front ++ other :: back) : front = [] ∧ other = call ∧ back = [] := by
  rcases List.append_eq_singleton_iff.1 h.symm with ⟨hfront, hback⟩ | ⟨-, hback⟩
  · obtain ⟨hother, hback⟩ := List.cons.inj hback
    exact ⟨hfront, hother, hback⟩
  · exact absurd hback (List.cons_ne_nil other back)

/-- What the next read comes to, when it asks for so many bytes from an offset on. -/
def nextRead (content : Content) (offset asked : Nat) :
    List ReadOutcome → Except Refusal Bytes × List ReadOutcome
  | [] => (.ok (content.slice offset asked), [])
  | .upTo limit :: rest => (.ok (content.slice offset (min asked limit)), rest)
  | .interrupted :: rest => (.error .interrupted, rest)
  | .failed :: rest => (.error .failed, rest)

lemma nextRead_cases (content : Content) (offset : Nat) {asked : Nat} (reads : List ReadOutcome)
    (hasked : asked ≤ FileBody.chunkSize) :
    (∃ rest, reads = .interrupted :: rest
      ∧ nextRead content offset asked reads = (.error .interrupted, rest))
    ∨ (∃ rest, reads = .failed :: rest
      ∧ nextRead content offset asked reads = (.error .failed, rest))
    ∨ ((∀ rest, reads ≠ .interrupted :: rest) ∧ (∀ rest, reads ≠ .failed :: rest)
      ∧ nextRead content offset asked reads
        = (.ok (content.slice offset (min asked (FileBody.readLimit reads))), reads.tail)) := by
  rcases reads with _ | ⟨limit | _ | _, rest⟩
  · exact .inr (.inr (by simp [nextRead, FileBody.readLimit, Nat.min_eq_left hasked]))
  all_goals simp [nextRead, FileBody.readLimit]

/-! ### The inner loop -/

/-- What writing a chunk comes to: the next byte to be written, and the calls that have been
made. -/
structure Written where
  offset : Nat
  flow : Flow
  calls : List StreamCall
  writes : List WriteOutcome

/-- The result with a call before it. -/
def Written.after (written : Written) (call : StreamCall) : Written :=
  { written with calls := call :: written.calls }

/-- Writing a chunk from an offset on, until everything is taken or the socket takes no more.  An
interrupted write is repeated, and one that takes nothing has failed. -/
def writeFrom (chunk : Bytes) (offset : Nat) : List WriteOutcome → Written
  | [] =>
    if offset < chunk.length then
      ⟨offset, .blocked, [.write (chunk.drop offset) (.error .wouldBlock)], []⟩
    else
      ⟨offset, .complete, [], []⟩
  | outcome :: rest =>
    if offset < chunk.length then
      let offered := chunk.drop offset
      match outcome with
      | .accepted limit =>
        let count := min limit offered.length
        if count = 0 then
          ⟨offset, .failed, [.write offered (.ok 0)], rest⟩
        else
          (writeFrom chunk (offset + count) rest).after (.write offered (.ok count))
      | .interrupted => (writeFrom chunk offset rest).after (.write offered (.error .interrupted))
      | .wouldBlock => ⟨offset, .blocked, [.write offered (.error .wouldBlock)], rest⟩
      | .failed => ⟨offset, .failed, [.write offered (.error .failed)], rest⟩
    else
      ⟨offset, .complete, [], outcome :: rest⟩

/-- The inner loop does what is known of a delivery. -/
structure Delivers (chunk : Bytes) (offset : Nat) (delivery : Delivery) (written : Written) :
    Prop where
  offset_eq : written.offset = offset + delivery.count
  flow_eq : written.flow = delivery.flow
  writes_eq : written.writes = delivery.writes
  /-- Each call offers all that is left. -/
  offers : ∀ front call back, written.calls = front ++ call :: back →
    call.Offers (chunk.drop (offset + (takenBy front).length))
  taken_eq : takenBy written.calls = (chunk.drop offset).take delivery.count
  /-- When all is taken, each call was interrupted or has moved bytes. -/
  not_idle : delivery.flow = .complete → ∀ call ∈ written.calls, call.isIdle = false
  calls_ne_nil : offset < chunk.length → written.calls ≠ []

namespace Delivers

variable {chunk : Bytes} {offset count : Nat} {delivery : Delivery} {written : Written}
  {rest : List WriteOutcome} {flow : Flow}

/-- The chunk has been written. -/
lemma complete (writes : List WriteOutcome) :
    Delivers chunk chunk.length ⟨0, .complete, writes⟩ ⟨chunk.length, .complete, [], writes⟩ where
  offset_eq := rfl
  flow_eq := rfl
  writes_eq := rfl
  offers := by simp
  taken_eq := by simp
  not_idle := by simp
  calls_ne_nil := by simp

/-- The socket takes nothing, and that is the end. -/
lemma stop {result : Except Refusal Nat} (hlt : offset < chunk.length) (hflow : flow ≠ .complete)
    (hresult : ∀ taken, result = .ok taken → taken = 0) :
    Delivers chunk offset ⟨0, flow, rest⟩
      ⟨offset, flow, [.write (chunk.drop offset) result], rest⟩ where
  offset_eq := rfl
  flow_eq := rfl
  writes_eq := rfl
  offers := by
    intro front call back hcalls
    obtain ⟨rfl, rfl, rfl⟩ := only_call hcalls
    exact ⟨by simpa using hlt, result, by simp, fun count hcount => by simp [hresult count hcount]⟩
  taken_eq := by
    cases result with
    | error refusal => simp [StreamCall.taken]
    | ok taken => simp [StreamCall.taken, hresult taken rfl]
  not_idle := fun hcomplete => absurd hcomplete hflow
  calls_ne_nil := by simp

/-- A call that is interrupted or moves bytes comes before the others. -/
lemma after {call : StreamCall} (h : Delivers chunk (offset + count) delivery written)
    (hcount : count ≤ chunk.length - offset) (hoffers : call.Offers (chunk.drop offset))
    (hidle : call.isIdle = false) (htaken : call.taken = (chunk.drop offset).take count) :
    Delivers chunk offset (delivery.add count) (written.after call) where
  offset_eq := by rw [Written.after, h.offset_eq, Delivery.add, Nat.add_assoc]
  flow_eq := h.flow_eq
  writes_eq := h.writes_eq
  offers := by
    rintro (_ | ⟨first, front⟩) other back hcalls
    · obtain ⟨rfl, -⟩ := List.cons.inj hcalls
      exact hoffers
    · obtain ⟨rfl, hrest⟩ := List.cons.inj hcalls
      have hother := h.offers front other back hrest
      rw [takenBy_cons, htaken, List.length_append, List.length_take, List.length_drop,
        Nat.min_eq_left hcount, ← Nat.add_assoc]
      exact hother
  taken_eq := by
    simp only [Written.after, takenBy_cons, htaken, h.taken_eq, Delivery.add]
    rw [List.take_add, List.drop_drop]
  not_idle := by
    intro hflow other hother
    rcases List.mem_cons.1 hother with rfl | hother
    · exact hidle
    · exact h.not_idle hflow other hother
  calls_ne_nil := by simp [Written.after]

variable {front back : List StreamCall}

/-- Nothing is read. -/
lemma givenBy_eq_nil (h : Delivers chunk offset delivery written) : givenBy written.calls = [] := by
  refine List.flatMap_eq_nil_iff.2 fun call hcall => ?_
  obtain ⟨front, back, heq⟩ := List.append_of_mem hcall
  obtain ⟨-, result, rfl, -⟩ := h.offers front call back heq
  rfl

lemma givenBy_front_eq_nil (h : Delivers chunk offset delivery written)
    (heq : written.calls = front ++ back) : givenBy front = [] := by
  have hnil := h.givenBy_eq_nil
  rw [heq, givenBy_append, List.append_eq_nil_iff] at hnil
  exact hnil.1

/-- What has been taken and what is left make up what there was to be written. -/
lemma takenBy_front_append (h : Delivers chunk offset delivery written)
    (heq : written.calls = front ++ back) :
    takenBy front ++ chunk.drop (offset + (takenBy front).length) = chunk.drop offset := by
  have hprefix : takenBy front <+: chunk.drop offset := by
    refine List.IsPrefix.trans ?_ (List.take_prefix delivery.count _)
    rw [← h.taken_eq, heq, takenBy_append]
    exact List.prefix_append _ _
  obtain ⟨left, hleft⟩ := hprefix
  rw [← List.drop_drop, ← hleft, List.drop_left]

end Delivers

/-- Writing a chunk is delivering what is left of it. -/
lemma delivers_writeFrom (chunk : Bytes) (offset : Nat) (outcomes : List WriteOutcome)
    (h : offset ≤ chunk.length) :
    Delivers chunk offset (deliver (chunk.length - offset) outcomes)
      (writeFrom chunk offset outcomes) := by
  induction outcomes generalizing offset with
  | nil =>
    rcases Nat.lt_or_eq_of_le h with hlt | rfl
    · obtain ⟨size, hsize⟩ := Nat.exists_eq_add_of_lt hlt
      have hleft : chunk.length - offset = size + 1 := by omega
      rw [writeFrom, if_pos hlt, hleft, deliver]
      exact .stop hlt (by simp) (by simp)
    · simp only [writeFrom, Nat.lt_irrefl, if_false, Nat.sub_self, deliver]
      exact .complete []
  | cons outcome rest ih =>
    rcases Nat.lt_or_eq_of_le h with hlt | rfl
    · obtain ⟨size, hsize⟩ := Nat.exists_eq_add_of_lt hlt
      have hleft : chunk.length - offset = size + 1 := by omega
      have hoffered : chunk.drop offset ≠ [] := by
        rw [ne_eq, List.drop_eq_nil_iff]
        omega
      rw [writeFrom, if_pos hlt, hleft]
      simp only [List.length_drop, hleft]
      cases outcome with
      | wouldBlock => exact .stop hlt (by simp) (by simp)
      | failed => exact .stop hlt (by simp) (by simp)
      | interrupted =>
        have hrest := ih offset h
        rw [hleft] at hrest
        have hafter : Delivers chunk offset ((deliver (size + 1) rest).add 0)
            ((writeFrom chunk offset rest).after
              (.write (chunk.drop offset) (.error .interrupted))) :=
          hrest.after (Nat.zero_le _) ⟨hoffered, _, rfl, by simp⟩ rfl rfl
        simpa [Delivery.add, deliver] using hafter
      | accepted limit =>
        cases limit with
        | zero =>
          simp only [Nat.zero_min, if_true, deliver]
          exact .stop hlt (by simp) (by simp)
        | succ limit =>
          have hcount : min (limit + 1) (size + 1) = min limit size + 1 := by omega
          have hrest := ih (offset + (min limit size + 1)) (by omega)
          have hleft' : chunk.length - (offset + (min limit size + 1)) = size - limit := by omega
          rw [hleft'] at hrest
          simp only [hcount, Nat.add_one_ne_zero, if_false, deliver]
          refine hrest.after (by omega) ⟨hoffered, _, rfl, ?_⟩
            (StreamCall.isIdle_write hoffered (Nat.succ_ne_zero _)) rfl
          intro count heq
          obtain rfl := Except.ok.inj heq
          rw [List.length_drop]
          omega
    · simp only [writeFrom, Nat.lt_irrefl, if_false, Nat.sub_self, deliver]
      exact .complete _

end SiteServer
