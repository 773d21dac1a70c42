import Mathlib.Data.BitVec
import SiteServer.Proofs.Server.Phases

/-!
# Whom a poll event is for

The waker, the listeners and the connections register with one poll, under words of 64 bits.  The
loop tells them apart by three tests, and finds with each word whoever registered it, as long as
there are fewer than `2 ^ 63` listeners (`tokens_unambiguous`).  The arithmetic of `Token` and
`SlotId` is what shifts, masks and differences of words come to: none of them overflows.
-/

namespace SiteServer

/-! ### Words -/

namespace SlotId

variable {id : SlotId}

/-- An identity whose parts have room in a token. -/
structure InRange (id : SlotId) : Prop where
  index_lt : id.index < 2 ^ 24
  generation_lt : id.generation < 2 ^ 39

/-- The word that carries an identity: the generation is shifted up and the index put below it. -/
def word (id : SlotId) : BitVec 64 :=
  BitVec.ofNat 64 id.generation <<< 24 ||| BitVec.ofNat 64 id.index

/-- The identity that a word carries, when its generation leaves the top bit free. -/
def ofWord? (word : BitVec 64) : Option SlotId :=
  if word >>> 24 ≤ BitVec.allOnes 64 >>> 24 >>> 1 then
    some ⟨(word &&& (1#64 <<< 24 - 1#64)).toNat, (word >>> 24).toNat⟩
  else
    none

/-- No bit of a generation is lost when it is shifted up. -/
lemma toNat_shiftLeft_generation (h : id.InRange) :
    (BitVec.ofNat 64 id.generation <<< 24).toNat = id.generation * 2 ^ 24 := by
  have hlt := h.generation_lt
  rw [BitVec.toNat_shiftLeft, BitVec.toNat_ofNat, Nat.shiftLeft_eq]
  omega

/-- The index stays below the generation, so to put the bits together is to add. -/
lemma toNat_word (h : id.InRange) : id.word.toNat = id.token := by
  have hindex : (BitVec.ofNat 64 id.index).toNat = id.index := by
    rw [BitVec.toNat_ofNat, Nat.mod_eq_of_lt (h.index_lt.trans (by decide))]
  rw [word, BitVec.toNat_or, toNat_shiftLeft_generation h, hindex, Nat.mul_comm,
    ← Nat.two_pow_add_eq_or_of_lt h.index_lt, Nat.mul_comm]
  rfl

lemma ofToken?_toNat (word : BitVec 64) : ofToken? word.toNat = ofWord? word := by
  have hgeneration : (word >>> 24).toNat = word.toNat / indexCount := by
    rw [BitVec.toNat_ushiftRight, Nat.shiftRight_eq_div_pow]
    rfl
  have hindex : (word &&& (1#64 <<< 24 - 1#64)).toNat = word.toNat % indexCount := by
    rw [BitVec.toNat_and]
    exact Nat.and_two_pow_sub_one_eq_mod word.toNat 24
  have hmask : (BitVec.allOnes 64 >>> 24 >>> 1).toNat = generationCount - 1 := rfl
  have hle : word >>> 24 ≤ BitVec.allOnes 64 >>> 24 >>> 1 ↔
      word.toNat / indexCount < generationCount := by
    rw [BitVec.le_def, hgeneration, hmask]
    exact Nat.le_sub_one_iff_lt (by decide)
  simp only [ofToken?, ofWord?, hle, hgeneration, hindex]

end SlotId

namespace Token

/-- The word of the listener with that index. -/
def listenerWord (index : Nat) : BitVec 64 :=
  BitVec.allOnes 64 - 1#64 - BitVec.ofNat 64 index

/-- The index of the listener with that word, which is found by a difference unless it would be
negative. -/
def listenerIndexOfWord? (word : BitVec 64) (listeners : Nat) : Option Nat :=
  if word ≤ BitVec.allOnes 64 - 1#64 then
    let index := (BitVec.allOnes 64 - 1#64 - word).toNat
    if index < listeners then some index else none
  else
    none

/-- The difference that makes a listener's word is not negative. -/
lemma toNat_listenerWord {index : Nat} (h : index ≤ 2 ^ 64 - 1 - 1) :
    (listenerWord index).toNat = listener index := by
  have hindex : (BitVec.ofNat 64 index).toNat = index := by
    rw [BitVec.toNat_ofNat, Nat.mod_eq_of_lt (by omega)]
  have hle : BitVec.ofNat 64 index ≤ BitVec.allOnes 64 - 1#64 := by
    rw [BitVec.le_def, hindex]
    exact h
  rw [listenerWord, BitVec.toNat_sub_of_le hle, hindex]
  rfl

lemma listenerIndex?_toNat (word : BitVec 64) (listeners : Nat) :
    listenerIndex? word.toNat listeners = listenerIndexOfWord? word listeners := by
  have hle : word ≤ BitVec.allOnes 64 - 1#64 ↔ word.toNat ≤ count - 2 := Iff.rfl
  rw [listenerIndex?, listenerIndexOfWord?]
  by_cases hword : word ≤ BitVec.allOnes 64 - 1#64
  · have hindex : (BitVec.allOnes 64 - 1#64 - word).toNat = count - 2 - word.toNat :=
      BitVec.toNat_sub_of_le hword
    simp only [hword, hle.1 hword, hindex, true_and, if_true]
  · simp only [hword, mt hle.2 hword, false_and, if_false]

end Token

/-! ### Who has registered -/

/-- What registers with the poll: the waker, the listeners and the connections. -/
inductive Registrant where
  | waker
  | listener (index : Nat)
  | slot (id : SlotId)
  deriving DecidableEq, Repr

namespace Registrant

/-- The word that it registers under. -/
def token : Registrant → Nat
  | .waker => Token.waker
  | .listener index => Token.listener index
  | .slot id => id.token

/-- It is one that a server with so many listeners can have. -/
def Fits (listeners : Nat) : Registrant → Prop
  | .waker => True
  | .listener index => index < listeners
  | .slot id => id.InRange

/-- The one who has registered under a word, as the tests of the loop find it. -/
def ofToken? (listeners token : Nat) : Option Registrant :=
  if token = Token.waker then some .waker
  else
    match Token.listenerIndex? token listeners with
    | some index => some (.listener index)
    | none => (SlotId.ofToken? token).map .slot

end Registrant

namespace Server

/-- The server after an event for a registrant. -/
def notify (server : Server) : Registrant → Server
  | .waker => server
  | .listener index => server.submit (.accept index)
  | .slot id => server.dispatch id

/-- An event is passed on to the one whom the tests find, and dropped when they find nobody. -/
lemma handle_eq (server : Server) (token : Nat) :
    server.handle token
      = (Registrant.ofToken? server.listeners token).elim server server.notify := by
  unfold handle Registrant.ofToken?
  split
  · rfl
  · split
    · simp_all [notify]
    · cases SlotId.ofToken? token <;> simp_all [notify]

end Server

section Tests

variable {listeners index : Nat} {id : SlotId}

lemma SlotId.InRange.ofToken?_token (h : id.InRange) : SlotId.ofToken? id.token = some id :=
  SlotId.ofToken?_token h.index_lt h.generation_lt

/-- Tokens of slots do not have the top bit. -/
lemma SlotId.InRange.token_lt (h : id.InRange) : id.token < 2 ^ 63 := by
  obtain ⟨hindex, hgeneration⟩ := h
  simp only [token, indexCount]
  omega

/-- A token carries an identity when it does not have the top bit. -/
lemma isSome_ofToken?_iff (token : Nat) : (SlotId.ofToken? token).isSome ↔ token < 2 ^ 63 := by
  have hlt : token / SlotId.indexCount < SlotId.generationCount ↔ token < 2 ^ 63 := by
    rw [Nat.div_lt_iff_lt_mul (by decide)]
    rfl
  simp [SlotId.ofToken?, hlt]

lemma inRange_of_ofToken? {token : Nat} (h : SlotId.ofToken? token = some id) : id.InRange := by
  simp only [SlotId.ofToken?, Option.ite_none_right_eq_some, Option.some.injEq] at h
  obtain ⟨hgeneration, rfl⟩ := h
  exact ⟨Nat.mod_lt _ (by decide), hgeneration⟩

/-- The waker and the listeners have the top bit. -/
lemma ofToken?_of_le {token : Nat} (h : 2 ^ 63 ≤ token) : SlotId.ofToken? token = none := by
  rw [← Option.not_isSome_iff_eq_none, isSome_ofToken?_iff]
  omega

lemma le_listener (h : index < listeners) (hl : listeners ≤ 2 ^ 63 - 1) :
    2 ^ 63 ≤ Token.listener index := by
  simp only [Token.listener, Token.count]
  omega

lemma listenerIndex?_of_lt {token : Nat} (h : token < 2 ^ 63) (hl : listeners ≤ 2 ^ 63 - 1) :
    Token.listenerIndex? token listeners = none := by
  rw [Token.listenerIndex?, if_neg]
  simp only [Token.count]
  omega

/-- The tests find whoever has registered under a token. -/
theorem Registrant.ofToken?_token {registrant : Registrant} (h : registrant.Fits listeners)
    (hl : listeners ≤ 2 ^ 63 - 1) :
    Registrant.ofToken? listeners registrant.token = some registrant := by
  cases registrant with
  | waker => rfl
  | listener index =>
    have hle : listeners ≤ Token.count / 2 := hl.trans (by decide)
    have hne : Token.listener index ≠ Token.waker := by
      have hindex : index < listeners := h
      simp only [Token.listener, Token.waker, Token.count]
      omega
    simp [ofToken?, token, hne, Token.listenerIndex?_listener h hle]
  | slot id =>
    have hlt : id.token < 2 ^ 63 := SlotId.InRange.token_lt h
    have hne : id.token ≠ Token.waker := by
      simp only [Token.waker, Token.count]
      omega
    simp [ofToken?, token, hne, listenerIndex?_of_lt hlt hl, SlotId.InRange.ofToken?_token h]

end Tests

/-! ### Running servers -/

namespace Server

variable {H : Type} {around : Surroundings H} {server next : Server} {registers : Bool}
  {id : SlotId} {c : Connection} {interest : Interest}

/-- No token that is watched is out of range. -/
structure Registered (listeners : Nat) (server : Server) : Prop where
  listeners_eq : server.listeners = listeners
  inRange : ∀ id ∈ server.watched.map Prod.fst, id.InRange

/-- An identity that stands for something is in range. -/
lemma Staged.inRange_of_state? {limit : Nat} (hs : Staged limit server)
    (hlimit : limit ≤ SlotId.indexCount) {state : SlotState Connection}
    (hstate : server.slots.state? id = some state) : id.InRange := by
  have hindex := (List.getElem?_eq_some_iff.1 (SlotTable.slot_of_state? hstate)).1
  have hgeneration := hs.generationAt_lt id.index
  rw [SlotTable.generationAt_of_state? hstate] at hgeneration
  exact ⟨(hindex.trans_le hs.within.length_le).trans_le hlimit, hgeneration⟩

/-- The identities that are watched from now on have a slot. -/
def WatchesHeld (server next : Server) : Prop :=
  ∀ id ∈ next.watched.map Prod.fst,
    id ∈ server.watched.map Prod.fst ∨ (next.slots.state? id).isSome

lemma watchesHeld_of_subset
    (h : ∀ id ∈ next.watched.map Prod.fst, id ∈ server.watched.map Prod.fst) :
    WatchesHeld server next :=
  fun id hmem => .inl (h id hmem)

lemma watchesHeld_watch (server : Server) (registers : Bool) (id : SlotId) (c : Connection)
    (interest : Interest) : WatchesHeld server (server.watch registers id c interest) := by
  unfold watch
  split
  · split
    · next slots hpark =>
      obtain ⟨hlent, rfl⟩ := SlotTable.park_eq_some_iff.1 hpark
      intro id' hmem
      simp only [List.map_append, List.mem_append, List.map_cons, List.map_nil,
        List.mem_singleton] at hmem
      refine hmem.imp_right fun heq => ?_
      simp [heq, SlotTable.state?_setState hlent]
    · exact watchesHeld_of_subset fun _ hmem => hmem
  · exact watchesHeld_of_subset fun _ hmem => hmem

lemma watchesHeld_welcome (server : Server) (registers : Bool) (peer : Nat) :
    WatchesHeld server (server.welcome registers peer) := by
  unfold welcome
  split
  · exact watchesHeld_of_subset fun _ hmem => hmem
  · split
    · exact watchesHeld_of_subset fun _ hmem => hmem
    · next c lent _ => exact watchesHeld_watch { server with slots := lent } registers _ c .readable

lemma mem_watched_handle (server : Server) (token : Nat) :
    ∀ id' ∈ (server.handle token).watched.map Prod.fst, id' ∈ server.watched.map Prod.fst := by
  intro id' hmem
  unfold handle dispatch at hmem
  split at hmem
  · exact hmem
  · split at hmem
    · exact hmem
    · split at hmem
      · split at hmem
        · exact hmem
        · exact (List.filter_sublist.map Prod.fst).subset hmem
      · exact hmem

lemma watchesHeld_loop (moved : LoopMoved server registers next) : WatchesHeld server next := by
  cases moved with
  | @handle token rest _ =>
    exact watchesHeld_of_subset (mem_watched_handle { server with phase := .handling rest } token)
  | @process completion rest _ _ => cases completion with
    | accepted peer => exact watchesHeld_welcome { server with completions := rest } registers peer
    | acceptAgain | closed => exact watchesHeld_of_subset fun _ hmem => hmem
    | stepped c interest => exact watchesHeld_watch { server with completions := rest } _ _ _ _
  | @discard completion rest _ _ => cases completion with
    | _ => exact watchesHeld_of_subset fun _ hmem => hmem
  | closeAll => exact watchesHeld_of_subset (by simp [closeAll])
  | check | handled | processed | publish | shutdown =>
    exact watchesHeld_of_subset fun _ hmem => hmem

lemma listeners_watch (server : Server) (registers : Bool) (id : SlotId) (c : Connection)
    (interest : Interest) :
    (server.watch registers id c interest).listeners = server.listeners := by
  unfold watch
  repeat' split
  all_goals rfl

lemma listeners_loop (moved : LoopMoved server registers next) :
    next.listeners = server.listeners := by
  cases moved with
  | @handle token rest _ =>
    unfold handle dispatch
    repeat' split
    all_goals rfl
  | @process completion rest _ _ => cases completion with
    | accepted peer =>
      simp only [process, welcome]
      split
      · rfl
      · split
        · rfl
        · exact listeners_watch { server with completions := rest, slots := _ } _ _ _ _
    | acceptAgain | closed => rfl
    | stepped c interest => exact listeners_watch { server with completions := rest } _ _ _ _
  | @discard completion rest _ _ => cases completion with
    | _ => rfl
  | closeAll | check | handled | processed | publish | shutdown => rfl

lemma Registered.move {limit listeners : Nat} (h : Registered listeners server)
    (hs : Staged limit server) (hlimit : limit ≤ SlotId.indexCount) {move : ServerMove}
    (hmove : server.move? around move = some next) : Registered listeners next := by
  cases moved_of_move? hmove with
  | loop hmoved =>
    refine ⟨(listeners_loop hmoved).trans h.listeners_eq, fun id hmem => ?_⟩
    rcases watchesHeld_loop hmoved id hmem with hbefore | hsome
    · exact h.inRange id hbefore
    · obtain ⟨state, hstate⟩ := Option.isSome_iff_exists.1 hsome
      exact (hs.move hmove).inRange_of_state? hlimit hstate
  | _ => exact ⟨h.listeners_eq, h.inRange⟩

/-- Whatever a server does, those whose sockets are watched are in range. -/
lemma Run.registered {σ : Type} {journal : Journal H σ} {kept : σ}
    {listeners workers connectionLimit : Nat}
    (h : Run journal (.start listeners workers connectionLimit) kept server) :
    Registered listeners server := by
  induction h with
  | start => exact ⟨rfl, by simp [Server.start]⟩
  | step _ hbefore hmove ih =>
    exact ih.move hbefore.staged_of_start (Nat.min_le_right _ _) hmove

end Server

/-! ### The tests -/

/-- With so many listeners, the loop finds with every token whoever has registered it. -/
structure Unambiguous (listeners : Nat) : Prop where
  /-- Tokens are words, and no two registrants have one token. -/
  token_lt : ∀ registrant : Registrant, registrant.Fits listeners → registrant.token < 2 ^ 64
  token_inj : ∀ a b : Registrant, a.Fits listeners → b.Fits listeners → a.token = b.token → a = b
  listenerIndex?_listener : ∀ index < listeners,
    Token.listenerIndex? (Token.listener index) listeners = some index
  listenerIndex?_waker : Token.listenerIndex? Token.waker listeners = none
  listenerIndex?_slot : ∀ id : SlotId, id.InRange →
    Token.listenerIndex? id.token listeners = none
  ofToken?_slot : ∀ id : SlotId, id.InRange → SlotId.ofToken? id.token = some id
  ofToken?_waker : SlotId.ofToken? Token.waker = none
  ofToken?_listener : ∀ index < listeners, SlotId.ofToken? (Token.listener index) = none
  /-- The words of slots are those without the top bit, each that of one identity. -/
  isSome_ofToken?_iff : ∀ token < 2 ^ 64, (SlotId.ofToken? token).isSome ↔ token < 2 ^ 63
  token_ofToken? : ∀ token id, SlotId.ofToken? token = some id → id.InRange ∧ id.token = token
  /-- No bit of a generation is shifted out of the word, and the token is what the word says. -/
  word_slot : ∀ id : SlotId, id.InRange →
    (BitVec.ofNat 64 id.generation <<< 24).toNat = id.generation * 2 ^ 24 ∧
      id.word.toNat = id.token
  /-- The difference that makes the word of a listener is not negative. -/
  word_listener : ∀ index < listeners,
    index ≤ (BitVec.allOnes 64 - 1#64).toNat ∧
      (Token.listenerWord index).toNat = Token.listener index
  ofWord? : ∀ word : BitVec 64, SlotId.ofWord? word = SlotId.ofToken? word.toNat
  listenerIndexOfWord? : ∀ word : BitVec 64,
    Token.listenerIndexOfWord? word listeners = Token.listenerIndex? word.toNat listeners
  /-- The loop passes an event on to the one whose token it has. -/
  handle_token : ∀ (server : Server) (registrant : Registrant), server.listeners = listeners →
    registrant.Fits listeners → server.handle registrant.token = server.notify registrant
  /-- Every socket that a server watches is one of those. -/
  handle_watched : ∀ {H : Type} (workers connectionLimit : Nat) (server : Server),
    Server.Reachable H listeners workers connectionLimit server →
      ∀ id ∈ server.watched.map Prod.fst, id.InRange ∧ server.handle id.token = server.dispatch id

/-- Poll tokens are unambiguous: as long as there are fewer than `2 ^ 63` listeners, the tests of
the loop pass each event on to the one who has registered its token, and nobody else has it. -/
theorem tokens_unambiguous (listeners : Nat) (hl : listeners ≤ 2 ^ 63 - 1) :
    Unambiguous listeners := by
  have hhandle : ∀ (server : Server) (registrant : Registrant), server.listeners = listeners →
      registrant.Fits listeners → server.handle registrant.token = server.notify registrant := by
    intro server registrant hserver hfits
    rw [Server.handle_eq, hserver, Registrant.ofToken?_token hfits hl]
    rfl
  refine
    { token_lt := fun registrant hfits => ?_
      token_inj := fun a b ha hb heq => ?_
      listenerIndex?_listener := fun index hindex =>
        Token.listenerIndex?_listener hindex (hl.trans (by decide))
      listenerIndex?_waker := Token.listenerIndex?_waker listeners
      listenerIndex?_slot := fun id hid => listenerIndex?_of_lt hid.token_lt hl
      ofToken?_slot := fun id hid => hid.ofToken?_token
      ofToken?_waker := ofToken?_of_le (by decide)
      ofToken?_listener := fun index hindex => ofToken?_of_le (le_listener hindex hl)
      isSome_ofToken?_iff := fun token _ => SiteServer.isSome_ofToken?_iff token
      token_ofToken? := fun token id h => ⟨inRange_of_ofToken? h, SlotId.token_of_ofToken? h⟩
      word_slot := fun id hid => ⟨SlotId.toNat_shiftLeft_generation hid, SlotId.toNat_word hid⟩
      word_listener := fun index hindex => ?_
      ofWord? := fun word => (SlotId.ofToken?_toNat word).symm
      listenerIndexOfWord? := fun word => (Token.listenerIndex?_toNat word listeners).symm
      handle_token := hhandle
      handle_watched := ?_ }
  · cases registrant with
    | waker => decide
    | listener index =>
      simp only [Registrant.token, Token.listener, Token.count]
      omega
    | slot id => exact (SlotId.InRange.token_lt hfits).trans (by decide)
  · have hfound := Registrant.ofToken?_token ha hl
    rw [heq, Registrant.ofToken?_token hb hl] at hfound
    exact (Option.some.inj hfound).symm
  · have hle : index ≤ 2 ^ 64 - 1 - 1 := by omega
    exact ⟨hle, Token.toNat_listenerWord hle⟩
  · intro H workers connectionLimit server hreachable id hmem
    have hregistered := Server.Run.registered hreachable
    have hid := hregistered.inRange id hmem
    exact ⟨hid, hhandle server (.slot id) hregistered.listeners_eq hid⟩

/-- With as many listeners as there can be, the last one and the last identity have neighbouring
tokens. -/
theorem tokens_unambiguous_extreme :
    let listeners := 2 ^ 63 - 1
    let last : SlotId := ⟨2 ^ 24 - 1, 2 ^ 39 - 1⟩
    Unambiguous listeners ∧ Token.listener (listeners - 1) = last.token + 1 ∧
      Token.listenerIndex? last.token listeners = none ∧
      SlotId.ofToken? (Token.listener (listeners - 1)) = none := by
  have h := tokens_unambiguous (2 ^ 63 - 1) (Nat.le_refl _)
  exact ⟨h, by decide, h.listenerIndex?_slot _ ⟨by decide, by decide⟩,
    h.ofToken?_listener _ (by decide)⟩

end SiteServer
