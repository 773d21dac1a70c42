import Mathlib.Tactic.Lemma
import SiteServer.Server.EventLoop

/-!
# Runs and what is kept of them

What a journal keeps has no part in a run: behind one run the moves of another one can be made, and
the journal of the first goes on (`Run.exists_append`).  What each move preserves is true all the
way (`Run.invariant`).
-/

namespace SiteServer.Server

variable {H σ τ : Type} {journal : Journal H σ} {other : Journal H τ} {first server later : Server}
  {kept : σ} {kept' : τ}

/-- Runs one after the other are a run, whatever has been kept of the second one. -/
lemma Run.exists_append (h : Run journal first kept server) (h' : Run other server kept' later) :
    ∃ kept, Run journal first kept later := by
  induction h' with
  | start => exact ⟨_, h⟩
  | step around _ hmove ih =>
    obtain ⟨_, hbefore⟩ := ih
    exact ⟨_, hbefore.step around hmove⟩

/-- What every move keeps true is true of whatever a server comes to. -/
lemma Run.invariant {P : Server → Prop}
    (step : ∀ {around : Surroundings H} {server next : Server} {move : ServerMove}, P server →
      server.move? around move = some next → P next)
    (h : Run journal first kept server) (start : P first) : P server := by
  induction h with
  | start => exact start
  | step _ _ hmove ih => exact step ih hmove

/-- What is kept, and the server, after a move that can be made. -/
def Journal.follow? (journal : Journal H σ) (around : Surroundings H) (state : σ × Server)
    (move : ServerMove) : Option (σ × Server) :=
  (state.2.move? around move).map fun next =>
    (journal.enter around state.2 next move state.1, next)

/-- What each of some moves keeps true is true after all of them. -/
lemma invariant_of_foldlM {α β : Type} {f : α → β → Option α} {P : α → Prop}
    (step : ∀ {state next : α} {move : β}, P state → f state move = some next → P next)
    {moves : List β} {state last : α} (h : P state)
    (hmoves : moves.foldlM f state = some last) : P last := by
  induction moves generalizing state with
  | nil =>
    obtain rfl := Option.some.inj hmoves
    exact h
  | cons move rest ih =>
    rw [List.foldlM_cons] at hmoves
    obtain ⟨middle, hmove, hrest⟩ := Option.bind_eq_some_iff.1 hmoves
    exact ih (step h hmove) hrest

/-- Moves that can be made one after the other in the same surroundings are a run. -/
lemma Run.of_foldlM {around : Surroundings H} {moves : List ServerMove} {state last : σ × Server}
    (h : Run journal first state.1 state.2)
    (hmoves : moves.foldlM (journal.follow? around) state = some last) :
    Run journal first last.1 last.2 := by
  refine invariant_of_foldlM (P := fun state => Run journal first state.1 state.2)
    (fun hbefore hafter => ?_) h hmoves
  obtain ⟨next, hmove, rfl⟩ := Option.map_eq_some_iff.1 hafter
  exact hbefore.step around hmove

end SiteServer.Server
