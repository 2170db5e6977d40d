import Mathlib.Data.List.Basic

/-!
# Append-only logs

A log whose entries have an identifier, a position and possibly a parent.  An
entry is refused when its identifier is known, when its position is taken, or
when its parent is missing, in this order; otherwise it goes to the end.

`serve` runs a list of requests through a machine and collects the answers.
`serve_simulates` is the rule by which an implementation is compared with the log:
one request at a time.
-/

namespace AttributionChain.AppendLog

section Machines

variable {σ τ α β γ : Type}

/-- The state after a list of requests, with the answer to each. -/
def serve (step : σ → α → σ × β) : σ → List α → σ × List β
  | state, [] => (state, [])
  | state, request :: requests =>
    let (next, answer) := step state request
    let (final, answers) := serve step next requests
    (final, answer :: answers)

variable {code : σ → α → σ × β} {spec : τ → α → τ × γ} {simulates : σ → τ → Prop}

/-- **The simulation rule.** -/
theorem serve_simulates (translate : γ → β) {requests : List α}
    (hstep : ∀ request ∈ requests, ∀ state model, simulates state model →
      simulates (code state request).1 (spec model request).1 ∧
        (code state request).2 = translate (spec model request).2)
    {state : σ} {model : τ} (h : simulates state model) :
    simulates (serve code state requests).1 (serve spec model requests).1 ∧
      (serve code state requests).2 = (serve spec model requests).2.map translate := by
  induction requests generalizing state model with
  | nil => exact ⟨h, rfl⟩
  | cons request requests ih =>
    obtain ⟨hnext, hanswer⟩ := hstep request (List.mem_cons_self ..) state model h
    obtain ⟨hfinal, hanswers⟩ :=
      ih (fun other hother => hstep other (List.mem_cons_of_mem _ hother)) hnext
    refine ⟨hfinal, ?_⟩
    simp only [serve, List.map_cons]
    rw [hanswer, hanswers]

end Machines

/-- What identifies an entry, where it stands, and the entry it names. -/
structure Scheme (α ι π : Type) where
  id : α → ι
  position : α → π
  parent : α → Option ι

inductive Refusal where
  | duplicate
  | taken
  | orphan
deriving DecidableEq, Repr

section Append

variable {α ι π : Type} [DecidableEq ι] [DecidableEq π] (scheme : Scheme α ι π)

/-- Refuse the entry, or put it at the end. -/
def Scheme.append (log : List α) (entry : α) : List α × Option Refusal :=
  if ∃ stored ∈ log, scheme.id stored = scheme.id entry then (log, some .duplicate)
  else if ∃ stored ∈ log, scheme.position stored = scheme.position entry then (log, some .taken)
  else if ∃ parent ∈ scheme.parent entry, ∀ stored ∈ log, scheme.id stored ≠ parent then
    (log, some .orphan)
  else (log ++ [entry], none)

end Append

end AttributionChain.AppendLog
