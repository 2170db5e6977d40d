import Mathlib.Algebra.Ring.Nat
import Mathlib.Data.List.Induction

/-!
# Histories and runs

Two inductions that everything about an append-only system goes by.

* `Grown fits` are the lists built at their end, where every item fits the list
  it was appended to.  `grown_concat` is the rule for one more item.
* `Reaches step allowed start` are the states reached by allowed actions of a
  transition function.  `Reaches.invariant` proves a property of all of them from
  one step.  A `traced` step also keeps a list of what happened, and
  `Reaches.simulates` replays such a list in another system.
-/

namespace AttributionChain.Histories

section Grown

variable {α : Type} {fits : List α → α → Prop} {front items : List α} {item : α}

/-- A list built at its end, every item fitting what was there before it. -/
inductive Grown (fits : List α → α → Prop) : List α → Prop
  | nil : Grown fits []
  | concat {front : List α} {item : α} :
      Grown fits front → fits front item → Grown fits (front ++ [item])

theorem grown_concat : Grown fits (front ++ [item]) ↔ Grown fits front ∧ fits front item := by
  constructor
  · intro h
    generalize hwhole : front ++ [item] = whole at h
    cases h with
    | nil => simp at hwhole
    | concat hfront hfits =>
      obtain ⟨rfl, hitem⟩ := List.append_inj' hwhole rfl
      cases hitem
      exact ⟨hfront, hfits⟩
  · rintro ⟨hfront, hfits⟩
    exact .concat hfront hfits

theorem Grown.of_append {front back : List α} (h : Grown fits (front ++ back)) :
    Grown fits front := by
  induction back using List.reverseRecOn with
  | nil => rwa [List.append_nil] at h
  | append_singleton back item ih =>
    rw [← List.append_assoc] at h
    exact ih (grown_concat.mp h).1

/-- The same, position by position. -/
theorem grown_iff_take :
    Grown fits items ↔ ∀ i item, items[i]? = some item → fits (items.take i) item := by
  constructor
  · intro h
    induction h with
    | nil => simp
    | @concat front last _ hfits ih =>
      intro i item hitem
      by_cases hi : i < front.length
      · rw [List.getElem?_append_left hi] at hitem
        rw [List.take_append_of_le_length (Nat.le_of_lt hi)]
        exact ih i item hitem
      · have hend : i = front.length := by
          have hlength := (List.getElem?_eq_some_iff.mp hitem).1
          rw [List.length_append, List.length_singleton] at hlength
          omega
        subst hend
        rw [List.getElem?_concat_length] at hitem
        cases hitem
        rwa [List.take_left]
  · intro h
    induction items using List.reverseRecOn with
    | nil => exact .nil
    | append_singleton front last ih =>
      refine .concat (ih ?_) ?_
      · intro i item hitem
        have hi := (List.getElem?_eq_some_iff.mp hitem).1
        have hfits := h i item (by rwa [List.getElem?_append_left hi])
        rwa [List.take_append_of_le_length (Nat.le_of_lt hi)] at hfits
      · have hfits := h front.length last List.getElem?_concat_length
        rwa [List.take_left] at hfits

/-- What fitting anywhere implies holds of every item. -/
theorem Grown.forall_mem {good : α → Prop} (h : Grown fits items)
    (hgood : ∀ front item, fits front item → good item) : ∀ item ∈ items, good item := by
  induction h with
  | nil => simp
  | @concat front item _ hfits ih =>
    intro other hother
    rcases List.mem_append.mp hother with hold | hnew
    · exact ih other hold
    · rw [List.mem_singleton.mp hnew]
      exact hgood front item hfits

/-- If no item conflicts with one before it, two items that conflict are the same. -/
theorem Grown.eq_of_conflict {conflict : α → α → Prop} (h : Grown fits items)
    (hsymm : ∀ left right, conflict left right → conflict right left)
    (hfits : ∀ front last, fits front last → ∀ earlier ∈ front, ¬ conflict earlier last)
    {left right : α} (hleft : left ∈ items) (hright : right ∈ items)
    (hconflict : conflict left right) : left = right := by
  induction h with
  | nil => cases hleft
  | @concat front last _ hlast ih =>
    rcases List.mem_append.mp hleft with hleftOld | hleftNew
    · rcases List.mem_append.mp hright with hrightOld | hrightNew
      · exact ih hleftOld hrightOld
      · rw [List.mem_singleton.mp hrightNew] at hconflict
        exact absurd hconflict (hfits front last hlast left hleftOld)
    · rw [List.mem_singleton.mp hleftNew] at hconflict ⊢
      rcases List.mem_append.mp hright with hrightOld | hrightNew
      · exact absurd (hsymm _ _ hconflict) (hfits front last hlast right hrightOld)
      · exact (List.mem_singleton.mp hrightNew).symm

end Grown

section Runs

variable {σ α : Type} {step : σ → α → Option σ} {allowed permitted : σ → α → Prop}
  {start state : σ}

/-- The states that allowed actions lead to. -/
inductive Reaches (step : σ → α → Option σ) (allowed : σ → α → Prop) (start : σ) : σ → Prop
  | refl : Reaches step allowed start start
  | step {state next : σ} {action : α} : Reaches step allowed start state →
      allowed state action → step state action = some next → Reaches step allowed start next

/-- **The invariant rule.**  The step may use that its state is reachable, and so
every invariant proved before. -/
theorem Reaches.invariant {holds : σ → Prop} (h : Reaches step allowed start state)
    (hstart : holds start)
    (hstep : ∀ state action next, Reaches step allowed start state → holds state →
      allowed state action → step state action = some next → holds next) : holds state := by
  induction h with
  | refl => exact hstart
  | step hreaches hallowed hnext ih => exact hstep _ _ _ hreaches ih hallowed hnext

theorem Reaches.mono (h : Reaches step allowed start state)
    (hmono : ∀ state action, allowed state action → permitted state action) :
    Reaches step permitted start state := by
  induction h with
  | refl => exact .refl
  | step _ hallowed hnext ih => exact .step ih (hmono _ _ hallowed) hnext

theorem Reaches.trans {middle : σ} (h : Reaches step allowed start middle)
    (hrest : Reaches step allowed middle state) : Reaches step allowed start state := by
  induction hrest with
  | refl => exact h
  | step _ hallowed hnext ih => exact .step ih hallowed hnext

/-- A step that checks its action first. -/
def checkedStep (allowed : σ → α → Prop) [∀ state action, Decidable (allowed state action)]
    (step : σ → α → Option σ) (state : σ) (action : α) : Option σ :=
  if allowed state action then step state action else none

theorem checkedStep_eq_some [∀ state action, Decidable (allowed state action)] {action : α}
    {next : σ} : checkedStep allowed step state action = some next ↔
      allowed state action ∧ step state action = some next := by
  unfold checkedStep
  split_ifs with h
  · simp [h]
  · simp [h]

/-- A list of actions, each allowed where it is taken. -/
theorem Reaches.of_checked [∀ state action, Decidable (allowed state action)] {actions : List α}
    {final : σ} (h : Reaches step allowed start state)
    (hrun : actions.foldlM (checkedStep allowed step) state = some final) :
    Reaches step allowed start final ∧ actions.foldlM step state = some final := by
  induction actions generalizing state with
  | nil =>
    cases hrun
    exact ⟨h, rfl⟩
  | cons action actions ih =>
    rw [List.foldlM_cons] at hrun
    obtain ⟨next, hnext, hrest⟩ := Option.bind_eq_some_iff.mp hrun
    obtain ⟨hallowed, htaken⟩ := checkedStep_eq_some.mp hnext
    obtain ⟨hreaches, hfinal⟩ := ih (.step h hallowed htaken) hrest
    refine ⟨hreaches, ?_⟩
    rw [List.foldlM_cons]
    exact Option.bind_eq_some_iff.mpr ⟨next, htaken, hfinal⟩

/-- A list of actions that are always allowed. -/
theorem Reaches.foldlM {actions : List α} {final : σ} (h : Reaches step allowed start state)
    (hallowed : ∀ action ∈ actions, ∀ state, allowed state action)
    (hrun : actions.foldlM step state = some final) : Reaches step allowed start final := by
  induction actions generalizing state with
  | nil =>
    cases hrun
    exact h
  | cons action actions ih =>
    rw [List.foldlM_cons] at hrun
    obtain ⟨next, hnext, hrest⟩ := Option.bind_eq_some_iff.mp hrun
    apply ih (.step h (hallowed action (List.mem_cons_self ..) state) hnext) _ hrest
    intro other hother
    exact hallowed other (List.mem_cons_of_mem _ hother)

end Runs

section Traced

variable {σ α ε : Type} {note : σ → α → σ → ε} {step : σ → α → Option σ}
  {allowed : σ → α → Prop}

/-- A step that writes down what it did. -/
def traced (note : σ → α → σ → ε) (step : σ → α → Option σ) (state : σ × List ε) (action : α) :
    Option (σ × List ε) :=
  (step state.1 action).map fun next => (next, state.2 ++ [note state.1 action next])

theorem traced_eq_some {state next : σ × List ε} {action : α} :
    traced note step state action = some next ↔
      step state.1 action = some next.1 ∧ next.2 = state.2 ++ [note state.1 action next.1] := by
  unfold traced
  rw [Option.map_eq_some_iff]
  constructor
  · rintro ⟨after, hstep, rfl⟩
    exact ⟨hstep, rfl⟩
  · rintro ⟨hstep, hnotes⟩
    exact ⟨next.1, hstep, Prod.ext rfl hnotes.symm⟩

/-- The notes have no influence on the run. -/
theorem Reaches.of_traced {start state : σ × List ε}
    (h : Reaches (traced note step) (fun state action => allowed state.1 action) start state) :
    Reaches step allowed start.1 state.1 := by
  induction h with
  | refl => exact .refl
  | step _ hallowed hnext ih => exact .step ih hallowed (traced_eq_some.mp hnext).1

/-- Notes can be taken of every run. -/
theorem Reaches.exists_traced {start state : σ} (h : Reaches step allowed start state) :
    ∃ notes, Reaches (traced note step) (fun state action => allowed state.1 action)
      (start, []) (state, notes) := by
  induction h with
  | refl => exact ⟨[], .refl⟩
  | @step state next action _ hallowed hnext ih =>
    obtain ⟨notes, hnotes⟩ := ih
    exact ⟨notes ++ [note state action next], .step hnotes hallowed
      (traced_eq_some.mpr ⟨hnext, rfl⟩)⟩

/-- **The simulation rule.**  A step is answered by the actions that it is noted with,
none or several; then the notes of a whole run are a run of the other system. -/
theorem Reaches.simulates {τ β : Type} {note : σ → α → σ → List β} {image : τ → β → Option τ}
    {related : σ → τ → Prop} {start : σ} {other : τ} {state : σ × List (List β)}
    (h : Reaches (traced note step) (fun state action => allowed state.1 action) (start, []) state)
    (hstart : related start other)
    (hstep : ∀ state action next twin, Reaches step allowed start state → related state twin →
      allowed state action → step state action = some next →
      ∃ nextTwin, (note state action next).foldlM image twin = some nextTwin ∧
        related next nextTwin) :
    ∃ twin, state.2.flatten.foldlM image other = some twin ∧ related state.1 twin := by
  induction h with
  | refl => exact ⟨other, rfl, hstart⟩
  | @step state next action hreaches hallowed hnext ih =>
    obtain ⟨twin, htwin, hrelated⟩ := ih
    obtain ⟨htaken, hnotes⟩ := traced_eq_some.mp hnext
    obtain ⟨nextTwin, hanswer, hnextRelated⟩ :=
      hstep state.1 action next.1 twin hreaches.of_traced hrelated hallowed htaken
    refine ⟨nextTwin, ?_, hnextRelated⟩
    rw [hnotes, List.flatten_append, List.flatten_singleton, List.foldlM_append, htwin]
    exact hanswer

end Traced

/-- A worker's progress is progress of all. -/
theorem sum_map_set_lt {α : Type} (rank : α → Nat) {workers : List α} {i : Nat} {old new : α}
    (hold : workers[i]? = some old) (hless : rank new < rank old) :
    ((workers.set i new).map rank).sum < (workers.map rank).sum := by
  induction workers generalizing i with
  | nil => cases hold
  | cons first rest ih =>
    cases i with
    | zero =>
      cases hold
      simpa using hless
    | succ i =>
      have hrest := ih hold
      simpa using hrest

end AttributionChain.Histories
