import Mathlib.Data.List.Chain
import Mathlib.Data.List.Induction

/-!
# Hash chains

Nodes carry an identifier and may name the identifier of a predecessor.  A list
of nodes, oldest first, is `Linked` when its first node names no predecessor and
every later node names the one before it.

`linked_concat` is the rule the rest goes by: appending a node keeps a chain
linked exactly when the node names the current end.  `eq_of_last_id_eq` is
tamper evidence: where identifiers bind nodes, the last identifier of a chain
determines the whole chain.
-/

namespace AttributionChain.HashChain

variable {Node Id : Type} {id : Node → Id} {pred : Node → Option Id}

variable (id pred) in
/-- Every node names its predecessor, and the first node has none. -/
structure Linked (chain : List Node) : Prop where
  start : ∀ first, chain.head? = some first → pred first = none
  links : chain.IsChain fun older newer => pred newer = some (id older)

variable (id) in
/-- Equal identifiers mean equal nodes, across two lists. -/
def Binding (left right : List Node) : Prop :=
  ∀ first ∈ left, ∀ second ∈ right, id first = id second → first = second

theorem linked_nil : Linked id pred [] := ⟨by simp, List.isChain_nil⟩

/-- A new end names the old one. -/
theorem linked_concat {chain : List Node} {last : Node} :
    Linked id pred (chain ++ [last]) ↔
      Linked id pred chain ∧ pred last = chain.getLast?.map id := by
  rcases List.eq_nil_or_concat' chain with rfl | ⟨front, previous, rfl⟩
  · constructor
    · intro h
      exact ⟨linked_nil, h.start last rfl⟩
    · rintro ⟨-, hpred⟩
      exact ⟨by simpa using hpred, List.isChain_singleton _⟩
  · have hhead : ∀ back : List Node,
        ((front ++ [previous]) ++ back).head? = (front ++ [previous]).head? := by
      intro back
      cases front <;> rfl
    have hlast : (front ++ [previous]).getLast?.map id = some (id previous) := by simp
    rw [hlast]
    constructor
    · intro h
      have hlinks := List.isChain_append.mp h.links
      refine ⟨⟨fun first hfirst => h.start first ((hhead _).trans hfirst), hlinks.1⟩, ?_⟩
      exact hlinks.2.2 previous (by simp) last (by simp)
    · rintro ⟨hchain, hpred⟩
      refine ⟨fun first hfirst => hchain.start first ((hhead _).symm.trans hfirst), ?_⟩
      refine hchain.links.append (List.isChain_singleton _) ?_
      intro older holder newer hnewer
      have holder : older = previous := by simpa using holder.symm
      have hnewer : newer = last := by simpa using hnewer.symm
      rw [holder, hnewer]
      exact hpred

/-- The predecessor that a node names is the node before it. -/
theorem Linked.pred_eq {chain : List Node} (h : Linked id pred chain) (i : Nat) (node : Node) :
    chain[i]? = some node → pred node = match i with
      | 0 => none
      | j + 1 => chain[j]?.map id := by
  intro hi
  rcases i with _ | j
  · exact h.start node (List.head?_eq_getElem?.trans hi)
  · obtain ⟨hlt, rfl⟩ := List.getElem?_eq_some_iff.mp hi
    change pred _ = chain[j]?.map id
    rw [List.isChain_iff_getElem.mp h.links j hlt, List.getElem?_eq_getElem (Nat.lt_of_succ_lt hlt),
      Option.map_some]

/-- **Tamper evidence.**  The last identifier of a chain determines the chain. -/
theorem eq_of_last_id_eq {left right : List Node} (hleft : Linked id pred left)
    (hright : Linked id pred right) (hbinding : Binding id left right)
    (hlast : left.getLast?.map id = right.getLast?.map id) : left = right := by
  -- backwards: equal ends name the same predecessor, or both are the first node
  induction left using List.reverseRecOn generalizing right with
  | nil =>
    rcases List.eq_nil_or_concat' right with rfl | ⟨front, last, rfl⟩
    · rfl
    · simp at hlast
  | append_singleton left first ih =>
    rcases List.eq_nil_or_concat' right with rfl | ⟨right, second, rfl⟩
    · simp at hlast
    · have heq : first = second := hbinding first (by simp) second (by simp) (by simpa using hlast)
      subst heq
      obtain ⟨hleft, hfirst⟩ := linked_concat.mp hleft
      obtain ⟨hright, hsecond⟩ := linked_concat.mp hright
      have hrest : left = right := by
        refine ih hleft hright ?_ (hfirst.symm.trans hsecond)
        intro older holder newer hnewer
        exact hbinding older (List.mem_append_left _ holder) newer (List.mem_append_left _ hnewer)
      rw [hrest]

end AttributionChain.HashChain
