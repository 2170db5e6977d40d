import Mathlib.Data.Finset.Card
import Mathlib.Data.List.Lattice
import Mathlib.Logic.Function.Basic

/-!
# Depth-first enumeration of simple paths

`enumerate` lists the paths from a node to a target that visit no node twice, in the
order of a depth-first search that marks the nodes on its current path and follows
the edges of a node in the order of `out`.  Steps beyond a certain depth may be
forbidden (`within`).

* `mem_enumerate` says which paths are listed, for every amount of fuel.
* `enumerate_of_le`: fuel beyond the number of unvisited nodes changes nothing.
* `enumerate_filter`: edges that are on no listed path may be removed, and the list
  stays the same, order included.
* `enumerate_keep`: when edges are removed, the paths over them go and the others stay.
* `Leads.exists_crossing`: a path that leaves a set of nodes has an edge that does.
-/

namespace AttributionChain.SimplePaths

variable {V E : Type}

section Paths

variable (out : V → List E) (dest : E → V) (within : Nat → Bool) (target : V)

/-- The edges lead from a node to the target, each where the one before it ended. -/
inductive Leads : V → List E → Prop
  | last {current : V} {edge : E} (hout : edge ∈ out current) (hend : dest edge = target) :
      Leads current [edge]
  | cons {current : V} {edge : E} {path : List E} (hout : edge ∈ out current)
      (hrest : Leads (dest edge) path) : Leads current (edge :: path)

/-- A path that the search may take: it visits new nodes only, each once, and is not
too deep. -/
structure Allowed (depth : Nat) (visited : V → Bool) (path : List E) : Prop where
  fresh : ∀ edge ∈ path, visited (dest edge) = false
  nodup : (path.map dest).Nodup
  within : ∀ i < path.length, within (depth + i) = true

variable {out dest within target} {depth : Nat} {current : V} {visited : V → Bool}
  {path : List E} {edge : E}

theorem Leads.target_mem (h : Leads out dest target current path) :
    target ∈ path.map dest := by
  induction h with
  | last _ hend => simp [hend]
  | cons _ _ ih => exact List.mem_cons_of_mem _ ih

/-- A path from a node of a set to a target outside it leaves the set by one of its
edges. -/
theorem Leads.exists_crossing {inside : V → Prop} (h : Leads out dest target current path)
    (hcurrent : inside current) (htarget : ¬ inside target) :
    ∃ edge ∈ path, ∃ node, inside node ∧ edge ∈ out node ∧ ¬ inside (dest edge) := by
  induction h with
  | @last current edge hout hend =>
    exact ⟨edge, List.mem_singleton_self _, current, hcurrent, hout, hend ▸ htarget⟩
  | @cons current edge path hout hrest ih =>
    by_cases hnext : inside (dest edge)
    · obtain ⟨crossing, hmem, hcrossing⟩ := ih hnext
      exact ⟨crossing, List.mem_cons_of_mem _ hmem, hcrossing⟩
    · exact ⟨edge, List.mem_cons_self .., current, hcurrent, hout, hnext⟩

/-- A path from a node of a set that no edge leaves stays in it. -/
theorem Leads.inside {inside : V → Prop} (h : Leads out dest target current path)
    (hclosed : ∀ node, inside node → ∀ edge ∈ out node, inside (dest edge))
    (hcurrent : inside current) :
    ∀ edge ∈ path, ∃ node, inside node ∧ edge ∈ out node ∧ inside (dest edge) := by
  induction h with
  | @last current edge hout hend =>
    intro other hother
    cases List.mem_singleton.mp hother
    exact ⟨current, hcurrent, hout, hclosed current hcurrent edge hout⟩
  | @cons current edge path hout hrest ih =>
    have hnext := hclosed current hcurrent edge hout
    intro other hother
    rcases List.mem_cons.mp hother with rfl | hother
    · exact ⟨current, hcurrent, hout, hnext⟩
    · exact ih hnext other hother

theorem allowed_singleton :
    Allowed dest within depth visited [edge] ↔
      visited (dest edge) = false ∧ within depth = true := by
  constructor
  · intro h
    exact ⟨h.fresh edge (List.mem_singleton_self _), h.within 0 (by simp)⟩
  · rintro ⟨hfresh, hwithin⟩
    refine ⟨by simpa using hfresh, by simp, ?_⟩
    intro i hi
    obtain rfl : i = 0 := by simpa using hi
    exact hwithin

/-- The nodes of a finite set that are not on the current path. -/
def unvisited (nodes : Finset V) (visited : V → Bool) : Nat :=
  (nodes.filter fun node => visited node = false).card

theorem unvisited_le (nodes : Finset V) (visited : V → Bool) :
    unvisited nodes visited ≤ nodes.card := Finset.card_filter_le _ _

end Paths

section Search

variable [DecidableEq V] (out : V → List E) (dest : E → V) (within : Nat → Bool) (target : V)

/-- The paths that begin with an edge, given the search from where it leads. -/
def via (search : V → (V → Bool) → List (List E)) (depth : Nat) (visited : V → Bool) (edge : E) :
    List (List E) :=
  if visited (dest edge) = true then []
  else if within depth = false then []
  else if dest edge = target then [[edge]]
  else (search (dest edge) (Function.update visited (dest edge) true)).map (edge :: ·)

def enumerate : (fuel depth : Nat) → V → (V → Bool) → List (List E)
  | 0, _, _, _ => []
  | fuel + 1, depth, current, visited =>
    (out current).flatMap (via dest within target (enumerate fuel (depth + 1)) depth visited)

variable {out dest within target} {fuel depth : Nat} {current : V} {visited : V → Bool}
  {path : List E} {edge : E}

/-- A node that is marked is left alone afterwards. -/
theorem update_eq_false {node other : V} :
    Function.update visited node true other = false ↔ other ≠ node ∧ visited other = false := by
  by_cases hsame : other = node
  · subst hsame
    simp
  · simp [hsame]

theorem allowed_cons :
    Allowed dest within depth visited (edge :: path) ↔
      visited (dest edge) = false ∧ within depth = true ∧
        Allowed dest within (depth + 1) (Function.update visited (dest edge) true) path := by
  constructor
  · intro h
    have hnodup := List.nodup_cons.mp h.nodup
    refine ⟨h.fresh edge (List.mem_cons_self ..), h.within 0 (by simp), ?_, hnodup.2, ?_⟩
    · intro other hother
      refine update_eq_false.mpr ⟨?_, h.fresh other (List.mem_cons_of_mem _ hother)⟩
      intro hsame
      exact hnodup.1 (hsame ▸ List.mem_map_of_mem hother)
    · intro i hi
      have hdeeper := h.within (i + 1) (by simpa using hi)
      rwa [Nat.add_assoc, Nat.add_comm 1]
  · rintro ⟨hfresh, hwithin, hrest⟩
    refine ⟨?_, ?_, ?_⟩
    · intro other hother
      rcases List.mem_cons.mp hother with rfl | hother
      · exact hfresh
      · exact (update_eq_false.mp (hrest.fresh other hother)).2
    · refine List.nodup_cons.mpr ⟨?_, hrest.nodup⟩
      intro hmem
      obtain ⟨other, hother, hsame⟩ := List.mem_map.mp hmem
      exact (update_eq_false.mp (hrest.fresh other hother)).1 hsame
    · intro i hi
      cases i with
      | zero => exact hwithin
      | succ i =>
        have hdeeper := hrest.within i (by simpa using hi)
        rwa [Nat.add_assoc, Nat.add_comm 1] at hdeeper

theorem mem_via {search : V → (V → Bool) → List (List E)} :
    path ∈ via dest within target search depth visited edge ↔
      visited (dest edge) = false ∧ within depth = true ∧
        (dest edge = target ∧ path = [edge] ∨
          dest edge ≠ target ∧ ∃ rest ∈ search (dest edge)
            (Function.update visited (dest edge) true), path = edge :: rest) := by
  unfold via
  split_ifs with hvisited hwithin hend
  · simp [hvisited]
  · simp [hwithin]
  · subst hend
    simp [hvisited, hwithin]
  · simp [hvisited, hwithin, hend, eq_comm]

/-- **Which paths the search lists.** -/
theorem mem_enumerate :
    path ∈ enumerate out dest within target fuel depth current visited ↔
      Leads out dest target current path ∧ Allowed dest within depth visited path ∧
        path.length ≤ fuel := by
  induction fuel generalizing depth current visited path with
  | zero =>
    constructor
    · intro h
      cases h
    · rintro ⟨hleads, -, hlength⟩
      cases hleads <;> simp at hlength
  | succ fuel ih =>
    rw [enumerate, List.mem_flatMap]
    constructor
    · rintro ⟨edge, hout, hvia⟩
      obtain ⟨hfresh, hwithin, ⟨hend, rfl⟩ | ⟨-, rest, hrest, rfl⟩⟩ := mem_via.mp hvia
      · exact ⟨.last hout hend, allowed_singleton.mpr ⟨hfresh, hwithin⟩, by simp⟩
      · obtain ⟨hleads, hallowed, hlength⟩ := ih.mp hrest
        exact ⟨.cons hout hleads, allowed_cons.mpr ⟨hfresh, hwithin, hallowed⟩,
          Nat.succ_le_succ hlength⟩
    · rintro ⟨hleads, hallowed, hlength⟩
      cases hleads with
      | @last _ edge hout hend =>
        obtain ⟨hfresh, hwithin⟩ := allowed_singleton.mp hallowed
        exact ⟨edge, hout, mem_via.mpr ⟨hfresh, hwithin, .inl ⟨hend, rfl⟩⟩⟩
      | @cons _ edge rest hout hrest =>
        obtain ⟨hfresh, hwithin, hallowedRest⟩ := allowed_cons.mp hallowed
        refine ⟨edge, hout, mem_via.mpr ⟨hfresh, hwithin, .inr ⟨?_, rest, ?_, rfl⟩⟩⟩
        · -- the target comes later and no node comes twice
          intro hend
          exact (List.nodup_cons.mp hallowed.nodup).1 (hend ▸ hrest.target_mem)
        · exact ih.mpr ⟨hrest, hallowedRest, Nat.le_of_succ_le_succ hlength⟩

theorem enumerate_of_not_within (h : within depth = false) :
    enumerate out dest within target fuel depth current visited = [] := by
  rw [List.eq_nil_iff_forall_not_mem]
  intro path hpath
  obtain ⟨hleads, hallowed, -⟩ := mem_enumerate.mp hpath
  have hpos : 0 < path.length := by
    cases hleads with
    | last _ _ => exact Nat.succ_pos _
    | cons _ _ => exact Nat.succ_pos _
  have hfirst : within depth = true := hallowed.within 0 hpos
  rw [h] at hfirst
  cases hfirst

/-- Every path is listed once. -/
theorem nodup_enumerate (hout : ∀ node, (out node).Nodup) :
    (enumerate out dest within target fuel depth current visited).Nodup := by
  induction fuel generalizing depth current visited with
  | zero => exact List.nodup_nil
  | succ fuel ih =>
    rw [enumerate, List.nodup_flatMap]
    constructor
    · intro edge _
      unfold via
      split_ifs
      · exact List.nodup_nil
      · exact List.nodup_nil
      · exact List.nodup_singleton _
      · exact ih.map fun _ _ hcons => (List.cons.inj hcons).2
    · refine (hout current).imp ?_
      intro left right hne path hleft hright
      have hhead : ∀ {edge}, path ∈ via dest within target (enumerate out dest within target fuel
          (depth + 1)) depth visited edge → path.head? = some edge := by
        intro edge hvia
        obtain ⟨-, -, ⟨-, rfl⟩ | ⟨-, rest, -, rfl⟩⟩ := mem_via.mp hvia
        · rfl
        · rfl
      exact hne (Option.some.inj ((hhead hleft).symm.trans (hhead hright)))

/-! ### Enough fuel -/

theorem unvisited_update {nodes : Finset V} {node : V} (hnode : node ∈ nodes)
    (hfresh : visited node = false) :
    unvisited nodes (Function.update visited node true) < unvisited nodes visited := by
  apply Finset.card_lt_card
  rw [Finset.ssubset_iff_of_subset]
  · refine ⟨node, by simp [hnode, hfresh], ?_⟩
    simp
  · intro other hother
    obtain ⟨hmem, hother⟩ := Finset.mem_filter.mp hother
    exact Finset.mem_filter.mpr ⟨hmem, (update_eq_false.mp hother).2⟩

theorem via_congr {search other : V → (V → Bool) → List (List E)}
    (h : visited (dest edge) = false →
      search (dest edge) (Function.update visited (dest edge) true) =
        other (dest edge) (Function.update visited (dest edge) true)) :
    via dest within target search depth visited edge =
      via dest within target other depth visited edge := by
  unfold via
  by_cases hvisited : visited (dest edge) = true
  · rw [if_pos hvisited, if_pos hvisited]
  · rw [if_neg hvisited, if_neg hvisited, h (by simpa using hvisited)]

/-- A search cannot go deeper than there are nodes to visit. -/
theorem enumerate_of_le {nodes : Finset V} (hnodes : ∀ node, ∀ edge ∈ out node, dest edge ∈ nodes)
    (h : unvisited nodes visited < fuel) {more : Nat} (hmore : fuel ≤ more) :
    enumerate out dest within target more depth current visited =
      enumerate out dest within target fuel depth current visited := by
  induction fuel generalizing depth current visited more with
  | zero => cases h
  | succ fuel ih =>
    obtain ⟨more, rfl⟩ := Nat.exists_eq_add_of_le' (Nat.le_trans (Nat.le_add_left 1 fuel) hmore)
    rw [enumerate, enumerate]
    apply List.flatMap_congr
    intro edge hedge
    apply via_congr
    intro hfresh
    apply ih
    · have hless := unvisited_update (hnodes current edge hedge) hfresh
      omega
    · omega

/-! ### Fewer edges -/

theorem flatMap_filter {α β : Type} (keep : α → Bool) (f : α → List β) (items : List α)
    (h : ∀ item ∈ items, keep item = false → f item = []) :
    (items.filter keep).flatMap f = items.flatMap f := by
  induction items with
  | nil => rfl
  | cons item items ih =>
    have hrest := ih fun other hother => h other (List.mem_cons_of_mem _ hother)
    by_cases hkeep : keep item = true
    · rw [List.filter_cons_of_pos hkeep, List.flatMap_cons, List.flatMap_cons, hrest]
    · rw [List.filter_cons_of_neg hkeep, List.flatMap_cons,
        h item (List.mem_cons_self ..) (by simpa using hkeep), List.nil_append, hrest]

/-- **Edges on no listed path do not matter.** -/
theorem enumerate_filter {keep : E → Bool}
    (hkeep : ∀ path ∈ enumerate out dest within target fuel depth current visited,
      ∀ edge ∈ path, keep edge = true) :
    enumerate (fun node => (out node).filter keep) dest within target fuel depth current visited =
      enumerate out dest within target fuel depth current visited := by
  induction fuel generalizing depth current visited with
  | zero => rfl
  | succ fuel ih =>
    rw [enumerate, enumerate]
    have hvia : ∀ edge ∈ out current, ∀ path ∈ via dest within target
        (enumerate out dest within target fuel (depth + 1)) depth visited edge,
        ∀ other ∈ path, keep other = true := by
      intro edge hedge path hpath
      exact hkeep path (List.mem_flatMap.mpr ⟨edge, hedge, hpath⟩)
    -- the search below each edge is unchanged, and what is dropped found nothing
    have hsame : ∀ edge ∈ out current,
        via dest within target (enumerate (fun node => (out node).filter keep) dest within target
          fuel (depth + 1)) depth visited edge =
        via dest within target (enumerate out dest within target fuel (depth + 1)) depth visited
          edge := by
      intro edge hedge
      by_cases hrecurses : visited (dest edge) = false ∧ within depth = true ∧ dest edge ≠ target
      · obtain ⟨hfresh, hwithin, hend⟩ := hrecurses
        apply via_congr
        intro _
        apply ih
        intro path hpath other hother
        have hlonger := mem_via.mpr ⟨hfresh, hwithin, .inr ⟨hend, path, hpath, rfl⟩⟩
        exact hvia edge hedge _ hlonger other (List.mem_cons_of_mem _ hother)
      · unfold via
        split_ifs with hvisited hwithin hend
        · rfl
        · rfl
        · rfl
        · exact absurd ⟨by simpa using hvisited, by simpa using hwithin, hend⟩ hrecurses
    have hflat := flatMap_filter keep (via dest within target
      (enumerate out dest within target fuel (depth + 1)) depth visited) (out current) (by
        intro edge hedge hdropped
        rw [List.eq_nil_iff_forall_not_mem]
        intro path hpath
        have hfirst : edge ∈ path := by
          obtain ⟨-, -, ⟨-, rfl⟩ | ⟨-, rest, -, rfl⟩⟩ := mem_via.mp hpath
          · exact List.mem_singleton_self _
          · exact List.mem_cons_self ..
        rw [hvia edge hedge path hpath edge hfirst] at hdropped
        cases hdropped)
    rw [← hflat]
    apply List.flatMap_congr
    intro edge hedge
    exact hsame edge (List.mem_of_mem_filter hedge)

theorem filter_via {keep : E → Bool} {search kept : V → (V → Bool) → List (List E)}
    (h : kept (dest edge) (Function.update visited (dest edge) true) =
      (search (dest edge) (Function.update visited (dest edge) true)).filter
        fun path => path.all keep) :
    (via dest within target search depth visited edge).filter (fun path => path.all keep) =
      if keep edge = true then via dest within target kept depth visited edge else [] := by
  unfold via
  by_cases hkeep : keep edge = true
  · rw [if_pos hkeep]
    split_ifs with hvisited hwithin hend
    · rfl
    · rfl
    · simp [hkeep]
    · rw [h, List.filter_map]
      simp [Function.comp_def, hkeep]
  · rw [if_neg hkeep]
    split_ifs with hvisited hwithin hend
    · rfl
    · rfl
    · simp [hkeep]
    · rw [List.filter_map]
      simp [Function.comp_def, hkeep]

/-- **Removing edges removes the paths over them, and nothing else.** -/
theorem enumerate_keep (keep : E → Bool) :
    enumerate (fun node => (out node).filter keep) dest within target fuel depth current visited =
      (enumerate out dest within target fuel depth current visited).filter
        fun path => path.all keep := by
  induction fuel generalizing depth current visited with
  | zero => rfl
  | succ fuel ih =>
    rw [enumerate, enumerate, List.filter_flatMap]
    trans (((out current).filter keep).flatMap fun edge =>
      (via dest within target (enumerate out dest within target fuel (depth + 1)) depth visited
        edge).filter fun path => path.all keep)
    · apply List.flatMap_congr
      intro edge hedge
      rw [filter_via ih, if_pos (List.of_mem_filter hedge)]
    · apply flatMap_filter
      intro edge _ hdropped
      rw [filter_via ih, hdropped, if_neg Bool.false_ne_true]

end Search

end AttributionChain.SimplePaths
