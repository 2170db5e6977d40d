import Mathlib.Data.List.Sort

/-!
# Sorting by a numeric key

`sortBy key` orders a list by ascending key.  When keys are distinct the result
does not depend on the order of the input: it is the one strictly ascending
arrangement (`sortBy_eq_of_perm`).  When they are not, `dropRepeats` makes it strict.
-/

namespace AttributionChain

variable {α : Type} (key : α → Nat)

def sortBy (items : List α) : List α := items.insertionSort fun left right => key left ≤ key right

theorem sortBy_perm (items : List α) : (sortBy key items).Perm items :=
  List.perm_insertionSort _ items

@[simp] theorem mem_sortBy {items : List α} {item : α} : item ∈ sortBy key items ↔ item ∈ items :=
  (sortBy_perm key items).mem_iff

theorem sortBy_pairwise (items : List α) :
    (sortBy key items).Pairwise fun left right => key left ≤ key right := by
  have htotal : Std.Total fun left right : α => key left ≤ key right :=
    ⟨fun left right => Nat.le_total (key left) (key right)⟩
  have htrans : IsTrans α fun left right => key left ≤ key right :=
    ⟨fun _ _ _ hleft hright => Nat.le_trans hleft hright⟩
  exact List.pairwise_insertionSort _ items

/-- The last one of a sorted list has the largest key. -/
theorem key_le_of_getLast? {items : List α} {item last : α} (hitem : item ∈ items)
    (hlast : (sortBy key items).getLast? = some last) : key item ≤ key last := by
  obtain ⟨front, hfront⟩ := List.getLast?_eq_some_iff.mp hlast
  have hmem : item ∈ front ++ [last] := hfront ▸ (mem_sortBy key).mpr hitem
  have hsorted := sortBy_pairwise key items
  rw [hfront, List.pairwise_append] at hsorted
  rcases List.mem_append.mp hmem with hbefore | hend
  · exact hsorted.2.2 item hbefore last (List.mem_singleton_self _)
  · rw [List.mem_singleton.mp hend]

theorem sortBy_map {β : Type} (f : β → α) (items : List β) :
    sortBy key (items.map f) = (sortBy (fun item => key (f item)) items).map f := by
  refine (List.map_insertionSort _ _ f items ?_).symm
  intro left _ right _
  rfl

variable {key}

/-- Distinct keys: an element is determined by its key. -/
theorem eq_of_key_eq {items : List α}
    (hsorted : items.Pairwise fun left right => key left < key right)
    {left right : α} (hleft : left ∈ items) (hright : right ∈ items)
    (hkey : key left = key right) : left = right := by
  have hnodup : (items.map key).Nodup :=
    List.pairwise_map.mpr (hsorted.imp fun hlt => Nat.ne_of_lt hlt)
  exact List.inj_on_of_nodup_map hnodup hleft hright hkey

/-- A permutation of a strictly ascending list sorts to that list. -/
theorem sortBy_eq_of_perm {items sorted : List α} (hperm : items.Perm sorted)
    (hsorted : sorted.Pairwise fun left right => key left < key right) :
    sortBy key items = sorted := by
  have hperm' := (sortBy_perm key items).trans hperm
  refine hperm'.eq_of_pairwise ?_ (sortBy_pairwise key items)
    (hsorted.imp fun hlt => Nat.le_of_lt hlt)
  intro left right hleft hright hle hge
  exact eq_of_key_eq hsorted (hperm'.mem_iff.mp hleft) hright (Nat.le_antisymm hle hge)

/-- Distinct keys sort to a strictly ascending list. -/
theorem sortBy_strict {items : List α} (hnodup : (items.map key).Nodup) :
    (sortBy key items).Pairwise fun left right => key left < key right := by
  have hdistinct : ((sortBy key items).map key).Nodup :=
    ((sortBy_perm key items).map key).nodup_iff.mpr hnodup
  refine ((sortBy_pairwise key items).and (List.pairwise_map.mp hdistinct)).imp ?_
  rintro left right ⟨hle, hne⟩
  exact Nat.lt_of_le_of_ne hle hne

/-- With distinct keys the order before sorting does not matter. -/
theorem sortBy_congr {left right : List α} (hperm : left.Perm right)
    (hnodup : (right.map key).Nodup) : sortBy key left = sortBy key right :=
  sortBy_eq_of_perm (hperm.trans (sortBy_perm key right).symm) (sortBy_strict hnodup)

/-- Items that come before all others sort to the front. -/
theorem sortBy_append {items front back : List α} (hperm : items.Perm (front ++ back))
    (hfront : front.Pairwise fun left right => key left < key right)
    (hback : (back.map key).Nodup)
    (hbefore : ∀ left ∈ front, ∀ right ∈ back, key left < key right) :
    sortBy key items = front ++ sortBy key back := by
  apply sortBy_eq_of_perm (hperm.trans ((sortBy_perm key back).symm.append_left front))
  rw [List.pairwise_append]
  refine ⟨hfront, sortBy_strict hback, ?_⟩
  intro left hleft right hright
  exact hbefore left hleft right ((mem_sortBy key).mp hright)

/-- When the first items have the keys 1, 2, …, further items sort behind them. -/
theorem take_sortBy_append {items more : List α} {count : Nat}
    (hnodup : ((items ++ more).map key).Nodup) (hpos : ∀ item ∈ items ++ more, 0 < key item)
    (hcount : count ≤ items.length)
    (hnumbered : ∀ i item, i < count → (sortBy key items)[i]? = some item → key item = i + 1) :
    (sortBy key (items ++ more)).take count = (sortBy key items).take count := by
  have hlength : (sortBy key items).length = items.length := (sortBy_perm key items).length_eq
  have hperm : (items ++ more).Perm
      ((sortBy key items).take count ++ ((sortBy key items).drop count ++ more)) := by
    rw [← List.append_assoc, List.take_append_drop]
    exact (sortBy_perm key items).symm.append_right more
  have hkeys := (hperm.map key).nodup_iff.mp hnodup
  rw [List.map_append, List.nodup_append] at hkeys
  have hfront : ∀ item ∈ (sortBy key items).take count, key item ≤ count := by
    intro item hitem
    obtain ⟨i, hi, hget⟩ := List.mem_take_iff_getElem.mp hitem
    have hnumber := hnumbered i item (by omega) (List.getElem?_eq_some_iff.mpr ⟨by omega, hget⟩)
    omega
  -- the keys up to `count` are taken, so every other item has a larger one
  have hback : ∀ item ∈ (sortBy key items).drop count ++ more, count < key item := by
    intro item hitem
    have hkey := hpos item (hperm.mem_iff.mpr (List.mem_append_right _ hitem))
    by_contra hsmall
    have hlt : key item - 1 < (sortBy key items).length := by omega
    have hget := List.getElem?_eq_getElem hlt
    refine hkeys.2.2 (key item) ?_ _ (List.mem_map_of_mem hitem) rfl
    have hnumber := hnumbered _ _ (by omega) hget
    rw [show key item = key (sortBy key items)[key item - 1] by omega]
    apply List.mem_map_of_mem
    exact List.mem_take_iff_getElem.mpr ⟨key item - 1, by omega, rfl⟩
  rw [sortBy_append hperm ?_ hkeys.2.1, List.take_left']
  · rw [List.length_take]
    omega
  · intro left hleft right hright
    exact Nat.lt_of_le_of_lt (hfront left hleft) (hback right hright)
  · exact (sortBy_strict (List.Nodup.of_append_left
      (by rwa [List.map_append] at hnodup))).sublist (List.take_sublist ..)

/-- A largest element sorts to the end. -/
theorem sortBy_concat {items : List α} {item : α} (hnodup : (items.map key).Nodup)
    (hlargest : ∀ other ∈ items, key other < key item) :
    sortBy key (items ++ [item]) = sortBy key items ++ [item] := by
  apply sortBy_append ((sortBy_perm key items).symm.append_right [item]) (sortBy_strict hnodup)
    (List.nodup_singleton _)
  intro other hother last hlast
  rw [List.mem_singleton.mp hlast]
  exact hlargest other ((mem_sortBy key).mp hother)

/-! ### Dropping repetitions -/

section Repeats

variable [DecidableEq α]

/-- Drops every item that equals the one before it. -/
def dropRepeats : Option α → List α → List α
  | _, [] => []
  | previous, item :: items =>
    if previous = some item then dropRepeats (some item) items
    else item :: dropRepeats (some item) items

theorem mem_dropRepeats {previous : Option α} {items : List α} {item : α}
    (hprevious : previous ≠ some item) : item ∈ dropRepeats previous items ↔ item ∈ items := by
  induction items generalizing previous with
  | nil => rfl
  | cons first items ih =>
    unfold dropRepeats
    by_cases hfirst : item = first
    · subst hfirst
      simp [hprevious]
    · have hrest : item ∈ dropRepeats (some first) items ↔ item ∈ items :=
        ih (by simpa using Ne.symm hfirst)
      by_cases hrepeat : previous = some first
      · rw [if_pos hrepeat, hrest, List.mem_cons, or_iff_right hfirst]
      · rw [if_neg hrepeat, List.mem_cons, List.mem_cons, hrest]

/-- A sorted list without repetitions is strictly ascending. -/
theorem dropRepeats_strict (hinj : Function.Injective key) {previous : Option α} {items : List α}
    (hsorted : items.Pairwise fun left right => key left ≤ key right)
    (hprevious : ∀ first ∈ previous, ∀ item ∈ items, key first ≤ key item) :
    (dropRepeats previous items).Pairwise (fun left right => key left < key right) ∧
      ∀ first ∈ previous, ∀ item ∈ dropRepeats previous items, key first < key item := by
  induction items generalizing previous with
  | nil => simp [dropRepeats]
  | cons item items ih =>
    obtain ⟨hfirst, hrest⟩ := List.pairwise_cons.mp hsorted
    have hbelow : ∀ first ∈ some item, ∀ other ∈ items, key first ≤ key other := by
      intro first hmem
      cases hmem
      exact hfirst
    obtain ⟨hstrict, habove⟩ := ih hrest hbelow
    unfold dropRepeats
    by_cases hrepeat : previous = some item
    · rw [if_pos hrepeat, hrepeat]
      exact ⟨hstrict, habove⟩
    · rw [if_neg hrepeat]
      refine ⟨List.pairwise_cons.mpr ⟨habove item rfl, hstrict⟩, ?_⟩
      intro first hmem other hother
      have hlt : key first < key item := by
        refine Nat.lt_of_le_of_ne (hprevious first hmem item (List.mem_cons_self ..)) ?_
        intro hkey
        exact hrepeat (hinj hkey ▸ hmem)
      rcases List.mem_cons.mp hother with rfl | hother
      · exact hlt
      · exact Nat.lt_trans hlt (habove item rfl other hother)

end Repeats

end AttributionChain
