import Mathlib.Computability.RegularExpressions

/-!
# Patterns of literals and character classes

Anchored patterns such as `^a/[0-9]+$` as Mathlib's regular expressions: a sequence of
literals and repeated classes.  `symbols` are the symbols that a pattern mentions, and
no matching word uses others (`mem_symbols`).
-/

namespace AttributionChain.Pattern

open RegularExpression Computability

variable {α : Type}

/-- Exactly this word -/
def literal (word : List α) : RegularExpression α := word.foldr (fun a rest => char a * rest) 1

/-- A class such as `[ab]` -/
def oneOf (allowed : List α) : RegularExpression α :=
  allowed.foldr (fun a rest => char a + rest) 0

/-- Repetition with `+` -/
def oneOrMore (expression : RegularExpression α) : RegularExpression α :=
  expression * expression.star

/-- One expression after the other -/
def sequence (pieces : List (RegularExpression α)) : RegularExpression α :=
  pieces.foldr (fun piece rest => piece * rest) 1

/-! ### Words that match -/

theorem mem_literal (word : List α) : word ∈ (literal word).matches' := by
  induction word with
  | nil => exact Language.nil_mem_one
  | cons a word ih => exact Language.mem_mul.mpr ⟨[a], rfl, word, ih, rfl⟩

theorem mem_oneOf {allowed : List α} {a : α} (h : a ∈ allowed) :
    [a] ∈ (oneOf allowed).matches' := by
  induction allowed with
  | nil => cases h
  | cons b allowed ih =>
    rcases List.mem_cons.mp h with rfl | hrest
    · exact .inl rfl
    · exact .inr (ih hrest)

theorem mem_oneOrMore {allowed word : List α} (hnonempty : word ≠ [])
    (h : ∀ a ∈ word, a ∈ allowed) : word ∈ (oneOrMore (oneOf allowed)).matches' := by
  cases word with
  | nil => exact absurd rfl hnonempty
  | cons a word =>
    refine Language.mem_mul.mpr ⟨[a], mem_oneOf (h a (List.mem_cons_self ..)), word, ?_, rfl⟩
    refine Language.mem_kstar.mpr ⟨word.map fun b => [b], (List.flatMap_singleton' word).symm, ?_⟩
    intro piece hpiece
    obtain ⟨b, hb, rfl⟩ := List.mem_map.mp hpiece
    exact mem_oneOf (h b (List.mem_cons_of_mem _ hb))

theorem mem_sequence {pieces : List (RegularExpression α)} {parts : List (List α)}
    (h : List.Forall₂ (fun piece part => part ∈ piece.matches') pieces parts) :
    parts.flatten ∈ (sequence pieces).matches' := by
  induction h with
  | nil => exact Language.nil_mem_one
  | cons hpart _ ih => exact Language.mem_mul.mpr ⟨_, hpart, _, ih, rfl⟩

/-! ### Symbols -/

def symbols : RegularExpression α → List α
  | .zero => []
  | .epsilon => []
  | .char a => [a]
  | .plus left right => symbols left ++ symbols right
  | .comp left right => symbols left ++ symbols right
  | .star expression => symbols expression

/-- **A matching word is written in the symbols of the pattern.** -/
theorem mem_symbols {expression : RegularExpression α} {word : List α}
    (h : word ∈ expression.matches') : ∀ a ∈ word, a ∈ symbols expression := by
  induction expression generalizing word with
  | zero => cases h
  | epsilon =>
    cases h
    intro a ha
    cases ha
  | char b =>
    cases h
    intro a ha
    exact ha
  | plus left right ihleft ihright =>
    intro a ha
    rcases h with h | h
    · exact List.mem_append_left _ (ihleft h a ha)
    · exact List.mem_append_right _ (ihright h a ha)
  | comp left right ihleft ihright =>
    obtain ⟨front, hfront, back, hback, rfl⟩ := Language.mem_mul.mp h
    intro a ha
    rcases List.mem_append.mp ha with ha | ha
    · exact List.mem_append_left _ (ihleft hfront a ha)
    · exact List.mem_append_right _ (ihright hback a ha)
  | star expression ih =>
    obtain ⟨parts, rfl, hparts⟩ := Language.mem_kstar.mp h
    intro a ha
    obtain ⟨part, hpart, ha⟩ := List.mem_flatten.mp ha
    exact ih (hparts part hpart) a ha

end AttributionChain.Pattern
