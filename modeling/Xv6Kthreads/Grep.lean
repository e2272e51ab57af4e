import Mathlib.Computability.Language

/-!
# The matcher of grep

A pattern and a text are the bytes of C strings before their NUL, so that the
end of a list is where the code reads `'\0'`.  The matcher tries the pattern at
each place of the text and backtracks over the bytes that a star takes.  A
pattern denotes a language, the product of the languages of its items, and the
matcher finds exactly the texts with a piece in it.
-/

namespace Xv6Kthreads

namespace Grep

open Computability

abbrev Text := List UInt8

def caret : UInt8 := 0x5e

def dollar : UInt8 := 0x24

def dot : UInt8 := 0x2e

def asterisk : UInt8 := 0x2a

def fits (c byte : UInt8) : Bool :=
  c == dot || c == byte

mutual

def matchhere (re text : Text) : Bool :=
  match re with
  | [] => true
  | c :: rest =>
    if rest.head? = some asterisk then matchstar c rest.tail text
    else if c = dollar ∧ rest = [] then text.isEmpty
    else
      match text with
      | [] => false
      | byte :: more => fits c byte && matchhere rest more
termination_by (re.length, 0, 0)
decreasing_by
  · exact Prod.Lex.left _ _ (by simp only [List.length_tail, List.length_cons]; omega)
  · exact Prod.Lex.left _ _ (by simp only [List.length_cons]; omega)

def matchstar (c : UInt8) (re text : Text) : Bool :=
  matchhere re text ||
    match text with
    | [] => false
    | byte :: more => fits c byte && matchstar c re more
termination_by (re.length, 1, text.length)
decreasing_by
  all_goals simp [Prod.lex_def]

end

/-- The loop of `match` over the places of the text. -/
def matchLoop (re text : Text) : Bool :=
  matchhere re text ||
    match text with
    | [] => false
    | _ :: more => matchLoop re more

/-- `match`, which is a keyword here. -/
def matchRe (re text : Text) : Bool :=
  if re.head? = some caret then matchhere re.tail text else matchLoop re text

/-! ## The language of a pattern -/

inductive Item where
  | one (c : UInt8)
  | star (c : UInt8)
  | finish

/-- The items of a pattern from left to right. -/
def items : Text → List Item
  | [] => []
  | [c] => if c = dollar then [.finish] else [.one c]
  | c :: next :: re =>
    if next = asterisk then .star c :: items re else .one c :: items (next :: re)

def Item.language : Item → Language UInt8
  | .one c => {word | ∃ byte, fits c byte ∧ word = [byte]}
  | .star c => {word | ∃ byte, fits c byte ∧ word = [byte]}∗
  | .finish => 1

def language (re : Text) : Language UInt8 :=
  ((items re).map Item.language).prod

/-- The text starts with a piece in the language of the pattern, and ends
behind it if the last item says so. -/
def StartsWith (re text : Text) : Prop :=
  ∃ piece rest, text = piece ++ rest ∧ piece ∈ language re ∧ (.finish ∈ items re → rest = [])

theorem startsWith_cons {item : Item} {whole re text : Text}
    (first : items whole = item :: items re) (notLast : item ≠ .finish) :
    StartsWith whole text ↔
      ∃ front rest, text = front ++ rest ∧ front ∈ item.language ∧ StartsWith re rest := by
  simp only [StartsWith, language, first, List.map_cons, List.prod_cons, Language.mem_mul,
    List.mem_cons, notLast.symm, false_or]
  constructor
  · rintro ⟨-, rest, rfl, ⟨front, isFront, back, isBack, rfl⟩, ends⟩
    exact ⟨front, back ++ rest, List.append_assoc .., isFront, back, rest, rfl, isBack, ends⟩
  · rintro ⟨front, -, rfl, isFront, back, rest, rfl, isBack, ends⟩
    exact ⟨front ++ back, rest, (List.append_assoc ..).symm, ⟨front, isFront, back, isBack, rfl⟩,
      ends⟩

theorem mem_star {c : UInt8} {run : Text} :
    run ∈ (Item.star c).language ↔ ∀ byte ∈ run, fits c byte := by
  constructor
  · rintro ⟨words, rfl, each⟩ byte inside
    obtain ⟨word, isWord, inWord⟩ := List.mem_flatten.mp inside
    obtain ⟨only, fitting, rfl⟩ := each word isWord
    rw [List.mem_singleton.mp inWord]
    exact fitting
  · intro all
    refine ⟨run.map ([·]), by simp [← List.flatMap_def], ?_⟩
    intro word isWord
    obtain ⟨byte, inside, rfl⟩ := List.mem_map.mp isWord
    exact ⟨byte, all byte inside, rfl⟩

/-- The bytes that the loop passes all fit, and the rest of the pattern matches
behind them. -/
theorem matchstar_iff {c : UInt8} {re text : Text} :
    matchstar c re text ↔ ∃ run rest, text = run ++ rest ∧ (∀ byte ∈ run, fits c byte) ∧
      matchhere re rest := by
  induction text with
  | nil =>
    rw [matchstar]
    simp
  | cons byte more induction =>
    rw [matchstar]
    simp only [Bool.or_eq_true, Bool.and_eq_true, induction]
    constructor
    · rintro (here | ⟨fitting, run, rest, rfl, all, here⟩)
      · exact ⟨[], byte :: more, rfl, by simp, here⟩
      · exact ⟨byte :: run, rest, rfl, List.forall_mem_cons.mpr ⟨fitting, all⟩, here⟩
    · rintro ⟨run, rest, isText, all, here⟩
      cases run with
      | nil =>
        left
        rwa [isText]
      | cons first run =>
        obtain ⟨rfl, rfl⟩ := List.cons.inj isText
        obtain ⟨fitting, all⟩ := List.forall_mem_cons.mp all
        exact Or.inr ⟨fitting, run, rest, rfl, all, here⟩

theorem matchLoop_eq_matchstar (re text : Text) : matchLoop re text = matchstar dot re text := by
  induction text with
  | nil => rw [matchLoop, matchstar]
  | cons byte more induction =>
    rw [matchLoop, matchstar, induction]
    simp [fits]

/-- One byte that fits, with the rest of the pattern behind it. -/
theorem startsWith_one {c : UInt8} {re text : Text} (first : items (c :: re) = .one c :: items re)
    (induction : ∀ text, matchhere re text ↔ StartsWith re text) :
    StartsWith (c :: re) text ↔ (match text with
      | [] => false
      | byte :: more => fits c byte && matchhere re more) = true := by
  rw [startsWith_cons first nofun]
  constructor
  · rintro ⟨-, rest, rfl, ⟨byte, fitting, rfl⟩, starts⟩
    simp [fitting, (induction rest).mpr starts]
  · intro found
    cases text with
    | nil => cases found
    | cons byte more =>
      obtain ⟨fitting, here⟩ := Bool.and_eq_true_iff.mp found
      exact ⟨[byte], more, rfl, ⟨byte, fitting, rfl⟩, (induction more).mp here⟩

theorem matchhere_iff {re text : Text} : matchhere re text ↔ StartsWith re text := by
  have nil : ∀ text, matchhere [] text ↔ StartsWith [] text := by
    intro text
    rw [matchhere]
    simp [StartsWith, language, items]
  induction re using items.induct generalizing text with
  | case1 => exact nil text
  | case2 =>
    rw [matchhere.eq_def]
    simp [StartsWith, language, items, Item.language]
  | case3 c notLast =>
    rw [matchhere.eq_def, startsWith_one (by simp [items, notLast]) nil]
    simp [notLast]
  | case4 c re induction =>
    have first : items (c :: asterisk :: re) = .star c :: items re := by
      simp [items]
    rw [matchhere.eq_def, startsWith_cons first nofun]
    simp [matchstar_iff, mem_star, induction]
  | case5 c next re notStar induction =>
    rw [matchhere.eq_def, startsWith_one (by simp [items, notStar]) fun text => induction]
    simp [notStar]

/-- The pattern behind a leading `'^'`. -/
def unanchored (re : Text) : Text :=
  if re.head? = some caret then re.tail else re

theorem match_iff (re text : Text) :
    matchRe re text ↔ ∃ before piece rest, text = before ++ (piece ++ rest) ∧
      (re.head? = some caret → before = []) ∧ piece ∈ language (unanchored re) ∧
      (.finish ∈ items (unanchored re) → rest = []) := by
  by_cases anchored : re.head? = some caret
  · have isHere : matchRe re text ↔ StartsWith re.tail text := by
      rw [← matchhere_iff, matchRe, if_pos anchored]
    rw [isHere, unanchored, if_pos anchored]
    simp [StartsWith, anchored]
  · have somewhere : matchRe re text ↔
        ∃ before rest, text = before ++ rest ∧ StartsWith re rest := by
      rw [matchRe, if_neg anchored, matchLoop_eq_matchstar, matchstar_iff]
      simp [fits, matchhere_iff]
    rw [somewhere, unanchored, if_neg anchored]
    simp only [StartsWith, anchored, false_imp_iff, true_and]
    constructor
    · rintro ⟨before, -, rfl, piece, rest, rfl, reads⟩
      exact ⟨before, piece, rest, rfl, reads⟩
    · rintro ⟨before, piece, rest, rfl, reads⟩
      exact ⟨before, piece ++ rest, rfl, piece, rest, rfl, reads⟩

end Grep

end Xv6Kthreads
