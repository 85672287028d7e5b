import ThreeAddress.Proofs.Scanning

/-! A source text as a list of pieces. There is at most one way to take a text apart so that no
digit stands next to a number, and the lexemes among these pieces are the tokens of the text. -/

namespace ThreeAddress

/-- A part of a source text: one blank, or the word of a lexeme. -/
inductive Piece where
  | blank (c : Char)
  | lexeme (kind : Kind) (word : List Char)

def Piece.word : Piece → List Char
  | .blank c => [c]
  | .lexeme _ word => word

/-- The kind and the text that a piece contributes to the tokens. -/
def Piece.entry? : Piece → Option (Kind × String)
  | .blank _ => none
  | .lexeme kind word => some (kind, String.ofList word)

inductive Piece.Proper : Piece → Prop where
  | blank {c : Char} (blank : Text.isBlank c) : Proper (.blank c)
  | lexeme {kind : Kind} {word : List Char} (spells : Spells kind word) : Proper (.lexeme kind word)

def spelling (pieces : List Piece) : List Char :=
  pieces.flatMap Piece.word

/-- The pieces make up the text, and no digit stands next to a number. -/
structure Decomposes (text : List Char) (pieces : List Piece) : Prop where
  proper : ∀ piece ∈ pieces, piece.Proper
  whole : spelling pieces = text
  maximal : ∀ before word after, pieces = before ++ .lexeme .number word :: after →
    NoDigit (spelling before).reverse ∧ NoDigit (spelling after)

-- The same from left to right: only the digits behind a number need a look, since a number in
-- front of another one would have such a digit behind it.
inductive Cut : List Piece → Prop where
  | nil : Cut []
  | blank {c : Char} {pieces : List Piece} (blank : Text.isBlank c) (more : Cut pieces) : Cut (.blank c :: pieces)
  | lexeme {kind : Kind} {word : List Char} {pieces : List Piece} (spells : Spells kind word)
      (stops : kind = .number → NoDigit (spelling pieces)) (more : Cut pieces) : Cut (.lexeme kind word :: pieces)

@[simp]
theorem spelling_nil : spelling [] = [] := rfl

@[simp]
theorem spelling_cons (piece : Piece) (pieces : List Piece) :
    spelling (piece :: pieces) = piece.word ++ spelling pieces := rfl

@[simp]
theorem spelling_append (before after : List Piece) :
    spelling (before ++ after) = spelling before ++ spelling after :=
  List.flatMap_append

private theorem Cut.of_append {before after : List Piece} (cut : Cut (before ++ after)) : Cut after := by
  induction before with
  | nil => exact cut
  | cons piece before ih =>
    cases cut with
    | blank _ more | lexeme _ _ more => exact ih more

theorem Cut.proper {pieces : List Piece} (cut : Cut pieces) : ∀ piece ∈ pieces, piece.Proper := by
  intro piece member
  obtain ⟨before, after, rfl⟩ := List.append_of_mem member
  cases cut.of_append with
  | blank blank more => exact .blank blank
  | lexeme spells stops more => exact .lexeme spells

theorem Cut.numeral {pieces : List Piece} {word : List Char} (cut : Cut pieces)
    (member : .lexeme .number word ∈ pieces) : Word.Numeral word := by
  cases cut.proper _ member with
  | lexeme spells =>
    cases spells with
    | symbol symbol => cases symbol
    | number numeral => exact numeral

private theorem Cut.no_digit_before {before after : List Piece} {word : List Char}
    (cut : Cut (before ++ .lexeme .number word :: after)) : NoDigit (spelling before).reverse := by
  induction before with
  | nil => simp [NoDigit]
  | cons piece before ih =>
    rw [spelling_cons, List.reverse_append]
    rw [List.cons_append] at cut
    cases cut with
    | blank blank more =>
      apply noDigit_append (ih more)
      intro _
      apply noDigit_blanks
      simpa [Blanks, Piece.word] using blank
    | @lexeme kind core _ spells stops more =>
      apply noDigit_append (ih more)
      intro empty
      apply spells.ends_without_digit
      intro number
      have numeral : Word.Numeral word := more.numeral (by simp)
      have adjacent := stops number
      rw [spelling_append, List.reverse_eq_nil_iff.mp empty] at adjacent
      exact numeral.not_noDigit adjacent

theorem Cut.decomposes {pieces : List Piece} (cut : Cut pieces) : Decomposes (spelling pieces) pieces := by
  refine ⟨cut.proper, rfl, ?_⟩
  rintro before word after rfl
  cases cut.of_append with
  | lexeme spells stops more => exact ⟨cut.no_digit_before, stops rfl⟩

private theorem cut_of_proper {pieces : List Piece} (proper : ∀ piece ∈ pieces, piece.Proper)
    (stops : ∀ before word after, pieces = before ++ .lexeme .number word :: after → NoDigit (spelling after)) :
    Cut pieces := by
  induction pieces with
  | nil => exact .nil
  | cons piece pieces ih =>
    have more : Cut pieces := by
      apply ih fun other member => proper other (List.mem_cons_of_mem piece member)
      intro before word after split
      exact stops (piece :: before) word after (congrArg (piece :: ·) split)
    cases proper piece List.mem_cons_self with
    | blank blank => exact .blank blank more
    | lexeme spells =>
      refine .lexeme spells ?_ more
      intro number
      subst number
      exact stops [] _ pieces rfl

theorem Decomposes.cut {text : List Char} {pieces : List Piece} (decomposes : Decomposes text pieces) :
    Cut pieces :=
  cut_of_proper decomposes.proper fun before word after split => (decomposes.maximal before word after split).2

private theorem Cut.eq_nil {pieces : List Piece} (cut : Cut pieces) (empty : spelling pieces = []) :
    pieces = [] := by
  cases cut with
  | nil => rfl
  | blank _ _ => cases empty
  | lexeme spells _ _ => exact absurd (List.append_eq_nil_iff.mp empty).1 spells.ne_nil

private theorem Spells.not_blank_append {kind : Kind} {word rest left : List Char} {c : Char}
    (spells : Spells kind word) (blank : Text.isBlank c) : word ++ rest ≠ c :: left := by
  intro same
  obtain ⟨d, tail, rfl⟩ := List.exists_cons_of_ne_nil spells.ne_nil
  obtain ⟨rfl, _⟩ := List.cons.inj same
  simp [spells.head_not_blank] at blank

theorem Cut.unique {pieces other : List Piece} (first : Cut pieces) (second : Cut other)
    (same : spelling pieces = spelling other) : pieces = other := by
  induction first generalizing other with
  | nil => exact (second.eq_nil same.symm).symm
  | @blank c pieces blank more ih =>
    cases second with
    | nil => cases same
    | blank _ later =>
      obtain ⟨rfl, left⟩ := List.cons.inj same
      rw [ih later left]
    | lexeme spells _ _ => exact absurd same.symm (spells.not_blank_append blank)
  | @lexeme kind word pieces spells stops more ih =>
    cases second with
    | nil => exact absurd (List.append_eq_nil_iff.mp same).1 spells.ne_nil
    | blank blank _ => exact absurd same (spells.not_blank_append blank)
    | lexeme otherSpells otherStops later =>
      have found := Lexeme.first?_of_spells spells stops
      have otherFound := Lexeme.first?_of_spells otherSpells otherStops
      simp only [spelling_cons, Piece.word] at same
      rw [same, otherFound] at found
      obtain ⟨rfl, rfl, left⟩ := Lexeme.mk.inj (Option.some.inj found)
      rw [ih later left.symm]

private theorem cut_blanks {gap : List Char} {pieces : List Piece} (blank : Blanks gap) (cut : Cut pieces) :
    Cut (gap.map .blank ++ pieces) := by
  induction gap with
  | nil => exact cut
  | cons c gap ih =>
    have later := ih fun d member => blank d (List.mem_cons_of_mem c member)
    exact .blank (blank c List.mem_cons_self) later

private theorem spelling_blanks (gap : List Char) : spelling (gap.map .blank) = gap := by
  induction gap with
  | nil => rfl
  | cons c gap ih => exact congrArg (c :: ·) ih

private theorem entries_blanks (gap : List Char) : (gap.map Piece.blank).filterMap Piece.entry? = [] := by
  simp [Piece.entry?]

theorem Scans.cut {scanner : Scanner} {tokens : List Token} {place : Place}
    (scans : Scans scanner tokens ⟨[], place⟩) :
    ∃ pieces, Cut pieces ∧ spelling pieces = scanner.rest ∧
      pieces.filterMap Piece.entry? = tokens.map fun token => (token.kind, token.text) := by
  generalize last : Scanner.mk [] place = after at scans
  induction scans with
  | @blanks gap rest place blank =>
    cases last
    have cut := cut_blanks blank .nil
    refine ⟨_, cut, ?_, ?_⟩
    · rw [spelling_append, spelling_blanks, spelling_nil]
    · rw [List.filterMap_append, entries_blanks]
      rfl
  | @token gap word rest place kind tokens after blank spells stops more ih =>
    obtain ⟨pieces, cut, spelled, entries⟩ := ih last
    change spelling pieces = rest at spelled
    subst spelled
    refine ⟨_, cut_blanks blank (.lexeme spells stops cut), ?_, ?_⟩
    · rw [spelling_append, spelling_blanks, spelling_cons, List.append_assoc]
      rfl
    · rw [List.filterMap_append, entries_blanks, List.nil_append, List.filterMap_cons, entries]
      rfl

end ThreeAddress
