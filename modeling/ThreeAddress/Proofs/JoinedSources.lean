import ThreeAddress.Proofs.LazyScanning
import ThreeAddress.Proofs.SourcePositions

/-! Two texts scanned as one. The first is scanned as if nothing followed it, and behind it the scanner goes
on as it would at the start of the second text, only from a later place. That goes wrong at two seams and no
others: where digits meet digits, and where an `i` that ends the first text meets a `d`. -/

namespace ThreeAddress

/-- The same place, once `front` has been put before the text. A column moves on the first line only. -/
def Place.behind (front : String) (place : Place) : Place where
  offset := place.offset + front.utf8ByteSize
  line := place.line + front.toList.count '\n'
  col := if place.line = 1 then place.col + (lastLine front.toList).length else place.col

def Token.behind (front : String) (token : Token) : Token :=
  { token with place := token.place.behind front, stop := token.stop + front.utf8ByteSize }

def LexError.behind (front : String) (error : LexError) : LexError :=
  { error with place := error.place.behind front }

/-- A digit at the end of the first text stands right before a digit of the second. -/
def SplitsNumber (first second : List Char) : Prop :=
  (∃ c ∈ first.getLast?, c.isDigit) ∧ ∃ c ∈ second.head?, c.isDigit

instance (first second : List Char) : Decidable (SplitsNumber first second) :=
  decidable_of_iff ((first.getLast?.any Char.isDigit && second.head?.any Char.isDigit) = true)
    (by simp [SplitsNumber, Option.any_eq_true])

/-- The first text fails at the `i` that it ends with, and the second begins with the `d` that is missing. -/
def SplitsIdentifier (first : String) (error : LexError) (second : String) : Prop :=
  error.char = 'i' ∧ error.place.offset + 1 = first.utf8ByteSize ∧ second.toList.head? = some 'd'

private theorem Place.behind_start (front : String) :
    ({} : Place).behind front = ({} : Place).over front.toList := by
  have offset := ({} : Place).offset_over front.toList
  have line := ({} : Place).line_over front.toList
  have col := Place.col_over_start front.toList
  rw [String.ofList_toList] at offset
  rcases reached : ({} : Place).over front.toList with ⟨bytes, lines, columns⟩
  rw [reached] at offset line col
  dsimp only at offset line col
  subst offset line col
  rfl

private theorem Place.step_behind {place : Place} (started : 1 ≤ place.line) (front : String) (c : Char) :
    1 ≤ (place.step c).line ∧ (place.step c).behind front = (place.behind front).step c := by
  by_cases feed : c = '\n'
  · -- Behind a line feed the column starts anew, whatever stood on the line before.
    have below : place.line + 1 ≠ 1 := by omega
    simp only [step, behind, if_pos feed, if_neg below, mk.injEq, and_true]
    omega
  · simp only [step, behind, if_neg feed, mk.injEq, true_and]
    refine ⟨started, by omega, ?_⟩
    split <;> omega

theorem Place.over_behind {place : Place} (started : 1 ≤ place.line) (front : String) (word : List Char) :
    1 ≤ (place.over word).line ∧ (place.over word).behind front = (place.behind front).over word := by
  induction word generalizing place with
  | nil => exact ⟨started, rfl⟩
  | cons c word ih =>
    obtain ⟨next, moved⟩ := Place.step_behind started front c
    rw [over_cons, over_cons, ← moved]
    exact ih next

private theorem Lexeme.token_behind {place : Place} (started : 1 ≤ place.line) (front : String) (lexeme : Lexeme) :
    (lexeme.token place).behind front = lexeme.token (place.behind front) := by
  have reached := congrArg Place.offset (Place.over_behind started front lexeme.word).2
  simp only [Token.behind, token, Token.mk.injEq, true_and]
  exact reached

/-- A scan from a later place cuts the same tokens, further on. -/
theorem Scans.behind {scanner after : Scanner} {tokens : List Token} (scans : Scans scanner tokens after)
    (started : 1 ≤ scanner.place.line) (front : String) :
    Scans ⟨scanner.rest, scanner.place.behind front⟩ (tokens.map (Token.behind front))
      ⟨after.rest, after.place.behind front⟩ := by
  induction scans with
  | @blanks gap rest place blank =>
    rw [(Place.over_behind started front gap).2]
    exact .blanks blank
  | @token gap word rest place kind tokens after blank spells stops more ih =>
    obtain ⟨atToken, tokenMoved⟩ := Place.over_behind started front gap
    obtain ⟨atRest, restMoved⟩ := Place.over_behind started front (gap ++ word)
    have later := ih atRest
    rw [restMoved] at later
    rw [List.map_cons, Lexeme.token_behind atToken, tokenMoved]
    exact .token blank spells stops later

/-- A scan is not disturbed by what is put behind the text, unless that goes on with a number. -/
theorem Scans.extend {scanner after : Scanner} {tokens : List Token} (scans : Scans scanner tokens after)
    (second : List Char) (apart : after.rest = [] → ¬ SplitsNumber scanner.rest second) :
    Scans ⟨scanner.rest ++ second, scanner.place⟩ tokens ⟨after.rest ++ second, after.place⟩ := by
  induction scans with
  | @blanks gap rest place blank =>
    rw [List.append_assoc]
    exact .blanks blank
  | @token gap word rest place kind tokens after blank spells stops more ih =>
    have later := ih (by
      intro finished ⟨⟨c, last, digit⟩, goesOn⟩
      apply apart finished
      refine ⟨⟨c, ?_, digit⟩, goesOn⟩
      rw [List.getLast?_append, last]
      rfl)
    rw [List.append_assoc]
    refine .token blank spells ?_ later
    intro number
    subst number
    apply noDigit_append (stops rfl)
    intro empty c next digit
    -- The number ends the first text, so the second text would go on with it.
    subst empty
    obtain ⟨front, cut, _⟩ := more.front
    have finished : after.rest = [] := (List.append_eq_nil_iff.mp cut.symm).2
    apply apart finished
    refine ⟨?_, c, next, digit⟩
    rw [List.append_nil]
    exact spells.ends_in_digit gap

/-- Nor can it go on where it is stuck, unless the text ends in half an identifier. -/
theorem Scanner.Stuck.extend {c : Char} {rest : List Char} {place : Place}
    (stuck : (Scanner.mk (c :: rest) place).Stuck) (second : List Char)
    (apart : ¬ (c = 'i' ∧ rest = [] ∧ second.head? = some 'd')) :
    (Scanner.mk (c :: rest ++ second) place).Stuck := by
  intro d behind same
  obtain ⟨solid, foreign⟩ := stuck c rest rfl
  obtain ⟨noSymbol, noDigit, noIdentifier⟩ := Lexeme.first?_eq_none_iff.mp foreign
  cases same
  refine ⟨solid, Lexeme.first?_eq_none_iff.mpr ⟨noSymbol, noDigit, ?_⟩⟩
  intro ⟨letter, next⟩
  cases rest with
  | nil => exact apart ⟨letter, rfl, next⟩
  | cons e rest => exact noIdentifier ⟨letter, next⟩

private theorem Scanner.ofSource_append (first second : String) :
    Scanner.ofSource (first ++ second) = ⟨first.toList ++ second.toList, {}⟩ := by
  rw [ofSource, String.toList_append]

/-- Behind tokens that are kept, the second text is scanned as it is alone, further on. -/
theorem tokenize_append_of_ok {first second : String} {tokens : List Token} (scanned : tokenize first = .ok tokens)
    (apart : ¬ SplitsNumber first.toList second.toList) :
    tokenize (first ++ second) =
      match tokenize second with
      | .ok more => .ok (tokens ++ more.map (Token.behind first))
      | .error error => .error (error.behind first) := by
  obtain ⟨place, scans⟩ := Scanner.tokens_eq_ok_iff.mp scanned
  obtain ⟨front, cut, reached, _⟩ := scans.front
  rw [List.append_nil] at cut
  change first.toList = front at cut
  change place = ({} : Place).over front at reached
  subst cut reached
  obtain ⟨more, ⟨rest, after⟩, later, stuck⟩ := (Scanner.ofSource second).scans
  have early := scans.extend second.toList fun _ => apart
  have late := later.behind (Int.le_refl 1) first
  change Scans _ tokens ⟨second.toList, _⟩ at early
  change Scans ⟨second.toList, ({} : Place).behind first⟩ _ _ at late
  rw [Place.behind_start] at late
  have whole := (early.trans late).tokens_stuck stuck
  have alone : tokenize second = _ := later.tokens_stuck stuck
  rw [alone, tokenize, Scanner.ofSource_append]
  refine whole.trans ?_
  cases rest with
  | nil => rfl
  | cons c rest => rfl

theorem tokenize_append_of_error {first second : String} {error : LexError} (failed : tokenize first = .error error)
    (apart : ¬ SplitsIdentifier first error second) : tokenize (first ++ second) = .error error := by
  obtain ⟨tokens, ⟨rest, place⟩, scans, stuck⟩ := (Scanner.ofSource first).scans
  obtain ⟨front, cut, reached, _⟩ := scans.front
  change first.toList = front ++ rest at cut
  change place = ({} : Place).over front at reached
  have alone : tokenize first = _ := scans.tokens_stuck stuck
  rw [failed] at alone
  cases rest with
  | nil => cases alone
  | cons c rest =>
    cases alone
    have early := scans.extend second.toList nofun
    have stillStuck := stuck.extend second.toList (by
      intro ⟨letter, last, next⟩
      apply apart
      refine ⟨letter, ?_, next⟩
      have size := congrArg (fun text => (String.ofList text).utf8ByteSize) cut
      subst letter last
      rw [String.ofList_toList, String.ofList_append, String.utf8ByteSize_append] at size
      rw [reached, Place.offset_over, Nat.zero_add, size]
      rfl)
    rw [tokenize, Scanner.ofSource_append]
    exact early.tokens_stuck stillStuck

/-- The tokens of two texts put together, or the error: those of the first text, then those of the second
moved behind it, unless a number is split between them. An error in the first text stays, unless it is the
first half of an identifier and the second text brings the other half. -/
theorem tokenize_joined (first second : String) :
    (∀ tokens, tokenize first = .ok tokens → ¬ SplitsNumber first.toList second.toList →
      tokenize (first ++ second) =
        match tokenize second with
        | .ok more => .ok (tokens ++ more.map (Token.behind first))
        | .error error => .error (error.behind first)) ∧
    ∀ error, tokenize first = .error error → ¬ SplitsIdentifier first error second →
      tokenize (first ++ second) = .error error :=
  ⟨fun _ => tokenize_append_of_ok, fun _ => tokenize_append_of_error⟩

example : (tokenize ("1" ++ "2")).map (List.map Token.text) = .ok ["12"] ∧
    (tokenize ("1i" ++ "d")).map (List.map Token.text) = .ok ["1", "id"] := by
  constructor <;> with_unfolding_all rfl

theorem blank_between_numbers_and_lone_letter :
    (∃ tokens, tokenize "\u3000(\n7 " = .ok tokens ∧ ¬ SplitsNumber "\u3000(\n7 ".toList "2\n\tid".toList ∧
      tokenize ("\u3000(\n7 " ++ "2\n\tid") =
        .ok (tokens ++ [⟨.number, "2", ⟨7, 2, 3⟩, 8⟩, ⟨.identifier, "id", ⟨10, 3, 2⟩, 12⟩])) ∧
    ∃ error, tokenize "1 + i" = .error error ∧ ¬ SplitsIdentifier "1 + i" error "f" ∧
      tokenize ("1 + i" ++ "f") = .error error := by
  constructor
  · have early : tokenize "\u3000(\n7 " = .ok [⟨.lparen, "(", ⟨3, 1, 2⟩, 4⟩, ⟨.number, "7", ⟨5, 2, 1⟩, 6⟩] := by
      with_unfolding_all rfl
    have late : tokenize "2\n\tid" = .ok [⟨.number, "2", ⟨0, 1, 1⟩, 1⟩, ⟨.identifier, "id", ⟨3, 2, 2⟩, 5⟩] := by
      with_unfolding_all rfl
    have apart : ¬ SplitsNumber "\u3000(\n7 ".toList "2\n\tid".toList := by decide +kernel
    have joined := (tokenize_joined "\u3000(\n7 " "2\n\tid").1 _ early apart
    rw [late] at joined
    exact ⟨_, early, apart, joined⟩
  · have failed : tokenize "1 + i" = .error ⟨'i', ⟨4, 1, 5⟩⟩ := by with_unfolding_all rfl
    have apart : ¬ SplitsIdentifier "1 + i" ⟨'i', ⟨4, 1, 5⟩⟩ "f" := by
      intro ⟨_, _, next⟩
      exact absurd next (by decide +kernel)
    exact ⟨_, failed, apart, (tokenize_joined "1 + i" "f").2 _ failed apart⟩

end ThreeAddress
