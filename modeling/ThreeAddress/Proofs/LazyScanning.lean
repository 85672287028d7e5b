import ThreeAddress.Proofs.LexicalLanguage
import ThreeAddress.Proofs.SourceSpans

/-! Pulling tokens one at a time. A cursor scans one lexeme after another, runs of blanks among them, and
keeps in mind whether it has failed; a pull scans until something other than blanks comes. Pulls yield
the tokens of the text, then its error if it has one, and then nothing, however often they are
repeated. Running a scanner to the end gives the same tokens or the same error. -/

namespace ThreeAddress

/-- The lexeme that a text starts with, where a run of blanks is a lexeme too. -/
def Lexeme.firstOrBlanks? : List Char → Option Lexeme
  | [] => none
  | c :: cs =>
    if Text.isBlank c then some ⟨.whitespace, c :: cs.takeWhile Text.isBlank, cs.dropWhile Text.isBlank⟩
    else Lexeme.first? (c :: cs)

/-- A text that has been read up to `place`. A cursor that has failed stays where it is. -/
structure Cursor where
  rest : List Char
  place : Place := {}
  failed : Bool := false

namespace Cursor

def ofSource (source : String) : Cursor where
  rest := source.toList

/-- The next lexeme or run of blanks, or the reason why there is none. -/
def scan (cursor : Cursor) : Option (Except LexError Token) × Cursor :=
  match cursor with
  | ⟨rest, place, true⟩ => (none, ⟨rest, place, true⟩)
  | ⟨[], place, false⟩ => (none, ⟨[], place, false⟩)
  | ⟨c :: cs, place, false⟩ =>
    match Lexeme.firstOrBlanks? (c :: cs) with
    | some lexeme => (some (.ok (lexeme.token place)), ⟨lexeme.rest, place.over lexeme.word, false⟩)
    | none => (some (.error ⟨c, place⟩), ⟨c :: cs, place, true⟩)

/-- All that a scan can do. -/
inductive Scanned : Cursor → Option (Except LexError Token) → Cursor → Prop where
  | failed (rest : List Char) (place : Place) : Scanned ⟨rest, place, true⟩ none ⟨rest, place, true⟩
  | finished (place : Place) : Scanned ⟨[], place, false⟩ none ⟨[], place, false⟩
  | blanks {gap rest : List Char} {place : Place} (blank : Blanks gap) (used : gap ≠ []) :
      Scanned ⟨gap ++ rest, place, false⟩ (some (.ok (Lexeme.token ⟨.whitespace, gap, rest⟩ place)))
        ⟨rest, place.over gap, false⟩
  | lexeme {kind : Kind} {word rest : List Char} {place : Place} (spells : Spells kind word)
      (stops : kind = .number → NoDigit rest) :
      Scanned ⟨word ++ rest, place, false⟩ (some (.ok (Lexeme.token ⟨kind, word, rest⟩ place)))
        ⟨rest, place.over word, false⟩
  | error {c : Char} {rest : List Char} {place : Place} (stuck : (Scanner.mk (c :: rest) place).Stuck) :
      Scanned ⟨c :: rest, place, false⟩ (some (.error ⟨c, place⟩)) ⟨c :: rest, place, true⟩

theorem scanned (cursor : Cursor) : Scanned cursor cursor.scan.1 cursor.scan.2 := by
  rcases cursor with ⟨rest, place, failed⟩
  cases failed with
  | true => exact .failed rest place
  | false =>
    cases rest with
    | nil => exact .finished place
    | cons c cs =>
      by_cases blank : Text.isBlank c
      · have gap : Blanks (c :: cs.takeWhile Text.isBlank) := by
          intro other member
          rcases List.mem_cons.mp member with rfl | later
          · exact blank
          · exact List.all_eq_true.mp List.all_takeWhile other later
        have taken : Scanned ⟨c :: cs.takeWhile Text.isBlank ++ cs.dropWhile Text.isBlank, place, false⟩ _ _ :=
          .blanks gap (List.cons_ne_nil _ _)
        rw [List.cons_append, List.takeWhile_append_dropWhile] at taken
        simpa only [scan, Lexeme.firstOrBlanks?, if_pos blank] using taken
      · simp only [scan, Lexeme.firstOrBlanks?, if_neg blank]
        cases found : Lexeme.first? (c :: cs) with
        | some lexeme =>
          obtain ⟨spells, stops⟩ := Lexeme.spells_of_first? found
          have taken : Scanned ⟨lexeme.word ++ lexeme.rest, place, false⟩ _ _ := .lexeme spells stops
          rwa [Lexeme.first?_append found] at taken
        | none =>
          apply Scanned.error
          intro d other same
          cases same
          exact ⟨Bool.eq_false_iff.mpr blank, found⟩

private theorem Scanned.of_scan {cursor after : Cursor} {item : Option (Except LexError Token)}
    (yielded : cursor.scan = (item, after)) : Scanned cursor item after := by
  have step := cursor.scanned
  rwa [yielded] at step

/-- Every lexeme and every run of blanks uses up at least one character. -/
private theorem scan_shorter {cursor after : Cursor} {token : Token}
    (yielded : cursor.scan = (some (.ok token), after)) :
    after.rest.length < cursor.rest.length := by
  cases Scanned.of_scan yielded with
  | blanks blank used =>
    have positive := List.length_pos_iff.mpr used
    simp only [List.length_append]
    omega
  | lexeme spells stops =>
    have positive := List.length_pos_iff.mpr spells.ne_nil
    simp only [List.length_append]
    omega

/-- What comes next that is not a run of blanks. -/
def pull (cursor : Cursor) : Option (Except LexError Token) × Cursor :=
  match _ : cursor.scan with
  | (some (.ok token), after) => if token.kind = .whitespace then after.pull else (some (.ok token), after)
  | (some (.error error), after) => (some (.error error), after)
  | (none, after) => (none, after)
termination_by cursor.rest.length
decreasing_by exact scan_shorter ‹_›

/-- What the next `count` pulls yield. -/
def pulls : Nat → Cursor → List (Option (Except LexError Token))
  | 0, _ => []
  | count + 1, cursor => cursor.pull.1 :: cursor.pull.2.pulls count

/-- The scanner that yields the same. A failure leaves it nothing to read. -/
def scanner (cursor : Cursor) : Scanner where
  rest := if cursor.failed then [] else cursor.rest
  place := cursor.place

/-- The characters that a pull uses up: blanks, and then the text of the token if it yields one. -/
inductive Uses : Option (Except LexError Token) → List Char → Prop where
  | token {gap : List Char} {token : Token} (blank : Blanks gap) (text : token.text ≠ "") :
      Uses (some (.ok token)) (gap ++ token.text.toList)
  | error {gap : List Char} {error : LexError} (blank : Blanks gap) : Uses (some (.error error)) gap
  | nothing {gap : List Char} (blank : Blanks gap) : Uses none gap

theorem Uses.after_blanks {item : Option (Except LexError Token)} {gap used : List Char} (uses : Uses item used)
    (blank : Blanks gap) : Uses item (gap ++ used) := by
  cases uses with
  | token more text =>
    rw [← List.append_assoc]
    exact .token (blank.append more) text
  | error more => exact .error (blank.append more)
  | nothing more => exact .nothing (blank.append more)

/-- All that a pull can do: scans that yield blanks, and one more that does not. -/
inductive Pulled : Cursor → Option (Except LexError Token) → Cursor → Prop where
  | skip {cursor middle after : Cursor} {token : Token} {item : Option (Except LexError Token)}
      (step : Scanned cursor (some (.ok token)) middle) (blank : token.kind = .whitespace)
      (more : Pulled middle item after) : Pulled cursor item after
  | stop {cursor after : Cursor} {item : Option (Except LexError Token)} (step : Scanned cursor item after)
      (solid : ∀ token, item = some (.ok token) → token.kind ≠ .whitespace) : Pulled cursor item after

theorem pulled (cursor : Cursor) : Pulled cursor cursor.pull.1 cursor.pull.2 := by
  induction cursor using Cursor.pull.induct with
  | case1 cursor token after yielded blank more =>
    rw [pull, yielded]
    simp only [if_pos blank]
    exact .skip (.of_scan yielded) blank more
  | case2 cursor token after yielded solid =>
    rw [pull, yielded]
    simp only [if_neg solid]
    apply Pulled.stop (.of_scan yielded)
    intro other same
    cases same
    exact solid
  | case3 cursor error after yielded | case4 cursor after yielded =>
    rw [pull, yielded]
    exact .stop (.of_scan yielded) nofun

private theorem Scanned.blanks_only {cursor middle : Cursor} {token : Token}
    (step : Scanned cursor (some (.ok token)) middle) (blank : token.kind = .whitespace) :
    ∃ gap, Blanks gap ∧ cursor.rest = gap ++ middle.rest ∧ cursor.scanner.next = middle.scanner.next := by
  cases step with
  | @blanks gap rest place gapBlank used => exact ⟨gap, gapBlank, rfl, Scanner.next_blanks gapBlank⟩
  | lexeme spells stops => exact absurd blank spells.ne_whitespace

theorem Scanned.next {cursor after : Cursor} {item : Option (Except LexError Token)} (step : Scanned cursor item after)
    (solid : ∀ token, item = some (.ok token) → token.kind ≠ .whitespace) :
    cursor.scanner.next = (item, after.scanner) := by
  cases step with
  | failed rest place => rfl
  | finished place => rfl
  | blanks blank used => exact absurd rfl (solid _ rfl)
  | lexeme spells stops => exact Scanner.next_lexeme _ spells stops
  | error stuck => exact Scanner.next_stuck stuck

private theorem Scanned.uses {cursor after : Cursor} {item : Option (Except LexError Token)}
    (step : Scanned cursor item after) (solid : ∀ token, item = some (.ok token) → token.kind ≠ .whitespace) :
    ∃ used, cursor.rest = used ++ after.rest ∧ Uses item used := by
  cases step with
  | failed rest place => exact ⟨[], rfl, .nothing blanks_nil⟩
  | finished place => exact ⟨[], rfl, .nothing blanks_nil⟩
  | blanks blank used => exact absurd rfl (solid _ rfl)
  | @lexeme kind word rest place spells stops =>
    have text : (Lexeme.token ⟨kind, word, rest⟩ place).text.toList = word := String.toList_ofList
    have nonempty : (Lexeme.token ⟨kind, word, rest⟩ place).text ≠ "" := by
      intro empty
      rw [empty] at text
      exact spells.ne_nil text.symm
    have uses := Uses.token blanks_nil nonempty
    rw [text] at uses
    exact ⟨word, rfl, uses⟩
  | error stuck => exact ⟨[], rfl, .error blanks_nil⟩

/-- A pull of the cursor is a pull of its scanner. -/
theorem Pulled.next {cursor after : Cursor} {item : Option (Except LexError Token)} (pulled : Pulled cursor item after) :
    cursor.scanner.next = (item, after.scanner) := by
  induction pulled with
  | skip step blank more ih =>
    obtain ⟨gap, _, _, same⟩ := step.blanks_only blank
    rw [same, ih]
  | stop step solid => exact step.next solid

/-- A pull comes back after finitely many characters: blanks and the text of one token at most. -/
private theorem Pulled.uses {cursor after : Cursor} {item : Option (Except LexError Token)}
    (pulled : Pulled cursor item after) :
    ∃ used, cursor.rest = used ++ after.rest ∧ Uses item used := by
  induction pulled with
  | skip step blank more ih =>
    obtain ⟨gap, gapBlank, first, _⟩ := step.blanks_only blank
    obtain ⟨used, later, uses⟩ := ih
    refine ⟨gap ++ used, ?_, uses.after_blanks gapBlank⟩
    rw [first, later, List.append_assoc]
  | stop step solid => exact step.uses solid

theorem pulls_eq (cursor : Cursor) (count : Nat) : cursor.pulls count = cursor.scanner.pulls count := by
  induction count generalizing cursor with
  | zero => rfl
  | succ count ih => rw [pulls, Scanner.pulls, cursor.pulled.next, ih]

end Cursor

/-- The next `count` items of tokens that an error may follow, and nothing after that. -/
def stream (tokens : List Token) (failure : Option LexError) (count : Nat) : List (Option (Except LexError Token)) :=
  (tokens.map (fun token => some (Except.ok token)) ++ failure.toList.map (fun error => some (Except.error error)) ++
    List.replicate count none).take count

theorem Scanner.pulls_length (scanner : Scanner) (count : Nat) : (scanner.pulls count).length = count := by
  induction count generalizing scanner with
  | zero => rfl
  | succ count ih => rw [pulls, List.length_cons, ih]

theorem Scanner.pulls_eq_take (scanner : Scanner) {fewer more : Nat} (within : fewer ≤ more) :
    scanner.pulls fewer = (scanner.pulls more).take fewer := by
  have front := List.prefix_iff_eq_take.mp (scanner.pulls_within within)
  rwa [pulls_length] at front

/-- The error of a scanner that is stuck, or nothing at the end of the text. -/
def Scanner.obstacle? (scanner : Scanner) : Option LexError :=
  scanner.rest.head?.map fun c => ⟨c, scanner.place⟩

private theorem Scans.pulls_stream {scanner after : Scanner} {tokens : List Token}
    (scans : Scans scanner tokens after)
    (stuck : after.Stuck) (count : Nat) : scanner.pulls count = stream tokens after.obstacle? count := by
  rcases after with ⟨rest, place⟩
  cases rest with
  | nil =>
    rw [scanner.pulls_eq_take (Nat.le_add_left count tokens.length), scans.pulls_eq, Scanner.pulls_end]
    simp [stream, Scanner.obstacle?]
  | cons c rest =>
    rw [scanner.pulls_eq_take (by omega : count ≤ tokens.length + (count + 1)), scans.pulls_eq,
      Scanner.pulls_stuck stuck]
    simp [stream, Scanner.obstacle?]

private theorem error_mem_stream {tokens : List Token} {failure : Option LexError} {error : LexError} {count : Nat}
    (member : some (.error error) ∈ stream tokens failure count) : failure = some error := by
  have inside := List.mem_of_mem_take member
  simpa using inside

private theorem token_mem_stream {tokens : List Token} {failure : Option LexError} {token : Token} {count : Nat}
    (member : some (.ok token) ∈ stream tokens failure count) : token ∈ tokens := by
  have inside := List.mem_of_mem_take member
  simpa using inside

/-- An error is yielded by the pull behind the last token. -/
private theorem error_reached (tokens : List Token) (error : LexError) :
    some (.error error) ∈ stream tokens (some error) (tokens.length + 1) := by
  simp [stream, List.take_append]

theorem Scans.tokens_stuck {scanner after : Scanner} {tokens : List Token} (scans : Scans scanner tokens after)
    (stuck : after.Stuck) :
    scanner.tokens =
      match after.obstacle? with
      | none => .ok tokens
      | some error => .error error := by
  rcases after with ⟨rest, place⟩
  rw [scans.tokens_eq]
  cases rest with
  | nil =>
    rw [Scanner.tokens_end]
    exact congrArg Except.ok (List.append_nil tokens)
  | cons c rest =>
    rw [Scanner.tokens_stuck stuck]
    rfl

theorem Scans.solid {scanner after : Scanner} {tokens : List Token} (scans : Scans scanner tokens after) :
    ∀ token ∈ tokens, token.kind ≠ .whitespace := by
  intro token member
  exact (scans.spelled token member).ne_whitespace

/-- Behind the longest front of a text the scanner is stuck at the character that follows it. -/
private theorem obstacle_eq_some_iff {text front rest : List Char} (longest : LongestFront text front)
    (cut : text = front ++ rest) (error : LexError) :
    (Scanner.mk rest (({} : Place).over front)).obstacle? = some error ↔
      ∃ front rest, LongestFront text front ∧ text = front ++ error.char :: rest ∧
        error.place = ({} : Place).over front := by
  rcases error with ⟨c, place⟩
  constructor
  · intro stopped
    obtain ⟨first, next, same⟩ := Option.map_eq_some_iff.mp stopped
    obtain ⟨rfl, rfl⟩ := LexError.mk.inj same
    obtain ⟨behind, rfl⟩ := List.head?_eq_some_iff.mp next
    exact ⟨front, behind, longest, cut, rfl⟩
  · intro ⟨other, behind, otherLongest, otherCut, reached⟩
    obtain rfl := otherLongest.unique longest
    have same : c :: behind = rest := List.append_cancel_left (otherCut.symm.trans cut)
    dsimp only at reached
    subst same reached
    rfl

/-- How pulls from a text go, any number of them, and what running to the end has to do with them. -/
structure Fused (source : String) (tokens : List Token) (failure : Option LexError) : Prop where
  pulls : ∀ count, (Scanner.ofSource source).pulls count = stream tokens failure count
  /-- The error is at the first character that no source can have there. -/
  unrecognized : ∀ error, failure = some error ↔
    ∃ front rest, LongestFront source.toList front ∧ source.toList = front ++ error.char :: rest ∧
      error.place = ({} : Place).over front
  eager : (∀ count error, some (.error error) ∉ (Scanner.ofSource source).pulls count) →
    tokenize source = .ok tokens
  eagerError : ∀ count error, some (.error error) ∈ (Scanner.ofSource source).pulls count →
    tokenize source = .error error
  noBlanks : ∀ count token, some (.ok token) ∈ (Scanner.ofSource source).pulls count → token.kind ≠ .whitespace
  filtered : ∀ count, (Cursor.ofSource source).pulls count = (Scanner.ofSource source).pulls count

/-- Pulls yield tokens, then at most one error, then nothing for ever, and running to the end collects
just that. Every pull uses up finitely many characters. -/
theorem pulls_are_fused (source : String) :
    (∃ tokens failure, Fused source tokens failure) ∧
    ∀ cursor : Cursor, cursor.scanner.next = (cursor.pull.1, cursor.pull.2.scanner) ∧
      ∃ used, cursor.rest = used ++ cursor.pull.2.rest ∧ Cursor.Uses cursor.pull.1 used := by
  refine ⟨?_, fun cursor => ⟨cursor.pulled.next, cursor.pulled.uses⟩⟩
  obtain ⟨tokens, front, rest, cut, longest, scans, stuck⟩ := Scanner.stops_after_longest source
  have pulls := scans.pulls_stream stuck
  have whole : tokenize source = _ := scans.tokens_stuck stuck
  refine ⟨tokens, _, pulls, obstacle_eq_some_iff longest cut, ?_, ?_, ?_, (Cursor.ofSource source).pulls_eq⟩
  · intro never
    cases stopped : (Scanner.mk rest (({} : Place).over front)).obstacle? with
    | none => rw [whole, stopped]
    | some error =>
      have reached := error_reached tokens error
      rw [← stopped, ← pulls] at reached
      exact absurd reached (never _ error)
  · intro count error member
    rw [pulls] at member
    rw [whole, error_mem_stream member]
  · intro count token member
    rw [pulls] at member
    exact scans.solid token (token_mem_stream member)

end ThreeAddress
