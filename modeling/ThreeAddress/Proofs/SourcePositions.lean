import ThreeAddress.Proofs.SourceSpans

/-! Lines and columns in messages. A scanner moves them along one character at a time, and only a
line feed sets the column back. Wherever a token or an error is found, they are what a reader
counts in the text in front of it. -/

namespace ThreeAddress

/-- The end of a text after its last line feed. Without a line feed it is the whole text. -/
def lastLine (text : List Char) : List Char :=
  (text.reverse.takeWhile (· ≠ '\n')).reverse

/-- A place whose line and column are those of the source text in front of it. -/
def Positioned (source : String) (place : Place) : Prop :=
  ∃ front, slice? source 0 place.offset = some front ∧
    place.line = 1 + front.toList.count '\n' ∧ place.col = 1 + (lastLine front.toList).length

/-- Where a pulled item stands: a token where it starts, an error at its character. -/
def pulledPlace : Except LexError Token → Place
  | .ok token => token.place
  | .error error => error.place

private theorem lastLine_append_of_mem (first : List Char) {second : List Char} (feed : '\n' ∈ second) :
    lastLine (first ++ second) = lastLine second := by
  obtain ⟨before, after, rfl⟩ := List.append_of_mem feed
  simp [lastLine, List.takeWhile_append]

private theorem lastLine_append_of_not_mem (first : List Char) {second : List Char} (single : '\n' ∉ second) :
    lastLine (first ++ second) = lastLine first ++ second := by
  have other : ∀ c ∈ second.reverse, decide (c ≠ '\n') = true := by
    intro c member
    apply decide_eq_true
    intro feed
    subst feed
    exact single (List.mem_reverse.mp member)
  rw [lastLine, List.reverse_append, List.takeWhile_append_of_pos other, List.reverse_append,
    List.reverse_reverse, lastLine]

private theorem lastLine_length_le (text : List Char) : (lastLine text).length ≤ text.length := by
  have short := (List.takeWhile_sublist (· ≠ '\n') (l := text.reverse)).length_le
  rw [List.length_reverse] at short
  rwa [lastLine, List.length_reverse]

theorem Place.line_over (place : Place) (text : List Char) :
    (place.over text).line = place.line + text.count '\n' := by
  induction text generalizing place with
  | nil => simp
  | cons c text ih =>
    rw [over_cons, ih, List.count_cons]
    by_cases feed : c = '\n'
    · simp only [step, feed, if_true, beq_self_eq_true, Int.natCast_add]
      omega
    · simp [step, feed]

/-- A column counts on from where the text starts, unless the text has a line feed of its own. -/
theorem Place.col_over (place : Place) (text : List Char) :
    (place.over text).col =
      if '\n' ∈ text then 1 + ((lastLine text).length : Int) else place.col + text.length := by
  induction text generalizing place with
  | nil => simp
  | cons c text ih =>
    rw [over_cons, ih]
    by_cases later : '\n' ∈ text
    · have last := lastLine_append_of_mem [c] later
      rw [List.singleton_append] at last
      simp [later, last]
    · have last := lastLine_append_of_not_mem [c] later
      rw [List.singleton_append] at last
      by_cases feed : c = '\n'
      · subst feed
        have restart : lastLine ['\n'] = [] := rfl
        simp [step, later, last, restart]
      · have other : '\n' ∉ c :: text := by simp [later, eq_comm, feed]
        simp only [step, feed, later, other, if_false, List.length_cons, Int.natCast_add]
        omega

theorem Place.col_over_start (text : List Char) :
    (({} : Place).over text).col = 1 + (lastLine text).length := by
  rw [col_over]
  by_cases feed : '\n' ∈ text
  · rw [if_pos feed]
  · have whole := lastLine_append_of_not_mem [] feed
    have empty : lastLine [] = [] := rfl
    rw [empty, List.nil_append] at whole
    rw [if_neg feed, whole]

private theorem positioned_after {source : String} {front rest : List Char} (cut : source.toList = front ++ rest) :
    Positioned source (({} : Place).over front) := by
  refine ⟨String.ofList front, ?_, ?_, ?_⟩
  · have whole : source = String.ofList front ++ String.ofList rest := by
      rw [← String.ofList_append, ← cut, String.ofList_toList]
    have size := ({} : Place).offset_over front
    rw [Nat.zero_add] at size
    rw [whole, size]
    exact slice?_of_front (slice?_whole _) _
  · rw [Place.line_over, String.toList_ofList]
  · rw [Place.col_over_start, String.toList_ofList]

theorem Scans.token_places {scanner after : Scanner} {tokens : List Token} (scans : Scans scanner tokens after) :
    ∀ token ∈ tokens, ∃ front rest, scanner.rest = front ++ rest ∧ token.place = scanner.place.over front := by
  induction scans with
  | blanks blank => simp
  | @token gap word rest place kind tokens after blank spells stops more ih =>
    intro token member
    rcases List.mem_cons.mp member with rfl | member
    · exact ⟨gap, word ++ rest, List.append_assoc _ _ _, rfl⟩
    · obtain ⟨front, left, cut, reached⟩ := ih token member
      change rest = front ++ left at cut
      refine ⟨gap ++ word ++ front, left, ?_, ?_⟩
      · rw [cut, List.append_assoc (gap ++ word)]
      · rw [reached, Place.over_append _ (gap ++ word)]

private theorem place_of_pulled {source : String} {count : Nat} {item : Except LexError Token}
    (pulled : some item ∈ (Scanner.ofSource source).pulls count) :
    ∃ front rest, source.toList = front ++ rest ∧ pulledPlace item = ({} : Place).over front := by
  obtain ⟨tokens, front, rest, cut, _, scans, stuck⟩ := Scanner.stops_after_longest source
  -- Enough pulls to go past the last token show everything that fewer pulls can show.
  have enough : count ≤ tokens.length + (count + 1) := by omega
  have later := ((Scanner.ofSource source).pulls_within enough).subset pulled
  rw [scans.pulls_eq] at later
  rcases List.mem_append.mp later with early | late
  · obtain ⟨token, member, same⟩ := List.mem_map.mp early
    cases same
    exact scans.token_places token member
  · cases rest with
    | nil =>
      rw [Scanner.pulls_end] at late
      cases List.eq_of_mem_replicate late
    | cons c rest =>
      rw [Scanner.pulls_stuck stuck] at late
      rcases List.mem_cons.mp late with same | nothing
      · cases same
        exact ⟨front, c :: rest, cut, rfl⟩
      · cases List.eq_of_mem_replicate nothing

private theorem pulled_of_tokenize_ok {source : String} {tokens : List Token}
    (scanned : tokenize source = .ok tokens) {token : Token} (member : token ∈ tokens) :
    some (.ok token) ∈ (Scanner.ofSource source).pulls tokens.length := by
  obtain ⟨place, scans⟩ := Scanner.tokens_eq_ok_iff.mp scanned
  have pulled := scans.pulls_eq 0
  rw [Nat.add_zero, Scanner.pulls, List.append_nil] at pulled
  rw [pulled]
  exact List.mem_map_of_mem member

private theorem pulled_of_tokenize_error {source : String} {error : LexError}
    (failed : tokenize source = .error error) :
    ∃ count, some (.error error) ∈ (Scanner.ofSource source).pulls count := by
  obtain ⟨tokens, _, _, _, _, _, pulled⟩ := pulls_before_error failed
  refine ⟨tokens.length + 1, ?_⟩
  rw [pulled]
  simp

/-- Every token that a source yields, at once or pull by pull, and its error if it has one, carries
the line and the column of the text in front of it. In a source of fewer than 2147483647
characters both are signed 32-bit numbers, here and at every place between. -/
theorem positions_counted (source : String) :
    (∀ count item, some item ∈ (Scanner.ofSource source).pulls count → Positioned source (pulledPlace item)) ∧
    (∀ tokens, tokenize source = .ok tokens → ∀ token ∈ tokens, Positioned source token.place) ∧
    (∀ error, tokenize source = .error error → Positioned source error.place) ∧
    (source.length < 2147483647 → ∀ front, front <+: source.toList →
      (({} : Place).over front).line ≤ 2147483647 ∧ (({} : Place).over front).col ≤ 2147483647) := by
  have located : ∀ count item, some item ∈ (Scanner.ofSource source).pulls count →
      Positioned source (pulledPlace item) := by
    intro count item pulled
    obtain ⟨front, rest, cut, reached⟩ := place_of_pulled pulled
    rw [reached]
    exact positioned_after cut
  refine ⟨located, ?_, ?_, ?_⟩
  · intro tokens scanned token member
    exact located _ (.ok token) (pulled_of_tokenize_ok scanned member)
  · intro error failed
    obtain ⟨count, pulled⟩ := pulled_of_tokenize_error failed
    exact located count (.error error) pulled
  · intro short front isFront
    have inside := isFront.length_le
    have feeds := List.count_le_length (a := '\n') (l := front)
    have column := lastLine_length_le front
    rw [String.length_toList] at inside
    rw [Place.line_over, Place.col_over_start]
    constructor
    · change (1 : Int) + _ ≤ _
      omega
    · omega

theorem error_behind_separators :
    (∃ token, some (.ok token) ∈ (Scanner.ofSource "1\r\n\u2028+\n\u3000 2#").pulls 3 ∧
      token.text = "2" ∧ token.place = ⟨12, 3, 3⟩ ∧ Positioned "1\r\n\u2028+\n\u3000 2#" token.place) ∧
    (∃ error, tokenize "1\r\n\u2028+\n\u3000 2#" = .error error ∧
      error.place = ⟨13, 3, 4⟩ ∧ Positioned "1\r\n\u2028+\n\u3000 2#" error.place) ∧
    (∃ tokens token, tokenize "\n\u2028id" = .ok tokens ∧ token ∈ tokens ∧
      token.place = ⟨4, 2, 2⟩ ∧ Positioned "\n\u2028id" token.place) ∧
    "\n\u2028id".length < 2147483647 ∧ (({} : Place).over "\n\u2028id".toList).col ≤ 2147483647 := by
  refine ⟨?_, ?_, ?_, by decide, ?_⟩
  · have pulled : (Scanner.ofSource "1\r\n\u2028+\n\u3000 2#").pulls 3 =
        [some (.ok ⟨.number, "1", ⟨0, 1, 1⟩, 1⟩), some (.ok ⟨.plus, "+", ⟨6, 2, 2⟩, 7⟩),
          some (.ok ⟨.number, "2", ⟨12, 3, 3⟩, 13⟩)] := by
      rfl
    have member : some (.ok ⟨.number, "2", ⟨12, 3, 3⟩, 13⟩) ∈
        (Scanner.ofSource "1\r\n\u2028+\n\u3000 2#").pulls 3 := by
      rw [pulled]
      simp
    exact ⟨_, member, rfl, rfl, (positions_counted _).1 3 _ member⟩
  · have failed : tokenize "1\r\n\u2028+\n\u3000 2#" = .error ⟨'#', ⟨13, 3, 4⟩⟩ := by
      with_unfolding_all rfl
    exact ⟨_, failed, rfl, (positions_counted _).2.2.1 _ failed⟩
  · have scanned : tokenize "\n\u2028id" = .ok [⟨.identifier, "id", ⟨4, 2, 2⟩, 6⟩] := by
      with_unfolding_all rfl
    have member : (⟨.identifier, "id", ⟨4, 2, 2⟩, 6⟩ : Token) ∈ [⟨.identifier, "id", ⟨4, 2, 2⟩, 6⟩] :=
      List.mem_singleton.mpr rfl
    exact ⟨_, _, scanned, member, rfl, (positions_counted _).2.1 _ scanned _ member⟩
  · exact ((positions_counted "\n\u2028id").2.2.2 (by decide) _ (List.prefix_refl _)).2

end ThreeAddress
