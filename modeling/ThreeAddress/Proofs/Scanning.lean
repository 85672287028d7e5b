import ThreeAddress.Proofs.Lexemes

/-! Scanning as a relation. A text is cut into tokens with blanks around them, and what
is left is where the scanner stands. The relation holds of every text up to its end or
up to the first character that starts no lexeme. -/

namespace ThreeAddress

/-- From the first scanner these tokens lead to the second. Blanks may stand before
each token and after the last one. -/
inductive Scans : Scanner → List Token → Scanner → Prop where
  | blanks {gap rest : List Char} {place : Place} (blank : Blanks gap) :
      Scans ⟨gap ++ rest, place⟩ [] ⟨rest, place.over gap⟩
  | token {gap word rest : List Char} {place : Place} {kind : Kind} {tokens : List Token} {after : Scanner}
      (blank : Blanks gap) (spells : Spells kind word) (stops : kind = .number → NoDigit rest)
      (more : Scans ⟨rest, place.over (gap ++ word)⟩ tokens after) :
      Scans ⟨gap ++ word ++ rest, place⟩ (Lexeme.token ⟨kind, word, rest⟩ (place.over gap) :: tokens) after

theorem blanks_nil : Blanks [] := by simp [Blanks]

theorem Blanks.append {first second : List Char} (before : Blanks first) (after : Blanks second) :
    Blanks (first ++ second) := by
  intro c member
  rcases List.mem_append.mp member with member | member
  · exact before c member
  · exact after c member

theorem Scans.refl (scanner : Scanner) : Scans scanner [] scanner :=
  Scans.blanks blanks_nil

theorem Scans.after_blanks {gap rest : List Char} {place : Place} {tokens : List Token} {after : Scanner}
    (blank : Blanks gap) (scans : Scans ⟨rest, place.over gap⟩ tokens after) :
    Scans ⟨gap ++ rest, place⟩ tokens after := by
  cases scans with
  | blanks more =>
    rw [← List.append_assoc, ← Place.over_append]
    exact .blanks (blank.append more)
  | token more spells stops scans =>
    rw [← Place.over_append, ← List.append_assoc] at scans
    rw [← Place.over_append, ← List.append_assoc, ← List.append_assoc]
    exact .token (blank.append more) spells stops scans

theorem Scans.trans {first middle last : Scanner} {before after : List Token}
    (early : Scans first before middle) (late : Scans middle after last) :
    Scans first (before ++ after) last := by
  induction early with
  | blanks blank => exact late.after_blanks blank
  | token blank spells stops more ih => exact .token blank spells stops (ih late)

theorem Scans.split {first last : Scanner} {before after : List Token}
    (scans : Scans first (before ++ after) last) :
    ∃ middle, Scans first before middle ∧ Scans middle after last := by
  induction before generalizing first with
  | nil => exact ⟨first, .refl first, scans⟩
  | cons token before ih =>
    cases scans with
    | token blank spells stops more =>
      obtain ⟨middle, early, late⟩ := ih more
      exact ⟨middle, .token blank spells stops early, late⟩

theorem Scans.spelled {scanner after : Scanner} {tokens : List Token} (scans : Scans scanner tokens after) :
    ∀ token ∈ tokens, Spells token.kind token.text.toList := by
  induction scans with
  | blanks blank => simp
  | @token gap word rest place kind tokens after blank spells stops more ih =>
    intro token member
    rcases List.mem_cons.mp member with rfl | later
    · change Spells kind (String.ofList word).toList
      rwa [String.toList_ofList]
    · exact ih token later

theorem Scanner.next_blanks {gap rest : List Char} {place : Place} (blank : Blanks gap) :
    (Scanner.mk (gap ++ rest) place).next = (Scanner.mk rest (place.over gap)).next := by
  have skipped : (Scanner.mk (gap ++ rest) place).skipBlanks = (Scanner.mk rest (place.over gap)).skipBlanks := by
    simp only [Scanner.skipBlanks, List.dropWhile_append_of_pos blank, List.takeWhile_append_of_pos blank,
      Place.over_append]
  simp only [Scanner.next, skipped]

theorem Scanner.next_lexeme {word rest : List Char} {kind : Kind} (place : Place) (spells : Spells kind word)
    (stops : kind = .number → NoDigit rest) :
    (Scanner.mk (word ++ rest) place).next =
      (some (.ok (Lexeme.token ⟨kind, word, rest⟩ place)), ⟨rest, place.over word⟩) := by
  have found := Lexeme.first?_of_spells spells stops
  cases word with
  | nil => exact absurd rfl spells.ne_nil
  | cons c word =>
    rw [List.cons_append] at found
    have skipped : (Scanner.mk (c :: (word ++ rest)) place).skipBlanks = ⟨c :: (word ++ rest), place⟩ := by
      simp [Scanner.skipBlanks, spells.head_not_blank]
    simp only [List.cons_append, Scanner.next, skipped, found]

private theorem Scanner.tokens_of_next_eq {first second : Scanner} (same : first.next = second.next) :
    first.tokens = second.tokens := by
  rw [Scanner.tokens_eq_pull, Scanner.tokens_eq_pull, same]

private theorem Scanner.tokens_of_next_token {scanner after : Scanner} {token : Token}
    (pulled : scanner.next = (some (.ok token), after)) :
    scanner.tokens = (token :: ·) <$> after.tokens := by
  rw [Scanner.tokens_eq_pull, pulled]

theorem Scanner.tokens_end (place : Place) : (Scanner.mk [] place).tokens = .ok [] := by
  rw [Scanner.tokens_eq_pull]
  rfl

/-- The tokens of a text are those already cut off, followed by those of what is left. -/
theorem Scans.tokens_eq {scanner after : Scanner} {tokens : List Token} (scans : Scans scanner tokens after) :
    scanner.tokens = (tokens ++ ·) <$> after.tokens := by
  induction scans with
  | blanks blank =>
    rw [Scanner.tokens_of_next_eq (Scanner.next_blanks blank)]
    exact (id_map _).symm
  | @token gap word rest place kind tokens after blank spells stops more ih =>
    rw [List.append_assoc, Scanner.tokens_of_next_eq (Scanner.next_blanks blank),
      Scanner.tokens_of_next_token (Scanner.next_lexeme _ spells stops), ← Place.over_append, ih,
      Functor.map_map]
    rfl

/-- The scanner cannot go on: the text is at its end, or at a character that is no
blank and starts no lexeme. -/
def Scanner.Stuck (scanner : Scanner) : Prop :=
  ∀ c rest, scanner.rest = c :: rest → Text.isBlank c = false ∧ Lexeme.first? (c :: rest) = none

theorem Scanner.next_stuck {c : Char} {rest : List Char} {place : Place}
    (stuck : (Scanner.mk (c :: rest) place).Stuck) :
    (Scanner.mk (c :: rest) place).next = (some (.error ⟨c, place⟩), ⟨[], place⟩) := by
  obtain ⟨solid, none⟩ := stuck c rest rfl
  have skipped : (Scanner.mk (c :: rest) place).skipBlanks = ⟨c :: rest, place⟩ := by
    simp [Scanner.skipBlanks, solid]
  simp only [Scanner.next, skipped, none]

theorem Scanner.tokens_stuck {c : Char} {rest : List Char} {place : Place}
    (stuck : (Scanner.mk (c :: rest) place).Stuck) :
    (Scanner.mk (c :: rest) place).tokens = .error ⟨c, place⟩ := by
  rw [Scanner.tokens_eq_pull, Scanner.next_stuck stuck]

private theorem Scanner.pulls_of_next_eq {first second : Scanner} (same : first.next = second.next) (count : Nat) :
    first.pulls count = second.pulls count := by
  cases count with
  | zero => rfl
  | succ count => simp only [Scanner.pulls, same]

/-- Pulling yields the tokens already cut off, one at a time, and then goes on with what is left. -/
theorem Scans.pulls_eq {scanner after : Scanner} {tokens : List Token} (scans : Scans scanner tokens after)
    (count : Nat) :
    scanner.pulls (tokens.length + count) = tokens.map (fun token => some (.ok token)) ++ after.pulls count := by
  induction scans with
  | blanks blank =>
    rw [List.length_nil, Nat.zero_add]
    exact Scanner.pulls_of_next_eq (Scanner.next_blanks blank) count
  | @token gap word rest place kind tokens after blank spells stops more ih =>
    rw [List.append_assoc, Scanner.pulls_of_next_eq (Scanner.next_blanks blank), List.length_cons,
      Nat.add_right_comm, Scanner.pulls, Scanner.next_lexeme _ spells stops, List.map_cons, List.cons_append,
      ← ih, Place.over_append]

theorem Scanner.pulls_within (scanner : Scanner) {fewer more : Nat} (within : fewer ≤ more) :
    scanner.pulls fewer <+: scanner.pulls more := by
  induction fewer generalizing scanner more with
  | zero => exact List.nil_prefix
  | succ fewer ih =>
    obtain ⟨more, rfl⟩ := Nat.exists_eq_add_one_of_ne_zero (by omega : more ≠ 0)
    exact List.cons_prefix_cons.mpr ⟨rfl, ih _ (by omega)⟩

theorem Scanner.pulls_end (place : Place) (count : Nat) :
    (Scanner.mk [] place).pulls count = List.replicate count none := by
  induction count with
  | zero => rfl
  | succ count ih => exact congrArg (none :: ·) ih

theorem Scanner.pulls_stuck {c : Char} {rest : List Char} {place : Place}
    (stuck : (Scanner.mk (c :: rest) place).Stuck) (count : Nat) :
    (Scanner.mk (c :: rest) place).pulls (count + 1) =
      some (.error ⟨c, place⟩) :: List.replicate count none := by
  rw [Scanner.pulls, Scanner.next_stuck stuck]
  exact congrArg (_ :: ·) (Scanner.pulls_end place count)

/-- Every text can be cut until the scanner is stuck. -/
theorem Scanner.scans (scanner : Scanner) : ∃ tokens after, Scans scanner tokens after ∧ after.Stuck := by
  obtain ⟨text, place⟩ := scanner
  induction length : text.length using Nat.strongRecOn generalizing text place with
  | ind n ih =>
    have blank : Blanks (text.takeWhile Text.isBlank) := List.all_eq_true.mp List.all_takeWhile
    have whole := text.takeWhile_append_dropWhile (p := Text.isBlank)
    have solid := List.head?_dropWhile_not Text.isBlank text
    generalize text.takeWhile Text.isBlank = gap at blank whole
    generalize text.dropWhile Text.isBlank = left at solid whole
    subst whole
    cases left with
    | nil => exact ⟨[], _, .blanks blank, by intro c rest impossible; cases impossible⟩
    | cons c rest =>
      cases found : Lexeme.first? (c :: rest) with
      | none =>
        refine ⟨[], _, .blanks blank, ?_⟩
        intro d other same
        cases same
        exact ⟨by simpa using solid, found⟩
      | some lexeme =>
        obtain ⟨spells, stops⟩ := Lexeme.spells_of_first? found
        have cut := Lexeme.first?_append found
        have shorter : lexeme.rest.length < n := by
          have positive := List.length_pos_iff.mpr spells.ne_nil
          have sum := congrArg List.length cut
          simp only [List.length_append] at sum length
          omega
        obtain ⟨tokens, after, scans, stuck⟩ :=
          ih _ shorter lexeme.rest (place.over (gap ++ lexeme.word)) rfl
        have longer := Scans.token blank spells stops scans
        rw [List.append_assoc, cut] at longer
        exact ⟨_, after, longer, stuck⟩

theorem Scanner.tokens_eq_ok_iff {scanner : Scanner} {tokens : List Token} :
    scanner.tokens = .ok tokens ↔ ∃ place, Scans scanner tokens ⟨[], place⟩ := by
  constructor
  · intro scanned
    obtain ⟨cut, ⟨rest, place⟩, scans, stuck⟩ := scanner.scans
    rw [scans.tokens_eq] at scanned
    cases rest with
    | nil =>
      rw [Scanner.tokens_end] at scanned
      have same : cut ++ [] = tokens := Except.ok.inj scanned
      rw [List.append_nil] at same
      exact ⟨place, same ▸ scans⟩
    | cons c rest =>
      rw [Scanner.tokens_stuck stuck] at scanned
      cases scanned
  · rintro ⟨place, scans⟩
    rw [scans.tokens_eq, Scanner.tokens_end]
    exact congrArg Except.ok (List.append_nil tokens)

end ThreeAddress
