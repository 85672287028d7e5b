import ThreeAddress.Proofs.Decomposition

/-! The language of source texts. A text that can be cut into tokens is put together from digits,
signs, parentheses, blanks and the word `id`. No such word begins another, so there is only one
way to put a text together, and the first place where this fails is the place of the error. -/

namespace ThreeAddress

/-- The words from which a source text is put together. -/
inductive Elementary : List Char → Prop where
  | digit {c : Char} (digit : c.isDigit) : Elementary [c]
  | symbol {kind : Kind} {c : Char} (symbol : Symbol kind c) : Elementary [c]
  | blank {c : Char} (blank : Text.isBlank c) : Elementary [c]
  | identifier : Elementary ['i', 'd']

def Lexical (text : List Char) : Prop :=
  ∃ words : List (List Char), (∀ word ∈ words, Elementary word) ∧ words.flatten = text

/-- The longest front of a text that belongs to the language. -/
structure LongestFront (text front : List Char) : Prop where
  isFront : front <+: text
  lexical : Lexical front
  longest : ∀ other, other <+: text → Lexical other → other.length ≤ front.length

theorem LongestFront.unique {text front other : List Char} (first : LongestFront text front)
    (second : LongestFront text other) : front = other := by
  have short := second.longest front first.isFront first.lexical
  have long := first.longest other second.isFront second.lexical
  have within := List.prefix_of_prefix_length_le first.isFront second.isFront short
  exact within.eq_of_length_le long

theorem Lexical.nil : Lexical [] := ⟨[], by simp, rfl⟩

private theorem Elementary.lexical_append {word rest : List Char} (elementary : Elementary word)
    (lexical : Lexical rest) : Lexical (word ++ rest) := by
  obtain ⟨words, members, rfl⟩ := lexical
  refine ⟨word :: words, ?_, rfl⟩
  intro other member
  rcases List.mem_cons.mp member with rfl | member
  · exact elementary
  · exact members other member

private theorem lexical_append_of_chars {front rest : List Char} (single : ∀ c ∈ front, Elementary [c])
    (lexical : Lexical rest) : Lexical (front ++ rest) := by
  induction front with
  | nil => exact lexical
  | cons c front ih =>
    have later := ih fun d member => single d (List.mem_cons_of_mem c member)
    exact (single c List.mem_cons_self).lexical_append later

theorem Blanks.lexical_append {gap rest : List Char} (blank : Blanks gap) (lexical : Lexical rest) :
    Lexical (gap ++ rest) :=
  lexical_append_of_chars (fun c member => .blank (blank c member)) lexical

theorem Spells.lexical_append {kind : Kind} {word rest : List Char} (spells : Spells kind word)
    (lexical : Lexical rest) : Lexical (word ++ rest) := by
  cases spells with
  | symbol symbol => exact (Elementary.symbol symbol).lexical_append lexical
  | number numeral => exact lexical_append_of_chars (fun c member => .digit (numeral.2 c member)) lexical
  | identifier => exact Elementary.identifier.lexical_append lexical

theorem Scans.front {scanner after : Scanner} {tokens : List Token} (scans : Scans scanner tokens after) :
    ∃ front, scanner.rest = front ++ after.rest ∧ after.place = scanner.place.over front ∧ Lexical front := by
  induction scans with
  | @blanks gap rest place blank =>
    have lexical := blank.lexical_append Lexical.nil
    rw [List.append_nil] at lexical
    exact ⟨gap, rfl, rfl, lexical⟩
  | @token gap word rest place kind tokens after blank spells stops more ih =>
    obtain ⟨front, cut, reached, lexical⟩ := ih
    refine ⟨gap ++ (word ++ front), ?_, ?_, blank.lexical_append (spells.lexical_append lexical)⟩
    · simp only [List.append_assoc]
      rw [← cut]
    · rw [reached]
      simp only [Place.over_append]

private theorem Elementary.single_ne {c : Char} (elementary : Elementary [c]) : c ≠ 'i' := by
  intro same
  subst same
  cases elementary with
  | digit digit => exact absurd digit (by decide)
  | symbol symbol => cases symbol
  | blank blank => exact absurd blank (by decide)

theorem Elementary.shape {word : List Char} (elementary : Elementary word) :
    (∃ c, word = [c]) ∨ word = ['i', 'd'] := by
  cases elementary with
  | digit _ | symbol _ | blank _ => exact .inl ⟨_, rfl⟩
  | identifier => exact .inr rfl

/-- No elementary word begins another one. -/
private theorem Elementary.eq_of_append_eq {first second left right : List Char} (before : Elementary first)
    (after : Elementary second) (same : first ++ left = second ++ right) : first = second ∧ left = right := by
  rcases before.shape with ⟨c, rfl⟩ | rfl <;> rcases after.shape with ⟨d, rfl⟩ | rfl
  · obtain ⟨rfl, rfl⟩ := List.cons.inj same
    exact ⟨rfl, rfl⟩
  · obtain ⟨rfl, _⟩ := List.cons.inj same
    exact absurd rfl before.single_ne
  · obtain ⟨rfl, _⟩ := List.cons.inj same
    exact absurd rfl after.single_ne
  · exact ⟨rfl, List.append_cancel_left same⟩

theorem Lexical.head {c : Char} {rest : List Char} (lexical : Lexical (c :: rest)) :
    ∃ word left, Elementary word ∧ Lexical left ∧ c :: rest = word ++ left := by
  obtain ⟨words, members, same⟩ := lexical
  cases words with
  | nil => cases same
  | cons word words =>
    refine ⟨word, words.flatten, members word List.mem_cons_self, ⟨words, ?_, rfl⟩, same.symm⟩
    exact fun other member => members other (List.mem_cons_of_mem word member)

theorem Elementary.ne_nil {word : List Char} (elementary : Elementary word) : word ≠ [] := by
  rcases elementary.shape with ⟨c, rfl⟩ | rfl <;> simp

theorem Lexical.cancel {front rest : List Char} (before : Lexical front) (whole : Lexical (front ++ rest)) :
    Lexical rest := by
  obtain ⟨words, members, rfl⟩ := before
  induction words with
  | nil => exact whole
  | cons word words ih =>
    have elementary := members word List.mem_cons_self
    apply ih fun other member => members other (List.mem_cons_of_mem word member)
    obtain ⟨c, tail, rfl⟩ := List.exists_cons_of_ne_nil elementary.ne_nil
    rw [List.flatten_cons, List.append_assoc] at whole
    obtain ⟨other, left, found, lexical, same⟩ := Lexical.head whole
    obtain ⟨_, rfl⟩ := elementary.eq_of_append_eq found same
    exact lexical

private theorem Scanner.Stuck.not_lexical {c : Char} {rest more : List Char} {place : Place}
    (stuck : (Scanner.mk (c :: rest) place).Stuck) (short : more <+: rest) : ¬ Lexical (c :: more) := by
  intro lexical
  obtain ⟨solid, none⟩ := stuck c rest rfl
  obtain ⟨word, left, elementary, _, same⟩ := lexical.head
  cases elementary with
  | digit digit =>
    obtain ⟨rfl, _⟩ := List.cons.inj same
    simp [Lexeme.first?, ofSymbol?_of_isDigit digit, digit] at none
  | symbol symbol =>
    obtain ⟨rfl, _⟩ := List.cons.inj same
    simp [Lexeme.first?, ofSymbol?_eq_some_iff.mpr symbol] at none
  | blank blank =>
    obtain ⟨rfl, _⟩ := List.cons.inj same
    simp [blank] at solid
  | identifier =>
    obtain ⟨rfl, rfl⟩ := List.cons.inj same
    obtain ⟨behind, rfl⟩ := short
    simp [Lexeme.first?, Kind.ofSymbol?] at none

/-- A scan stops behind the longest front that belongs to the language. -/
theorem Scanner.stops_after_longest (source : String) :
    ∃ tokens front rest, source.toList = front ++ rest ∧ LongestFront source.toList front ∧
      Scans (.ofSource source) tokens ⟨rest, ({} : Place).over front⟩ ∧
      (Scanner.mk rest (({} : Place).over front)).Stuck := by
  obtain ⟨tokens, ⟨rest, place⟩, scans, stuck⟩ := (Scanner.ofSource source).scans
  obtain ⟨front, cut, reached, lexical⟩ := scans.front
  change source.toList = front ++ rest at cut
  change place = ({} : Place).over front at reached
  subst reached
  refine ⟨tokens, front, rest, cut, ⟨⟨rest, cut.symm⟩, lexical, ?_⟩, scans, stuck⟩
  intro other isFront belongs
  rcases List.prefix_or_prefix_of_prefix isFront ⟨rest, cut.symm⟩ with short | ⟨more, rfl⟩
  · exact short.length_le
  · -- A longer front would start a word of the language where the scanner is stuck.
    rw [cut, List.prefix_append_right_inj] at isFront
    cases more with
    | nil => simp
    | cons c more =>
      obtain ⟨behind, rfl⟩ := isFront
      exact absurd (lexical.cancel belongs) (stuck.not_lexical (List.prefix_append more behind))

/-- Either the whole text belongs to the language and has tokens, or its longest front in the
language ends at the character of the error. -/
theorem tokenize_cases (source : String) :
    (Lexical source.toList ∧ ∃ tokens, tokenize source = .ok tokens) ∨
    (¬ Lexical source.toList ∧ ∃ front c rest, LongestFront source.toList front ∧
      source.toList = front ++ c :: rest ∧ tokenize source = .error ⟨c, ({} : Place).over front⟩) := by
  obtain ⟨tokens, front, rest, cut, longest, scans, stuck⟩ := Scanner.stops_after_longest source
  cases rest with
  | nil =>
    rw [List.append_nil] at cut
    exact .inl ⟨cut ▸ longest.lexical, tokens, Scanner.tokens_eq_ok_iff.mpr ⟨_, scans⟩⟩
  | cons c rest =>
    refine .inr ⟨?_, front, c, rest, longest, cut, ?_⟩
    · intro lexical
      have short := longest.longest _ (List.prefix_refl _) lexical
      rw [cut, List.length_append, List.length_cons] at short
      omega
    · rw [tokenize, scans.tokens_eq, Scanner.tokens_stuck stuck]
      rfl

/-- A text has tokens exactly when it belongs to the language, and they are the lexemes of its only
decomposition. Any other text fails right behind its longest front in the language. -/
theorem tokenize_lexical (source : String) :
    ((∃ tokens, tokenize source = .ok tokens) ↔ Lexical source.toList) ∧
    (¬ Lexical source.toList →
      ∃ front c rest place, LongestFront source.toList front ∧ source.toList = front ++ c :: rest ∧
        tokenize source = .error ⟨c, place⟩ ∧ place.offset = (String.ofList front).utf8ByteSize) ∧
    ∀ tokens, tokenize source = .ok tokens →
      ∃ pieces, Decomposes source.toList pieces ∧
        (∀ other, Decomposes source.toList other → other = pieces) ∧
        pieces.filterMap Piece.entry? = tokens.map fun token => (token.kind, token.text) := by
  refine ⟨?_, ?_, ?_⟩
  · rcases tokenize_cases source with ⟨lexical, succeeds⟩ | ⟨foreign, front, c, rest, _, _, failed⟩
    · exact ⟨fun _ => lexical, fun _ => succeeds⟩
    · refine ⟨?_, fun lexical => absurd lexical foreign⟩
      intro ⟨tokens, scanned⟩
      rw [failed] at scanned
      cases scanned
  · intro foreign
    rcases tokenize_cases source with ⟨lexical, _⟩ | ⟨_, front, c, rest, longest, cut, failed⟩
    · exact absurd lexical foreign
    · refine ⟨front, c, rest, _, longest, cut, failed, ?_⟩
      rw [Place.offset_over, Nat.zero_add]
  · intro tokens scanned
    obtain ⟨place, scans⟩ := Scanner.tokens_eq_ok_iff.mp scanned
    obtain ⟨pieces, cut, spelled, entries⟩ := scans.cut
    change spelling pieces = source.toList at spelled
    rw [← spelled]
    refine ⟨pieces, cut.decomposes, ?_, entries⟩
    intro other decomposes
    exact decomposes.cut.unique cut decomposes.whole

theorem wide_blank_then_nul :
    ¬ Lexical "\u30007*id\x00".toList ∧
    (∃ front c rest place, LongestFront "\u30007*id\x00".toList front ∧
      "\u30007*id\x00".toList = front ++ c :: rest ∧ tokenize "\u30007*id\x00" = .error ⟨c, place⟩ ∧
      place.offset = (String.ofList front).utf8ByteSize) ∧
    ∃ tokens, tokenize "\u30007*id" = .ok tokens ∧
      ∃ pieces, Decomposes "\u30007*id".toList pieces ∧
        (∀ other, Decomposes "\u30007*id".toList other → other = pieces) ∧
        pieces.filterMap Piece.entry? = tokens.map fun token => (token.kind, token.text) := by
  have failed : (tokenize "\u30007*id\x00").isOk = false := by decide +kernel
  have foreign : ¬ Lexical "\u30007*id\x00".toList := by
    intro lexical
    obtain ⟨tokens, scanned⟩ := (tokenize_lexical _).1.mpr lexical
    rw [scanned] at failed
    cases failed
  have succeeds : (tokenize "\u30007*id").isOk = true := by decide +kernel
  cases scanned : tokenize "\u30007*id" with
  | error error => simp [scanned, Except.isOk, Except.toBool] at succeeds
  | ok tokens =>
    exact ⟨foreign, (tokenize_lexical _).2.1 foreign, tokens, rfl, (tokenize_lexical _).2.2 tokens scanned⟩

end ThreeAddress
