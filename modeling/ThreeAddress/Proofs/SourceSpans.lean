import ThreeAddress.Proofs.LexicalLanguage

/-! Where tokens stand in the bytes of a source text. The spans of the tokens and the gaps around
them follow one another without overlap, each of them can be cut out of the source, and put
together they give the source back. -/

namespace ThreeAddress

/-- An offset that falls between two characters, or at an end of the text. -/
abbrev Boundary (source : String) (offset : Nat) : Prop :=
  (String.Pos.Raw.mk offset).IsValid source

/-- The text between two byte offsets. There is none unless the offsets are in order and both fall
between characters. -/
def slice? (source : String) (start stop : Nat) : Option String :=
  if inside : start ≤ stop ∧ Boundary source start ∧ Boundary source stop then
    some (String.extract (⟨⟨start⟩, inside.2.1⟩ : source.Pos) ⟨⟨stop⟩, inside.2.2⟩)
  else none

theorem slice?_eq_some_iff {source part : String} {start stop : Nat} :
    slice? source start stop = some part ↔
      (start ≤ stop ∧ Boundary source start ∧ Boundary source stop) ∧
        source.toByteArray.extract start stop = part.toByteArray := by
  unfold slice?
  split
  next inside =>
    rw [Option.some.injEq, ← String.toByteArray_inj, String.toByteArray_extract]
    exact ⟨fun same => ⟨inside, same⟩, fun both => both.2⟩
  next outside =>
    constructor
    · intro impossible
      cases impossible
    · intro both
      exact absurd both.1 outside

private theorem slice?_append (before part after : String) :
    slice? (before ++ part ++ after) before.utf8ByteSize (before.utf8ByteSize + part.utf8ByteSize) = some part := by
  apply slice?_eq_some_iff.mpr
  refine ⟨⟨Nat.le_add_right _ _, ?_, ?_⟩, ?_⟩
  · apply String.Pos.Raw.isValid_iff_exists_append.mpr
    exact ⟨before, part ++ after, String.append_assoc, rfl⟩
  · apply String.Pos.Raw.isValid_iff_exists_append.mpr
    exact ⟨before ++ part, after, rfl, by simp [String.rawEndPos]⟩
  · have moved := ByteArray.extract_append_size_add (a := before.toByteArray)
      (b := part.toByteArray ++ after.toByteArray) (i := 0) (j := part.toByteArray.size)
    rw [Nat.add_zero, ByteArray.extract_append_eq_left rfl] at moved
    rwa [String.append_assoc, String.toByteArray_append, String.toByteArray_append]

theorem slice?_of_front {front part : String} {start stop : Nat} (cut : slice? front start stop = some part)
    (behind : String) : slice? (front ++ behind) start stop = some part := by
  obtain ⟨⟨ordered, opens, closes⟩, bytes⟩ := slice?_eq_some_iff.mp cut
  have inside : stop ≤ front.toByteArray.size := closes.le_utf8ByteSize
  apply slice?_eq_some_iff.mpr
  refine ⟨⟨ordered, opens.append_right behind, closes.append_right behind⟩, ?_⟩
  have nothing : behind.toByteArray.extract (start - front.toByteArray.size)
      (stop - front.toByteArray.size) = .empty := by
    apply ByteArray.extract_eq_empty_iff.mpr
    omega
  rw [String.toByteArray_append, ByteArray.extract_append, nothing, ByteArray.append_empty, bytes]

private theorem slice?_join {source first second : String} {start middle stop : Nat}
    (early : slice? source start middle = some first) (late : slice? source middle stop = some second) :
    slice? source start stop = some (first ++ second) := by
  obtain ⟨⟨before, opens, _⟩, firstBytes⟩ := slice?_eq_some_iff.mp early
  obtain ⟨⟨after, _, closes⟩, secondBytes⟩ := slice?_eq_some_iff.mp late
  apply slice?_eq_some_iff.mpr
  refine ⟨⟨Nat.le_trans before after, opens, closes⟩, ?_⟩
  rw [String.toByteArray_append, ← firstBytes, ← secondBytes, ByteArray.extract_append_extract,
    Nat.min_eq_left before, Nat.max_eq_right after]

theorem slice?_whole (source : String) : slice? source 0 source.utf8ByteSize = some source := by
  simpa using slice?_append "" source ""

private theorem slice?_ofList {before part : List Char} {start stop : Nat}
    (reached : (String.ofList before).utf8ByteSize = start)
    (left : start + (String.ofList part).utf8ByteSize = stop) (after : List Char) :
    slice? (String.ofList (before ++ part ++ after)) start stop = some (String.ofList part) := by
  subst reached left
  rw [String.ofList_append, String.ofList_append]
  exact slice?_append _ _ _

/-- The spans of the gaps: before the first token, between neighbours and after the last one. -/
def gapSpans (start : Nat) (tokens : List Token) (stop : Nat) : List (Nat × Nat) :=
  (start :: tokens.map Token.stop).zip (tokens.map (fun token => token.place.offset) ++ [stop])

/-- Gaps and texts in turn, starting and ending with a gap. -/
def interleave : List String → List String → String
  | gap :: gaps, text :: texts => gap ++ text ++ interleave gaps texts
  | gaps, _ => String.join gaps

/-- What the spans of tokens have to do with their source. -/
structure Tiles (source : String) (tokens : List Token) : Prop where
  nonempty : ∀ token ∈ tokens, token.place.offset < token.stop
  ordered : tokens.Pairwise fun earlier later => earlier.stop ≤ later.place.offset
  inside : ∀ token ∈ tokens, token.stop ≤ source.utf8ByteSize
  boundaries : ∀ token ∈ tokens, Boundary source token.place.offset ∧ Boundary source token.stop
  texts : ∀ token ∈ tokens, slice? source token.place.offset token.stop = some token.text
  visible : ∀ token ∈ tokens, token.kind ≠ .whitespace
  gaps : ∃ gaps,
    (gapSpans 0 tokens source.utf8ByteSize).mapM (fun span => slice? source span.1 span.2) = some gaps ∧
    (∀ gap ∈ gaps, Blanks gap.toList) ∧ interleave gaps (tokens.map Token.text) = source

inductive Tiled (source : String) : Nat → List Token → Nat → Prop where
  | last {start stop : Nat} {gap : String} (cut : slice? source start stop = some gap) (blank : Blanks gap.toList) :
      Tiled source start [] stop
  | token {start stop : Nat} {gap : String} {token : Token} {tokens : List Token}
      (cut : slice? source start token.place.offset = some gap) (blank : Blanks gap.toList)
      (nonempty : token.place.offset < token.stop)
      (text : slice? source token.place.offset token.stop = some token.text) (visible : token.kind ≠ .whitespace)
      (more : Tiled source token.stop tokens stop) : Tiled source start (token :: tokens) stop

section
variable {source : String} {start stop : Nat} {tokens : List Token}

private theorem ordered_of_slice? {part : String} (cut : slice? source start stop = some part) : start ≤ stop :=
  (slice?_eq_some_iff.mp cut).1.1

private theorem Tiled.bounds (tiled : Tiled source start tokens stop) :
    start ≤ stop ∧ ∀ token ∈ tokens, start ≤ token.place.offset ∧ token.stop ≤ stop := by
  induction tiled with
  | last cut blank => exact ⟨ordered_of_slice? cut, by simp⟩
  | token cut blank nonempty text visible more ih =>
    have gap := ordered_of_slice? cut
    refine ⟨by omega, ?_⟩
    intro other member
    rcases List.mem_cons.mp member with rfl | member
    · exact ⟨gap, ih.1⟩
    · obtain ⟨after, inside⟩ := ih.2 other member
      exact ⟨by omega, inside⟩

private theorem Tiled.ordered (tiled : Tiled source start tokens stop) :
    tokens.Pairwise fun earlier later => earlier.stop ≤ later.place.offset := by
  induction tiled with
  | last cut blank => exact .nil
  | token cut blank nonempty text visible more ih =>
    exact .cons (fun later member => (more.bounds.2 later member).1) ih

theorem Tiled.each (tiled : Tiled source start tokens stop) :
    ∀ token ∈ tokens, token.place.offset < token.stop ∧
      slice? source token.place.offset token.stop = some token.text ∧ token.kind ≠ .whitespace := by
  induction tiled with
  | last cut blank => simp
  | token cut blank nonempty text visible more ih =>
    intro other member
    rcases List.mem_cons.mp member with rfl | member
    · exact ⟨nonempty, text, visible⟩
    · exact ih other member

theorem Tiled.gaps (tiled : Tiled source start tokens stop) :
    ∃ gaps, (gapSpans start tokens stop).mapM (fun span => slice? source span.1 span.2) = some gaps ∧
      (∀ gap ∈ gaps, Blanks gap.toList) ∧
      slice? source start stop = some (interleave gaps (tokens.map Token.text)) := by
  induction tiled with
  | @last start stop gap cut blank =>
    refine ⟨[gap], by simp [gapSpans, cut], by simpa using blank, ?_⟩
    simpa [interleave] using cut
  | @token start stop gap token tokens cut blank nonempty text visible more ih =>
    obtain ⟨gaps, cuts, blanks, joined⟩ := ih
    refine ⟨gap :: gaps, ?_, ?_, ?_⟩
    · change List.mapM _ ((start, token.place.offset) :: gapSpans token.stop tokens stop) = _
      simp [cut, cuts]
    · intro other member
      rcases List.mem_cons.mp member with rfl | member
      · exact blank
      · exact blanks other member
    · exact slice?_join (slice?_join cut text) joined

theorem Tiled.tiles (tiled : Tiled source 0 tokens source.utf8ByteSize) : Tiles source tokens := by
  obtain ⟨gaps, cuts, blanks, joined⟩ := tiled.gaps
  refine ⟨fun token member => (tiled.each token member).1, tiled.ordered,
    fun token member => (tiled.bounds.2 token member).2, ?_, fun token member => (tiled.each token member).2.1,
    fun token member => (tiled.each token member).2.2, gaps, cuts, blanks, ?_⟩
  · intro token member
    exact (slice?_eq_some_iff.mp (tiled.each token member).2.1).1.2
  · rw [slice?_whole] at joined
    exact (Option.some.inj joined).symm

end

theorem Spells.ne_whitespace {kind : Kind} {word : List Char} (spells : Spells kind word) : kind ≠ .whitespace := by
  intro same
  subst same
  cases spells with
  | symbol symbol => cases symbol

private theorem Spells.size_pos {kind : Kind} {word : List Char} (spells : Spells kind word) :
    0 < (String.ofList word).utf8ByteSize := by
  apply Nat.pos_of_ne_zero
  intro zero
  have empty := congrArg String.toList (String.utf8ByteSize_eq_zero_iff.mp zero)
  rw [String.toList_ofList] at empty
  exact spells.ne_nil empty

/-- A scan lays its tokens out over the front that it takes, whatever text is around. -/
theorem Scans.tiled {scanner after : Scanner} {tokens : List Token} (scans : Scans scanner tokens after)
    (before behind : List Char) {front : List Char} (cut : scanner.rest = front ++ after.rest)
    (reached : (String.ofList before).utf8ByteSize = scanner.place.offset) :
    Tiled (String.ofList (before ++ front ++ behind)) scanner.place.offset tokens after.place.offset := by
  induction scans generalizing before front with
  | @blanks gap rest place blank =>
    obtain rfl := List.append_cancel_right cut
    refine .last (slice?_ofList reached (place.offset_over gap).symm behind) ?_
    rwa [String.toList_ofList]
  | @token gap word rest place kind tokens after blank spells stops more ih =>
    obtain ⟨tail, left, _⟩ := more.front
    change rest = tail ++ after.rest at left
    have whole : front ++ after.rest = gap ++ word ++ tail ++ after.rest := by
      rw [List.append_assoc _ tail, ← left]
      exact cut.symm
    obtain rfl := List.append_cancel_right whole
    have gapStop := place.offset_over gap
    have wordStop := (place.over gap).offset_over word
    have reachedGap : (String.ofList (before ++ gap)).utf8ByteSize = (place.over gap).offset := by
      rw [String.ofList_append, String.utf8ByteSize_append, gapStop, reached]
    have reachedWord : (String.ofList (before ++ gap ++ word)).utf8ByteSize =
        (place.over (gap ++ word)).offset := by
      rw [String.ofList_append, String.utf8ByteSize_append, reachedGap, Place.over_append, wordStop]
    have later := ih (before ++ gap ++ word) left reachedWord
    have gapCut := slice?_ofList reached gapStop.symm (word ++ tail ++ behind)
    have wordCut := slice?_ofList reachedGap wordStop.symm (tail ++ behind)
    simp only [List.append_assoc] at gapCut wordCut later ⊢
    refine .token gapCut ?_ ?_ wordCut spells.ne_whitespace ?_
    · rwa [String.toList_ofList]
    · have positive := spells.size_pos
      change (place.over gap).offset < ((place.over gap).over word).offset
      omega
    · rwa [Place.over_append] at later

theorem Scans.tiles {source : String} {front rest : List Char} {tokens : List Token}
    (scans : Scans (.ofSource source) tokens ⟨rest, ({} : Place).over front⟩)
    (cut : source.toList = front ++ rest) :
    Tiles (String.ofList front) tokens := by
  have tiled := scans.tiled [] [] cut rfl
  have size := ({} : Place).offset_over front
  rw [List.nil_append, List.append_nil] at tiled
  rw [Nat.zero_add] at size
  apply Tiled.tiles
  rwa [← size]

theorem tiles_of_tokenize {source : String} {tokens : List Token} (scanned : tokenize source = .ok tokens) :
    Tiles source tokens := by
  obtain ⟨place, scans⟩ := Scanner.tokens_eq_ok_iff.mp scanned
  obtain ⟨front, cut, reached, _⟩ := scans.front
  change place = ({} : Place).over front at reached
  subst reached
  have tiles := scans.tiles cut
  rw [List.append_nil] at cut
  change source.toList = front at cut
  rwa [← cut, String.ofList_toList] at tiles

theorem pulls_before_error {source : String} {error : LexError} (failed : tokenize source = .error error) :
    ∃ tokens front behind, source = front ++ behind ∧ error.place.offset = front.utf8ByteSize ∧
      Tiles front tokens ∧ (Scanner.ofSource source).pulls (tokens.length + 1) =
        tokens.map (fun token => some (.ok token)) ++ [some (.error error)] := by
  obtain ⟨tokens, front, rest, cut, _, scans, stuck⟩ := Scanner.stops_after_longest source
  rw [tokenize, scans.tokens_eq] at failed
  cases rest with
  | nil =>
    rw [Scanner.tokens_end] at failed
    cases failed
  | cons c rest =>
    rw [Scanner.tokens_stuck stuck] at failed
    cases failed
    refine ⟨tokens, String.ofList front, String.ofList (c :: rest), ?_, ?_, scans.tiles cut, ?_⟩
    · rw [← String.ofList_append, ← cut, String.ofList_toList]
    · rw [Place.offset_over, Nat.zero_add]
    · rw [scans.pulls_eq, Scanner.pulls, Scanner.next_stuck stuck]
      rfl

/-- The tokens of a source tile it. If there is an error, the tokens pulled before it tile the
source up to the place of the error, and every slice taken there is the same slice of the source. -/
theorem tokens_tile (source : String) :
    (∀ tokens, tokenize source = .ok tokens → Tiles source tokens) ∧
    ∀ error, tokenize source = .error error →
      ∃ tokens front, (Scanner.ofSource source).pulls (tokens.length + 1) =
          tokens.map (fun token => some (.ok token)) ++ [some (.error error)] ∧
        slice? source 0 error.place.offset = some front ∧ Tiles front tokens ∧
        ∀ start stop part, slice? front start stop = some part → slice? source start stop = some part := by
  refine ⟨fun tokens => tiles_of_tokenize, ?_⟩
  intro error failed
  obtain ⟨tokens, front, behind, rfl, size, tiles, pulled⟩ := pulls_before_error failed
  refine ⟨tokens, front, pulled, ?_, tiles, fun start stop part cut => slice?_of_front cut behind⟩
  rw [size]
  exact slice?_of_front (slice?_whole front) behind

theorem wide_blank_is_tiled :
    (∃ tokens, tokenize "\u3000(7 *id" = .ok tokens ∧ Tiles "\u3000(7 *id" tokens) ∧
    ∃ error, tokenize "\u30007 +é" = .error error ∧
      ∃ tokens front, (Scanner.ofSource "\u30007 +é").pulls (tokens.length + 1) =
          tokens.map (fun token => some (.ok token)) ++ [some (.error error)] ∧
        slice? "\u30007 +é" 0 error.place.offset = some front ∧ Tiles front tokens ∧
        ∀ start stop part, slice? front start stop = some part → slice? "\u30007 +é" start stop = some part := by
  constructor
  · have succeeds : (tokenize "\u3000(7 *id").isOk = true := by decide +kernel
    cases scanned : tokenize "\u3000(7 *id" with
    | error error => simp [scanned, Except.isOk, Except.toBool] at succeeds
    | ok tokens => exact ⟨tokens, rfl, (tokens_tile _).1 tokens scanned⟩
  · have fails : (tokenize "\u30007 +é").isOk = false := by decide +kernel
    cases scanned : tokenize "\u30007 +é" with
    | error error => exact ⟨error, rfl, (tokens_tile _).2 error scanned⟩
    | ok tokens => simp [scanned, Except.isOk, Except.toBool] at fails

end ThreeAddress
