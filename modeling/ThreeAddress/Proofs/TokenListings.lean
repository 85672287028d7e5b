import ThreeAddress.Token.Listing

/-! Token listings read back. The texts of tokens may hold the very characters that a listing is made of,
but inside quotes an escape is told from a character, and the closing quote from both, by looking at the
front of the text. So each part of a listing says where it ends, whatever follows, and a listing is cut
into kinds and texts in one way only. -/

namespace ThreeAddress

namespace Text
variable {α β : Type} {write : α → List Char}

/-- A text says which value is written at its front and where that value ends, whatever follows. -/
def SelfDelimiting (write : α → List Char) : Prop :=
  ∀ first second rest other, write first ++ rest = write second ++ other → first = second ∧ rest = other

/-- No value is written with this character in front, and none is written as nothing. -/
def NeverStarts (write : α → List Char) (stop : Char) : Prop :=
  ∀ value rest other, write value ++ rest ≠ stop :: other

private theorem SelfDelimiting.of_read {read? : List Char → Option (α × List Char)}
    (reads : ∀ value rest, read? (write value ++ rest) = some (value, rest)) : SelfDelimiting write := by
  intro first second rest other same
  have read := reads first rest
  rw [same, reads second other] at read
  cases read
  exact ⟨rfl, rfl⟩

theorem SelfDelimiting.injective (delimiting : SelfDelimiting write) {first second : α}
    (same : write first = write second) : first = second :=
  (delimiting first second [] [] (by rw [same])).1

theorem SelfDelimiting.behind (delimiting : SelfDelimiting write) (front : List Char) :
    SelfDelimiting fun value => front ++ write value := by
  intro first second rest other same
  rw [List.append_assoc, List.append_assoc] at same
  exact delimiting first second rest other (List.append_cancel_left same)

theorem SelfDelimiting.append {writeNext : β → List Char} (delimiting : SelfDelimiting write)
    (next : SelfDelimiting writeNext) : SelfDelimiting fun pair : α × β => write pair.1 ++ writeNext pair.2 := by
  intro first second rest other same
  obtain ⟨a, b⟩ := first
  obtain ⟨c, d⟩ := second
  rw [List.append_assoc, List.append_assoc] at same
  obtain ⟨rfl, behind⟩ := delimiting _ _ _ _ same
  obtain ⟨rfl, last⟩ := next _ _ _ _ behind
  exact ⟨rfl, last⟩

theorem SelfDelimiting.before (delimiting : SelfDelimiting write) (back : List Char) :
    SelfDelimiting fun value => write value ++ back := by
  intro first second rest other same
  rw [List.append_assoc, List.append_assoc] at same
  obtain ⟨rfl, behind⟩ := delimiting _ _ _ _ same
  exact ⟨rfl, List.append_cancel_left behind⟩

/-- If a list is written as the stop alone or as its first value and then the others, the front of the text
tells whether there is a first value, and which. -/
private theorem SelfDelimiting.first_or_stop (delimiting : SelfDelimiting write) {stop : Char}
    (never : NeverStarts write stop)
    {writeAll writeOthers : List α → List Char} (empty : writeAll [] = [stop])
    (more : ∀ value values, writeAll (value :: values) = write value ++ writeOthers values)
    {first second : List α} {rest other : List Char} (same : writeAll first ++ rest = writeAll second ++ other) :
    (first = [] ∧ second = [] ∧ rest = other) ∨
    ∃ value values others, first = value :: values ∧ second = value :: others ∧
      writeOthers values ++ rest = writeOthers others ++ other := by
  cases first with
  | nil =>
    cases second with
    | nil => exact .inl ⟨rfl, rfl, List.append_cancel_left same⟩
    | cons value others =>
      rw [empty, more, List.append_assoc] at same
      exact absurd same.symm (never _ _ _)
  | cons value values =>
    cases second with
    | nil =>
      rw [empty, more, List.append_assoc] at same
      exact absurd same (never _ _ _)
    | cons otherValue others =>
      rw [more, more, List.append_assoc, List.append_assoc] at same
      obtain ⟨rfl, behind⟩ := delimiting _ _ _ _ same
      exact .inr ⟨value, values, others, rfl, rfl, behind⟩

/-- Values one behind the other, and the stop behind the last. -/
def sequence (write : α → List Char) (stop : Char) (values : List α) : List Char :=
  values.flatMap write ++ [stop]

private theorem sequence_cons (write : α → List Char) (stop : Char) (value : α) (values : List α) :
    sequence write stop (value :: values) = write value ++ sequence write stop values := by
  rw [sequence, sequence, List.flatMap_cons, List.append_assoc]

theorem SelfDelimiting.sequence (delimiting : SelfDelimiting write) {stop : Char} (never : NeverStarts write stop) :
    SelfDelimiting (sequence write stop) := by
  intro first second rest other same
  induction first generalizing second with
  | nil =>
    rcases delimiting.first_or_stop never rfl (sequence_cons write stop) same with
      ⟨_, rfl, last⟩ | ⟨_, _, _, impossible, _⟩
    · exact ⟨rfl, last⟩
    · cases impossible
  | cons value values ih =>
    rcases delimiting.first_or_stop never rfl (sequence_cons write stop) same with
      ⟨impossible, _⟩ | ⟨_, _, others, shape, rfl, behind⟩
    · cases impossible
    · cases shape
      obtain ⟨rfl, last⟩ := ih others behind
      exact ⟨rfl, last⟩

/-- Values with a separator between any two of them, and the stop behind the last. -/
def separated (write : α → List Char) (separator : List Char) (stop : Char) (values : List α) : List Char :=
  separator.intercalate (values.map write) ++ [stop]

/-- The first value has no separator in front. The others are a sequence of separators and values. -/
private theorem separated_cons (write : α → List Char) (separator : List Char) (stop : Char) (value : α)
    (values : List α) :
    separated write separator stop (value :: values) =
      write value ++ sequence (fun value => separator ++ write value) stop values := by
  induction values generalizing value with
  | nil => simp [separated, sequence]
  | cons next values ih =>
    rw [sequence_cons, List.append_assoc, ← ih next]
    simp [separated, List.intercalate_cons_cons]

theorem SelfDelimiting.separated (delimiting : SelfDelimiting write) {separator : List Char} {stop : Char}
    (never : NeverStarts write stop) (neverSeparator : NeverStarts (fun value => separator ++ write value) stop) :
    SelfDelimiting (separated write separator stop) := by
  intro first second rest other same
  rcases delimiting.first_or_stop never rfl (separated_cons write separator stop) same with
    ⟨rfl, rfl, last⟩ | ⟨value, values, others, rfl, rfl, behind⟩
  · exact ⟨rfl, last⟩
  · obtain ⟨rfl, last⟩ := (delimiting.behind separator).sequence neverSeparator _ _ _ _ behind
    exact ⟨rfl, last⟩

private theorem cut_at_stop {word : List Char} {stop : Char} (free : stop ∉ word) (rest : List Char) :
    (word ++ stop :: rest).takeWhile (· ≠ stop) = word ∧
    (word ++ stop :: rest).dropWhile (· ≠ stop) = stop :: rest := by
  have passes : ∀ c ∈ word, decide (c ≠ stop) = true := by
    intro c member
    exact decide_eq_true fun same => free (same ▸ member)
  constructor
  · rw [List.takeWhile_append_of_pos passes]
    simp
  · rw [List.dropWhile_append_of_pos passes]
    simp

theorem SelfDelimiting.closed {stop : Char} (free : ∀ value, stop ∉ write value)
    (injective : ∀ first second, write first = write second → first = second) :
    SelfDelimiting fun value => write value ++ [stop] := by
  intro first second rest other same
  simp only [List.append_assoc, List.singleton_append] at same
  obtain ⟨word, left⟩ := cut_at_stop (free first) rest
  obtain ⟨otherWord, otherLeft⟩ := cut_at_stop (free second) other
  rw [same, otherWord] at word
  rw [same, otherLeft] at left
  exact ⟨injective first second word.symm, (List.cons.inj left).2.symm⟩

/-- The value of a hexadecimal digit, `0` to `9` or `a` to `f`. -/
def hexDigit (digit : Char) : Nat :=
  if digit.isDigit then digit.toNat - '0'.toNat else digit.toNat - 'a'.toNat + 10

def hexValue (digits : List Char) : Nat :=
  digits.foldl (fun value digit => 16 * value + hexDigit digit) 0

private theorem hexDigit_digitChar : ∀ digit < 16, hexDigit (Nat.digitChar digit) = digit := by
  decide

/-- Digits give their number back, and none of them is the brace that stands behind them. -/
private theorem hexValue_toDigits (n : Nat) : hexValue (Nat.toDigits 16 n) = n ∧ '\x7d' ∉ Nat.toDigits 16 n := by
  induction n using Nat.strongRecOn with
  | ind n ih =>
    rw [Nat.toDigits_eq_if (by decide)]
    by_cases small : n < 16
    · rw [if_pos small]
      exact ⟨by simp [hexValue, hexDigit_digitChar n small], by simp⟩
    · obtain ⟨value, free⟩ := ih (n / 16) (by omega)
      have bound : n % 16 < 16 := Nat.mod_lt n (by decide)
      rw [if_neg small]
      constructor
      · rw [hexValue] at value
        rw [hexValue, List.foldl_append, value, List.foldl_cons, List.foldl_nil, hexDigit_digitChar _ bound]
        omega
      · simp [free]

/-- The character at the front of what stands inside quotes, and what follows it. A quote that no backslash
goes before is none of the characters. -/
def unescape? : List Char → Option (Char × List Char)
  | '\\' :: 'u' :: '\x7b' :: rest =>
    some (Char.ofNat (hexValue (rest.takeWhile (· ≠ '\x7d'))), (rest.dropWhile (· ≠ '\x7d')).drop 1)
  | '\\' :: 'n' :: rest => some ('\n', rest)
  | '\\' :: 'r' :: rest => some ('\r', rest)
  | '\\' :: 't' :: rest => some ('\t', rest)
  | '\\' :: '0' :: rest => some ('\x00', rest)
  | '\\' :: c :: rest => some (c, rest)
  | '"' :: _ => none
  | c :: rest => some (c, rest)
  | [] => none

theorem unescape?_escape (c : Char) (rest : List Char) : unescape? (escape c ++ rest) = some (c, rest) := by
  -- Behind a backslash, one letter stands for a code point in braces and no other escape has that letter.
  by_cases short : c ∈ ['"', '\\', '\n', '\r', '\t', '\x00']
  · simp only [List.mem_cons, List.not_mem_nil, or_false] at short
    rcases short with rfl | rfl | rfl | rfl | rfl | rfl <;> rfl
  · simp only [List.mem_cons, List.not_mem_nil, or_false, not_or] at short
    obtain ⟨noQuote, noBackslash, noLineFeed, noReturn, noTab, noNul⟩ := short
    by_cases control : isControl c
    · obtain ⟨value, free⟩ := hexValue_toDigits c.toNat
      obtain ⟨digits, behind⟩ := cut_at_stop free rest
      have written : escape c ++ rest = '\\' :: 'u' :: '\x7b' :: (Nat.toDigits 16 c.toNat ++ '\x7d' :: rest) := by
        simp [escape, noQuote, noBackslash, noLineFeed, noReturn, noTab, noNul, control]
      rw [written, unescape?, digits, behind, value, Char.ofNat_toNat]
      rfl
    · have written : escape c ++ rest = c :: rest := by
        simp [escape, noQuote, noBackslash, noLineFeed, noReturn, noTab, noNul, control]
      rw [written, unescape?] <;> simp [noQuote, noBackslash]

private theorem escape_selfDelimiting : SelfDelimiting escape :=
  .of_read unescape?_escape

/-- Inside quotes no character is written with a quote in front. -/
private theorem escape_neverStarts : NeverStarts escape '"' := by
  intro c rest other same
  have read := unescape?_escape c rest
  rw [same] at read
  cases read

private theorem quote_toList (text : String) : (quote text).toList = ['"'] ++ sequence escape '"' text.toList := by
  simp [quote, sequence]

theorem quote_selfDelimiting : SelfDelimiting fun text => (quote text).toList := by
  have inside := (escape_selfDelimiting.sequence escape_neverStarts).behind ['"']
  intro first second rest other same
  simp only [quote_toList] at same
  obtain ⟨texts, behind⟩ := inside _ _ _ _ same
  exact ⟨String.toList_inj.mp texts, behind⟩

end Text

private theorem Kind.comma_not_mem_name (kind : Kind) : ',' ∉ kind.name.toList := by
  cases kind <;> decide

theorem Kind.name_injective (first second : Kind) (same : first.name.toList = second.name.toList) :
    first = second := by
  rw [String.toList_inj] at same
  cases first <;> cases second <;> simp_all [name]

/-- The entry of a token with this kind and this text. -/
def entryOf (content : Kind × String) : List Char :=
  ['('] ++ ((content.1.name.toList ++ [',']) ++ ([' '] ++ ((Text.quote content.2).toList ++ [')'])))

private theorem entryOf_selfDelimiting : Text.SelfDelimiting entryOf := by
  have kind := Text.SelfDelimiting.closed Kind.comma_not_mem_name Kind.name_injective
  have text := (Text.quote_selfDelimiting.before [')']).behind [' ']
  exact (kind.append text).behind ['(']

namespace Token

private theorem entry_toList (token : Token) : token.entry.toList = entryOf token.content := by
  simp [entry, entryOf, content]

theorem listing_toList (tokens : List Token) :
    (listing tokens).toList = ['['] ++ Text.separated entryOf [',', ' '] ']' (tokens.map content) := by
  have entries : String.toList ∘ entry = entryOf ∘ content := funext entry_toList
  simp [listing, Text.separated, String.toList_intercalate, entries]

theorem listing_eq_iff_content {first second : List Token} :
    listing first = listing second ↔ first.map content = second.map content := by
  have entries : Text.SelfDelimiting (Text.separated entryOf [',', ' '] ']') :=
    entryOf_selfDelimiting.separated (fun _ _ _ same => by cases same) (fun _ _ _ same => by cases same)
  rw [← String.toList_inj, listing_toList, listing_toList]
  constructor
  · intro same
    exact (entries.behind ['[']).injective same
  · intro same
    rw [same]

/-- Two listings are the same text exactly if they list as many tokens, of the same kinds and with the same
texts, in the same order. Places are not listed. -/
theorem listing_eq_iff (first second : List Token) :
    listing first = listing second ↔
      first.length = second.length ∧
      ∀ (i : Nat) (inFirst : i < first.length) (inSecond : i < second.length),
        first[i].kind = second[i].kind ∧ first[i].text = second[i].text := by
  rw [listing_eq_iff_content, List.ext_getElem_iff]
  simp [content]

end Token

end ThreeAddress
