import ThreeAddress.Word

/-! The texts that denote words. A sign is optional, at least one digit follows it,
leading zeros are allowed, and the value has to be in range. -/

namespace ThreeAddress.Word

abbrev least : Int := -9223372036854775808

abbrev greatest : Int := 9223372036854775807

/-- Whether an integer is the value of a signed 64-bit word. -/
abbrev Fits (n : Int) : Prop :=
  least ≤ n ∧ n ≤ greatest

def Numeral (digits : List Char) : Prop :=
  digits ≠ [] ∧ ∀ digit ∈ digits, digit.isDigit

instance (digits : List Char) : Decidable (Numeral digits) :=
  decidable_of_iff ((!digits.isEmpty && digits.all Char.isDigit) = true) (by simp [Numeral])

theorem numeral_toDigits (n : Nat) : Numeral (Nat.toDigits 10 n) :=
  ⟨Nat.toDigits_ne_nil, fun _ member => Nat.isDigit_of_mem_toDigits (by decide) (by decide) member⟩

/-- A numeral with a sign in front of it, and the integer that both stand for. -/
inductive Signed : List Char → Int → Prop where
  | unsigned {digits : List Char} (numeral : Numeral digits) :
      Signed digits (Nat.ofDigitChars 10 digits 0)
  | plus {digits : List Char} (numeral : Numeral digits) :
      Signed ('+' :: digits) (Nat.ofDigitChars 10 digits 0)
  | minus {digits : List Char} (numeral : Numeral digits) :
      Signed ('-' :: digits) (-(Nat.ofDigitChars 10 digits 0))

theorem check_eq (n : Int) : check n = if Fits n then some n else none := rfl

theorem check_eq_some_iff {n value : Int} : check n = some value ↔ n = value ∧ Fits value := by
  rw [check_eq]
  split
  next fits =>
    constructor
    · intro same
      cases same
      exact ⟨rfl, fits⟩
    · rintro ⟨rfl, _⟩
      rfl
  next wide =>
    constructor
    · intro impossible
      cases impossible
    · rintro ⟨rfl, fits⟩
      exact absurd fits wide

theorem magnitude?_eq_some_iff {digits : List Char} {n : Nat} :
    magnitude? digits = some n ↔ Numeral digits ∧ Nat.ofDigitChars 10 digits 0 = n := by
  simp only [magnitude?, List.all_eq_true, digitsValue]
  split
  next numeral =>
    rw [Option.some.injEq]
    exact ⟨fun same => ⟨numeral, same⟩, fun ⟨_, same⟩ => same⟩
  next other =>
    constructor
    · intro impossible
      cases impossible
    · rintro ⟨numeral, _⟩
      exact absurd numeral other

private theorem checked_eq_some_iff {digits : List Char} {value : Int} (sign : Nat → Int) :
    (magnitude? digits >>= fun n => check (sign n)) = some value ↔
      Numeral digits ∧ sign (Nat.ofDigitChars 10 digits 0) = value ∧ Fits value := by
  simp only [Option.bind_eq_bind, Option.bind_eq_some_iff, magnitude?_eq_some_iff, check_eq_some_iff]
  constructor
  · rintro ⟨n, ⟨numeral, rfl⟩, same, fits⟩
    exact ⟨numeral, same, fits⟩
  · rintro ⟨numeral, same, fits⟩
    exact ⟨_, ⟨numeral, rfl⟩, same, fits⟩

theorem Numeral.head_ne {c : Char} {rest : List Char} (numeral : Numeral (c :: rest)) :
    c ≠ '-' ∧ c ≠ '+' := by
  have digit := numeral.2 c List.mem_cons_self
  constructor
  all_goals
    rintro rfl
    exact absurd digit (by decide)

/-- A literal is accepted exactly when it is a signed or unsigned numeral whose
value is in range, and then it denotes that value. -/
theorem ofLiteral?_eq_some_iff {text : String} {value : Int} :
    ofLiteral? text = some value ↔ Signed text.toList value ∧ Fits value := by
  unfold ofLiteral?
  split
  next digits chars =>
    rw [chars, checked_eq_some_iff (fun n => -(n : Int))]
    constructor
    · rintro ⟨numeral, rfl, fits⟩
      exact ⟨.minus numeral, fits⟩
    · rintro ⟨signed, fits⟩
      cases signed with
      | unsigned numeral => exact absurd rfl numeral.head_ne.1
      | minus numeral => exact ⟨numeral, rfl, fits⟩
  next digits chars =>
    rw [chars, checked_eq_some_iff (fun n => (n : Int))]
    constructor
    · rintro ⟨numeral, rfl, fits⟩
      exact ⟨.plus numeral, fits⟩
    · rintro ⟨signed, fits⟩
      cases signed with
      | unsigned numeral => exact absurd rfl numeral.head_ne.2
      | plus numeral => exact ⟨numeral, rfl, fits⟩
  next notMinus notPlus =>
    rw [checked_eq_some_iff (fun n => (n : Int))]
    constructor
    · rintro ⟨numeral, rfl, fits⟩
      exact ⟨.unsigned numeral, fits⟩
    · rintro ⟨signed, fits⟩
      generalize chars : text.toList = characters at signed notMinus notPlus
      cases signed with
      | unsigned numeral => exact ⟨numeral, rfl, fits⟩
      | plus numeral => exact absurd rfl (notPlus _)
      | minus numeral => exact absurd rfl (notMinus _)

theorem ofLiteral?_numeral {text : String} (numeral : Numeral text.toList) {value : Int} :
    ofLiteral? text = some value ↔ value = Nat.ofDigitChars 10 text.toList 0 ∧ Fits value := by
  rw [ofLiteral?_eq_some_iff]
  constructor
  · rintro ⟨signed, fits⟩
    generalize text.toList = characters at signed numeral
    cases signed with
    | unsigned _ => exact ⟨rfl, fits⟩
    | plus _ => exact absurd rfl numeral.head_ne.2
    | minus _ => exact absurd rfl numeral.head_ne.1
  · rintro ⟨rfl, fits⟩
    exact ⟨.unsigned numeral, fits⟩

theorem greatest_lt_of_refused {text : String} (numeral : Numeral text.toList)
    (refused : ofLiteral? text = none) : greatest < Nat.ofDigitChars 10 text.toList 0 := by
  apply Int.not_le.mp
  intro small
  have accepted : ofLiteral? text = some (Nat.ofDigitChars 10 text.toList 0 : Int) :=
    (ofLiteral?_numeral numeral).mpr ⟨rfl, by unfold least; omega, small⟩
  rw [refused] at accepted
  cases accepted

/-- Every word is denoted by its decimal text, the negative ones and the least one too. -/
theorem ofLiteral?_repr {value : Int} (fits : Fits value) : ofLiteral? value.repr = some value := by
  rw [ofLiteral?_eq_some_iff]
  refine ⟨?_, fits⟩
  cases value with
  | ofNat n =>
    have signed := Signed.unsigned (numeral_toDigits n)
    rw [Nat.ofDigitChars_ten_toDigits] at signed
    simpa [Int.repr, Nat.repr_eq_ofList_toDigits] using signed
  | negSucc n =>
    have signed := Signed.minus (numeral_toDigits (n + 1))
    rw [Nat.ofDigitChars_ten_toDigits] at signed
    simpa [Int.repr, Nat.repr_eq_ofList_toDigits, Int.negSucc_eq] using signed

end ThreeAddress.Word
