import Conference.Json.Reader

/-! Numerals survive as text. A numeral whose parts are all there, and whose whole part has no zero
in vain, is read back as it was written, whatever follows it that cannot continue a number. Numbers
and floats are written as such numerals. -/
namespace Conference.NumeralRoundTrip
open Numeral

variable {rest : List Char} {digits : List Digit} {numeral : Numeral}

/-- Digits that can stand in front of a point: at least one, and no zero in front of another. -/
def Whole (digits : List Digit) : Prop :=
  digits ≠ [] ∧ ∀ first next more, digits = first :: next :: more → first.val ≠ 0

/-- A numeral of JSON. An empty fraction is written without its point. -/
structure Written (numeral : Numeral) : Prop where
  whole : Whole numeral.whole
  exponent : ∀ sign digits, numeral.exponent = some (sign, digits) → digits ≠ []

/-! ## Reading -/

/-- Whether a text goes on with a digit. -/
def Digitless (rest : List Char) : Prop := ∀ c, rest.head? = some c → Digit.ofChar? c = none

/-- Text with which no numeral goes on. -/
def Apart (rest : List Char) : Prop :=
  Digitless rest ∧ ∀ c, rest.head? = some c → c ≠ '.' ∧ c ≠ 'e' ∧ c ≠ 'E'

theorem apart_nil : Apart [] := ⟨nofun, nofun⟩

/-- Digits are read up to where they end. -/
theorem span_digits_text (ends : Digitless rest) :
    spanDigits (Digit.text digits ++ rest) = (digits, rest) := by
  induction digits with
  | nil =>
    cases rest with
    | nil => rfl
    | cons c rest => simp [Digit.text, spanDigits, ends c rfl]
  | cons digit digits ih =>
    have first : Digit.text (digit :: digits) ++ rest =
        digit.toChar :: (Digit.text digits ++ rest) := rfl
    simp only [first, spanDigits, Digit.ofChar?_toChar, ih]

private theorem read_whole (whole : Whole digits) (ends : Digitless rest) :
    readWhole? (Digit.text digits ++ rest) = some (digits, rest) := by
  obtain ⟨some, vain⟩ := whole
  unfold readWhole?
  rw [span_digits_text ends]
  split
  · rename_i none
    exact absurd (congrArg Prod.fst none) some
  · rename_i next more _ zero
    exact absurd rfl (vain _ next more (congrArg Prod.fst zero))
  · rename_i same
    cases same
    rfl

/-- A fraction as it is written. -/
def fractionText (fraction : List Digit) : List Char :=
  if fraction.isEmpty then [] else '.' :: Digit.text fraction

private theorem read_fraction (ends : Digitless rest)
    (pointless : ∀ c, rest.head? = some c → c ≠ '.') :
    readFraction? (fractionText digits ++ rest) = some (digits, rest) := by
  cases digits with
  | nil =>
    unfold readFraction?
    split
    · rename_i point
      exact absurd rfl (pointless _ (congrArg List.head? point))
    · rfl
  | cons digit digits =>
    have point : fractionText (digit :: digits) ++ rest =
        '.' :: (Digit.text (digit :: digits) ++ rest) := rfl
    simp only [point, readFraction?, span_digits_text ends]

/-- An exponent as it is written. -/
def exponentText : Option (ExponentSign × List Digit) → List Char
  | none => []
  | some (.bare, digits) => 'e' :: Digit.text digits
  | some (.plus, digits) => 'e' :: '+' :: Digit.text digits
  | some (.minus, digits) => 'e' :: '-' :: Digit.text digits

private theorem read_exponent_digits (sign : ExponentSign) (some : digits ≠ [])
    (ends : Digitless rest) : readExponentDigits? sign (Digit.text digits ++ rest) =
      .some (.some (sign, digits), rest) := by
  unfold readExponentDigits?
  rw [span_digits_text ends]
  split
  · rename_i none
    exact absurd (congrArg Prod.fst none) some
  · rename_i same
    cases same
    rfl

private theorem to_char_ne_sign (digit : Digit) : digit.toChar ≠ '+' ∧ digit.toChar ≠ '-' := by
  revert digit
  decide

private theorem read_no_exponent (apart : Apart rest) : readExponent? rest = some (none, rest) := by
  obtain ⟨-, other⟩ := apart
  unfold readExponent?
  split
  iterate 6
    have letter := other _ rfl
    simp at letter
  rfl

/-- A digit right after the letter is no sign. -/
private theorem read_bare_exponent (some : digits ≠ []) (digitless : Digitless rest) :
    readExponent? (exponentText (.some (.bare, digits)) ++ rest) =
      .some (.some (.bare, digits), rest) := by
  have read := read_exponent_digits .bare some digitless
  obtain ⟨digit, more, rfl⟩ := List.exists_cons_of_ne_nil some
  obtain ⟨plus, minus⟩ := to_char_ne_sign digit
  have first : exponentText (.some (.bare, digit :: more)) ++ rest =
      'e' :: digit.toChar :: (Digit.text more ++ rest) := rfl
  rw [first]
  unfold readExponent?
  split
  · rename_i sign
    exact absurd (List.cons.inj (List.cons.inj sign).2).1 plus
  · rename_i sign
    exact absurd (List.cons.inj (List.cons.inj sign).2).1 minus
  · rename_i same
    cases same
    exact read
  · rename_i mark
    cases (List.cons.inj mark).1
  · rename_i mark
    cases (List.cons.inj mark).1
  · rename_i mark
    cases (List.cons.inj mark).1
  · rename_i bare _ _ _
    exact absurd rfl (bare _)

private theorem read_exponent (exponent : Option (ExponentSign × List Digit))
    (some : ∀ sign digits, exponent = .some (sign, digits) → digits ≠ []) (apart : Apart rest) :
    readExponent? (exponentText exponent ++ rest) = .some (exponent, rest) := by
  cases exponent with
  | none => exact read_no_exponent apart
  | some given =>
    obtain ⟨sign, digits⟩ := given
    have present := some sign digits rfl
    cases sign with
    | plus => exact read_exponent_digits .plus present apart.1
    | minus => exact read_exponent_digits .minus present apart.1
    | bare => exact read_bare_exponent present apart.1

private theorem text_eq (numeral : Numeral) : numeral.text =
    (if numeral.negative then ['-'] else []) ++ (Digit.text numeral.whole ++
      (fractionText numeral.fraction ++ exponentText numeral.exponent)) := by
  obtain ⟨negative, whole, fraction, exponent⟩ := numeral
  rcases exponent with _ | ⟨_ | _ | _, digits⟩ <;>
    simp [Numeral.text, fractionText, exponentText]

private theorem exponent_ends (power : Option (ExponentSign × List Digit)) (apart : Apart rest) :
    Digitless (exponentText power ++ rest) ∧
      ∀ c, (exponentText power ++ rest).head? = some c → c ≠ '.' := by
  rcases power with _ | ⟨_ | _ | _, digits⟩
  · exact ⟨apart.1, fun c head => (apart.2 c head).1⟩
  all_goals
    refine ⟨fun c head => ?_, fun c head => ?_⟩
    all_goals
      cases head
      decide

private theorem fraction_ends (ends : Digitless rest) :
    Digitless (fractionText digits ++ rest) := by
  cases digits with
  | nil => exact ends
  | cons digit digits =>
    intro c head
    cases head
    decide

private theorem read_magnitude (negative : Bool) (written : Written numeral) (apart : Apart rest) :
    readMagnitude? negative (Digit.text numeral.whole ++ (fractionText numeral.fraction ++
      (exponentText numeral.exponent ++ rest))) = some ({ numeral with negative }, rest) := by
  obtain ⟨digitless, pointless⟩ := exponent_ends numeral.exponent apart
  simp only [readMagnitude?, read_whole written.whole (fraction_ends digitless),
    read_fraction digitless pointless, read_exponent numeral.exponent written.exponent apart,
    Option.bind_eq_bind, Option.bind_some]
  rfl

/-- A numeral is read back as it was written. -/
theorem read_text (written : Written numeral) (apart : Apart rest) :
    Numeral.read? (numeral.text ++ rest) = some (numeral, rest) := by
  have read := read_magnitude numeral.negative written apart
  rw [text_eq]
  obtain ⟨negative, whole, fraction, exponent⟩ := numeral
  simp only [List.append_assoc]
  cases negative with
  | true => exact read
  | false =>
    obtain ⟨digit, more, rfl⟩ := List.exists_cons_of_ne_nil written.whole.1
    simp only [Bool.false_eq_true, if_false, List.nil_append]
    unfold Numeral.read?
    split
    · rename_i minus
      exact absurd (List.cons.inj minus).1 (to_char_ne_sign digit).2
    · exact read

/-- A numeral begins with its sign or its first digit. -/
theorem text_head (written : Written numeral) :
    ∃ c more, numeral.text = c :: more ∧ (c = '-' ∨ ∃ digit : Digit, c = digit.toChar) := by
  rw [text_eq]
  obtain ⟨digit, more, whole⟩ := List.exists_cons_of_ne_nil written.whole.1
  cases numeral.negative with
  | true => exact ⟨_, _, rfl, .inl rfl⟩
  | false =>
    rw [whole]
    exact ⟨_, _, rfl, .inr ⟨digit, rfl⟩⟩

/-! ## Writing -/

private theorem whole_digit (digit : Digit) : Whole [digit] := ⟨List.cons_ne_nil _ _, by simp⟩

theorem of_nat_whole (n : Nat) : Whole (Digit.ofNat n) := by
  refine ⟨Digit.ofNat_ne_nil n, ?_⟩
  induction n using Nat.strongRecOn with
  | ind n ih =>
    rw [Digit.ofNat]
    split
    · exact (whole_digit _).2
    · intro first next more spelled zero
      cases earlier : Digit.ofNat (n / 10) with
      | nil => exact Digit.ofNat_ne_nil _ earlier
      | cons head others =>
        rw [earlier] at spelled
        have same : head = first := (List.cons.inj spelled).1
        cases others with
        | nil =>
          have value := Digit.toNat_ofNat (n / 10)
          simp [earlier, Digit.toNat, same, zero] at value
          omega
        | cons second others => exact ih (n / 10) (by omega) head second others earlier (same ▸ zero)

/-- A number but zero has no leading zero at all. -/
theorem of_nat_head (positive : n ≠ 0) (spelled : Digit.ofNat n = first :: more) :
    first.val ≠ 0 := by
  intro zero
  cases more with
  | nil =>
    have value := Digit.toNat_ofNat n
    rw [spelled] at value
    exact positive (by simpa [Digit.toNat, zero] using value.symm)
  | cons next more => exact (of_nat_whole n).2 first next more spelled zero

theorem written_of_nat (n : Nat) : Written (Numeral.ofNat n) := ⟨of_nat_whole n, nofun⟩

/-- Decimals are written with one of their own digits in front, or with a single zero. -/
theorem written_of_scaled (negative : Bool) (decimal : Scaled) (positive : decimal.digits ≠ 0) :
    Written (ofScaled negative decimal) := by
  obtain ⟨digit, more, spelled⟩ := List.exists_cons_of_ne_nil (Digit.ofNat_ne_nil decimal.digits)
  have own (tail : List Digit) : Whole (digit :: tail) :=
    ⟨List.cons_ne_nil _ _, fun _ _ _ same =>
      (List.cons.inj same).1 ▸ of_nat_head positive spelled⟩
  simp only [ofScaled, spelled]
  split
  · split
    · exact ⟨own _, by simp⟩
    · split
      · exact ⟨own _, by simp⟩
      · exact ⟨whole_digit _, by simp⟩
  · refine ⟨own _, ?_⟩
    rintro _ _ ⟨⟩
    exact Digit.ofNat_ne_nil _

/-! Zero is no candidate for the shortest decimal of another number: it does not read back. -/

private theorem reads_back_positive (some : m ≠ 0) {decimal : Scaled}
    (reads : Scaled.readsBack m q narrow decimal = true) : decimal.digits ≠ 0 := by
  intro zero
  have below (bound : Nat) (above : 0 < bound) (exp : Int) :
      Scaled.compareBinary 0 decimal.exp bound exp = .lt := by
    have left : (0 * Nat.pow 10 decimal.exp.toNat) <<< (-exp).toNat = 0 := by simp
    have right : 0 < bound <<< exp.toNat * Nat.pow 10 (-decimal.exp).toNat := by
      rw [Nat.shiftLeft_eq]
      exact Nat.mul_pos (Nat.mul_pos above (Nat.two_pow_pos _)) (Nat.pow_pos (by decide))
    rw [Scaled.compareBinary, left]
    exact Nat.compare_eq_lt.mpr right
  have low : 0 < if narrow = true then 4 * m - 1 else 4 * m - 2 := by split <;> omega
  simp [Scaled.readsBack, zero, below _ low] at reads

private theorem on_grid_positive (some : m ≠ 0)
    (found : Scaled.onGrid m q narrow grid = .some decimal) : decimal.digits ≠ 0 := by
  unfold Scaled.onGrid at found
  simp only at found
  split at found
  · rename_i low
    have lower := reads_back_positive some low
    split at found
    · split at found
      · cases found
        exact lower
      · cases found
        exact Nat.succ_ne_zero _
      · split at found <;> cases found
        · exact lower
        · exact Nat.succ_ne_zero _
    · cases found
      exact lower
  · split at found <;> cases found
    exact Nat.succ_ne_zero _

private theorem strip_positive (tries : Nat) {decimal : Scaled} (positive : decimal.digits ≠ 0) :
    (Scaled.strip tries decimal).digits ≠ 0 := by
  induction tries generalizing decimal with
  | zero => exact positive
  | succ tries ih =>
    unfold Scaled.strip
    split
    · exact ih (by simp only []; omega)
    · exact positive

private theorem shortest_positive (some : m ≠ 0) (q : Int) (narrow : Bool) :
    (Scaled.shortest m q narrow).digits ≠ 0 := by
  unfold Scaled.shortest
  simp only
  split
  · rename_i found
    obtain ⟨grid, -, there⟩ := List.exists_of_findSome?_eq_some found
    exact strip_positive 17 (on_grid_positive some there)
  · unfold Scaled.exact
    split
    · rw [Nat.shiftLeft_eq]
      exact Nat.mul_ne_zero some (Nat.ne_of_gt (Nat.two_pow_pos _))
    · exact Nat.mul_ne_zero some (Nat.ne_of_gt (Nat.pow_pos (by decide)))

/-- Every float that has a numeral is written as one of JSON. -/
theorem written_of_float (shown : ofFloat? x = some numeral) : Written numeral := by
  unfold ofFloat? at shown
  split at shown
  · split at shown
    · cases shown
      exact ⟨whole_digit _, by simp⟩
    · rename_i some
      cases shown
      exact written_of_scaled _ _ (shortest_positive some _ _)
  · cases shown

end Conference.NumeralRoundTrip
