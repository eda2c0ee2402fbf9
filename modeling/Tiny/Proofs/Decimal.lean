import Tiny.Decimal

/-!
# Reading numbers back

The value of a run of digits is `Nat.ofDigitChars 10`.  Reading the run gives that value if it is
within bounds, and finds it too large otherwise (`readUp_digits`); nothing else is read
(`readUp_eq_ok_iff`).  So a number that was written in decimal is read as itself:
`readLocation_toDigits` for locations, `readWord_intDigits` for machine words.
-/

namespace Tiny.Decimal

theorem toNat_of_isDigit {c : Char} (h : c.isDigit = true) : 48 ≤ c.toNat ∧ c.toNat ≤ 57 := by
  simp only [Char.isDigit, Bool.and_eq_true, decide_eq_true_eq] at h
  exact ⟨UInt32.le_iff_toNat_le.mp h.1, UInt32.le_iff_toNat_le.mp h.2⟩

theorem digit?_of_isDigit {c : Char} (h : c.isDigit = true) : digit? c = some (c.toNat - 48) := by
  obtain ⟨low, high⟩ := toNat_of_isDigit h
  have hLow : '0' ≤ c := Char.le_def.mpr (UInt32.le_iff_toNat_le.mpr low)
  have hHigh : c ≤ '9' := Char.le_def.mpr (UInt32.le_iff_toNat_le.mpr high)
  rw [digit?, if_pos ⟨hLow, hHigh⟩]
  rfl

/-- Further digits never make a number smaller. -/
theorem le_ofDigitChars (digits : List Char) (value : Nat) :
    value ≤ Nat.ofDigitChars 10 digits value := by
  induction digits generalizing value with
  | nil => simp
  | cons c rest ih =>
    rw [Nat.ofDigitChars_cons]
    have := ih (10 * value + (c.toNat - '0'.toNat))
    omega

/-- **Reading digits** gives their value, or finds that it passes the bound. -/
theorem readUp_digits {high : Nat} {digits : List Char} (h : ∀ c ∈ digits, c.isDigit = true)
    {value : Nat} (hv : value ≤ high) :
    readUp high value digits =
      if Nat.ofDigitChars 10 digits value ≤ high then .ok (Nat.ofDigitChars 10 digits value)
      else .error .tooLarge := by
  induction digits generalizing value with
  | nil => rw [readUp, Nat.ofDigitChars_nil, if_pos hv]
  | cons c rest ih =>
    have hValue : value * 10 + (c.toNat - 48) = 10 * value + (c.toNat - '0'.toNat) := by
      rw [Nat.mul_comm]; rfl
    rw [readUp, digit?_of_isDigit (h c List.mem_cons_self), Nat.ofDigitChars_cons]
    simp only [hValue]
    by_cases hNext : 10 * value + (c.toNat - '0'.toNat) ≤ high
    · rw [if_pos hNext, ih (fun d hd => h d (List.mem_cons_of_mem c hd)) hNext]
    · have := le_ofDigitChars rest (10 * value + (c.toNat - '0'.toNat))
      rw [if_neg hNext, if_neg (by omega)]

theorem isDigit_of_digit? {c : Char} {d : Nat} (h : digit? c = some d) : c.isDigit = true := by
  rw [digit?] at h
  split at h
  · rename_i hc
    simp only [Char.isDigit, Bool.and_eq_true, decide_eq_true_eq]
    exact hc
  · cases h

/-- What is read as a number has digits only. -/
theorem isDigit_of_readUp {high value n : Nat} {digits : List Char}
    (h : readUp high value digits = .ok n) : ∀ c ∈ digits, c.isDigit = true := by
  induction digits generalizing value with
  | nil => exact fun c hc => absurd hc List.not_mem_nil
  | cons c rest ih =>
    rw [readUp] at h
    split at h
    · cases h
    · rename_i d hd
      split at h
      · exact List.forall_mem_cons.mpr ⟨isDigit_of_digit? hd, ih h⟩
      · cases h

/-- **Digits within bounds are read, and nothing else is.** -/
theorem readUp_eq_ok_iff {high value n : Nat} {digits : List Char} (hv : value ≤ high) :
    readUp high value digits = .ok n ↔
      (∀ c ∈ digits, c.isDigit = true) ∧ Nat.ofDigitChars 10 digits value = n ∧ n ≤ high := by
  constructor
  · intro h
    have hDigits := isDigit_of_readUp h
    rw [readUp_digits hDigits hv] at h
    split at h
    · rename_i hHigh
      obtain rfl := Except.ok.inj h
      exact ⟨hDigits, rfl, hHigh⟩
    · cases h
  · rintro ⟨hDigits, rfl, hHigh⟩
    rw [readUp_digits hDigits hv, if_pos hHigh]

theorem isDigit_of_mem_toDigits {c : Char} {n : Nat} (h : c ∈ Nat.toDigits 10 n) :
    c.isDigit = true :=
  Nat.isDigit_of_mem_toDigits (by decide) (by decide) h

theorem readUp_toDigits {high n : Nat} (h : n ≤ high) :
    readUp high 0 (Nat.toDigits 10 n) = .ok n := by
  rw [readUp_digits (fun c hc => isDigit_of_mem_toDigits hc) (Nat.zero_le high),
    Nat.ofDigitChars_ten_toDigits, if_pos h]

/-- A run of characters that are no signs starts with none. -/
theorem head_of_run {p : Char → Bool} (hPlus : p '+' = false) (hMinus : p '-' = false)
    {run : List Char} (hNil : run ≠ []) (h : ∀ c ∈ run, p c = true) :
    ∃ c rest, run = c :: rest ∧ c ≠ '+' ∧ c ≠ '-' := by
  cases run with
  | nil => exact absurd rfl hNil
  | cons c rest =>
    have hc := h c List.mem_cons_self
    refine ⟨c, rest, rfl, ?_, ?_⟩
    · rintro rfl
      rw [hPlus] at hc
      cases hc
    · rintro rfl
      rw [hMinus] at hc
      cases hc

theorem readNat_cons {high : Nat} {c : Char} (hPlus : c ≠ '+') (rest : List Char) :
    readNat high (c :: rest) = readUp high 0 (c :: rest) := by
  rw [readNat]
  · simp
  · simp [hPlus]
  · simp [hPlus]

theorem readNat_digits {high : Nat} {digits : List Char} (hNil : digits ≠ [])
    (h : ∀ c ∈ digits, c.isDigit = true) : readNat high digits = readUp high 0 digits := by
  obtain ⟨c, rest, rfl, hPlus, -⟩ := head_of_run (by decide) (by decide) hNil h
  exact readNat_cons hPlus rest

theorem readInt_cons {low high : Nat} {c : Char} (hPlus : c ≠ '+') (hMinus : c ≠ '-')
    (rest : List Char) :
    readInt low high (c :: rest) = (readUp high 0 (c :: rest)).map Int.ofNat := by
  rw [readInt]
  · simp
  · simp [hPlus]
  · simp [hMinus]
  · simp [hPlus]
  · simp [hMinus]

theorem readInt_digits {low high : Nat} {digits : List Char} (hNil : digits ≠ [])
    (h : ∀ c ∈ digits, c.isDigit = true) :
    readInt low high digits = (readUp high 0 digits).map Int.ofNat := by
  obtain ⟨c, rest, rfl, hPlus, hMinus⟩ := head_of_run (by decide) (by decide) hNil h
  exact readInt_cons hPlus hMinus rest

theorem readInt_minus_digits {low high : Nat} {digits : List Char} (hNil : digits ≠ []) :
    readInt low high ('-' :: digits) = readDown low digits := by
  rw [readInt]
  simpa using hNil

/-- A location is read as it was written. -/
theorem readLocation_toDigits {n : Nat} (h : n < 18446744073709551616) :
    readLocation (Nat.toDigits 10 n) = .ok n := by
  rw [readLocation, readNat_digits Nat.toDigits_ne_nil fun c hc => isDigit_of_mem_toDigits hc,
    readUp_toDigits (by omega)]

/-- How an integer is written. -/
def intDigits : Int → List Char
  | .ofNat n => Nat.toDigits 10 n
  | .negSucc n => '-' :: Nat.toDigits 10 (n + 1)

theorem toList_repr_int (i : Int) : i.repr.toList = intDigits i := by
  cases i with
  | ofNat n => simp [Int.repr, intDigits, Nat.toList_repr]
  | negSucc n => simp [Int.repr, intDigits, Nat.toList_repr]

theorem readInt_intDigits {low high : Nat} {i : Int} (hLow : -low ≤ i) (hHigh : i ≤ high) :
    readInt low high (intDigits i) = .ok i := by
  cases i with
  | ofNat n =>
    have hn : n ≤ high := Int.ofNat_le.mp hHigh
    rw [intDigits,
      readInt_digits Nat.toDigits_ne_nil fun c hc => isDigit_of_mem_toDigits hc,
      readUp_toDigits hn]
    rfl
  | negSucc n =>
    have hn : n + 1 ≤ low := by omega
    rw [intDigits, readInt_minus_digits Nat.toDigits_ne_nil, readDown, readUp_toDigits hn]
    rfl

/-- **A machine word is read as it was written.** -/
theorem readWord_intDigits (word : Int32) : readWord (intDigits word.toInt) = .ok word := by
  have hLow := word.le_toInt
  have hHigh := word.toInt_lt
  rw [readWord, readInt_intDigits (by omega) (by omega)]
  simp [Except.map]

end Tiny.Decimal
