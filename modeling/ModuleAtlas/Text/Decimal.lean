/-!
# Decimal numerals

## Main definitions

* `digits` — the decimal numeral of a number, without leading zeros.
* `ofDigits` — the number that a list of digits denotes.
* `intDigits` — the numeral of an integer, with a minus sign if it is negative.
-/

namespace ModuleAtlas.Text

/-- The character of a digit below ten. -/
def digitChar (d : Nat) : Char := Char.ofNat ('0'.toNat + d)

/-- The value of a digit character. -/
def digitValue (c : Char) : Nat := c.toNat - '0'.toNat

/-- Whether a character is a decimal digit of ASCII. -/
def isDigit (c : Char) : Bool := '0'.toNat ≤ c.toNat && c.toNat ≤ '9'.toNat

/-- The decimal numeral of a number. -/
def digits (n : Nat) : List Char :=
  if n < 10 then [digitChar n] else digits (n / 10) ++ [digitChar (n % 10)]

/-- The number that a list of digits denotes. -/
def ofDigits (l : List Char) : Nat := l.foldl (fun n c => 10 * n + digitValue c) 0

/-- The decimal numeral of an integer. -/
def intDigits (n : Int) : List Char :=
  if n < 0 then '-' :: digits n.natAbs else digits n.natAbs

theorem digitChar_isDigit : ∀ d, d < 10 → isDigit (digitChar d) = true := by decide

theorem digitValue_digitChar : ∀ d, d < 10 → digitValue (digitChar d) = d := by decide

@[simp] theorem ofDigits_nil : ofDigits [] = 0 := rfl

theorem ofDigits_concat (l : List Char) (c : Char) :
    ofDigits (l ++ [c]) = 10 * ofDigits l + digitValue c := by simp [ofDigits]

/-- A numeral denotes its number. -/
theorem ofDigits_digits (n : Nat) : ofDigits (digits n) = n := by
  fun_induction digits n with
  | case1 n h => simp [ofDigits, digitValue_digitChar n h]
  | case2 n h ih =>
    rw [ofDigits_concat, ih, digitValue_digitChar _ (Nat.mod_lt _ (by omega))]
    omega

/-- A numeral holds digits only. -/
theorem isDigit_of_mem_digits {n : Nat} {c : Char} (h : c ∈ digits n) : isDigit c = true := by
  fun_induction digits n with
  | case1 n hn => simp only [List.mem_singleton] at h; exact h ▸ digitChar_isDigit n hn
  | case2 n hn ih =>
    rcases List.mem_append.1 h with h | h
    · exact ih h
    · simp only [List.mem_singleton] at h; exact h ▸ digitChar_isDigit _ (Nat.mod_lt _ (by omega))

end ModuleAtlas.Text
