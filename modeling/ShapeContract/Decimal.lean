/-!
# Decimal digits

Natural numbers and their digits to base ten, both ways: `value (digits n) = n`.
-/

set_option autoImplicit false

namespace ShapeContract.Decimal

def digitChar (d : Nat) : Char := Char.ofNat (48 + d)

/-- The digits of a number, most significant first; zero has one digit. -/
def digits (n : Nat) : List Char :=
  if n < 10 then [digitChar n] else digits (n / 10) ++ [digitChar (n % 10)]
termination_by n

def isDigit (c : Char) : Bool := 48 ≤ c.toNat && c.toNat ≤ 57

def digitValue (c : Char) : Nat := c.toNat - 48

/-- The number that a run of digits denotes. -/
def value (cs : List Char) : Nat := cs.foldl (fun acc c => 10 * acc + digitValue c) 0

def text (n : Nat) : String := String.ofList (digits n)

def powerOfTen (n : Nat) : Nat := Nat.pow 10 n

def signed : Int → String
  | .ofNat n => text n
  | .negSucc n => String.ofList ('-' :: digits (n + 1))

theorem digitChar_toNat {d : Nat} (h : d < 10) : (digitChar d).toNat = 48 + d := by
  have all : ∀ d < 10, (digitChar d).toNat = 48 + d := by decide
  exact all d h

theorem digitValue_digitChar {d : Nat} (h : d < 10) : digitValue (digitChar d) = d := by
  simp [digitValue, digitChar_toNat h]

theorem isDigit_digitChar {d : Nat} (h : d < 10) : isDigit (digitChar d) = true := by
  simp [isDigit, digitChar_toNat h]; omega

theorem value_append_singleton (cs : List Char) (c : Char) :
    value (cs ++ [c]) = 10 * value cs + digitValue c := by
  simp [value, List.foldl_append]

theorem value_digits (n : Nat) : value (digits n) = n := by
  induction n using Nat.strongRecOn with
  | _ n ih =>
    rw [digits]
    split
    · next h => simp [value, digitValue_digitChar h]
    · next h =>
      rw [value_append_singleton, ih (n / 10) (by omega), digitValue_digitChar (by omega)]
      omega

theorem all_isDigit_digits (n : Nat) : (digits n).all isDigit = true := by
  induction n using Nat.strongRecOn with
  | _ n ih =>
    rw [digits]
    split
    · next h => simp [isDigit_digitChar h]
    · next h => simp [ih (n / 10) (by omega), isDigit_digitChar (Nat.mod_lt n (by decide : 10 > 0))]

end ShapeContract.Decimal
