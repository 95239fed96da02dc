/-!
Unsigned decimal numbers in texts: digits with leading zeros allowed and at most one plus sign in
front, below a limit.  Main statement: the digits of a number read back as that number.
-/
namespace EngineMigrate.Text

/-- The number of words of 64 bits. -/
def wordLimit : Nat := Nat.pow 2 64

def digitValue (c : Char) : Nat := c.toNat - 48

/-- The value of decimal digits, most significant first. -/
def digitsValue (cs : List Char) : Nat := cs.foldl (fun n c => 10 * n + digitValue c) 0

@[simp] theorem digitsValue_nil : digitsValue [] = 0 := rfl

theorem digitsValue_append (cs : List Char) (c : Char) :
    digitsValue (cs ++ [c]) = 10 * digitsValue cs + digitValue c := by
  simp [digitsValue]

/-- One or more ASCII digits of a value below `limit`. -/
def digits? (limit : Nat) (cs : List Char) : Option Nat :=
  if cs.isEmpty || !cs.all Char.isDigit then none
  else if digitsValue cs < limit then some (digitsValue cs) else none

/-- As `digits?`, with an optional plus sign in front. -/
def unsigned? (limit : Nat) : List Char → Option Nat
  | '+' :: cs => digits? limit cs
  | cs => digits? limit cs

def decimal (n : Nat) : List Char := Nat.toDigits 10 n

theorem decimal_ne_nil (n : Nat) : decimal n ≠ [] := Nat.toDigits_ne_nil

theorem isDigit_of_mem_decimal {n : Nat} {c : Char} (h : c ∈ decimal n) : c.isDigit = true :=
  Nat.isDigit_of_mem_toDigits (by decide) (by decide) h

theorem digitsValue_decimal (n : Nat) : digitsValue (decimal n) = n := by
  induction n using Nat.strongRecOn with
  | _ n ih =>
    by_cases h : n < 10
    · simp [decimal, Nat.toDigits_of_lt_base h, digitsValue, digitValue,
        Nat.toNat_digitChar_of_lt_ten h]
    · have hq : 0 < n / 10 := by omega
      have hr : n % 10 < 10 := by omega
      have happ := Nat.toDigits_append_toDigits (b := 10) (by decide) hq hr
      rw [Nat.toDigits_of_lt_base hr, Nat.div_add_mod] at happ
      have hd : digitsValue (Nat.toDigits 10 (n / 10)) = n / 10 := ih _ (by omega)
      rw [decimal, ← happ, digitsValue_append, hd, digitValue, Nat.toNat_digitChar_of_lt_ten hr]
      omega

theorem digits?_decimal {limit n : Nat} (h : n < limit) : digits? limit (decimal n) = some n := by
  have hall : (decimal n).all Char.isDigit = true :=
    List.all_eq_true.2 fun _ => isDigit_of_mem_decimal
  have hne : (decimal n).isEmpty = false := by simp [decimal_ne_nil]
  simp [digits?, hall, hne, digitsValue_decimal, h]

theorem unsigned?_decimal {limit n : Nat} (h : n < limit) : unsigned? limit (decimal n) = some n := by
  unfold unsigned?
  split
  · rename_i cs hcs
    have hplus : '+'.isDigit = true := isDigit_of_mem_decimal (hcs ▸ List.mem_cons_self)
    exact absurd hplus (by decide)
  · exact digits?_decimal h

theorem lt_of_digits? {limit n : Nat} {cs : List Char} (h : digits? limit cs = some n) : n < limit := by
  unfold digits? at h
  split at h
  · cases h
  · split at h
    · rename_i hlt
      cases h
      exact hlt
    · cases h

theorem lt_of_unsigned? {limit n : Nat} {cs : List Char} (h : unsigned? limit cs = some n) : n < limit := by
  unfold unsigned? at h
  split at h <;> exact lt_of_digits? h

end EngineMigrate.Text
