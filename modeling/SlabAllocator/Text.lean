namespace SlabAllocator

/-- The characters that Unicode calls white space. -/
def isBlank (c : Char) : Bool :=
  let n := c.toNat
  (0x9 ≤ n && n ≤ 0xD) || n == 0x20 || n == 0x85 || n == 0xA0 || n == 0x1680 ||
    (0x2000 ≤ n && n ≤ 0x200A) || n == 0x2028 || n == 0x2029 || n == 0x202F || n == 0x205F ||
    n == 0x3000

/-- A text without the blanks at its two ends. -/
def trimBlanks (text : List Char) : List Char :=
  ((text.dropWhile isBlank).reverse.dropWhile isBlank).reverse

/-- The number that a row of decimal digits stands for; nothing if the row is
empty or holds anything else. -/
def decimal? (text : List Char) : Option Nat :=
  if text ≠ [] ∧ text.all Char.isDigit then
    some (text.foldl (fun n c => 10 * n + (c.toNat - '0'.toNat)) 0)
  else
    none

/-- The digits of a number that may have one plus sign in front. -/
def unsigned? : List Char → Option Nat
  | '+' :: rest => decimal? rest
  | text => decimal? text

/-- A number in lowercase hexadecimal. -/
def hexText (n : Nat) : String := String.ofList (Nat.toDigits 16 n)

end SlabAllocator
