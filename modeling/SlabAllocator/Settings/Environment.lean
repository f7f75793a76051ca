import SlabAllocator.Settings.Basic
import SlabAllocator.Text

namespace SlabAllocator

/-- The values of the environment variables that are set, as raw bytes. -/
abbrev Environment := String → Option ByteArray

namespace Environment

/-- The number that a variable holds. Blanks around it are allowed. A value
that is not text, not a number or needs more than 64 bits counts as unset. -/
def number? (e : Environment) (name : String) : Option Nat := do
  let raw ← e name
  let text ← String.fromUTF8? raw
  let n ← unsigned? (trimBlanks text.toList)
  if n < 2 ^ 64 then some n else none

end Environment

/-- The standard settings with those that the environment overrides. A least
chunk that needs more than 32 bits is ignored; a larger `spin` becomes the
largest one. -/
def Settings.ofEnvironment (e : Environment) : Settings :=
  let standard : Settings := {}
  { standard with
    minShift := ((e.number? "SHMSLAB_MIN_SHIFT").filter (· < 2 ^ 32)).getD standard.minShift
    pageSize := (e.number? "SHMSLAB_PAGE_SIZE").getD standard.pageSize
    spin := ((e.number? "SHMSLAB_SPIN").map fun n => UInt32.ofNat (min n (2 ^ 32 - 1))).getD
      standard.spin
    junk := ((e.number? "SHMSLAB_JUNK").map (· != 0)).getD standard.junk }

end SlabAllocator
