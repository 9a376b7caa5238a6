import Bacula.Lib.Edit
import Bacula.Library.Binary64

/-! Durations, `edit_utime` and `duration_to_utime` of `lib/edit.c`. A string is what stands in
front of its end. -/
namespace Bacula.Duration
open Binary64

/-- `strip_trailing_junk`. -/
def stripTrailingJunk (cmd : List Char) : List Char :=
  cmd.rdropWhile fun p => isSpace p || p == '\n' || p == '\r'

/-- `bstrncpy`. -/
def bstrncpy (src : List Char) (maxlen : ℕ) : List Char := src.take (maxlen - 1)

/-- `bstrncat`. -/
def bstrncat (dest src : List Char) (maxlen : ℕ) : List Char :=
  let dest := if dest.length < maxlen - 1 then dest ++ src.take (maxlen - dest.length - 1) else dest
  dest.take (maxlen - 1)

/-- `is_a_number`. -/
def isANumber (n : List Char) : Bool :=
  let n := if n.head? = some '-' ∨ n.head? = some '+' then n.tail else n
  let digitSeen := n.takeWhile Char.isDigit ≠ []
  let n := n.dropWhile Char.isDigit
  let n := if digitSeen ∧ n.head? = some '.' then n.tail.dropWhile Char.isDigit else n
  let digit := fun i => (n.getD i '\x00').isDigit
  let n := if digitSeen ∧ (n.head? = some 'e' ∨ n.head? = some 'E') ∧
      (digit 1 ∨ (n.getD 1 '\x00' = '-' ∨ n.getD 1 '\x00' = '+') ∧ digit 2) then
    -- skip e- or e+ or e digit
    (n.drop 2).dropWhile Char.isDigit else n
  digitSeen ∧ n = []

/-- `get_modifier`: the number, the modifier, and what is left of the string. -/
def getModifier (str : List Char) (numLen modLen : ℕ) :
    Option (List Char × List Char × List Char) :=
  let str := stripTrailingJunk str
  let len := str.length
  let numBegin := str.dropWhile isSpace
  -- Walk through integer part
  let digits := numBegin.takeWhile fun c => c.isDigit || c == '.'
  let numLen := min numLen (digits.length + 1)
  -- Eat any spaces in front of modifier
  let modBegin := (numBegin.drop digits.length).dropWhile isSpace
  let letters := modBegin.takeWhile Char.isAlpha
  let modLen := min modLen (letters.length + 1)
  let num := bstrncpy numBegin numLen
  let mod := bstrncpy modBegin modLen
  if isANumber num = false then none
  else some (num, mod, bstrncpy (modBegin.drop letters.length) len)

/-- The "n" = mins and months appears before minutes so that m maps to months. -/
def mods : List (String × ℕ) :=
  [("n", 60), ("seconds", 1), ("months", 60 * 60 * 24 * 30), ("minutes", 60), ("mins", 60),
    ("hours", 3600), ("days", 3600 * 24), ("weeks", 3600 * 24 * 7), ("quarters", 3600 * 24 * 91),
    ("years", 3600 * 24 * 365)]

/-- The multiplier corresponding to the modifier, by `strncasecmp` over its length. -/
def multiplier (mod : List Char) : Option ℕ :=
  if mod = [] then some 1 -- default to seconds
  else (mods.find? fun m => (mod.map Char.toLower).isPrefixOf m.1.toList).map (·.2)

/-- `strtod` of what `is_a_number` accepts without an exponent. It has 49 characters at most, so it
is in range. -/
def strtod (num : List Char) : ℚ :=
  let fraction := (num.dropWhile Char.isDigit).tail
  double (Nat.ofDigitChars 10 (num.takeWhile Char.isDigit) 0 +
    Nat.ofDigitChars 10 fraction 0 / 10 ^ fraction.length)

/-- The loop, with a bound on the rounds. -/
def durationLoop : ℕ → List Char → ℚ → Option ℚ
  | _, [], total => some total
  | 0, _ :: _, _ => none
  | rounds + 1, str, total => do
      let (numStr, modStr, str) ← getModifier str 50 20
      let mult ← multiplier modStr
      let val := strtod numStr
      durationLoop rounds str (double (total + double (val * mult)))

/-- `duration_to_utime`. Each round takes a digit, and a sum that is too large for the type has no
value in it. -/
def durationToUtime (str : List Char) : Option ℤ := do
  let total ← durationLoop str.length str 0
  if total < 2 ^ 63 then some ⌊total⌋ else none

/-- `%d` of an `uint32_t`. -/
def editInt (n : ℕ) : List Char :=
  if n < 2 ^ 31 then Nat.toDigits 10 n else '-' :: Nat.toDigits 10 (2 ^ 32 - n)

def plural (times : ℕ) : List Char := if times > 1 then ['s'] else []

def units : List (ℕ × String) :=
  [(60 * 60 * 24 * 365, "year"), (60 * 60 * 24 * 30, "month"), (60 * 60 * 24, "day"),
    (60 * 60, "hour"), (60, "min")]

/-- The round for a unit: the seconds that are left, and the text. The other buffer is never full. -/
def editUnit (bufLen : ℕ) (state : ℕ × List Char) (unit : ℕ × String) : ℕ × List Char :=
  let (val, buf) := state
  let (mult, mod) := unit
  let times := val / mult % 2 ^ 32
  if times > 0 then
    (val - times * mult,
      bstrncat buf (editInt times ++ ' ' :: (mod.toList ++ plural times) ++ [' ']) bufLen)
  else (val, buf)

/-- `edit_utime`. -/
def editUtime (val bufLen : ℕ) : List Char :=
  let (val, buf) := units.foldl (editUnit bufLen) (val, [])
  if val = 0 ∧ buf = [] then bstrncat buf "0 secs".toList bufLen
  else if val ≠ 0 then
    bstrncat buf (editInt (val % 2 ^ 32) ++ ' ' :: ("sec".toList ++ plural val)) bufLen
  else buf

end Bacula.Duration
