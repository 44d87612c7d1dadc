import Mathlib.Algebra.Ring.Nat

/-! # Text

    Rust's `str` as the list of its characters, with the methods of `str`
    and of the integer parsers as the standard library documents them. -/

namespace RustText

/-- A text, by its characters. -/
abbrev Text := List Char

/-- `char::is_whitespace`: the characters with the property `White_Space`. -/
def isWhitespace (c : Char) : Bool :=
  let n := c.toNat
  n == 0x20 || (0x09 ≤ n && n ≤ 0x0D) || n == 0x85 || n == 0xA0 || n == 0x1680 ||
    (0x2000 ≤ n && n ≤ 0x200A) || n == 0x2028 || n == 0x2029 || n == 0x202F ||
    n == 0x205F || n == 0x3000

/-- `str::trim`. -/
def trim (s : Text) : Text :=
  ((s.dropWhile isWhitespace).reverse.dropWhile isWhitespace).reverse

/-- `str::split` at a character. -/
def split (c : Char) (s : Text) : List Text := s.splitOn c

/-- `str::split_once` at a character. -/
def splitOnce (c : Char) (s : Text) : Option (Text × Text) :=
  match s.dropWhile (· != c) with
  | [] => none
  | _ :: rest => some (s.takeWhile (· != c), rest)

/-- `str::rsplit_once` at a character. -/
def rsplitOnce (c : Char) (s : Text) : Option (Text × Text) :=
  (splitOnce c s.reverse).map fun p => (p.2.reverse, p.1.reverse)

/-- The first of `str::lines`; nothing for the empty text. -/
def firstLine (s : Text) : Text :=
  match splitOnce '\n' s with
  | none => s
  | some (line, _) => if line.getLast? = some '\r' then line.dropLast else line

/-- `str::split_whitespace`. -/
def splitWhitespace (s : Text) : List Text :=
  (s.splitOnP isWhitespace).filter fun part => !part.isEmpty

/-- `[str]::join`. -/
def join (sep : Text) (parts : List Text) : Text := sep.intercalate parts

/-- `str::strip_prefix`. -/
def stripPrefix (p s : Text) : Option Text :=
  if p.isPrefixOf s then some (s.drop p.length) else none

/-- `str::trim_end_matches` of a character. -/
def trimEndMatches (c : Char) (s : Text) : Text := (s.reverse.dropWhile (· == c)).reverse

/-- `str::trim_start_matches` of a character. -/
def trimStartMatches (c : Char) (s : Text) : Text := s.dropWhile (· == c)

/-- `str::trim_matches` of a character. -/
def trimMatches (c : Char) (s : Text) : Text := trimEndMatches c (trimStartMatches c s)

/-- `u64::to_string`. -/
def natText (n : Nat) : Text := Nat.toDigits 10 n

/-- The kinds of `ParseIntError` that occur for unsigned numbers. -/
inductive ParseIntError where
  | empty
  | invalidDigit
  | posOverflow
  deriving DecidableEq, Repr

/-- The text of the error. -/
def ParseIntError.text : ParseIntError → Text
  | .empty => "cannot parse integer from empty string".toList
  | .invalidDigit => "invalid digit found in string".toList
  | .posOverflow => "number too large to fit in target type".toList

/-- The digit loop of the unsigned integer parsers, with the value so far. -/
def parseDigits (maxValue value : Nat) : Text → Except ParseIntError Nat
  | [] => .ok value
  | c :: rest =>
      if c.isDigit then
        let value := value * 10 + (c.toNat - '0'.toNat)
        if maxValue < value then .error .posOverflow
        else parseDigits maxValue value rest
      else .error .invalidDigit

/-- `str::parse` for the unsigned type of the given largest value: decimal
    digits, after an optional `+`. -/
def parseUnsigned (maxValue : Nat) : Text → Except ParseIntError Nat
  | [] => .error .empty
  | ['+'] => .error .invalidDigit
  | '+' :: digits => parseDigits maxValue 0 digits
  | digits => parseDigits maxValue 0 digits

/-- `str::parse::<i64>`, where it succeeds: a minus sign is taken, too. -/
def parseI64 : Text → Option Int
  | ['-'] => none
  | '-' :: digits => (parseDigits (2 ^ 63) 0 digits).toOption.map fun n => -(n : Int)
  | s => (parseUnsigned (2 ^ 63 - 1) s).toOption.map fun n => (n : Int)

end RustText
