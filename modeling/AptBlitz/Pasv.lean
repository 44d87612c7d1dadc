import AptBlitz.Library.Text

/-! # `parse_pasv`

    The address in the server's reply to `PASV`. -/

namespace BlitzPasv

open RustText

/-- The text between the first `(` and the first `)` behind it. -/
def parenthesised (resp : Text) : Option Text :=
  match resp.dropWhile (· != '(') with
  | [] => none
  | _ :: rest => if ')' ∈ rest then some (rest.takeWhile (· != ')')) else none

/-- One field: `s.trim().parse::<u8>()`. -/
def parseField (s : Text) : Except Text Nat :=
  match parseUnsigned 255 (trim s) with
  | .ok n => .ok n
  | .error e => .error ("invalid PASV field: ".toList ++ s ++ ": ".toList ++ e.text)

/-- `collect` into a `Result`: the first error, or all the values. -/
def parseFields : List Text → Except Text (List Nat)
  | [] => .ok []
  | s :: rest =>
      match parseField s with
      | .error e => .error e
      | .ok n =>
          match parseFields rest with
          | .error e => .error e
          | .ok nums => .ok (n :: nums)

/-- `parse_pasv`. -/
def parsePasv (resp : Text) : Except Text (Text × Nat) :=
  let body := (parenthesised resp).getD ((stripPrefix "227 ".toList resp).getD resp)
  match parseFields (split ',' body) with
  | .error e => .error e
  | .ok nums =>
      match nums with
      | h1 :: h2 :: h3 :: h4 :: p1 :: p2 :: _ =>
          let ip := natText h1 ++ ['.'] ++ natText h2 ++ ['.'] ++ natText h3 ++ ['.'] ++ natText h4
          .ok (ip, p1 <<< 8 ||| p2)
      | _ => .error ("cannot parse PASV response: ".toList ++ resp)

end BlitzPasv
