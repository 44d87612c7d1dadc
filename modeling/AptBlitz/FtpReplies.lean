import AptBlitz.Library.Utf8Lines
import AptBlitz.Library.Runs

/-! # Replies on the control connection

    `read_response` reads lines until one has a space behind its first three
    bytes.  It does not compare the code in front of the space with that of the
    reply, and it does not see the end of the connection, where every read
    gives an empty line.

    `readResponse_ends_iff` says for which bytes it comes to an end at all. -/

namespace BlitzFtpReplies

open RustText Utf8 Runs

/-- The errors of `read_response`. -/
inductive FtpError where
  /-- `read_line` finds no UTF-8 -/
  | read
  | unexpected (code : ByteString) (lines : List ByteString)
  deriving DecidableEq, Repr

/-- The text of an error. -/
def FtpError.text : FtpError → ByteString
  | .read => ascii "FTP read failed: stream did not contain valid UTF-8".toList
  | .unexpected code lines =>
      ascii "FTP expected ".toList ++ code ++ ascii "xx, got: ".toList
        ++ (ascii " | ".toList).intercalate lines

/-- What `read_response` comes to. -/
inductive Response where
  | ok (line : ByteString)
  | err (e : FtpError)
  | panicked
  deriving DecidableEq, Repr

/-- The end of `read_response`: the code of the first line is compared with
    the one that is expected, if any is. -/
def checkCode (expected : Option ByteString) (lines : List ByteString) (trimmed : ByteString) :
    Response :=
  match expected with
  | none => .ok trimmed
  | some code =>
      match lines.head?.bind fun first => slice first 0 3 with
      | none => .panicked
      | some firstCode => if firstCode = code then .ok trimmed else .err (.unexpected code lines)

/-- `read_response`, with the number of reads it may take, the lines it has
    read, and what the server sends before it closes the connection: what it
    returns, and what is left. -/
def readResponse (expected : Option ByteString) :
    Nat → List ByteString → ByteString → Option (Response × ByteString)
  | 0, _, _ => none
  | fuel + 1, lines, input =>
      let (line, rest) := readLine input
      if isValid line then
        let trimmed := trimEndCrlf line
        let lines := lines ++ [trimmed]
        if 4 ≤ trimmed.length then
          match slice trimmed 3 4 with
          | none => some (.panicked, rest)
          | some sep =>
              -- `sep` is one byte, and so one character
              if sep = [0x20] then some (checkCode expected lines trimmed, rest)
              else readResponse expected fuel lines rest
        else readResponse expected fuel lines rest
      else some (.err .read, rest)

/-! ## What a line does -/

/-- What `read_response` makes of a line. -/
inductive Kind where
  /-- the reading goes on -/
  | between
  | last
  | unreadable
  | panics
  deriving DecidableEq, Repr

/-- A line without its end: the fourth byte decides. -/
def kindOf (trimmed : ByteString) : Kind :=
  if 4 ≤ trimmed.length then
    match slice trimmed 3 4 with
    | none => .panics
    | some sep => if sep = [0x20] then .last else .between
  else .between

/-- What a line is, when it can be read at all. -/
def kind (line : ByteString) : Kind :=
  if isValid line then kindOf (trimEndCrlf line) else .unreadable

variable {expected : Option ByteString} {fuel n : Nat} {lines : List ByteString}
  {line trimmed input rest more : ByteString} {response : Response} {b : UInt8}

/-- One turn of the loop. -/
theorem readResponse_succ : readResponse expected (fuel + 1) lines input =
    if kind (readLine input).1 = .between then
      readResponse expected fuel (lines ++ [trimEndCrlf (readLine input).1]) (readLine input).2
    else if kind (readLine input).1 = .last then
      some (checkCode expected (lines ++ [trimEndCrlf (readLine input).1])
        (trimEndCrlf (readLine input).1), (readLine input).2)
    else if kind (readLine input).1 = .unreadable then some (.err .read, (readLine input).2)
    else some (.panicked, (readLine input).2) := by
  rw [readResponse, kind, kindOf]
  dsimp only
  cases isValid (readLine input).1 with
  | false => rfl
  | true =>
      by_cases hlong : 4 ≤ (trimEndCrlf (readLine input).1).length
      · simp only [if_true, if_pos hlong]
        cases slice (trimEndCrlf (readLine input).1) 3 4 with
        | none => rfl
        | some sep =>
            dsimp only
            by_cases hsep : sep = [0x20]
            · simp only [if_pos hsep]
              rfl
            · simp only [if_neg hsep]
              rfl
      · simp only [if_true, if_neg hlong]

theorem readResponse_between (h : kind (readLine input).1 = .between) :
    readResponse expected (fuel + 1) lines input
      = readResponse expected fuel (lines ++ [trimEndCrlf (readLine input).1])
          (readLine input).2 := by
  rw [readResponse_succ, if_pos h]

/-- The line that ends the reply. -/
theorem readResponse_last (h : kind (readLine input).1 = .last) :
    readResponse expected (fuel + 1) lines input
      = some (checkCode expected (lines ++ [trimEndCrlf (readLine input).1])
          (trimEndCrlf (readLine input).1), (readLine input).2) := by
  rw [readResponse_succ, h]
  rfl

theorem readResponse_unreadable (h : kind (readLine input).1 = .unreadable) :
    readResponse expected (fuel + 1) lines input = some (.err .read, (readLine input).2) := by
  rw [readResponse_succ, h]
  rfl

/-- A line whose beginning cannot be cut. -/
theorem readResponse_panics (h : kind (readLine input).1 = .panics) :
    readResponse expected (fuel + 1) lines input = some (.panicked, (readLine input).2) := by
  rw [readResponse_succ, h]
  rfl

/-- Where a line ends the reading, more reads make no difference. -/
theorem readResponse_stops (h : kind (readLine input).1 ≠ .between) (fuel fuel' : Nat) :
    readResponse expected (fuel + 1) lines input = readResponse expected (fuel' + 1) lines input := by
  rw [readResponse_succ, readResponse_succ, if_neg h, if_neg h]

/-- Nothing follows the end of the input but empty lines. -/
theorem readResponse_nil (expected : Option ByteString) (fuel : Nat) (lines : List ByteString) :
    readResponse expected fuel lines [] = none := by
  induction fuel generalizing lines with
  | zero => rfl
  | succ fuel ih =>
      rw [readResponse_between (by decide)]
      exact ih _

/-! ## When it ends -/

/-- After finitely many reads there is an `Ok` or an `Err`. -/
def Ends (expected : Option ByteString) (lines : List ByteString) (input : ByteString) : Prop :=
  ∃ fuel response rest, readResponse expected fuel lines input = some (response, rest) ∧
    response ≠ .panicked

/-- A line stops the reading, and no line before it does: it is not UTF-8, or
    it is a last line and the first line has a code to be compared with. -/
def Stops (expected : Option ByteString) (lines : List ByteString) (input : ByteString) : Prop :=
  ∃ before line after, linesOf input = before ++ line :: after ∧
    (∀ l ∈ before, kind l = .between) ∧
    (kind line = .unreadable ∨ kind line = .last ∧ (expected = none ∨
      ((lines ++ (before ++ [line]).map trimEndCrlf).head?.bind fun first =>
        slice first 0 3).isSome = true))

/-- The check of the code cuts the first line. -/
theorem checkCode_ne_panicked : checkCode expected lines trimmed ≠ .panicked ↔
    expected = none ∨ (lines.head?.bind fun first => slice first 0 3).isSome = true := by
  cases expected with
  | none => simp [checkCode]
  | some code =>
      rw [checkCode]
      cases lines.head?.bind fun first => slice first 0 3 with
      | none => simp
      | some firstCode =>
          dsimp only
          split
          · simp
          · simp

/-- A reply that can be read is read. -/
theorem stops_of_ends (h : Ends expected lines input) : Stops expected lines input := by
  obtain ⟨fuel, response, rest, hread, hgood⟩ := h
  induction fuel generalizing lines input with
  | zero => cases hread
  | succ fuel ih =>
      have hne : input ≠ [] := by
        rintro rfl
        rw [readResponse_nil] at hread
        cases hread
      have hlines := (linesOf_cons hne).1
      cases hkind : kind (readLine input).1 with
      | between =>
          rw [readResponse_between hkind] at hread
          obtain ⟨before, line, after, hrest, hbefore, hstop⟩ := ih hread
          refine ⟨(readLine input).1 :: before, line, after, ?_, ?_, ?_⟩
          · rw [hlines, hrest]
            rfl
          · intro l hl
            rcases List.mem_cons.mp hl with rfl | hl
            · exact hkind
            · exact hbefore l hl
          · rw [List.append_assoc] at hstop
            exact hstop
      | last =>
          rw [readResponse_last hkind] at hread
          cases hread
          refine ⟨[], (readLine input).1, _, hlines, ?_, Or.inr ⟨hkind, ?_⟩⟩
          · intro l hl
            cases hl
          · exact checkCode_ne_panicked.mp hgood
      | unreadable =>
          refine ⟨[], (readLine input).1, _, hlines, ?_, Or.inl hkind⟩
          intro l hl
          cases hl
      | panics =>
          rw [readResponse_panics hkind] at hread
          cases hread
          exact absurd rfl hgood

/-- Only such a reply is. -/
theorem ends_of_stops (h : Stops expected lines input) : Ends expected lines input := by
  obtain ⟨before, line, after, hlines, hbefore, hstop⟩ := h
  have hne : input ≠ [] := by
    rintro rfl
    cases before with
    | nil => cases hlines
    | cons l before => cases hlines
  induction before generalizing lines input with
  | nil =>
      rw [(linesOf_cons hne).1, List.nil_append] at hlines
      obtain ⟨rfl, -⟩ := List.cons.inj hlines
      rcases hstop with hkind | ⟨hkind, hcode⟩
      · exact ⟨1, _, _, readResponse_unreadable hkind, nofun⟩
      · exact ⟨1, _, _, readResponse_last hkind, checkCode_ne_panicked.mpr hcode⟩
  | cons l before ih =>
      rw [(linesOf_cons hne).1, List.cons_append] at hlines
      obtain ⟨rfl, hrest⟩ := List.cons.inj hlines
      have hkind := hbefore _ List.mem_cons_self
      have hne' : (readLine input).2 ≠ [] := by
        intro hnil
        rw [hnil] at hrest
        cases before with
        | nil => cases hrest
        | cons l before => cases hrest
      rw [List.cons_append, List.map_cons, List.append_cons] at hstop
      obtain ⟨fuel, response, rest, hread, hgood⟩ :=
        ih hrest (fun l hl => hbefore l (List.mem_cons_of_mem _ hl)) hstop hne'
      exact ⟨fuel + 1, response, rest, (readResponse_between hkind).trans hread, hgood⟩

/-- The code is there where the first line is long enough: a line with a
    fourth byte has been cut before it. -/
theorem slice_code (h : kindOf trimmed ≠ .panics) :
    (slice trimmed 0 3).isSome = true ↔ 3 ≤ trimmed.length := by
  have hslice : (slice trimmed 0 3).isSome = true ↔ isCharBoundary trimmed 3 = true := by
    rw [slice]
    split
    next hcut => exact iff_of_true rfl hcut.2.2
    next hcut => exact iff_of_false nofun fun hboundary => hcut ⟨Nat.zero_le 3, rfl, hboundary⟩
  rw [hslice]
  by_cases hlong : 4 ≤ trimmed.length
  · refine iff_of_true ?_ (by omega)
    rw [kindOf, if_pos hlong] at h
    cases hsep : slice trimmed 3 4 with
    | none =>
        rw [hsep] at h
        exact absurd rfl h
    | some sep =>
        rw [slice] at hsep
        split at hsep
        next hcut => exact hcut.2.1
        next => cases hsep
  · have hnone : trimmed[3]? = none := List.getElem?_eq_none (by omega)
    rw [isCharBoundary, hnone, Bool.or_eq_true, beq_iff_eq, beq_iff_eq]
    omega

/-- What the server sends stops the reading: some line is not UTF-8, or is a
    last line and the first line, if its code matters, has three bytes; and no
    line before it stops it or cannot be cut around its fourth byte. -/
def CanEnd (expected : Option ByteString) (input : ByteString) : Prop :=
  ∃ before line after, linesOf input = before ++ line :: after ∧
    (∀ l ∈ before, kind l = .between) ∧
    (kind line = .unreadable ∨ kind line = .last ∧ (expected = none ∨
      ∀ first ∈ (before ++ [line]).head?, 3 ≤ (trimEndCrlf first).length))

/-- A line that was told apart can be cut. -/
theorem kindOf_of_kind (h : kind line = .between ∨ kind line = .last) :
    kindOf (trimEndCrlf line) ≠ .panics := by
  rw [kind] at h
  split at h
  · intro hpanics
    rw [hpanics] at h
    rcases h with h | h
    · cases h
    · cases h
  · rcases h with h | h
    · cases h
    · cases h

/-- **The end of `read_response`, exactly**: of what the server sends before it
    closes the connection, the lines that stop the reading; without them it
    reads for ever or panics. -/
theorem readResponse_ends_iff (expected : Option ByteString) (input : ByteString) :
    Ends expected [] input ↔ CanEnd expected input := by
  have hends : Ends expected [] input ↔ Stops expected [] input :=
    ⟨stops_of_ends, ends_of_stops⟩
  rw [hends]
  have hfirst : ∀ before line, (∀ l ∈ before, kind l = .between) → kind line = .last →
      ((([] ++ (before ++ [line]).map trimEndCrlf).head?.bind fun first =>
          slice first 0 3).isSome = true ↔
        ∀ first ∈ (before ++ [line]).head?, 3 ≤ (trimEndCrlf first).length) := by
    intro before line hbefore hline
    rw [List.nil_append, List.head?_map]
    cases before with
    | nil =>
        simp only [List.nil_append, List.head?_cons, Option.map_some, Option.bind_some,
          Option.mem_some, forall_eq']
        exact slice_code (kindOf_of_kind (Or.inr hline))
    | cons l before =>
        simp only [List.cons_append, List.head?_cons, Option.map_some, Option.bind_some,
          Option.mem_some, forall_eq']
        exact slice_code (kindOf_of_kind (Or.inl (hbefore l List.mem_cons_self)))
  constructor
  · rintro ⟨before, line, after, hlines, hbefore, hstop⟩
    refine ⟨before, line, after, hlines, hbefore, ?_⟩
    rcases hstop with hkind | ⟨hkind, hnone | hcode⟩
    · exact Or.inl hkind
    · exact Or.inr ⟨hkind, Or.inl hnone⟩
    · exact Or.inr ⟨hkind, Or.inr ((hfirst before line hbefore hkind).mp hcode)⟩
  · rintro ⟨before, line, after, hlines, hbefore, hstop⟩
    refine ⟨before, line, after, hlines, hbefore, ?_⟩
    rcases hstop with hkind | ⟨hkind, hnone | hcode⟩
    · exact Or.inl hkind
    · exact Or.inr ⟨hkind, Or.inl hnone⟩
    · exact Or.inr ⟨hkind, Or.inr ((hfirst before line hbefore hkind).mpr hcode)⟩

/-- A server that closes the connection at once, and one whose first line has
    a character of two bytes in the fourth. -/
theorem not_ends_closed :
    ¬ Ends none [] [] ∧ readResponse none 1 [] (ascii "22".toList ++ [0xC3, 0xA9, 13, 10])
      = some (.panicked, []) := by
  refine ⟨?_, by decide⟩
  rintro ⟨fuel, response, rest, hread, -⟩
  rw [readResponse_nil] at hread
  cases hread

end BlitzFtpReplies
