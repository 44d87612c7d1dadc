import AptBlitz.Library.Utf8
import Mathlib.Data.List.DropRight

/-! # Lines of bytes

    A `String` as its bytes: what UTF-8 is, where a character begins, and what
    a slice is.  Lines end behind a line feed or with the input; a reader takes
    one after the other (`linesOf_cons`).

    ASCII behind a text changes nothing about it (`isValid_append_ascii`). -/

namespace Utf8

/-- Bytes as they are read. -/
abbrev ByteString := List UInt8

/-- What is UTF-8 behind the bytes that are skipped. -/
def validFrom : Nat → ByteString → Bool
  | _, [] => true
  | skip + 1, _ :: rest => validFrom skip rest
  | 0, b :: rest =>
      (b.toNat < 0x80 || (tails b != 0 && (tailsRead b rest).length == tails b)) &&
        validFrom (tailsRead b rest).length rest

/-- Whether `str::from_utf8` takes the bytes. -/
def isValid (bytes : ByteString) : Bool := validFrom 0 bytes

/-- `str::is_char_boundary`. -/
def isCharBoundary (s : ByteString) (i : Nat) : Bool :=
  i == 0 || (match s[i]? with
    | some b => !isTail b
    | none => i == s.length)

/-- `&s[i..j]`, which panics outside the text and off its boundaries. -/
def slice (s : ByteString) (i j : Nat) : Option ByteString :=
  if i ≤ j ∧ isCharBoundary s i = true ∧ isCharBoundary s j = true then some ((s.take j).drop i)
  else none

/-- CR LF, and the text reversed. -/
def dropCrlf : ByteString → ByteString
  | 10 :: 13 :: rest => dropCrlf rest
  | s => s

/-- `trim_end_matches("\r\n")`. -/
def trimEndCrlf (line : ByteString) : ByteString := (dropCrlf line.reverse).reverse

/-- `read_line`: up to the line feed, or all there is; and what is left. -/
def readLine (input : ByteString) : ByteString × ByteString :=
  match input.dropWhile (· != 10) with
  | [] => (input, [])
  | lf :: rest => (input.takeWhile (· != 10) ++ [lf], rest)

/-- The lines of an input, with their line feeds; the last one may have none. -/
def linesOf : ByteString → List ByteString
  | [] => []
  | b :: rest =>
      if b = 10 then [b] :: linesOf rest
      else match linesOf rest with
        | [] => [[b]]
        | line :: lines => (b :: line) :: lines

variable {b c : UInt8} {s line rest input : ByteString} {skip n : Nat}

/-! ## Lines -/

/-- A line is read with its line feed. -/
theorem readLine_lf (h : 10 ∉ line) : readLine (line ++ 10 :: rest) = (line ++ [10], rest) := by
  have hline : ∀ x ∈ line, (x != 10) = true := by
    intro x hx
    exact bne_iff_ne.mpr fun heq => h (heq ▸ hx)
  rw [readLine, List.dropWhile_append_of_pos hline, List.takeWhile_append_of_pos hline]
  simp

theorem readLine_open (h : 10 ∉ line) : readLine line = (line, []) := by
  have hline : ∀ x ∈ line, (x != 10) = true := by
    intro x hx
    exact bne_iff_ne.mpr fun heq => h (heq ▸ hx)
  rw [readLine, List.dropWhile_eq_nil_iff.mpr hline]

/-- The first line, and the others. -/
theorem linesOf_lf (h : 10 ∉ line) :
    linesOf (line ++ 10 :: rest) = (line ++ [10]) :: linesOf rest := by
  induction line with
  | nil => rfl
  | cons b line ih =>
      obtain ⟨hb, hline⟩ := not_or.mp (mt List.mem_cons.mpr h)
      rw [List.cons_append, linesOf, if_neg (Ne.symm hb), ih hline]
      rfl

/-- The last line. -/
theorem linesOf_open (h : 10 ∉ line) (hne : line ≠ []) : linesOf line = [line] := by
  induction line with
  | nil => exact absurd rfl hne
  | cons b line ih =>
      obtain ⟨hb, hline⟩ := not_or.mp (mt List.mem_cons.mpr h)
      rw [linesOf, if_neg (Ne.symm hb)]
      cases line with
      | nil => rfl
      | cons c line => rw [ih hline (List.cons_ne_nil _ _)]

/-- An input is over, is a line without a line feed, or begins with a line. -/
theorem input_cases (input : ByteString) :
    input = [] ∨ (input ≠ [] ∧ 10 ∉ input) ∨
      ∃ line rest, input = line ++ 10 :: rest ∧ 10 ∉ line := by
  by_cases hmem : 10 ∈ input
  · obtain ⟨line, rest, rfl, hline⟩ := List.eq_append_cons_of_mem hmem
    exact Or.inr (Or.inr ⟨line, rest, rfl, hline⟩)
  · by_cases hnil : input = []
    · exact Or.inl hnil
    · exact Or.inr (Or.inl ⟨hnil, hmem⟩)

/-- **Line by line**: an input that is not over is its first line and the
    lines of what is left, and less is left. -/
theorem linesOf_cons (h : input ≠ []) :
    linesOf input = (readLine input).1 :: linesOf (readLine input).2 ∧
      (readLine input).2.length < input.length := by
  rcases input_cases input with rfl | ⟨-, hopen⟩ | ⟨line, rest, rfl, hline⟩
  · exact absurd rfl h
  · rw [readLine_open hopen, linesOf_open hopen h]
    exact ⟨rfl, List.length_pos_iff.mpr h⟩
  · rw [readLine_lf hline, linesOf_lf hline]
    refine ⟨rfl, ?_⟩
    show rest.length < (line ++ 10 :: rest).length
    rw [List.length_append, List.length_cons]
    omega

/-- A line is as it was, without its end. -/
theorem trimEndCrlf_line (h : 10 ∉ line) : trimEndCrlf (line ++ [13, 10]) = line := by
  have hreverse : (line ++ [13, 10]).reverse = 10 :: 13 :: line.reverse := by
    rw [List.reverse_append]
    rfl
  have hstays : dropCrlf line.reverse = line.reverse := by
    cases hrev : line.reverse with
    | nil => rfl
    | cons b rest =>
        have hmem : b ∈ line := List.mem_reverse.mp (hrev ▸ List.mem_cons_self)
        rw [dropCrlf]
        rintro rest' heq
        obtain rfl : b = 10 := (List.cons.inj heq).1
        exact h hmem
  rw [trimEndCrlf, hreverse, dropCrlf, hstays, List.reverse_reverse]

/-! ## UTF-8 and ASCII -/

/-- An ASCII byte stands for itself. -/
theorem tails_of_lt (h : b.toNat < 0x80) : tails b = 0 := by
  rcases tails_cases b with hzero | ⟨-, hle⟩ | ⟨-, hle⟩ | ⟨-, hle⟩
  · exact hzero
  · omega
  · omega
  · omega

/-- An ASCII byte is part of no other character. -/
theorem isTail_of_lt (h : c.toNat < 0x80) : isTail c = false := by
  rw [isTail, Bool.and_eq_false_iff, decide_eq_false_iff_not]
  left
  omega

/-- An ASCII byte is not the second of a character. -/
theorem isSecond_of_lt (h : c.toNat < 0x80) : isSecond b c = false := by
  rw [isSecond]
  repeat' split
  all_goals first
    | exact isTail_of_lt h
    | (rw [Bool.and_eq_false_iff, decide_eq_false_iff_not]
       left
       omega)

/-- An ASCII byte first. -/
theorem isValid_ascii_cons (h : b.toNat < 0x80) : isValid (b :: rest) = isValid rest := by
  have hnone : tailsRead b rest = [] := by
    cases rest with
    | nil => rfl
    | cons c rest => rw [tailsRead, if_neg (by rw [tails_of_lt h]; omega)]
  rw [isValid, validFrom, hnone, decide_eq_true h, Bool.true_or, Bool.true_and]
  rfl

/-- ASCII bytes first. -/
theorem isValid_ascii_append (h : ∀ x ∈ s, x.toNat < 0x80) :
    isValid (s ++ rest) = isValid rest := by
  induction s with
  | nil => rfl
  | cons b s ih =>
      rw [List.cons_append, isValid_ascii_cons (h b List.mem_cons_self)]
      exact ih fun x hx => h x (List.mem_cons_of_mem _ hx)

/-- A run of bytes that ends before `c`, cut to a length. -/
theorem takeWhile_take_append {p : UInt8 → Bool} (hc : p c = false) (s rest : ByteString)
    (n : Nat) :
    ((s ++ c :: rest).take n).takeWhile p = (s.take n).takeWhile p := by
  induction s generalizing n with
  | nil =>
      cases n with
      | zero => rfl
      | succ n => rw [List.nil_append, List.take_succ_cons, List.takeWhile_cons, hc]; rfl
  | cons b s ih =>
      cases n with
      | zero => rfl
      | succ n =>
          rw [List.cons_append, List.take_succ_cons, List.take_succ_cons, List.takeWhile_cons,
            List.takeWhile_cons, ih]

/-- No tail is found behind ASCII. -/
theorem tailsRead_append_ascii (h : c.toNat < 0x80) (s rest : ByteString) :
    tailsRead b (s ++ c :: rest) = tailsRead b s := by
  cases s with
  | nil =>
      show tailsRead b (c :: rest) = []
      rw [tailsRead, isSecond_of_lt h, if_neg (by simp)]
  | cons d s =>
      rw [List.cons_append, tailsRead, tailsRead, takeWhile_take_append (isTail_of_lt h)]

/-- No more bytes are read than are there. -/
theorem tailsRead_length_le (b : UInt8) (s : ByteString) : (tailsRead b s).length ≤ s.length := by
  cases s with
  | nil => exact Nat.le_refl 0
  | cons d s =>
      rw [tailsRead]
      split
      · have htake := (List.takeWhile_prefix (p := isTail) (l := s.take (tails b - 1))).length_le
        have hle := List.length_take_le' (tails b - 1) s
        rw [List.length_cons, List.length_cons]
        omega
      · exact Nat.zero_le _

/-- An ASCII byte ends what comes before it. -/
theorem validFrom_append_ascii (h : c.toNat < 0x80) (hskip : skip ≤ s.length) :
    validFrom skip (s ++ c :: rest) = (validFrom skip s && isValid (c :: rest)) := by
  induction s generalizing skip with
  | nil =>
      obtain rfl : skip = 0 := Nat.le_zero.mp hskip
      rfl
  | cons b s ih =>
      cases skip with
      | succ skip => exact ih (Nat.le_of_succ_le_succ hskip)
      | zero =>
          rw [List.cons_append, validFrom, validFrom, tailsRead_append_ascii h,
            ih (tailsRead_length_le b s), Bool.and_assoc]

/-- **ASCII behind a text**: what is before it is UTF-8, or it is not. -/
theorem isValid_append_ascii (h : c.toNat < 0x80) :
    isValid (s ++ c :: rest) = (isValid s && isValid (c :: rest)) :=
  validFrom_append_ascii h (Nat.zero_le _)

/-- UTF-8 does not begin with a tail. -/
theorem not_isTail_of_isValid (h : isValid (b :: rest) = true) : isTail b = false := by
  rw [isValid, validFrom, Bool.and_eq_true, Bool.or_eq_true, decide_eq_true_eq,
    Bool.and_eq_true, bne_iff_ne] at h
  rcases h.1 with hlt | ⟨hne, -⟩
  · exact isTail_of_lt hlt
  · rw [isTail, Bool.and_eq_false_iff, decide_eq_false_iff_not, decide_eq_false_iff_not]
    right
    rcases tails_cases b with hzero | ⟨-, hle⟩ | ⟨-, hle⟩ | ⟨-, hle⟩
    · exact absurd hzero hne
    · omega
    · omega
    · omega

end Utf8
