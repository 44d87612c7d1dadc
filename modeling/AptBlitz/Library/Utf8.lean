import AptBlitz.Library.Text

/-! # Bytes as text

    `String::from_utf8_lossy`: a character after the other, from its first byte
    and the tails that the byte announces.  Where a tail is missing, the bytes
    up to there are one U+FFFD.

    ASCII is the text that it is (`lossy_ascii_append`), and nothing else is:
    the text begins with some ASCII only where the bytes do
    (`isPrefix_lossy_iff`). -/

namespace Utf8

open RustText

/-- A byte string literal. -/
def ascii (s : Text) : List UInt8 := s.map fun c => .ofNat c.toNat

/-- `str::is_ascii`. -/
def isAscii (s : Text) : Bool := s.all fun c => c.toNat < 0x80

/-- How many tails a first byte announces. -/
def tails (b : UInt8) : Nat :=
  if 0xC2 ≤ b.toNat ∧ b.toNat ≤ 0xDF then 1
  else if 0xE0 ≤ b.toNat ∧ b.toNat ≤ 0xEF then 2
  else if 0xF0 ≤ b.toNat ∧ b.toNat ≤ 0xF4 then 3
  else 0

/-- The bits of the character that are in its first byte. -/
def lead (b : UInt8) : Nat :=
  if tails b = 1 then b.toNat - 0xC0
  else if tails b = 2 then b.toNat - 0xE0
  else b.toNat - 0xF0

/-- A byte that goes on with a character. -/
def isTail (c : UInt8) : Bool := 0x80 ≤ c.toNat && c.toNat ≤ 0xBF

/-- Whether the tail `c` may come right after the first byte `b`. -/
def isSecond (b c : UInt8) : Bool :=
  if b.toNat = 0xE0 then 0xA0 ≤ c.toNat && c.toNat ≤ 0xBF
  else if b.toNat = 0xED then 0x80 ≤ c.toNat && c.toNat ≤ 0x9F
  else if b.toNat = 0xF0 then 0x90 ≤ c.toNat && c.toNat ≤ 0xBF
  else if b.toNat = 0xF4 then 0x80 ≤ c.toNat && c.toNat ≤ 0x8F
  else isTail c

/-- The tails that are there, as many as are announced at most. -/
def tailsRead (b : UInt8) : List UInt8 → List UInt8
  | [] => []
  | c :: rest =>
      if 0 < tails b ∧ isSecond b c = true then c :: (rest.take (tails b - 1)).takeWhile isTail
      else []

/-- A number with the bits of another tail. -/
def withTail (n : Nat) (c : UInt8) : Nat := n * 64 + (c.toNat - 0x80)

/-- The character of a number; no scalar value is replaced. -/
def scalar (n : Nat) : Char := if n.isValidChar then Char.ofNat n else Char.ofNat 0xFFFD

/-- The first character, and how many bytes it has more than one. -/
def decodeFirst (b : UInt8) (rest : List UInt8) : Char × Nat :=
  let ts := tailsRead b rest
  if b.toNat < 0x80 then (scalar b.toNat, 0)
  else if tails b ≠ 0 ∧ ts.length = tails b then
    (scalar (ts.foldl withTail (lead b)), ts.length)
  else (Char.ofNat 0xFFFD, ts.length)

/-- The text behind the bytes that are skipped. -/
def lossyFrom : Nat → List UInt8 → Text
  | _, [] => []
  | skip + 1, _ :: rest => lossyFrom skip rest
  | 0, b :: rest => (decodeFirst b rest).1 :: lossyFrom (decodeFirst b rest).2 rest

/-- `String::from_utf8_lossy`. -/
def lossy (bytes : List UInt8) : Text := lossyFrom 0 bytes

variable {b c : UInt8} {bytes rest : List UInt8} {s : Text} {n : Nat}

/-! ## ASCII -/

theorem scalar_of_lt (h : n < 0x80) : scalar n = Char.ofNat n := by
  have hvalid : n.isValidChar := Or.inl (by omega)
  rw [scalar, if_pos hvalid]

/-- A larger code is no ASCII character. -/
theorem le_scalar (h : 0x80 ≤ n) : 0x80 ≤ (scalar n).toNat := by
  rw [scalar]
  split
  next hvalid =>
    rw [Char.ofNat, dif_pos hvalid]
    exact h
  next => decide

theorem lossy_cons (h : b.toNat < 0x80) : lossy (b :: rest) = Char.ofNat b.toNat :: lossy rest := by
  have hfirst : decodeFirst b rest = (Char.ofNat b.toNat, 0) := by
    rw [decodeFirst, if_pos h, scalar_of_lt h]
  rw [lossy, lossyFrom, hfirst]
  rfl

theorem toNat_ofNat_char {c : Char} (h : c.toNat < 0x80) :
    (UInt8.ofNat c.toNat).toNat = c.toNat := by
  rw [UInt8.toNat_ofNat']
  exact Nat.mod_eq_of_lt (by omega)

theorem isAscii_cons {c : Char} : isAscii (c :: s) = true ↔ c.toNat < 0x80 ∧ isAscii s = true := by
  rw [isAscii, List.all_cons, Bool.and_eq_true, decide_eq_true_eq]
  rfl

theorem isAscii_append {t : Text} :
    isAscii (s ++ t) = true ↔ isAscii s = true ∧ isAscii t = true := by
  rw [isAscii, List.all_append, Bool.and_eq_true]
  rfl

/-- ASCII is read as it is. -/
theorem lossy_ascii_append (h : isAscii s = true) :
    lossy (ascii s ++ rest) = s ++ lossy rest := by
  induction s with
  | nil => rfl
  | cons c s ih =>
      obtain ⟨hc, hs⟩ := isAscii_cons.mp h
      have hbyte : (UInt8.ofNat c.toNat).toNat < 0x80 := by
        rw [toNat_ofNat_char hc]
        exact hc
      show lossy (UInt8.ofNat c.toNat :: (ascii s ++ rest)) = c :: (s ++ lossy rest)
      rw [lossy_cons hbyte, toNat_ofNat_char hc, Char.ofNat_toNat, ih hs]

/-! ## What is not ASCII -/

/-- The first byte that is read behind a leading one may stand there. -/
theorem isSecond_of_tailsRead {ts : List UInt8} (h : tailsRead b rest = c :: ts) :
    isSecond b c = true := by
  cases rest with
  | nil => cases h
  | cons d rest =>
      rw [tailsRead] at h
      split at h
      next hsecond =>
        cases h
        exact hsecond.2
      next => cases h

/-- What a first byte announces, by what it is. -/
theorem tails_cases (b : UInt8) :
    tails b = 0 ∨ (tails b = 1 ∧ 0xC2 ≤ b.toNat) ∨ (tails b = 2 ∧ 0xE0 ≤ b.toNat) ∨
      (tails b = 3 ∧ 0xF0 ≤ b.toNat) := by
  rw [tails]
  split
  next hone => exact Or.inr (Or.inl ⟨rfl, hone.1⟩)
  next =>
    split
    next htwo => exact Or.inr (Or.inr (Or.inl ⟨rfl, htwo.1⟩))
    next =>
      split
      next hthree => exact Or.inr (Or.inr (Or.inr ⟨rfl, hthree.1⟩))
      next => exact Or.inl rfl

/-- More bytes make no smaller code. -/
theorem le_foldl_withTail {ts : List UInt8} (h : 2 ≤ n) :
    n ≤ ts.foldl withTail n := by
  induction ts generalizing n with
  | nil => exact Nat.le_refl n
  | cons t ts ih =>
      have hstep : n ≤ withTail n t := by
        show n ≤ n * 64 + (t.toNat - 0x80)
        omega
      rw [List.foldl_cons]
      exact Nat.le_trans hstep (ih (Nat.le_trans h hstep))

/-- There is something in the first byte or in the first tail. -/
theorem two_le_withTail (hsecond : isSecond b c = true) (hone : tails b ≠ 1) (hpos : tails b ≠ 0) :
    2 ≤ withTail (lead b) c := by
  show 2 ≤ lead b * 64 + (c.toNat - 0x80)
  have hlead : lead b ≠ 0 ∨ b.toNat = 0xE0 ∨ b.toNat = 0xF0 := by
    rw [lead, if_neg hone]
    rcases tails_cases b with hzero | ⟨h, -⟩ | ⟨htwo, hb⟩ | ⟨hthree, hb⟩
    · exact absurd hzero hpos
    · exact absurd h hone
    · rw [if_pos htwo]
      omega
    · rw [if_neg (by omega)]
      omega
  rcases hlead with hlead | hE0 | hF0
  · omega
  · rw [isSecond, if_pos hE0, Bool.and_eq_true, decide_eq_true_eq] at hsecond
    omega
  · rw [isSecond, if_neg (by omega), if_neg (by omega), if_pos hF0, Bool.and_eq_true,
      decide_eq_true_eq] at hsecond
    omega

/-- No character with tails is ASCII. -/
theorem le_foldl_tailsRead (hpos : tails b ≠ 0) (hlen : (tailsRead b rest).length = tails b) :
    0x80 ≤ (tailsRead b rest).foldl withTail (lead b) := by
  cases hts : tailsRead b rest with
  | nil =>
      rw [hts] at hlen
      exact absurd hlen.symm hpos
  | cons c ts =>
      have hsecond := isSecond_of_tailsRead hts
      rw [hts, List.length_cons] at hlen
      rw [List.foldl_cons]
      by_cases hone : tails b = 1
      · have hlead : 2 ≤ lead b := by
          rw [lead, if_pos hone]
          rcases tails_cases b with hzero | ⟨-, hb⟩ | ⟨htwo, -⟩ | ⟨hthree, -⟩
          · exact absurd hzero hpos
          · omega
          · omega
          · omega
        have hnext : 0x80 ≤ withTail (lead b) c := by
          show 0x80 ≤ lead b * 64 + (c.toNat - 0x80)
          omega
        exact Nat.le_trans hnext (le_foldl_withTail (Nat.le_trans (show 2 ≤ 0x80 by decide) hnext))
      · cases ts with
        | nil => exact absurd hlen.symm hone
        | cons t ts =>
            have htwo : 2 ≤ withTail (lead b) c := two_le_withTail hsecond hone hpos
            have hnext : 0x80 ≤ withTail (withTail (lead b) c) t := by
              show 0x80 ≤ withTail (lead b) c * 64 + (t.toNat - 0x80)
              omega
            rw [List.foldl_cons]
            exact Nat.le_trans hnext
              (le_foldl_withTail (Nat.le_trans (show 2 ≤ 0x80 by decide) hnext))

/-- A byte that is no ASCII begins no ASCII character. -/
theorem le_decodeFirst (h : 0x80 ≤ b.toNat) : 0x80 ≤ (decodeFirst b rest).1.toNat := by
  rw [decodeFirst, if_neg (by omega)]
  split
  next htails => exact le_scalar (le_foldl_tailsRead htails.1 htails.2)
  next =>
    show 0x80 ≤ (Char.ofNat 0xFFFD).toNat
    decide

/-- **ASCII at the beginning** of the text is what begins the bytes. -/
theorem isPrefix_lossy_iff (h : isAscii s = true) :
    s <+: lossy bytes ↔ ascii s <+: bytes := by
  constructor
  · intro hbegins
    induction s generalizing bytes with
    | nil => exact List.nil_prefix
    | cons c s ih =>
        obtain ⟨hc, hs⟩ := isAscii_cons.mp h
        cases bytes with
        | nil => exact absurd (List.prefix_nil.mp hbegins) (List.cons_ne_nil _ _)
        | cons b bytes =>
            have hb : b.toNat < 0x80 := by
              by_contra hnot
              have hle := @le_decodeFirst b bytes (Nat.not_lt.mp hnot)
              rw [lossy, lossyFrom, List.cons_prefix_cons] at hbegins
              rw [← hbegins.1] at hle
              omega
            rw [lossy_cons hb, List.cons_prefix_cons] at hbegins
            have hbyte : UInt8.ofNat c.toNat = b := by
              rw [hbegins.1]
              show UInt8.ofNat (Char.ofNat b.toNat).toNat = b
              rw [Char.ofNat, dif_pos (Or.inl (by omega))]
              exact UInt8.ofNat_toNat
            exact List.cons_prefix_cons.mpr ⟨hbyte, ih hs hbegins.2⟩
  · rintro ⟨rest, rfl⟩
    rw [lossy_ascii_append h]
    exact List.prefix_append _ _

end Utf8
