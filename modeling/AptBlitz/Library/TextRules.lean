import AptBlitz.Library.Text
import Mathlib.Data.List.DropRight

/-! # Rules for text

    What `trim`, `split`, `join` and the parsers do to each other: trimming
    reaches neither inside a text nor past a character that is no space,
    splitting undoes joining where no part has the separator, and a number is
    parsed back from its digits. -/

namespace RustText

variable {c : Char} {s t a b : Text} {parts : List Text} {n maxValue : Nat}

/-! ## Trimming -/

/-- The second half of `trim`. -/
def trimEnd (s : Text) : Text := (s.reverse.dropWhile isWhitespace).reverse

theorem trim_eq (s : Text) : trim s = trimEnd (s.dropWhile isWhitespace) := rfl

/-- The dropping stops at a character that stays, wherever it is. -/
theorem dropWhile_append_cons {p : Char → Bool} (hc : p c = false) :
    (a ++ c :: b).dropWhile p = a.dropWhile p ++ c :: b := by
  induction a with
  | nil => exact List.dropWhile_cons_of_neg (by rw [hc]; exact nofun)
  | cons x a ih =>
      rw [List.cons_append, List.dropWhile_cons, List.dropWhile_cons, ih]
      split <;> rfl

/-- The end is cut behind a character that stays. -/
theorem trimEnd_append_cons (hc : isWhitespace c = false) :
    trimEnd (a ++ c :: b) = a ++ c :: trimEnd b := by
  have hreverse : (a ++ c :: b).reverse = b.reverse ++ c :: a.reverse := by
    rw [List.reverse_append, List.reverse_cons, List.append_assoc, List.singleton_append]
  rw [trimEnd, hreverse, dropWhile_append_cons hc, List.reverse_append, List.reverse_cons,
    List.reverse_reverse, List.append_assoc, List.singleton_append, trimEnd]

/-- A character that is no space keeps both sides of it apart. -/
theorem trim_append_cons (hc : isWhitespace c = false) :
    trim (a ++ c :: b) = a.dropWhile isWhitespace ++ c :: trimEnd b := by
  rw [trim_eq, dropWhile_append_cons hc, trimEnd_append_cons hc]

theorem trim_dropWhile (s : Text) : trim (s.dropWhile isWhitespace) = trim s := by
  rw [trim_eq, trim_eq, List.dropWhile_idempotent]

theorem trimEnd_trimEnd (s : Text) : trimEnd (trimEnd s) = trimEnd s := by
  rw [trimEnd, trimEnd, List.reverse_reverse, List.dropWhile_idempotent]

/-- A blank in front goes only if nothing else is there. -/
theorem trimEnd_cons (hc : isWhitespace c = true) :
    trimEnd (c :: s) = if trimEnd s = [] then [] else c :: trimEnd s := by
  have hspace : [c].dropWhile isWhitespace = [] := List.dropWhile_cons_of_pos hc
  rw [trimEnd, List.reverse_cons, List.dropWhile_append, hspace]
  by_cases hnil : s.reverse.dropWhile isWhitespace = []
  · rw [if_pos (List.isEmpty_iff.mpr hnil), trimEnd, hnil]
    rfl
  · have hne : trimEnd s ≠ [] := fun h => hnil (List.reverse_eq_nil_iff.mp h)
    rw [if_neg (by rwa [List.isEmpty_iff]), if_neg hne, List.reverse_append]
    rfl

/-- The end is cut once. -/
theorem trim_trimEnd (s : Text) : trim (trimEnd s) = trim s := by
  induction s with
  | nil => rfl
  | cons c s ih =>
      cases hc : isWhitespace c with
      | false =>
          have hfront := trim_append_cons (a := []) (b := s) hc
          have hend : trimEnd (c :: s) = c :: trimEnd s := trimEnd_append_cons (a := []) hc
          have htrim := trim_append_cons (a := []) (b := trimEnd s) hc
          rw [trimEnd_trimEnd] at htrim
          rw [hend]
          exact htrim.trans hfront.symm
      | true =>
          have hfront : trim (c :: s) = trim s := by
            rw [trim_eq, List.dropWhile_cons_of_pos hc, ← trim_eq]
          rw [hfront, ← ih, trimEnd_cons hc]
          split
          next hnil => rw [hnil]
          next => rw [trim_eq, List.dropWhile_cons_of_pos hc, ← trim_eq]

theorem mem_trim (hmem : c ∈ s) (hc : isWhitespace c = false) : c ∈ trim s := by
  obtain ⟨a, b, rfl⟩ := List.append_of_mem hmem
  rw [trim_append_cons hc]
  exact List.mem_append_right _ List.mem_cons_self

theorem mem_of_mem_trim (h : c ∈ trim s) : c ∈ s := by
  have h := (List.dropWhile_suffix _).mem (List.mem_reverse.mp h)
  exact (List.dropWhile_suffix _).mem (List.mem_reverse.mp h)

theorem dropWhile_eq_self {p : Char → Bool} (h : ∀ c ∈ s, p c = false) : s.dropWhile p = s := by
  cases s with
  | nil => rfl
  | cons c s => exact List.dropWhile_cons_of_neg (by rw [h c List.mem_cons_self]; exact nofun)

theorem trim_eq_self (h : ∀ c ∈ s, isWhitespace c = false) : trim s = s := by
  rw [trim_eq, dropWhile_eq_self h, trimEnd,
    dropWhile_eq_self fun c hc => h c (List.mem_reverse.mp hc), List.reverse_reverse]

theorem trimEnd_trim (s : Text) : trimEnd (trim s) = trim s := by
  rw [trim_eq, trimEnd_trimEnd]

/-- Where the end of a text has nothing to trim, that of its own ends has not. -/
theorem trimEnd_of_suffix (h : a <:+ b) (hb : trimEnd b = b) : trimEnd a = a := by
  refine List.rdropWhile_eq_self_iff.mpr fun hne => ?_
  rw [h.getLast hne]
  exact List.rdropWhile_eq_self_iff.mp hb (h.ne_nil hne)

/-! ## Cutting once -/

/-- A character that is in no part. -/
theorem not_mem_append_cons {d : Char} (ha : c ∉ a) (hne : c ≠ d) (hb : c ∉ b) :
    c ∉ a ++ d :: b := by
  intro hmem
  rcases List.mem_append.mp hmem with hmem | hmem
  · exact ha hmem
  · rcases List.mem_cons.mp hmem with heq | hmem
    · exact hne heq
    · exact hb hmem

theorem forall_bne (ha : c ∉ a) : ∀ x ∈ a, (x != c) = true := by
  intro x hx
  rw [bne_iff_ne]
  rintro rfl
  exact ha hx

/-- What is before the first of a character. -/
theorem takeWhile_ne_append (ha : c ∉ a) : (a ++ c :: b).takeWhile (· != c) = a := by
  rw [List.takeWhile_append_of_pos (forall_bne ha), List.takeWhile_cons, bne_self_eq_false]
  exact List.append_nil a

/-- The first of a character, and what is behind it. -/
theorem dropWhile_ne_append (ha : c ∉ a) : (a ++ c :: b).dropWhile (· != c) = c :: b := by
  rw [List.dropWhile_append_of_pos (forall_bne ha), List.dropWhile_cons, bne_self_eq_false]
  rfl

theorem splitOnce_append_cons (ha : c ∉ a) : splitOnce c (a ++ c :: b) = some (a, b) := by
  rw [splitOnce, dropWhile_ne_append ha, takeWhile_ne_append ha]

/-- What `split_once` returns. -/
theorem splitOnce_some (h : splitOnce c s = some (a, b)) : s = a ++ c :: b ∧ c ∉ a := by
  rw [splitOnce] at h
  split at h
  next => exact nomatch h
  next x rest hdrop =>
    cases h
    have hx : x = c := by
      have hhead := List.head?_dropWhile_not (· != c) s
      rw [hdrop] at hhead
      exact of_not_not fun hne => by simp [hne] at hhead
    constructor
    · have hwhole := List.takeWhile_append_dropWhile (p := (· != c)) (l := s)
      rw [hdrop, hx] at hwhole
      exact hwhole.symm
    · intro hmem
      have hne := List.mem_takeWhile_imp hmem
      rw [bne_self_eq_false] at hne
      exact nomatch hne

/-- `split_once` fails without a separator. -/
theorem splitOnce_none_iff : splitOnce c s = none ↔ c ∉ s := by
  constructor
  · intro h hmem
    rw [splitOnce] at h
    split at h
    next hdrop =>
      have hne := List.dropWhile_eq_nil_iff.mp hdrop c hmem
      rw [bne_self_eq_false] at hne
      exact Bool.false_ne_true hne
    next => cases h
  · intro h
    cases hsplit : splitOnce c s with
    | none => rfl
    | some p =>
        refine absurd ?_ h
        rw [(splitOnce_some hsplit).1]
        exact List.mem_append_right _ List.mem_cons_self

/-- The last separator cuts. -/
theorem rsplitOnce_append_cons (hb : c ∉ b) : rsplitOnce c (a ++ c :: b) = some (a, b) := by
  have hreverse : (a ++ c :: b).reverse = b.reverse ++ c :: a.reverse := by
    rw [List.reverse_append, List.reverse_cons, List.append_assoc]
    rfl
  rw [rsplitOnce, hreverse, splitOnce_append_cons fun hmem => hb (List.mem_reverse.mp hmem)]
  simp only [Option.map_some, List.reverse_reverse]

/-- What `rsplit_once` returns. -/
theorem rsplitOnce_some (h : rsplitOnce c s = some (a, b)) : s = a ++ c :: b ∧ c ∉ b := by
  obtain ⟨⟨x, y⟩, hsplit, hxy⟩ := Option.map_eq_some_iff.mp h
  obtain ⟨hs, hx⟩ := splitOnce_some hsplit
  cases hxy
  refine ⟨?_, fun hmem => hx (List.mem_reverse.mp hmem)⟩
  rw [← List.reverse_reverse s, hs, List.reverse_append, List.reverse_cons, List.append_assoc]
  rfl

/-- `rsplit_once` fails without a separator. -/
theorem rsplitOnce_none_iff : rsplitOnce c s = none ↔ c ∉ s := by
  rw [rsplitOnce, Option.map_eq_none_iff, splitOnce_none_iff, List.mem_reverse]

/-- Trimming a text trims the two sides of its cut. -/
theorem splitOnce_trim (hc : isWhitespace c = false) (h : splitOnce c s = some (a, b)) :
    splitOnce c (trim s) = some (a.dropWhile isWhitespace, trimEnd b) := by
  obtain ⟨rfl, hnot⟩ := splitOnce_some h
  rw [trim_append_cons hc]
  exact splitOnce_append_cons fun hmem => hnot ((List.dropWhile_suffix _).subset hmem)

/-! ## Lines and words -/

/-- The line ends before its `\r`. -/
theorem firstLine_crlf (h : '\n' ∉ a) : firstLine (a ++ '\r' :: '\n' :: b) = a := by
  have hline : '\n' ∉ a ++ ['\r'] := by
    intro hmem
    rcases List.mem_append.mp hmem with hmem | hmem
    · exact h hmem
    · exact absurd hmem (by decide)
  have hcut : splitOnce '\n' (a ++ '\r' :: '\n' :: b) = some (a ++ ['\r'], b) := by
    rw [← splitOnce_append_cons hline, List.append_assoc]
    rfl
  rw [firstLine, hcut]
  show (if (a ++ ['\r']).getLast? = some '\r' then (a ++ ['\r']).dropLast else _) = a
  rw [if_pos List.getLast?_concat, List.dropLast_concat]

/-- The first word. -/
theorem splitWhitespace_append_cons (hne : a ≠ []) (ha : a.any isWhitespace = false)
    (hc : isWhitespace c = true) : splitWhitespace (a ++ c :: b) = a :: splitWhitespace b := by
  have hword : (!a.isEmpty) = true := by
    rw [Bool.not_eq_true', List.isEmpty_eq_false_iff]
    exact hne
  have hspace : ∀ x ∈ a, isWhitespace x = false := fun x hx =>
    Bool.eq_false_iff.mpr (List.any_eq_false.mp ha x hx)
  rw [splitWhitespace, List.splitOnP_append_cons_of_forall_mem hspace c hc]
  exact List.filter_cons_of_pos (p := fun part : Text => !part.isEmpty) hword

/-! ## Splitting and joining -/

theorem join_split (c : Char) (s : Text) : join [c] (split c s) = s :=
  List.intercalate_splitOn c

theorem split_join (hne : parts ≠ []) (h : ∀ part ∈ parts, c ∉ part) :
    split c (join [c] parts) = parts :=
  List.splitOn_intercalate c h hne

/-- A piece more than there are separators. -/
theorem length_split (c : Char) (s : Text) : (split c s).length = s.count c + 1 := by
  induction s with
  | nil => rfl
  | cons x s ih =>
      rw [split, List.splitOn_cons_eq_if_modifyHead, List.count_cons]
      split
      · rw [List.length_cons, ← split, ih]
      · rw [List.length_modifyHead, ← split, ih, Nat.add_zero]

/-- The separators of joined pieces. -/
theorem count_join (hne : parts ≠ []) :
    (join [c] parts).count c + 1 = parts.length + (parts.map (List.count c)).sum := by
  induction parts with
  | nil => exact absurd rfl hne
  | cons part parts ih =>
      by_cases hnil : parts = []
      · subst hnil
        rw [join, List.intercalate_singleton, List.map_singleton, List.sum_singleton]
        exact Nat.add_comm ..
      · have htail := ih hnil
        rw [join] at htail ⊢
        rw [List.intercalate_cons_of_ne_nil hnil, List.count_append, List.count_append,
          List.count_singleton_self, List.length_cons, List.map_cons, List.sum_cons]
        omega

/-- A part with the separator in it comes apart: there are more pieces than
    parts. -/
theorem length_split_join (hne : parts ≠ []) :
    (split c (join [c] parts)).length = parts.length ↔ ∀ part ∈ parts, c ∉ part := by
  constructor
  · intro hlength part hpart
    rw [length_split, count_join hne] at hlength
    have hsum : (parts.map (List.count c)).sum = 0 := by omega
    exact List.count_eq_zero.mp
      (List.sum_eq_zero_iff_forall_eq_nat.mp hsum _ (List.mem_map_of_mem hpart))
  · intro h
    rw [split_join hne h]

theorem not_mem_of_mem_split {part : Text} (h : part ∈ split c s) : c ∉ part := by
  have hne : split c s ≠ [] := List.splitOn_ne_nil c s
  exact (length_split_join hne).mp (by rw [join_split]) part h

/-- The pieces are in the joined text. -/
theorem mem_of_mem_join {part : Text} (hpart : part ∈ parts) (hc : c ∈ part) (sep : Text) :
    c ∈ join sep parts := by
  induction parts with
  | nil => exact nomatch hpart
  | cons first parts ih =>
      by_cases hnil : parts = []
      · subst hnil
        rw [join, List.intercalate_singleton]
        exact List.mem_singleton.mp hpart ▸ hc
      · rw [join, List.intercalate_cons_of_ne_nil hnil]
        rcases List.mem_cons.mp hpart with rfl | hmem
        · exact List.mem_append_left _ (List.mem_append_left _ hc)
        · exact List.mem_append_right _ (ih hmem)

/-- The joined text has its pieces and the separator. -/
theorem mem_join {c sep : Char} {parts : List Text} (h : c ∈ join [sep] parts) :
    c = sep ∨ ∃ part ∈ parts, c ∈ part := by
  induction parts with
  | nil => cases h
  | cons part parts ih =>
      by_cases hnil : parts = []
      · subst hnil
        rw [join, List.intercalate_singleton] at h
        exact Or.inr ⟨part, List.mem_cons_self, h⟩
      · rw [join, List.intercalate_cons_of_ne_nil hnil, List.append_assoc] at h
        rcases List.mem_append.mp h with hpart | hrest
        · exact Or.inr ⟨part, List.mem_cons_self, hpart⟩
        · rcases List.mem_append.mp hrest with hsep | hmem
          · exact Or.inl (List.mem_singleton.mp hsep)
          · rcases ih hmem with hsep | ⟨p, hp, hcp⟩
            · exact Or.inl hsep
            · exact Or.inr ⟨p, List.mem_cons_of_mem _ hp, hcp⟩

/-- The first parts, joined, begin the whole. -/
theorem join_isPrefix {parts' : List Text} (h : parts <+: parts') (sep : Text) :
    join sep parts <+: join sep parts' := by
  obtain ⟨more, rfl⟩ := h
  induction parts with
  | nil => exact List.nil_prefix
  | cons part parts ih =>
      by_cases hnil : parts = []
      · subst hnil
        by_cases hmore : more = []
        · subst hmore
          exact List.prefix_rfl
        · rw [join, join, List.intercalate_singleton, List.singleton_append,
            List.intercalate_cons_of_ne_nil hmore, List.append_assoc]
          exact List.prefix_append _ _
      · have hne : parts ++ more ≠ [] := List.append_ne_nil_of_left_ne_nil hnil more
        rw [join, join, List.cons_append, List.intercalate_cons_of_ne_nil hnil,
          List.intercalate_cons_of_ne_nil hne]
        exact (List.prefix_append_right_inj _).mpr ih

/-- The pieces have the text's characters. -/
theorem mem_of_mem_split {part : Text} {sep : Char} (hpart : part ∈ split sep s) (hc : c ∈ part) :
    c ∈ s := by
  rw [← join_split sep s]
  exact mem_of_mem_join hpart hc _

/-- Nothing to cut at the end. -/
theorem trimEndMatches_eq_self_iff : trimEndMatches c s = s ↔ s.getLast? ≠ some c := by
  rw [trimEndMatches, List.reverse_eq_iff, List.dropWhile_eq_self_iff]
  cases hs : s.reverse with
  | nil =>
      rw [List.reverse_eq_nil_iff] at hs
      subst hs
      simp
  | cons d rest =>
      have hlast : s.getLast? = some d := by
        rw [← List.head?_reverse, hs]
        rfl
      simp [hlast]

/-- The end stays when the front is cut. -/
theorem getLast?_trimStartMatches (h : ∃ d ∈ s, d ≠ c) :
    (trimStartMatches c s).getLast? = s.getLast? := by
  induction s with
  | nil =>
      obtain ⟨d, hd, -⟩ := h
      cases hd
  | cons d s ih =>
      by_cases hdc : d = c
      · subst hdc
        have hrest : ∃ e ∈ s, e ≠ d := by
          obtain ⟨e, he, hne⟩ := h
          rcases List.mem_cons.mp he with rfl | he
          · exact absurd rfl hne
          · exact ⟨e, he, hne⟩
        have hs : s ≠ [] := by
          rintro rfl
          obtain ⟨e, he, -⟩ := hrest
          cases he
        rw [trimStartMatches,
          List.dropWhile_cons_of_pos (p := fun x => x == d) (beq_self_eq_true d),
          List.getLast?_cons_of_ne_nil hs]
        exact ih hrest
      · rw [trimStartMatches, List.dropWhile_cons_of_neg (by simpa using hdc)]

/-- The two trims agree where there is nothing to trim at the end. -/
theorem trimMatches_eq_trimStartMatches_iff :
    trimStartMatches c s = trimMatches c s ↔ s.getLast? ≠ some c ∨ ∀ d ∈ s, d = c := by
  rw [eq_comm, trimMatches, trimEndMatches_eq_self_iff]
  by_cases hall : ∀ d ∈ s, d = c
  · have hnil : trimStartMatches c s = [] := by
      rw [trimStartMatches, List.dropWhile_eq_nil_iff]
      intro d hd
      rw [beq_iff_eq]
      exact hall d hd
    rw [hnil]
    exact iff_of_true (by simp) (Or.inr hall)
  · have hother : ∃ d ∈ s, d ≠ c := by
      simpa using hall
    rw [getLast?_trimStartMatches hother]
    constructor
    · intro h
      exact Or.inl h
    · rintro (h | h)
      · exact h
      · exact absurd h hall

theorem stripPrefix_append (p s : Text) : stripPrefix p (p ++ s) = some s := by
  rw [stripPrefix, if_pos (List.isPrefixOf_iff_prefix.mpr (List.prefix_append p s)),
    List.drop_left]

/-- What `strip_prefix` returns. -/
theorem stripPrefix_some {p r : Text} (h : stripPrefix p s = some r) : s = p ++ r := by
  rw [stripPrefix] at h
  split at h
  next hprefix =>
    cases h
    exact (List.prefix_iff_eq_append.mp (List.isPrefixOf_iff_prefix.mp hprefix)).symm
  next => cases h

theorem stripPrefix_cons (c : Char) (s : Text) : stripPrefix [c] (c :: s) = some s :=
  stripPrefix_append [c] s

/-! ## Numbers -/

theorem isWhitespace_of_isDigit (hc : c.isDigit = true) : isWhitespace c = false := by
  have hrange : 48 ≤ c.toNat ∧ c.toNat ≤ 57 := Char.isDigit_iff_toNat.mp hc
  simp only [isWhitespace, Bool.or_eq_false_iff, Bool.and_eq_false_iff, beq_eq_false_iff_ne,
    decide_eq_false_iff_not]
  omega

/-- The parser on anything but a sign alone is its digit loop. -/
theorem parseUnsigned_of_isDigit (hne : s ≠ []) (hdigits : ∀ c ∈ s, c.isDigit = true) :
    parseUnsigned maxValue s = parseDigits maxValue 0 s := by
  have hplus : ∀ rest, s ≠ '+' :: rest := by
    rintro rest rfl
    exact absurd (hdigits '+' List.mem_cons_self) (by decide)
  rw [parseUnsigned.eq_4]
  · exact hne
  · exact hplus []
  · exact hplus

/-- Digits that fit are read. -/
theorem parseDigits_digits (hdigits : ∀ c ∈ s, c.isDigit = true) {value : Nat}
    (hmax : Nat.ofDigitChars 10 s value ≤ maxValue) :
    parseDigits maxValue value s = .ok (Nat.ofDigitChars 10 s value) := by
  induction s generalizing value with
  | nil => rw [parseDigits, Nat.ofDigitChars_nil]
  | cons c s ih =>
      obtain ⟨hc, hrest⟩ := List.forall_mem_cons.mp hdigits
      rw [Nat.ofDigitChars_cons, Nat.mul_comm] at hmax ⊢
      have hle : value * 10 + (c.toNat - '0'.toNat) ≤ maxValue := by
        refine le_trans ?_ hmax
        rw [Nat.ofDigitChars_eq_ofDigitChars_zero]
        exact (Nat.le_mul_of_pos_left _ (Nat.pow_pos (by decide))).trans (Nat.le_add_right _ _)
      rw [parseDigits, if_pos hc]
      dsimp only
      rw [if_neg (not_lt.mpr hle)]
      exact ih hrest hmax

/-- **Numbers come back**: what `to_string` writes, the parser reads. -/
theorem parseUnsigned_natText (h : n ≤ maxValue) : parseUnsigned maxValue (natText n) = .ok n := by
  have hdigits : ∀ c ∈ natText n, c.isDigit = true :=
    fun c hc => Nat.isDigit_of_mem_toDigits (by decide) (by decide) hc
  have hvalue : Nat.ofDigitChars 10 (natText n) 0 = n := Nat.ofDigitChars_ten_toDigits
  have hne : natText n ≠ [] := Nat.toDigits_ne_nil
  rw [parseUnsigned_of_isDigit hne hdigits,
    parseDigits_digits hdigits (hvalue.trans_le h), hvalue]

/-- Only digits are read. -/
theorem isDigit_of_parseDigits {value : Nat} (h : parseDigits maxValue value s = .ok n) :
    ∀ c ∈ s, c.isDigit = true := by
  induction s generalizing value with
  | nil => exact nofun
  | cons c s ih =>
      rw [parseDigits] at h
      split at h
      next hc =>
        dsimp only at h
        split at h
        next => exact nomatch h
        next => exact List.forall_mem_cons.mpr ⟨hc, ih h⟩
      next => exact nomatch h

/-- What is read fits. -/
theorem parseDigits_le {value : Nat} (hvalue : value ≤ maxValue)
    (h : parseDigits maxValue value s = .ok n) : n ≤ maxValue := by
  induction s generalizing value with
  | nil =>
      cases h
      exact hvalue
  | cons c s ih =>
      rw [parseDigits] at h
      split at h
      next =>
        dsimp only at h
        split at h
        next => cases h
        next hle => exact ih (not_lt.mp hle) h
      next => cases h

/-- What is read fits. -/
theorem parseUnsigned_le (h : parseUnsigned maxValue s = .ok n) : n ≤ maxValue := by
  rw [parseUnsigned.eq_def] at h
  split at h
  next => cases h
  next => cases h
  next => exact parseDigits_le (Nat.zero_le _) h
  next => exact parseDigits_le (Nat.zero_le _) h

/-- Only digits and a sign are read. -/
theorem mem_of_parseUnsigned (h : parseUnsigned maxValue s = .ok n) (hc : c ∈ s) :
    c = '+' ∨ c.isDigit = true := by
  rw [parseUnsigned.eq_def] at h
  split at h
  next => cases hc
  next => cases h
  next =>
    rcases List.mem_cons.mp hc with rfl | hmem
    · exact Or.inl rfl
    · exact Or.inr (isDigit_of_parseDigits h c hmem)
  next => exact Or.inr (isDigit_of_parseDigits h c hc)

/-- A number has no space around it. -/
theorem trim_of_parseUnsigned (h : parseUnsigned maxValue s = .ok n) : trim s = s := by
  refine trim_eq_self fun c hc => ?_
  rcases mem_of_parseUnsigned h hc with rfl | hdigit
  · decide
  · exact isWhitespace_of_isDigit hdigit

end RustText
