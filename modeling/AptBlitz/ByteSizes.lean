import AptBlitz.Config
import AptBlitz.Library.LetterCase
import AptBlitz.Library.Numerals

/-! # Byte sizes

    What `parse_bytes` accepts: digits, white space and a suffix, with white
    space around it all, and a value that a `u64` has.  A text is of that form
    in one way only (`Writes.parts`), the one in which the parser cuts it
    (`writes_parts`); so the parser accepts just these texts, with their
    values: `parseBytes_ok_iff`. -/

namespace BlitzByteSizes

open RustText BlitzConfig

/-- The letters of the suffixes, from the first power on. -/
def unitLetters : Text := ['k', 'm', 'g', 't', 'p']

/-- A suffix, in any letter case, and what it multiplies by. -/
inductive Suffix : Text → Nat → Prop
  | none : Suffix [] 1
  | binary {suffix : Text} (i : Nat) (letter : Char) (hletter : unitLetters[i]? = some letter)
      (hsuffix : lower suffix = [letter]) : Suffix suffix (1024 ^ (i + 1))
  | decimal {suffix : Text} (i : Nat) (letter : Char) (hletter : unitLetters[i]? = some letter)
      (hsuffix : lower suffix = [letter, 'b']) : Suffix suffix (1000 ^ (i + 1))

/-- Trimmed, the text is a number, white space and a suffix. -/
structure Writes (s digits space suffix : Text) (multiplier : Nat) : Prop where
  text : trim s = digits ++ (space ++ suffix)
  digits : IsNumeral digits
  space : ∀ c ∈ space, isWhitespace c = true
  suffix : Suffix suffix multiplier

variable {s digits space suffix : Text} {multiplier base : Nat} {n : UInt64} {c : Char}

/-! ## Suffixes -/

/-- The table of the suffixes, read both ways. -/
theorem lookup_byteSuffixes {key : Text} :
    byteSuffixes.lookup key = some multiplier ↔
      ∃ i letter, unitLetters[i]? = some letter ∧
        (key = [letter] ∧ multiplier = 1024 ^ (i + 1) ∨
          key = [letter, 'b'] ∧ multiplier = 1000 ^ (i + 1)) := by
  constructor
  · intro h
    obtain ⟨before, after, heq, -⟩ := List.lookup_eq_some_iff.mp h
    have hmem : (key, multiplier) ∈ byteSuffixes := by
      rw [heq]
      exact List.mem_append_right _ List.mem_cons_self
    simp only [byteSuffixes, List.map_cons, List.map_nil, List.mem_cons, List.not_mem_nil,
      or_false, Prod.mk.injEq] at hmem
    rcases hmem with h | h | h | h | h | h | h | h | h | h
    · exact ⟨0, 'k', rfl, Or.inr h⟩
    · exact ⟨1, 'm', rfl, Or.inr h⟩
    · exact ⟨2, 'g', rfl, Or.inr h⟩
    · exact ⟨3, 't', rfl, Or.inr h⟩
    · exact ⟨4, 'p', rfl, Or.inr h⟩
    · exact ⟨0, 'k', rfl, Or.inl h⟩
    · exact ⟨1, 'm', rfl, Or.inl h⟩
    · exact ⟨2, 'g', rfl, Or.inl h⟩
    · exact ⟨3, 't', rfl, Or.inl h⟩
    · exact ⟨4, 'p', rfl, Or.inl h⟩
  · rintro ⟨i, letter, hletter, h⟩
    match i, hletter with
    | 0, rfl | 1, rfl | 2, rfl | 3, rfl | 4, rfl =>
        rcases h with ⟨rfl, rfl⟩ | ⟨rfl, rfl⟩ <;> rfl

/-- Without a suffix the number counts bytes. -/
theorem suffix_nil : Suffix [] multiplier ↔ multiplier = 1 := by
  constructor
  · intro h
    cases h with
    | none => rfl
    | binary i letter hletter hsuffix => cases hsuffix
    | decimal i letter hletter hsuffix => cases hsuffix
  · rintro rfl
    exact .none

/-- A suffix is one of the table. -/
theorem suffix_iff (hne : suffix ≠ []) :
    Suffix suffix multiplier ↔ byteSuffixes.lookup (lower suffix) = some multiplier := by
  rw [lookup_byteSuffixes]
  constructor
  · intro h
    cases h with
    | none => exact absurd rfl hne
    | binary i letter hletter hsuffix => exact ⟨i, letter, hletter, Or.inl ⟨hsuffix, rfl⟩⟩
    | decimal i letter hletter hsuffix => exact ⟨i, letter, hletter, Or.inr ⟨hsuffix, rfl⟩⟩
  · rintro ⟨i, letter, hletter, ⟨hsuffix, rfl⟩ | ⟨hsuffix, rfl⟩⟩
    · exact .binary i letter hletter hsuffix
    · exact .decimal i letter hletter hsuffix

/-- What a suffix consists of. -/
theorem Suffix.toLower_mem (h : Suffix suffix multiplier) (hc : c ∈ suffix) :
    c.toLower ∈ 'b' :: unitLetters := by
  have hmem : c.toLower ∈ lower suffix := List.mem_map_of_mem hc
  cases h with
  | none => cases hc
  | binary i letter hletter hsuffix =>
      rw [hsuffix, List.mem_singleton] at hmem
      rw [hmem]
      exact List.mem_cons_of_mem _ (List.mem_of_getElem? hletter)
  | decimal i letter hletter hsuffix =>
      rw [hsuffix] at hmem
      rcases List.mem_cons.mp hmem with hletter' | hb
      · rw [hletter']
        exact List.mem_cons_of_mem _ (List.mem_of_getElem? hletter)
      · rw [List.mem_singleton.mp hb]
        exact List.mem_cons_self

theorem Suffix.pos (h : Suffix suffix multiplier) : 0 < multiplier := by
  cases h with
  | none => exact Nat.one_pos
  | binary i letter hletter hsuffix => exact Nat.pow_pos (by decide)
  | decimal i letter hletter hsuffix => exact Nat.pow_pos (by decide)

theorem Suffix.isWhitespace_eq (h : Suffix suffix multiplier) (hc : c ∈ suffix) :
    isWhitespace c = false := by
  have hletters : ('b' :: unitLetters).all (fun d => !isWhitespace d) = true := by decide
  rw [← isWhitespace_toLower]
  exact (Bool.not_eq_true' _).mp (List.all_eq_true.mp hletters _ (h.toLower_mem hc))

theorem Suffix.isDigit_eq (h : Suffix suffix multiplier) (hc : c ∈ suffix) :
    c.isDigit = false := by
  have hletters : ('b' :: unitLetters).all (fun d => !d.isDigit) = true := by decide
  rw [← isDigit_toLower]
  exact (Bool.not_eq_true' _).mp (List.all_eq_true.mp hletters _ (h.toLower_mem hc))

/-! ## One way only -/

theorem isDigit_of_isWhitespace (hc : isWhitespace c = true) : c.isDigit = false := by
  refine Bool.eq_false_iff.mpr fun hdigit => ?_
  rw [isWhitespace_of_isDigit hdigit] at hc
  cases hc

/-- The digits end where the parser cuts. -/
theorem Writes.parts (h : Writes s digits space suffix multiplier) :
    (trim s).takeWhile Char.isDigit = digits ∧
      trim ((trim s).dropWhile Char.isDigit) = suffix := by
  have hrest : ∀ c ∈ space ++ suffix, c.isDigit = false := by
    intro c hc
    rcases List.mem_append.mp hc with hspace | hsuffix
    · exact isDigit_of_isWhitespace (h.space c hspace)
    · exact h.suffix.isDigit_eq hsuffix
  have htrim : trim (space ++ suffix) = suffix := by
    rw [← trim_dropWhile, List.dropWhile_append_of_pos h.space, trim_dropWhile]
    exact trim_eq_self fun c hc => h.suffix.isWhitespace_eq hc
  rw [h.text, List.takeWhile_append_of_pos h.digits.2, List.dropWhile_append_of_pos h.digits.2,
    dropWhile_eq_self hrest, htrim]
  refine ⟨?_, rfl⟩
  cases hcases : space ++ suffix with
  | nil => exact List.append_nil _
  | cons c rest =>
      have hc : c.isDigit = false := hrest c (by rw [hcases]; exact List.mem_cons_self)
      rw [List.takeWhile_cons_of_neg (by rw [hc]; exact Bool.false_ne_true), List.append_nil]

/-- What the parser cuts is of the form. -/
theorem writes_parts (hdigits : (trim s).takeWhile Char.isDigit ≠ [])
    (hsuffix : Suffix (trim ((trim s).dropWhile Char.isDigit)) multiplier) :
    Writes s ((trim s).takeWhile Char.isDigit)
      (((trim s).dropWhile Char.isDigit).takeWhile isWhitespace)
      (trim ((trim s).dropWhile Char.isDigit)) multiplier := by
  refine ⟨?_, ⟨hdigits, fun c hc => List.mem_takeWhile_imp hc⟩,
    fun c hc => List.mem_takeWhile_imp hc, hsuffix⟩
  -- the end of the text is trimmed already
  have hend : trim ((trim s).dropWhile Char.isDigit)
      = ((trim s).dropWhile Char.isDigit).dropWhile isWhitespace := by
    rw [trim_eq]
    exact trimEnd_of_suffix ((List.dropWhile_suffix _).trans (List.dropWhile_suffix _))
      (trimEnd_trim s)
  rw [hend, List.takeWhile_append_dropWhile, List.takeWhile_append_dropWhile]

/-! ## The parser -/

/-- A number that fits is kept as it is. -/
theorem ofNat_eq_iff (h : base ≤ u64Max) : UInt64.ofNat base = n ↔ n.toNat = base := by
  have hlt : base < 2 ^ 64 := Nat.lt_succ_of_le h
  rw [← UInt64.toNat_inj, UInt64.toNat_ofNat_of_lt' hlt, eq_comm]

/-- A number of no digits is none. -/
theorem parseUnsigned_takeWhile {t : Text} :
    parseUnsigned u64Max (t.takeWhile Char.isDigit) = .ok base ↔
      t.takeWhile Char.isDigit ≠ [] ∧ numeralValue (t.takeWhile Char.isDigit) = base ∧
        base ≤ u64Max := by
  by_cases hne : t.takeWhile Char.isDigit = []
  · rw [hne]
    constructor
    · intro h
      cases h
    · rintro ⟨hnil, -⟩
      exact absurd rfl hnil
  · rw [parseUnsigned_numeral_iff ⟨hne, fun c hc => List.mem_takeWhile_imp hc⟩]
    exact ⟨fun h => ⟨hne, h⟩, fun h => h.2⟩

/-- What it does with a number. -/
theorem parseBytes_of_base (h : parseUnsigned u64Max ((trim s).takeWhile Char.isDigit) = .ok base) :
    parseBytes s = .ok n ↔
      ∃ multiplier, Suffix (trim ((trim s).dropWhile Char.isDigit)) multiplier ∧
        base * multiplier < 2 ^ 64 ∧ n.toNat = base * multiplier := by
  obtain ⟨hdigits, hvalue, hbase⟩ := parseUnsigned_takeWhile.mp h
  have hs : trim s ≠ [] := by
    intro hnil
    rw [hnil] at hdigits
    exact hdigits rfl
  rw [parseBytes]
  dsimp only
  rw [if_neg hs, h]
  dsimp only
  by_cases hnil : trim ((trim s).dropWhile Char.isDigit) = []
  · rw [if_pos hnil, hnil, Except.ok.injEq, ofNat_eq_iff hbase]
    constructor
    · intro hn
      exact ⟨1, .none, by rw [Nat.mul_one]; exact Nat.lt_succ_of_le hbase, by rw [hn, Nat.mul_one]⟩
    · rintro ⟨multiplier, hsuffix, -, hn⟩
      rw [hn, suffix_nil.mp hsuffix, Nat.mul_one]
  · rw [if_neg hnil]
    constructor
    · intro hok
      split at hok
      next => cases hok
      next multiplier hlookup =>
        split at hok
        next hle =>
          have hn := (ofNat_eq_iff hle).mp (Except.ok.inj hok)
          exact ⟨multiplier, (suffix_iff hnil).mpr hlookup, Nat.lt_succ_of_le hle, hn⟩
        next => cases hok
    · rintro ⟨multiplier, hsuffix, hlt, hn⟩
      have hle : base * multiplier ≤ u64Max := Nat.le_of_lt_succ hlt
      have hlookup := (suffix_iff hnil).mp hsuffix
      rw [lower] at hlookup
      rw [hlookup]
      dsimp only
      rw [if_pos hle, (ofNat_eq_iff hle).mpr hn]

/-- A size that is read has a number in front. -/
theorem base_of_parseBytes (h : parseBytes s = .ok n) :
    ∃ base, parseUnsigned u64Max ((trim s).takeWhile Char.isDigit) = .ok base := by
  rw [parseBytes] at h
  dsimp only at h
  split at h
  next => cases h
  next =>
    cases hbase : parseUnsigned u64Max ((trim s).takeWhile Char.isDigit) with
    | ok base => exact ⟨base, rfl⟩
    | error e =>
        rw [hbase] at h
        cases h

/-- **Accepted texts**: digits, white space and a suffix, if their value is
    one of a `u64`, and they are read as that value. -/
theorem parseBytes_ok_iff (s : Text) (n : UInt64) :
    parseBytes s = .ok n ↔
      ∃ digits space suffix multiplier, Writes s digits space suffix multiplier ∧
        numeralValue digits * multiplier < 2 ^ 64 ∧
          n.toNat = numeralValue digits * multiplier := by
  constructor
  · intro h
    obtain ⟨base, hbase⟩ := base_of_parseBytes h
    obtain ⟨hdigits, rfl, -⟩ := parseUnsigned_takeWhile.mp hbase
    obtain ⟨multiplier, hsuffix, hn⟩ := (parseBytes_of_base hbase).mp h
    exact ⟨_, _, _, multiplier, writes_parts hdigits hsuffix, hn⟩
  · rintro ⟨digits, space, suffix, multiplier, hwrites, hlt, hn⟩
    obtain ⟨hdigits, hsuffix⟩ := hwrites.parts
    have hle : numeralValue digits ≤ u64Max :=
      (Nat.le_mul_of_pos_right _ hwrites.suffix.pos).trans (Nat.le_of_lt_succ hlt)
    have hbase := (parseUnsigned_numeral_iff hwrites.digits).mpr ⟨rfl, hle⟩
    rw [← hdigits] at hbase
    refine (parseBytes_of_base hbase).mpr ⟨multiplier, ?_, ?_, ?_⟩
    · rw [hsuffix]
      exact hwrites.suffix
    · rwa [hdigits]
    · rwa [hdigits]

end BlitzByteSizes
