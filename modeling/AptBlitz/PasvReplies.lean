import AptBlitz.Pasv
import AptBlitz.Library.Numerals
import Mathlib.Data.List.Basic

/-! # What `parse_pasv` takes for an address

    A reply with six fields, each a decimal number of one byte, names the
    address it was written from.  `parse_pasv` asks for six fields at least,
    and for what the parser of `u8` reads, which may have a `+` before it; so
    it is exact but for such fields and for more than six: `parsePasv_exact_iff`. -/

namespace BlitzPasvReplies

open RustText BlitzPasv

/-- A reply with fields in parentheses. -/
structure Reply where
  before : Text
  fields : List Text
  after : Text
  paren_not_mem : '(' ∉ before
  comma_not_mem : ∀ f ∈ fields, ',' ∉ f
  close_not_mem : ∀ f ∈ fields, ')' ∉ f

/-- The text of the reply. -/
def Reply.text (r : Reply) : Text := r.before ++ '(' :: (join [','] r.fields ++ ')' :: r.after)

/-- A decimal number of one byte, with spaces around it. -/
def IsOctet (field : Text) : Prop := IsNumeral (trim field) ∧ numeralValue (trim field) ≤ 255

/-- The number of a field. -/
def octet (field : Text) : Nat := numeralValue (trim field)

/-- Four bytes with dots between them. -/
def dotted (h1 h2 h3 h4 : Nat) : Text :=
  natText h1 ++ ['.'] ++ natText h2 ++ ['.'] ++ natText h3 ++ ['.'] ++ natText h4

/-- The fields are the six bytes of an address. -/
def IsAddress (fields : List Text) (address : Text × Nat) : Prop :=
  ∃ f1 f2 f3 f4 f5 f6, fields = [f1, f2, f3, f4, f5, f6] ∧ (∀ f ∈ fields, IsOctet f) ∧
    address = (dotted (octet f1) (octet f2) (octet f3) (octet f4), 256 * octet f5 + octet f6)

/-- The addresses that are parsed are those that are there. -/
def Exact (r : Reply) : Prop :=
  ∀ address, parsePasv r.text = .ok address ↔ IsAddress r.fields address

/-- A field behind its spaces and its sign. -/
def unsigned (field : Text) : Text := (stripPrefix ['+'] (trim field)).getD (trim field)

/-- What the parser of `u8` reads. -/
def Readable (field : Text) : Prop :=
  IsNumeral (unsigned field) ∧ numeralValue (unsigned field) ≤ 255

/-- If all fields can be read, there are not too many, and six have no sign. -/
def Strict (fields : List Text) : Prop :=
  (∀ f ∈ fields, Readable f) → fields.length < 6 ∨ fields.length = 6 ∧ ∀ f ∈ fields, '+' ∉ f

/-- The six fields of an address. -/
def encode (h1 h2 h3 h4 : UInt8) (port : UInt16) : List Text :=
  [natText h1.toNat, natText h2.toNat, natText h3.toNat, natText h4.toNat,
    natText (port.toNat / 256), natText (port.toNat % 256)]

variable {r : Reply} {field s : Text} {fields : List Text} {address : Text × Nat} {n : Nat}
  {nums : List Nat}

/-! ## One field -/

/-- A field without a sign. -/
theorem unsigned_of_not_mem (h : '+' ∉ trim field) : unsigned field = trim field := by
  rw [unsigned]
  cases hcut : stripPrefix ['+'] (trim field) with
  | none => rfl
  | some rest =>
      refine absurd ?_ h
      rw [stripPrefix_some hcut]
      exact List.mem_append_left _ (List.mem_singleton_self _)

theorem unsigned_of_plus (h : trim field = '+' :: s) : unsigned field = s := by
  rw [unsigned, h, stripPrefix_cons]
  rfl

theorem plus_mem_trim : '+' ∈ trim field ↔ '+' ∈ field :=
  ⟨mem_of_mem_trim, fun hmem => mem_trim hmem (by decide)⟩

/-- One byte is what can be read without a sign. -/
theorem isOctet_iff : IsOctet field ↔ Readable field ∧ '+' ∉ field := by
  constructor
  · rintro ⟨hnumeral, hle⟩
    have hplus : '+' ∉ trim field := hnumeral.not_mem (by decide)
    refine ⟨?_, fun hmem => hplus (plus_mem_trim.mpr hmem)⟩
    rw [Readable, unsigned_of_not_mem hplus]
    exact ⟨hnumeral, hle⟩
  · rintro ⟨hreadable, hplus⟩
    rw [Readable, unsigned_of_not_mem fun hmem => hplus (plus_mem_trim.mp hmem)] at hreadable
    exact hreadable

/-- The number of an octet is the one that is read. -/
theorem octet_eq (h : IsOctet field) : numeralValue (unsigned field) = octet field := by
  rw [unsigned_of_not_mem fun hmem => (isOctet_iff.mp h).2 (plus_mem_trim.mp hmem), octet]

/-- What is read from a field. -/
theorem parseField_ok_iff :
    parseField field = .ok n ↔ Readable field ∧ n = numeralValue (unsigned field) := by
  have hfield : parseField field = .ok n ↔ parseUnsigned 255 (trim field) = .ok n := by
    rw [parseField]
    cases parseUnsigned 255 (trim field) with
    | error e => exact iff_of_false nofun nofun
    | ok m =>
        dsimp only
        rw [Except.ok.injEq, Except.ok.injEq]
  rw [hfield, parseUnsigned_ok_iff]
  constructor
  · rintro ⟨digits, hdigits, hnumeral, rfl, hle⟩
    have hunsigned : unsigned field = digits := by
      rcases hdigits with heq | heq
      · rw [← heq]
        exact unsigned_of_not_mem (heq ▸ hnumeral.not_mem (by decide))
      · exact unsigned_of_plus heq
    rw [Readable, hunsigned]
    exact ⟨⟨hnumeral, hle⟩, rfl⟩
  · rintro ⟨⟨hnumeral, hle⟩, rfl⟩
    refine ⟨unsigned field, ?_, hnumeral, rfl, hle⟩
    rw [unsigned]
    cases hcut : stripPrefix ['+'] (trim field) with
    | none => exact Or.inl rfl
    | some rest => exact Or.inr (stripPrefix_some hcut)

/-- All fields, or none. -/
theorem parseFields_ok_iff :
    parseFields fields = .ok nums ↔
      (∀ f ∈ fields, Readable f) ∧ nums = fields.map fun f => numeralValue (unsigned f) := by
  induction fields generalizing nums with
  | nil =>
      constructor
      · intro h
        cases h
        exact ⟨nofun, rfl⟩
      · rintro ⟨-, rfl⟩
        rfl
  | cons field fields ih =>
      rw [parseFields, List.forall_mem_cons, List.map_cons]
      cases hfield : parseField field with
      | error e =>
          refine iff_of_false nofun ?_
          rintro ⟨⟨hreadable, -⟩, -⟩
          rw [parseField_ok_iff.mpr ⟨hreadable, rfl⟩] at hfield
          cases hfield
      | ok n =>
          obtain ⟨hreadable, rfl⟩ := parseField_ok_iff.mp hfield
          dsimp only
          cases hrest : parseFields fields with
          | error e =>
              refine iff_of_false nofun ?_
              rintro ⟨⟨-, hall⟩, -⟩
              rw [ih.mpr ⟨hall, rfl⟩] at hrest
              cases hrest
          | ok rest =>
              obtain ⟨hall, rfl⟩ := ih.mp hrest
              constructor
              · intro h
                cases h
                exact ⟨⟨hreadable, hall⟩, rfl⟩
              · rintro ⟨-, rfl⟩
                rfl

/-! ## The reply -/

/-- What stands between the parentheses are the fields. -/
theorem parenthesised_text (r : Reply) : parenthesised r.text = some (join [','] r.fields) := by
  have hclose : ')' ∉ join [','] r.fields := by
    intro hmem
    rcases mem_join hmem with heq | ⟨f, hf, hmem⟩
    · exact absurd heq (by decide)
    · exact r.close_not_mem f hf hmem
  rw [parenthesised, Reply.text, dropWhile_ne_append r.paren_not_mem]
  dsimp only
  rw [if_pos (List.mem_append_right _ List.mem_cons_self), takeWhile_ne_append hclose]

/-- The port is the two bytes one after the other. -/
theorem shift_or (p1 : Nat) {p2 : Nat} (h : p2 ≤ 255) : p1 <<< 8 ||| p2 = 256 * p1 + p2 := by
  rw [← Nat.shiftLeft_add_eq_or_of_lt (show p2 < 2 ^ 8 by omega), Nat.shiftLeft_eq]
  omega

/-- **What is taken**: six fields or more, all of which can be read; the
    first six are the address. -/
theorem parsePasv_ok_iff :
    parsePasv r.text = .ok address ↔
      ∃ f1 f2 f3 f4 f5 f6 more, r.fields = f1 :: f2 :: f3 :: f4 :: f5 :: f6 :: more ∧
        (∀ f ∈ r.fields, Readable f) ∧
        address = (dotted (numeralValue (unsigned f1)) (numeralValue (unsigned f2))
            (numeralValue (unsigned f3)) (numeralValue (unsigned f4)),
          256 * numeralValue (unsigned f5) + numeralValue (unsigned f6)) := by
  have hsplit : r.fields ≠ [] → split ',' (join [','] r.fields) = r.fields :=
    fun hne => split_join hne r.comma_not_mem
  rw [parsePasv, parenthesised_text, Option.getD_some]
  constructor
  · intro h
    dsimp only at h
    cases hfields : parseFields (split ',' (join [','] r.fields)) with
    | error e =>
        rw [hfields] at h
        cases h
    | ok nums =>
        rw [hfields] at h
        have hne : r.fields ≠ [] := by
          intro hnil
          rw [hnil] at hfields
          exact absurd hfields nofun
        rw [hsplit hne, parseFields_ok_iff] at hfields
        obtain ⟨hall, rfl⟩ := hfields
        match hr : r.fields, h with
        | f1 :: f2 :: f3 :: f4 :: f5 :: f6 :: more, h =>
            cases h
            have hlast : numeralValue (unsigned f6) ≤ 255 := (hall f6 (by simp [hr])).2
            exact ⟨f1, f2, f3, f4, f5, f6, more, rfl, hr ▸ hall, by rw [shift_or _ hlast]; rfl⟩
  · rintro ⟨f1, f2, f3, f4, f5, f6, more, hr, hall, rfl⟩
    have hlast : numeralValue (unsigned f6) ≤ 255 := (hall f6 (by simp [hr])).2
    have hfields := parseFields_ok_iff.mpr ⟨hall, rfl⟩
    rw [hsplit (by rw [hr]; exact List.cons_ne_nil _ _), hfields, hr, ← shift_or _ hlast]
    rfl

/-- An address that is there is read. -/
theorem isAddress_parsed (h : IsAddress r.fields address) : parsePasv r.text = .ok address := by
  obtain ⟨f1, f2, f3, f4, f5, f6, hr, hall, rfl⟩ := h
  have heq : ∀ f ∈ r.fields, numeralValue (unsigned f) = octet f := fun f hf => octet_eq (hall f hf)
  rw [hr] at heq
  refine parsePasv_ok_iff.mpr ⟨f1, f2, f3, f4, f5, f6, [], hr,
    fun f hf => (isOctet_iff.mp (hall f hf)).1, ?_⟩
  rw [heq f1 (by simp), heq f2 (by simp), heq f3 (by simp), heq f4 (by simp), heq f5 (by simp),
    heq f6 (by simp)]

theorem isOctet_natText (h : n ≤ 255) : IsOctet (natText n) ∧ octet (natText n) = n := by
  have htrim : trim (natText n) = natText n := (isNumeral_natText n).trim
  rw [IsOctet, octet, htrim, numeralValue_natText]
  exact ⟨⟨isNumeral_natText n, h⟩, rfl⟩

theorem port_bytes (port : UInt16) : port.toNat / 256 ≤ 255 ∧ port.toNat % 256 ≤ 255 := by
  have hport : port.toNat < 65536 := port.toNat_lt
  omega

/-- Every field of an address is the numeral of a byte. -/
theorem of_mem_encode {h1 h2 h3 h4 : UInt8} {port : UInt16}
    (h : field ∈ encode h1 h2 h3 h4 port) : ∃ n, n ≤ 255 ∧ field = natText n := by
  have hbyte : ∀ b : UInt8, b.toNat ≤ 255 := fun b => Nat.le_of_lt_succ b.toNat_lt
  obtain ⟨hhigh, hlow⟩ := port_bytes port
  simp only [encode, List.mem_cons, List.not_mem_nil, or_false] at h
  rcases h with rfl | rfl | rfl | rfl | rfl | rfl
  · exact ⟨_, hbyte h1, rfl⟩
  · exact ⟨_, hbyte h2, rfl⟩
  · exact ⟨_, hbyte h3, rfl⟩
  · exact ⟨_, hbyte h4, rfl⟩
  · exact ⟨_, hhigh, rfl⟩
  · exact ⟨_, hlow, rfl⟩

/-- The fields of a well-formed reply are octets. -/
theorem isOctet_of_mem_encode {h1 h2 h3 h4 : UInt8} {port : UInt16} :
    ∀ f ∈ encode h1 h2 h3 h4 port, IsOctet f := by
  intro f hf
  obtain ⟨n, hn, rfl⟩ := of_mem_encode hf
  exact (isOctet_natText hn).1

/-- The reply with an address in it. -/
def Reply.withAddress (r : Reply) (h1 h2 h3 h4 : UInt8) (port : UInt16) : Reply where
  before := r.before
  fields := encode h1 h2 h3 h4 port
  after := r.after
  paren_not_mem := r.paren_not_mem
  comma_not_mem f hf := by
    obtain ⟨n, -, rfl⟩ := of_mem_encode hf
    exact (isNumeral_natText n).not_mem (by decide)
  close_not_mem f hf := by
    obtain ⟨n, -, rfl⟩ := of_mem_encode hf
    exact (isNumeral_natText n).not_mem (by decide)

/-- Seven fields are taken, and so are fields with a sign. -/
theorem strict_of_exact (hexact : Exact r) : Strict r.fields := by
  intro hall
  by_contra hnot
  have hsix : 6 ≤ r.fields.length := by
    rw [not_or] at hnot
    omega
  match hr : r.fields, hsix with
  | f1 :: f2 :: f3 :: f4 :: f5 :: f6 :: more, _ =>
      -- it is taken, and so it must be an address
      obtain ⟨_, _, _, _, _, _, hfields, hoctets, -⟩ :=
        (hexact _).mp (parsePasv_ok_iff.mpr ⟨f1, f2, f3, f4, f5, f6, more, hr, hall, rfl⟩)
      refine hnot (Or.inr ⟨by rw [hfields]; rfl, ?_⟩)
      intro f hf
      exact (isOctet_iff.mp (hoctets f hf)).2

/-- A strict reply is read exactly. -/
theorem exact_of_strict (hstrict : Strict r.fields) : Exact r := by
  intro address
  refine ⟨?_, isAddress_parsed⟩
  intro h
  obtain ⟨f1, f2, f3, f4, f5, f6, more, hr, hall, rfl⟩ := parsePasv_ok_iff.mp h
  rcases hstrict hall with hlt | ⟨hsix, hplus⟩
  · rw [hr] at hlt
    simp only [List.length_cons] at hlt
    omega
  · have hoctets : ∀ f ∈ r.fields, IsOctet f := fun f hf =>
      isOctet_iff.mpr ⟨hall f hf, hplus f hf⟩
    have hmore : more = [] := by
      rw [hr] at hsix
      simp only [List.length_cons] at hsix
      exact List.length_eq_zero_iff.mp (by omega)
    subst hmore
    refine ⟨f1, f2, f3, f4, f5, f6, hr, hoctets, ?_⟩
    have heq : ∀ f ∈ r.fields, numeralValue (unsigned f) = octet f :=
      fun f hf => octet_eq (hoctets f hf)
    rw [hr] at heq
    rw [heq f1 (by simp), heq f2 (by simp), heq f3 (by simp), heq f4 (by simp),
      heq f5 (by simp), heq f6 (by simp)]

/-- What is encoded is always taken. -/
theorem parsePasv_encode (r : Reply) (h1 h2 h3 h4 : UInt8) (port : UInt16) :
    parsePasv (r.withAddress h1 h2 h3 h4 port).text
      = .ok (dotted h1.toNat h2.toNat h3.toNat h4.toNat, port.toNat) := by
  refine isAddress_parsed ⟨_, _, _, _, _, _, rfl, isOctet_of_mem_encode, ?_⟩
  have hbyte : ∀ h : UInt8, octet (natText h.toNat) = h.toNat :=
    fun h => (isOctet_natText (Nat.le_of_lt_succ h.toNat_lt)).2
  obtain ⟨hhigh, hlow⟩ := port_bytes port
  rw [hbyte, hbyte, hbyte, hbyte, (isOctet_natText hhigh).2, (isOctet_natText hlow).2,
    Nat.div_add_mod]

/-- **Exactly**: `parse_pasv` takes the addresses that are in a reply, and no
    other, if and only if the fields are strict; what is encoded it always
    takes. -/
theorem parsePasv_exact_iff (r : Reply) :
    (Exact r ↔ Strict r.fields) ∧
      ∀ (h1 h2 h3 h4 : UInt8) (port : UInt16),
        parsePasv (r.withAddress h1 h2 h3 h4 port).text
          = .ok (dotted h1.toNat h2.toNat h3.toNat h4.toNat, port.toNat) :=
  ⟨⟨strict_of_exact, exact_of_strict⟩, parsePasv_encode r⟩

/-- A reply with a seventh field. -/
def sevenFields : Reply where
  before := "227 Entering Passive Mode ".toList
  fields := ["127".toList, "0".toList, "0".toList, "1".toList, "4".toList, "1".toList, "9".toList]
  after := []
  paren_not_mem := by decide
  comma_not_mem := by decide
  close_not_mem := by decide

/-- It is taken for the address of its first six. -/
theorem not_exact_sevenFields : ¬ Exact sevenFields := by
  intro hexact
  have htaken : parsePasv sevenFields.text = .ok ("127.0.0.1".toList, 1025) := by decide
  obtain ⟨_, _, _, _, _, _, hfields, -⟩ := (hexact _).mp htaken
  have hlength := congrArg List.length hfields
  exact absurd hlength (show ¬ 7 = 6 by decide)

end BlitzPasvReplies
