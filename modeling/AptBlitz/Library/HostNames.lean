import AptBlitz.Library.Ipv4

/-! # Host names and IPv6 addresses

    The texts that name a host: labels of letters, digits and hyphens with
    dots between them, IPv4 addresses, and IPv6 addresses as eight groups of
    hexadecimal digits, the last two of which may be an IPv4 address and some
    of which may be left out once.

    An IPv6 address has a colon in it, and no other name has. -/

namespace HostNames

open RustText Ipv4

/-- A label of a host name. -/
def isLabel (label : Text) : Bool :=
  label ≠ [] && label.length ≤ 63 && (label.all fun c => c.isAlphanum || c == '-') &&
    label.head? != some '-' && label.getLast? != some '-'

/-- A host name. -/
def isHostName (s : Text) : Bool := s.length ≤ 253 && (split '.' s).all isLabel

/-- A host name or an IPv4 address. -/
def IsName (s : Text) : Prop := isHostName s = true ∨ ∃ x : Address, s = x.text

/-- A hexadecimal digit. -/
def isHexDigit (c : Char) : Bool := c.isDigit || ('a' ≤ c && c ≤ 'f') || ('A' ≤ c && c ≤ 'F')

/-- The digits of 16 bits. -/
structure IsGroup (s : Text) : Prop where
  pos : 1 ≤ s.length
  length_le : s.length ≤ 4
  digits : s.all isHexDigit = true

/-- Groups with colons between them, and how many they are. -/
inductive Groups : Text → Nat → Prop where
  | one {s : Text} : IsGroup s → Groups s 1
  | cons {s rest : Text} {n : Nat} : IsGroup s → Groups rest n → Groups (s ++ ':' :: rest) (n + 1)

/-- Groups of which the last two may be an IPv4 address. -/
inductive LastGroups : Text → Nat → Prop where
  | groups {s : Text} {n : Nat} : Groups s n → LastGroups s n
  | ipv4 (x : Address) : LastGroups x.text 2
  | mixed {s : Text} {n : Nat} (x : Address) :
      Groups s n → LastGroups (s ++ ':' :: x.text) (n + 2)

/-- The text of an IPv6 address. -/
inductive IsIpv6 : Text → Prop where
  | full {s : Text} : LastGroups s 8 → IsIpv6 s
  /-- with `::` for one group or more -/
  | compressed {front back : Text} {n m : Nat} :
      (front = [] ∧ n = 0 ∨ Groups front n) → (back = [] ∧ m = 0 ∨ LastGroups back m) →
      n + m ≤ 7 → IsIpv6 (front ++ ':' :: ':' :: back)

variable {s : Text} {n : Nat} {c : Char}

/-- Two groups have a colon between them. -/
theorem colon_mem_of_groups (h : Groups s n) (hn : 2 ≤ n) : ':' ∈ s := by
  cases h with
  | one => omega
  | cons => exact List.mem_append_right _ List.mem_cons_self

/-- An IPv6 address has a colon. -/
theorem colon_mem_of_isIpv6 (h : IsIpv6 s) : ':' ∈ s := by
  cases h with
  | full hlast =>
      cases hlast with
      | groups hgroups => exact colon_mem_of_groups hgroups (by decide)
      | mixed => exact List.mem_append_right _ List.mem_cons_self
  | compressed => exact List.mem_append_right _ List.mem_cons_self

/-- The characters of a name. -/
theorem of_mem_isName (h : IsName s) (hc : c ∈ s) : c.isAlphanum = true ∨ c = '-' ∨ c = '.' := by
  rcases h with hname | ⟨x, rfl⟩
  · rw [isHostName, Bool.and_eq_true, List.all_eq_true] at hname
    rw [← join_split '.' s] at hc
    rcases mem_join hc with rfl | ⟨label, hlabel, hmem⟩
    · exact Or.inr (Or.inr rfl)
    · have hall := hname.2 label hlabel
      simp only [isLabel, Bool.and_eq_true, List.all_eq_true] at hall
      have hchar := hall.1.1.2 c hmem
      rw [Bool.or_eq_true, beq_iff_eq] at hchar
      exact hchar.imp_right Or.inl
  · rcases of_mem_text hc with rfl | hdigit
    · exact Or.inr (Or.inr rfl)
    · exact Or.inl (by rw [Char.isAlphanum, hdigit, Bool.or_true])

/-- A host name has letters, digits, hyphens and dots alone. -/
theorem not_mem_isName (h : IsName s) (hc : c.isAlphanum = false) (hhyphen : c ≠ '-')
    (hdot : c ≠ '.') : c ∉ s := by
  intro hmem
  rcases of_mem_isName h hmem with halnum | rfl | rfl
  · exact Bool.false_ne_true (hc.symm.trans halnum)
  · exact hhyphen rfl
  · exact hdot rfl

theorem colon_not_mem_isName (h : IsName s) : ':' ∉ s :=
  not_mem_isName h (by decide) (by decide) (by decide)

theorem bracket_not_mem_isName (h : IsName s) : '[' ∉ s :=
  not_mem_isName h (by decide) (by decide) (by decide)

end HostNames
