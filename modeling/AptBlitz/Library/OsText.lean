import AptBlitz.Library.Text

/-! # OS strings and paths

    Rust's `OsString` as the list of its characters, in which the bytes that
    are no UTF-8 stand for themselves, and `Path` on it.  Two paths are equal
    when their components are: what is between the separators, without the
    empty parts and the single dots. -/

namespace RustOs

open RustText

/-- A character, or a byte that is part of none. -/
inductive OsChar where
  | char (c : Char)
  | byte (b : UInt8)
  deriving DecidableEq, Repr

/-- An `OsString`. -/
abbrev OsText := List OsChar

/-- `OsString::from`. -/
def ofText (s : Text) : OsText := s.map .char

/-- `OsStr::to_str`. -/
def toStr : OsText → Option Text
  | [] => some []
  | .char c :: rest => (toStr rest).map (c :: ·)
  | .byte _ :: _ => none

/-- The separator of a path. -/
def separator : OsChar := .char '/'

/-- The path `.`. -/
def dot : OsText := [.char '.']

/-- `Path::components`. -/
structure Components where
  hasRoot : Bool
  parts : List OsText
  deriving DecidableEq, Repr

/-- A single dot counts where a relative path begins with it. -/
def components (path : OsText) : Components :=
  let parts := path.splitOn separator
  let kept := parts.filter fun part => part ≠ [] ∧ part ≠ dot
  if path.head? = some separator then ⟨true, kept⟩
  else if parts.head? = some dot then ⟨false, dot :: kept⟩
  else ⟨false, kept⟩

/-- `Path::eq`. -/
def SamePath (p q : OsText) : Prop := components p = components q

instance (p q : OsText) : Decidable (SamePath p q) :=
  inferInstanceAs (Decidable (components p = components q))

/-- `Path::join` of a relative path. -/
def pathJoin (dir : OsText) (name : Text) : OsText :=
  match dir.getLast? with
  | none => ofText name
  | some last => if last = separator then dir ++ ofText name else dir ++ separator :: ofText name

example : SamePath (ofText "/var//cache/./".toList) (ofText "/var/cache".toList) := by decide

variable {path : OsText} {s : Text} {b : UInt8}

/-- A text is read back. -/
theorem toStr_ofText (s : Text) : toStr (ofText s) = some s := by
  induction s with
  | nil => rfl
  | cons c s ih =>
      show (toStr (ofText s)).map (c :: ·) = some (c :: s)
      rw [ih, Option.map_some]

/-- What is a text is made of one. -/
theorem eq_ofText (h : toStr path = some s) : path = ofText s := by
  induction path generalizing s with
  | nil => cases h; rfl
  | cons x path ih =>
      cases x with
      | byte b => exact nomatch h
      | char c =>
          obtain ⟨t, ht, rfl⟩ := Option.map_eq_some_iff.mp h
          rw [ih ht]
          rfl

/-- What is no text has a byte in it. -/
theorem byte_mem_of_toStr (h : toStr path = none) : ∃ b, .byte b ∈ path := by
  induction path with
  | nil => exact nomatch h
  | cons x path ih =>
      cases x with
      | byte b => exact ⟨b, List.mem_cons_self⟩
      | char c =>
          obtain ⟨b, hb⟩ := ih (Option.map_eq_none_iff.mp h)
          exact ⟨b, List.mem_cons_of_mem _ hb⟩

/-- What is no separator is in one of the parts. -/
theorem exists_mem_splitOn (sep : OsChar) {x : OsChar} (hx : x ≠ sep) (h : x ∈ path) :
    ∃ part ∈ path.splitOn sep, x ∈ part := by
  induction path with
  | nil => exact nomatch h
  | cons y path ih =>
      rw [List.splitOn_cons_eq_if_modifyHead]
      by_cases hy : y = sep
      · rw [if_pos (beq_iff_eq.mpr hy)]
        have hne : x ≠ y := fun heq => hx (heq.trans hy)
        obtain ⟨part, hpart, hmem⟩ := ih (List.mem_of_ne_of_mem hne h)
        exact ⟨part, List.mem_cons_of_mem _ hpart, hmem⟩
      · rw [if_neg (by rwa [beq_iff_eq])]
        obtain ⟨first, rest, hsplit⟩ := List.exists_cons_of_ne_nil (List.splitOn_ne_nil sep path)
        rw [hsplit] at ih ⊢
        rw [List.modifyHead_cons]
        rcases List.mem_cons.mp h with rfl | hmem
        · exact ⟨_, List.mem_cons_self, List.mem_cons_self⟩
        · obtain ⟨part, hpart, hin⟩ := ih hmem
          rcases List.mem_cons.mp hpart with rfl | hlater
          · exact ⟨_, List.mem_cons_self, List.mem_cons_of_mem _ hin⟩
          · exact ⟨part, List.mem_cons_of_mem _ hlater, hin⟩

/-- A byte of a path is in one of its components. -/
theorem byte_mem_components (h : .byte b ∈ path) :
    ∃ part ∈ (components path).parts, .byte b ∈ part := by
  have hne : OsChar.byte b ≠ separator := by
    rw [separator]
    exact nofun
  obtain ⟨part, hpart, hb⟩ := exists_mem_splitOn separator hne h
  have hkept : part ∈ (path.splitOn separator).filter fun part => part ≠ [] ∧ part ≠ dot := by
    refine List.mem_filter.mpr ⟨hpart, decide_eq_true ⟨?_, ?_⟩⟩
    · rintro rfl
      exact nomatch hb
    · rintro rfl
      exact nomatch List.mem_singleton.mp hb
  refine ⟨part, ?_, hb⟩
  rw [components]
  split
  · exact hkept
  · split
    · exact List.mem_cons_of_mem _ hkept
    · exact hkept

end RustOs
