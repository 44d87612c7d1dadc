import AptBlitz.FtpUrl
import AptBlitz.Library.Paths
import AptBlitz.Library.TextRules

/-! # Paths on an FTP server

    `normalize_ftp_path` keeps a stack of segments.  It is the walk along the
    components of the path from the root (`foldl_pushPart`), so what it writes
    is the place where that walk ends: `normalizeFtpPath_resolves`. -/

namespace BlitzFtpPaths

open RustText BlitzFtpUrl Paths

/-- Where a component leads. -/
def moveOf (part : Text) : Move Text :=
  if part = [] ∨ part = ['.'] then .current
  else if part = ['.', '.'] then .parent
  else .name part

/-- The names on the way from the root to where the path leads. -/
def resolve (path : Text) : List Text := (walk top ((split '/' path).map moveOf)).names

/-- A component that leads down. -/
structure IsName (part : Text) : Prop where
  ne_nil : part ≠ []
  ne_dot : part ≠ ['.']
  ne_dotdot : part ≠ ['.', '.']
  no_slash : '/' ∉ part

variable {part path : Text} {names parts : List Text}

/-! ## The stack is the walk -/

/-- A part of the path moves the list of names. -/
theorem step_moveOf (names : List Text) (part : Text) :
    step ⟨true, 0, names⟩ (moveOf part) = ⟨true, 0, pushPart names part⟩ := by
  rw [moveOf, pushPart]
  by_cases hstay : part = [] ∨ part = ['.']
  · rw [if_pos hstay, if_pos hstay]
    rfl
  · rw [if_neg hstay, if_neg hstay]
    by_cases hup : part = ['.', '.']
    · rw [if_pos hup, if_pos hup, step]
      split
      next hnil =>
        -- at the root there is nothing to pop
        have hnil : names = [] := hnil
        subst hnil
        rfl
      next => rfl
    · rw [if_neg hup, if_neg hup]
      rfl

/-- The parts, one after the other. -/
theorem foldl_pushPart (parts names : List Text) :
    walk ⟨true, 0, names⟩ (parts.map moveOf) = ⟨true, 0, parts.foldl pushPart names⟩ := by
  induction parts generalizing names with
  | nil => rfl
  | cons part parts ih =>
      rw [List.map_cons, walk, List.foldl_cons, step_moveOf]
      exact ih (pushPart names part)

/-- The path is made of the resolved names. -/
theorem normalizeFtpPath_eq (path : Text) :
    normalizeFtpPath path = '/' :: join ['/'] (resolve path) := by
  have hwalk := foldl_pushPart (split '/' path) []
  rw [resolve, top, hwalk]
  rfl

/-! ## Names only -/

/-- A name goes to the end. -/
theorem IsName.pushPart (h : IsName part) (names : List Text) :
    pushPart names part = names ++ [part] := by
  rw [BlitzFtpUrl.pushPart, if_neg, if_neg h.ne_dotdot]
  rintro (hnil | hdot)
  · exact h.ne_nil hnil
  · exact h.ne_dot hdot

/-- What is kept are names. -/
theorem isName_of_mem_pushPart (hnames : ∀ n ∈ names, IsName n) (hslash : '/' ∉ part) :
    ∀ n ∈ pushPart names part, IsName n := by
  intro n hn
  rw [pushPart] at hn
  split at hn
  next => exact hnames n hn
  next hstay =>
    split at hn
    next => exact hnames n (List.dropLast_subset _ hn)
    next hup =>
      rcases List.mem_append.mp hn with hn | hn
      · exact hnames n hn
      · rw [List.mem_singleton.mp hn]
        exact ⟨fun h => hstay (Or.inl h), fun h => hstay (Or.inr h), hup, hslash⟩

/-- What is kept in the end are names. -/
theorem isName_of_mem_foldl (hnames : ∀ n ∈ names, IsName n) (hslash : ∀ p ∈ parts, '/' ∉ p) :
    ∀ n ∈ parts.foldl pushPart names, IsName n := by
  induction parts generalizing names with
  | nil => exact hnames
  | cons part parts ih =>
      obtain ⟨hpart, hparts⟩ := List.forall_mem_cons.mp hslash
      exact ih (isName_of_mem_pushPart hnames hpart) hparts

theorem isName_of_mem_resolve : ∀ n ∈ resolve path, IsName n := by
  rw [resolve, top, foldl_pushPart]
  have hnone : ∀ n ∈ ([] : List Text), IsName n := fun n hn => absurd hn List.not_mem_nil
  exact isName_of_mem_foldl hnone fun part hpart => not_mem_of_mem_split hpart

/-- Names are pushed as they come. -/
theorem foldl_pushPart_names (h : ∀ n ∈ parts, IsName n) (names : List Text) :
    parts.foldl pushPart names = names ++ parts := by
  induction parts generalizing names with
  | nil => exact (List.append_nil names).symm
  | cons part parts ih =>
      obtain ⟨hpart, hparts⟩ := List.forall_mem_cons.mp h
      rw [List.foldl_cons, hpart.pushPart, ih hparts, List.append_assoc, List.singleton_append]

/-! ## What is written -/

/-- The components of names that are written behind slashes. -/
theorem split_names (hne : names ≠ []) (h : ∀ n ∈ names, IsName n) :
    split '/' ('/' :: join ['/'] names) = [] :: names := by
  have hjoin : '/' :: join ['/'] names = join ['/'] ([] :: names) := by
    rw [join, join, List.intercalate_cons_of_ne_nil hne]
    rfl
  rw [hjoin]
  refine split_join (List.cons_ne_nil _ _) ?_
  intro part hpart
  rcases List.mem_cons.mp hpart with rfl | hpart
  · exact List.not_mem_nil
  · exact (h part hpart).no_slash

/-- Names resolve to themselves. -/
theorem resolve_names (h : ∀ n ∈ names, IsName n) : resolve ('/' :: join ['/'] names) = names := by
  rw [resolve, top, foldl_pushPart]
  by_cases hnil : names = []
  · subst hnil
    rfl
  · rw [split_names hnil h]
    exact foldl_pushPart_names h []

/-- **Normalisation**: the path begins with a slash, behind it are the names
    of the place where the components lead from the root, and nothing changes
    when it is normalised again. -/
theorem normalizeFtpPath_resolves (path : Text) :
    normalizeFtpPath path = '/' :: join ['/'] (resolve path) ∧
      (normalizeFtpPath path ≠ ['/'] →
        split '/' (normalizeFtpPath path) = [] :: resolve path) ∧
      (∀ name ∈ resolve path, IsName name) ∧
      normalizeFtpPath (normalizeFtpPath path) = normalizeFtpPath path := by
  refine ⟨normalizeFtpPath_eq path, ?_, isName_of_mem_resolve, ?_⟩
  · intro hroot
    rw [normalizeFtpPath_eq]
    refine split_names ?_ isName_of_mem_resolve
    intro hnil
    rw [normalizeFtpPath_eq, hnil] at hroot
    exact hroot rfl
  · rw [normalizeFtpPath_eq (normalizeFtpPath path), normalizeFtpPath_eq path,
      resolve_names isName_of_mem_resolve]

example : normalizeFtpPath "/a/./b//../../../c".toList = "/c".toList := by decide

end BlitzFtpPaths
