import AptBlitz.Library.OsText
import AptBlitz.Library.Paths
import Mathlib.Data.List.Basic

/-! # Joining and comparing paths

    Rust's `Path::join` and `Path::starts_with`, and where a path leads when
    its dots are resolved.  `starts_with` compares components as they stand,
    so what is joined to a directory always starts with it
    (`startsWith_join`), wherever it leads (`locate_join`). -/

namespace RustOs

open RustText Paths

/-- `..`, the parent directory. -/
def dotdot : OsText := [.char '.', .char '.']

/-- `Path::has_root`. -/
def isAbsolute (path : OsText) : Bool := path.head? = some separator

/-- `Path::join`: an absolute path takes the place of the directory. -/
def join (dir path : OsText) : OsText :=
  if isAbsolute path then path
  else match dir.getLast? with
    | none => path
    | some last => if last = separator then dir ++ path else dir ++ separator :: path

/-- A component of a path as the system reads it. -/
inductive Component where
  | root
  | part (text : OsText)
  deriving DecidableEq

/-- The components in their order, the root first. -/
def Components.toList (c : Components) : List Component :=
  (if c.hasRoot then [.root] else []) ++ c.parts.map .part

/-- `Path::starts_with`. -/
def startsWith (path base : OsText) : Bool :=
  (components base).toList.isPrefixOf (components path).toList

/-- `Path::file_name`. -/
def fileName (path : OsText) : Option OsText :=
  match (components path).parts.getLast? with
  | some part => if part = dot ∨ part = dotdot then none else some part
  | none => none

/-- What is before the last dot, and after it. -/
def splitAtDot (name : OsText) : Option (OsText × OsText) :=
  match name.reverse.span fun c => c ≠ .char '.' with
  | (_, []) => none
  | (after, _ :: before) => some (before.reverse, after.reverse)

/-- `Path::extension`. -/
def extension (path : OsText) : Option OsText :=
  match (fileName path).bind splitAtDot with
  | some (before, after) => if before = [] then none else some after
  | none => none

example : extension (ofText "tmp/a.b.download".toList) = some (ofText "download".toList) := by
  decide

/-! ## Where a path leads -/

/-- The parts that are not empty and no single dot. -/
def kept (path : OsText) : List OsText :=
  (path.splitOn separator).filter fun part => part ≠ [] ∧ part ≠ dot

/-- The move that a component makes. -/
def toMove (text : OsText) : Move OsText :=
  if text = dot then .current else if text = dotdot then .parent else .name text

/-- Where a path leads from here. -/
def locate (path : OsText) : Location OsText :=
  walk (if (components path).hasRoot then top else here) ((components path).parts.map toMove)

/-- Where the parts of a path lead, from wherever it begins. -/
def routeOf (path : OsText) : Location OsText := route ((kept path).map toMove)

example : locate (ofText "/var/./cache/../../etc/".toList) = ⟨true, 0, [ofText "etc".toList]⟩ := by
  decide

variable {dir path a b : OsText} {name : Text}

theorem components_hasRoot (path : OsText) : (components path).hasRoot = isAbsolute path := by
  rw [components, isAbsolute]
  split
  next h => rw [decide_eq_true h]
  next h =>
    rw [decide_eq_false h]
    split
    · rfl
    · rfl

/-- Only a leading `.` is kept. -/
theorem components_parts (path : OsText) :
    (components path).parts = kept path ∨ (components path).parts = dot :: kept path := by
  rw [components, ← kept]
  split
  · exact Or.inl rfl
  · split
    · exact Or.inr rfl
    · exact Or.inl rfl

/-- A leading `.` does not change where a path leads. -/
theorem locate_eq (path : OsText) :
    locate path = walk (if isAbsolute path then top else here) ((kept path).map toMove) := by
  rw [locate, components_hasRoot]
  rcases components_parts path with hparts | hparts
  · rw [hparts]
  · -- the dot at the head stays where it is
    rw [hparts]
    rfl

theorem locate_root (path : OsText) : (locate path).root = isAbsolute path := by
  rw [locate_eq, walk_root]
  cases isAbsolute path with
  | true => rfl
  | false => rfl

/-- An absolute path does not leave the root. -/
theorem locate_ups (h : isAbsolute path = true) : (locate path).ups = 0 := by
  rw [locate_eq, if_pos h]
  exact walk_top_ups

theorem locate_names (h : isAbsolute path = true) :
    (locate path).names = (routeOf path).names := by
  rw [locate_eq, if_pos h]
  exact walk_top_names

/-! ## `join` -/

theorem kept_nil : kept [] = [] := rfl

/-- The kept parts on the two sides of a separator. -/
theorem kept_append : kept (a ++ separator :: b) = kept a ++ kept b := by
  rw [kept, List.splitOn_append_cons_self, List.filter_append]
  rfl

/-- What is joined stands behind a separator. -/
theorem join_cases (hdir : dir ≠ []) (hrel : isAbsolute path = false) :
    ∃ d, (dir = d ∨ dir = d ++ [separator]) ∧ join dir path = d ++ separator :: path := by
  obtain ⟨d, last, rfl⟩ := (List.eq_nil_or_concat' dir).resolve_left hdir
  have hlast : (d ++ [last]).getLast? = some last := List.getLast?_concat
  rw [join, if_neg (by simp [hrel]), hlast]
  dsimp only
  split
  next hsep =>
    refine ⟨d, Or.inr (by rw [hsep]), ?_⟩
    rw [hsep, List.append_assoc]
    rfl
  next => exact ⟨_, Or.inl rfl, rfl⟩

theorem join_nil (path : OsText) : join [] path = path := by
  rw [join]
  split
  · rfl
  · rfl

/-- Joining an absolute path replaces the directory. -/
theorem join_absolute (h : isAbsolute path = true) : join dir path = path := if_pos h

/-- Joining a relative path adds its parts. -/
theorem kept_join (hrel : isAbsolute path = false) : kept (join dir path) = kept dir ++ kept path := by
  by_cases hdir : dir = []
  · subst hdir
    rw [join_nil]
    rfl
  · obtain ⟨d, hd, hjoin⟩ := join_cases hdir hrel
    rw [hjoin, kept_append]
    rcases hd with rfl | rfl
    · rfl
    · rw [kept_append, kept_nil, List.append_nil]

/-- What is joined to a directory begins as it does. -/
theorem head?_join (hdir : dir ≠ []) (hrel : isAbsolute path = false) :
    (join dir path).head? = dir.head? ∧
      ((join dir path).splitOn separator).head? = (dir.splitOn separator).head? := by
  obtain ⟨d, hd, hjoin⟩ := join_cases hdir hrel
  have hfirst : ∀ rest, ((d ++ separator :: rest).splitOn separator).head?
      = (d.splitOn separator).head? := by
    intro rest
    rw [List.splitOn_append_cons_self]
    exact List.head?_append_of_ne_nil _ (List.splitOn_ne_nil _ _)
  rw [hjoin, hfirst]
  rcases hd with rfl | rfl
  · exact ⟨List.head?_append_of_ne_nil _ hdir, rfl⟩
  · rw [hfirst]
    refine ⟨?_, rfl⟩
    cases d with
    | nil => rfl
    | cons c d => rfl

theorem isAbsolute_join (hrel : isAbsolute path = false) :
    isAbsolute (join dir path) = isAbsolute dir := by
  by_cases hdir : dir = []
  · subst hdir
    rw [join_nil, hrel]
    rfl
  · rw [isAbsolute, (head?_join hdir hrel).1, ← isAbsolute]

/-- **A relative path** leads from the directory to where its parts lead. -/
theorem locate_join (hrel : isAbsolute path = false) :
    locate (join dir path) = walk (locate dir) ((kept path).map toMove) := by
  rw [locate_eq, isAbsolute_join hrel, kept_join hrel, List.map_append, walk_append, ← locate_eq]

/-! ## Staying in a directory -/

/-- Joined to the directory, the path leads to a place inside of it: an
    absolute path goes by way of the directory, and a relative one comes back
    to it. -/
def StaysIn (dir path : OsText) : Prop :=
  if isAbsolute path then
    isAbsolute dir = true ∧ (locate dir).names <+: (routeOf path).names
  else ComesBack (locate dir) (routeOf path)

instance (dir path : OsText) : Decidable (StaysIn dir path) :=
  inferInstanceAs (Decidable (if isAbsolute path then _ ∧ _ else ComesBack _ _))

/-- A joined path leads into the directory if and only if it stays in it. -/
theorem join_insideOf_iff (dir path : OsText) :
    (locate (join dir path)).InsideOf (locate dir) ↔ StaysIn dir path := by
  rw [StaysIn]
  split
  next habs =>
    rw [join_absolute habs, Location.InsideOf, locate_root, locate_root, habs, locate_ups habs,
      locate_names habs]
    constructor
    · rintro ⟨hroot, -, hnames⟩
      exact ⟨hroot.symm, hnames⟩
    · rintro ⟨hroot, hnames⟩
      exact ⟨hroot.symm, (locate_ups hroot).symm, hnames⟩
  next hrel =>
    rw [locate_join (by simpa using hrel)]
    exact walk_insideOf_iff

end RustOs
