import Mathlib.Data.List.Induction

/-! # Places that paths lead to

    The lexical resolution of a path: names go down, a parent goes up again,
    and a current directory stays.  At the root there is no way up; from a
    place that is relative one can go up any number of times.

    What a walk does from anywhere is told by its `route`, the same walk from
    a relative place without names (`walk_eq`).  From there it is plain when a
    walk ends inside the place where it began (`walk_insideOf_iff`). -/

namespace Paths

/-- A component of a path, as it moves a location. -/
inductive Move (ν : Type) where
  | current
  | parent
  | name (n : ν)

/-- Up `ups` times, then down along `names`; from the root, or from a
    directory that is not known. -/
structure Location (ν : Type) where
  root : Bool
  ups : Nat
  names : List ν
  deriving DecidableEq

variable {ν : Type}

/-- The root. -/
def top : Location ν := ⟨true, 0, []⟩

/-- The place where a walk begins. -/
def here : Location ν := ⟨false, 0, []⟩

/-- Where one component leads. -/
def step (l : Location ν) : Move ν → Location ν
  | .current => l
  | .name n => { l with names := l.names ++ [n] }
  | .parent =>
      if l.names = [] then
        if l.root then l else { l with ups := l.ups + 1 }
      else { l with names := l.names.dropLast }

/-- Where the components lead, one after the other. -/
def walk (l : Location ν) (parts : List (Move ν)) : Location ν := parts.foldl step l

/-- The walk as seen from where it begins. -/
def route (parts : List (Move ν)) : Location ν := walk here parts

/-- `own` as seen from `l`. -/
def Location.follow (l own : Location ν) : Location ν where
  root := l.root
  ups := if l.root then l.ups else l.ups + (own.ups - l.names.length)
  names := l.names.take (l.names.length - own.ups) ++ own.names

/-- A place is inside of itself, and of all that is above it. -/
def Location.InsideOf (l base : Location ν) : Prop :=
  l.root = base.root ∧ l.ups = base.ups ∧ base.names <+: l.names

instance [DecidableEq ν] (l base : Location ν) : Decidable (l.InsideOf base) :=
  inferInstanceAs (Decidable (_ ∧ _ ∧ _))

variable {l base own : Location ν} {p : Move ν} {parts more : List (Move ν)}

theorem walk_append : walk l (parts ++ more) = walk (walk l parts) more := List.foldl_append

theorem follow_here : l.follow here = l := by
  obtain ⟨root, ups, names⟩ := l
  rw [Location.follow, here]
  simp

/-- A step comes after the steps that led to where it is done. -/
theorem step_follow (hown : own.root = false) :
    step (l.follow own) p = l.follow (step own p) := by
  obtain ⟨root, ups, names⟩ := l
  obtain ⟨ownRoot, ownUps, ownNames⟩ := own
  obtain rfl : ownRoot = false := hown
  cases p with
  | current => rfl
  | name n => simp [step, Location.follow]
  | parent =>
      by_cases hnames : ownNames = []
      · subst hnames
        rcases Nat.lt_or_ge ownUps names.length with hlt | hge
        · -- one of the names of `l` is left to go up from
          have hne : names.take (names.length - ownUps) ≠ [] := by
            rw [Ne, List.take_eq_nil_iff]
            rintro (hzero | rfl)
            · omega
            · exact Nat.not_lt_zero _ hlt
          have hdrop : (names.take (names.length - ownUps)).dropLast
              = names.take (names.length - (ownUps + 1)) := by
            rw [List.dropLast_eq_take, List.length_take, List.take_take]
            congr 1
            omega
          have hups : ownUps - names.length = ownUps + 1 - names.length := by omega
          simp [step, Location.follow, hne, hdrop, hups]
        · have hzero : names.length - ownUps = 0 := Nat.sub_eq_zero_of_le hge
          have hzero' : names.length - (ownUps + 1) = 0 := by omega
          have hups : ownUps + 1 - names.length = ownUps - names.length + 1 := by omega
          cases root with
          | true => simp [step, Location.follow, hzero, hzero']
          | false => simp [step, Location.follow, hzero, hzero', hups, Nat.add_assoc]
      · simp [step, Location.follow, hnames, List.dropLast_append_of_ne_nil hnames]

/-- A step does not come to the root from elsewhere. -/
theorem step_root (h : l.root = false) : (step l p).root = false := by
  cases p with
  | current => exact h
  | name n => exact h
  | parent =>
      rw [step]
      split
      · rw [h]
        rfl
      · exact h

/-- A route is a relative one. -/
theorem route_root (parts : List (Move ν)) : (route parts).root = false := by
  induction parts using List.reverseRecOn with
  | nil => rfl
  | append_singleton parts p ih =>
      rw [route, walk_append]
      exact step_root ih

/-- **A walk from anywhere** is its route, followed from there. -/
theorem walk_eq (l : Location ν) (parts : List (Move ν)) :
    walk l parts = l.follow (route parts) := by
  induction parts using List.reverseRecOn with
  | nil => exact follow_here.symm
  | append_singleton parts p ih =>
      have hlast : route (parts ++ [p]) = step (route parts) p := walk_append
      rw [walk_append, ih, hlast]
      exact step_follow (route_root parts)

/-- A walk does not leave the root, nor come to it. -/
theorem walk_root : (walk l parts).root = l.root := by
  rw [walk_eq]
  rfl

theorem walk_top_ups : (walk top parts).ups = 0 := by
  rw [walk_eq]
  rfl

/-- From the root the names are those of the route. -/
theorem walk_top_names : (walk top parts).names = (route parts).names := by
  rw [walk_eq, Location.follow, top, List.take_nil]
  exact List.nil_append _

/-! ## Ending inside -/

/-- The route does not go up further than there are names, and comes down
    again by the names that it left. -/
def ComesBack (base own : Location ν) : Prop :=
  (base.root = true ∨ own.ups ≤ base.names.length) ∧
    base.names.drop (base.names.length - own.ups) <+: own.names

instance [DecidableEq ν] (base own : Location ν) : Decidable (ComesBack base own) :=
  inferInstanceAs (Decidable (_ ∧ _))

/-- A walk ends inside of where it began if it comes back. -/
theorem follow_insideOf_iff : (base.follow own).InsideOf base ↔ ComesBack base own := by
  have hnames : base.names <+: base.names.take (base.names.length - own.ups) ++ own.names ↔
      base.names.drop (base.names.length - own.ups) <+: own.names := by
    conv_lhs =>
      lhs
      rw [← List.take_append_drop (base.names.length - own.ups) base.names]
    exact List.prefix_append_right_inj _
  have hups : (base.follow own).ups = base.ups ↔
      base.root = true ∨ own.ups ≤ base.names.length := by
    rw [Location.follow]
    dsimp only
    split
    next hroot => simp [hroot]
    next hroot =>
      simp only [hroot, Bool.false_eq_true, false_or]
      omega
  constructor
  · rintro ⟨-, hu, hn⟩
    exact ⟨hups.mp hu, hnames.mp hn⟩
  · rintro ⟨hu, hn⟩
    exact ⟨rfl, hups.mpr hu, hnames.mpr hn⟩

/-- **Inside**: a walk ends inside of where it began if and only if its route
    comes back. -/
theorem walk_insideOf_iff : (walk base parts).InsideOf base ↔ ComesBack base (route parts) := by
  rw [walk_eq]
  exact follow_insideOf_iff

/-- A walk that never goes up stays inside. -/
theorem comesBack_of_ups_eq_zero (h : own.ups = 0) : ComesBack base own := by
  rw [ComesBack, h, Nat.sub_zero, List.drop_length]
  exact ⟨Or.inr (Nat.zero_le _), List.nil_prefix⟩

end Paths
