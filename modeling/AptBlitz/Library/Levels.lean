import Mathlib.Data.List.Basic
import Mathlib.Data.List.Flatten
import Mathlib.Data.List.Nodup
import Mathlib.Data.List.Infix
import Mathlib.Data.List.Induction

/-! # Listings level by level

    Entries have a place, which is a list of names.  A listing goes down from a
    top, level by level, and what it shows of a level is not read off the places
    but off what each entry gives there: a name, and whether the entry goes on
    below that name.

    Such a listing shows each entry once at its place, and no directory but
    those above entries, if and only if every entry is given straight down to
    its place and no name is given beside the places: `faithful_iff`. -/

namespace Levels

variable {N E : Type}

/-! ## The walk -/

/-- The levels from one on, each before those below it. -/
def walk (stops : List N → Bool) (dirs : List N → List N) : Nat → List N → List (List N)
  | 0, _ => []
  | fuel + 1, ns =>
      ns :: if stops ns then [] else (dirs ns).flatMap fun n => walk stops dirs fuel (ns ++ [n])

section Walk

variable {stops : List N → Bool} {dirs : List N → List N} {fuel : Nat} {start ns t : List N}
  {n : N}

/-- Every step of the way is a directory of a level that goes on. -/
def Down (stops : List N → Bool) (dirs : List N → List N) (start t : List N) : Prop :=
  ∀ t' n, t' ++ [n] <+: t → stops (start ++ t') = false ∧ n ∈ dirs (start ++ t')

theorem down_nil : Down stops dirs start [] := by
  intro t' n h
  exact absurd (List.prefix_nil.mp h)
    (List.append_ne_nil_of_right_ne_nil t' (List.cons_ne_nil n []))

/-- A level further down. -/
theorem down_cons : Down stops dirs start (n :: t) ↔
    stops start = false ∧ n ∈ dirs start ∧ Down stops dirs (start ++ [n]) t := by
  constructor
  · intro h
    have hfirst := h [] n ⟨t, rfl⟩
    rw [List.append_nil] at hfirst
    refine ⟨hfirst.1, hfirst.2, ?_⟩
    intro t' m hm
    rw [List.append_assoc]
    exact h (n :: t') m (List.cons_prefix_cons.mpr ⟨rfl, hm⟩)
  · rintro ⟨hstops, hn, hbelow⟩ t' m hm
    cases t' with
    | nil =>
        obtain ⟨rfl, -⟩ := List.cons_prefix_cons.mp hm
        rw [List.append_nil]
        exact ⟨hstops, hn⟩
    | cons n' t' =>
        obtain ⟨rfl, hrest⟩ := List.cons_prefix_cons.mp hm
        have hstep := hbelow t' m hrest
        rwa [List.append_assoc] at hstep

/-- What a walk of some depth finds. -/
theorem mem_walk (fuel : Nat) (start ns : List N) : ns ∈ walk stops dirs fuel start ↔
    ∃ t, ns = start ++ t ∧ t.length < fuel ∧ Down stops dirs start t := by
  induction fuel generalizing start with
  | zero => simp [walk]
  | succ fuel ih =>
      rw [walk, List.mem_cons]
      constructor
      · rintro (rfl | h)
        · exact ⟨[], (List.append_nil _).symm, Nat.succ_pos fuel, down_nil⟩
        · cases hstops : stops start with
          | true =>
              rw [hstops, if_pos rfl] at h
              exact absurd h List.not_mem_nil
          | false =>
              rw [hstops, if_neg Bool.false_ne_true] at h
              obtain ⟨n, hn, hmem⟩ := List.mem_flatMap.mp h
              obtain ⟨t, rfl, hlen, hdown⟩ := (ih _).mp hmem
              exact ⟨n :: t, List.append_assoc _ _ _, Nat.succ_lt_succ hlen,
                down_cons.mpr ⟨hstops, hn, hdown⟩⟩
      · rintro ⟨t, rfl, hlen, hdown⟩
        cases t with
        | nil => exact Or.inl (List.append_nil start)
        | cons n t =>
            obtain ⟨hstops, hn, hdown⟩ := down_cons.mp hdown
            refine Or.inr ?_
            rw [hstops, if_neg Bool.false_ne_true]
            refine List.mem_flatMap.mpr ⟨n, hn, (ih _).mpr ⟨t, ?_, ?_, hdown⟩⟩
            · rw [List.append_assoc]
              rfl
            · exact Nat.lt_of_succ_lt_succ hlen

/-- **Once each.** -/
theorem nodup_walk (h : ∀ ns, (dirs ns).Nodup) (fuel : Nat) (start : List N) :
    (walk stops dirs fuel start).Nodup := by
  induction fuel generalizing start with
  | zero => exact List.nodup_nil
  | succ fuel ih =>
      rw [walk]
      refine List.nodup_cons.mpr ⟨?_, ?_⟩
      · intro hmem
        split at hmem
        next => exact absurd hmem List.not_mem_nil
        next =>
          obtain ⟨n, -, hmem⟩ := List.mem_flatMap.mp hmem
          obtain ⟨t, ht, -, -⟩ := (mem_walk _ _ _).mp hmem
          have hlen := congrArg List.length ht
          simp only [List.length_append, List.length_singleton] at hlen
          omega
      · split
        next => exact List.nodup_nil
        next =>
          refine List.nodup_flatMap.mpr ⟨fun n _ => ih _, ?_⟩
          refine (h start).imp fun {n m} hne => ?_
          refine List.disjoint_left.mpr fun ns hn hm => hne ?_
          obtain ⟨t, rfl, -, -⟩ := (mem_walk _ _ _).mp hn
          obtain ⟨t', ht', -, -⟩ := (mem_walk _ _ _).mp hm
          rw [List.append_assoc, List.append_assoc] at ht'
          exact (List.cons.inj (List.append_cancel_left ht')).1

/-- Names of levels, with their level before them. -/
theorem nodup_flatMap_concat {levels : List (List N)} {names : List N → List N}
    (hlevels : levels.Nodup) (hnames : ∀ ns, (names ns).Nodup) :
    (levels.flatMap fun ns => (names ns).map fun n => ns ++ [n]).Nodup := by
  refine List.nodup_flatMap.mpr ⟨fun ns _ => ?_, ?_⟩
  · exact (hnames ns).map fun n m h => (List.cons.inj (List.append_cancel_left h)).1
  · refine hlevels.imp fun {ns ns'} hne => ?_
    refine List.disjoint_left.mpr fun p hp hp' => hne ?_
    obtain ⟨n, -, rfl⟩ := List.mem_map.mp hp
    obtain ⟨n', -, hn'⟩ := List.mem_map.mp hp'
    exact (List.append_inj' hn' rfl).1.symm

end Walk

/-! ## Entries -/

/-- A directory above the place. -/
def Over (p q : List N) : Prop := p <+: q ∧ p ≠ q

/-- Above a place is what its last name is behind. -/
theorem over_concat_iff {p q : List N} {n : N} : Over p (q ++ [n]) ↔ p <+: q := by
  constructor
  · rintro ⟨h, hne⟩
    exact (List.prefix_concat_iff.mp h).resolve_left hne
  · intro h
    refine ⟨h.trans ⟨[n], rfl⟩, fun heq => ?_⟩
    have hlen := h.length_le
    rw [heq, List.length_append] at hlen
    exact absurd hlen (Nat.not_succ_le_self _)

end Levels

/-- Entries with their places, what each gives at a level, and whether it is the
    level itself. -/
structure Levels (N E : Type) where
  entries : List E
  top : List N
  place : E → List N
  gives : List N → E → Option (N × Bool)
  exact : List N → E → Bool

namespace Levels

variable {N E : Type} (L : Levels N E)

/-- Some entry goes on below the name. -/
def IsDir (ns : List N) (n : N) : Prop := ∃ e ∈ L.entries, L.gives ns e = some (n, true)

/-- The level is an entry. -/
def Stops (ns : List N) : Prop := ∃ e ∈ L.entries, L.exact ns e = true

/-- The levels that the walk comes to. -/
def Reached (ns : List N) : Prop := ∀ ns' n, ns' ++ [n] <+: ns → ¬ L.Stops ns' ∧ L.IsDir ns' n

/-- A directory that is shown, above its files or as a name. -/
def ShowsDir (p : List N) : Prop :=
  ∃ ns, L.Reached ns ∧ ¬ L.Stops ns ∧
    (p = L.top ++ ns ∨ ∃ n, L.IsDir ns n ∧ p = L.top ++ ns ++ [n])

/-- The entry is given as a file at the directory of its place. -/
def Straight (e : E) : Prop :=
  ∃ ns n, L.place e = L.top ++ ns ++ [n] ∧ L.gives ns e = some (n, false)

/-- What is given to a straight entry's own directories, and which levels are entries. -/
structure Lawful : Prop where
  down : ∀ e ∈ L.entries, ∀ ns n, L.place e = L.top ++ ns ++ [n] → L.gives ns e = some (n, false) →
    ∀ ns' m, ns' ++ [m] <+: ns → L.gives ns' e = some (m, true)
  exact : ∀ e ∈ L.entries, ∀ ns, L.Reached ns → L.exact ns e = true → L.place e = L.top ++ ns

variable {L} {ns ns' : List N} {n : N} {e e' : E}

theorem reached_nil : L.Reached [] := by
  intro ns' n h
  exact absurd (List.prefix_nil.mp h)
    (List.append_ne_nil_of_right_ne_nil ns' (List.cons_ne_nil n []))

/-- All levels above one that is reached are. -/
theorem Reached.of_isPrefix (h : L.Reached ns) (hway : ns' <+: ns) : L.Reached ns' :=
  fun ns'' n hstep => h ns'' n (hstep.trans hway)

/-- A level is reached from the one above it. -/
theorem reached_concat : L.Reached (ns ++ [n]) ↔ L.Reached ns ∧ ¬ L.Stops ns ∧ L.IsDir ns n := by
  constructor
  · intro h
    exact ⟨h.of_isPrefix ⟨[n], rfl⟩, h ns n (List.prefix_rfl)⟩
  · rintro ⟨h, hstops, hdir⟩ ns' m hstep
    rcases List.prefix_concat_iff.mp hstep with heq | hbelow
    · obtain ⟨rfl, hm⟩ := List.append_inj' heq rfl
      cases hm
      exact ⟨hstops, hdir⟩
    · exact h ns' m hbelow

/-- Above a straight entry there are the levels of its names. -/
theorem Straight.over (h : L.Straight e) {p : List N} (hover : Over (L.top ++ p) (L.place e)) :
    ∃ ns n, L.place e = L.top ++ ns ++ [n] ∧ L.gives ns e = some (n, false) ∧ p <+: ns := by
  obtain ⟨ns, n, hplace, hgives⟩ := h
  refine ⟨ns, n, hplace, hgives, ?_⟩
  rw [hplace] at hover
  exact (List.prefix_append_right_inj L.top).mp (over_concat_iff.mp hover)

/-- Some entry is given below each name above a straight one. -/
theorem Lawful.isDir (law : L.Lawful) (he : e ∈ L.entries) (h : L.Straight e)
    (hover : Over (L.top ++ ns ++ [n]) (L.place e)) : L.IsDir ns n := by
  rw [List.append_assoc] at hover
  obtain ⟨ns', n', hplace, hgives, hbelow⟩ := h.over hover
  exact ⟨e, he, law.down e he ns' n' hplace hgives ns n hbelow⟩

/-- No level below the top is an entry, if all entries are shown, by themselves
    or not, and no directories but those above entries. -/
theorem goes_on_of_shown (htop : ¬ L.Stops [])
    (hshown : ∀ e ∈ L.entries, (∃ ns n, L.Reached ns ∧ ¬ L.Stops ns ∧
        L.place e = L.top ++ ns ++ [n]) ∨
      ∃ ns n, L.Reached ns ∧ ns ≠ [] ∧ L.place e = (L.top ++ ns).dropLast ++ [n])
    (hdirs : ∀ p, L.ShowsDir p → ∃ e ∈ L.entries, Over p (L.place e)) :
    ∀ ns, L.Reached ns → ¬ L.Stops ns := by
  intro ns hreached hstops
  rcases List.eq_nil_or_concat' ns with rfl | ⟨ns₀, n₀, rfl⟩
  · exact htop hstops
  · obtain ⟨hreached₀, hgoes, hdir⟩ := reached_concat.mp hreached
    obtain ⟨e, he, hover⟩ := hdirs _ ⟨ns₀, hreached₀, hgoes, Or.inr ⟨n₀, hdir, rfl⟩⟩
    -- the level of the entry is not above this one, which the walk does not leave
    have hbelow : ∀ ns', L.Reached ns' → ns₀ ++ [n₀] <+: ns' → ns' = ns₀ ++ [n₀] := by
      intro ns' hreached' hway
      obtain ⟨t, rfl⟩ := hway
      cases t with
      | nil => exact List.append_nil _
      | cons m t =>
          have hstep : ns₀ ++ [n₀] ++ [m] <+: ns₀ ++ [n₀] ++ m :: t :=
            ⟨t, List.append_cons _ _ _ |>.symm⟩
          exact absurd hstops (hreached' _ m hstep).1
    rw [List.append_assoc] at hover
    rcases hshown e he with ⟨ns', n', hreached', hgoes', hplace⟩ |
      ⟨ns', n', hreached', hne, hplace⟩
    · rw [hplace] at hover
      have hway := (List.prefix_append_right_inj L.top).mp (over_concat_iff.mp hover)
      exact hgoes' (hbelow ns' hreached' hway ▸ hstops)
    · rw [hplace, List.dropLast_append_of_ne_nil hne] at hover
      have hway := (List.prefix_append_right_inj L.top).mp (over_concat_iff.mp hover)
      have heq := hbelow ns' hreached' (hway.trans (List.dropLast_prefix ns'))
      have hlen := hway.length_le
      rw [heq, List.dropLast_concat, List.length_append] at hlen
      exact absurd hlen (Nat.not_succ_le_self _)

/-- A walk that decides as the levels do reaches the same. -/
theorem down_iff_reached {stops : List N → Bool} {dirs : List N → List N}
    (hstops : ∀ ns, stops ns = true ↔ L.Stops ns) (hdirs : ∀ ns n, n ∈ dirs ns ↔ L.IsDir ns n) :
    Down stops dirs [] ns ↔ L.Reached ns := by
  refine forall₃_congr fun ns' n _ => ?_
  rw [List.nil_append, hdirs, ← hstops, Bool.not_eq_true]

/-- The walk comes to the levels that are reached, if it has the fuel. -/
theorem mem_walk_iff {stops : List N → Bool} {dirs : List N → List N} {fuel : Nat}
    (hstops : ∀ ns, stops ns = true ↔ L.Stops ns) (hdirs : ∀ ns n, n ∈ dirs ns ↔ L.IsDir ns n)
    (hfuel : ∀ ns, L.Reached ns → ns.length < fuel) :
    ns ∈ walk stops dirs fuel [] ↔ L.Reached ns := by
  rw [mem_walk]
  constructor
  · rintro ⟨t, heq, -, hdown⟩
    rw [List.nil_append] at heq
    rw [heq]
    exact (down_iff_reached hstops hdirs).mp hdown
  · intro h
    exact ⟨ns, rfl, hfuel ns h, (down_iff_reached hstops hdirs).mpr h⟩

/-! ## What is shown, and of what -/

section Faithful

variable [DecidableEq N] (L)

/-- The last entry that ends with the name. -/
def fileOf (ns : List N) (n : N) : Option E :=
  (L.entries.filter fun e => decide (L.gives ns e = some (n, false))).getLast?

/-- A file that is shown, with the entry that it is shown for. -/
def Shows (p : List N) (e : E) : Prop :=
  ∃ ns n, L.Reached ns ∧ ¬ L.Stops ns ∧ ¬ L.IsDir ns n ∧ L.fileOf ns n = some e ∧
    p = L.top ++ ns ++ [n]

/-- Every entry is shown once, at its place, and no other directories than those above entries. -/
structure Faithful : Prop where
  goes_on : ∀ ns, L.Reached ns → ¬ L.Stops ns
  once : (L.entries.map L.place).Nodup
  shows : ∀ p e, L.Shows p e ↔ e ∈ L.entries ∧ p = L.place e
  dirs : ∀ p, L.ShowsDir p → ∃ e ∈ L.entries, Over p (L.place e)

/-- The condition on the entries. -/
structure Good : Prop where
  straight : ∀ e ∈ L.entries, L.Straight e
  once : (L.entries.map L.place).Nodup
  apart : ∀ e ∈ L.entries, ∀ e' ∈ L.entries, ¬ Over (L.place e) (L.place e')
  names : ∀ ns, (∃ e ∈ L.entries, Over (L.top ++ ns) (L.place e)) →
    ∀ e ∈ L.entries, ∀ n isDir, L.gives ns e = some (n, isDir) →
      (∃ e' ∈ L.entries, Over (L.top ++ ns ++ [n]) (L.place e')) ∨
        (¬ L.IsDir ns n ∧ ∃ e', L.fileOf ns n = some e' ∧ L.place e' = L.top ++ ns ++ [n])

variable {L}

/-- The file of a name is one of the entries. -/
theorem fileOf_some (h : L.fileOf ns n = some e) :
    e ∈ L.entries ∧ L.gives ns e = some (n, false) := by
  obtain ⟨hmem, hgives⟩ := List.mem_filter.mp (List.mem_of_getLast? h)
  exact ⟨hmem, of_decide_eq_true hgives⟩

/-- An entry that gives a name has a file under it. -/
theorem exists_fileOf (he : e ∈ L.entries) (h : L.gives ns e = some (n, false)) :
    ∃ e', L.fileOf ns n = some e' := by
  have hmem : e ∈ L.entries.filter fun e => decide (L.gives ns e = some (n, false)) :=
    List.mem_filter.mpr ⟨he, decide_eq_true h⟩
  exact ⟨_, List.getLast?_eq_some_getLast (List.ne_nil_of_mem hmem)⟩

/-- Every entry is the file of some name on a level that is reached. -/
theorem Faithful.straight (h : L.Faithful) (he : e ∈ L.entries) :
    ∃ ns n, L.Reached ns ∧ ¬ L.IsDir ns n ∧ L.fileOf ns n = some e ∧
      L.place e = L.top ++ ns ++ [n] := by
  obtain ⟨ns, n, hreached, -, hdir, hfile, hplace⟩ := (h.shows _ e).mpr ⟨he, rfl⟩
  exact ⟨ns, n, hreached, hdir, hfile, hplace⟩

/-- Listings that show every entry are good ones. -/
theorem Faithful.good (h : L.Faithful) (law : L.Lawful) : L.Good := by
  have hstraight : ∀ e ∈ L.entries, L.Straight e := by
    intro e he
    obtain ⟨ns, n, -, -, hfile, hplace⟩ := h.straight he
    exact ⟨ns, n, hplace, (fileOf_some hfile).2⟩
  refine ⟨hstraight, h.once, ?_, ?_⟩
  · intro e he e' he' hover
    obtain ⟨ns, n, -, hdir, -, hplace⟩ := h.straight he
    rw [hplace] at hover
    exact hdir (law.isDir he' (hstraight e' he') hover)
  · rintro ns ⟨e₀, he₀, hover⟩ e he n isDir hgives
    -- the walk comes to the level on its way to the entry that it is above
    obtain ⟨ns₀, n₀, hreached₀, -, -, hplace₀⟩ := h.straight he₀
    rw [hplace₀] at hover
    have hreached := hreached₀.of_isPrefix
      ((List.prefix_append_right_inj L.top).mp (over_concat_iff.mp hover))
    have hgoes := h.goes_on ns hreached
    by_cases hdir : L.IsDir ns n
    · exact Or.inl (h.dirs _ ⟨ns, hreached, hgoes, Or.inr ⟨n, hdir, rfl⟩⟩)
    · refine Or.inr ⟨hdir, ?_⟩
      have hfalse : isDir = false := by
        cases isDir with
        | true => exact absurd ⟨e, he, hgives⟩ hdir
        | false => rfl
      subst hfalse
      obtain ⟨e', hfile⟩ := exists_fileOf he hgives
      have hshown := (h.shows _ e').mp ⟨ns, n, hreached, hgoes, hdir, hfile, rfl⟩
      exact ⟨e', hfile, hshown.2.symm⟩

/-- A level that is reached is over some entry. -/
theorem Good.over (h : L.Good) (hne : L.entries ≠ []) (hreached : L.Reached ns) :
    ∃ e ∈ L.entries, Over (L.top ++ ns) (L.place e) := by
  induction ns using List.reverseRecOn with
  | nil =>
      obtain ⟨e, he⟩ := List.exists_mem_of_ne_nil _ hne
      obtain ⟨ns, n, hplace, -⟩ := h.straight e he
      refine ⟨e, he, ?_⟩
      rw [hplace, List.append_nil]
      exact over_concat_iff.mpr ⟨ns, rfl⟩
  | append_singleton ns n ih =>
      obtain ⟨hbefore, -, e, he, hgives⟩ := reached_concat.mp hreached
      rw [← List.append_assoc]
      rcases h.names ns (ih hbefore) e he n true hgives with hover | ⟨hdir, -⟩
      · exact hover
      · exact absurd ⟨e, he, hgives⟩ hdir

/-- A good listing does not stop above an entry. -/
theorem Good.goes_on (h : L.Good) (law : L.Lawful) (hne : L.entries ≠ [])
    (hreached : L.Reached ns) : ¬ L.Stops ns := by
  rintro ⟨e, he, hexact⟩
  obtain ⟨e', he', hover⟩ := h.over hne hreached
  rw [← law.exact e he ns hreached hexact] at hover
  exact h.apart e he e' he' hover

/-- A good listing reaches the level of each entry. -/
theorem Good.reached (h : L.Good) (law : L.Lawful) (hne : L.entries ≠ []) (he : e ∈ L.entries)
    (hplace : L.place e = L.top ++ ns ++ [n]) (hgives : L.gives ns e = some (n, false))
    (hway : ns' <+: ns) : L.Reached ns' := by
  induction ns' using List.reverseRecOn with
  | nil => exact reached_nil
  | append_singleton ns' m ih =>
      have hbefore := ih (List.IsPrefix.trans ⟨[m], rfl⟩ hway)
      exact reached_concat.mpr ⟨hbefore, h.goes_on law hne hbefore, e, he,
        law.down e he ns n hplace hgives ns' m hway⟩

/-- A name that is shown as a file is that of the entry at its place. -/
theorem Good.place_of_shown (h : L.Good) (law : L.Lawful) (hne : L.entries ≠ [])
    (hreached : L.Reached ns) (hdir : ¬ L.IsDir ns n) (hfile : L.fileOf ns n = some e) :
    L.place e = L.top ++ ns ++ [n] := by
  obtain ⟨he, hgives⟩ := fileOf_some hfile
  rcases h.names ns (h.over hne hreached) e he n false hgives with ⟨e', he', hover⟩ |
    ⟨-, e', hfile', hplace⟩
  · exact absurd (law.isDir he' (h.straight e' he') hover) hdir
  · rw [hfile] at hfile'
    cases hfile'
    exact hplace

/-- Good listings show every entry. -/
theorem Good.faithful (h : L.Good) (law : L.Lawful) (hne : L.entries ≠ []) : L.Faithful := by
  refine ⟨fun ns hreached => h.goes_on law hne hreached, h.once, ?_, ?_⟩
  · intro p e
    constructor
    · rintro ⟨ns, n, hreached, -, hdir, hfile, rfl⟩
      exact ⟨(fileOf_some hfile).1, (h.place_of_shown law hne hreached hdir hfile).symm⟩
    · rintro ⟨he, rfl⟩
      obtain ⟨ns, n, hplace, hgives⟩ := h.straight e he
      have hreached := h.reached law hne he hplace hgives List.prefix_rfl
      -- nothing is below the place of the entry
      have hdir : ¬ L.IsDir ns n := by
        rintro ⟨e', he', hgives'⟩
        rcases h.names ns (h.over hne hreached) e' he' n true hgives' with ⟨x, hx, hover⟩ |
          ⟨hdir, -⟩
        · rw [← hplace] at hover
          exact h.apart e he x hx hover
        · exact hdir ⟨e', he', hgives'⟩
      obtain ⟨e', hfile⟩ := exists_fileOf he hgives
      have hplace' := h.place_of_shown law hne hreached hdir hfile
      have heq : e' = e := List.inj_on_of_nodup_map h.once (fileOf_some hfile).1 he
        (hplace'.trans hplace.symm)
      exact ⟨ns, n, hreached, h.goes_on law hne hreached, hdir, by rw [hfile, heq], hplace⟩
  · rintro p ⟨ns, hreached, hgoes, rfl | ⟨n, hdir, rfl⟩⟩
    · exact h.over hne hreached
    · obtain ⟨e, he, hover⟩ := h.over hne (reached_concat.mpr ⟨hreached, hgoes, hdir⟩)
      exact ⟨e, he, by rwa [← List.append_assoc] at hover⟩

/-- **Exactly**: a listing of some entries is faithful if and only if they are
    straight, apart and at places of their own, and no name is given beside the
    places. -/
theorem faithful_iff (law : L.Lawful) (hne : L.entries ≠ []) : L.Faithful ↔ L.Good :=
  ⟨fun h => h.good law, fun h => h.faithful law hne⟩

end Faithful

end Levels
