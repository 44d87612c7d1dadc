import AptBlitz.ListingChildren

/-! # The bases of a recursive listing

    A base is a text.  Going down, the name of a directory is joined to it with
    one slash (`bases`), and a root is below it if it begins with its text:
    what a root gives there is a matter of the slashes behind the base
    (`gives_file_iff`, `gives_dir_iff`, `isExact_iff`). -/

namespace BlitzListingBases

open RustText BlitzInfo BlitzListing BlitzListingChildren

/-- A component. -/
def IsName (n : Text) : Prop := n ≠ [] ∧ '/' ∉ n

/-- The base behind the names of some directories. -/
def bases (base : Text) (ns : List Text) : Text := ns.foldl newBase base

/-- Nothing but slashes. -/
def Slashes (s : Text) : Prop := ∀ c ∈ s, c = '/'

variable {base rel a b s : Text} {name n : Text} {ns : List Text} {m : Match} {isDir : Bool}

/-! ## Components -/

@[simp] theorem comps_nil : comps [] = [] := by
  rw [comps, split, List.splitOn_nil]
  rfl

/-- The components on the two sides of a slash. -/
theorem comps_append_slash (a b : Text) : comps (a ++ '/' :: b) = comps a ++ comps b := by
  rw [comps, split, List.splitOn_append_cons_self, List.filter_append]
  rfl

theorem comps_slash (b : Text) : comps ('/' :: b) = comps b := by
  have h := comps_append_slash [] b
  rwa [comps_nil, List.nil_append, List.nil_append] at h

theorem comps_name (h : IsName n) : comps n = [n] := by
  rw [comps, split, List.splitOn_eq_singleton h.2, List.filter_cons_of_pos]
  · rfl
  · rw [List.isEmpty_eq_false_iff.mpr h.1]
    rfl

theorem isName_of_mem_comps (h : n ∈ comps a) : IsName n := by
  obtain ⟨hmem, hne⟩ := List.mem_filter.mp h
  refine ⟨?_, not_mem_of_mem_split hmem⟩
  rintro rfl
  cases hne

theorem comps_slashes (h : Slashes s) : comps s = [] := by
  induction s with
  | nil => exact comps_nil
  | cons c s ih =>
      obtain rfl := h c List.mem_cons_self
      rw [comps_slash]
      exact ih fun d hd => h d (List.mem_cons_of_mem _ hd)

/-- Slashes at the end add no component. -/
theorem comps_append_slashes (h : Slashes s) (a : Text) : comps (a ++ s) = comps a := by
  cases s with
  | nil => rw [List.append_nil]
  | cons c s =>
      obtain rfl := h c List.mem_cons_self
      rw [comps_append_slash, comps_slashes fun d hd => h d (List.mem_cons_of_mem _ hd),
        List.append_nil]

/-! ## Bases -/

theorem newBase_of_ne_nil (h : base ≠ []) (name : Text) :
    newBase base name = base ++ '/' :: name := if_neg h

/-- One slash, or none behind the empty base. -/
theorem exists_newBase (base : Text) :
    ∃ s, Slashes s ∧ ∀ name, newBase base name = base ++ s ++ name := by
  by_cases h : base = []
  · refine ⟨[], fun c hc => (List.not_mem_nil hc).elim, fun name => ?_⟩
    rw [newBase, if_pos h, h]
    rfl
  · refine ⟨['/'], fun c hc => List.mem_singleton.mp hc, fun name => ?_⟩
    rw [newBase_of_ne_nil h, List.append_assoc]
    rfl

/-- The base of a directory has one component more. -/
theorem comps_newBase (h : IsName n) (base : Text) :
    comps (newBase base n) = comps base ++ [n] := by
  by_cases hbase : base = []
  · rw [newBase, if_pos hbase, hbase, comps_nil, comps_name h]
    rfl
  · rw [newBase_of_ne_nil hbase, comps_append_slash, comps_name h]

theorem bases_concat (base : Text) (ns : List Text) (n : Text) :
    bases base (ns ++ [n]) = newBase (bases base ns) n := List.foldl_concat ..

theorem bases_append (base : Text) (ns ns' : List Text) :
    bases base (ns ++ ns') = bases (bases base ns) ns' := List.foldl_append ..

/-- The base after a walk has the names walked as its last components. -/
theorem comps_bases (h : ∀ n ∈ ns, IsName n) (base : Text) :
    comps (bases base ns) = comps base ++ ns := by
  induction ns using List.reverseRecOn with
  | nil => exact (List.append_nil _).symm
  | append_singleton ns n ih =>
      rw [bases_concat, comps_newBase (h n (List.mem_append_right _ List.mem_cons_self)),
        ih fun m hm => h m (List.mem_append_left _ hm), List.append_assoc]

/-- Each name makes a base longer. -/
theorem length_le_bases (h : ∀ n ∈ ns, IsName n) (base : Text) :
    ns.length ≤ (bases base ns).length := by
  induction ns using List.reverseRecOn with
  | nil => exact Nat.zero_le _
  | append_singleton ns n ih =>
      have hbefore := ih fun m hm => h m (List.mem_append_left _ hm)
      have hpos := List.length_pos_of_ne_nil (h n (List.mem_append_right _ List.mem_cons_self)).1
      obtain ⟨s, -, heq⟩ := exists_newBase (bases base ns)
      rw [bases_concat, heq]
      simp only [List.length_append, List.length_singleton]
      omega

/-- Behind a base that is not empty, the names come with a slash before each. -/
theorem exists_bases (h : base ≠ []) (ns : List Text) : ∃ u, bases base ns = base ++ u ∧
    (ns ≠ [] → ∃ u', u = '/' :: u') := by
  induction ns using List.reverseRecOn with
  | nil => exact ⟨[], (List.append_nil _).symm, fun hne => absurd rfl hne⟩
  | append_singleton ns n ih =>
      obtain ⟨u, hu, hslash⟩ := ih
      have hne : base ++ u ≠ [] := List.append_ne_nil_of_left_ne_nil h u
      refine ⟨u ++ '/' :: n, ?_, fun _ => ?_⟩
      · rw [bases_concat, hu, newBase_of_ne_nil hne, List.append_assoc]
      · by_cases hns : ns = []
        · subst hns
          have hnil : u = [] := List.append_cancel_left (hu.symm.trans (List.append_nil _).symm)
          exact ⟨n, by rw [hnil]; rfl⟩
        · obtain ⟨u', rfl⟩ := hslash hns
          exact ⟨u' ++ '/' :: n, rfl⟩

/-! ## What is behind a base -/

/-- The leading slashes are taken away and nothing else. -/
theorem trimStartMatches_append (h : Slashes s) (hrel : rel.head? ≠ some '/') :
    trimStartMatches '/' (s ++ rel) = rel := by
  rw [trimStartMatches, List.dropWhile_append_of_pos fun c hc => beq_iff_eq.mpr (h c hc),
    List.dropWhile_beq_eq_self_of_head?_ne hrel]

/-- What is left does not begin with a slash. -/
theorem head?_trimStartMatches (t : Text) : (trimStartMatches '/' t).head? ≠ some '/' := by
  intro h
  have hnot := List.head?_dropWhile_not (· == '/') t
  rw [trimStartMatches] at h
  rw [h] at hnot
  cases hnot

theorem exists_trimStartMatches (t : Text) : ∃ s, Slashes s ∧ t = s ++ trimStartMatches '/' t := by
  refine ⟨t.takeWhile (· == '/'), fun c hc => ?_, List.takeWhile_append_dropWhile.symm⟩
  have hslash := List.mem_takeWhile_imp hc
  exact beq_iff_eq.mp hslash

/-- A root below the base, its slashes taken away. -/
theorem relative_append (h : Slashes s) (hrel : rel.head? ≠ some '/') (base : Text) :
    relative base (base ++ s ++ rel) = some rel := by
  rw [relative, List.append_assoc, stripPrefix_append, Option.map_some,
    trimStartMatches_append h hrel]

/-- What is below a base is the base, slashes and the rest. -/
theorem relative_some {root : Text} (h : relative base root = some rel) :
    ∃ s, Slashes s ∧ rel.head? ≠ some '/' ∧ root = base ++ s ++ rel := by
  obtain ⟨t, ht, rfl⟩ := Option.map_eq_some_iff.mp h
  obtain ⟨s, hs, heq⟩ := exists_trimStartMatches t
  refine ⟨s, hs, head?_trimStartMatches t, ?_⟩
  rw [stripPrefix_some ht, List.append_assoc, ← heq]

/-- A root is the base itself up to slashes at its end. -/
theorem isExact_iff : isExact base m = true ↔ ∃ s, Slashes s ∧ m.1 = base ++ s := by
  rw [isExact, beq_iff_eq]
  constructor
  · intro h
    obtain ⟨s, hs, -, heq⟩ := relative_some h
    exact ⟨s, hs, heq.trans (List.append_nil _)⟩
  · rintro ⟨s, hs, heq⟩
    have hnil : ([] : Text).head? ≠ some '/' := by simp
    have h := relative_append hs hnil base
    rwa [List.append_nil, ← heq] at h

theorem IsName.head?_append (h : IsName n) (t : Text) : (n ++ t).head? ≠ some '/' := by
  obtain ⟨hne, hslash⟩ := h
  cases n with
  | nil => exact absurd rfl hne
  | cons c n =>
      intro heq
      cases heq
      exact hslash List.mem_cons_self

theorem takeWhile_of_not_mem (h : '/' ∉ n) : n.takeWhile (· != '/') = n :=
  List.takeWhile_eq_self_iff.mpr (forall_bne h)

/-- The child of a rest without slash is a file. -/
theorem child_file (h : '/' ∉ n) : child n = (n, false) := by
  rw [child, takeWhile_of_not_mem h, List.contains_eq_mem, decide_eq_false h]

/-- The child of a rest with a slash is a directory. -/
theorem child_dir (h : '/' ∉ n) (t : Text) : child (n ++ '/' :: t) = (n, true) := by
  rw [child, takeWhile_ne_append h, List.contains_eq_mem,
    decide_eq_true (List.mem_append_right _ List.mem_cons_self)]

/-- A text has a first slash, or none. -/
theorem child_cases (rel : Text) :
    ('/' ∉ rel ∧ child rel = (rel, false)) ∨
      ∃ n t, '/' ∉ n ∧ rel = n ++ '/' :: t ∧ child rel = (n, true) := by
  by_cases h : '/' ∈ rel
  · obtain ⟨n, t, rfl, hn⟩ := List.eq_append_cons_of_mem h
    exact Or.inr ⟨n, t, hn, rfl, child_dir hn t⟩
  · exact Or.inl ⟨h, child_file h⟩

/-- A match below the base gives its first component. -/
theorem gives_append (hs : Slashes s) (hrel : rel.head? ≠ some '/') (hne : rel ≠ [])
    (heq : m.1 = base ++ s ++ rel) : gives base m = some (child rel) := by
  rw [gives, heq, relative_append hs hrel]
  cases rel with
  | nil => exact absurd rfl hne
  | cons c rel => rfl

/-- What is given is what comes behind the slashes. -/
theorem exists_rel_of_gives (h : gives base m = some (n, isDir)) :
    ∃ s rel, Slashes s ∧ rel ≠ [] ∧ rel.head? ≠ some '/' ∧ m.1 = base ++ s ++ rel ∧
      child rel = (n, isDir) := by
  rw [gives] at h
  cases hrel : relative base m.1 with
  | none =>
      rw [hrel] at h
      cases h
  | some rel =>
      obtain ⟨s, hs, hhead, heq⟩ := relative_some hrel
      rw [hrel] at h
      cases rel with
      | nil => cases h
      | cons c rel =>
          exact ⟨s, c :: rel, hs, List.cons_ne_nil c rel, hhead, heq, Option.some.inj h⟩

/-- A file is the rest of the root. -/
theorem gives_file_iff : gives base m = some (n, false) ↔
    IsName n ∧ ∃ s, Slashes s ∧ m.1 = base ++ s ++ n := by
  constructor
  · intro h
    obtain ⟨s, rel, hs, hne, -, heq, hchild⟩ := exists_rel_of_gives h
    rcases child_cases rel with ⟨hslash, hfile⟩ | ⟨n', t, -, -, hdir⟩
    · rw [hfile] at hchild
      cases hchild
      exact ⟨⟨hne, hslash⟩, s, hs, heq⟩
    · rw [hdir] at hchild
      cases hchild
  · rintro ⟨hn, s, hs, heq⟩
    have hhead := hn.head?_append []
    rw [List.append_nil] at hhead
    rw [gives_append hs hhead hn.1 heq, child_file hn.2]

/-- A directory is what comes before another slash. -/
theorem gives_dir_iff : gives base m = some (n, true) ↔
    IsName n ∧ ∃ s t, Slashes s ∧ m.1 = base ++ s ++ (n ++ '/' :: t) := by
  constructor
  · intro h
    obtain ⟨s, rel, hs, -, hhead, heq, hchild⟩ := exists_rel_of_gives h
    rcases child_cases rel with ⟨-, hfile⟩ | ⟨n', t, hslash, rfl, hdir⟩
    · rw [hfile] at hchild
      cases hchild
    · rw [hdir] at hchild
      cases hchild
      refine ⟨⟨?_, hslash⟩, s, t, hs, heq⟩
      rintro rfl
      exact hhead rfl
  · rintro ⟨hn, s, t, hs, heq⟩
    have hne : n ++ '/' :: t ≠ [] := List.append_ne_nil_of_left_ne_nil hn.1 _
    rw [gives_append hs (hn.head?_append _) hne heq, child_dir hn.2]

theorem isName_of_gives (h : gives base m = some (n, isDir)) : IsName n := by
  cases isDir with
  | false => exact (gives_file_iff.mp h).1
  | true => exact (gives_dir_iff.mp h).1

/-- An exact entry has the components of the base. -/
theorem comps_of_isExact (h : isExact base m = true) : comps m.1 = comps base := by
  obtain ⟨s, hs, heq⟩ := isExact_iff.mp h
  rw [heq, comps_append_slashes hs]

/-- **Straight down**: an entry that is a file below the names of its own
    components is below each of these names on the way. -/
theorem gives_on_the_way {ns' : List Text} {k : Text}
    (hplace : comps m.1 = comps base ++ ns ++ [n])
    (hgives : gives (bases base ns) m = some (n, false)) (hway : ns' ++ [k] <+: ns) :
    gives (bases base ns') m = some (k, true) := by
  have hnames : ∀ j ∈ ns ++ [n], IsName j := by
    intro j hj
    refine isName_of_mem_comps (a := m.1) ?_
    rw [hplace, List.append_assoc]
    exact List.mem_append_right _ hj
  obtain ⟨hn, s, hs, heq⟩ := gives_file_iff.mp hgives
  obtain ⟨below, rfl⟩ := hway
  have hk : IsName k := hnames k (by simp)
  obtain ⟨sep, hsep, hjoin⟩ := exists_newBase (bases base ns')
  have hne : newBase (bases base ns') k ≠ [] := by
    rw [hjoin]
    exact List.append_ne_nil_of_right_ne_nil _ hk.1
  obtain ⟨u, hu, hslash⟩ := exists_bases hne below
  rw [bases_append, bases_concat, hu] at heq
  -- there is a slash behind the name: of the names below it, or before the file
  have hbehind : ∃ t, u ++ s ++ n = '/' :: t := by
    by_cases hbelow : below = []
    · subst hbelow
      have hnil : u = [] := List.append_cancel_left (hu.symm.trans (List.append_nil _).symm)
      cases s with
      | cons c s =>
          obtain rfl := hs c List.mem_cons_self
          exact ⟨s ++ n, by rw [hnil]; rfl⟩
      | nil =>
          -- without a slash the two names would be one
          have hone : IsName (k ++ n) := ⟨List.append_ne_nil_of_left_ne_nil hk.1 n, fun hmem =>
            (List.mem_append.mp hmem).elim hk.2 hn.2⟩
          have hroot : m.1 = newBase (bases base ns') (k ++ n) := by
            rw [heq, hnil, hjoin, hjoin]
            simp only [List.append_nil, List.append_assoc]
          have hlen := congrArg List.length hplace
          rw [hroot, comps_newBase hone, comps_bases fun j hj => hnames j (by simp [hj])] at hlen
          simp only [List.length_append, List.length_singleton, List.length_nil] at hlen
          omega
    · obtain ⟨u', rfl⟩ := hslash hbelow
      exact ⟨u' ++ s ++ n, rfl⟩
  obtain ⟨t, ht⟩ := hbehind
  refine gives_dir_iff.mpr ⟨hk, sep, t, hsep, ?_⟩
  rw [heq, hjoin, ← ht]
  simp only [List.append_assoc]

end BlitzListingBases
