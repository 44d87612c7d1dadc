import AptBlitz.ListingBases
import AptBlitz.Library.Levels

/-! # `cache ls -R`

    The listing goes down from the base.  A level is the text of the base with
    the names of the directories on the way, and which entries are below it, and
    with which name, is read off the texts of their roots: so `pool2/x` is an
    entry with the name `2` at the level `pool`.

    A listing shows every entry once, in its directory, and no directory but
    those above entries, if and only if the entries are `Listable`:
    `ls_shows_each_iff`. -/

namespace BlitzRecursiveListing

open RustText BlitzSelectors BlitzInfo BlitzListing BlitzListingChildren BlitzListingBases SortedMap
open Levels (walk Over)

/-! ## What is shown -/

/-- The files that a block shows, by their paths, each with the entry that its
    line was made of. -/
def files (matched : List Match) : Block → List (List Text × Option Match)
  | .alone base item =>
      [((comps base).dropLast ++ [item.name], (matched.filter (isExact base)).getLast?)]
  | .level base items =>
      (items.filter fun it => !it.isDir).map fun it =>
        (comps base ++ [it.name], fileOf matched base it.name)

/-- The directories that a block shows, in its header and as items. -/
def dirs : Block → List (List Text)
  | .alone _ _ => []
  | .level base items =>
      comps base :: (items.filter LsItem.isDir).map fun it => comps base ++ [it.name]

/-- Each entry is shown once, under the directory that is its path up to the last
    component, and no directory is shown but those above entries. -/
structure ShowsEach (matched : List Match) (blocks : List Block) : Prop where
  files : (blocks.flatMap (files matched)).Perm (matched.map fun m => (comps m.1, some m))
  dirs : ∀ block ∈ blocks, ∀ dir ∈ dirs block, ∃ m ∈ matched, Over dir (comps m.1)

/-- With `-R`. -/
def deep (opts : LsOpts) : LsOpts := { opts with recursive := true }

/-- The blocks that a listing prints, none for a message. -/
def shown : LsOutput → List Block
  | .message _ => []
  | .blocks blocks => blocks

/-! ## When it is -/

/-- The entries at the levels below the base. -/
def levels (matched : List Match) (base : Text) : Levels Text Match where
  entries := matched
  top := comps base
  place m := comps m.1
  gives ns := gives (bases base ns)
  exact ns := isExact (bases base ns)

/-- There are none, or the base is one, and the only one, with the name of its
    last component; or the base is none, and the entries are straight below it, no two have
    one path, none is at a directory of another, and no name that is given on the
    way is beside their paths. -/
def Listable (matched : List Match) (base : Text) : Prop :=
  matched = [] ∨
    (∃ m, matched = [m] ∧ isExact base m = true ∧
      comps m.1 = (comps base).dropLast ++ [basename m.2.url]) ∨
    ((∀ m ∈ matched, isExact base m = false) ∧ (levels matched base).Good)

variable {expiry : CacheEntryDetail → Option Nat} {opts : LsOpts} {matched : List Match}
  {base : Text} {ns : List Text} {n : Text} {m : Match} {fuel : Nat}

/-! ## The levels of the rendering -/

section Rendering

variable (expiry : CacheEntryDetail → Option Nat) (opts : LsOpts) (matched : List Match)
  (base : Text)

/-- The items of a level, as they are shown. -/
def itemsAt (ns : List Text) : List LsItem :=
  sortItems opts (collectChildren expiry matched (bases base ns)).1

/-- The directories that the block below names `ns` shows. -/
def dirNames (ns : List Text) : List Text :=
  ((itemsAt expiry opts matched base ns).filter LsItem.isDir).map LsItem.name

/-- The files that the block below names `ns` shows. -/
def fileNames (ns : List Text) : List Text :=
  ((itemsAt expiry opts matched base ns).filter fun it => !it.isDir).map LsItem.name

/-- Whether the level below `ns` shows one entry instead of its children. -/
def stopsAt (ns : List Text) : Bool := (collectChildren expiry matched (bases base ns)).2.isSome

/-- The block that `render` prints for the level below `ns`. -/
def blockAt (ns : List Text) : Block :=
  match (collectChildren expiry matched (bases base ns)).2 with
  | some d => .alone (bases base ns) (aloneItem expiry d)
  | none => .level (bases base ns) (itemsAt expiry opts matched base ns)

/-- **Level by level**: `render_level` shows the levels of the walk. -/
theorem renderLevel_eq (hrec : opts.recursive = true) (fuel : Nat) (ns : List Text) :
    renderLevel expiry opts matched fuel (bases base ns)
      = (walk (stopsAt expiry matched base) (dirNames expiry opts matched base) fuel ns).map
          (blockAt expiry opts matched base) := by
  induction fuel generalizing ns with
  | zero => rfl
  | succ fuel ih =>
      rw [renderLevel, walk, List.map_cons]
      cases hexact : (collectChildren expiry matched (bases base ns)).2 with
      | some d =>
          have hblock : blockAt expiry opts matched base ns
              = .alone (bases base ns) (aloneItem expiry d) := by
            rw [blockAt, hexact]
          have hstops : stopsAt expiry matched base ns = true := by
            rw [stopsAt, hexact]
            rfl
          rw [hblock, hstops, if_pos rfl]
          simp only [hexact, List.map_nil]
      | none =>
          have hblock : blockAt expiry opts matched base ns
              = .level (bases base ns) (itemsAt expiry opts matched base ns) := by
            rw [blockAt, hexact]
          have hstops : stopsAt expiry matched base ns = false := by
            rw [stopsAt, hexact]
            rfl
          have hbelow : ((dirNames expiry opts matched base ns).flatMap fun n =>
              walk (stopsAt expiry matched base) (dirNames expiry opts matched base) fuel
                (ns ++ [n])).map (blockAt expiry opts matched base)
              = ((itemsAt expiry opts matched base ns).filter LsItem.isDir).flatMap fun it =>
                  renderLevel expiry opts matched fuel (newBase (bases base ns) it.name) := by
            rw [dirNames, List.flatMap_map, List.map_flatMap]
            refine List.flatMap_congr fun it _ => ?_
            rw [← ih, bases_concat]
          rw [hblock, hstops, if_neg Bool.false_ne_true, hbelow]
          simp only [hexact, hrec, if_true]
          by_cases hempty : (collectChildren expiry matched (bases base ns)).1.isEmpty = true
          · rw [if_pos hempty]
            have hitems : itemsAt expiry opts matched base ns = [] := by
              rw [itemsAt, List.isEmpty_iff.mp hempty, sortItems, List.mergeSort_nil]
            rw [hitems]
            rfl
          · rw [if_neg hempty]
            rfl

/-- The sorted items of a level are its children. -/
theorem perm_itemsAt (ns : List Text) :
    (itemsAt expiry opts matched base ns).Perm
      (collectChildren expiry matched (bases base ns)).1 := List.mergeSort_perm _ _

theorem nodup_itemsAt (ns : List Text) :
    ((itemsAt expiry opts matched base ns).map LsItem.name).Nodup :=
  ((perm_itemsAt expiry opts matched base ns).map LsItem.name).nodup_iff.mpr (nodup_names _ _ _)

theorem nodup_dirNames (ns : List Text) : (dirNames expiry opts matched base ns).Nodup :=
  (nodup_itemsAt expiry opts matched base ns).sublist (List.filter_sublist.map LsItem.name)

theorem nodup_fileNames (ns : List Text) : (fileNames expiry opts matched base ns).Nodup :=
  (nodup_itemsAt expiry opts matched base ns).sublist (List.filter_sublist.map LsItem.name)

/-- The items of a level are what `children` holds under their names. -/
theorem mem_itemsAt_iff {item : LsItem} : item ∈ itemsAt expiry opts matched base ns ↔
    get item.name (children expiry (bases base ns) matched) = some item := by
  rw [(perm_itemsAt expiry opts matched base ns).mem_iff]
  exact mem_items_iff

/-- The names of some items are those whose item is one. -/
theorem mem_names_iff (p : LsItem → Bool) :
    n ∈ ((itemsAt expiry opts matched base ns).filter p).map LsItem.name ↔
      (get n (children expiry (bases base ns) matched)).any p = true := by
  rw [List.mem_map, Option.any_eq_true]
  constructor
  · rintro ⟨item, hitem, rfl⟩
    obtain ⟨hmem, hp⟩ := List.mem_filter.mp hitem
    exact ⟨item, (mem_itemsAt_iff expiry opts matched base).mp hmem, hp⟩
  · rintro ⟨item, hget, hp⟩
    have hname := name_of_get hget
    refine ⟨item, List.mem_filter.mpr ⟨?_, hp⟩, hname⟩
    rw [mem_itemsAt_iff, hname]
    exact hget

/-- `render` descends into what the abstract levels call a directory. -/
theorem mem_dirNames_iff :
    n ∈ dirNames expiry opts matched base ns ↔ (levels matched base).IsDir ns n := by
  rw [dirNames, mem_names_iff, get_isDir_iff]
  rfl

/-- A name is a file if entries give it, and none is below it. -/
theorem mem_fileNames_iff : n ∈ fileNames expiry opts matched base ns ↔
    ¬ (levels matched base).IsDir ns n ∧ ∃ m, (levels matched base).fileOf ns n = some m := by
  rw [← mem_dirNames_iff expiry opts, dirNames, fileNames, mem_names_iff, mem_names_iff]
  constructor
  · intro hfile
    obtain ⟨item, hget, hitem⟩ := (Option.any_eq_true _ _).mp hfile
    have hnot : ¬ (get n (children expiry (bases base ns) matched)).any LsItem.isDir = true := by
      rw [hget, Option.any_some]
      rw [Bool.not_eq_true'] at hitem
      rw [hitem]
      exact Bool.false_ne_true
    obtain ⟨m, hm, isDir, hgives⟩ := get_isSome_iff.mp (Option.isSome_iff_exists.mpr ⟨item, hget⟩)
    cases isDir with
    | true => exact absurd (get_isDir_iff.mpr ⟨m, hm, hgives⟩) hnot
    | false => exact ⟨hnot, Levels.exists_fileOf hm hgives⟩
  · rintro ⟨hnot, m, hfile⟩
    obtain ⟨hm, hgives⟩ := Levels.fileOf_some hfile
    have hsome : (get n (children expiry (bases base ns) matched)).isSome = true :=
      get_isSome_iff.mpr ⟨m, hm, false, hgives⟩
    obtain ⟨item, hget⟩ := Option.isSome_iff_exists.mp hsome
    rw [hget, Option.any_some] at hnot
    rw [hget, Option.any_some, Bool.not_eq_true']
    exact Bool.eq_false_iff.mpr hnot

/-- `render` stops where the abstract levels do. -/
theorem stopsAt_iff : stopsAt expiry matched base ns = true ↔ (levels matched base).Stops ns := by
  rw [stopsAt, exact_eq, Option.isSome_map]
  constructor
  · intro h
    obtain ⟨m, hlast⟩ := Option.isSome_iff_exists.mp h
    exact ⟨m, List.mem_filter.mp (List.mem_of_getLast? hlast)⟩
  · rintro ⟨m, hm, hexact⟩
    have hmem : m ∈ matched.filter (isExact (bases base ns)) := List.mem_filter.mpr ⟨hm, hexact⟩
    rw [List.getLast?_eq_some_getLast (List.ne_nil_of_mem hmem)]
    rfl

end Rendering

/-! ## The levels that are reached -/

theorem isName_of_reached (h : (levels matched base).Reached ns) : ∀ n ∈ ns, IsName n := by
  induction ns using List.reverseRecOn with
  | nil => exact fun n hn => (List.not_mem_nil hn).elim
  | append_singleton ns k ih =>
      obtain ⟨hbefore, -, m, -, hgives⟩ := Levels.reached_concat.mp h
      intro n hn
      rcases List.mem_append.mp hn with hn | hn
      · exact ih hbefore n hn
      · rw [List.mem_singleton.mp hn]
        exact isName_of_gives hgives

/-- The base of a reached level has the components of the names walked. -/
theorem comps_of_reached (h : (levels matched base).Reached ns) :
    comps (bases base ns) = comps base ++ ns := comps_bases (isName_of_reached h) base

/-- The levels of a listing obey the laws of `Library.Levels`. -/
theorem lawful (matched : List Match) (base : Text) : (levels matched base).Lawful := by
  constructor
  · intro m _ ns n hplace hgives ns' k hway
    exact gives_on_the_way hplace hgives hway
  · intro m _ ns hreached hexact
    exact (comps_of_isExact hexact).trans (comps_of_reached hreached)

/-- The recursion is deep enough for every matched root. -/
theorem length_le_depth (h : m ∈ matched) : m.1.length + 2 ≤ depth matched := by
  rw [depth]
  induction matched with
  | nil => exact (List.not_mem_nil h).elim
  | cons first matched ih =>
      rw [List.map_cons, List.foldr_cons]
      rcases List.mem_cons.mp h with rfl | h
      · exact Nat.add_le_add_right (le_max_left _ _) 2
      · exact (ih h).trans (Nat.add_le_add_right (le_max_right _ _) 2)

/-- A level is shorter than the roots of the entries above it. -/
theorem length_lt_depth (h : (levels matched base).Reached ns) : ns.length < depth matched := by
  rcases List.eq_nil_or_concat' ns with rfl | ⟨ns, n, rfl⟩
  · rw [depth]
    exact Nat.succ_pos _
  · obtain ⟨hbefore, -, m, hm, hgives⟩ := Levels.reached_concat.mp h
    obtain ⟨-, s, t, -, hroot⟩ := gives_dir_iff.mp hgives
    have hbase := length_le_bases (isName_of_reached hbefore) base
    have hdepth : m.1.length + 2 ≤ depth matched := length_le_depth hm
    rw [hroot] at hdepth
    simp only [List.length_append, List.length_cons, List.length_nil] at hdepth ⊢
    omega

/-- The walk of `render` visits the reached levels and no others. -/
theorem mem_walk_iff (expiry : CacheEntryDetail → Option Nat) (opts : LsOpts) :
    ns ∈ walk (stopsAt expiry matched base) (dirNames expiry opts matched base) (depth matched) [] ↔
      (levels matched base).Reached ns :=
  Levels.mem_walk_iff (fun _ => stopsAt_iff expiry matched base)
    (fun _ _ => mem_dirNames_iff expiry opts matched base) fun _ => length_lt_depth

/-! ## The lines -/

section Lines

variable (expiry : CacheEntryDetail → Option Nat) (opts : LsOpts) (matched : List Match)
  (base : Text)

/-- The levels that are listed. -/
def listed : List (List Text) :=
  walk (stopsAt expiry matched base) (dirNames expiry opts matched base) (depth matched) []

/-- A recursive listing is one block for each level that it visits. -/
theorem render_eq (hrec : opts.recursive = true) : render expiry opts matched base
    = (listed expiry opts matched base).map (blockAt expiry opts matched base) :=
  renderLevel_eq expiry opts matched base hrec (depth matched) []

/-- `render -R` lists the reached levels. -/
theorem mem_listed_iff :
    ns ∈ listed expiry opts matched base ↔ (levels matched base).Reached ns :=
  mem_walk_iff expiry opts

theorem blockAt_of_not_stops (h : ¬ (levels matched base).Stops ns) :
    blockAt expiry opts matched base ns
      = .level (bases base ns) (itemsAt expiry opts matched base ns) := by
  rw [← stopsAt_iff expiry, stopsAt, Bool.not_eq_true, Option.isSome_eq_false_iff,
    Option.isNone_iff_eq_none] at h
  rw [blockAt, h]

theorem blockAt_of_stops (h : (levels matched base).Stops ns) :
    ∃ m, (matched.filter (isExact (bases base ns))).getLast? = some m ∧
      blockAt expiry opts matched base ns = .alone (bases base ns) (aloneItem expiry m.2) := by
  rw [← stopsAt_iff expiry, stopsAt, exact_eq, Option.isSome_map] at h
  obtain ⟨m, hlast⟩ := Option.isSome_iff_exists.mp h
  refine ⟨m, hlast, ?_⟩
  rw [blockAt, exact_eq, hlast]
  rfl

/-- The file under a name is the one of the abstract levels. -/
theorem fileOf_eq : fileOf matched (bases base ns) n = (levels matched base).fileOf ns n := by
  rw [fileOf, Levels.fileOf]
  congr 1
  refine List.filter_congr fun m _ => ?_
  rw [isFile, Bool.eq_iff_iff, beq_iff_eq, decide_eq_true_iff]
  rfl

/-- The files of a level that goes on. -/
theorem files_blockAt (hreached : (levels matched base).Reached ns)
    (h : ¬ (levels matched base).Stops ns) : files matched (blockAt expiry opts matched base ns)
      = (fileNames expiry opts matched base ns).map fun n =>
          (comps base ++ ns ++ [n], (levels matched base).fileOf ns n) := by
  rw [blockAt_of_not_stops expiry opts matched base h, files, comps_of_reached hreached, fileNames,
    List.map_map]
  refine List.map_congr_left fun it _ => ?_
  rw [fileOf_eq]
  rfl

/-- The directories of a level that goes on. -/
theorem mem_dirs_blockAt (hreached : (levels matched base).Reached ns)
    (h : ¬ (levels matched base).Stops ns) {dir : List Text} :
    dir ∈ dirs (blockAt expiry opts matched base ns) ↔ dir = comps base ++ ns ∨
      ∃ n, (levels matched base).IsDir ns n ∧ dir = comps base ++ ns ++ [n] := by
  rw [blockAt_of_not_stops expiry opts matched base h, dirs, comps_of_reached hreached,
    List.mem_cons]
  refine or_congr Iff.rfl ?_
  simp only [← mem_dirNames_iff expiry opts matched base, dirNames, List.mem_map]
  constructor
  · rintro ⟨it, hit, rfl⟩
    exact ⟨it.name, ⟨it, hit, rfl⟩, rfl⟩
  · rintro ⟨n, ⟨it, hit, rfl⟩, rfl⟩
    exact ⟨it, hit, rfl⟩

/-- The files that are shown, line by line. -/
def lines : List (List Text × Option Match) :=
  (listed expiry opts matched base).flatMap fun ns =>
    files matched (blockAt expiry opts matched base ns)

/-- The files of all blocks, block after block. -/
theorem files_render (hrec : opts.recursive = true) :
    (render expiry opts matched base).flatMap (files matched) = lines expiry opts matched base := by
  rw [render_eq expiry opts matched base hrec, List.flatMap_map, lines]

/-- The lines of a listing that stops nowhere are what the levels show. -/
theorem mem_lines_iff (hgoes : ∀ ns, (levels matched base).Reached ns →
      ¬ (levels matched base).Stops ns) {line : List Text × Option Match} :
    line ∈ lines expiry opts matched base ↔
      ∃ p m, (levels matched base).Shows p m ∧ line = (p, some m) := by
  rw [lines, List.mem_flatMap]
  constructor
  · rintro ⟨ns, hns, hline⟩
    have hreached := (mem_listed_iff expiry opts matched base).mp hns
    rw [files_blockAt expiry opts matched base hreached (hgoes ns hreached)] at hline
    obtain ⟨n, hn, rfl⟩ := List.mem_map.mp hline
    obtain ⟨hdir, m, hfile⟩ := (mem_fileNames_iff expiry opts matched base).mp hn
    refine ⟨_, m, ⟨ns, n, hreached, hgoes ns hreached, hdir, hfile, rfl⟩, ?_⟩
    rw [hfile]
    rfl
  · rintro ⟨p, m, ⟨ns, n, hreached, hstops, hdir, hfile, rfl⟩, rfl⟩
    refine ⟨ns, (mem_listed_iff expiry opts matched base).mpr hreached, ?_⟩
    rw [files_blockAt expiry opts matched base hreached hstops]
    have hn := (mem_fileNames_iff expiry opts matched base).mpr ⟨hdir, m, hfile⟩
    refine List.mem_map.mpr ⟨n, hn, ?_⟩
    rw [hfile]
    rfl

/-- No two lines have one path. -/
theorem nodup_lines (hgoes : ∀ ns, (levels matched base).Reached ns →
      ¬ (levels matched base).Stops ns) :
    ((lines expiry opts matched base).map Prod.fst).Nodup := by
  have hpaths : (lines expiry opts matched base).map Prod.fst
      = ((listed expiry opts matched base).flatMap fun ns =>
          (fileNames expiry opts matched base ns).map fun n => ns ++ [n]).map
            fun p => comps base ++ p := by
    rw [lines, List.map_flatMap, List.map_flatMap]
    refine List.flatMap_congr fun ns hns => ?_
    have hreached := (mem_listed_iff expiry opts matched base).mp hns
    rw [files_blockAt expiry opts matched base hreached (hgoes ns hreached), List.map_map,
      List.map_map]
    refine List.map_congr_left fun n _ => ?_
    exact List.append_assoc _ _ _
  rw [hpaths]
  refine List.Nodup.map (fun p q h => List.append_cancel_left h) ?_
  exact Levels.nodup_flatMap_concat
    (Levels.nodup_walk (nodup_dirNames expiry opts matched base) _ _)
    (nodup_fileNames expiry opts matched base)

end Lines

/-! ## Shown if listable -/

/-- What is shown of some entries, if the base is none of them. -/
theorem showsEach_of_faithful (hrec : opts.recursive = true)
    (h : (levels matched base).Faithful) :
    ShowsEach matched (render expiry opts matched base) := by
  constructor
  · rw [files_render expiry opts matched base hrec]
    have honce : (matched.map fun m => (comps m.1, some m)).Nodup := by
      refine List.Nodup.of_map Prod.fst ?_
      rw [List.map_map]
      exact h.once
    refine (List.perm_ext_iff_of_nodup
      (List.Nodup.of_map Prod.fst (nodup_lines expiry opts matched base h.goes_on)) honce).mpr ?_
    intro line
    rw [mem_lines_iff expiry opts matched base h.goes_on, List.mem_map]
    constructor
    · rintro ⟨p, m, hshows, rfl⟩
      obtain ⟨hm, rfl⟩ := (h.shows p m).mp hshows
      exact ⟨m, hm, rfl⟩
    · rintro ⟨m, hm, rfl⟩
      exact ⟨comps m.1, m, (h.shows _ m).mpr ⟨hm, rfl⟩, rfl⟩
  · intro block hblock dir hdir
    rw [render_eq expiry opts matched base hrec] at hblock
    obtain ⟨ns, hns, rfl⟩ := List.mem_map.mp hblock
    have hreached := (mem_listed_iff expiry opts matched base).mp hns
    have hgoes := h.goes_on ns hreached
    exact h.dirs dir ⟨ns, hreached, hgoes,
      (mem_dirs_blockAt expiry opts matched base hreached hgoes).mp hdir⟩

/-- A listing that shows each match once comes from faithful levels. -/
theorem faithful_of_showsEach (hrec : opts.recursive = true)
    (htop : ¬ (levels matched base).Stops [])
    (h : ShowsEach matched (render expiry opts matched base)) : (levels matched base).Faithful := by
  have hlines := h.files
  rw [files_render expiry opts matched base hrec] at hlines
  have hdirs : ∀ p, (levels matched base).ShowsDir p → ∃ m ∈ matched, Over p (comps m.1) := by
    rintro p ⟨ns, hreached, hgoes, hp⟩
    refine h.dirs (blockAt expiry opts matched base ns) ?_ p
      ((mem_dirs_blockAt expiry opts matched base hreached hgoes).mpr hp)
    rw [render_eq expiry opts matched base hrec]
    exact List.mem_map.mpr ⟨ns, (mem_listed_iff expiry opts matched base).mpr hreached, rfl⟩
  have hgoes : ∀ ns, (levels matched base).Reached ns → ¬ (levels matched base).Stops ns := by
    refine Levels.goes_on_of_shown htop (fun m hm => ?_) hdirs
    -- the line of the entry is one of a level, or that of a level by itself
    have hline : (comps m.1, some m) ∈ lines expiry opts matched base :=
      hlines.mem_iff.mpr (List.mem_map.mpr ⟨m, hm, rfl⟩)
    obtain ⟨ns, hns, hfile⟩ := List.mem_flatMap.mp hline
    have hreached := (mem_listed_iff expiry opts matched base).mp hns
    by_cases hstops : (levels matched base).Stops ns
    · obtain ⟨m', -, hblock⟩ := blockAt_of_stops expiry opts matched base hstops
      rw [hblock, files, List.mem_singleton, comps_of_reached hreached] at hfile
      refine Or.inr ⟨ns, _, hreached, ?_, congrArg Prod.fst hfile⟩
      rintro rfl
      exact htop hstops
    · rw [files_blockAt expiry opts matched base hreached hstops] at hfile
      obtain ⟨n, -, heq⟩ := List.mem_map.mp hfile
      exact Or.inl ⟨ns, n, hreached, hstops, (congrArg Prod.fst heq).symm⟩
  refine ⟨hgoes, ?_, ?_, hdirs⟩
  · have hpaths := (hlines.map Prod.fst).nodup_iff.mp
      (nodup_lines expiry opts matched base hgoes)
    rw [List.map_map] at hpaths
    exact hpaths
  · intro p m
    constructor
    · intro hshows
      have hline := (mem_lines_iff expiry opts matched base hgoes).mpr ⟨p, m, hshows, rfl⟩
      obtain ⟨m', hm', heq⟩ := List.mem_map.mp (hlines.mem_iff.mp hline)
      cases heq
      exact ⟨hm', rfl⟩
    · rintro ⟨hm, rfl⟩
      have hline : (comps m.1, some m) ∈ lines expiry opts matched base :=
        hlines.mem_iff.mpr (List.mem_map.mpr ⟨m, hm, rfl⟩)
      obtain ⟨p, m', hshows, heq⟩ := (mem_lines_iff expiry opts matched base hgoes).mp hline
      cases heq
      exact hshows

/-- A base that is an entry is shown by itself. -/
theorem render_of_stops (hrec : opts.recursive = true) (h : (levels matched base).Stops []) :
    ∃ m, (matched.filter (isExact base)).getLast? = some m ∧
      render expiry opts matched base = [.alone base (aloneItem expiry m.2)] := by
  obtain ⟨m, hlast, hblock⟩ := blockAt_of_stops expiry opts matched base h
  refine ⟨m, hlast, ?_⟩
  have hlisted : listed expiry opts matched base = [[]] := by
    rw [listed, depth, walk, (stopsAt_iff expiry matched base).mpr h, if_pos rfl]
  rw [render_eq expiry opts matched base hrec, hlisted, List.map_singleton, hblock]
  rfl

/-- A listing that stops at once shows the single match it stopped for. -/
theorem showsEach_of_stops (hrec : opts.recursive = true) (h : (levels matched base).Stops []) :
    ShowsEach matched (render expiry opts matched base) ↔ ∃ m, matched = [m] ∧
      isExact base m = true ∧ comps m.1 = (comps base).dropLast ++ [basename m.2.url] := by
  obtain ⟨m, hlast, hrender⟩ : ∃ m, (matched.filter (isExact base)).getLast? = some m ∧
      render expiry opts matched base = [.alone base (aloneItem expiry m.2)] :=
    render_of_stops hrec h
  have hexact : isExact base m = true := (List.mem_filter.mp (List.mem_of_getLast? hlast)).2
  have hfiles : (render expiry opts matched base).flatMap (files matched)
      = [((comps base).dropLast ++ [basename m.2.url], some m)] := by
    rw [hrender, List.flatMap_singleton, files, hlast]
    rfl
  constructor
  · intro hshows
    have hperm := hshows.files
    rw [hfiles, List.singleton_perm] at hperm
    obtain ⟨m', hmatched, hline⟩ := List.map_eq_singleton_iff.mp hperm.symm
    obtain ⟨hpath, hm⟩ := Prod.mk.inj hline
    cases hm
    exact ⟨m, hmatched, hexact, hpath⟩
  · rintro ⟨m', hmatched, -, hpath⟩
    have hm : m' = m := by
      have hmem := (List.mem_filter.mp (List.mem_of_getLast? hlast)).1
      rw [hmatched] at hmem
      exact (List.mem_singleton.mp hmem).symm
    subst hm
    constructor
    · rw [hfiles, hmatched, List.map_singleton, hpath]
    · intro block hblock dir hdir
      rw [hrender, List.mem_singleton] at hblock
      rw [hblock] at hdir
      exact absurd hdir List.not_mem_nil

theorem showsEach_iff (hrec : opts.recursive = true) (hne : matched ≠ []) :
    ShowsEach matched (render expiry opts matched base) ↔ Listable matched base := by
  by_cases hstop : (levels matched base).Stops []
  · rw [showsEach_of_stops hrec hstop, Listable, or_iff_right hne, or_iff_left]
    rintro ⟨hnone, -⟩
    obtain ⟨m, hm, hexact⟩ := hstop
    have hfalse : isExact base m = false := hnone m hm
    exact Bool.false_ne_true (hfalse.symm.trans hexact)
  · have hnone : ∀ m ∈ matched, isExact base m = false := fun m hm =>
      Bool.eq_false_iff.mpr fun hexact => hstop ⟨m, hm, hexact⟩
    rw [Listable, or_iff_right hne, or_iff_right, and_iff_right hnone,
      ← Levels.faithful_iff (lawful matched base) hne]
    · exact ⟨faithful_of_showsEach hrec hstop, showsEach_of_faithful hrec⟩
    · rintro ⟨m, rfl, hexact, -⟩
      exact hstop ⟨m, List.mem_cons_self, hexact⟩

/-! ## `cmd_ls` -/

variable {cli : Cli} {isMatch : Text → Text → Bool} {hostArg : Option Text} {path target : Text}
  {details : List CacheEntryDetail}

/-- A message if nothing is in scope, and the levels below the base otherwise. -/
theorem exists_cmdLs (expiry : CacheEntryDetail → Option Nat) (cli : Cli)
    (isMatch : Text → Text → Bool) (opts : LsOpts) (details : List CacheEntryDetail)
    (h : lsTarget hostArg path = .ok target) :
    ∃ out, cmdLs expiry cli isMatch opts hostArg path details = .ok out ∧
      shown out =
        if matchedBy (lsRoot cli isMatch target) details = [] then []
        else
          render expiry opts (matchedBy (lsRoot cli isMatch target) details) (lsBase target) := by
  cases details with
  | nil => exact ⟨_, rfl, rfl⟩
  | cons d details =>
      rw [cmdLs, if_neg (by simp), h]
      dsimp only
      cases hmatched : matchedBy (lsRoot cli isMatch target) (d :: details) with
      | nil =>
          rw [if_pos rfl]
          dsimp only
          split
          next => exact ⟨_, rfl, rfl⟩
          next =>
            split
            next => exact ⟨_, rfl, rfl⟩
            next => exact ⟨_, rfl, rfl⟩
      | cons m matched =>
          rw [if_neg (List.cons_ne_nil m matched)]
          exact ⟨_, rfl, rfl⟩

/-- What is shown for a target, if it is. -/
def ShowsTarget (expiry : CacheEntryDetail → Option Nat) (cli : Cli)
    (isMatch : Text → Text → Bool) (opts : LsOpts) (hostArg : Option Text) (path target : Text)
    (details : List CacheEntryDetail) : Prop :=
  ∀ out, cmdLs expiry cli isMatch (deep opts) hostArg path details = .ok out →
    ShowsEach (matchedBy (lsRoot cli isMatch target) details) (shown out)

theorem showsTarget_iff (expiry : CacheEntryDetail → Option Nat) (cli : Cli)
    (isMatch : Text → Text → Bool) (opts : LsOpts) (details : List CacheEntryDetail)
    (h : lsTarget hostArg path = .ok target) :
    ShowsTarget expiry cli isMatch opts hostArg path target details ↔
      Listable (matchedBy (lsRoot cli isMatch target) details) (lsBase target) := by
  obtain ⟨out, hout, hshown⟩ := exists_cmdLs expiry cli isMatch (deep opts) details h
  have hone : ShowsTarget expiry cli isMatch opts hostArg path target details ↔
      ShowsEach (matchedBy (lsRoot cli isMatch target) details) (shown out) := by
    constructor
    · exact fun hall => hall out hout
    · intro hshows out' hout'
      rw [hout] at hout'
      cases hout'
      exact hshows
  rw [hone, hshown]
  by_cases hmatched : matchedBy (lsRoot cli isMatch target) details = []
  · rw [if_pos hmatched, hmatched]
    exact iff_of_true ⟨List.Perm.nil, fun _ hblock => (List.not_mem_nil hblock).elim⟩ (Or.inl rfl)
  · rw [if_neg hmatched]
    exact showsEach_iff rfl hmatched

/-- **Each entry once, exactly**: a recursive listing shows every entry in scope
    once, under the directory that is its path up to the last component, and no
    directory but those above entries, if and only if the entries are listable
    below the base. -/
theorem ls_shows_each_iff (expiry : CacheEntryDetail → Option Nat) (cli : Cli)
    (isMatch : Text → Text → Bool) (opts : LsOpts) (hostArg : Option Text) (path : Text)
    (details : List CacheEntryDetail) :
    (∀ target, lsTarget hostArg path = .ok target →
        ShowsTarget expiry cli isMatch opts hostArg path target details) ↔
      ∀ target, lsTarget hostArg path = .ok target →
        Listable (matchedBy (lsRoot cli isMatch target) details) (lsBase target) :=
  forall₂_congr fun _ h => showsTarget_iff expiry cli isMatch opts details h

/-- A directory, and one whose name goes on where its name ends. -/
def pools : List CacheEntryDetail :=
  [entryAt "http://h/pool/a".toList, entryAt "http://h/pool2/b".toList]

/-- Under `h/pool` there is a directory `2`. -/
theorem not_ls_shows_each_pools : ¬ ∀ target, lsTarget (some "h".toList) [] = .ok target →
    ShowsTarget (fun _ => none) plainCli (fun _ _ => false) ⟨true, .name, false⟩
      (some "h".toList) [] target pools := by
  intro h
  have hmatched : matchedBy (lsRoot plainCli (fun _ _ => false) "h".toList) pools
      = [("h/pool/a".toList, entryAt "http://h/pool/a".toList),
          ("h/pool2/b".toList, entryAt "http://h/pool2/b".toList)] := by
    decide
  have hlistable := (showsTarget_iff _ _ _ _ _ rfl).mp (h "h".toList rfl)
  rw [hmatched] at hlistable
  rcases hlistable with hnil | ⟨m, hone, -, -⟩ | ⟨-, hgood⟩
  · cases hnil
  · cases hone
  · -- at `h/pool` the second root has the name `2`
    have hgiven := hgood.names ["pool".toList]
      ⟨("h/pool/a".toList, entryAt "http://h/pool/a".toList), List.mem_cons_self,
        by decide, by decide⟩
      ("h/pool2/b".toList, entryAt "http://h/pool2/b".toList)
      (List.mem_cons_of_mem _ List.mem_cons_self) "2".toList true (by decide)
    rcases hgiven with ⟨m, hm, hover⟩ | ⟨hdir, -⟩
    · rcases List.mem_cons.mp hm with rfl | hm
      · exact absurd hover.1 (by decide)
      · rw [List.mem_singleton.mp hm] at hover
        exact absurd hover.1 (by decide)
    · exact hdir ⟨_, List.mem_cons_of_mem _ List.mem_cons_self, by decide⟩

end BlitzRecursiveListing
