import AptBlitz.CacheTree
import AptBlitz.ListingChildren

/-! # The order of the rows

    `list_all` and `list_all_detailed` have no `ORDER BY`.  What `cache tree`
    and `cache ls` show is the same for every order of the rows if and only if
    nothing that one entry overwrites comes from another: `order_free_iff`. -/

namespace BlitzRowOrder

open RustText BlitzSelectors BlitzInfo BlitzListing BlitzListingChildren BlitzCacheTree SortedMap

/-- One host, and no entry at a directory of another. -/
structure TreeSettled (entries : List TreeEntry) : Prop where
  host : ∀ e ∈ entries, ∀ e' ∈ entries, e.host = e'.host
  above : ∀ e ∈ entries, ∀ e' ∈ entries, ¬ Above (comps e.path) (comps e'.path)

/-- A name below the base is a directory for all entries or a file for all, and
    two entries that are one file are the same to look at. -/
structure LevelSettled (expiry : CacheEntryDetail → Option Nat) (matched : List Match)
    (base : Text) : Prop where
  kind : ∀ m ∈ matched, ∀ m' ∈ matched, ∀ name isDir isDir', gives base m = some (name, isDir) →
    gives base m' = some (name, isDir') → isDir = isDir'
  file : ∀ m ∈ matched, ∀ m' ∈ matched, ∀ name, gives base m = some (name, false) →
    gives base m' = some (name, false) → fileItem expiry name m.2 = fileItem expiry name m'.2
  exact : ∀ m ∈ matched, ∀ m' ∈ matched, isExact base m = true → isExact base m' = true →
    aloneItem expiry m.2 = aloneItem expiry m'.2

section Commands

variable (expiry : CacheEntryDetail → Option Nat) (cli : Cli) (isMatch : Text → Text → Bool)

/-- The items of a base, and that of the base itself where it is an entry. -/
def shown (matched : List Match) (base : Text) : List LsItem × Option LsItem :=
  let (items, exact) := collectChildren expiry matched base
  (items, exact.map (aloneItem expiry))

/-- Whatever the order of the rows: the tree below a path of a host, and the
    items of every base of a target. -/
def OrderFree (host pathFilter target : Text) (details : List CacheEntryDetail) : Prop :=
  ∀ details', details.Perm details' →
    cmdTree cli host pathFilter details = cmdTree cli host pathFilter details' ∧
      ∀ base, shown expiry (matchedBy (lsRoot cli isMatch target) details) base
        = shown expiry (matchedBy (lsRoot cli isMatch target) details') base

end Commands

variable {expiry : CacheEntryDetail → Option Nat} {cli : Cli} {isMatch : Text → Text → Bool}
  {host pathFilter target base name : Text} {details details' rest : List CacheEntryDetail}
  {d d' x y : CacheEntryDetail} {matched matched' : List Match} {m m' : Match} {isDir : Bool}
  {item : LsItem} {entries entries' : List TreeEntry} {e e' : TreeEntry}

/-! ## Settled rows can come in any order -/

/-- A settled list makes the same tree in any order. -/
theorem treeOf_perm (h : TreeSettled entries) (hperm : entries.Perm entries') :
    treeOf entries = treeOf entries' := by
  cases entries with
  | nil => rw [hperm.nil_eq]
  | cons e es =>
      cases entries' with
      | nil => exact absurd hperm.eq_nil (List.cons_ne_nil e es)
      | cons e' es' =>
          have hhost : e.host = e'.host :=
            h.host e List.mem_cons_self e' (hperm.mem_iff.mpr List.mem_cons_self)
          show some (insertAll (.new e.host true) (e :: es))
            = some (insertAll (.new e'.host true) (e' :: es'))
          rw [hhost, insertAll_perm h.above hperm]

/-- Two entries below a directory may come in any order. -/
theorem add_comm_dir (item : LsItem) (d d' : CacheEntryDetail) :
    (item.add expiry d true).add expiry d' true = (item.add expiry d' true).add expiry d true := by
  have hsize : ((item.size + d.size) % 2 ^ 64 + d'.size) % 2 ^ 64
      = ((item.size + d'.size) % 2 ^ 64 + d.size) % 2 ^ 64 := by
    rw [Nat.mod_add_mod, Nat.mod_add_mod, Nat.add_right_comm]
  simp only [LsItem.add, if_true, hsize, max_right_comm]

/-- Two entries of a file that look the same may come in any order. -/
theorem add_comm_file (h : fileItem expiry name d = fileItem expiry name d') (item : LsItem) :
    (item.add expiry d false).add expiry d' false
      = (item.add expiry d' false).add expiry d false := by
  obtain ⟨-, -, hsize, hcached, haccess, hexpiry, -⟩ := LsItem.mk.inj h
  simp only [LsItem.add, Bool.false_eq_true, if_false, hsize, hcached, haccess, hexpiry]

/-- A settled level has the same children in any order. -/
theorem children_perm (h : LevelSettled expiry matched base) (hperm : matched.Perm matched') :
    children expiry base matched = children expiry base matched' := by
  refine collect_perm ?_ hperm []
  intro m hm m' hm' k f g hf hg o
  obtain ⟨⟨name, isDir⟩, hgives, hchange⟩ := Option.map_eq_some_iff.mp hf
  obtain ⟨⟨name', isDir'⟩, hgives', hchange'⟩ := Option.map_eq_some_iff.mp hg
  cases hchange
  cases hchange'
  have hkind := h.kind m hm m' hm' name isDir isDir' hgives hgives'
  subst hkind
  show ((o.getD (.start name isDir)).add expiry m.2 isDir).add expiry m'.2 isDir
    = ((o.getD (.start name isDir)).add expiry m'.2 isDir).add expiry m.2 isDir
  cases isDir with
  | true => exact add_comm_dir _ m.2 m'.2
  | false => exact add_comm_file (h.file m hm m' hm' name hgives hgives') _

/-- The last of some, if they are all the same to look at. -/
theorem map_getLast?_perm {α β : Type} {l l' : List α} (f : α → β)
    (h : ∀ a ∈ l, ∀ a' ∈ l, f a = f a') (hperm : l.Perm l') :
    l.getLast?.map f = l'.getLast?.map f := by
  cases hlast : l.getLast? with
  | none =>
      rw [List.getLast?_eq_none_iff] at hlast
      rw [hlast] at hperm
      rw [← hperm.nil_eq]
      rfl
  | some a =>
      cases hlast' : l'.getLast? with
      | none =>
          rw [List.getLast?_eq_none_iff] at hlast'
          rw [hlast'] at hperm
          rw [hperm.eq_nil] at hlast
          cases hlast
      | some a' =>
          exact congrArg some (h a (List.mem_of_getLast? hlast) a'
            (hperm.mem_iff.mpr (List.mem_of_getLast? hlast')))

/-- What a level shows. -/
theorem shown_eq (base : Text) (matched : List Match) : shown expiry matched base
    = ((children expiry base matched).map Prod.snd,
        ((matched.filter (isExact base)).getLast?).map fun m => aloneItem expiry m.2) := by
  refine Prod.ext (items_eq base matched) ?_
  show (collectChildren expiry matched base).2.map (aloneItem expiry) = _
  rw [exact_eq, Option.map_map]
  rfl

/-- A settled level shows the same in any order. -/
theorem shown_perm (h : LevelSettled expiry matched base) (hperm : matched.Perm matched') :
    shown expiry matched base = shown expiry matched' base := by
  rw [shown_eq, shown_eq, children_perm h hperm]
  congr 1
  refine map_getLast?_perm _ ?_ (hperm.filter (isExact base))
  intro m hm m' hm'
  obtain ⟨hmem, hexact⟩ := List.mem_filter.mp hm
  obtain ⟨hmem', hexact'⟩ := List.mem_filter.mp hm'
  exact h.exact m hmem m' hmem' hexact hexact'

/-- What is settled is free of the order. -/
theorem orderFree_of_settled
    (htree : TreeSettled (details.filterMap (treeEntry cli host pathFilter)))
    (hlevels : ∀ base, LevelSettled expiry (matchedBy (lsRoot cli isMatch target) details) base) :
    OrderFree expiry cli isMatch host pathFilter target details := by
  intro details' hperm
  exact ⟨treeOf_perm htree (hperm.filterMap _),
    fun base => shown_perm (hlevels base) (hperm.filterMap _)⟩

/-! ## Other rows cannot -/

/-- Two rows can be the last ones, in either order. -/
theorem last_two (hx : x ∈ details) (hy : y ∈ details) (hne : x ≠ y) :
    ∃ rest, details.Perm (rest ++ [x, y]) ∧ details.Perm (rest ++ [y, x]) := by
  have hmem : y ∈ details.erase x := (List.mem_erase_of_ne hne.symm).mpr hy
  have hperm : details.Perm (x :: y :: (details.erase x).erase y) :=
    (List.perm_cons_erase hx).trans ((List.perm_cons_erase hmem).cons x)
  have hbehind : ∀ two rest : List CacheEntryDetail, (two ++ rest).Perm (rest ++ two) :=
    fun two rest => List.perm_append_comm
  refine ⟨(details.erase x).erase y, ?_, ?_⟩
  · exact hperm.trans (hbehind [x, y] _)
  · exact (hperm.trans (List.Perm.swap y x _)).trans (hbehind [y, x] _)

/-- The last two rows and what is made of them. -/
theorem filterMap_last_two {β : Type} {f : CacheEntryDetail → Option β} {a b : β}
    (ha : f x = some a) (hb : f y = some b) (rest : List CacheEntryDetail) :
    (rest ++ [x, y]).filterMap f = rest.filterMap f ++ [a] ++ [b] := by
  rw [List.filterMap_append, List.filterMap_cons_some ha, List.filterMap_cons_some hb,
    List.filterMap_nil, List.append_assoc]
  rfl

/-- What two different rows give can come last in either order. -/
theorem exists_last_two {β : Type} {f : CacheEntryDetail → Option β} {a b : β}
    (ha : a ∈ details.filterMap f) (hb : b ∈ details.filterMap f) (hne : a ≠ b) :
    ∃ rest details₁ details₂, details.Perm details₁ ∧ details.Perm details₂ ∧
      details₁.filterMap f = rest ++ [a] ++ [b] ∧ details₂.filterMap f = rest ++ [b] ++ [a] := by
  obtain ⟨x, hx, hxa⟩ := List.mem_filterMap.mp ha
  obtain ⟨y, hy, hyb⟩ := List.mem_filterMap.mp hb
  have hxy : x ≠ y := by
    intro heq
    rw [heq] at hxa
    exact hne (Option.some.inj (hxa.symm.trans hyb))
  obtain ⟨rest, hperm₁, hperm₂⟩ := last_two hx hy hxy
  exact ⟨rest.filterMap f, _, _, hperm₁, hperm₂, filterMap_last_two hxa hyb rest,
    filterMap_last_two hyb hxa rest⟩

/-- All entries of a tree that is free of the order have one host. -/
theorem host_of_orderFree (h : OrderFree expiry cli isMatch host pathFilter target details)
    (he : e ∈ details.filterMap (treeEntry cli host pathFilter))
    (he' : e' ∈ details.filterMap (treeEntry cli host pathFilter)) : e.host = e'.host := by
  have hfirst : ∀ e ∈ details.filterMap (treeEntry cli host pathFilter),
      (cmdTree cli host pathFilter details).map TreeNode.name = some e.host := by
    intro e he
    obtain ⟨x, hx, hxe⟩ := List.mem_filterMap.mp he
    rw [(h _ (List.perm_cons_erase hx)).1, cmdTree, List.filterMap_cons_some hxe]
    exact congrArg some (name_insertAll _ _)
  exact Option.some.inj ((hfirst e he).symm.trans (hfirst e' he'))

theorem ordered_treeOf {root : TreeNode} (h : treeOf entries = some root) : Ordered root := by
  obtain ⟨first, -, rfl⟩ := Option.map_eq_some_iff.mp h
  exact ordered_insertAll (ordered_new _ _) entries

theorem treeOf_concat (hne : entries ≠ []) (e : TreeEntry) :
    treeOf (entries ++ [e]) = (treeOf entries).map fun root => root.insert e.path e.size := by
  cases entries with
  | nil => exact absurd rfl hne
  | cons first rest => exact congrArg some (insertAll_concat _ (first :: rest) e)

/-- An entry that comes last makes its node a file. -/
theorem dirAt_last_self (hne : entries ≠ []) (he : comps e.path ≠ []) :
    (treeOf (entries ++ [e])).bind (dirAt (comps e.path)) = some false := by
  rw [treeOf_concat hne]
  cases hroot : treeOf entries with
  | none => exact absurd (Option.map_eq_none_iff.mp hroot) (by simpa using hne)
  | some root => exact dirAt_self (ordered_treeOf hroot) he

/-- An entry below that comes last makes it a directory. -/
theorem dirAt_last_above (hne : entries ≠ []) (h : Above (comps e.path) (comps e'.path)) :
    (treeOf (entries ++ [e'])).bind (dirAt (comps e.path)) = some true := by
  rw [treeOf_concat hne]
  cases hroot : treeOf entries with
  | none => exact absurd (Option.map_eq_none_iff.mp hroot) (by simpa using hne)
  | some root => exact dirAt_above (ordered_treeOf hroot) h

/-- An entry at a directory of another is a directory in one order, and a file in
    the other. -/
theorem not_above_of_orderFree (h : OrderFree expiry cli isMatch host pathFilter target details)
    (he : e ∈ details.filterMap (treeEntry cli host pathFilter))
    (he' : e' ∈ details.filterMap (treeEntry cli host pathFilter)) :
    ¬ Above (comps e.path) (comps e'.path) := by
  intro habove
  have hne : e ≠ e' := by
    rintro rfl
    exact habove.2.2 rfl
  obtain ⟨rest, details₁, details₂, hperm₁, hperm₂, hlast₁, hlast₂⟩ := exists_last_two he he' hne
  have htree : treeOf (rest ++ [e] ++ [e']) = treeOf (rest ++ [e'] ++ [e]) := by
    rw [← hlast₁, ← hlast₂]
    exact (h details₁ hperm₁).1.symm.trans (h details₂ hperm₂).1
  have hsome : ∀ e, rest ++ [e] ≠ [] :=
    fun e => List.append_ne_nil_of_right_ne_nil rest (List.cons_ne_nil e [])
  have hdir := dirAt_last_above (hsome e) habove
  have hfile := dirAt_last_self (hsome e') habove.1
  rw [htree, hfile] at hdir
  cases hdir

/-- What is shown for two roots that come last in either order. -/
theorem shown_last_two (h : OrderFree expiry cli isMatch host pathFilter target details)
    (hm : m ∈ matchedBy (lsRoot cli isMatch target) details)
    (hm' : m' ∈ matchedBy (lsRoot cli isMatch target) details) (hne : m ≠ m') (base : Text) :
    ∃ rest, shown expiry (rest ++ [m] ++ [m']) base = shown expiry (rest ++ [m'] ++ [m]) base := by
  obtain ⟨rest, details₁, details₂, hperm₁, hperm₂, hlast₁, hlast₂⟩ := exists_last_two hm hm' hne
  refine ⟨rest, ?_⟩
  have h₁ := (h details₁ hperm₁).2 base
  have h₂ := (h details₂ hperm₂).2 base
  rw [matchedBy, matchedBy, hlast₁] at h₁
  rw [matchedBy, matchedBy, hlast₂] at h₂
  exact h₁.symm.trans h₂

theorem children_of_shown (h : shown expiry matched base = shown expiry matched' base) :
    children expiry base matched = children expiry base matched' := by
  have hitems : (shown expiry matched base).1 = (shown expiry matched' base).1 := by
    rw [h]
  exact children_of_items hitems

/-- The entry that comes last in its child. -/
theorem get_concat_last (h : gives base m = some (name, isDir)) :
    get name (children expiry base (matched ++ [m]))
      = some (((get name (children expiry base matched)).getD (.start name isDir)).add expiry m.2
          isDir) := by
  rw [get_concat_gives h, if_pos rfl]

/-- A file counts for one, wherever it comes; a directory for one more. -/
theorem kind_of_orderFree (h : OrderFree expiry cli isMatch host pathFilter target details)
    (hm : m ∈ matchedBy (lsRoot cli isMatch target) details)
    (hm' : m' ∈ matchedBy (lsRoot cli isMatch target) details)
    (hdir : gives base m = some (name, true)) : gives base m' ≠ some (name, false) := by
  intro hfile
  have hne : m ≠ m' := by
    rintro rfl
    rw [hdir] at hfile
    cases hfile
  obtain ⟨rest, hshown⟩ := shown_last_two h hm hm' hne base
  have hitem := congrArg (get name) (children_of_shown hshown)
  rw [get_concat_last hfile, get_concat_last hdir, get_concat_last hdir, get_concat_last hfile]
    at hitem
  have hcount := congrArg LsItem.fileCount (Option.some.inj hitem)
  exact absurd hcount (by simp [LsItem.add])

/-- A file's item is what its entry makes of any. -/
theorem fileItem_add (item : LsItem) (d : CacheEntryDetail) (name : Text) :
    fileItem expiry name d = { item.add expiry d false with name := name, isDir := false } := rfl

/-- The last file of a name is the one that is shown. -/
theorem file_of_orderFree (h : OrderFree expiry cli isMatch host pathFilter target details)
    (hm : m ∈ matchedBy (lsRoot cli isMatch target) details)
    (hm' : m' ∈ matchedBy (lsRoot cli isMatch target) details)
    (hfile : gives base m = some (name, false)) (hfile' : gives base m' = some (name, false)) :
    fileItem expiry name m.2 = fileItem expiry name m'.2 := by
  by_cases hne : m = m'
  · rw [hne]
  · obtain ⟨rest, hshown⟩ := shown_last_two h hm hm' hne base
    have hitem := congrArg (get name) (children_of_shown hshown)
    rw [get_concat_last hfile', get_concat_last hfile, get_concat_last hfile,
      get_concat_last hfile'] at hitem
    have hlast := Option.some.inj hitem
    rw [fileItem_add _ m.2 name, ← hlast, ← fileItem_add]

/-- The last exact entry is the one that is shown. -/
theorem exact_of_orderFree (h : OrderFree expiry cli isMatch host pathFilter target details)
    (hm : m ∈ matchedBy (lsRoot cli isMatch target) details)
    (hm' : m' ∈ matchedBy (lsRoot cli isMatch target) details)
    (hexact : isExact base m = true) (hexact' : isExact base m' = true) :
    aloneItem expiry m.2 = aloneItem expiry m'.2 := by
  by_cases hne : m = m'
  · rw [hne]
  · obtain ⟨rest, hshown⟩ := shown_last_two h hm hm' hne base
    have hlast : ∀ (matched : List Match) (m : Match), isExact base m = true →
        (shown expiry (matched ++ [m]) base).2 = some (aloneItem expiry m.2) := by
      intro matched m hexact
      rw [shown_eq, List.filter_append, List.filter_cons_of_pos hexact, List.filter_nil,
        List.getLast?_concat]
      rfl
    have halone := congrArg Prod.snd hshown
    rw [hlast _ m' hexact', hlast _ m hexact] at halone
    exact (Option.some.inj halone).symm

/-- **In any order, exactly**: what `cache tree` and `cache ls` show does not
    depend on the order of the rows if and only if the entries of the tree have
    one host and none is at a directory of another, and no two roots make a name
    a directory and a file, or one file with different contents. -/
theorem order_free_iff (expiry : CacheEntryDetail → Option Nat) (cli : Cli)
    (isMatch : Text → Text → Bool) (host pathFilter target : Text)
    (details : List CacheEntryDetail) :
    OrderFree expiry cli isMatch host pathFilter target details ↔
      TreeSettled (details.filterMap (treeEntry cli host pathFilter)) ∧
        ∀ base, LevelSettled expiry (matchedBy (lsRoot cli isMatch target) details) base := by
  constructor
  · intro h
    refine ⟨⟨fun e he e' he' => host_of_orderFree h he he',
      fun e he e' he' => not_above_of_orderFree h he he'⟩, fun base => ⟨?_, ?_, ?_⟩⟩
    · intro m hm m' hm' name isDir isDir' hgives hgives'
      cases isDir with
      | true =>
          cases isDir' with
          | true => rfl
          | false => exact absurd hgives' (kind_of_orderFree h hm hm' hgives)
      | false =>
          cases isDir' with
          | true => exact absurd hgives (kind_of_orderFree h hm' hm hgives')
          | false => rfl
    · exact fun m hm m' hm' name hfile hfile' => file_of_orderFree h hm hm' hfile hfile'
    · exact fun m hm m' hm' hexact hexact' => exact_of_orderFree h hm hm' hexact hexact'
  · rintro ⟨htree, hlevels⟩
    exact orderFree_of_settled htree hlevels

/-- A file, and an entry below its path. -/
def fileAndBelow : List CacheEntryDetail :=
  [entryAt "http://h/a".toList, entryAt "http://h/a/b".toList]

/-- The node of `a` is a directory if `a/b` comes last, and a file otherwise. -/
theorem not_order_free_fileAndBelow :
    ¬ OrderFree (fun _ => none) plainCli (fun _ _ => false) "h".toList [] "h".toList
      fileAndBelow := by
  intro h
  have he : ⟨"h".toList, "/a".toList, 1⟩ ∈
      fileAndBelow.filterMap (treeEntry plainCli "h".toList []) := by
    decide
  have he' : ⟨"h".toList, "/a/b".toList, 1⟩ ∈
      fileAndBelow.filterMap (treeEntry plainCli "h".toList []) := by
    decide
  exact not_above_of_orderFree h he he' ⟨by decide, by decide, by decide⟩

end BlitzRowOrder
