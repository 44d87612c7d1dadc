import AptBlitz.Listing

/-! # The children of a base

    What `collect_children` makes of a list of roots, name by name: an entry
    gives the base itself, a child of it or nothing (`gives`), the last entry
    that is the base is the exact one (`exact_eq`), and the item of a name is
    what the entries that give the name have made of it (`get_children`). -/

namespace BlitzListingChildren

open RustText BlitzInfo BlitzListing SortedMap

/-- A root and its entry. -/
abbrev Match := Text × CacheEntryDetail

/-- The child of the base that an entry gives, if it does. -/
def gives (base : Text) (m : Match) : Option (Text × Bool) :=
  match relative base m.1 with
  | none => none
  | some [] => none
  | some (c :: rel) => some (child (c :: rel))

/-- The entry is the base itself. -/
def isExact (base : Text) (m : Match) : Bool := relative base m.1 == some []

/-- The entry gives a file of the name. -/
def isFile (base name : Text) (m : Match) : Bool := gives base m == some (name, false)

/-- The last entry that does. -/
def fileOf (matched : List Match) (base name : Text) : Option Match :=
  (matched.filter (isFile base name)).getLast?

variable (expiry : CacheEntryDetail → Option Nat)

/-- What the item of a file holds. -/
def fileItem (name : Text) (d : CacheEntryDetail) : LsItem :=
  ⟨name, false, d.size, d.cachedAt, d.lastAccess, expiry d, 1⟩

/-- What an entry does to the item of its child. -/
def change (base : Text) (m : Match) : Option (Text × (Option LsItem → LsItem)) :=
  (gives base m).map fun c =>
    (c.1, fun item => (item.getD (.start c.1 c.2)).add expiry m.2 c.2)

/-- The children of the base, by their names. -/
def children (base : Text) (matched : List Match) : List (Text × LsItem) :=
  collect (change expiry base) [] matched

variable {expiry} {base name : Text} {matched : List Match} {m m' : Match} {d : CacheEntryDetail}
  {isDir : Bool} {item : LsItem} {acc : List (Text × LsItem) × Option CacheEntryDetail}

/-- The entry that the base names itself. -/
theorem collectOne_exact (h : isExact base m = true) :
    collectOne expiry base acc m = (acc.1, some m.2) := by
  have hrel : relative base m.1 = some [] := beq_iff_eq.mp h
  rw [collectOne, hrel]

/-- An entry below the base. -/
theorem collectOne_gives (h : gives base m = some (name, isDir)) :
    collectOne expiry base acc m
      = (upsert (fun item => (item.getD (.start name isDir)).add expiry m.2 isDir) name acc.1,
          acc.2) := by
  rw [gives] at h
  rw [collectOne]
  cases hrel : relative base m.1 with
  | none =>
      rw [hrel] at h
      cases h
  | some rel =>
      cases rel with
      | nil =>
          rw [hrel] at h
          cases h
      | cons c rel =>
          rw [hrel] at h
          have hchild : child (c :: rel) = (name, isDir) := Option.some.inj h
          simp only [hchild]

/-- An entry that has nothing to do with the base. -/
theorem collectOne_none (h : gives base m = none) (hexact : isExact base m = false) :
    collectOne expiry base acc m = acc := by
  rw [gives] at h
  rw [isExact] at hexact
  rw [collectOne]
  cases hrel : relative base m.1 with
  | none => rfl
  | some rel =>
      cases rel with
      | nil =>
          rw [hrel] at hexact
          cases hexact
      | cons c rel =>
          rw [hrel] at h
          cases h

theorem gives_exact (h : isExact base m = true) : gives base m = none := by
  have hrel : relative base m.1 = some [] := beq_iff_eq.mp h
  rw [gives, hrel]

/-- One entry more below the base. -/
theorem children_concat_gives (h : gives base m = some (name, isDir)) :
    children expiry base (matched ++ [m])
      = upsert (fun item => (item.getD (.start name isDir)).add expiry m.2 isDir) name
          (children expiry base matched) := by
  refine collect_concat_some ?_ [] matched
  rw [change, h]
  rfl

theorem children_concat_none (h : gives base m = none) :
    children expiry base (matched ++ [m]) = children expiry base matched := by
  refine collect_concat_none ?_ [] matched
  rw [change, h]
  rfl

/-- The loop keeps the children and the last exact entry. -/
theorem foldl_collectOne (expiry : CacheEntryDetail → Option Nat) (base : Text)
    (matched : List Match) :
    matched.foldl (collectOne expiry base) ([], none)
      = (children expiry base matched, ((matched.filter (isExact base)).getLast?).map Prod.snd) := by
  induction matched using List.reverseRecOn with
  | nil => rfl
  | append_singleton matched m ih =>
      rw [List.foldl_append, ih, List.foldl_cons, List.foldl_nil, List.filter_append]
      cases hexact : isExact base m with
      | true =>
          rw [collectOne_exact hexact, children_concat_none (gives_exact hexact),
            List.filter_cons_of_pos hexact, List.filter_nil, List.getLast?_concat]
          rfl
      | false =>
          rw [List.filter_cons_of_neg (by rw [hexact]; exact Bool.false_ne_true), List.filter_nil,
            List.append_nil]
          cases hgives : gives base m with
          | none => rw [collectOne_none hgives hexact, children_concat_none hgives]
          | some c => rw [collectOne_gives hgives, children_concat_gives hgives]

/-- The items are the children, in order. -/
theorem items_eq (base : Text) (matched : List Match) :
    (collectChildren expiry matched base).1 = (children expiry base matched).map Prod.snd := by
  rw [collectChildren, foldl_collectOne]

/-- The exact entry is the last one that is the base. -/
theorem exact_eq (base : Text) (matched : List Match) :
    (collectChildren expiry matched base).2
      = ((matched.filter (isExact base)).getLast?).map Prod.snd := by
  rw [collectChildren, foldl_collectOne]

/-- The children are in order of their names. -/
theorem sorted_children (base : Text) (matched : List Match) :
    Sorted (children expiry base matched) := Sorted.collect List.Pairwise.nil _ _

/-- The item of a name, after one more entry that gives a child. -/
theorem get_concat_gives (h : gives base m = some (name, isDir)) (k : Text) :
    get k (children expiry base (matched ++ [m]))
      = if name = k then
          some (((get k (children expiry base matched)).getD (.start name isDir)).add expiry m.2
            isDir)
        else get k (children expiry base matched) := by
  rw [children_concat_gives h, get_upsert (sorted_children base matched)]
  by_cases hk : name = k
  · rw [if_pos hk, if_pos hk, hk]
  · rw [if_neg hk, if_neg hk]

/-! ## Items -/

@[simp] theorem add_name : (item.add expiry d isDir).name = item.name := by
  rw [LsItem.add]
  split <;> rfl

@[simp] theorem add_isDir : (item.add expiry d isDir).isDir = (item.isDir || isDir) := by
  rw [LsItem.add]
  split <;> rfl

/-- An item has the name it stands under. -/
theorem name_of_get {k : Text} (h : get k (children expiry base matched) = some item) :
    item.name = k := by
  induction matched using List.reverseRecOn generalizing item with
  | nil => cases h
  | append_singleton matched m ih =>
      cases hgives : gives base m with
      | none =>
          rw [children_concat_none hgives] at h
          exact ih h
      | some c =>
          rw [get_concat_gives hgives] at h
          split at h
          next hk =>
            cases h
            rw [add_name]
            cases hget : get k (children expiry base matched) with
            | none => exact hk
            | some item => exact ih hget
          next => exact ih h

/-- What one entry is enough for: the item of a name is so if any entry that gives
    the name makes it so. -/
theorem get_any_iff {k : Text} {p : LsItem → Bool} {q : Bool → Bool}
    (hstart : ∀ name isDir, p (.start name isDir) = q isDir)
    (hadd : ∀ item d isDir, p (LsItem.add expiry d isDir item) = (p item || q isDir)) :
    (get k (children expiry base matched)).any p = true ↔
      ∃ m ∈ matched, ∃ isDir, gives base m = some (k, isDir) ∧ q isDir = true := by
  induction matched using List.reverseRecOn with
  | nil => simp [children, collect, SortedMap.get]
  | append_singleton matched m ih =>
      simp only [List.mem_append, List.mem_singleton, or_and_right, exists_or, exists_eq_left]
      cases hgives : gives base m with
      | none =>
          rw [children_concat_none hgives, ih]
          simp
      | some c =>
          obtain ⟨name, isDir⟩ := c
          rw [get_concat_gives hgives]
          by_cases hk : name = k
          · subst hk
            have hlast : q isDir = true ↔
                ∃ isDir', some (name, isDir) = some (name, isDir') ∧ q isDir' = true := by simp
            rw [if_pos rfl, Option.any_some, hadd, Bool.or_eq_true, ← ih, ← hlast]
            cases get name (children expiry base matched) with
            | none => simp [hstart]
            | some item => simp
          · rw [if_neg hk, ih, or_iff_left]
            rintro ⟨isDir', heq, -⟩
            exact hk (congrArg Prod.fst (Option.some.inj heq))

/-- A name has an item if any entry gives it. -/
theorem get_isSome_iff {k : Text} : (get k (children expiry base matched)).isSome = true ↔
    ∃ m ∈ matched, ∃ isDir, gives base m = some (k, isDir) := by
  have hsome : (get k (children expiry base matched)).isSome
      = (get k (children expiry base matched)).any fun _ => true := by
    cases get k (children expiry base matched) with
    | none => rfl
    | some item => rfl
  rw [hsome, get_any_iff (fun _ _ => rfl) (fun _ _ _ => rfl)]
  simp

/-- The item is a directory if any entry is below it. -/
theorem get_isDir_iff {k : Text} :
    (get k (children expiry base matched)).any LsItem.isDir = true ↔
      ∃ m ∈ matched, gives base m = some (k, true) := by
  rw [get_any_iff (fun _ _ => rfl) (fun _ _ _ => add_isDir)]
  simp

/-- The items of the base are those of the names that are given. -/
theorem mem_items_iff : item ∈ (collectChildren expiry matched base).1 ↔
    get item.name (children expiry base matched) = some item := by
  rw [items_eq, List.mem_map]
  constructor
  · rintro ⟨p, hp, rfl⟩
    have hget := (mem_iff_get (sorted_children base matched)).mp hp
    rw [name_of_get hget, hget]
  · intro hget
    exact ⟨(item.name, item), (mem_iff_get (sorted_children base matched)).mpr hget, rfl⟩

/-- The names of the items are their keys. -/
theorem names_eq (expiry : CacheEntryDetail → Option Nat) (base : Text) (matched : List Match) :
    (collectChildren expiry matched base).1.map LsItem.name
      = (children expiry base matched).map Prod.fst := by
  rw [items_eq, List.map_map]
  refine List.map_congr_left fun p hp => ?_
  exact name_of_get ((mem_iff_get (sorted_children base matched)).mp hp)

theorem nodup_names (expiry : CacheEntryDetail → Option Nat) (base : Text) (matched : List Match) :
    ((collectChildren expiry matched base).1.map LsItem.name).Nodup := by
  rw [names_eq]
  exact nodup_keys (sorted_children base matched)

/-- Items and children say the same. -/
theorem children_of_items {matched' : List Match}
    (h : (collectChildren expiry matched base).1 = (collectChildren expiry matched' base).1) :
    children expiry base matched = children expiry base matched' := by
  have hnamed : ∀ matched : List Match, children expiry base matched
      = (collectChildren expiry matched base).1.map fun item => (item.name, item) := by
    intro matched
    rw [items_eq, List.map_map]
    symm
    refine (List.map_congr_left fun p hp => ?_).trans (List.map_id _)
    have hget := (mem_iff_get (sorted_children base matched)).mp hp
    exact Prod.ext (name_of_get hget) rfl
  rw [hnamed, h, ← hnamed]

/-! ## Files -/

end BlitzListingChildren
