import AptBlitz.CacheTree

/-! # What the tree adds up

    An insertion adds a file and its size to every node on its way, from the
    root to the node of its path (`totals_insertComps`).  So a node has the
    totals of the entries whose components begin with its own, however they
    repeat or run into each other, with the size as `u64` adds it up:
    `totals_exact`. -/

namespace BlitzTreeTotals

open RustText BlitzListing BlitzCacheTree BlitzCacheTree.TreeNode SortedMap

/-- What a node says of all that is in it. -/
structure Totals where
  size : Nat
  fileCount : Nat
  deriving DecidableEq

/-- Nothing. -/
def Totals.zero : Totals := ⟨0, 0⟩

/-- `size += ..` and `file_count += 1` -/
def Totals.add (totals : Totals) (size : Nat) : Totals :=
  ⟨(totals.size + size) % 2 ^ 64, totals.fileCount + 1⟩

/-- The totals of a node. -/
def totalsOf (node : TreeNode) : Totals := ⟨node.size, node.fileCount⟩

/-- The node of a path, if there is one. -/
def nodeAt : List Text → TreeNode → Option TreeNode
  | [], node => some node
  | first :: rest, node => (get first node.children).bind (nodeAt rest)

/-- The totals of the node at a path. -/
def totalsAt (q : List Text) (node : TreeNode) : Option Totals := (nodeAt q node).map totalsOf

/-- The entries whose components begin with those of a path. -/
def below (q : List Text) (entries : List TreeEntry) : List TreeEntry :=
  entries.filter fun e => q.isPrefixOf (comps e.path)

/-- What the entries take, in the integers. -/
def sizes (entries : List TreeEntry) : Nat := (entries.map TreeEntry.size).sum

/-- The totals of entries, with the sum of the sizes as a `u64` has it. -/
def sumUp (entries : List TreeEntry) : Totals := ⟨sizes entries % 2 ^ 64, entries.length⟩

variable {q a rest : List Text} {first : Text} {size : Nat} {node : TreeNode}
  {entries : List TreeEntry} {e : TreeEntry}

/-! ## One insertion -/

/-- A file that becomes a directory keeps its totals. -/
theorem totalsOf_setDir (isDir : Bool) (node : TreeNode) :
    totalsOf (node.setDir isDir) = totalsOf node := by
  obtain ⟨name, isDir', n, fileCount, children⟩ := node
  rfl

/-- The root of an insertion counts it, whatever its path. -/
theorem totalsOf_insertComps (size : Nat) (a : List Text) (node : TreeNode) :
    totalsOf (node.insertComps size a) = (totalsOf node).add size := by
  obtain ⟨name, isDir, n, fileCount, children⟩ := node
  cases a with
  | nil => rfl
  | cons first rest =>
      rw [insertComps_cons]
      rfl

/-- A file that becomes a directory keeps its children. -/
theorem children_setDir (isDir : Bool) (node : TreeNode) :
    (node.setDir isDir).children = node.children := by
  obtain ⟨name, isDir', n, fileCount, children⟩ := node
  rfl

theorem totalsAt_nil (node : TreeNode) : totalsAt [] node = some (totalsOf node) := rfl

theorem totalsAt_cons (first : Text) (rest : List Text) (node : TreeNode) :
    totalsAt (first :: rest) node = (get first node.children).bind (totalsAt rest) := by
  rw [totalsAt, nodeAt, Option.map_bind]
  rfl

/-- A file that becomes a directory keeps all totals. -/
theorem totalsAt_setDir (isDir : Bool) (q : List Text) (node : TreeNode) :
    totalsAt q (node.setDir isDir) = totalsAt q node := by
  cases q with
  | nil => rw [totalsAt_nil, totalsAt_nil, totalsOf_setDir]
  | cons first rest => rw [totalsAt_cons, totalsAt_cons, children_setDir]

/-- A child that is not there has nothing below it. -/
theorem totalsAt_childOf (h : q ≠ []) (first : Text) (node : TreeNode) :
    totalsAt q (childOf first node) = totalsAt (first :: q) node := by
  rw [totalsAt_cons, childOf]
  cases get first node.children with
  | some child => rfl
  | none =>
      cases q with
      | nil => exact absurd rfl h
      | cons second rest => rfl

/-- And it has not counted anything. -/
theorem getD_totalsAt_childOf (q : List Text) (first : Text) (node : TreeNode) :
    (totalsAt q (childOf first node)).getD .zero = (totalsAt (first :: q) node).getD .zero := by
  cases q with
  | cons second rest => rw [totalsAt_childOf (List.cons_ne_nil _ _)]
  | nil =>
      rw [totalsAt_cons, childOf]
      cases get first node.children with
      | some child => rfl
      | none => rfl

/-- **One insertion** adds to the nodes on its way, and to no others. -/
theorem totalsAt_insertComps (h : Ordered node) (size : Nat) (q a : List Text) :
    totalsAt q (node.insertComps size a)
      = if q <+: a then some (((totalsAt q node).getD .zero).add size) else totalsAt q node := by
  induction q generalizing node a with
  | nil =>
      rw [if_pos List.nil_prefix, totalsAt_nil, totalsAt_nil, totalsOf_insertComps]
      rfl
  | cons first q ih =>
      cases a with
      | nil =>
          rw [if_neg (by simp), totalsAt_cons, totalsAt_cons]
          obtain ⟨name, isDir, n, fileCount, children⟩ := node
          rfl
      | cons first' rest =>
          rw [totalsAt_cons, get_children_insertComps h]
          by_cases hfirst : first' = first
          · subst hfirst
            rw [if_pos rfl, Option.bind_some, ih ((h.childOf first').setDir _), totalsAt_setDir,
              getD_totalsAt_childOf]
            by_cases hrest : q <+: rest
            · rw [if_pos hrest, if_pos (List.cons_prefix_cons.mpr ⟨rfl, hrest⟩)]
            · have hq : q ≠ [] := fun heq => hrest (heq ▸ List.nil_prefix)
              rw [if_neg hrest, if_neg fun hp => hrest (List.cons_prefix_cons.mp hp).2,
                totalsAt_childOf hq]
          · rw [if_neg hfirst, ← totalsAt_cons,
              if_neg fun hp => hfirst (List.cons_prefix_cons.mp hp).1.symm]

/-! ## All insertions -/

theorem below_nil (entries : List TreeEntry) : below [] entries = entries :=
  List.filter_eq_self.mpr fun _ _ => rfl

/-- One entry more. -/
theorem below_concat (q : List Text) (entries : List TreeEntry) (e : TreeEntry) :
    below q (entries ++ [e])
      = if q <+: comps e.path then below q entries ++ [e] else below q entries := by
  rw [below, List.filter_append, ← below, List.filter_singleton]
  by_cases h : q <+: comps e.path
  · rw [if_pos h, List.isPrefixOf_iff_prefix.mpr h, cond_true]
  · rw [if_neg h, Bool.eq_false_iff.mpr fun hp => h (List.isPrefixOf_iff_prefix.mp hp), cond_false,
      List.append_nil]

theorem sumUp_concat (entries : List TreeEntry) (e : TreeEntry) :
    sumUp (entries ++ [e]) = (sumUp entries).add e.size := by
  rw [sumUp, sizes, List.map_append, List.sum_append, List.length_append, List.map_singleton,
    List.sum_singleton, ← sizes, Totals.add, sumUp, Nat.mod_add_mod]
  rfl

/-- **All insertions**: the root adds all of them up, and there is a node for
    every other path that one of them is below. -/
theorem totalsAt_insertAll (name : Text) (isDir : Bool) (entries : List TreeEntry)
    (q : List Text) :
    totalsAt q (insertAll (new name isDir) entries)
      = if q = [] ∨ below q entries ≠ [] then some (sumUp (below q entries)) else none := by
  induction entries using List.reverseRecOn with
  | nil =>
      cases q with
      | nil => rfl
      | cons first rest => rfl
  | append_singleton entries e ih =>
      have hordered := ordered_insertAll (ordered_new name isDir) entries
      rw [insertAll_concat, TreeNode.insert, totalsAt_insertComps hordered, below_concat, ih]
      by_cases h : q <+: comps e.path
      · have hsome : below q entries ++ [e] ≠ [] :=
          List.append_ne_nil_of_right_ne_nil _ (List.cons_ne_nil _ _)
        rw [if_pos h, if_pos h, if_pos (Or.inr hsome), sumUp_concat]
        by_cases hq : q = [] ∨ below q entries ≠ []
        · rw [if_pos hq, Option.getD_some]
        · have hnone : below q entries = [] := not_not.mp fun hne => hq (Or.inr hne)
          rw [if_neg hq, hnone]
          rfl
      · rw [if_neg h, if_neg h]

/-- Every node has the number of the entries below it, and the sum of their
    sizes as `u64` adds it up: itself, unless it is too large for one.  There
    is a node wherever there is such an entry, and the root has them all. -/
theorem totals_exact (name : Text) (isDir : Bool) (entries : List TreeEntry) :
    (∀ q node, nodeAt q (insertAll (new name isDir) entries) = some node →
      node.fileCount = (below q entries).length ∧
        node.size = sizes (below q entries) % 2 ^ 64 ∧
          (sizes (below q entries) < 2 ^ 64 → node.size = sizes (below q entries))) ∧
      (∀ q, below q entries ≠ [] →
        ∃ node, nodeAt q (insertAll (new name isDir) entries) = some node) ∧
        (insertAll (new name isDir) entries).fileCount = entries.length ∧
          (insertAll (new name isDir) entries).size = sizes entries % 2 ^ 64 := by
  have hnode : ∀ q node, nodeAt q (insertAll (new name isDir) entries) = some node →
      totalsOf node = sumUp (below q entries) := by
    intro q node hget
    have htotals := totalsAt_insertAll name isDir entries q
    rw [totalsAt, hget, Option.map_some] at htotals
    split at htotals
    next => exact Option.some.inj htotals
    next => cases htotals
  have hroot := hnode [] _ rfl
  rw [below_nil] at hroot
  refine ⟨fun q node hget => ?_, fun q hbelow => ?_, congrArg Totals.fileCount hroot,
    congrArg Totals.size hroot⟩
  · have hsize : node.size = sizes (below q entries) % 2 ^ 64 :=
      congrArg Totals.size (hnode q node hget)
    exact ⟨congrArg Totals.fileCount (hnode q node hget), hsize,
      fun hlt => hsize.trans (Nat.mod_eq_of_lt hlt)⟩
  · have htotals := totalsAt_insertAll name isDir entries q
    rw [if_pos (Or.inr hbelow)] at htotals
    obtain ⟨node, hget, -⟩ := Option.map_eq_some_iff.mp htotals
    exact ⟨node, hget⟩

/-- Three files of the largest size that a row of the database has. -/
def threeLargest : List TreeEntry :=
  [⟨[], ['/', 'a'], 2 ^ 63 - 1⟩, ⟨[], ['/', 'b'], 2 ^ 63 - 1⟩, ⟨[], ['/', 'c'], 2 ^ 63 - 1⟩]

/-- They are more than a `u64` says. -/
theorem not_sum_threeLargest :
    ¬ ∀ q node, nodeAt q (insertAll (new [] true) threeLargest) = some node →
      node.size = sizes (below q threeLargest) := by
  intro hall
  have hroot := totalsAt_insertAll [] true threeLargest []
  rw [if_pos (Or.inl rfl), totalsAt_nil, below_nil] at hroot
  have hwrapped : (insertAll (new [] true) threeLargest).size = 2 ^ 63 - 3 :=
    congrArg Totals.size (Option.some.inj hroot)
  have hsum := hall [] _ rfl
  rw [hwrapped, below_nil] at hsum
  exact absurd hsum (by decide)

end BlitzTreeTotals
