import AptBlitz.Listing

/-! # `cache tree`

    The tree of a host's paths.  An entry is inserted along the components of
    its path: what is above its last component becomes a directory, and the
    last one a file, whatever they were before.

    So two entries can be inserted in any order if neither is above the other
    (`insertComps_comm`), and otherwise the last one decides (`dirAt_self`,
    `dirAt_above`). -/

namespace BlitzCacheTree

open RustText BlitzSelectors BlitzInfo BlitzListing SortedMap

/-- `TreeNode`, with its children by their names. -/
inductive TreeNode where
  | mk (name : Text) (isDir : Bool) (size fileCount : Nat) (children : List (Text × TreeNode))

namespace TreeNode

/-- `TreeNode::new`. -/
def new (name : Text) (isDir : Bool) : TreeNode := .mk name isDir 0 0 []

/-- The name that the tree shows. -/
def name : TreeNode → Text
  | .mk name _ _ _ _ => name

/-- Whether the node is a directory. -/
def isDir : TreeNode → Bool
  | .mk _ isDir _ _ _ => isDir

/-- The bytes below the node. -/
def size : TreeNode → Nat
  | .mk _ _ size _ _ => size

/-- The files below the node. -/
def fileCount : TreeNode → Nat
  | .mk _ _ _ fileCount _ => fileCount

/-- The children, in the order of their names. -/
def children : TreeNode → List (Text × TreeNode)
  | .mk _ _ _ _ children => children

/-- `is_dir = ..` -/
def setDir (isDir : Bool) : TreeNode → TreeNode
  | .mk name _ size fileCount children => .mk name isDir size fileCount children

/-- `size += ..`, which wraps in a release build, and `file_count += 1` -/
def count (added : Nat) : TreeNode → TreeNode
  | .mk name isDir size fileCount children =>
      .mk name isDir ((size + added) % 2 ^ 64) (fileCount + 1) children

/-- The entry of a name among the children is changed. -/
def withChild (name : Text) (f : Option TreeNode → TreeNode) : TreeNode → TreeNode
  | .mk n isDir size fileCount children => .mk n isDir size fileCount (upsert f name children)

/-- `insert_comps`. -/
def insertComps (size : Nat) : List Text → TreeNode → TreeNode
  | [], node => node.count size
  | first :: rest, node =>
      if rest.isEmpty then
        (node.withChild first fun entry =>
          ((entry.getD (.new first false)).setDir false).count size).count size
      else
        (node.withChild first fun entry =>
          insertComps size rest ((entry.getD (.new first true)).setDir true)).count size

/-- `TreeNode::insert`: `path` is taken apart at its slashes. -/
def insert (path : Text) (size : Nat) (node : TreeNode) : TreeNode :=
  node.insertComps size (comps path)

end TreeNode

/-- An entry that `cmd_tree` shows, with its host and its path. -/
structure TreeEntry where
  host : Text
  path : Text
  size : Nat
  deriving DecidableEq

/-- The filter of `cmd_tree`. -/
def treeEntry (cli : Cli) (host pathFilter : Text) (d : CacheEntryDetail) : Option TreeEntry :=
  let p := perspectiveFor host cli.maps
  let r := cli.resolved d.url
  if r.hostMatches host && (pathFilter.isEmpty || pathFilter.isPrefixOf (r.path p)) then
    some ⟨r.host p, r.path p, d.size⟩
  else none

/-- The tree under the host of the first entry. -/
def treeOf (entries : List TreeEntry) : Option TreeNode :=
  entries.head?.map fun first =>
    entries.foldl (fun root e => root.insert e.path e.size) (.new first.host true)

/-- The tree that `cmd_tree` prints, if there are entries. -/
def cmdTree (cli : Cli) (host pathFilter : Text) (details : List CacheEntryDetail) :
    Option TreeNode :=
  treeOf (details.filterMap (treeEntry cli host pathFilter))

/-- The path is that of a directory above the other one. -/
def Above (a b : List Text) : Prop := a ≠ [] ∧ a <+: b ∧ a ≠ b

open TreeNode

variable {a b rest : List Text} {first : Text} {size size' : Nat} {node : TreeNode} {isDir : Bool}

/-! ## One insertion -/

@[simp] theorem setDir_new (name : Text) (isDir isDir' : Bool) :
    (new name isDir).setDir isDir' = new name isDir' := rfl

/-- The two branches are one: an entry becomes what it is on the way. -/
theorem insertComps_cons (size : Nat) (first : Text) (rest : List Text) (node : TreeNode) :
    node.insertComps size (first :: rest)
      = (node.withChild first fun entry =>
          ((entry.getD (new first true)).setDir (!rest.isEmpty)).insertComps size rest).count
            size := by
  cases rest with
  | nil =>
      rw [insertComps, if_pos List.isEmpty_nil]
      congr 2
      funext entry
      cases entry with
      | none => rfl
      | some node => rfl
  | cons second rest =>
      rw [insertComps, if_neg (by simp)]
      rfl

theorem isDir_insertComps : (node.insertComps size a).isDir = node.isDir := by
  obtain ⟨name, isDir, n, fileCount, children⟩ := node
  cases a with
  | nil => rfl
  | cons first rest =>
      rw [insertComps_cons]
      rfl

theorem name_insertComps : (node.insertComps size a).name = node.name := by
  obtain ⟨name, isDir, n, fileCount, children⟩ := node
  cases a with
  | nil => rfl
  | cons first rest =>
      rw [insertComps_cons]
      rfl

theorem setDir_self (h : node.isDir = isDir) : node.setDir isDir = node := by
  obtain ⟨name, isDir', n, fileCount, children⟩ := node
  cases h
  rfl

theorem isDir_setDir : (node.setDir isDir).isDir = isDir := by
  obtain ⟨name, isDir', n, fileCount, children⟩ := node
  rfl

theorem count_count : (node.count size).count size' = (node.count size').count size := by
  obtain ⟨name, isDir, n, fileCount, children⟩ := node
  rw [count, count, count, count, Nat.mod_add_mod, Nat.mod_add_mod, Nat.add_right_comm]

/-- Counting and descending may change places. -/
theorem withChild_count {f : Option TreeNode → TreeNode} :
    (node.count size).withChild first f = (node.withChild first f).count size := by
  obtain ⟨name, isDir, n, fileCount, children⟩ := node
  rfl

theorem above_cons (h : Above a b) (first : Text) : Above (first :: a) (first :: b) :=
  ⟨List.cons_ne_nil _ _, List.cons_prefix_cons.mpr ⟨rfl, h.2.1⟩,
    fun heq => h.2.2 (List.cons.inj heq).2⟩

theorem above_nil (h : rest ≠ []) : Above [first] (first :: rest) :=
  ⟨List.cons_ne_nil _ _, List.cons_prefix_cons.mpr ⟨rfl, List.nil_prefix⟩,
    fun heq => h (List.cons.inj heq).2.symm⟩

/-- **In any order**: two entries of which neither is above the other. -/
theorem insertComps_comm (hab : ¬ Above a b) (hba : ¬ Above b a) (node : TreeNode) :
    (node.insertComps size a).insertComps size' b
      = (node.insertComps size' b).insertComps size a := by
  induction a generalizing b node with
  | nil =>
      cases b with
      | nil => exact count_count
      | cons first rest =>
          rw [insertComps_cons, insertComps_cons, insertComps, insertComps, withChild_count,
            count_count]
  | cons first a ih =>
      cases b with
      | nil =>
          rw [insertComps_cons, insertComps_cons, insertComps, insertComps, withChild_count,
            count_count]
      | cons first' b =>
          rw [insertComps_cons, insertComps_cons, insertComps_cons, insertComps_cons,
            withChild_count, withChild_count, count_count]
          congr 2
          obtain ⟨name, isDir, n, fileCount, children⟩ := node
          rw [withChild, withChild, withChild, withChild]
          congr 1
          by_cases hfirst : first = first'
          · subst hfirst
            -- neither ends where the other goes on
            have hends : a.isEmpty = b.isEmpty := by
              cases a with
              | nil =>
                  cases b with
                  | nil => rfl
                  | cons second b => exact absurd (above_nil (List.cons_ne_nil _ _)) hab
              | cons second a =>
                  cases b with
                  | nil => exact absurd (above_nil (List.cons_ne_nil _ _)) hba
                  | cons second' b => rfl
            rw [upsert_upsert, upsert_upsert]
            refine upsert_congr (fun entry => ?_) first children
            have hstays : ∀ (size : Nat) (c : List Text),
                (((entry.getD (new first true)).setDir (!b.isEmpty)).insertComps size c).setDir
                    (!b.isEmpty)
                  = ((entry.getD (new first true)).setDir (!b.isEmpty)).insertComps size c := by
              intro size c
              exact setDir_self (by rw [isDir_insertComps, isDir_setDir])
            rw [Option.getD_some, Option.getD_some, hends, hstays, hstays,
              ih (fun h => hab (above_cons h first)) (fun h => hba (above_cons h first))]
          · rw [upsert_comm hfirst]

/-! ## The last one decides -/

/-- Whether the node of a path is a directory, if there is one. -/
def dirAt : List Text → TreeNode → Option Bool
  | [], node => some node.isDir
  | first :: rest, node => (get first node.children).bind (dirAt rest)

/-- The children are in order, all the way down. -/
inductive Ordered : TreeNode → Prop
  | mk (name : Text) (isDir : Bool) (size fileCount : Nat) (children : List (Text × TreeNode))
      (hsorted : Sorted children) (hbelow : ∀ k n, get k children = some n → Ordered n) :
      Ordered (.mk name isDir size fileCount children)

theorem ordered_new (name : Text) (isDir : Bool) : Ordered (new name isDir) :=
  .mk _ _ _ _ _ List.Pairwise.nil (fun _ _ h => by cases h)

theorem Ordered.setDir (h : Ordered node) (isDir : Bool) : Ordered (node.setDir isDir) := by
  obtain ⟨name, isDir', n, fileCount, children, hsorted, hbelow⟩ := h
  exact .mk _ _ _ _ _ hsorted hbelow

theorem Ordered.count (h : Ordered node) (size : Nat) : Ordered (node.count size) := by
  obtain ⟨name, isDir', n, fileCount, children, hsorted, hbelow⟩ := h
  exact .mk _ _ _ _ _ hsorted hbelow

/-- The child of a name, as it is found. -/
def childOf (first : Text) (node : TreeNode) : TreeNode :=
  (get first node.children).getD (new first true)

/-- The child that is descended into is ordered. -/
theorem Ordered.childOf (h : Ordered node) (first : Text) : Ordered (childOf first node) := by
  obtain ⟨name, isDir', n, fileCount, children, hsorted, hbelow⟩ := h
  rw [BlitzCacheTree.childOf]
  cases hget : get first (TreeNode.mk name isDir' n fileCount children).children with
  | none => exact ordered_new first true
  | some child => exact hbelow first child hget

/-- The children after one insertion: one of them has changed. -/
theorem get_children_insertComps (h : Ordered node) (size : Nat) (first : Text) (rest : List Text)
    (k : Text) : get k (node.insertComps size (first :: rest)).children
      = if first = k then
          some (((childOf first node).setDir (!rest.isEmpty)).insertComps size rest)
        else get k node.children := by
  obtain ⟨name, isDir', n, fileCount, children, hsorted, hbelow⟩ := h
  rw [insertComps_cons]
  refine (get_upsert hsorted _ first k).trans ?_
  by_cases hk : first = k
  · rw [if_pos hk, if_pos hk]
    rfl
  · rw [if_neg hk, if_neg hk]
    rfl

/-- **Step**: an insertion keeps the children in order. -/
theorem Ordered.insertComps (h : Ordered node) (size : Nat) (a : List Text) :
    Ordered (node.insertComps size a) := by
  induction a generalizing node with
  | nil => exact h.count size
  | cons first rest ih =>
      have hget := get_children_insertComps h size first rest
      have hchild := ih ((h.childOf first).setDir (!rest.isEmpty))
      obtain ⟨name, isDir', n, fileCount, children, hsorted, hbelow⟩ := h
      rw [insertComps_cons] at hget ⊢
      refine .mk _ _ _ _ _ (hsorted.upsert _ first) fun k child hk => ?_
      have hk := (hget k).symm.trans hk
      split at hk
      next =>
        cases hk
        exact hchild
      next => exact hbelow k child hk

/-- The node of the path of an entry just inserted is a file. -/
theorem dirAt_self (h : Ordered node) (ha : a ≠ []) :
    dirAt a (node.insertComps size a) = some false := by
  induction a generalizing node with
  | nil => exact absurd rfl ha
  | cons first rest ih =>
      rw [dirAt, get_children_insertComps h, if_pos rfl, Option.bind_some]
      cases rest with
      | nil =>
          rw [dirAt, isDir_insertComps, isDir_setDir]
          rfl
      | cons second rest => exact ih ((h.childOf first).setDir _) (List.cons_ne_nil _ _)

/-- What is above an entry just inserted is a directory. -/
theorem dirAt_above (h : Ordered node) (hab : Above a b) :
    dirAt a (node.insertComps size b) = some true := by
  induction a generalizing b node with
  | nil => exact absurd rfl hab.1
  | cons first rest ih =>
      cases b with
      | nil => exact absurd (List.prefix_nil.mp hab.2.1) (List.cons_ne_nil _ _)
      | cons first' rest' =>
          obtain ⟨rfl, hrest⟩ := List.cons_prefix_cons.mp hab.2.1
          have hne : rest ≠ rest' := fun heq => hab.2.2 (by rw [heq])
          rw [dirAt, get_children_insertComps h, if_pos rfl, Option.bind_some]
          cases rest with
          | nil =>
              cases rest' with
              | nil => exact absurd rfl hne
              | cons second rest' =>
                  rw [dirAt, isDir_insertComps, isDir_setDir]
                  rfl
          | cons second rest =>
              exact ih ((h.childOf first).setDir _) ⟨List.cons_ne_nil _ _, hrest, hne⟩

/-! ## All insertions -/

variable {root : TreeNode} {entries : List TreeEntry}

/-- The entries below a root. -/
def insertAll (root : TreeNode) (entries : List TreeEntry) : TreeNode :=
  entries.foldl (fun root e => root.insert e.path e.size) root

theorem insertAll_concat (root : TreeNode) (entries : List TreeEntry) (e : TreeEntry) :
    insertAll root (entries ++ [e]) = (insertAll root entries).insert e.path e.size :=
  List.foldl_concat ..

theorem name_insertAll (root : TreeNode) (entries : List TreeEntry) :
    (insertAll root entries).name = root.name := by
  induction entries using List.reverseRecOn with
  | nil => rfl
  | append_singleton entries e ih =>
      rw [insertAll_concat]
      exact name_insertComps.trans ih

/-- The children of every tree are in order. -/
theorem ordered_insertAll (h : Ordered root) (entries : List TreeEntry) :
    Ordered (insertAll root entries) := by
  induction entries using List.reverseRecOn with
  | nil => exact h
  | append_singleton entries e ih =>
      rw [insertAll_concat]
      exact ih.insertComps e.size (comps e.path)

/-- Entries of which none is above another can come in any order. -/
theorem insertAll_perm {entries' : List TreeEntry}
    (h : ∀ e ∈ entries, ∀ e' ∈ entries, ¬ Above (comps e.path) (comps e'.path))
    (hperm : entries.Perm entries') (root : TreeNode) :
    insertAll root entries = insertAll root entries' :=
  hperm.foldl_eq' (fun e he e' he' node => insertComps_comm (h e he e' he') (h e' he' e he) node)
    root

end BlitzCacheTree
