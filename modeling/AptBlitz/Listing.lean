import AptBlitz.Info
import AptBlitz.Library.SortedMap
import Mathlib.Data.Char
import Mathlib.Data.List.Lex

/-! # `cache ls`

    `ls` resolves each entry to a root, `host/path` as it is shown, keeps what
    is in scope of its target, and lists it level by level: the children of a
    base are made from all roots that begin with the text of the base, and with
    `-R` the children of each directory follow, with the base and its name
    joined.

    The regex of a glob is a parameter, and so is what `time_until_expiry_map`
    gives for an entry at the time of the listing. -/

namespace BlitzListing

open RustText BlitzSelectors BlitzInfo SortedMap

/-- `LsItem`. -/
structure LsItem where
  name : Text
  isDir : Bool
  size : Nat
  cachedAt : Int
  lastAccess : Int
  expiry : Option Nat
  fileCount : Nat
  deriving DecidableEq

/-- `SortKey`. -/
inductive SortKey where
  | name
  | time
  | cached
  | size
  deriving DecidableEq

/-- What the options have to do with more than the layout of a line. -/
structure LsOpts where
  recursive : Bool
  sort : SortKey
  reverse : Bool

/-- A file that is the base itself, or the items of a level under a header. -/
inductive Block where
  | alone (base : Text) (item : LsItem)
  | level (base : Text) (items : List LsItem)
  deriving DecidableEq

/-- `path.split('/').filter(|s| !s.is_empty())`. -/
def comps (path : Text) : List Text := (split '/' path).filter fun s => !s.isEmpty

/-! ## `collect_children` -/

/-- What comes behind the base in a root that begins with it. -/
def relative (base root : Text) : Option Text :=
  (stripPrefix base root).map (trimStartMatches '/')

/-- A new item, without entries. -/
def LsItem.start (name : Text) (isDir : Bool) : LsItem := ⟨name, isDir, 0, 0, 0, none, 0⟩

section Commands

variable (expiry : CacheEntryDetail → Option Nat)

/-- An entry below a directory is added to it; a file is put in its place. -/
def LsItem.add (d : CacheEntryDetail) (isDir : Bool) (item : LsItem) : LsItem :=
  let item := { item with isDir := item.isDir || isDir }
  if isDir then
    { item with
      size := (item.size + d.size) % 2 ^ 64
      fileCount := item.fileCount + 1
      lastAccess := max item.lastAccess d.lastAccess
      cachedAt := max item.cachedAt d.cachedAt }
  else
    { item with
      size := d.size
      fileCount := 1
      lastAccess := d.lastAccess
      cachedAt := d.cachedAt
      expiry := expiry d }

/-- The name of a child, and whether it is a directory. -/
def child (rel : Text) : Text × Bool := (rel.takeWhile (· != '/'), rel.contains '/')

/-- One pass of the loop of `collect_children`. -/
def collectOne (base : Text) (acc : List (Text × LsItem) × Option CacheEntryDetail)
    (m : Text × CacheEntryDetail) : List (Text × LsItem) × Option CacheEntryDetail :=
  match relative base m.1 with
  | none => acc
  | some [] => (acc.1, some m.2)
  | some (c :: rel) =>
      let (name, isDir) := child (c :: rel)
      (upsert (fun item => (item.getD (.start name isDir)).add expiry m.2 isDir) name acc.1, acc.2)

/-- `collect_children`. -/
def collectChildren (matched : List (Text × CacheEntryDetail)) (base : Text) :
    List LsItem × Option CacheEntryDetail :=
  let result := matched.foldl (collectOne expiry base) ([], none)
  (result.1.map Prod.snd, result.2)

/-! ## `render_level` -/

/-- `Ord::cmp`. -/
def order {κ : Type} [LinearOrder κ] (a b : κ) : Ordering :=
  if a < b then .lt else if a = b then .eq else .gt

/-- The comparison of `sort_items`: directories first. -/
def compareItems (opts : LsOpts) (a b : LsItem) : Ordering :=
  match a.isDir, b.isDir with
  | true, false => .lt
  | false, true => .gt
  | _, _ =>
      match opts.sort with
      | .name => if opts.reverse then (order a.name b.name).swap else order a.name b.name
      | .time =>
          if opts.reverse then order a.lastAccess b.lastAccess
          else (order a.lastAccess b.lastAccess).swap
      | .cached =>
          if opts.reverse then order a.cachedAt b.cachedAt
          else (order a.cachedAt b.cachedAt).swap
      | .size => if opts.reverse then order a.size b.size else (order a.size b.size).swap

/-- `sort_items`; the sort is stable. -/
def sortItems (opts : LsOpts) (items : List LsItem) : List LsItem :=
  items.mergeSort fun a b => compareItems opts a b != .gt

/-- The item of a base that is a single cached entry. -/
def aloneItem (d : CacheEntryDetail) : LsItem :=
  ⟨basename d.url, false, d.size, d.cachedAt, d.lastAccess, expiry d, 1⟩

/-- The base one level down. -/
def newBase (base name : Text) : Text := if base = [] then name else base ++ '/' :: name

/-- `render_level`, to a depth of `fuel` levels.  Without `-R` the header of a
    level is not printed. -/
def renderLevel (opts : LsOpts) (matched : List (Text × CacheEntryDetail)) :
    Nat → Text → List Block
  | 0, _ => []
  | fuel + 1, base =>
      let (items, exact) := collectChildren expiry matched base
      match exact with
      | some d => [.alone base (aloneItem expiry d)]
      | none =>
          if items.isEmpty then if opts.recursive then [.level base []] else []
          else
            let items := sortItems opts items
            .level base items ::
              if opts.recursive then
                (items.filter LsItem.isDir).flatMap fun it =>
                  renderLevel opts matched fuel (newBase base it.name)
              else []

/-- More levels than any root has. -/
def depth (matched : List (Text × CacheEntryDetail)) : Nat :=
  (matched.map fun m => m.1.length).foldr max 0 + 2

/-- `render_ls`: its levels are no more than the paths have components. -/
def render (opts : LsOpts) (matched : List (Text × CacheEntryDetail)) (base : Text) : List Block :=
  renderLevel expiry opts matched (depth matched) base

/-! ## `cmd_ls` -/

/-- `has_glob`. -/
def hasGlob (target : Text) : Bool := target.contains '*' || target.contains '?'

/-- `glob_base`: up to the last `/` before the first `*` or `?`. -/
def globBase (target : Text) : Text :=
  if hasGlob target then
    ((target.takeWhile fun c => c != '*' && c != '?').reverse.dropWhile (· != '/')).reverse
  else []

/-- The host of a glob that has one before its first `/`. -/
def globHost (target : Text) : Option Text :=
  let gb := globBase target
  if gb.contains '/' then some (gb.takeWhile (· != '/'))
  else if gb ≠ [] then some gb
  else none

variable (cli : Cli) (isMatch : Text → Text → Bool)

/-- The root of an entry that is in scope of a glob. -/
def globRoot (target url : Text) : Option Text :=
  let r := cli.resolved url
  let gb := globBase target
  let pattern := target.drop gb.length
  let root := match globHost target with
    | some h =>
        let p := perspectiveFor h cli.maps
        if r.hostMatches h then some (r.host p ++ r.path p) else none
    | none => some (r.dispHost ++ r.dispPath)
  root.filter fun root =>
    match relative gb root with
    | none => false
    | some rel =>
        if pattern.contains '/' then isMatch pattern rel
        else match globHost target with
          | some _ =>
              let immediate := rel.takeWhile (· != '/')
              !immediate.isEmpty && isMatch pattern immediate
          | none =>
              match comps root with
              | [_, name] => isMatch pattern name
              | _ => false

/-- The root of an entry that is in scope of the target. -/
def lsRoot (target url : Text) : Option Text :=
  let r := cli.resolved url
  let normalized := normalizeTarget target
  if target = [] then some (r.dispHost ++ r.dispPath)
  else if hasGlob normalized then globRoot cli isMatch normalized url
  else
    let t := parseTarget normalized
    let p := perspectiveFor t.host cli.maps
    if cli.lsMatches t url then some (r.host p ++ r.path p) else none

/-- The base of a listing. -/
def lsBase (target : Text) : Text :=
  let normalized := normalizeTarget target
  if target = [] then []
  else if hasGlob normalized then globBase normalized
  else
    let t := parseTarget normalized
    t.host ++ t.pathPrefix.getD []

/-- The entries with a root, and the root of each. -/
def matchedBy (root : Text → Option Text) (details : List CacheEntryDetail) :
    List (Text × CacheEntryDetail) :=
  details.filterMap fun d => (root d.url).map fun r => (r, d)

/-- The target of the arguments. -/
def lsTarget (hostArg : Option Text) (path : Text) : Except Text Text :=
  match hostArg with
  | none => .ok []
  | some host =>
      match validateHost host with
      | .error e => .error e
      | .ok _ => .ok (joinHostPath host path)

/-- What `ls` prints. -/
inductive LsOutput where
  | message (text : Text)
  | blocks (blocks : List Block)

/-- `cmd_ls`. -/
def cmdLs (opts : LsOpts) (hostArg : Option Text) (path : Text)
    (details : List CacheEntryDetail) : Except Text LsOutput :=
  if details.isEmpty then .ok (.message "(no cached entries)".toList)
  else
    match lsTarget hostArg path with
    | .error e => .error e
    | .ok target =>
        match matchedBy (lsRoot cli isMatch target) details with
        | [] =>
            if target = [] then .ok (.message "(no cached entries)".toList)
            else if hasGlob (normalizeTarget target) then
              .ok (.message ("no entries match '".toList ++ target ++ "'".toList))
            else .ok (.message ("no entries for '".toList ++ target ++ "'".toList))
        | m :: matched => .ok (.blocks (render expiry opts (m :: matched) (lsBase target)))

end Commands

end BlitzListing
