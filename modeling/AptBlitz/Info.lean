import AptBlitz.Selectors

/-! # What `cache info` selects

    `info`, `cat` and `cp` take a host and the exact path of one entry.  What
    they are given is trimmed at both ends, and what is stored at its
    beginning, so that the path of an entry, as `find` and `info` print it,
    selects the entry if and only if there is nothing to trim at its end:
    `mem_infoMatches_iff`.

    Globs are a parameter. -/

namespace BlitzInfo

open RustText BlitzHeaders BlitzSelectors

/-- A row with its headers, as `list_all_detailed` gives it. -/
structure CacheEntryDetail where
  url : Text
  filePath : Text
  size : Nat
  lastAccess : Int
  cachedAt : Int
  headers : HeaderMap
  deriving DecidableEq

/-- The last component of a path. -/
def basename (path : Text) : Text := ((split '/' path).getLast?).getD path

/-- `[&str]::join(", ")` of what was found. -/
def foundText (urls : List Text) : Text := join ", ".toList urls

section Commands

variable (cli : Cli)

/-- `info_matches`. -/
def infoMatches (host path : Text) (p : Perspective) (details : List CacheEntryDetail) :
    List CacheEntryDetail :=
  details.filter fun d =>
    let r := cli.resolved d.url
    r.hostMatches host && trimStartMatches '/' (r.path p) == trimMatches '/' path

/-- `no cached entry for ..` -/
def noEntry (host path : Text) : Text :=
  "no cached entry for host '".toList ++ host ++ "' path '".toList ++ path ++ "'".toList

/-- The entries that `cmd_info` prints. -/
def cmdInfo (host path : Text) (details : List CacheEntryDetail) :
    Except Text (List CacheEntryDetail) :=
  match validateHost host with
  | .error e => .error e
  | .ok _ =>
      if path = [] then .error "path is required; use `blitzctl cache info HOST PATH`".toList
      else
        match infoMatches cli host path (perspectiveFor host cli.maps) details with
        | [] => .error (noEntry host path)
        | found => .ok found

/-- `resolve_unique`. -/
def resolveUnique (host path : Text) (p : Perspective) (details : List CacheEntryDetail) :
    Except Text CacheEntryDetail :=
  match infoMatches cli host path p details with
  | [only] => .ok only
  | [] => .error (noEntry host path)
  | found =>
      .error ("ambiguous selector: exactly one match required but '".toList ++ host ++ "' '".toList
        ++ path ++ "' matches ".toList ++ natText found.length ++ " entries (found ".toList
        ++ foundText (found.map CacheEntryDetail.url) ++ ")".toList)

/-- `resolve_cached_entry`: the entry of `cat` and `cp`. -/
def resolveCachedEntry (host path : Text) (details : List CacheEntryDetail) :
    Except Text CacheEntryDetail :=
  match validateHost host with
  | .error e => .error e
  | .ok _ =>
      if path = [] then .error "path is required".toList
      else resolveUnique cli host path (perspectiveFor host cli.maps) details

/-- The files that `find_matches` collects for a query. -/
def findFiles (isMatch : Text → Text → Bool) (host query : Text) (p : Perspective)
    (entries : List Resolved) : List Text :=
  (entries.filter fun r =>
      r.hostMatches host &&
        isMatch query (if query.contains '/' then r.path p else basename (r.path p))).map
    fun r => r.host p ++ r.path p

end Commands

variable {cli : Cli} {details : List CacheEntryDetail} {d : CacheEntryDetail} {p : Perspective}
  {host path query : Text} {isMatch : Text → Text → Bool}

/-- An entry goes by both of its hosts. -/
theorem hostMatches_host (r : Resolved) (p : Perspective) : r.hostMatches (r.host p) = true := by
  rw [Resolved.hostMatches, Bool.or_eq_true, beq_iff_eq, beq_iff_eq]
  cases p
  · exact Or.inl rfl
  · exact Or.inr rfl

/-- **By its own path, exactly**: an entry is selected by its host and its path
    in a perspective if and only if the path does not end with a slash, or is
    nothing but slashes. -/
theorem mem_infoMatches_iff (hd : d ∈ details) (p : Perspective) :
    d ∈ infoMatches cli ((cli.resolved d.url).host p) ((cli.resolved d.url).path p) p details ↔
      ((cli.resolved d.url).path p).getLast? ≠ some '/' ∨
        ∀ c ∈ (cli.resolved d.url).path p, c = '/' := by
  rw [infoMatches, List.mem_filter, and_iff_right hd]
  dsimp only
  rw [hostMatches_host, Bool.true_and, beq_iff_eq]
  exact trimMatches_eq_trimStartMatches_iff

/-- An entry, without maps. -/
def entryAt (url : Text) : CacheEntryDetail := ⟨url, [], 1, 0, 0, []⟩

theorem mem_infoMatches_file :
    entryAt "http://h/a/b".toList ∈ infoMatches plainCli "h".toList "/a/b".toList .real
      [entryAt "http://h/a/b".toList] := by
  have hd : entryAt "http://h/a/b".toList ∈ [entryAt "http://h/a/b".toList] :=
    List.mem_cons_self
  exact (mem_infoMatches_iff hd .real).mpr (Or.inl (by decide))

/-- The listing of a directory. -/
def distsEntry : CacheEntryDetail := entryAt "http://h/dists/".toList

/-- `find` prints `h/dists/`, and `info h /dists/` finds nothing. -/
theorem not_mem_infoMatches_dists :
    findFiles (fun _ _ => true) "h".toList "*".toList .real [plainCli.resolved distsEntry.url]
        = ["h/dists/".toList] ∧
      perspectiveFor "h".toList plainCli.maps = .real ∧
      (plainCli.resolved distsEntry.url).host .real = "h".toList ∧
      (plainCli.resolved distsEntry.url).path .real = "/dists/".toList ∧
        distsEntry ∉ infoMatches plainCli "h".toList "/dists/".toList .real [distsEntry] := by
  decide

/-! ## What the commands make of it -/

theorem validateHost_ok (h : '/' ∉ host) : validateHost host = .ok () := by
  rw [validateHost, List.contains_eq_mem, decide_eq_false h]
  rfl

/-- `info` prints what matches, and it is an error if nothing does. -/
theorem cmdInfo_ok_iff {found : List CacheEntryDetail} (hhost : '/' ∉ host) (hpath : path ≠ []) :
    cmdInfo cli host path details = .ok found ↔
      infoMatches cli host path (perspectiveFor host cli.maps) details = found ∧ found ≠ [] := by
  rw [cmdInfo, validateHost_ok hhost]
  dsimp only
  rw [if_neg hpath]
  cases infoMatches cli host path (perspectiveFor host cli.maps) details with
  | nil =>
      constructor
      · rintro ⟨⟩
      · rintro ⟨rfl, hne⟩
        exact absurd rfl hne
  | cons e rest =>
      constructor
      · rintro ⟨⟩
        exact ⟨rfl, List.cons_ne_nil _ _⟩
      · rintro ⟨rfl, -⟩
        rfl

/-- `cat` and `cp` take an entry if and only if it alone matches. -/
theorem resolveCachedEntry_ok_iff (hhost : '/' ∉ host) (hpath : path ≠ []) :
    resolveCachedEntry cli host path details = .ok d ↔
      infoMatches cli host path (perspectiveFor host cli.maps) details = [d] := by
  rw [resolveCachedEntry, validateHost_ok hhost]
  dsimp only
  rw [if_neg hpath, resolveUnique]
  cases infoMatches cli host path (perspectiveFor host cli.maps) details with
  | nil => simp
  | cons e found =>
      cases found with
      | nil => simp
      | cons e' found => simp

end BlitzInfo
