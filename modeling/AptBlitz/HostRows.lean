import AptBlitz.TreeTotals

/-! # `cache hosts`

    A row for each host that is shown, with what its files add up to and the
    real hosts they come from.  Every file is counted in one row
    (`hosts_exact`), that of its alias, while `tree` counts it under its alias
    and under its real host: the two say the same of a host if no file of
    another alias comes from it (`hosts_tree_agree_iff`). -/

namespace BlitzHostRows

open RustText BlitzSelectors BlitzInfo BlitzListing BlitzCacheTree BlitzTreeTotals SortedMap

/-- The value of a host in the map of `cmd_hosts`; a `BTreeSet` is a map of
    nothing. -/
structure HostRow where
  totals : Totals
  reals : List (Text × Unit)

namespace HostRow

/-- `(0, 0, BTreeSet::new())` -/
def empty : HostRow := ⟨.zero, []⟩

/-- An entry more in the row. -/
def add (row : HostRow) (size : Nat) (realHost : Text) : HostRow :=
  ⟨row.totals.add size, upsert (fun _ => ()) realHost row.reals⟩

/-- The column `REAL HOST`. -/
def real (host : Text) (row : HostRow) : Text :=
  if row.reals.length = 1 ∧ (get host row.reals).isSome then ['-']
  else join ", ".toList (row.reals.map Prod.fst)

end HostRow

/-- A line of the output. -/
structure HostLine where
  host : Text
  real : Text
  size : Nat
  files : Nat
  deriving DecidableEq

/-- The output: its head, and a line for each host. -/
structure HostsReport where
  hosts : Nat
  files : Nat
  total : Nat
  lines : List HostLine

section Command

variable (cli : Cli)

/-- The host under which the entry is shown. -/
def dispHost (d : CacheEntryDetail) : Text := (cli.resolved d.url).dispHost

/-- The host the entry comes from. -/
def realHost (d : CacheEntryDetail) : Text := (cli.resolved d.url).realHost

/-- The map of `cmd_hosts`. -/
def hostRows (details : List CacheEntryDetail) : List (Text × HostRow) :=
  groups (dispHost cli) (fun row d => row.add d.size (realHost cli d)) .empty details

/-- The line of a row. -/
def hostLine (p : Text × HostRow) : HostLine :=
  ⟨p.1, p.2.real p.1, p.2.totals.size, p.2.totals.fileCount⟩

/-- What is printed of entries; the sum of the sizes wraps in a release
    build. -/
def hostsReport (details : List CacheEntryDetail) : HostsReport :=
  let rows := hostRows cli details
  { hosts := rows.length
    files := details.length
    total := (rows.map fun p => p.2.totals.size).sum % 2 ^ 64
    lines := rows.map hostLine }

/-- `cmd_hosts`; `(no cached entries)` if there are none. -/
def cmdHosts (details : List CacheEntryDetail) : Option HostsReport :=
  if details = [] then none else some (hostsReport cli details)

/-- The entries that are shown under a host. -/
def shownAt (host : Text) (details : List CacheEntryDetail) : List CacheEntryDetail :=
  details.filter (dispHost cli · = host)

end Command

variable {cli : Cli} {details ds : List CacheEntryDetail} {host : Text} {row : HostRow}

/-! ## One row -/

/-- The row of some entries. -/
def rowOf (cli : Cli) (ds : List CacheEntryDetail) : HostRow :=
  ds.foldl (fun row d => row.add d.size (realHost cli d)) .empty

/-- What the entries take, in the integers. -/
def sizesOf (ds : List CacheEntryDetail) : Nat := (ds.map CacheEntryDetail.size).sum

theorem rowOf_concat (ds : List CacheEntryDetail) (d : CacheEntryDetail) :
    rowOf cli (ds ++ [d]) = (rowOf cli ds).add d.size (realHost cli d) :=
  List.foldl_concat ..

theorem sizesOf_concat (ds : List CacheEntryDetail) (d : CacheEntryDetail) :
    sizesOf (ds ++ [d]) = sizesOf ds + d.size := by
  rw [sizesOf, List.map_append, List.sum_append, List.map_singleton, List.sum_singleton, ← sizesOf]

/-- A row has the sum of the sizes, as `u64` adds, and the number of its
    entries. -/
theorem totals_rowOf (ds : List CacheEntryDetail) :
    (rowOf cli ds).totals = ⟨sizesOf ds % 2 ^ 64, ds.length⟩ := by
  induction ds using List.reverseRecOn with
  | nil => rfl
  | append_singleton ds d ih =>
      rw [rowOf_concat, HostRow.add, ih, Totals.add, sizesOf_concat, List.length_append,
        Nat.mod_add_mod]
      rfl

/-- The real hosts of a row are in order. -/
theorem sorted_reals (ds : List CacheEntryDetail) : Sorted (rowOf cli ds).reals := by
  induction ds using List.reverseRecOn with
  | nil => exact List.Pairwise.nil
  | append_singleton ds d ih =>
      rw [rowOf_concat]
      exact ih.upsert _ _

/-- The real hosts of a row are those of its entries. -/
theorem get_reals (ds : List CacheEntryDetail) (x : Text) :
    (get x (rowOf cli ds).reals).isSome ↔ ∃ d ∈ ds, realHost cli d = x := by
  induction ds using List.reverseRecOn with
  | nil =>
      constructor
      · intro h
        cases h
      · rintro ⟨d, hd, -⟩
        cases hd
  | append_singleton ds d ih =>
      rw [rowOf_concat, HostRow.add]
      show (get x (upsert _ _ (rowOf cli ds).reals)).isSome ↔ _
      rw [get_upsert (sorted_reals ds)]
      by_cases hx : realHost cli d = x
      · rw [if_pos hx]
        exact ⟨fun _ => ⟨d, List.mem_append_right _ (List.mem_singleton.mpr rfl), hx⟩, fun _ => rfl⟩
      · rw [if_neg hx, ih]
        constructor
        · rintro ⟨e, he, hreal⟩
          exact ⟨e, List.mem_append_left _ he, hreal⟩
        · rintro ⟨e, he, hreal⟩
          rcases List.mem_append.mp he with hold | hnew
          · exact ⟨e, hold, hreal⟩
          · rw [List.mem_singleton.mp hnew] at hreal
            exact absurd hreal hx

/-- The names of a set, in order. -/
def names (reals : List (Text × Unit)) : List Text := reals.map Prod.fst

/-- The real hosts of a row are those of its entries. -/
theorem mem_names (ds : List CacheEntryDetail) (x : Text) :
    x ∈ names (rowOf cli ds).reals ↔ ∃ d ∈ ds, realHost cli d = x := by
  rw [← get_reals, names, List.mem_map]
  constructor
  · rintro ⟨p, hp, rfl⟩
    rw [(mem_iff_get (sorted_reals ds)).mp hp]
    rfl
  · intro hx
    obtain ⟨u, hu⟩ := Option.isSome_iff_exists.mp hx
    exact ⟨(x, u), (mem_iff_get (sorted_reals ds)).mpr hu, rfl⟩

/-- The real hosts are printed in order, each once. -/
theorem sorted_names (ds : List CacheEntryDetail) :
    (names (rowOf cli ds).reals).Pairwise (· < ·) :=
  List.pairwise_map.mpr (sorted_reals ds)

/-- **The column** has a dash where the entries come from the host itself. -/
theorem real_rowOf (hne : ds ≠ []) :
    (rowOf cli ds).real host = if ∀ d ∈ ds, realHost cli d = host then ['-']
      else join ", ".toList (names (rowOf cli ds).reals) := by
  rw [HostRow.real]
  have hdash : ((rowOf cli ds).reals.length = 1 ∧ (get host (rowOf cli ds).reals).isSome) ↔
      ∀ d ∈ ds, realHost cli d = host := by
    have hlen : (rowOf cli ds).reals.length = (names (rowOf cli ds).reals).length :=
      (List.length_map _).symm
    rw [get_reals, hlen]
    constructor
    · rintro ⟨hone, e, he, hhost⟩ d hd
      obtain ⟨x, hx⟩ := List.length_eq_one_iff.mp hone
      have honly : ∀ c ∈ ds, realHost cli c = x := fun c hc => by
        have hmem : realHost cli c ∈ names (rowOf cli ds).reals :=
          (mem_names ds _).mpr ⟨c, hc, rfl⟩
        rw [hx] at hmem
        exact List.mem_singleton.mp hmem
      rw [honly d hd, ← honly e he, hhost]
    · intro hall
      obtain ⟨d, hd⟩ := List.exists_mem_of_ne_nil ds hne
      refine ⟨?_, d, hd, hall d hd⟩
      have hmem : ∀ x, x ∈ names (rowOf cli ds).reals ↔ x = host := by
        intro x
        rw [mem_names]
        constructor
        · rintro ⟨c, hc, rfl⟩
          exact hall c hc
        · rintro rfl
          exact ⟨d, hd, hall d hd⟩
      have hnodup : (names (rowOf cli ds).reals).Nodup :=
        (sorted_names ds).imp fun hlt => ne_of_lt hlt
      have hperm : (names (rowOf cli ds).reals).Perm [host] :=
        (List.perm_ext_iff_of_nodup hnodup (List.nodup_singleton host)).mpr fun x => by
          rw [hmem, List.mem_singleton]
      exact hperm.length_eq
  by_cases hall : ∀ d ∈ ds, realHost cli d = host
  · rw [if_pos hall, if_pos (hdash.mpr hall)]
  · rw [if_neg hall, if_neg fun h => hall (hdash.mp h)]
    rfl

/-! ## All rows -/

/-- A host has the row of its entries, and none if it has none. -/
theorem get_hostRows (host : Text) :
    (shownAt cli host details = [] → get host (hostRows cli details) = none) ∧
      (shownAt cli host details ≠ [] →
        get host (hostRows cli details) = some (rowOf cli (shownAt cli host details))) :=
  get_groups (fun _ => decide_eq_true_iff) details

/-- A row is that of its host's entries. -/
theorem mem_hostRows (h : (host, row) ∈ hostRows cli details) :
    shownAt cli host details ≠ [] ∧ row = rowOf cli (shownAt cli host details) := by
  have hget : get host (hostRows cli details) = some row :=
    (mem_iff_get (sorted_groups details)).mp h
  by_cases hnil : shownAt cli host details = []
  · rw [(get_hostRows host).1 hnil] at hget
    cases hget
  · rw [(get_hostRows host).2 hnil] at hget
    exact ⟨hnil, (Option.some.inj hget).symm⟩

/-- An entry more is in one of the rows. -/
theorem sum_hostRows_concat {weight : HostRow → Nat} (ds : List CacheEntryDetail)
    (d : CacheEntryDetail) :
    ((hostRows cli (ds ++ [d])).map fun p => weight p.2).sum
        + ((get (dispHost cli d) (hostRows cli ds)).map weight).getD 0
      = ((hostRows cli ds).map fun p => weight p.2).sum
        + weight (((get (dispHost cli d) (hostRows cli ds)).getD .empty).add d.size
            (realHost cli d)) := by
  rw [hostRows, groups_concat]
  exact sum_upsert (sorted_groups ds) _ _

/-- Every entry is counted in one row. -/
theorem sum_files (ds : List CacheEntryDetail) :
    ((hostRows cli ds).map fun p => p.2.totals.fileCount).sum = ds.length := by
  induction ds using List.reverseRecOn with
  | nil => rfl
  | append_singleton ds d ih =>
      have hsum := @sum_hostRows_concat cli (fun row => row.totals.fileCount) ds d
      have hadd : ∀ o : Option HostRow,
          ((o.getD .empty).add d.size (realHost cli d)).totals.fileCount
            = (o.map fun row => row.totals.fileCount).getD 0 + 1 := by
        intro o
        cases o <;> rfl
      rw [hadd] at hsum
      rw [List.length_append, List.length_singleton]
      omega

/-- The rows' sizes add up to the total, modulo 2^64. -/
theorem sum_sizes (ds : List CacheEntryDetail) :
    ((hostRows cli ds).map fun p => p.2.totals.size).sum % 2 ^ 64 = sizesOf ds % 2 ^ 64 := by
  induction ds using List.reverseRecOn with
  | nil => rfl
  | append_singleton ds d ih =>
      have hsum := @sum_hostRows_concat cli (fun row => row.totals.size) ds d
      have hadd : ∀ o : Option HostRow, ((o.getD .empty).add d.size (realHost cli d)).totals.size
          = ((o.map fun row => row.totals.size).getD 0 + d.size) % 2 ^ 64 := by
        intro o
        cases o <;> rfl
      rw [hadd] at hsum
      rw [sizesOf_concat]
      omega

/-- What a line of the report says. -/
structure Accounts (cli : Cli) (details : List CacheEntryDetail) (line : HostLine) : Prop where
  some_entry : shownAt cli line.host details ≠ []
  files : line.files = (shownAt cli line.host details).length
  size : line.size = sizesOf (shownAt cli line.host details) % 2 ^ 64
  real : ∃ reals : List Text, reals.Pairwise (· < ·) ∧
    (∀ x, x ∈ reals ↔ ∃ d ∈ shownAt cli line.host details, realHost cli d = x) ∧
    line.real = if ∀ d ∈ shownAt cli line.host details, realHost cli d = line.host then ['-']
      else join ", ".toList reals

/-- Every line says what it should. -/
theorem accounts_of_mem {line : HostLine} (h : line ∈ (hostsReport cli details).lines) :
    Accounts cli details line := by
  obtain ⟨⟨host, row⟩, hmem, rfl⟩ := List.mem_map.mp h
  obtain ⟨hne, rfl⟩ := mem_hostRows hmem
  have htotals := @totals_rowOf cli (shownAt cli host details)
  refine ⟨hne, congrArg Totals.fileCount htotals, congrArg Totals.size htotals,
    names (rowOf cli (shownAt cli host details)).reals, sorted_names _, mem_names _, real_rowOf hne⟩

/-- **`cache hosts`**: a line for each host that is shown, in order, with the
    number of its entries, their sizes as `u64` adds them up, and a dash or
    the real hosts that they come from; the lines have every entry in one of
    them, and the head has them all. -/
theorem hosts_exact (cli : Cli) (details : List CacheEntryDetail) :
    ((hostsReport cli details).lines.map HostLine.host).Pairwise (· < ·) ∧
      (∀ d ∈ details, dispHost cli d ∈ (hostsReport cli details).lines.map HostLine.host) ∧
      (∀ line ∈ (hostsReport cli details).lines, Accounts cli details line) ∧
      (hostsReport cli details).hosts = (hostsReport cli details).lines.length ∧
      (hostsReport cli details).files = details.length ∧
      ((hostsReport cli details).lines.map HostLine.files).sum = details.length ∧
      (hostsReport cli details).total = sizesOf details % 2 ^ 64 := by
  have hsorted : Sorted (hostRows cli details) := sorted_groups details
  refine ⟨?_, fun d hd => ?_, fun line => accounts_of_mem, (List.length_map _).symm, rfl, ?_,
    sum_sizes details⟩
  · show (((hostRows cli details).map hostLine).map HostLine.host).Pairwise (· < ·)
    rw [List.map_map]
    exact List.pairwise_map.mpr hsorted
  · have hne : shownAt cli (dispHost cli d) details ≠ [] :=
      List.ne_nil_of_mem (List.mem_filter.mpr ⟨hd, decide_eq_true rfl⟩)
    have hrow : (dispHost cli d, rowOf cli (shownAt cli (dispHost cli d) details))
        ∈ hostRows cli details := (mem_iff_get hsorted).mpr ((get_hostRows _).2 hne)
    exact List.mem_map.mpr ⟨_, List.mem_map_of_mem hrow, rfl⟩
  · show (((hostRows cli details).map hostLine).map HostLine.files).sum = details.length
    rw [List.map_map]
    exact sum_files details

/-! ## The same host in `tree` -/

/-- The entries of other aliases that come from the host. -/
def fromOthers (cli : Cli) (host : Text) (details : List CacheEntryDetail) :
    List CacheEntryDetail :=
  details.filter fun d => decide (realHost cli d = host ∧ dispHost cli d ≠ host)

/-- The entries of a host, one by one. -/
theorem shownAt_cons (host : Text) (d : CacheEntryDetail) (ds : List CacheEntryDetail) :
    shownAt cli host (d :: ds)
      = if dispHost cli d = host then d :: shownAt cli host ds else shownAt cli host ds := by
  rw [shownAt, List.filter_cons]
  simp only [decide_eq_true_eq]
  rfl

/-- The entries from elsewhere, one by one. -/
theorem fromOthers_cons (host : Text) (d : CacheEntryDetail) (ds : List CacheEntryDetail) :
    fromOthers cli host (d :: ds) = if realHost cli d = host ∧ dispHost cli d ≠ host then
      d :: fromOthers cli host ds else fromOthers cli host ds := by
  rw [fromOthers, List.filter_cons]
  simp only [decide_eq_true_eq]
  rfl

/-- The tree shows an entry that goes by the host. -/
theorem treeEntry_some {d : CacheEntryDetail} (h : dispHost cli d = host ∨ realHost cli d = host) :
    ∃ e, treeEntry cli host [] d = some e ∧ e.size = d.size := by
  have hmatch : (cli.resolved d.url).hostMatches host = true := by
    rw [Resolved.hostMatches, Bool.or_eq_true, beq_iff_eq, beq_iff_eq]
    exact h
  rw [treeEntry, hmatch]
  exact ⟨_, rfl, rfl⟩

/-- The tree shows no other entry. -/
theorem treeEntry_none {d : CacheEntryDetail}
    (h : ¬ (dispHost cli d = host ∨ realHost cli d = host)) : treeEntry cli host [] d = none := by
  have hmatch : (cli.resolved d.url).hostMatches host = false := by
    rw [Resolved.hostMatches, ← Bool.not_eq_true, Bool.or_eq_true, beq_iff_eq, beq_iff_eq]
    exact h
  rw [treeEntry, hmatch]
  rfl

theorem sizesOf_cons (d : CacheEntryDetail) (ds : List CacheEntryDetail) :
    sizesOf (d :: ds) = d.size + sizesOf ds := List.sum_cons

/-- The entries of `tree` are those of the row, and those. -/
theorem treeEntries_sum (host : Text) (ds : List CacheEntryDetail) :
    (ds.filterMap (treeEntry cli host [])).length
        = (shownAt cli host ds).length + (fromOthers cli host ds).length ∧
      sizes (ds.filterMap (treeEntry cli host []))
        = sizesOf (shownAt cli host ds) + sizesOf (fromOthers cli host ds) := by
  induction ds with
  | nil => exact ⟨rfl, rfl⟩
  | cons d ds ih =>
      obtain ⟨hlen, hsize⟩ := ih
      have hcons : ∀ {e : TreeEntry} {es : List TreeEntry}, sizes (e :: es) = e.size + sizes es :=
        List.sum_cons
      rw [shownAt_cons, fromOthers_cons]
      by_cases hdisp : dispHost cli d = host
      · obtain ⟨e, he, hesize⟩ := treeEntry_some (Or.inl hdisp)
        rw [if_pos hdisp, if_neg fun h => h.2 hdisp, List.filterMap_cons_some he, hcons,
          List.length_cons, List.length_cons, sizesOf_cons]
        constructor <;> omega
      · by_cases hreal : realHost cli d = host
        · obtain ⟨e, he, hesize⟩ := treeEntry_some (Or.inr hreal)
          rw [if_neg hdisp, if_pos ⟨hreal, hdisp⟩, List.filterMap_cons_some he, hcons,
            List.length_cons, List.length_cons, sizesOf_cons]
          constructor <;> omega
        · rw [if_neg hdisp, if_neg fun h => hreal h.1,
            List.filterMap_cons_none (treeEntry_none fun h => h.elim hdisp hreal)]
          exact ⟨hlen, hsize⟩

/-- **Two views of a host**: `tree` has the files of the row and besides them
    those of other aliases that come from the host, so the two agree if and
    only if there are none. -/
theorem hosts_tree_agree_iff {line : HostLine} (h : line ∈ (hostsReport cli details).lines) :
    ∃ root, cmdTree cli line.host [] details = some root ∧
      root.fileCount = line.files + (fromOthers cli line.host details).length ∧
      root.size = (line.size + sizesOf (fromOthers cli line.host details)) % 2 ^ 64 ∧
      (root.fileCount = line.files ↔
        ∀ d ∈ details, realHost cli d = line.host → dispHost cli d = line.host) := by
  have haccounts := accounts_of_mem h
  obtain ⟨hlen, hsize⟩ := @treeEntries_sum cli line.host details
  have hne : details.filterMap (treeEntry cli line.host []) ≠ [] := by
    intro hnil
    rw [hnil] at hlen
    have hpos := List.length_pos_iff.mpr haccounts.some_entry
    have hzero : 0 = _ := hlen
    omega
  obtain ⟨first, rest, hentries⟩ := List.exists_cons_of_ne_nil hne
  have hroot := totalsAt_insertAll first.host true
    (details.filterMap (treeEntry cli line.host [])) []
  rw [if_pos (Or.inl rfl), totalsAt_nil, below_nil] at hroot
  have hcount := congrArg Totals.fileCount (Option.some.inj hroot)
  have htotal := congrArg Totals.size (Option.some.inj hroot)
  refine ⟨insertAll (TreeNode.new first.host true) (details.filterMap (treeEntry cli line.host [])),
    ?_, ?_, ?_, ?_⟩
  · rw [cmdTree, treeOf, hentries]
    rfl
  · rw [haccounts.files]
    exact hcount.trans hlen
  · refine htotal.trans ?_
    show sizes _ % 2 ^ 64 = _
    rw [haccounts.size, hsize, Nat.mod_add_mod]
  · have hcount : _ = line.files + (fromOthers cli line.host details).length :=
      (hcount.trans hlen).trans (by rw [haccounts.files])
    rw [show (insertAll _ _).fileCount = _ from hcount, Nat.add_eq_left, List.length_eq_zero_iff,
      fromOthers, List.filter_eq_nil_iff]
    constructor
    · intro hnone d hd hreal
      by_contra hdisp
      exact hnone d hd (decide_eq_true ⟨hreal, hdisp⟩)
    · intro hall d hd hyes
      obtain ⟨hreal, hdisp⟩ := of_decide_eq_true hyes
      exact hdisp (hall d hd hreal)

/-- `d` is an alias of what is under `http://h/a`. -/
def aliasCli : Cli := ⟨parseHttp, [⟨['d'], "http://h/a".toList⟩], fun _ _ => false⟩

/-- One file under the alias, and one beside it. -/
def twoFiles : List CacheEntryDetail :=
  [entryAt "http://h/a/x".toList, entryAt "http://h/b".toList]

theorem hosts_tree_agree_twoFiles :
    ∃ root, cmdTree aliasCli ['h'] [] twoFiles = some root ∧
      root.fileCount = 1 + (fromOthers aliasCli ['h'] twoFiles).length ∧
      root.size = (1 + sizesOf (fromOthers aliasCli ['h'] twoFiles)) % 2 ^ 64 ∧
      (root.fileCount = 1 ↔
        ∀ d ∈ twoFiles, realHost aliasCli d = ['h'] → dispHost aliasCli d = ['h']) := by
  have hline : (⟨['h'], ['-'], 1, 1⟩ : HostLine) ∈ (hostsReport aliasCli twoFiles).lines := by
    decide
  exact hosts_tree_agree_iff hline

end BlitzHostRows
