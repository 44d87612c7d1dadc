import AptBlitz.CacheEviction
import AptBlitz.Library.OsPaths

/-! # What the cache removes

    The paths that go to `remove_file`: those of the rows that are deleted,
    cleared or evicted, and the temp files of `clear_all`.  They are joined to
    the cache directory, and where `delete_by_urls` and `clear_all` guard them
    they do so with the dots still in.

    `removals_inside_iff` says of each of the three which `file_path`s keep it
    in the cache directory.  The directory counts as inside of itself, and
    symbolic links are not followed. -/

namespace BlitzRemoval

open RustText RustOs Paths BlitzCache BlitzCacheEviction Eviction

variable {φ : Type} {dir p : OsText} {d d' : Disk φ} {H : UrlHash} {rows : AList fun _ : Text => Row}
  {hash : Text} {row : Row} {urls victims : List Text} {maxSize : Nat}

/-- `dir.join(file_path)`. -/
def fullPath (dir : OsText) (row : Row) : OsText := join dir (ofText row.filePath)

/-- `full.starts_with(&dir)`. -/
def guarded (dir : OsText) (row : Row) : Bool := startsWith (fullPath dir row) dir

/-- The loop body of `delete_by_urls`: the rows left, and what is removed. -/
def deleteByUrlRemoves (dir : OsText) (H : UrlHash) (rows : AList fun _ : Text => Row)
    (url : Text) : (AList fun _ : Text => Row) × List OsText :=
  match rows.lookup (H.hash url) with
  | some row =>
      (rows.erase (H.hash url), if guarded dir row then [fullPath dir row] else [])
  | none => (rows, [])

/-- `delete_by_urls`: the rows it leaves, and the files it removes. -/
def deleteByUrlsRemoves (dir : OsText) (H : UrlHash) (rows : AList fun _ : Text => Row) :
    List Text → (AList fun _ : Text => Row) × List OsText
  | [] => (rows, [])
  | url :: urls =>
      let first := deleteByUrlRemoves dir H rows url
      let rest := deleteByUrlsRemoves dir H first.1 urls
      (rest.1, first.2 ++ rest.2)

/-- The name of an entry that `read_dir` gives. -/
structure EntryName where
  text : OsText
  ne_nil : text ≠ []
  no_separator : separator ∉ text
  ne_dot : text ≠ dot
  ne_dotdot : text ≠ dotdot

/-- The directory of the downloads. -/
def tmp : OsText := ofText ['t', 'm', 'p']

/-- The extension of a download. -/
def download : OsText := ofText ['d', 'o', 'w', 'n', 'l', 'o', 'a', 'd']

/-- `clear_all`, where `entries` are in `tmp`. -/
def clearAllRemoves (dir : OsText) (rows : AList fun _ : Text => Row) (entries : List EntryName) :
    List OsText :=
  ((rows.entries.map Sigma.snd).filter (guarded dir)).map (fullPath dir) ++
    (entries.map fun e => join (join dir tmp) e.text).filter fun p => extension p = some download

/-- What `evict_inner` removes for the rows that the database chose. -/
def evictInnerRemoves (dir : OsText) (d : Disk φ) : List Text → List OsText
  | [] => []
  | hash :: victims => match d.rows.lookup hash with
    | none => []
    | some row => fullPath dir row :: evictInnerRemoves dir (d.remove hash row.filePath) victims

/-! ## The guard -/

/-! ## `delete_by_urls` -/

/-- A file that is removed is that of a URL's row. -/
theorem mem_deleteByUrlsRemoves : p ∈ (deleteByUrlsRemoves dir H rows urls).2 ↔
    ∃ url ∈ urls, ∃ row, rows.lookup (H.hash url) = some row ∧ guarded dir row = true ∧
      fullPath dir row = p := by
  induction urls generalizing rows with
  | nil => simp [deleteByUrlsRemoves]
  | cons url urls ih =>
      rw [deleteByUrlsRemoves, List.mem_append, ih, List.exists_mem_cons_iff]
      cases hrow : rows.lookup (H.hash url) with
      | none => simp [deleteByUrlRemoves, hrow]
      | some row =>
          have hfirst : p ∈ (deleteByUrlRemoves dir H rows url).2 ↔
              guarded dir row = true ∧ fullPath dir row = p := by
            simp only [deleteByUrlRemoves, hrow]
            split
            next hg => simp [hg, eq_comm]
            next hg => simp [hg]
          have hleft : (deleteByUrlRemoves dir H rows url).1 = rows.erase (H.hash url) := by
            simp only [deleteByUrlRemoves, hrow]
          rw [hfirst, hleft]
          constructor
          · rintro (⟨hg, hp⟩ | ⟨url', hurl, row', hrow', hg, hp⟩)
            · exact Or.inl ⟨row, rfl, hg, hp⟩
            · have hne : H.hash url' ≠ H.hash url := by
                intro heq
                rw [heq, AList.lookup_erase] at hrow'
                cases hrow'
              rw [AList.lookup_erase_ne hne] at hrow'
              exact Or.inr ⟨url', hurl, row', hrow', hg, hp⟩
          · rintro (⟨row', ⟨⟩, hg, hp⟩ | ⟨url', hurl, row', hrow', hg, hp⟩)
            · exact Or.inl ⟨hg, hp⟩
            · by_cases heq : H.hash url' = H.hash url
              · -- the row went with the first URL of its hash
                rw [heq, hrow] at hrow'
                cases hrow'
                exact Or.inl ⟨hg, hp⟩
              · refine Or.inr ⟨url', hurl, row', ?_, hg, hp⟩
                rw [AList.lookup_erase_ne heq]
                exact hrow'

/-! ## `clear_all` -/

/-- The name of an entry is one component. -/
theorem EntryName.kept (e : EntryName) : kept e.text = [e.text] := by
  rw [RustOs.kept, List.splitOn_eq_singleton e.no_separator]
  exact List.filter_eq_self.mpr (by simp [e.ne_nil, e.ne_dot])

/-- The name of an entry is a relative path. -/
theorem EntryName.relative (e : EntryName) : isAbsolute e.text = false := by
  refine decide_eq_false fun hhead => e.no_separator ?_
  exact List.mem_of_mem_head? hhead

/-- What is in `tmp` is in the cache directory. -/
theorem entry_inside (dir : OsText) (e : EntryName) :
    (locate (join (join dir tmp) e.text)).InsideOf (locate dir) := by
  have htmp : locate (join dir tmp) = walk (locate dir) [.name tmp] := locate_join rfl
  have hroute : route [.name tmp, .name e.text] = ⟨false, 0, [tmp, e.text]⟩ := rfl
  rw [locate_join e.relative, e.kept, htmp, ← walk_append, List.map_singleton, toMove,
    if_neg e.ne_dot, if_neg e.ne_dotdot, walk_insideOf_iff, List.singleton_append, hroute]
  exact comesBack_of_ups_eq_zero rfl

/-- What `clear_all` removes. -/
theorem mem_clearAllRemoves {entries : List EntryName} : p ∈ clearAllRemoves dir rows entries ↔
    (∃ h row, rows.lookup h = some row ∧ guarded dir row = true ∧ fullPath dir row = p) ∨
      ∃ e ∈ entries, join (join dir tmp) e.text = p ∧ extension p = some download := by
  have hrows : p ∈ ((rows.entries.map Sigma.snd).filter (guarded dir)).map (fullPath dir) ↔
      ∃ h row, rows.lookup h = some row ∧ guarded dir row = true ∧ fullPath dir row = p := by
    rw [List.mem_map]
    constructor
    · rintro ⟨row, hmem, hp⟩
      obtain ⟨hmem, hg⟩ := List.mem_filter.mp hmem
      obtain ⟨⟨h, row⟩, he, rfl⟩ := List.mem_map.mp hmem
      exact ⟨h, row, AList.mem_lookup_iff.mpr he, hg, hp⟩
    · rintro ⟨h, row, hrow, hg, hp⟩
      refine ⟨row, List.mem_filter.mpr ⟨?_, hg⟩, hp⟩
      exact List.mem_map.mpr ⟨⟨h, row⟩, AList.mem_lookup_iff.mp hrow, rfl⟩
  rw [clearAllRemoves, List.mem_append, hrows]
  refine or_congr Iff.rfl ?_
  rw [List.mem_filter, List.mem_map, decide_eq_true_iff]
  constructor
  · rintro ⟨⟨e, he, hp⟩, hext⟩
    exact ⟨e, he, hp, hext⟩
  · rintro ⟨e, he, hp, hext⟩
    exact ⟨⟨e, he, hp⟩, hext⟩

/-! ## `evict_inner` -/

/-- An eviction removes the paths of the entries that it takes. -/
theorem evictInnerRemoves_eq {s t : Finset Entry} {is : List Entry}
    (h : Evicts Entry.lastAccess (Fits maxSize) s is t) (hs : table d = s) :
    evictInnerRemoves dir d (is.map Sigma.fst) = is.map fun e => fullPath dir e.2 := by
  induction h generalizing d with
  | done => rfl
  | @evict s t e is _ he _ _ ih =>
      subst hs
      have hrow := mem_table.mp he
      rw [List.map_cons, List.map_cons, evictInnerRemoves, hrow]
      exact congrArg (fullPath dir e.2 :: ·) (ih (table_remove hrow))

/-! ## Which removals stay inside -/

/-- A file is inside of the directory if its path stays in. -/
theorem inside_iff : (locate (fullPath dir row)).InsideOf (locate dir) ↔
    StaysIn dir (ofText row.filePath) := join_insideOf_iff _ _

/-- **`delete_by_urls`** removes inside if and only if the paths it takes stay
    in. -/
theorem delete_inside_iff :
    (∀ p ∈ (deleteByUrlsRemoves dir H rows urls).2, (locate p).InsideOf (locate dir)) ↔
      ∀ url ∈ urls, ∀ row, rows.lookup (H.hash url) = some row → guarded dir row = true →
        StaysIn dir (ofText row.filePath) := by
  constructor
  · intro hall url hurl row hrow hg
    exact inside_iff.mp (hall _ (mem_deleteByUrlsRemoves.mpr ⟨url, hurl, row, hrow, hg, rfl⟩))
  · intro hstays p hp
    obtain ⟨url, hurl, row, hrow, hg, rfl⟩ := mem_deleteByUrlsRemoves.mp hp
    exact inside_iff.mpr (hstays url hurl row hrow hg)

/-- **`clear_all`** removes inside if and only if the paths of all rows stay
    in. -/
theorem clear_inside_iff {entries : List EntryName} :
    (∀ p ∈ clearAllRemoves dir rows entries, (locate p).InsideOf (locate dir)) ↔
      ∀ h row, rows.lookup h = some row → guarded dir row = true →
        StaysIn dir (ofText row.filePath) := by
  constructor
  · intro hall h row hrow hg
    exact inside_iff.mp (hall _ (mem_clearAllRemoves.mpr (Or.inl ⟨h, row, hrow, hg, rfl⟩)))
  · intro hstays p hp
    rcases mem_clearAllRemoves.mp hp with ⟨h, row, hrow, hg, rfl⟩ | ⟨e, -, rfl, -⟩
    · exact inside_iff.mpr (hstays h row hrow hg)
    · exact entry_inside dir e

/-- **`evict_inner`** removes inside if and only if the paths of the rows that
    may be evicted stay in. -/
theorem evict_inside_iff :
    (∀ victims d', Disk.evictInner maxSize d victims = some d' →
      ∀ p ∈ evictInnerRemoves dir d victims, (locate p).InsideOf (locate dir)) ↔
      ∀ h row, d.rows.lookup h = some row → d.sizeSum < 2 ^ 63 →
        maxSize < sizeFrom d ⟨h, row⟩ → StaysIn dir (ofText row.filePath) := by
  constructor
  · intro hall h row hrow hsmall hbig
    obtain ⟨is, t, hev, hmem⟩ := exists_evicts_mem isLowerSet_fits fits_empty
      (mem_table.mpr hrow : (⟨h, row⟩ : Entry) ∈ table d) (Nat.not_le.mpr hbig)
    obtain ⟨d', hrun, -⟩ := evictInner_of_evicts hev rfl hsmall
    have hpath : fullPath dir row ∈ evictInnerRemoves dir d (is.map Sigma.fst) := by
      rw [evictInnerRemoves_eq hev rfl]
      exact List.mem_map.mpr ⟨_, hmem, rfl⟩
    exact inside_iff.mp (hall _ d' hrun _ hpath)
  · intro hstays victims d' hrun p hp
    by_cases hsmall : d.sizeSum < 2 ^ 63
    · obtain ⟨is, rfl, hev, -⟩ := evicts_of_evictInner hsmall hrun
      rw [evictInnerRemoves_eq hev rfl] at hp
      obtain ⟨e, he, rfl⟩ := List.mem_map.mp hp
      have hbig : maxSize < sizeFrom d e :=
        Nat.lt_of_not_le (hev.not_stop_notBelow isLowerSet_fits he)
      exact inside_iff.mpr (hstays e.1 e.2 (mem_table.mp (hev.mem he)) hsmall hbig)
    · obtain ⟨rfl, -⟩ := (evictInner_overflow hsmall).mp hrun
      cases hp

/-- **Removal, exactly**: `delete_by_urls` and `clear_all` stay in the cache
    directory if and only if the paths that pass their guard do, and
    `evict_inner` if and only if the paths of all rows that may be evicted
    do. -/
theorem removals_inside_iff (dir : OsText) (d : Disk φ) (H : UrlHash) (urls : List Text)
    (entries : List EntryName) (maxSize : Nat) :
    ((∀ p ∈ (deleteByUrlsRemoves dir H d.rows urls).2, (locate p).InsideOf (locate dir)) ↔
      ∀ url ∈ urls, ∀ row, d.rows.lookup (H.hash url) = some row → guarded dir row = true →
        StaysIn dir (ofText row.filePath)) ∧
    ((∀ p ∈ clearAllRemoves dir d.rows entries, (locate p).InsideOf (locate dir)) ↔
      ∀ h row, d.rows.lookup h = some row → guarded dir row = true →
        StaysIn dir (ofText row.filePath)) ∧
    ((∀ victims d', Disk.evictInner maxSize d victims = some d' →
      ∀ p ∈ evictInnerRemoves dir d victims, (locate p).InsideOf (locate dir)) ↔
      ∀ h row, d.rows.lookup h = some row → d.sizeSum < 2 ^ 63 →
        maxSize < sizeFrom d ⟨h, row⟩ → StaysIn dir (ofText row.filePath)) :=
  ⟨delete_inside_iff, clear_inside_iff, evict_inside_iff⟩

/-- A row whose file is out of the cache directory. -/
def climbing : Disk Nat where
  rows := AList.singleton ['h', 'a'] ⟨['a'], 6, 5, "../../etc/passwd".toList, [], 5⟩
  files := ∅

/-- The cache directory of the example. -/
def cacheDir : OsText := ofText "/var/cache".toList

/-- All three remove `/etc/passwd`. -/
theorem not_removals_inside :
    (deleteByUrlsRemoves cacheDir markedHash climbing.rows [['a']]).2
        = [ofText "/var/cache/../../etc/passwd".toList] ∧
      clearAllRemoves cacheDir climbing.rows []
        = [ofText "/var/cache/../../etc/passwd".toList] ∧
      (∃ d', Disk.evictInner 0 climbing [['h', 'a']] = some d') ∧
      evictInnerRemoves cacheDir climbing [['h', 'a']]
        = [ofText "/var/cache/../../etc/passwd".toList] ∧
      locate (ofText "/var/cache/../../etc/passwd".toList)
        = ⟨true, 0, [ofText "etc".toList, ofText "passwd".toList]⟩ ∧
      ¬ (locate (ofText "/var/cache/../../etc/passwd".toList)).InsideOf (locate cacheDir) := by
  refine ⟨?_, ?_, ⟨_, rfl⟩, ?_, ?_, ?_⟩
  · decide
  · decide
  · decide
  · decide
  · decide

end BlitzRemoval
