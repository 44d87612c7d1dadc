import AptBlitz.Cache

/-! # Rows and files

    What the operations of the cache do to the row of a hash and to the file
    at its path.  `At R d h` says that hash `h` has neither, or has both and
    they are in relation `R`; the lemmas below say when an operation keeps
    that, for any `R`. -/

namespace BlitzCacheDisk

open RustText BlitzHeaders BlitzCache Disk

variable {φ : Type} {R : Row → φ → Prop} {H : UrlHash} {d d' : Disk φ} {h hash url : Text}
  {row : Row} {victims : List Text} {maxSize : Nat}

/-! ## File names -/

/-- Two hashes have two files. -/
theorem fileName_injective : Function.Injective fileName := by
  intro h h' heq
  have hlen := congrArg List.length heq
  simp only [fileName, List.length_append, List.length_take, List.length_cons] at hlen
  have heq : h.take 2 ++ '/' :: h = h'.take 2 ++ '/' :: h' := heq
  obtain ⟨-, htail⟩ := List.append_inj heq (by simp only [List.length_take]; omega)
  exact (List.cons.inj htail).2

/-- The file of a URL is in the cache directory. -/
theorem underDir_fileName (url : Text) : underDir (fileName (H.hash url)) = true := by
  simpa [underDir] using H.relative url

/-! ## Well-formed disks -/

/-- Every row has its hash and path from its URL, and every file is where a
    URL's file is. -/
structure WellFormed (H : UrlHash) (d : Disk φ) : Prop where
  rows : ∀ h row, d.rows.lookup h = some row → h = H.hash row.url ∧ row.filePath = fileName h
  files : ∀ p f, d.files.lookup p = some f → ∃ url, p = fileName (H.hash url)

/-- Hash `h` has no row and no file, or a row and a file in relation `R`. -/
def At (R : Row → φ → Prop) (d : Disk φ) (h : Text) : Prop :=
  Option.Rel R (d.rows.lookup h) (d.files.lookup (fileName h))

theorem wellFormed_empty : WellFormed H (Disk.empty : Disk φ) :=
  ⟨fun _ _ hrow => (nomatch hrow), fun _ _ hf => (nomatch hf)⟩

/-- In an empty cache there is neither row nor file. -/
theorem at_empty : At R Disk.empty h := Option.Rel.none

/-- A row and a file that belong together. -/
theorem at_of_some {f : φ} (hrow : d.rows.lookup h = some row)
    (hf : d.files.lookup (fileName h) = some f) (hR : R row f) : At R d h := by
  rw [At]
  rw [hrow, hf]
  exact .some hR

theorem at_of_none (hrow : d.rows.lookup h = none) (hf : d.files.lookup (fileName h) = none) :
    At R d h := by
  rw [At]
  rw [hrow, hf]
  exact .none

theorem at_of_eq (hat : At R d h) (hrows : d'.rows.lookup h = d.rows.lookup h)
    (hfiles : d'.files.lookup (fileName h) = d.files.lookup (fileName h)) : At R d' h := by
  rw [At]
  rw [hrows, hfiles]
  exact hat

/-- A row that has what it should, has a file. -/
theorem At.has_file (hat : At R d h) (hrow : d.rows.lookup h = some row) :
    ∃ f, d.files.lookup (fileName h) = some f ∧ R row f := by
  rw [At] at hat
  rw [hrow] at hat
  cases hf : d.files.lookup (fileName h) with
  | none => rw [hf] at hat; exact nomatch hat
  | some f =>
      rw [hf] at hat
      cases hat with
      | some hR => exact ⟨f, rfl, hR⟩

/-- A file has its row. -/
theorem At.has_row {f : φ} (hat : At R d h) (hf : d.files.lookup (fileName h) = some f) :
    ∃ row, d.rows.lookup h = some row ∧ R row f := by
  rw [At] at hat
  rw [hf] at hat
  cases hrow : d.rows.lookup h with
  | none => rw [hrow] at hat; exact nomatch hat
  | some row =>
      rw [hrow] at hat
      cases hat with
      | some hR => exact ⟨row, rfl, hR⟩

/-! ## Removing a row with its file -/

/-- A removed hash has neither row nor file, the others keep theirs. -/
theorem lookup_remove : (d.remove hash (fileName hash)).rows.lookup h =
      (if h = hash then none else d.rows.lookup h) ∧
    (d.remove hash (fileName hash)).files.lookup (fileName h) =
      (if h = hash then none else d.files.lookup (fileName h)) := by
  by_cases hh : h = hash
  · subst hh
    rw [if_pos rfl, if_pos rfl]
    exact ⟨AList.lookup_erase .., Finmap.lookup_erase ..⟩
  · rw [if_neg hh, if_neg hh]
    exact ⟨AList.lookup_erase_ne hh, Finmap.lookup_erase_ne (mt (fun e => fileName_injective e) hh)⟩

/-- Rows and files less. -/
theorem wellFormed_of_sub (hwf : WellFormed H d)
    (hrows : ∀ h row, d'.rows.lookup h = some row → d.rows.lookup h = some row)
    (hfiles : ∀ p f, d'.files.lookup p = some f → d.files.lookup p = some f) :
    WellFormed H d' :=
  ⟨fun h row hrow => hwf.rows h row (hrows h row hrow),
    fun p f hf => hwf.files p f (hfiles p f hf)⟩

/-- A row less. -/
theorem lookup_erase_sub {rows : AList fun _ : Text => Row}
    (hrow : (rows.erase hash).lookup h = some row) : rows.lookup h = some row := by
  by_cases hh : h = hash
  · subst hh
    rw [AList.lookup_erase] at hrow
    exact nomatch hrow
  · rwa [AList.lookup_erase_ne hh] at hrow

/-- A file less. -/
theorem files_erase_sub {files : Finmap fun _ : Text => φ} {p q : Text} {f : φ}
    (hf : (files.erase q).lookup p = some f) : files.lookup p = some f := by
  by_cases hpq : p = q
  · subst hpq
    rw [Finmap.lookup_erase] at hf
    exact nomatch hf
  · rwa [Finmap.lookup_erase_ne hpq] at hf

theorem wellFormed_remove {p : Text} (hwf : WellFormed H d) : WellFormed H (d.remove hash p) :=
  wellFormed_of_sub hwf (fun _ _ => lookup_erase_sub) fun _ _ => files_erase_sub

/-- A hash loses both or keeps both. -/
theorem at_remove (hat : At R d h) : At R (d.remove hash (fileName hash)) h := by
  obtain ⟨hrows, hfiles⟩ := @lookup_remove _ d h hash
  by_cases hh : h = hash
  · rw [if_pos hh] at hrows hfiles
    exact at_of_none hrows hfiles
  · rw [if_neg hh] at hrows hfiles
    exact at_of_eq hat hrows hfiles

/-- Eviction removes the rows of its victims, with their files. -/
theorem evictInner_spec (hwf : WellFormed H d) (hev : evictInner maxSize d victims = some d') :
    WellFormed H d' ∧ ∀ h,
      d'.rows.lookup h = (if h ∈ victims then none else d.rows.lookup h) ∧
      d'.files.lookup (fileName h) =
        (if h ∈ victims then none else d.files.lookup (fileName h)) := by
  induction victims generalizing d with
  | nil =>
      simp only [evictInner] at hev
      split at hev
      · cases hev
        exact ⟨hwf, fun h => by simp⟩
      · exact nomatch hev
  | cons hash victims ih =>
      simp only [evictInner] at hev
      split at hev
      · exact nomatch hev
      · split at hev
        next => exact nomatch hev
        next row hrow =>
          split at hev
          next =>
            -- the row names its own file, so row and file leave together
            rw [(hwf.rows hash row hrow).2] at hev
            obtain ⟨hwf', hspec⟩ := ih (wellFormed_remove hwf) hev
            refine ⟨hwf', ?_⟩
            intro h
            obtain ⟨hrows, hfiles⟩ := hspec h
            rw [hrows, hfiles, lookup_remove.1, lookup_remove.2]
            by_cases hh : h = hash
            · simp [hh]
            · simp [hh]
          next => exact nomatch hev

/-! ## Under the lock -/

/-- One row is changed, and no file. -/
theorem lookup_updateRow (f : Row → Row) :
    (d.updateRow hash f).rows.lookup h =
      (if h = hash then (d.rows.lookup h).map f else d.rows.lookup h) ∧
    (d.updateRow hash f).files = d.files := by
  rw [updateRow]
  cases hrow : d.rows.lookup hash with
  | none =>
      by_cases hh : h = hash
      · subst hh
        rw [if_pos rfl, hrow]
        exact ⟨rfl, rfl⟩
      · rw [if_neg hh]
        exact ⟨rfl, rfl⟩
  | some row =>
      refine ⟨?_, rfl⟩
      by_cases hh : h = hash
      · subst hh
        rw [if_pos rfl, hrow]
        exact AList.lookup_insert _
      · rw [if_neg hh]
        exact AList.lookup_insert_ne hh

/-- A row that keeps its URL and its path. -/
theorem wellFormed_updateRow {f : Row → Row} (hwf : WellFormed H d)
    (hf : ∀ row, (f row).url = row.url ∧ (f row).filePath = row.filePath) :
    WellFormed H (d.updateRow hash f) := by
  refine ⟨?_, ?_⟩
  · intro h row hrow
    rw [(lookup_updateRow f).1] at hrow
    split at hrow
    next =>
      obtain ⟨old, hold, rfl⟩ := Option.map_eq_some_iff.mp hrow
      rw [(hf old).1, (hf old).2]
      exact hwf.rows h old hold
    next => exact hwf.rows h row hrow
  · rw [(@lookup_updateRow _ d [] hash f).2]
    exact hwf.files

theorem wellFormed_refresh {headers : HeaderMap} {now : Nat} (hwf : WellFormed H d) :
    WellFormed H (d.refresh H url headers now) :=
  wellFormed_updateRow hwf fun _ => ⟨rfl, rfl⟩

/-- The changed row still belongs to its file. -/
theorem at_updateRow {f : Row → Row} (hat : At R d h)
    (hf : ∀ row file, h = hash → d.rows.lookup h = some row →
      d.files.lookup (fileName h) = some file → R row file → R (f row) file) :
    At R (d.updateRow hash f) h := by
  obtain ⟨hrows, hfiles⟩ := @lookup_updateRow _ d h hash f
  by_cases hh : h = hash
  · rw [if_pos hh] at hrows
    cases hrow : d.rows.lookup h with
    | none =>
        rw [hrow] at hrows
        refine at_of_eq hat (by rw [hrows, hrow]; rfl) (by rw [hfiles])
    | some row =>
        obtain ⟨file, hfile, hR⟩ := hat.has_file hrow
        rw [hrow] at hrows
        exact at_of_some hrows (by rw [hfiles]; exact hfile) (hf row file hh hrow hfile hR)
  · rw [if_neg hh] at hrows
    exact at_of_eq hat hrows (by rw [hfiles])

/-- `lookup_entry` keeps URL and path, or removes both. -/
theorem wellFormed_lookupEntry {now : Nat} (hwf : WellFormed H d) :
    WellFormed H (d.lookupEntry H url now).1 := by
  rw [lookupEntry]
  split
  · split
    · exact wellFormed_updateRow hwf fun _ => ⟨rfl, rfl⟩
    · exact wellFormed_of_sub hwf (fun _ _ => lookup_erase_sub) fun _ _ => id
  · exact hwf

/-- `lookup_entry` at most notes the access, or drops a row without file. -/
theorem at_lookupEntry {now : Nat} (hwf : WellFormed H d) (hat : At R d h)
    (hR : ∀ row file, R row file → R { row with lastAccess := now } file) :
    At R (d.lookupEntry H url now).1 h := by
  rw [lookupEntry]
  cases hrow : d.rows.lookup (H.hash url) with
  | none => exact hat
  | some row =>
      dsimp only
      split
      next => exact at_updateRow hat fun row file _ _ _ => hR row file
      next hmissing =>
        refine at_of_eq hat ?_ rfl
        by_cases hh : h = H.hash url
        · -- the row has no file, so it cannot have been as it should
          subst hh
          obtain ⟨f, hf, -⟩ := hat.has_file hrow
          rw [(hwf.rows _ row hrow).2, ← Finmap.lookup_isSome, hf] at hmissing
          exact absurd rfl hmissing
        · exact AList.lookup_erase_ne hh

/-- A deletion removes a row with its file, or nothing. -/
theorem deleteByUrl_eq (hwf : WellFormed H d) (url : Text) : d.deleteByUrl H url = d ∨
    d.deleteByUrl H url = d.remove (H.hash url) (fileName (H.hash url)) := by
  rw [deleteByUrl]
  cases hrow : d.rows.lookup (H.hash url) with
  | none => exact Or.inl rfl
  | some row =>
      refine Or.inr ?_
      dsimp only
      rw [(hwf.rows _ row hrow).2, underDir_fileName]
      rfl

/-- **`delete_by_urls`** keeps a cache well-formed. -/
theorem wellFormed_deleteByUrls {urls : List Text} (hwf : WellFormed H d) :
    WellFormed H (d.deleteByUrls H urls) := by
  induction urls generalizing d with
  | nil => exact hwf
  | cons url urls ih =>
      show WellFormed H ((d.deleteByUrl H url).deleteByUrls H urls)
      rcases deleteByUrl_eq hwf url with heq | heq
      · rw [heq]
        exact ih hwf
      · rw [heq]
        exact ih (wellFormed_remove hwf)

/-- Each hash loses both or keeps both. -/
theorem at_deleteByUrls {urls : List Text} (hwf : WellFormed H d) (hat : At R d h) :
    At R (d.deleteByUrls H urls) h := by
  induction urls generalizing d with
  | nil => exact hat
  | cons url urls ih =>
      rcases deleteByUrl_eq hwf url with heq | heq
      · show At R ((d.deleteByUrl H url).deleteByUrls H urls) h
        rw [heq]
        exact ih hwf hat
      · show At R ((d.deleteByUrl H url).deleteByUrls H urls) h
        rw [heq]
        exact ih (wellFormed_remove hwf) (at_remove hat)

/-- The rows that one deletion leaves. -/
theorem rows_deleteByUrl :
    (d.deleteByUrl H url).rows.lookup h = if h = H.hash url then none else d.rows.lookup h := by
  rw [deleteByUrl]
  by_cases hh : h = H.hash url
  · subst hh
    rw [if_pos rfl]
    cases hrow : d.rows.lookup (H.hash url) with
    | none => exact hrow
    | some row => exact AList.lookup_erase ..
  · rw [if_neg hh]
    cases d.rows.lookup (H.hash url) with
    | none => rfl
    | some row => exact AList.lookup_erase_ne hh

/-- The rows that are deleted are those of the URLs. -/
theorem rows_deleteByUrls {urls : List Text} :
    (d.deleteByUrls H urls).rows.lookup h = some row ↔
      d.rows.lookup h = some row ∧ ∀ url ∈ urls, h ≠ H.hash url := by
  induction urls generalizing d with
  | nil => simp [deleteByUrls]
  | cons url urls ih =>
      show ((d.deleteByUrl H url).deleteByUrls H urls).rows.lookup h = some row ↔ _
      rw [ih, rows_deleteByUrl, List.forall_mem_cons]
      by_cases hh : h = H.hash url
      · simp [hh]
      · rw [if_neg hh]
        simp [hh]

/-- What is left of the files when those of some rows are removed. -/
def eraseFiles (entries : List (Sigma fun _ : Text => Row)) (files : Finmap fun _ : Text => φ) :
    Finmap fun _ : Text => φ :=
  entries.foldl
    (fun files e => if underDir e.2.filePath then files.erase e.2.filePath else files) files

/-- Files less. -/
theorem lookup_eraseFiles_sub {entries : List (Sigma fun _ : Text => Row)}
    {files : Finmap fun _ : Text => φ} {p : Text} {f : φ}
    (hf : (eraseFiles entries files).lookup p = some f) : files.lookup p = some f := by
  induction entries generalizing files with
  | nil => exact hf
  | cons e entries ih =>
      have hf : (if underDir e.2.filePath then files.erase e.2.filePath else files).lookup p
          = some f := ih hf
      split at hf
      · exact files_erase_sub hf
      · exact hf

/-- The file of a row is gone. -/
theorem lookup_eraseFiles_mem {entries : List (Sigma fun _ : Text => Row)}
    {files : Finmap fun _ : Text => φ} {e : Sigma fun _ : Text => Row} (he : e ∈ entries)
    (hunder : underDir e.2.filePath = true) :
    (eraseFiles entries files).lookup e.2.filePath = none := by
  induction entries generalizing files with
  | nil => exact nomatch he
  | cons e' entries ih =>
      rcases List.mem_cons.mp he with rfl | htail
      · cases hf : (eraseFiles (e :: entries) files).lookup e.2.filePath with
        | none => rfl
        | some f =>
            have hf : (eraseFiles entries (if underDir e.2.filePath then
              files.erase e.2.filePath else files)).lookup e.2.filePath = some f := hf
            rw [if_pos hunder] at hf
            exact nomatch (lookup_eraseFiles_sub hf).symm.trans (Finmap.lookup_erase ..)
      · exact ih htail

/-- **`clear_all`** keeps a cache well-formed. -/
theorem wellFormed_clearAll (hwf : WellFormed H d) : WellFormed H d.clearAll :=
  wellFormed_of_sub hwf (fun _ _ hrow => (nomatch hrow)) fun _ _ => lookup_eraseFiles_sub

/-- `clear_all` leaves no file whose row was there. -/
theorem at_clearAll (hwf : WellFormed H d) (hat : At R d (H.hash url)) :
    At R d.clearAll (H.hash url) := by
  refine at_of_none rfl ?_
  cases hrow : d.rows.lookup (H.hash url) with
  | none =>
      cases hf : d.clearAll.files.lookup (fileName (H.hash url)) with
      | none => rfl
      | some f =>
          obtain ⟨row, hrow', -⟩ := hat.has_row (lookup_eraseFiles_sub hf)
          exact nomatch hrow.symm.trans hrow'
  | some row =>
      have hpath := (hwf.rows _ row hrow).2
      have hmem : (⟨H.hash url, row⟩ : Sigma fun _ : Text => Row) ∈ d.rows.entries :=
        AList.mem_lookup_iff.mp hrow
      rw [← hpath]
      exact lookup_eraseFiles_mem hmem (by rw [hpath]; exact underDir_fileName url)

/-! ## Disks that shrink -/

/-- Rows and files are removed, or a row's times change; no row gets other
    headers. -/
structure Shrinks (d d' : Disk φ) : Prop where
  rows : ∀ h row', d'.rows.lookup h = some row' →
    ∃ row, d.rows.lookup h = some row ∧ row'.headers = row.headers
  files : ∀ p f, d'.files.lookup p = some f → d.files.lookup p = some f

theorem Shrinks.refl (d : Disk φ) : Shrinks d d :=
  ⟨fun _ row hrow => ⟨row, hrow, rfl⟩, fun _ _ => id⟩

/-- One loss after the other. -/
theorem Shrinks.trans {d'' : Disk φ} (h : Shrinks d d') (h' : Shrinks d' d'') : Shrinks d d'' := by
  refine ⟨?_, fun p f hf => h.files p f (h'.files p f hf)⟩
  intro hash row'' hrow''
  obtain ⟨row', hrow', heq'⟩ := h'.rows hash row'' hrow''
  obtain ⟨row, hrow, heq⟩ := h.rows hash row' hrow'
  exact ⟨row, hrow, heq'.trans heq⟩

theorem shrinks_of_sub
    (hrows : ∀ h row, d'.rows.lookup h = some row → d.rows.lookup h = some row)
    (hfiles : ∀ p f, d'.files.lookup p = some f → d.files.lookup p = some f) :
    Shrinks d d' :=
  ⟨fun h row hrow => ⟨row, hrows h row hrow, rfl⟩, hfiles⟩

/-- `lookup_entry` adds nothing. -/
theorem shrinks_lookupEntry {now : Nat} : Shrinks d (d.lookupEntry H url now).1 := by
  rw [lookupEntry]
  split
  · split
    · refine ⟨?_, ?_⟩
      · intro h row' hrow'
        rw [(lookup_updateRow _).1] at hrow'
        split at hrow'
        · obtain ⟨row, hrow, rfl⟩ := Option.map_eq_some_iff.mp hrow'
          exact ⟨row, hrow, rfl⟩
        · exact ⟨row', hrow', rfl⟩
      · intro p f hf
        rwa [(@lookup_updateRow _ d [] _ _).2] at hf
    · exact shrinks_of_sub (fun _ _ => lookup_erase_sub) fun _ _ => id
  · exact .refl d

/-- A deletion adds nothing. -/
theorem shrinks_deleteByUrl : Shrinks d (d.deleteByUrl H url) := by
  rw [deleteByUrl]
  split
  · refine shrinks_of_sub (fun _ _ => lookup_erase_sub) ?_
    intro p f hf
    dsimp only at hf
    split at hf
    · exact files_erase_sub hf
    · exact hf
  · exact .refl d

theorem shrinks_deleteByUrls {urls : List Text} : Shrinks d (d.deleteByUrls H urls) := by
  induction urls generalizing d with
  | nil => exact .refl d
  | cons url urls ih => exact shrinks_deleteByUrl.trans ih

theorem shrinks_clearAll : Shrinks d d.clearAll :=
  shrinks_of_sub (fun _ _ hrow => (nomatch hrow)) fun _ _ => lookup_eraseFiles_sub

/-! ## `store` -/

/-- The renamed file is that of its URL. -/
theorem lookup_rename {content : φ} :
    (d.rename H url content).files.lookup (fileName h) =
      if h = H.hash url then some content else d.files.lookup (fileName h) := by
  by_cases hh : h = H.hash url
  · subst hh
    rw [if_pos rfl]
    exact Finmap.lookup_insert _
  · rw [if_neg hh]
    exact Finmap.lookup_insert_of_ne _ (mt (fun e => fileName_injective e) hh)

/-- A rename puts the file where it belongs. -/
theorem wellFormed_rename {content : φ} (hwf : WellFormed H d) :
    WellFormed H (d.rename H url content) := by
  refine ⟨hwf.rows, ?_⟩
  intro p f hf
  by_cases hp : p = fileName (H.hash url)
  · exact ⟨url, hp⟩
  · exact hwf.files p f ((Finmap.lookup_insert_of_ne _ hp).symm.trans hf)

/-- The row that `store` inserts. -/
def newRow (H : UrlHash) (url : Text) (size : Nat) (headers : HeaderMap) (now : Nat) : Row :=
  ⟨url, size, now, fileName (H.hash url), headersToMap headers, now⟩

section

variable {size now : Nat} {headers : HeaderMap}

/-- An insert writes a row that belongs there. -/
theorem wellFormed_insertEntry (hwf : WellFormed H d) :
    WellFormed H (d.insertEntry H url size headers now) := by
  refine ⟨?_, hwf.files⟩
  intro h row hrow
  by_cases hh : h = H.hash url
  · subst hh
    have hrow : some (newRow H url size headers now) = some row :=
      (AList.lookup_insert _).symm.trans hrow
    cases hrow
    exact ⟨rfl, rfl⟩
  · exact hwf.rows h row ((AList.lookup_insert_ne hh).symm.trans hrow)

/-- The other rows keep what they have, unless they are evicted. -/
theorem storeLocked_other (hwf : WellFormed H d) (hat : At R d h) (hh : h ≠ H.hash url)
    (hs : d.storeLocked maxSize H url size headers now victims = some d') : At R d' h := by
  obtain ⟨-, hspec⟩ := evictInner_spec (wellFormed_insertEntry hwf) hs
  obtain ⟨hrows, hfiles⟩ := hspec h
  by_cases hv : h ∈ victims
  · rw [if_pos hv] at hrows hfiles
    exact at_of_none hrows hfiles
  · rw [if_neg hv] at hrows hfiles
    exact at_of_eq hat (hrows.trans (AList.lookup_insert_ne hh)) hfiles

/-- The new row has what it should exactly if it is evicted at once, or the
    file that is there is in relation with it. -/
theorem storeLocked_self (hwf : WellFormed H d)
    (hs : d.storeLocked maxSize H url size headers now victims = some d') :
    At R d' (H.hash url) ↔ H.hash url ∈ victims ∨
      ∃ f, d.files.lookup (fileName (H.hash url)) = some f ∧
        R (newRow H url size headers now) f := by
  obtain ⟨-, hspec⟩ := evictInner_spec (wellFormed_insertEntry hwf) hs
  obtain ⟨hrows, hfiles⟩ := hspec (H.hash url)
  by_cases hv : H.hash url ∈ victims
  · rw [if_pos hv] at hrows hfiles
    exact ⟨fun _ => Or.inl hv, fun _ => at_of_none hrows hfiles⟩
  · rw [if_neg hv] at hrows hfiles
    have hrow : d'.rows.lookup (H.hash url) = some (newRow H url size headers now) :=
      hrows.trans (AList.lookup_insert _)
    have hfiles : d'.files.lookup (fileName (H.hash url))
        = d.files.lookup (fileName (H.hash url)) := hfiles
    constructor
    · intro hat
      obtain ⟨f, hf, hR⟩ := hat.has_file hrow
      exact Or.inr ⟨f, hfiles.symm.trans hf, hR⟩
    · rintro (hin | ⟨f, hf, hR⟩)
      · exact absurd hin hv
      · exact at_of_some hrow (hfiles.trans hf) hR

/-- A row after `store` is the new one, or was there. -/
theorem storeLocked_row {row' : Row} (hwf : WellFormed H d)
    (hs : d.storeLocked maxSize H url size headers now victims = some d')
    (hrow' : d'.rows.lookup h = some row') :
    (h = H.hash url ∧ row' = newRow H url size headers now) ∨
      (h ≠ H.hash url ∧ d.rows.lookup h = some row') := by
  obtain ⟨-, hspec⟩ := evictInner_spec (wellFormed_insertEntry hwf) hs
  rw [(hspec h).1] at hrow'
  split at hrow'
  · exact nomatch hrow'
  · by_cases hh : h = H.hash url
    · subst hh
      have hnew : some (newRow H url size headers now) = some row' :=
        (AList.lookup_insert _).symm.trans hrow'
      exact Or.inl ⟨rfl, (Option.some.inj hnew).symm⟩
    · exact Or.inr ⟨hh, (AList.lookup_insert_ne hh).symm.trans hrow'⟩

/-- `store` adds no file under the lock, and removes those of its victims. -/
theorem storeLocked_file {f : φ} (hwf : WellFormed H d)
    (hs : d.storeLocked maxSize H url size headers now victims = some d')
    (hf : d'.files.lookup (fileName h) = some f) :
    h ∉ victims ∧ d.files.lookup (fileName h) = some f := by
  obtain ⟨-, hspec⟩ := evictInner_spec (wellFormed_insertEntry hwf) hs
  rw [(hspec h).2] at hf
  split at hf
  · exact nomatch hf
  · exact ⟨by assumption, hf⟩

/-- **`store`**, under the lock, keeps a cache well-formed. -/
theorem wellFormed_storeLocked (hwf : WellFormed H d)
    (hs : d.storeLocked maxSize H url size headers now victims = some d') : WellFormed H d' :=
  (evictInner_spec (wellFormed_insertEntry hwf) hs).1

end

end BlitzCacheDisk
