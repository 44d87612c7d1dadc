import AptBlitz.CacheEviction

/-! # `store` with calls that fail

    `Cache::store` moves the temp file over the old file of the URL before
    it has done the rest of its work, and any of its calls can fail.  Which
    ones do is given; each error of `store` names the call it comes from.
    The caller then removes the temp file.

    `storeKeeps_iff` says which failures leave the cache as it was. -/

namespace BlitzStoreErrors

open RustText BlitzHeaders BlitzCache Disk BlitzCacheDisk BlitzCacheEviction

/-- The calls of `store` whose errors it returns.  `insert` is the task it
    spawns, up to the `INSERT`. -/
inductive Call where
  | createDirAll
  | rename
  | metadata
  | serialise
  | insert
  deriving DecidableEq

variable {φ : Type}

/-- The cache, and the temp file that is to be stored. -/
structure Dir (φ : Type) where
  disk : Disk φ
  temp : Option φ

/-- `store`; `fails` tells the calls that go wrong.  A rename also does when
    there is no temp file. -/
def store (K : Config φ) (fails : Call → Bool) (s : Dir φ) (url : Text) (headers : HeaderMap)
    (now : Nat) (victims : List Text) : Option (Dir φ × Except Call Text) :=
  if fails .createDirAll then some (s, .error .createDirAll)
  else if fails .rename then some (s, .error .rename)
  else match s.temp with
    | none => some (s, .error .rename)
    | some content =>
        let s : Dir φ := ⟨s.disk.rename K.urlHash url content, none⟩
        if fails .metadata then some (s, .error .metadata)
        else match s.disk.metadata K.len K.urlHash url with
          | none => some (s, .error .metadata)
          | some size =>
              if fails .serialise then some (s, .error .serialise)
              else if fails .insert then some (s, .error .insert)
              else (s.disk.storeLocked K.maxSize K.urlHash url size headers now victims).map
                fun disk => (⟨disk, none⟩, .ok (fileName (K.urlHash.hash url)))

/-- The caller's `remove_file(buffer.file_path())`. -/
def Dir.removeTemp (s : Dir φ) : Dir φ := { s with temp := none }

/-! ## What `store` leaves behind -/

variable {K : Config φ} {fails : Call → Bool} {s s' : Dir φ} {url : Text} {headers : HeaderMap}
  {now : Nat} {victims : List Text} {content : φ} {e : Call}

/-- The temp file goes to its place. -/
def Moves (fails : Call → Bool) (s : Dir φ) (content : φ) : Prop :=
  fails .createDirAll = false ∧ fails .rename = false ∧ s.temp = some content

/-- A store that cannot move its file changes nothing. -/
theorem store_of_not_moves (K : Config φ) (url : Text) (headers : HeaderMap) (now : Nat)
    (victims : List Text) (h : ∀ content, ¬ Moves fails s content) :
    ∃ e, store K fails s url headers now victims = some (s, .error e) := by
  rw [store]
  split
  · exact ⟨_, rfl⟩
  next hcreate =>
    split
    · exact ⟨_, rfl⟩
    next hrename =>
      cases htemp : s.temp with
      | none => exact ⟨_, rfl⟩
      | some content =>
          exact absurd ⟨Bool.eq_false_iff.mpr hcreate, Bool.eq_false_iff.mpr hrename, htemp⟩
            (h content)

/-- Once the file is in place, `store` either fails and leaves it there, or
    does what is left to do. -/
theorem store_of_moves (h : Moves fails s content) :
    store K fails s url headers now victims
      = if fails .metadata then
          some (⟨s.disk.rename K.urlHash url content, none⟩, .error .metadata)
        else if fails .serialise then
          some (⟨s.disk.rename K.urlHash url content, none⟩, .error .serialise)
        else if fails .insert then
          some (⟨s.disk.rename K.urlHash url content, none⟩, .error .insert)
        else (BlitzCacheEviction.store s.disk K.len K.maxSize K.urlHash url content headers now
            victims).map fun disk => (⟨disk, none⟩, .ok (fileName (K.urlHash.hash url))) := by
  obtain ⟨hcreate, hrename, htemp⟩ := h
  have hsize : (s.disk.rename K.urlHash url content).metadata K.len K.urlHash url
      = some (K.len content) := by
    have hfile : (s.disk.rename K.urlHash url content).files.lookup
        (fileName (K.urlHash.hash url)) = some content := Finmap.lookup_insert _
    rw [metadata, hfile]
    rfl
  simp only [store, BlitzCacheEviction.store, hcreate, hrename, htemp, hsize, Bool.false_eq_true,
    if_false]

/-- A call after the rename fails. -/
def FailsLate (fails : Call → Bool) : Prop :=
  fails .metadata = true ∨ fails .serialise = true ∨ fails .insert = true

/-- A store that fails behind the rename leaves the file. -/
theorem store_late (K : Config φ) (url : Text) (headers : HeaderMap) (now : Nat)
    (victims : List Text) (h : Moves fails s content) (hlate : FailsLate fails) :
    ∃ e, store K fails s url headers now victims
      = some (⟨s.disk.rename K.urlHash url content, none⟩, .error e) := by
  rw [store_of_moves h]
  split
  · exact ⟨_, rfl⟩
  next hmetadata =>
    split
    · exact ⟨_, rfl⟩
    next hserialise =>
      rw [if_pos ((hlate.resolve_left hmetadata).resolve_left hserialise)]
      exact ⟨_, rfl⟩

/-- A store that moves its file and does not fail late fails nowhere. -/
theorem store_in_time (h : Moves fails s content) (hlate : ¬ FailsLate fails) :
    store K fails s url headers now victims ≠ some (s', .error e) := by
  rw [FailsLate, not_or, not_or] at hlate
  rw [store_of_moves h, if_neg hlate.1, if_neg hlate.2.1, if_neg hlate.2.2]
  intro herr
  obtain ⟨disk, -, heq⟩ := Option.map_eq_some_iff.mp herr
  cases congrArg Prod.snd heq

/-- A rename changes nothing exactly when the file is there already. -/
theorem rename_eq_iff {d : Disk φ} {H : UrlHash} :
    d.rename H url content = d ↔ d.files.lookup (fileName (H.hash url)) = some content := by
  constructor
  · intro heq
    have hfile : (d.rename H url content).files.lookup (fileName (H.hash url)) = some content :=
      Finmap.lookup_insert _
    rwa [heq] at hfile
  · intro hfile
    have hfiles : d.files.insert (fileName (H.hash url)) content = d.files := by
      refine Finmap.ext_lookup fun p => ?_
      by_cases hp : p = fileName (H.hash url)
      · subst hp
        rw [Finmap.lookup_insert, hfile]
      · exact Finmap.lookup_insert_of_ne _ hp
    rw [rename, hfiles]

/-! ## The failures that leave the cache alone -/

/-- Whenever `store` fails, the rows and the files are what they were, once
    the caller has removed the temp file. -/
def StoreKeeps (K : Config φ) (fails : Call → Bool) (s : Dir φ) (url : Text)
    (headers : HeaderMap) (now : Nat) : Prop :=
  ∀ victims s' e, store K fails s url headers now victims = some (s', .error e) →
    s'.removeTemp.disk = s.disk

/-- **`store` with an error, exactly**: the cache is what it was before if
    and only if the file was never moved, or no call failed after that, or
    the file of the URL had that content before. -/
theorem storeKeeps_iff (K : Config φ) (fails : Call → Bool) (s : Dir φ) (url : Text)
    (headers : HeaderMap) (now : Nat) :
    StoreKeeps K fails s url headers now ↔
      fails .createDirAll = true ∨ fails .rename = true ∨ s.temp = none ∨
        (fails .metadata = false ∧ fails .serialise = false ∧ fails .insert = false) ∨
        s.disk.files.lookup (fileName (K.urlHash.hash url)) = s.temp := by
  by_cases hmoves : ∃ content, Moves fails s content
  · obtain ⟨content, hmoves⟩ := hmoves
    obtain ⟨hcreate, hrename, htemp⟩ := id hmoves
    simp only [hcreate, hrename, htemp, Bool.false_eq_true, false_or, reduceCtorEq]
    rw [← rename_eq_iff]
    by_cases hlate : FailsLate fails
    · constructor
      · intro hkeeps
        obtain ⟨e, herr⟩ := store_late K url headers now [] hmoves hlate
        exact Or.inr (hkeeps [] _ e herr)
      · intro hcond victims s' e herr
        obtain ⟨e', hlate'⟩ := store_late K url headers now victims hmoves hlate
        rw [herr] at hlate'
        cases hlate'
        refine hcond.resolve_left ?_
        rintro ⟨hmetadata, hserialise, hinsert⟩
        simp [FailsLate, hmetadata, hserialise, hinsert] at hlate
    · refine iff_of_true (fun _ _ _ herr => absurd herr (store_in_time hmoves hlate)) ?_
      left
      simpa [FailsLate] using hlate
  · rw [not_exists] at hmoves
    constructor
    · intro _
      by_contra hnone
      simp only [not_or, Bool.not_eq_true] at hnone
      obtain ⟨content, htemp⟩ := Option.ne_none_iff_exists'.mp hnone.2.2.1
      exact hmoves content ⟨hnone.1, hnone.2.1, htemp⟩
    · intro _ victims s' e herr
      obtain ⟨e', hearly⟩ := store_of_not_moves K url headers now victims hmoves
      rw [herr] at hearly
      cases hearly
      rfl

/-- Only the insert goes wrong. -/
def insertFails : Call → Bool
  | .insert => true
  | _ => false

/-- A cache of ten bytes. -/
def tenBytes : Config Nat := ⟨markedHash, 10, id⟩

/-- The file of six bytes is replaced by one of seven, and the `INSERT`
    fails: the row still says six.  A URL that was not cached has a file
    then, and no row. -/
theorem not_storeKeeps :
    (∃ s', store tenBytes insertFails ⟨sixBytes, some 7⟩ ['a'] [] 9 [] = some (s', .error .insert) ∧
      s'.removeTemp.disk.files.lookup (fileName ['h', 'a']) = some 7 ∧
      (s'.removeTemp.disk.rows.lookup ['h', 'a']).map Row.size = some 6) ∧
    ∃ s', store tenBytes insertFails ⟨sixBytes, some 7⟩ ['b'] [] 9 [] = some (s', .error .insert) ∧
      s'.removeTemp.disk.files.lookup (fileName ['h', 'b']) = some 7 ∧
      s'.removeTemp.disk.rows.lookup ['h', 'b'] = none := by
  constructor
  · refine ⟨_, rfl, ?_, ?_⟩
    · decide
    · decide
  · refine ⟨_, rfl, ?_, ?_⟩
    · decide
    · decide

end BlitzStoreErrors
