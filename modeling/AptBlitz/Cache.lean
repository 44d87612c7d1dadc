import AptBlitz.Headers
import Mathlib.Data.Finmap

/-! # The disk cache

    The rows of `cache_entries`, by `url_hash`, and the files under the cache
    directory, by their path relative to it.  What runs under the connection
    lock is one function here; `store` is in three: the rename, the metadata
    call, and what it does under the lock.

    The contents of a file are any type with a length.  The hash of a URL is
    a parameter, and so is the clock: operations get the time they see.
    Operations on files and on the database succeed, unless a file that they
    need is not there, or a sum overflows. -/

namespace BlitzCache

open RustText BlitzHeaders

/-- `format!("{}/{}", &hash[..2], hash)`. -/
def fileName (hash : Text) : Text := hash.take 2 ++ '/' :: hash

/-- `Cache::hash_url`: the digest of a URL, as text.  URLs do not collide. -/
structure UrlHash where
  hash : Text → Text
  injective : Function.Injective hash
  /-- file names are relative paths -/
  relative : ∀ url, (fileName (hash url)).head? ≠ some '/'

/-- A row of the table `cache`. -/
structure Row where
  url : Text
  size : Nat
  lastAccess : Int
  filePath : Text
  headers : HeaderMap
  cachedAt : Nat
  deriving DecidableEq

variable {φ : Type}

/-- The table and the files. -/
structure Disk (φ : Type) where
  rows : AList fun _ : Text => Row
  files : Finmap fun _ : Text => φ

namespace Disk

/-- An empty cache. -/
def empty : Disk φ := ⟨∅, ∅⟩

/-- The row of a hash and its file are removed. -/
def remove (d : Disk φ) (hash filePath : Text) : Disk φ :=
  ⟨d.rows.erase hash, d.files.erase filePath⟩

/-- `UPDATE cache_entries .. WHERE url_hash = ?`. -/
def updateRow (d : Disk φ) (hash : Text) (f : Row → Row) : Disk φ :=
  match d.rows.lookup hash with
  | some row => { d with rows := d.rows.insert hash (f row) }
  | none => d

/-! ## `lookup_entry` and `refresh` -/

/-- `lookup_entry`: the path, the headers and `cached_at`. -/
def lookupEntry (d : Disk φ) (H : UrlHash) (url : Text) (now : Nat) :
    Disk φ × Option (Text × HeaderMap × Nat) :=
  match d.rows.lookup (H.hash url) with
  | some row =>
      if row.filePath ∈ d.files then
        (d.updateRow (H.hash url) fun row => { row with lastAccess := now },
          some (row.filePath, row.headers, row.cachedAt))
      else ({ d with rows := d.rows.erase (H.hash url) }, none)
  | none => (d, none)

/-- `refresh`. -/
def refresh (d : Disk φ) (H : UrlHash) (url : Text) (headers : HeaderMap) (now : Nat) : Disk φ :=
  d.updateRow (H.hash url) fun row =>
    { row with headers := headersToMap headers, cachedAt := now }

/-! ## `store` -/

/-- The rename of the temp file to its final path. -/
def rename (d : Disk φ) (H : UrlHash) (url : Text) (content : φ) : Disk φ :=
  { d with files := d.files.insert (fileName (H.hash url)) content }

/-- The size that the metadata of the final path give. -/
def metadata (d : Disk φ) (len : φ → Nat) (H : UrlHash) (url : Text) : Option Nat :=
  (d.files.lookup (fileName (H.hash url))).map len

/-- `INSERT OR REPLACE`. -/
def insertEntry (d : Disk φ) (H : UrlHash) (url : Text) (size : Nat) (headers : HeaderMap)
    (now : Nat) : Disk φ :=
  let row : Row := ⟨url, size, now, fileName (H.hash url), headersToMap headers, now⟩
  { d with rows := d.rows.insert (H.hash url) row }

/-- The sizes of all rows, together. -/
def sizeSum (d : Disk φ) : Nat := (d.rows.entries.map fun e => e.2.size).sum

/-- `SELECT COALESCE(SUM(size), 0)`.  A sum of integers that is no `i64` is an
    error, for which `unwrap_or(0)` takes zero. -/
def totalSize (d : Disk φ) : Nat := if d.sizeSum < 2 ^ 63 then d.sizeSum else 0

/-- `evict_inner`.  Among rows that were accessed last at the same time the
    database chooses; the hashes it chose are given. -/
def evictInner (maxSize : Nat) (d : Disk φ) : List Text → Option (Disk φ)
  | [] => if d.totalSize ≤ maxSize then some d else none
  | hash :: victims =>
      if d.totalSize ≤ maxSize then none
      else match d.rows.lookup hash with
        | none => none
        | some row =>
            if d.rows.entries.all fun e => row.lastAccess ≤ e.2.lastAccess then
              evictInner maxSize (d.remove hash row.filePath) victims
            else none

/-- What `store` does under the lock. -/
def storeLocked (d : Disk φ) (maxSize : Nat) (H : UrlHash) (url : Text) (size : Nat)
    (headers : HeaderMap) (now : Nat) (victims : List Text) : Option (Disk φ) :=
  evictInner maxSize (d.insertEntry H url size headers now) victims

/-! ## `delete_by_urls` and `clear_all` -/

/-- `full.starts_with(&dir)` for `full = dir.join(file_path)`, where
    `file_path` does not name the cache directory itself. -/
def underDir (filePath : Text) : Bool := filePath.head? != some '/'

/-- The loop body of `delete_by_urls`. -/
def deleteByUrl (d : Disk φ) (H : UrlHash) (url : Text) : Disk φ :=
  match d.rows.lookup (H.hash url) with
  | some row =>
      { rows := d.rows.erase (H.hash url)
        files := if underDir row.filePath then d.files.erase row.filePath else d.files }
  | none => d

/-- `delete_by_urls`. -/
def deleteByUrls (d : Disk φ) (H : UrlHash) (urls : List Text) : Disk φ :=
  urls.foldl (fun d url => d.deleteByUrl H url) d

/-- `clear_all`, but for the temp files. -/
def clearAll (d : Disk φ) : Disk φ where
  rows := ∅
  files := d.rows.entries.foldl
    (fun files e => if underDir e.2.filePath then files.erase e.2.filePath else files) d.files

end Disk

/-! ## The operations of one process -/

/-- Where a `store` stands. -/
inductive StorePc (φ : Type) where
  | idle
  /-- the file is in place -/
  | renamed (url : Text) (content : φ) (headers : HeaderMap)
  /-- its size is known -/
  | measured (url : Text) (content : φ) (headers : HeaderMap) (size : Nat)

/-- The URL of a store under way. -/
def StorePc.url : StorePc φ → Option Text
  | .idle => none
  | .renamed url _ _ => some url
  | .measured url _ _ _ => some url

/-- The cache and the stores in progress. -/
structure Process (φ : Type) where
  disk : Disk φ
  stores : Nat → StorePc φ

/-- What does not change while the process runs. -/
structure Config (φ : Type) where
  urlHash : UrlHash
  maxSize : Nat
  len : φ → Nat

/-- The steps of the stores, and the other operations. -/
inductive Act (φ : Type) where
  | rename (w : Nat) (url : Text) (content : φ) (headers : HeaderMap)
  | measure (w : Nat)
  | insert (w now : Nat) (victims : List Text)
  | lookupEntry (url : Text) (now : Nat)
  | refresh (url : Text) (headers : HeaderMap) (now : Nat)
  | deleteByUrls (urls : List Text)
  | clearAll

namespace Process

/-- Store `w` goes on, and leaves the disk as `disk`. -/
def put (s : Process φ) (disk : Disk φ) (w : Nat) (pc : StorePc φ) : Process φ :=
  ⟨disk, Function.update s.stores w pc⟩

end Process

/-- One step of the process. -/
def step (K : Config φ) (s : Process φ) : Act φ → Option (Process φ)
  | .rename w url content headers =>
      match s.stores w with
      | .idle => some (s.put (s.disk.rename K.urlHash url content) w (.renamed url content headers))
      | _ => none
  | .measure w =>
      match s.stores w with
      | .renamed url content headers =>
          match s.disk.metadata K.len K.urlHash url with
          | some size => some (s.put s.disk w (.measured url content headers size))
          | none => some (s.put s.disk w .idle)
      | _ => none
  | .insert w now victims =>
      match s.stores w with
      | .measured url _ headers size =>
          (s.disk.storeLocked K.maxSize K.urlHash url size headers now victims).map fun disk =>
            s.put disk w .idle
      | _ => none
  | .lookupEntry url now => some { s with disk := (s.disk.lookupEntry K.urlHash url now).1 }
  | .refresh url headers now => some { s with disk := s.disk.refresh K.urlHash url headers now }
  | .deleteByUrls urls => some { s with disk := s.disk.deleteByUrls K.urlHash urls }
  | .clearAll => some { s with disk := s.disk.clearAll }

/-- A cache directory as it is opened, no store in progress. -/
def opened (disk : Disk φ) : Process φ := ⟨disk, fun _ => .idle⟩

end BlitzCache
