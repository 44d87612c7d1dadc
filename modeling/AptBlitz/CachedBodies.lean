import AptBlitz.CacheRuns
import AptBlitz.DeliveredBodies
import AptBlitz.Leader
import AptBlitz.Serving
import AptBlitz.WorkerPermits

/-! # Where the bodies in the cache come from

    The whole way of a file: downloads of any URLs, over HTTP and FTP, each
    with the task of `spawn_cache_persistence` that stores what it leaves;
    the cache, which evicts and deletes; and the requests that are served
    from it, all in any order of their steps.

    `store` renames the temp file, so the download still holds the file that
    the cache then has.  Here the cache gets its bytes: that the download
    does not write to the file any more is part of what is proved.

    A body that is served from the cache was in it when it was opened, or is
    the file that one download of the URL has left, which returned `Ok(())`,
    and which `xz --test` accepted if the URL is that of an xz file
    (`served_from_downloads`).  So where upstream's answers were right every
    body is the content of its URL (`served_content`). -/

namespace BlitzCachedBodies

open RustText BlitzHeaders BlitzBuffer SegmentsBuffer BlitzTransfers BlitzLeader BlitzServing
open BlitzCache (Disk fileName)
open BlitzCacheDisk (WellFormed)
open BlitzDeliveredBodies (HttpAct FtpAct httpStep ftpStep)
open BlitzWorkerPermits (Part zeros)
open WrittenBytes (slice)
open Runs

/-! ## The system -/

/-- A download, and the task that stores it. -/
structure Transfer where
  url : Text
  headers : HeaderMap
  part : Part
  task : Task
  /-- `store` has renamed the temp file -/
  moved : Bool

/-- A step of a download of either kind. -/
inductive PartAct where
  | http (a : HttpAct)
  | ftp (a : FtpAct)

/-- One step of the download. -/
def partStep : Part → PartAct → Option Part
  | .http d, .http a => (httpStep d a).map .http
  | .ftp d, .ftp a => (ftpStep d a).map .ftp
  | _, _ => none

/-- The temp file. -/
def file : Part → Bytes
  | .http d => d.buf.file
  | .ftp d => d.buf.file

/-- What `download_handle.await` gives; of an error, what `etag_changed_for`
    says of it. -/
def joined : Part → Option (Option (Except Bool Unit))
  | .http d =>
      match d.coord with
      | .returned (.ok _) => some (some (.ok ()))
      | .returned (.error e) => some (some (.error (decide (e = .etagChanged))))
      | .panicked => some none
      | _ => none
  | .ftp d =>
      match d.coord with
      | .returned (.ok _) => some (some (.ok ()))
      | .returned (.error _) => some (some (.error false))
      | .awaiting .. => none

/-- What happens to one transfer, without the cache. -/
inductive TransferAct where
  | part (a : PartAct)
  /-- `download_handle.await` -/
  | await
  | synced (well : Bool)
  /-- `verify_xz_integrity`, and whether it could run `xz` -/
  | verified (ran : Bool)

/-- `xz` tells which files `xz --test` accepts. -/
def transferStep (xz : Bytes → Bool) (t : Transfer) : TransferAct → Option Transfer
  | .part a => (partStep t.part a).map fun part => { t with part }
  | .await =>
      match t.task with
      | .download => (joined t.part).map fun result => { t with task := afterDownload id result }
      | _ => none
  | .synced well =>
      match t.task with
      | .sync => some { t with task := afterSync t.url well }
      | _ => none
  | .verified ran =>
      match t.task with
      | .verify => some { t with task := afterVerify (ran && xz (file t.part)) }
      | _ => none

/-- The server, and the downloads with their tasks. -/
structure Proxy where
  server : Server Bytes
  transfers : List Transfer

/-- A new download, or a step of one, of its task or of the server. -/
inductive Act where
  | openHttp (url : Text) (headers : HeaderMap) (numConnections totalSize : Nat)
  | openFtp (url : Text) (numConnections totalSize : Nat)
  | transfer (i : Nat) (a : TransferAct)
  /-- `store` of transfer `i` renames the temp file -/
  | move (i : Nat)
  /-- `store` of transfer `i` returns -/
  | stored (i : Nat) (well : Bool)
  | server (a : BlitzServing.Act Bytes)

variable {K : ServerConfig Bytes} {xz : Bytes → Bool}

/-- The step that `store` makes with the file; the rest of it are steps of
    the cache. -/
def moveStep (K : ServerConfig Bytes) (s : Proxy) (i : Nat) (t : Transfer) : Option Proxy :=
  if t.task = .store ∧ t.moved = false then
    (BlitzServing.step K s.server (.cache (.rename i t.url (file t.part) t.headers))).map
      fun server => ⟨server, s.transfers.set i { t with moved := true }⟩
  else none

/-- A step of the server.  No file comes into the cache but by a `store`. -/
def serverStep (K : ServerConfig Bytes) (srv : Server Bytes) :
    BlitzServing.Act Bytes → Option (Server Bytes)
  | .cache (.rename ..) => none
  | a => BlitzServing.step K srv a

/-- One step of the proxy. -/
def step (K : ServerConfig Bytes) (xz : Bytes → Bool) (s : Proxy) : Act → Option Proxy
  | .openHttp url headers n totalSize =>
      let part := .http (BlitzDownloader.start n totalSize (zeros totalSize))
      some { s with transfers := s.transfers ++ [⟨url, headers, part, .download, false⟩] }
  | .openFtp url n totalSize =>
      let part := .ftp (BlitzFtp.start n totalSize (zeros totalSize))
      some { s with
        transfers := s.transfers ++ [⟨url, ftpHeaders totalSize, part, .download, false⟩] }
  | .transfer i a =>
      match s.transfers[i]? with
      | some t => (transferStep xz t a).map fun t' =>
          { s with transfers := s.transfers.set i t' }
      | none => none
  | .move i =>
      match s.transfers[i]? with
      | some t => moveStep K s i t
      | none => none
  | .stored i well =>
      match s.transfers[i]? with
      | some t =>
          if t.task = .store ∧ (s.server.cache.stores i).url = none ∧ (well = true → t.moved = true)
          then some { s with transfers := s.transfers.set i { t with task := afterStore well } }
          else none
      | none => none
  | .server a => (serverStep K s.server a).map fun server => { s with server }

/-- The body that a step serves from the cache, with its URL. -/
def bodies (s : Proxy) : Act → List (Text × Bytes)
  | .server (.openFile r) =>
      match s.server.requests r with
      | .cached found =>
          ((s.server.cache.disk.files.lookup found.path).map fun body => (found.url, body)).toList
      | _ => []
  | _ => []

/-- What a run serves from the cache. -/
def served (K : ServerConfig Bytes) (xz : Bytes → Bool) (s : Proxy) (acts : List Act) :
    List (Text × Bytes) :=
  outputs (step K xz) bodies s acts

/-- The proxy on a cache directory, without requests or downloads. -/
def opened (disk : Disk Bytes) (upstream source : Text → Bytes) : Proxy :=
  ⟨listening (BlitzCache.opened disk) upstream source, []⟩

variable {s s' : Proxy} {t t' : Transfer} {p p' : Part} {i : Nat} {url : Text} {body : Bytes}
  {disk : Disk Bytes}

/-! ## A download that has returned `Ok(())` -/

/-- Everything that holds of a download in every state. -/
def PartInv : Part → Prop
  | .http d => ∃ totalSize, BlitzDownloadedFile.FileRunInv totalSize (zeros totalSize) d
  | .ftp d => ∃ totalSize, BlitzFtpFile.FileRunInv totalSize (zeros totalSize) d

/-- The download has returned `Ok(())`. -/
def Done (p : Part) : Prop := joined p = some (some (.ok ()))

/-- An HTTP download is done when it has returned `Ok(())`. -/
theorem done_http {d : BlitzDownloader.Download} :
    Done (.http d) ↔ d.coord = .returned (.ok ()) := by
  rw [Done, joined]
  constructor
  · intro h
    split at h
    next hc => exact hc
    next => cases h
    next => cases h
    next => cases h
  · intro hc
    rw [hc]

/-- An FTP download is done when it has returned `Ok(())`. -/
theorem done_ftp {d : BlitzFtp.Download} : Done (.ftp d) ↔ d.coord = .returned (.ok ()) := by
  rw [Done, joined]
  constructor
  · intro h
    split at h
    next hc => exact hc
    next => cases h
    next => cases h
  · intro hc
    rw [hc]

/-- **Step** of the download. -/
theorem partInv_step {a : PartAct} (h : PartInv p) (hs : partStep p a = some p') : PartInv p' := by
  cases p with
  | http d =>
      obtain ⟨totalSize, hinv⟩ := h
      cases a with
      | http a =>
          obtain ⟨d', hd', rfl⟩ := Option.map_eq_some_iff.mp hs
          exact ⟨totalSize, BlitzDeliveredBodies.http_reliable.keeps _ _ _ hinv hd'⟩
      | ftp a => cases hs
  | ftp d =>
      obtain ⟨totalSize, hinv⟩ := h
      cases a with
      | http a => cases hs
      | ftp a =>
          obtain ⟨d', hd', rfl⟩ := Option.map_eq_some_iff.mp hs
          exact ⟨totalSize, BlitzDeliveredBodies.ftp_reliable.keeps _ _ _ hinv hd'⟩

/-- After `Ok(())` the file stays as it is: nobody writes to it any more, and
    `set_failed` is not about the file. -/
theorem done_step {a : PartAct} (h : PartInv p) (hdone : Done p) (hs : partStep p a = some p') :
    Done p' ∧ file p' = file p := by
  cases p with
  | http d =>
      obtain ⟨totalSize, hinv⟩ := h
      cases a with
      | http a =>
          obtain ⟨d', hd', rfl⟩ := Option.map_eq_some_iff.mp hs
          cases a with
          | download a => exact absurd hd' (hinv.no_step (done_http.mp hdone))
          | setFailed =>
              rw [BlitzDeliveredBodies.httpStep_setFailed hd']
              exact ⟨hdone, rfl⟩
      | ftp a => cases hs
  | ftp d =>
      obtain ⟨totalSize, hinv⟩ := h
      cases a with
      | http a => cases hs
      | ftp a =>
          obtain ⟨d', hd', rfl⟩ := Option.map_eq_some_iff.mp hs
          cases a with
          | download a => exact absurd hd' (hinv.no_step (done_ftp.mp hdone))
          | setFailed =>
              rw [BlitzDeliveredBodies.ftpStep_setFailed hd']
              exact ⟨hdone, rfl⟩

/-- What the download was told by upstream about each segment is what
    `content` has there; with no connection at all, `content` is what
    `set_len` has made. -/
def Answered (content : Bytes) : Part → Prop
  | .http d => ∀ id seg t, d.buf.segments[id]? = some seg → lastTransfer id d.log = some t →
      t.body.take (seg.end - seg.start) = slice content seg.start seg.end
  | .ftp d => (d.numConnections = 0 → zeros content.length = content) ∧
      ∀ id seg t, d.buf.segments[id]? = some seg → lastTransfer id d.log = some t →
        t.body ++ slice (zeros content.length) (seg.start + t.body.length) seg.end
          = slice content seg.start seg.end

/-- The file of a download that returned `Ok(())`. -/
theorem file_eq_iff {content : Bytes} (h : PartInv p) (hdone : Done p)
    (hlen : (file p).length = content.length) : file p = content ↔ Answered content p := by
  cases p with
  | http d =>
      obtain ⟨totalSize, hinv⟩ := h
      exact hinv.ok_file_iff (done_http.mp hdone) hlen
  | ftp d =>
      obtain ⟨totalSize, hinv⟩ := h
      have hsize : content.length = totalSize := by
        rw [← hlen, ← @List.length_replicate _ totalSize (0 : UInt8)]
        exact hinv.file.length_eq
      subst hsize
      exact hinv.ok_file_iff (done_ftp.mp hdone) hlen

/-! ## A transfer -/

/-- The download has returned `Ok(())`, and an xz file has passed its
    test. -/
structure Complete (xz : Bytes → Bool) (t : Transfer) : Prop where
  done : Done t.part
  tested : isXzUrl t.url = true → xz (file t.part) = true

/-- What the task has seen of its download. -/
structure TransferInv (xz : Bytes → Bool) (t : Transfer) : Prop where
  part : PartInv t.part
  done : t.task = .sync ∨ t.task = .verify ∨ t.task = .store → Done t.part
  tested : t.task = .store → isXzUrl t.url = true → xz (file t.part) = true

/-- A task that stores has a complete file. -/
theorem TransferInv.complete (h : TransferInv xz t) (htask : t.task = .store) : Complete xz t :=
  ⟨h.done (Or.inr (Or.inr htask)), h.tested htask⟩

/-- A step leaves the URL, and a complete transfer as it is. -/
theorem transfer_step {a : TransferAct} (h : TransferInv xz t)
    (hs : transferStep xz t a = some t') :
    TransferInv xz t' ∧ t'.url = t.url ∧
      (Complete xz t → Complete xz t' ∧ file t'.part = file t.part) := by
  cases a with
  | part a =>
      obtain ⟨p', hp', rfl⟩ := Option.map_eq_some_iff.mp hs
      refine ⟨⟨partInv_step h.part hp', fun htask => ?_, fun htask hurl => ?_⟩, rfl,
        fun hc => ?_⟩
      · exact (done_step h.part (h.done htask) hp').1
      · show xz (file p') = true
        rw [(done_step h.part (h.done (Or.inr (Or.inr htask))) hp').2]
        exact h.tested htask hurl
      · obtain ⟨hdone, hfile⟩ := done_step h.part hc.done hp'
        exact ⟨⟨hdone, fun hurl => hfile ▸ hc.tested hurl⟩, hfile⟩
  | await =>
      simp only [transferStep] at hs
      split at hs
      next =>
        obtain ⟨result, hresult, rfl⟩ := Option.map_eq_some_iff.mp hs
        refine ⟨⟨h.part, fun htask => ?_, fun htask => ?_⟩, rfl,
          fun hc => ⟨⟨hc.done, hc.tested⟩, rfl⟩⟩
        · rcases result with _ | e | u
          · rcases htask with htask | htask | htask <;> cases htask
          · rcases htask with htask | htask | htask <;> cases htask
          · exact hresult
        · rcases result with _ | e | u <;> cases htask
      next => cases hs
  | synced well =>
      simp only [transferStep] at hs
      split at hs
      next hsync =>
        cases hs
        refine ⟨⟨h.part, fun _ => h.done (Or.inl hsync), fun htask hurl => ?_⟩, rfl,
          fun hc => ⟨⟨hc.done, hc.tested⟩, rfl⟩⟩
        -- an xz file is not stored yet
        have htask : afterSync t.url well = .store := htask
        rw [afterSync, show isXzUrl t.url = true from hurl] at htask
        cases well <;> cases htask
      next => cases hs
  | verified ran =>
      simp only [transferStep] at hs
      split at hs
      next hverify =>
        cases hs
        refine ⟨⟨h.part, fun _ => h.done (Or.inr (Or.inl hverify)), fun htask _ => ?_⟩, rfl,
          fun hc => ⟨⟨hc.done, hc.tested⟩, rfl⟩⟩
        have htask : afterVerify (ran && xz (file t.part)) = .store := htask
        show xz (file t.part) = true
        cases hxz : xz (file t.part) with
        | true => rfl
        | false =>
            rw [hxz, Bool.and_false] at htask
            cases htask
      next => cases hs

/-! ## The cache and its requests -/

/-- A request looks for a file where that of its URL is. -/
def Locates (K : ServerConfig Bytes) : RequestPc Bytes → Prop
  | .stale found => found.path = fileName (K.urlHash.hash found.url)
  | .confirmed found => found.path = fileName (K.urlHash.hash found.url)
  | .cached found => found.path = fileName (K.urlHash.hash found.url)
  | _ => True

/-- Rows, files and requests have the paths of their URLs. -/
structure Located (K : ServerConfig Bytes) (srv : Server Bytes) : Prop where
  wellFormed : WellFormed K.urlHash srv.cache.disk
  requests : ∀ r, Locates K (srv.requests r)

variable {srv srv' : Server Bytes} {a : BlitzServing.Act Bytes}

/-- A request goes on with the path of its URL. -/
theorem Located.goto {r : Nat} {pc : RequestPc Bytes} (h : Located K srv) (hpc : Locates K pc) :
    Located K (srv.goto r pc) := by
  refine ⟨h.wellFormed, ?_⟩
  exact (Function.forall_update_iff srv.requests fun _ => Locates K).mpr
    ⟨hpc, fun r' _ => h.requests r'⟩

/-- What a lookup leaves a request with. -/
theorem locates_afterLookup {source : Bytes} {later : Nat}
    {result : Option (Text × HeaderMap × Nat)}
    (h : ∀ path headers cachedAt, result = some (path, headers, cachedAt) →
      path = fileName (K.urlHash.hash url)) :
    Locates K (afterLookup K url source later result) := by
  cases result with
  | none => trivial
  | some found =>
      obtain ⟨path, headers, cachedAt⟩ := found
      have hpath := h path headers cachedAt rfl
      simp only [afterLookup]
      split
      · exact hpath
      · split
        · exact hpath
        · trivial

/-- A lookup finds the path of its URL. -/
theorem path_of_lookupEntry {now cachedAt : Nat} {path : Text} {headers : HeaderMap}
    (h : WellFormed K.urlHash disk)
    (hfound : (disk.lookupEntry K.urlHash url now).2 = some (path, headers, cachedAt)) :
    path = fileName (K.urlHash.hash url) := by
  rw [Disk.lookupEntry] at hfound
  split at hfound
  next row hrow =>
    split at hfound
    · cases hfound
      exact (h.rows _ row hrow).2
    · cases hfound
  next => cases hfound

/-- The file is there that was there, or the one that a `store` renamed. -/
def FromBefore (K : ServerConfig Bytes) (srv srv' : Server Bytes) (a : BlitzServing.Act Bytes) :
    Prop :=
  ∀ h body, srv'.cache.disk.files.lookup (fileName h) = some body →
    srv.cache.disk.files.lookup (fileName h) = some body ∨
      ∃ w url headers, a = .cache (.rename w url body headers) ∧ h = K.urlHash.hash url

/-- **Step** of the cache: a file comes by a rename for its URL. -/
theorem cache_step {act : BlitzCache.Act Bytes} {cache : BlitzCache.Process Bytes}
    (h : WellFormed K.urlHash srv.cache.disk)
    (hs : BlitzCache.step K.toConfig srv.cache act = some cache) :
    WellFormed K.urlHash cache.disk ∧ ∀ h body,
      cache.disk.files.lookup (fileName h) = some body →
        srv.cache.disk.files.lookup (fileName h) = some body ∨
          ∃ w url headers, act = .rename w url body headers ∧ h = K.urlHash.hash url := by
  cases BlitzCacheRuns.stepped_of_step hs with
  | @renamed w u content headers hw =>
      refine ⟨BlitzCacheDisk.wellFormed_rename h, fun hash body hbody => ?_⟩
      have hbody : (srv.cache.disk.rename K.urlHash u content).files.lookup (fileName hash)
          = some body := hbody
      rw [BlitzCacheDisk.lookup_rename] at hbody
      split at hbody
      next heq =>
        cases hbody
        exact Or.inr ⟨w, u, headers, rfl, heq⟩
      next => exact Or.inl hbody
  | measured => exact ⟨h, fun _ _ => Or.inl⟩
  | missing => exact ⟨h, fun _ _ => Or.inl⟩
  | inserted hw hd =>
      exact ⟨BlitzCacheDisk.wellFormed_storeLocked h hd, fun _ _ hbody =>
        Or.inl (BlitzCacheDisk.storeLocked_file h hd hbody).2⟩
  | locked hwf _ hsub => exact ⟨hwf h, fun _ _ hbody => Or.inl (hsub.files _ _ hbody)⟩
  | @refreshed u headers now =>
      refine ⟨BlitzCacheDisk.wellFormed_refresh h, fun hash body hbody => Or.inl ?_⟩
      have hbody : (srv.cache.disk.refresh K.urlHash u headers now).files.lookup (fileName hash)
          = some body := hbody
      rwa [Disk.refresh, (@BlitzCacheDisk.lookup_updateRow _ _ [] _ _).2] at hbody

/-- What is noted is no matter of the requests. -/
theorem requests_noteSource (act : BlitzCache.Act Bytes) :
    (noteSource K srv act).requests = srv.requests := by
  cases act with
  | insert w now victims =>
      simp only [noteSource]
      split <;> rfl
  | _ => rfl

/-- What one step of the server does to the files. -/
theorem server_step (h : Located K srv) (hs : BlitzServing.step K srv a = some srv') :
    Located K srv' ∧ FromBefore K srv srv' a := by
  cases a with
  | cache act =>
      cases act with
      | refresh => cases hs
      | _ =>
          simp only [BlitzServing.step] at hs
          obtain ⟨cache, hcache, rfl⟩ := Option.map_eq_some_iff.mp hs
          obtain ⟨hwf, hfiles⟩ := cache_step h.wellFormed hcache
          refine ⟨⟨hwf, fun r => ?_⟩, fun hash body hbody => ?_⟩
          · show Locates K ((noteSource K srv _).requests r)
            rw [requests_noteSource]
            exact h.requests r
          · refine (hfiles hash body hbody).imp_right ?_
            rintro ⟨w, u, headers, hact, hhash⟩
            exact ⟨w, u, headers, congrArg _ hact, hhash⟩
  | publish url generation =>
      cases hs
      exact ⟨⟨h.wellFormed, h.requests⟩, fun _ _ => Or.inl⟩
  | lookupEntry r url now later =>
      have hlooked : Located K
          ((srv.withDisk (srv.cache.disk.lookupEntry K.urlHash url now).1).goto r
            (afterLookup K url (srv.source (K.urlHash.hash url)) later
              (srv.cache.disk.lookupEntry K.urlHash url now).2)) := by
        refine Located.goto ⟨BlitzCacheDisk.wellFormed_lookupEntry h.wellFormed, h.requests⟩ ?_
        exact locates_afterLookup fun _ _ _ => path_of_lookupEntry h.wellFormed
      have hfiles : ∀ p f,
          (srv.cache.disk.lookupEntry K.urlHash url now).1.files.lookup p = some f →
          srv.cache.disk.files.lookup p = some f := BlitzCacheDisk.shrinks_lookupEntry.files
      simp only [BlitzServing.step] at hs
      split at hs
      · cases hs
        exact ⟨hlooked, fun _ _ hbody => Or.inl (hfiles _ _ hbody)⟩
      · cases hs
        exact ⟨hlooked, fun _ _ hbody => Or.inl (hfiles _ _ hbody)⟩
      · cases hs
  | head r answer =>
      simp only [BlitzServing.step] at hs
      split at hs
      next found hr =>
        cases hs
        have hpath : Locates K (.stale found) := hr ▸ h.requests r
        refine ⟨h.goto ?_, fun _ _ => Or.inl⟩
        cases revalidate answer found.headers with
        | fresh headers => exact hpath
        | stale => trivial
        | unreachable => exact hpath
      next => cases hs
  | refresh r now =>
      simp only [BlitzServing.step] at hs
      split at hs
      next found hr =>
        cases hs
        have hpath : Locates K (.confirmed found) := hr ▸ h.requests r
        refine ⟨Located.goto ⟨BlitzCacheDisk.wellFormed_refresh h.wellFormed, h.requests⟩ hpath,
          fun hash body hbody => Or.inl ?_⟩
        have hbody : (srv.cache.disk.refresh K.urlHash found.url found.headers now).files.lookup
            (fileName hash) = some body := hbody
        rwa [Disk.refresh, (@BlitzCacheDisk.lookup_updateRow _ _ [] _ _).2] at hbody
      next => cases hs
  | openFile r =>
      simp only [BlitzServing.step] at hs
      split at hs
      next found hr =>
        split at hs
        next body hbody =>
          cases hs
          exact ⟨h.goto trivial, fun _ _ => Or.inl⟩
        next =>
          cases hs
          exact ⟨h.goto trivial, fun _ _ => Or.inl⟩
      next => cases hs

/-- A step of the server by itself renames nothing. -/
theorem serverStep_some (hs : serverStep K srv a = some srv') :
    BlitzServing.step K srv a = some srv' ∧
      ∀ w url body headers, a ≠ .cache (.rename w url body headers) := by
  unfold serverStep at hs
  split at hs
  next => cases hs
  next hno => exact ⟨hs, hno⟩

/-! ## The whole proxy -/

/-- A complete transfer of the URL has left the file. -/
def Left (xz : Bytes → Bool) (s : Proxy) (url : Text) (body : Bytes) : Prop :=
  ∃ (i : Nat) (t : Transfer), s.transfers[i]? = some t ∧ t.url = url ∧ Complete xz t ∧
    file t.part = body

/-- The transfers go on, and the complete ones keep their files. -/
def GoOn (xz : Bytes → Bool) (s s' : Proxy) : Prop :=
  ∀ (i : Nat) (t : Transfer), s.transfers[i]? = some t →
    ∃ t', s'.transfers[i]? = some t' ∧ t'.url = t.url ∧
      (Complete xz t → Complete xz t' ∧ file t'.part = file t.part)

theorem Left.goOn (h : Left xz s url body) (hgo : GoOn xz s s') : Left xz s' url body := by
  obtain ⟨i, t, ht, rfl, hc, rfl⟩ := h
  obtain ⟨t', ht', hurl, hkeeps⟩ := hgo i t ht
  obtain ⟨hc', hfile⟩ := hkeeps hc
  exact ⟨i, t', ht', hurl, hc', hfile⟩

theorem goOn_same (h : s'.transfers = s.transfers) : GoOn xz s s' :=
  fun _ t ht => ⟨t, h ▸ ht, rfl, fun hc => ⟨hc, rfl⟩⟩

theorem goOn_append (h : s'.transfers = s.transfers ++ [t]) : GoOn xz s s' := by
  intro j u hu
  refine ⟨u, ?_, rfl, fun hc => ⟨hc, rfl⟩⟩
  rw [h, List.getElem?_append_left (List.getElem?_eq_some_iff.mp hu).1]
  exact hu

/-- A download goes on, and keeps its file once that is complete. -/
theorem goOn_set (ht : s.transfers[i]? = some t) (h : s'.transfers = s.transfers.set i t')
    (hurl : t'.url = t.url)
    (hkeeps : Complete xz t → Complete xz t' ∧ file t'.part = file t.part) : GoOn xz s s' := by
  intro j u hu
  rw [h, List.getElem?_set]
  by_cases hij : i = j
  · subst hij
    cases ht.symm.trans hu
    exact ⟨t', by rw [if_pos rfl, if_pos (List.getElem?_eq_some_iff.mp hu).1], hurl, hkeeps⟩
  · rw [if_neg hij]
    exact ⟨u, hu, rfl, fun hc => ⟨hc, rfl⟩⟩

/-- Every file in the cache is an old one, or one that a complete transfer of
    its URL has left. -/
structure ProxyInv (K : ServerConfig Bytes) (xz : Bytes → Bool) (old : Text → Bytes → Prop)
    (s : Proxy) : Prop where
  transfers : ∀ t ∈ s.transfers, TransferInv xz t
  located : Located K s.server
  files : ∀ url body, s.server.cache.disk.files.lookup (fileName (K.urlHash.hash url)) = some body →
    old url body ∨ Left xz s url body

variable {old : Text → Bytes → Prop}

/-- One download more. -/
theorem transfers_append {ts : List Transfer} (h : ∀ t ∈ ts, TransferInv xz t)
    (hnew : TransferInv xz t') : ∀ t ∈ ts ++ [t'], TransferInv xz t := by
  intro u hu
  rcases List.mem_append.mp hu with hold | hlast
  · exact h u hold
  · exact List.mem_singleton.mp hlast ▸ hnew

/-- One download changes. -/
theorem transfers_set {ts : List Transfer} (h : ∀ t ∈ ts, TransferInv xz t)
    (hnew : TransferInv xz t') : ∀ t ∈ ts.set i t', TransferInv xz t := by
  intro u hu
  rcases List.mem_or_eq_of_mem_set hu with hold | heq
  · exact h u hold
  · exact heq ▸ hnew

/-- A new HTTP download. -/
theorem transferInv_http (url : Text) (headers : HeaderMap) (n totalSize : Nat) :
    TransferInv xz ⟨url, headers, .http (BlitzDownloader.start n totalSize (zeros totalSize)),
      .download, false⟩ where
  part := ⟨totalSize, BlitzDownloaderResults.runInv_start,
    BlitzDownloaderResults.bufferInv_view_start List.length_replicate, BlitzFileBytes.fileInv_start⟩
  done h := by rcases h with h | h | h <;> cases h
  tested h := by cases h

/-- A new FTP download. -/
theorem transferInv_ftp (url : Text) (headers : HeaderMap) (n totalSize : Nat) :
    TransferInv xz ⟨url, headers, .ftp (BlitzFtp.start n totalSize (zeros totalSize)),
      .download, false⟩ where
  part := ⟨totalSize, BlitzFtpResults.runInv_start List.length_replicate,
    BlitzFtpFile.oneTransfer_start, BlitzFileBytes.fileInv_start⟩
  done h := by rcases h with h | h | h <;> cases h
  tested h := by cases h

/-- The transfers go on, and the server stays. -/
theorem ProxyInv.goOn (h : ProxyInv K xz old s) (hserver : s'.server = s.server)
    (hinv : ∀ t ∈ s'.transfers, TransferInv xz t) (hgo : GoOn xz s s') :
    ProxyInv K xz old s' := by
  refine ⟨hinv, hserver ▸ h.located, fun url body hbody => ?_⟩
  rw [hserver] at hbody
  exact (h.files url body hbody).imp_right fun hleft => hleft.goOn hgo

/-- A store renames its file. -/
theorem ProxyInv.moved (h : ProxyInv K xz old s) (ht : s.transfers[i]? = some t)
    (hs : moveStep K s i t = some s') : ProxyInv K xz old s' ∧ GoOn xz s s' := by
  rw [moveStep] at hs
  split at hs
  next htask =>
    obtain ⟨srv, hsrv, rfl⟩ := Option.map_eq_some_iff.mp hs
    have hinv := h.transfers t (List.mem_of_getElem? ht)
    have hgo : GoOn xz s ⟨srv, s.transfers.set i { t with moved := true }⟩ :=
      goOn_set ht rfl rfl fun hc => ⟨⟨hc.done, hc.tested⟩, rfl⟩
    obtain ⟨hlocated, hbefore⟩ := server_step h.located hsrv
    refine ⟨⟨transfers_set h.transfers ⟨hinv.part, hinv.done, hinv.tested⟩, hlocated, ?_⟩, hgo⟩
    intro url body hbody
    rcases hbefore _ body hbody with hold | ⟨w, u, headers, hact, hhash⟩
    · exact (h.files url body hold).imp_right fun hleft => hleft.goOn hgo
    · cases hact
      have hleft : Left xz s t.url (file t.part) :=
        ⟨i, t, ht, rfl, hinv.complete htask.1, rfl⟩
      rw [K.urlHash.injective hhash]
      exact Or.inr (hleft.goOn hgo)
  next => cases hs

/-- **Step**: the files in the cache stay what complete transfers have
    left. -/
theorem proxyInv_step {a : Act} (h : ProxyInv K xz old s) (hs : step K xz s a = some s') :
    ProxyInv K xz old s' ∧ GoOn xz s s' := by
  cases a with
  | openHttp url headers n totalSize =>
      cases hs
      exact ⟨h.goOn rfl (transfers_append h.transfers (transferInv_http ..)) (goOn_append rfl),
        goOn_append rfl⟩
  | openFtp url n totalSize =>
      cases hs
      exact ⟨h.goOn rfl (transfers_append h.transfers (transferInv_ftp ..)) (goOn_append rfl),
        goOn_append rfl⟩
  | transfer i a =>
      simp only [step] at hs
      split at hs
      next t ht =>
        obtain ⟨t', ht', rfl⟩ := Option.map_eq_some_iff.mp hs
        obtain ⟨hinv, hurl, hkeeps⟩ := transfer_step (h.transfers t (List.mem_of_getElem? ht)) ht'
        have hgo : GoOn xz s { s with transfers := s.transfers.set i t' } :=
          goOn_set ht rfl hurl hkeeps
        exact ⟨h.goOn rfl (transfers_set h.transfers hinv) hgo, hgo⟩
      next => cases hs
  | move i =>
      simp only [step] at hs
      split at hs
      next t ht => exact h.moved ht hs
      next => cases hs
  | stored i well =>
      simp only [step] at hs
      split at hs
      next t ht =>
        split at hs
        next =>
          cases hs
          have hgo : GoOn xz s
              { s with transfers := s.transfers.set i { t with task := afterStore well } } :=
            goOn_set ht rfl rfl fun hc => ⟨⟨hc.done, hc.tested⟩, rfl⟩
          have hinv : TransferInv xz { t with task := afterStore well } := by
            refine ⟨(h.transfers t (List.mem_of_getElem? ht)).part, ?_, ?_⟩
            · cases well <;> rintro (htask | htask | htask) <;> cases htask
            · cases well <;> intro htask <;> cases htask
          exact ⟨h.goOn rfl (transfers_set h.transfers hinv) hgo, hgo⟩
        next => cases hs
      next => cases hs
  | server a =>
      obtain ⟨srv, hsrv, rfl⟩ := Option.map_eq_some_iff.mp hs
      obtain ⟨hsrv, hno⟩ := serverStep_some hsrv
      obtain ⟨hlocated, hbefore⟩ := server_step h.located hsrv
      refine ⟨⟨h.transfers, hlocated, fun url body hbody => ?_⟩, goOn_same rfl⟩
      rcases hbefore _ body hbody with hold | ⟨w, u, headers, hact, -⟩
      · exact (h.files url body hold).imp_right fun hleft => hleft.goOn (goOn_same rfl)
      · exact absurd hact (hno w u body headers)

/-- A body that is served is an old one, or one that a complete transfer has
    left. -/
theorem served_step (s : Proxy) (a : Act) (s' : Proxy) (ps : List (Text × Bytes))
    (h : ProxyInv K xz old s ∧ ∀ p ∈ ps, old p.1 p.2 ∨ Left xz s p.1 p.2)
    (hs : step K xz s a = some s') :
    ProxyInv K xz old s' ∧ ∀ p ∈ ps ++ bodies s a, old p.1 p.2 ∨ Left xz s' p.1 p.2 := by
  obtain ⟨hinv, hserved⟩ := h
  obtain ⟨hinv', hgo⟩ := proxyInv_step hinv hs
  refine ⟨hinv', fun p hp => ?_⟩
  have hnow : old p.1 p.2 ∨ Left xz s p.1 p.2 := by
    rcases List.mem_append.mp hp with hbefore | hnew
    · exact hserved p hbefore
    · unfold bodies at hnew
      split at hnew
      next r =>
        split at hnew
        next found hr =>
          have hpath : Locates K (.cached found) := hr ▸ hinv.located.requests r
          obtain ⟨body, hbody, rfl⟩ := Option.map_eq_some_iff.mp (Option.mem_toList.mp hnew)
          exact hinv.files found.url body (hpath ▸ hbody)
        next => cases hnew
      next => cases hnew
  exact hnow.imp_right fun hleft => hleft.goOn hgo

/-- At the start. -/
theorem proxyInv_opened {upstream source : Text → Bytes} (hwf : WellFormed K.urlHash disk) :
    ProxyInv K xz (fun url body =>
      disk.files.lookup (fileName (K.urlHash.hash url)) = some body)
      (opened disk upstream source) := by
  refine ⟨?_, ⟨hwf, fun _ => trivial⟩, fun _ _ hbody => Or.inl hbody⟩
  intro t ht
  cases ht

variable {upstream source : Text → Bytes} {acts : List Act}

/-- **Run** of the proxy: what is served was there, or was left by a download.
    -/
theorem served_run (hwf : WellFormed K.urlHash disk)
    (hrun : run (step K xz) (opened disk upstream source) acts = some s) :
    ProxyInv K xz
        (fun url body => disk.files.lookup (fileName (K.urlHash.hash url)) = some body) s ∧
      ∀ p ∈ served K xz (opened disk upstream source) acts,
        disk.files.lookup (fileName (K.urlHash.hash p.1)) = some p.2 ∨ Left xz s p.1 p.2 := by
  have hstart : ProxyInv K xz
      (fun url body => disk.files.lookup (fileName (K.urlHash.hash url)) = some body)
      (opened disk upstream source) ∧ ∀ p ∈ ([] : List (Text × Bytes)),
        disk.files.lookup (fileName (K.urlHash.hash p.1)) = some p.2 ∨
          Left xz (opened disk upstream source) p.1 p.2 :=
    ⟨proxyInv_opened hwf, fun p hp => by cases hp⟩
  exact outputs_invariant served_step hstart hrun

/-! ### One byte, stored and served -/

/-- A server for the example. -/
def exampleProxy : ServerConfig Bytes where
  urlHash := BlitzCacheRuns.exampleHash
  maxSize := 100
  len := List.length
  parseHttpDate _ := none
  maxCacheAge := 60

/-- A download, its store, and a request for the file. -/
def storedAndServed : List Act :=
  .openHttp BlitzCacheRuns.exampleUrl [] 1 1 ::
    BlitzDownloaderResults.oneByte.map (fun a => .transfer 0 (.part (.http (.download a)))) ++
    [.transfer 0 .await, .transfer 0 (.synced true), .move 0, .server (.cache (.measure 0)),
      .server (.cache (.insert 0 1 [])), .stored 0 true,
      .server (.lookupEntry 0 BlitzCacheRuns.exampleUrl 2 2), .server (.openFile 0)]

/-- No file is accepted by `xz --test`. -/
def noXz (_ : Bytes) : Bool := false

/-- A proxy with an empty cache. -/
def emptyProxy : Proxy := opened .empty (fun _ => []) fun _ => []

/-- **Where a body comes from**: in every run of the proxy, a body that is
    served from the cache was in it when it was opened, or one download of
    its URL has returned `Ok(())` and left it, so that its file is that body
    to this day, and `xz --test` has accepted it if the URL is that of an xz
    file. -/
theorem served_from_downloads (hwf : WellFormed K.urlHash disk)
    (hrun : run (step K xz) (opened disk upstream source) acts = some s)
    (h : (url, body) ∈ served K xz (opened disk upstream source) acts) :
    disk.files.lookup (fileName (K.urlHash.hash url)) = some body ∨
      ∃ t ∈ s.transfers, t.url = url ∧ joined t.part = some (some (.ok ())) ∧
        file t.part = body ∧ (isXzUrl url = true → xz body = true) := by
  refine ((served_run hwf hrun).2 _ h).imp_right ?_
  rintro ⟨i, t, ht, rfl, hc, rfl⟩
  exact ⟨t, List.mem_of_getElem? ht, rfl, hc.done, rfl, hc.tested⟩

theorem served_from_downloads_oneByte :
    ∃ s, run (step exampleProxy noXz) emptyProxy storedAndServed = some s ∧
      ((Disk.empty : Disk Bytes).files.lookup
          (fileName (exampleProxy.urlHash.hash BlitzCacheRuns.exampleUrl)) = some [7] ∨
        ∃ t ∈ s.transfers, t.url = BlitzCacheRuns.exampleUrl ∧
          joined t.part = some (some (.ok ())) ∧ file t.part = [7] ∧
          (isXzUrl BlitzCacheRuns.exampleUrl = true → noXz [7] = true)) := by
  have hany : (run (step exampleProxy noXz) emptyProxy storedAndServed).any (fun _ => true)
      = true := by decide
  obtain ⟨s, hrun, -⟩ := run_of_any hany
  have hserved : (BlitzCacheRuns.exampleUrl, [7]) ∈
      served exampleProxy noXz emptyProxy storedAndServed := by decide
  exact ⟨s, hrun, served_from_downloads BlitzCacheDisk.wellFormed_empty hrun hserved⟩

/-- **Right answers reach the cache**: where every file in the cache was the
    content of its URL when the cache was opened, and upstream answered every
    download that returned `Ok(())` with the content of its URL, every body
    that a run serves from the cache is the content of its URL. -/
theorem served_content {content : Text → Bytes} (hwf : WellFormed K.urlHash disk)
    (hrun : run (step K xz) (opened disk upstream source) acts = some s)
    (hold : ∀ url body, disk.files.lookup (fileName (K.urlHash.hash url)) = some body →
      body = content url)
    (hright : ∀ t ∈ s.transfers, joined t.part = some (some (.ok ())) →
      (file t.part).length = (content t.url).length ∧ Answered (content t.url) t.part) :
    ∀ p ∈ served K xz (opened disk upstream source) acts, p.2 = content p.1 := by
  obtain ⟨hinv, hserved⟩ := served_run hwf hrun
  intro p hp
  rcases hserved p hp with hbefore | ⟨i, t, ht, hurl, hc, hbody⟩
  · exact hold _ _ hbefore
  · have hmem := List.mem_of_getElem? ht
    obtain ⟨hlen, hanswered⟩ := hright t hmem hc.done
    rw [← hbody, ← hurl]
    exact (file_eq_iff (hinv.transfers t hmem).part hc.done hlen).mpr hanswered

/-- The one segment of the download came with a response that begins with
    the byte 7. -/
def broughtSeven : Part → Bool
  | .http d => decide (d.buf.file.length = 1 ∧ d.buf.segments = [⟨0, 1, .ready⟩] ∧
      (lastTransfer 0 d.log).map BlitzTransfers.Transfer.body = some [7, 8])
  | .ftp _ => false

/-- The test of the example is one of `Answered`. -/
theorem answered_of_broughtSeven (h : broughtSeven p = true) :
    (file p).length = 1 ∧ Answered [7] p := by
  cases p with
  | ftp d => cases h
  | http d =>
      obtain ⟨hlen, hsegs, hbody⟩ := of_decide_eq_true h
      refine ⟨hlen, fun id seg t hseg ht => ?_⟩
      rw [hsegs] at hseg
      cases id with
      | zero =>
          cases hseg
          rw [ht] at hbody
          rw [Option.some.inj hbody]
          rfl
      | succ id => cases hseg

theorem served_content_oneByte :
    ∃ s, run (step exampleProxy noXz) emptyProxy storedAndServed = some s ∧
      ∀ p ∈ served exampleProxy noXz emptyProxy storedAndServed, p.2 = [7] := by
  have hany : (run (step exampleProxy noXz) emptyProxy storedAndServed).any (fun s =>
      s.transfers.all fun t => broughtSeven t.part) = true := by decide
  obtain ⟨s, hrun, hall⟩ := run_of_any hany
  refine ⟨s, hrun, ?_⟩
  refine @served_content _ _ _ _ _ _ _ (fun _ => [7]) BlitzCacheDisk.wellFormed_empty hrun
    (fun _ _ hbody => by cases hbody) ?_
  intro t ht _
  exact answered_of_broughtSeven (List.all_eq_true.mp hall t ht)

end BlitzCachedBodies
