import AptBlitz.Cache
import AptBlitz.Freshness

/-! # Serving from the cache

    What `resolve_with_coalescing` does while a URL has a cached file, and
    `serve_file` after it, for any number of requests, among the stores,
    evictions and deletions of the cache.  A step is one call of the cache,
    one conditional HEAD request, or the open of the file.

    A file is of an upstream generation, of any type `γ`.  The state also
    keeps, for every row, the generation whose headers it was given last,
    and every request keeps the one of the row it has found: nothing reads
    these. -/

namespace BlitzServing

open RustText BlitzHeaders BlitzFreshness BlitzCache

/-! ## Revalidation -/

/-- What `revalidate_with_conditional_head` says. -/
inductive Revalidate where
  | fresh (headers : HeaderMap)
  | stale
  | unreachable

/-- What a 304 may bring anew. -/
def revalidatedHeaders : List Text :=
  ["etag", "last-modified", "cache-control", "expires"].map String.toList

/-- `merged.insert(name, val.clone())`, when the response has the header. -/
def mergeHeader (response merged : HeaderMap) (name : Text) : HeaderMap :=
  match response.get name with
  | some value => merged.insert name value
  | none => merged

/-- `StatusCode::is_success`. -/
def isSuccess (status : Nat) : Bool := 200 ≤ status && status < 300

/-- `decide_revalidate`. -/
def decideRevalidate (status : Nat) (response cached : HeaderMap) : Revalidate :=
  if status = 304 then
    .fresh (revalidatedHeaders.foldl (mergeHeader response) cached)
  else if isSuccess status && etagEquals cached response then .fresh cached
  else .stale

/-- `revalidate_with_conditional_head`, given what sending the request gave. -/
def revalidate (answer : Option (Nat × HeaderMap)) (cached : HeaderMap) : Revalidate :=
  match answer with
  | some (status, response) => decideRevalidate status response cached
  | none => .unreachable

/-- `url.starts_with("http://") || url.starts_with("https://")`. -/
def isHttp (url : Text) : Bool :=
  "http://".toList.isPrefixOf url || "https://".toList.isPrefixOf url

/-! ## Requests -/

/-- What a request knows of the row it has found. -/
structure Found (γ : Type) where
  url : Text
  path : Text
  headers : HeaderMap
  /-- whose headers they are -/
  source : γ

/-- Where a request stands. -/
inductive RequestPc (γ : Type) where
  /-- before `lookup_entry` -/
  | start
  /-- the conditional HEAD request is out -/
  | stale (found : Found γ)
  /-- with the headers to be stored -/
  | confirmed (found : Found γ)
  /-- `CoalesceOutcome::Cached` -/
  | cached (found : Found γ)
  /-- to `coalescer.register` -/
  | missed
  | served (headers : HeaderMap) (body : γ)
  | failed

/-- The headers of `serve_file`'s response. -/
def serveHeaders (headers : HeaderMap) (contentLength : Nat) : HeaderMap :=
  headers ++
    [("content-length".toList, natText contentLength), ("accept-ranges".toList, "bytes".toList)]

/-- The cache, upstream, and the requests. -/
structure Server (γ : Type) where
  cache : Process γ
  /-- the generation that is upstream, by URL -/
  upstream : Text → γ
  requests : Nat → RequestPc γ
  /-- the generation whose headers the row of a hash was given last -/
  source : Text → γ

/-- What a server is configured with. -/
structure ServerConfig (γ : Type) extends Config γ where
  parseHttpDate : Text → Option Nat
  maxCacheAge : Nat

/-- The steps of the requests, of the cache and of upstream. -/
inductive Act (γ : Type) where
  /-- a step of the cache for other requests, or for `blitzctl` -/
  | cache (act : BlitzCache.Act γ)
  | publish (url : Text) (generation : γ)
  | lookupEntry (r : Nat) (url : Text) (now later : Nat)
  | head (r : Nat) (answer : Option (Nat × HeaderMap))
  | refresh (r now : Nat)
  | openFile (r : Nat)

variable {γ : Type}

namespace Server

/-- Request `r` goes on to `pc`. -/
def goto (s : Server γ) (r : Nat) (pc : RequestPc γ) : Server γ :=
  { s with requests := Function.update s.requests r pc }

/-- The disk of the cache is written. -/
def withDisk (s : Server γ) (disk : Disk γ) : Server γ :=
  { s with cache := { s.cache with disk } }

/-- The generation of a row is noted. -/
def setSource (s : Server γ) (hash : Text) (generation : γ) : Server γ :=
  { s with source := Function.update s.source hash generation }

end Server

/-- After `lookup_entry`. -/
def afterLookup (K : ServerConfig γ) (url : Text) (source : γ) (later : Nat) :
    Option (Text × HeaderMap × Nat) → RequestPc γ
  | none => .missed
  | some (path, headers, cachedAt) =>
      if isFresh K.parseHttpDate later cachedAt headers K.maxCacheAge then
        .cached ⟨url, path, headers, source⟩
      else if isHttp url then .stale ⟨url, path, headers, source⟩
      else .missed

/-- After the conditional HEAD request. -/
def afterHead (found : Found γ) : Revalidate → RequestPc γ
  | .fresh headers => .confirmed { found with headers }
  | .stale => .missed
  | .unreachable => .cached found

/-- An insert gives its row the headers of what it has stored. -/
def noteSource (K : ServerConfig γ) (s : Server γ) : BlitzCache.Act γ → Server γ
  | .insert w _ _ =>
      match s.cache.stores w with
      | .measured url content _ _ => s.setSource (K.urlHash.hash url) content
      | _ => s
  | _ => s

/-- One step of the server. -/
def step (K : ServerConfig γ) (s : Server γ) : Act γ → Option (Server γ)
  | .cache (.refresh ..) => none
  | .cache act =>
      (BlitzCache.step K.toConfig s.cache act).map fun cache =>
        { noteSource K s act with cache }
  | .publish url generation =>
      some { s with upstream := Function.update s.upstream url generation }
  | .lookupEntry r url now later =>
      match s.requests r with
      | .start | .missed =>
          let result := s.cache.disk.lookupEntry K.urlHash url now
          let pc := afterLookup K url (s.source (K.urlHash.hash url)) later result.2
          some ((s.withDisk result.1).goto r pc)
      | _ => none
  | .head r answer =>
      match s.requests r with
      | .stale found => some (s.goto r (afterHead found (revalidate answer found.headers)))
      | _ => none
  | .refresh r now =>
      match s.requests r with
      | .confirmed found =>
          let disk := s.cache.disk.refresh K.urlHash found.url found.headers now
          let s' := (s.withDisk disk).setSource (K.urlHash.hash found.url) found.source
          some (s'.goto r (.cached found))
      | _ => none
  | .openFile r =>
      match s.requests r with
      | .cached found =>
          match s.cache.disk.files.lookup found.path with
          | some body => some (s.goto r (.served (serveHeaders found.headers (K.len body)) body))
          | none => some (s.goto r .failed)
      | _ => none

/-- The requests have not begun. -/
def listening (cache : Process γ) (upstream source : Text → γ) : Server γ :=
  ⟨cache, upstream, fun _ => .start, source⟩

end BlitzServing
