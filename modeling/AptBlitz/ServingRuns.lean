import AptBlitz.CacheRuns
import AptBlitz.Serving

/-! # Bodies and headers over whole runs

    A request finds a row, and opens a path later; a `store` replaces the
    file at that path before the row.  As long as every file that is opened,
    refreshed or inserted is the one that was meant (`FindsItsOwn`), the
    headers of a request and of a row go on describing their body:
    `sound_step`. -/

namespace BlitzServingRuns

open RustText BlitzHeaders BlitzCacheDisk BlitzCacheRuns BlitzServing Runs
open BlitzCache hiding Act step
open BlitzCache.Disk hiding refresh

variable {γ : Type} {K : ServerConfig γ} {V : γ → Text → Option Text} {s s' : Server γ}
  {a : Act γ} {acts : List (Act γ)} {g : γ} {headers response : HeaderMap} {url : Text}

/-! ## Validators -/

/-- The headers that a `HEAD` is compared by. -/
def validators : List Text := ["etag", "last-modified"].map String.toList

/-- The validators among the headers are those of the generation. -/
def Describes (V : γ → Text → Option Text) (g : γ) (headers : HeaderMap) : Prop :=
  ∀ name ∈ validators, ∀ value, headers.get name = some value → V g name = some value

/-- No two generations share a validator. -/
def Identifies (V : γ → Text → Option Text) : Prop :=
  ∀ name ∈ validators, ∀ g g' value, V g name = some value → V g' name = some value → g = g'

/-- Made a map, headers describe the same. -/
theorem Describes.headersToMap (h : Describes V g headers) :
    Describes V g (headersToMap headers) :=
  fun name hname value hget => h name hname value (get_headersToMap hget)

/-- A header taken over from a response that describes the same. -/
theorem Describes.mergeHeader {name : Text} (h : Describes V g headers)
    (hresponse : Describes V g response) : Describes V g (mergeHeader response headers name) := by
  rw [BlitzServing.mergeHeader]
  cases hget : response.get name with
  | none => exact h
  | some value =>
      intro n hn v hv
      rw [get_insert] at hv
      split at hv
      next heq =>
        subst heq
        exact hresponse n hn v (hget.trans hv)
      next => exact h n hn v hv

/-- Headers taken over from a response that describes the same. -/
theorem Describes.merge (h : Describes V g headers) (hresponse : Describes V g response)
    (names : List Text) : Describes V g (names.foldl (BlitzServing.mergeHeader response) headers) := by
  induction names generalizing headers with
  | nil => exact h
  | cons name names ih => exact ih (h.mergeHeader hresponse)

/-- What a revalidation confirms describes what the cached headers described. -/
theorem Describes.decideRevalidate {status : Nat} {new : HeaderMap} (h : Describes V g headers)
    (h304 : status = 304 → Describes V g response)
    (hfresh : decideRevalidate status response headers = .fresh new) : Describes V g new := by
  rw [BlitzServing.decideRevalidate] at hfresh
  split at hfresh
  next heq =>
    cases hfresh
    exact h.merge (h304 heq) _
  next =>
    split at hfresh
    · cases hfresh
      exact h
    · exact nomatch hfresh

/-- The headers of an answer describe what those of the row do. -/
theorem Describes.serveHeaders {n : Nat} (h : Describes V g headers) :
    Describes V g (serveHeaders headers n) := by
  intro name hname value hget
  refine h name hname value ?_
  have hmore : ([("content-length".toList, natText n), ("accept-ranges".toList, "bytes".toList)] :
      HeaderMap).lookup name = none := by
    simp only [validators, List.map_cons, List.map_nil, List.mem_cons, List.not_mem_nil,
      or_false] at hname
    rcases hname with rfl | rfl <;> rfl
  have hget : (headers ++ [("content-length".toList, natText n),
      ("accept-ranges".toList, "bytes".toList)]).lookup name = some value := hget
  rwa [List.lookup_append, hmore, Option.or_none] at hget

/-! ## What is assumed, and what has to be found -/

/-- What comes from the upstream is of a generation: a file is stored with
    headers of its own, a response carries the validators of the generation
    that is there, and 304 says that one of the validators sent is still its
    validator. -/
def FromUpstream (V : γ → Text → Option Text) (s : Server γ) : Act γ → Prop
  | .cache (.rename _ _ content headers) => Describes V content headers
  | .head r (some (status, response)) => ∀ found, s.requests r = .stale found →
      Describes V (s.upstream found.url) response ∧
        (status = 304 → ∃ name ∈ validators, ∃ value,
          found.headers.get name = some value ∧ V (s.upstream found.url) name = some value)
  | _ => True

/-- A file is opened that is of the generation of the row found; so is the
    file when a row is refreshed, unless a `store` of the URL is in progress
    and will replace the row; and an insert finds its own file, or none,
    unless another such `store` is in progress or the row is evicted at
    once. -/
def FindsItsOwn (K : ServerConfig γ) (s : Server γ) : Act γ → Prop
  | .openFile r => ∀ found body, s.requests r = .cached found →
      s.cache.disk.files.lookup found.path = some body → body = found.source
  | .refresh r _ => ∀ found row file, s.requests r = .confirmed found →
      ¬ Storing s.cache found.url →
      s.cache.disk.rows.lookup (K.urlHash.hash found.url) = some row →
      s.cache.disk.files.lookup found.path = some file → file = found.source
  | .cache (.insert w _ victims) => ∀ url content headers size file,
      s.cache.stores w = .measured url content headers size →
      s.cache.disk.files.lookup (fileName (K.urlHash.hash url)) = some file →
      (∃ v, v ≠ w ∧ (s.cache.stores v).url = some url) ∨ K.urlHash.hash url ∈ victims ∨
        file = content
  | _ => True

/-! ## The invariant -/

/-- The headers of a store describe its content. -/
def StoreSound (V : γ → Text → Option Text) : StorePc γ → Prop
  | .idle => True
  | .renamed _ content headers => Describes V content headers
  | .measured _ content headers _ => Describes V content headers

/-- What a request has found is a row of its URL, with headers that describe
    the source. -/
def FoundSound (K : ServerConfig γ) (V : γ → Text → Option Text) (found : Found γ) : Prop :=
  found.path = fileName (K.urlHash.hash found.url) ∧ Describes V found.source found.headers

/-- The headers a request has, or has been sent, describe the body. -/
def RequestSound (K : ServerConfig γ) (V : γ → Text → Option Text) : RequestPc γ → Prop
  | .stale found => FoundSound K V found
  | .confirmed found => FoundSound K V found
  | .cached found => FoundSound K V found
  | .served headers body => Describes V body headers
  | _ => True

/-- The headers of a row describe its source, and its file is of that
    generation unless a `store` of the URL is in progress. -/
structure DiskSound (K : ServerConfig γ) (V : γ → Text → Option Text) (cache : Process γ)
    (source : Text → γ) : Prop where
  wellFormed : WellFormed K.urlHash cache.disk
  rows : ∀ h row, cache.disk.rows.lookup h = some row → Describes V (source h) row.headers
  files : ∀ url row file, ¬ Storing cache url →
    cache.disk.rows.lookup (K.urlHash.hash url) = some row →
    cache.disk.files.lookup (fileName (K.urlHash.hash url)) = some file →
    file = source (K.urlHash.hash url)

/-- The headers describe the bodies, everywhere in the server. -/
structure Sound (K : ServerConfig γ) (V : γ → Text → Option Text) (s : Server γ) : Prop where
  disk : DiskSound K V s.cache s.source
  stores : ∀ w, StoreSound V (s.cache.stores w)
  requests : ∀ r, RequestSound K V (s.requests r)

/-- A request goes on with headers that describe its body. -/
theorem Sound.goto {r : Nat} {pc : RequestPc γ} (h : Sound K V s) (hpc : RequestSound K V pc) :
    Sound K V (s.goto r pc) := by
  refine ⟨h.disk, h.stores, ?_⟩
  exact (Function.forall_update_iff s.requests fun _ => RequestSound K V).mpr
    ⟨hpc, fun r' _ => h.requests r'⟩

/-- Rows and files less. -/
theorem Sound.shrink {d : Disk γ} (h : Sound K V s) (hwf : WellFormed K.urlHash d)
    (hsub : Shrinks s.cache.disk d) : Sound K V (s.withDisk d) := by
  refine ⟨⟨hwf, ?_, ?_⟩, h.stores, h.requests⟩
  · intro hash row' hrow'
    obtain ⟨row, hrow, heq⟩ := hsub.rows hash row' hrow'
    rw [heq]
    exact h.disk.rows hash row hrow
  · intro url row' file hno hrow' hfile
    obtain ⟨row, hrow, -⟩ := hsub.rows _ row' hrow'
    exact h.disk.files url row file hno hrow (hsub.files _ file hfile)

/-! ## Steps of the cache -/

theorem noteSource_of_ne {act : BlitzCache.Act γ}
    (hact : ∀ w now victims, act ≠ .insert w now victims) : noteSource K s act = s := by
  cases act with
  | insert w now victims => exact absurd rfl (hact w now victims)
  | _ => rfl

/-- A store goes on with headers that describe its content. -/
theorem storeSound_put {w : Nat} {d : Disk γ} {pc : StorePc γ} {cache : Process γ}
    (h : ∀ w, StoreSound V (cache.stores w)) (hpc : StoreSound V pc) :
    ∀ v, StoreSound V ((cache.put d w pc).stores v) :=
  (Function.forall_update_iff cache.stores fun _ => StoreSound V).mpr ⟨hpc, fun v _ => h v⟩

/-- A store that renames leaves the rows, and the files of other URLs. -/
theorem diskSound_rename {w : Nat} {content : γ} {source : Text → γ} {cache : Process γ}
    (h : DiskSound K V cache source) (hw : cache.stores w = .idle) :
    DiskSound K V (cache.put (cache.disk.rename K.urlHash url content) w
      (.renamed url content headers)) source := by
  refine ⟨wellFormed_rename h.wellFormed, h.rows, ?_⟩
  intro url' row file hno hrow hfile
  have hne : url' ≠ url := by
    rintro rfl
    exact hno (storing_put.mpr (Or.inl rfl))
  have hfile : (cache.disk.rename K.urlHash url content).files.lookup
      (fileName (K.urlHash.hash url')) = some file := hfile
  rw [lookup_rename, if_neg (mt (fun e => K.urlHash.injective e) hne)] at hfile
  exact h.files url' row file (storing_of_put hno (by rw [hw]; exact nofun)) hrow hfile

/-- A store that finds no file ends, and there is nothing to pair. -/
theorem diskSound_missing {w : Nat} {content : γ} {source : Text → γ} {cache : Process γ}
    (h : DiskSound K V cache source) (hw : cache.stores w = .renamed url content headers)
    (hm : cache.disk.metadata K.len K.urlHash url = none) :
    DiskSound K V (cache.put cache.disk w .idle) source := by
  refine ⟨h.wellFormed, h.rows, ?_⟩
  intro url' row file hno hrow hfile
  by_cases hurl : url' = url
  · subst hurl
    exact nomatch (Option.map_eq_none_iff.mp hm).symm.trans hfile
  · refine h.files url' row file (storing_of_put hno ?_) hrow hfile
    rw [hw]
    intro heq
    exact hurl (Option.some.inj heq).symm

/-- An insert that finds its own file. -/
theorem diskSound_insert {w size now : Nat} {victims : List Text} {content : γ}
    {source : Text → γ} {cache : Process γ} {d : Disk γ} (h : DiskSound K V cache source)
    (hw : cache.stores w = .measured url content headers size)
    (hheaders : Describes V content headers)
    (hd : cache.disk.storeLocked K.maxSize K.urlHash url size headers now victims = some d)
    (hown : ∀ file, cache.disk.files.lookup (fileName (K.urlHash.hash url)) = some file →
      (∃ v, v ≠ w ∧ (cache.stores v).url = some url) ∨ K.urlHash.hash url ∈ victims ∨
        file = content) :
    DiskSound K V (cache.put d w .idle)
      (Function.update source (K.urlHash.hash url) content) := by
  refine ⟨wellFormed_storeLocked h.wellFormed hd, ?_, ?_⟩
  · intro hash row hrow
    rcases storeLocked_row h.wellFormed hd hrow with ⟨rfl, rfl⟩ | ⟨hne, hold⟩
    · rw [Function.update_self]
      exact hheaders.headersToMap
    · rw [Function.update_of_ne hne]
      exact h.rows hash row hold
  · intro url' row file hno hrow hfile
    obtain ⟨hvictim, hfile⟩ := storeLocked_file h.wellFormed hd hfile
    rcases storeLocked_row h.wellFormed hd hrow with ⟨heq, -⟩ | ⟨hne, hold⟩
    · obtain rfl := K.urlHash.injective heq
      rw [Function.update_self]
      -- the source is now `content`: a file of `url` that is another store's
      -- is not asked about
      rcases hown file hfile with hother | hin | hcontent
      · exact absurd (storing_put.mpr (Or.inr hother)) hno
      · exact absurd hin hvictim
      · exact hcontent
    · rw [Function.update_of_ne hne]
      refine h.files url' row file (storing_of_put hno ?_) hold hfile
      rw [hw]
      intro heq
      exact hne (congrArg K.urlHash.hash (Option.some.inj heq).symm)

/-- A step of the cache that is no refresh. -/
theorem sound_cache {act : BlitzCache.Act γ} {cache : Process γ} (h : Sound K V s)
    (hup : FromUpstream V s (.cache act)) (hown : FindsItsOwn K s (.cache act))
    (hact : ∀ u hs now, act ≠ .refresh u hs now)
    (hs : BlitzCache.step K.toConfig s.cache act = some cache) :
    Sound K V { noteSource K s act with cache } := by
  cases stepped_of_step hs with
  | renamed hw =>
      exact ⟨diskSound_rename h.disk hw, storeSound_put h.stores hup, h.requests⟩
  | @measured w url content headers size hw hm =>
      have hstore : StoreSound V (.renamed url content headers) := hw ▸ h.stores w
      refine ⟨⟨h.disk.wellFormed, h.disk.rows, ?_⟩, storeSound_put h.stores hstore, h.requests⟩
      intro url' row file hno
      rw [storing_put_same (by rw [hw]; rfl)] at hno
      exact h.disk.files url' row file hno
  | missing hw hm =>
      exact ⟨diskSound_missing h.disk hw hm, storeSound_put h.stores trivial, h.requests⟩
  | @inserted w now victims url content headers size d hw hd =>
      have hstore : StoreSound V (.measured url content headers size) := hw ▸ h.stores w
      have hnote : noteSource K s (.insert w now victims)
          = s.setSource (K.urlHash.hash url) content := by
        simp only [noteSource, hw]
      rw [hnote]
      exact ⟨diskSound_insert h.disk hw hstore hd (fun file => hown _ _ _ _ file hw),
        storeSound_put h.stores trivial, h.requests⟩
  | @locked _ d hwf _ hsub hb =>
      rw [noteSource_of_ne hb]
      exact h.shrink (hwf h.disk.wellFormed) hsub
  | @refreshed u new now => exact absurd rfl (hact u new now)

/-! ## Steps of the requests -/

/-- A row that is found has the path of its URL, and headers that describe
    its source. -/
theorem found_of_lookupEntry {now : Nat} {path : Text} {cachedAt : Nat} (h : Sound K V s)
    (hfound : (s.cache.disk.lookupEntry K.urlHash url now).2 = some (path, headers, cachedAt)) :
    FoundSound K V ⟨url, path, headers, s.source (K.urlHash.hash url)⟩ := by
  rw [lookupEntry] at hfound
  split at hfound
  next row hrow =>
    split at hfound
    · cases hfound
      exact ⟨(h.disk.wellFormed.rows _ row hrow).2, h.disk.rows _ row hrow⟩
    · cases hfound
  next => cases hfound

/-- What a lookup leaves a request with. -/
theorem requestSound_afterLookup {later : Nat} {source : γ}
    {result : Option (Text × HeaderMap × Nat)}
    (h : ∀ path headers cachedAt, result = some (path, headers, cachedAt) →
      FoundSound K V ⟨url, path, headers, source⟩) :
    RequestSound K V (afterLookup K url source later result) := by
  cases result with
  | none => trivial
  | some found =>
      obtain ⟨path, headers, cachedAt⟩ := found
      have hsound := h path headers cachedAt rfl
      simp only [afterLookup]
      split
      · exact hsound
      · split
        · exact hsound
        · trivial

/-- A lookup. -/
theorem sound_lookupEntry {r now later : Nat} (h : Sound K V s) :
    Sound K V ((s.withDisk (s.cache.disk.lookupEntry K.urlHash url now).1).goto r
      (afterLookup K url (s.source (K.urlHash.hash url)) later
        (s.cache.disk.lookupEntry K.urlHash url now).2)) :=
  (h.shrink (wellFormed_lookupEntry h.disk.wellFormed) shrinks_lookupEntry).goto
    (requestSound_afterLookup fun _ _ _ hfound => found_of_lookupEntry h hfound)

/-- 304 says that the generation upstream is the one that was found. -/
theorem describes_notModified {current : γ} (hid : Identifies V) (h : Describes V g headers)
    (hresponse : Describes V current response)
    (hmatch : ∃ name ∈ validators, ∃ value,
      headers.get name = some value ∧ V current name = some value) :
    Describes V g response := by
  obtain ⟨name, hname, value, hsent, hcurrent⟩ := hmatch
  have heq : g = current := hid name hname _ _ value (h name hname value hsent) hcurrent
  exact heq ▸ hresponse

/-- What a `HEAD` leaves a request with. -/
theorem requestSound_afterHead {r : Nat} {answer : Option (Nat × HeaderMap)} {found : Found γ}
    (hid : Identifies V) (h : FoundSound K V found) (hr : s.requests r = .stale found)
    (hup : FromUpstream V s (.head r answer)) :
    RequestSound K V (afterHead found (revalidate answer found.headers)) := by
  cases answer with
  | none => exact h
  | some answer =>
      obtain ⟨status, response⟩ := answer
      obtain ⟨hresponse, h304⟩ := hup found hr
      cases hrev : decideRevalidate status response found.headers with
      | fresh new =>
          show RequestSound K V (afterHead found (decideRevalidate status response found.headers))
          rw [hrev]
          refine ⟨h.1, h.2.decideRevalidate ?_ hrev⟩
          intro hstatus
          exact describes_notModified hid h.2 hresponse (h304 hstatus)
      | stale =>
          show RequestSound K V (afterHead found (decideRevalidate status response found.headers))
          rw [hrev]
          trivial
      | unreachable =>
          show RequestSound K V (afterHead found (decideRevalidate status response found.headers))
          rw [hrev]
          exact h

/-- A refresh gives the row headers of the generation that was found. -/
theorem diskSound_refresh {found : Found γ} {now : Nat} (h : DiskSound K V s.cache s.source)
    (hfound : FoundSound K V found)
    (hown : ∀ row file, ¬ Storing s.cache found.url →
      s.cache.disk.rows.lookup (K.urlHash.hash found.url) = some row →
      s.cache.disk.files.lookup found.path = some file → file = found.source) :
    DiskSound K V
      { s.cache with disk := s.cache.disk.refresh K.urlHash found.url found.headers now }
      (Function.update s.source (K.urlHash.hash found.url) found.source) := by
  obtain ⟨hpath, hdescribes⟩ := hfound
  refine ⟨wellFormed_refresh h.wellFormed, ?_, ?_⟩
  · intro hash row hrow
    have hrow : (s.cache.disk.refresh K.urlHash found.url found.headers now).rows.lookup hash
        = some row := hrow
    rw [BlitzCache.Disk.refresh, (lookup_updateRow _).1] at hrow
    split at hrow
    next heq =>
      subst heq
      obtain ⟨old, -, rfl⟩ := Option.map_eq_some_iff.mp hrow
      rw [Function.update_self]
      exact hdescribes.headersToMap
    next hne =>
      rw [Function.update_of_ne hne]
      exact h.rows hash row hrow
  · intro url row file hno hrow hfile
    have hrow : (s.cache.disk.refresh K.urlHash found.url found.headers now).rows.lookup
        (K.urlHash.hash url) = some row := hrow
    have hfile : (s.cache.disk.refresh K.urlHash found.url found.headers now).files.lookup
        (fileName (K.urlHash.hash url)) = some file := hfile
    rw [BlitzCache.Disk.refresh, (lookup_updateRow _).1] at hrow
    rw [BlitzCache.Disk.refresh, (@lookup_updateRow _ _ [] _ _).2] at hfile
    split at hrow
    next heq =>
      -- the row is now described by the response of the HEAD request
      obtain rfl := K.urlHash.injective heq
      obtain ⟨old, hold, -⟩ := Option.map_eq_some_iff.mp hrow
      rw [Function.update_self]
      exact hown old file hno hold (hpath ▸ hfile)
    next hne =>
      rw [Function.update_of_ne hne]
      exact h.files url row file hno hrow hfile

/-- **Step lemma**: under the condition, what describes goes on describing. -/
theorem sound_step (hid : Identifies V) (h : Sound K V s) (hup : FromUpstream V s a)
    (hown : FindsItsOwn K s a) (hs : step K s a = some s') : Sound K V s' := by
  cases a with
  | cache act =>
      cases act with
      | refresh => exact nomatch hs
      | _ =>
          simp only [step] at hs
          obtain ⟨cache, hcache, rfl⟩ := Option.map_eq_some_iff.mp hs
          exact sound_cache h hup hown nofun hcache
  | publish url generation =>
      cases hs
      -- what upstream offers next does not change what was stored
      exact ⟨h.disk, h.stores, h.requests⟩
  | lookupEntry r url now later =>
      simp only [step] at hs
      split at hs
      · cases hs
        exact sound_lookupEntry h
      · cases hs
        exact sound_lookupEntry h
      · exact nomatch hs
  | head r answer =>
      simp only [step] at hs
      split at hs
      next found hr =>
        cases hs
        have hfound : RequestSound K V (.stale found) := hr ▸ h.requests r
        exact h.goto (requestSound_afterHead hid hfound hr hup)
      next => exact nomatch hs
  | refresh r now =>
      simp only [step] at hs
      split at hs
      next found hr =>
        cases hs
        have hfound : RequestSound K V (.confirmed found) := hr ▸ h.requests r
        refine Sound.goto ⟨?_, h.stores, h.requests⟩ hfound
        exact diskSound_refresh h.disk hfound fun row file => hown found row file hr
      next => exact nomatch hs
  | openFile r =>
      simp only [step] at hs
      split at hs
      next found hr =>
        have hfound : RequestSound K V (.cached found) := hr ▸ h.requests r
        split at hs
        next body hbody =>
          cases hs
          -- the file opened is the one that the request was told of
          obtain rfl : body = found.source := hown found body hr hbody
          exact h.goto (Describes.serveHeaders hfound.2)
        next =>
          cases hs
          exact h.goto trivial
      next => exact nomatch hs

/-! ## Runs -/

/-- What a client gets is described by the headers it gets, and so is the
    file of a row by the row's headers once no store is in progress. -/
structure AsDescribed (V : γ → Text → Option Text) (s : Server γ) : Prop where
  served : ∀ r headers body, s.requests r = .served headers body → Describes V body headers
  stored : Quiet s.cache → ∀ h row file, s.cache.disk.rows.lookup h = some row →
    s.cache.disk.files.lookup row.filePath = some file → Describes V file row.headers

/-- What is served is as described. -/
theorem Sound.asDescribed (h : Sound K V s) : AsDescribed V s := by
  constructor
  · intro r headers body hr
    have hserved : RequestSound K V (.served headers body) := hr ▸ h.requests r
    exact hserved
  · intro hq hash row file hrow hfile
    obtain ⟨rfl, hpath⟩ := h.disk.wellFormed.rows hash row hrow
    have hno : ¬ Storing s.cache row.url := by
      rintro ⟨w, hw⟩
      rw [hq w] at hw
      exact nomatch hw
    obtain rfl := h.disk.files row.url row file hno hrow (hpath ▸ hfile)
    exact h.disk.rows _ row hrow

/-- At the start, with a cache whose headers describe its files. -/
theorem sound_listening {disk : Disk γ} {upstream source : Text → γ}
    (hwf : WellFormed K.urlHash disk)
    (hrows : ∀ h row, disk.rows.lookup h = some row → Describes V (source h) row.headers)
    (hfiles : ∀ h row file, disk.rows.lookup h = some row →
      disk.files.lookup row.filePath = some file → file = source h) :
    Sound K V (listening (opened disk) upstream source) := by
  refine ⟨⟨hwf, hrows, ?_⟩, fun _ => trivial, fun _ => trivial⟩
  intro url row file _ hrow hfile
  exact hfiles _ row file hrow ((hwf.rows _ row hrow).2 ▸ hfile)

end BlitzServingRuns
