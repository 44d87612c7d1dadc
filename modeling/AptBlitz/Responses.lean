import AptBlitz.CacheRuns
import AptBlitz.Leader
import AptBlitz.Serving

/-! # Three ways to a file

    A client gets a file from the leader's response, from the buffer of a
    download that it follows, or later from the cache.  The headers go
    through `copy_forward_headers`, and for the cache through a stored subset
    and `serve_file`, whose builder appends two headers to what was stored.

    One of the two is stored as well: the three responses agree in
    everything but `Accept-Ranges`, and in that they never agree. -/

namespace BlitzResponses

open RustText BlitzHeaders BlitzLeader BlitzCacheDisk BlitzCacheRuns Runs
open BlitzServing hiding Act step afterHead
open BlitzCache hiding Act step

/-! ## Values -/

/-- All values of a header. -/
def values (headers : HeaderMap) (name : Text) : List Text :=
  (headers.filter fun h => h.1 == name).map Prod.snd

variable {headers head : HeaderMap} {name : Text} {names : List Text}

theorem values_append (more : HeaderMap) :
    values (headers ++ more) name = values headers name ++ values more name := by
  simp [values]

/-- One header more. -/
theorem values_cons (n value : Text) :
    values ((n, value) :: headers) name
      = if n = name then value :: values headers name else values headers name := by
  by_cases hn : n = name
  · rw [if_pos hn, values, List.filter_cons_of_pos (by simpa using hn), List.map_cons]
    rfl
  · rw [if_neg hn, values, List.filter_cons_of_neg (by simpa using hn)]
    rfl

/-- `get` gives the first value. -/
theorem get_eq_head? : headers.get name = (values headers name).head? := by
  induction headers with
  | nil => rfl
  | cons h headers ih =>
      obtain ⟨n, value⟩ := h
      show ((n, value) :: headers).lookup name = _
      by_cases hn : n = name
      · subst hn
        simp [values]
      · have hne : (name == n) = false := beq_eq_false_iff_ne.mpr (Ne.symm hn)
        rw [List.lookup_cons, hne, values, List.filter_cons_of_neg (by simpa using hn)]
        exact ih

/-- One value, if there is any, for each of some names. -/
def select (names : List Text) (value : Text → Option Text) : HeaderMap :=
  names.filterMap fun name => (value name).map fun v => (name, v)

/-- The values of a selection. -/
theorem values_select {value : Text → Option Text} (hnodup : names.Nodup) :
    values (select names value) name = if name ∈ names then (value name).toList else [] := by
  induction names with
  | nil => rfl
  | cons n names ih =>
      obtain ⟨hn, hnodup⟩ := List.nodup_cons.mp hnodup
      have hrest := ih hnodup
      have hcons : select (n :: names) value
          = ((value n).map fun v => (n, v)).toList ++ select names value := by
        cases hv : value n with
        | none => simp [select, hv]
        | some v => simp [select, hv]
      rw [hcons, values_append, hrest]
      by_cases hname : name = n
      · subst hname
        rw [if_neg hn, if_pos List.mem_cons_self]
        cases value name with
        | none => rfl
        | some v => simp [values]
      · have hother : values ((value n).map fun v => (n, v)).toList name = [] := by
          cases value n with
          | none => rfl
          | some v => simp [values, Ne.symm hname]
        simp [hother, hname]

/-- What a leader's and a follower's answers have of the head. -/
theorem values_copyForwardHeaders :
    values (copyForwardHeaders head) name
      = if name ∈ forwardHeaders then (head.get name).toList else [] :=
  values_select (by decide)

theorem values_headersToMap :
    values (headersToMap headers) name
      = if name ∈ storedHeaders then ((headers.get name).bind toStr).toList else [] :=
  values_select (by decide)

/-! ## The three responses -/

/-- The leader's response, once the download is on its way. -/
def leaderResponse (head : HeaderMap) : Response := ⟨200, copyForwardHeaders head⟩

/-- What `set_meta` leaves in the buffer. -/
def bufferMeta (head : HeaderMap) : Nat × HeaderMap := (200, copyForwardHeaders head)

/-- `serve_from_buffer`. -/
def serveFromBuffer (status : Nat) (headers : HeaderMap) : Response := ⟨status, headers⟩

/-- A follower's response. -/
def followerResponse (head : HeaderMap) : Response :=
  serveFromBuffer (bufferMeta head).1 (bufferMeta head).2

/-- `serve_file`. -/
def serveFile (headers : HeaderMap) (contentLength : Nat) : Response :=
  ⟨200, serveHeaders headers contentLength⟩

/-- The headers that describe a file. -/
def fileHeaders : List Text :=
  ["content-type", "content-length", "content-disposition", "accept-ranges", "last-modified",
    "etag", "cache-control", "expires"].map String.toList

/-- One status, and of each header the same values, of which there is at most
    one. -/
structure Agree (responses : List Response) : Prop where
  status : ∀ r ∈ responses, ∀ q ∈ responses, r.status = q.status
  same : ∀ name ∈ fileHeaders, ∀ r ∈ responses, ∀ q ∈ responses,
    values r.headers name = values q.headers name
  once : ∀ name ∈ fileHeaders, ∀ r ∈ responses, (values r.headers name).length ≤ 1

/-! ## What comes from the cache -/

variable {φ : Type} {K : Config φ} {s s' : Process φ} {a : BlitzCache.Act φ} {d : Disk φ}
  {url path : Text} {w size now later cachedAt totalSize : Nat} {victims : List Text} {content : φ}

/-- **Step** of the cache: rows and files are where they belong. -/
theorem wellFormed_step (hwf : WellFormed K.urlHash s.disk) (hs : BlitzCache.step K s a = some s') :
    WellFormed K.urlHash s'.disk := by
  cases stepped_of_step hs with
  | renamed => exact wellFormed_rename hwf
  | measured => exact hwf
  | missing => exact hwf
  | inserted hw hd => exact wellFormed_storeLocked hwf hd
  | locked hlocked => exact hlocked hwf
  | refreshed => exact wellFormed_refresh hwf

/-- A hit gives the headers of the row. -/
theorem lookupEntry_some (h : (d.lookupEntry K.urlHash url later).2 = some (path, headers, cachedAt)) :
    ∃ row, d.rows.lookup (K.urlHash.hash url) = some row ∧ row.headers = headers := by
  rw [Disk.lookupEntry] at h
  split at h
  next row hrow =>
    split at h
    · cases h
      exact ⟨row, hrow, rfl⟩
    · cases h
  next => cases h

/-- A hit after a `store` gives the headers that are kept of those stored. -/
theorem hit_after_store {stored : HeaderMap} (hwf : WellFormed K.urlHash s.disk)
    (hw : s.stores w = .measured url content stored size)
    (hinsert : BlitzCache.step K s (.insert w now victims) = some s')
    (hlater : Shrinks s'.disk d)
    (hhit : (d.lookupEntry K.urlHash url later).2 = some (path, headers, cachedAt)) :
    headers = headersToMap stored := by
  obtain ⟨row, hrow, rfl⟩ := lookupEntry_some hhit
  obtain ⟨row', hrow', hheaders⟩ := hlater.rows _ row hrow
  simp only [BlitzCache.step, hw] at hinsert
  obtain ⟨disk, hdisk, rfl⟩ := Option.map_eq_some_iff.mp hinsert
  rcases storeLocked_row hwf hdisk hrow' with ⟨-, rfl⟩ | ⟨hne, -⟩
  · exact hheaders
  · exact absurd rfl hne

/-- What an answer from the cache has of the row. -/
theorem values_serveHeaders {n : Nat} :
    values (serveHeaders headers n) name = values headers name ++
      ((if "content-length".toList = name then [natText n] else [])
        ++ if "accept-ranges".toList = name then ["bytes".toList] else []) := by
  rw [serveHeaders, values_append, values_cons, values_cons]
  by_cases hlen : "content-length".toList = name
  · have hranges : ¬ "accept-ranges".toList = name := hlen ▸ by decide
    rw [if_pos hlen, if_pos hlen, if_neg hranges, if_neg hranges]
    rfl
  · rw [if_neg hlen, if_neg hlen]
    rfl

/-- What the cache keeps of a header: all but the length. -/
theorem values_stored (hascii : ∀ h ∈ head, (toStr h.2).isSome)
    (hname : name ∈ storedHeaders) :
    values (headersToMap (copyForwardHeaders head)) name = (head.get name).toList := by
  have hforward : name ∈ forwardHeaders := by
    revert name
    decide
  rw [values_headersToMap, if_pos hname, get_eq_head?, values_copyForwardHeaders, if_pos hforward]
  cases hget : head.get name with
  | none => rfl
  | some value =>
      have hmem : (name, value) ∈ head := by
        obtain ⟨before, after, heq, -⟩ := List.lookup_eq_some_iff.mp hget
        simp [heq]
      obtain ⟨text, htext⟩ := Option.isSome_iff_exists.mp (hascii _ hmem)
      have hsame : text = value := toStr_some htext
      subst hsame
      simp [htext]

/-! ## The responses compared -/

/-- **Twice**: a file from the cache has `Accept-Ranges` once from what was
    stored and once from `serve_file`, so the three ways never agree.  They
    do in all else, up to the spelling of the length. -/
theorem responses_disagree (hmulti : canMultithread (contentLength head)
      (head.get "accept-ranges".toList) = true)
    (hascii : ∀ h ∈ head, (toStr h.2).isSome)
    (hreach : Reaches (BlitzCache.step K) (opened .empty) s)
    (hw : s.stores w = .measured url content (copyForwardHeaders head) size)
    (hinsert : BlitzCache.step K s (.insert w now victims) = some s')
    (hlater : Shrinks s'.disk d)
    (hhit : (d.lookupEntry K.urlHash url later).2 = some (path, headers, cachedAt)) :
    ¬ Agree [leaderResponse head, followerResponse head, serveFile headers (K.len content)] ∧
      followerResponse head = leaderResponse head ∧
      (serveFile headers (K.len content)).status = (leaderResponse head).status ∧
      values (leaderResponse head).headers "accept-ranges".toList = ["bytes".toList] ∧
      values (serveFile headers (K.len content)).headers "accept-ranges".toList
        = ["bytes".toList, "bytes".toList] ∧
      values (serveFile headers (K.len content)).headers "content-length".toList
        = [natText (K.len content)] ∧
      ∀ name ∈ fileHeaders, name ≠ "accept-ranges".toList → name ≠ "content-length".toList →
        values (serveFile headers (K.len content)).headers name
            = values (leaderResponse head).headers name ∧
          (values (leaderResponse head).headers name).length ≤ 1 := by
  obtain ⟨acts, hrun⟩ := hreach
  have hwf : WellFormed K.urlHash s.disk :=
    run_invariant (I := fun s => WellFormed K.urlHash s.disk) (fun _ _ _ => wellFormed_step)
      wellFormed_empty hrun
  -- the hit finds the row of this insert, hence its headers
  obtain rfl := hit_after_store hwf hw hinsert hlater hhit
  have hranges : head.get "accept-ranges".toList = some "bytes".toList := by
    simp only [canMultithread, Bool.and_eq_true, beq_iff_eq] at hmulti
    exact hmulti.2
  have htwice : values (serveFile (headersToMap (copyForwardHeaders head)) (K.len content)).headers
      "accept-ranges".toList = ["bytes".toList, "bytes".toList] := by
    rw [serveFile, values_serveHeaders, values_stored hascii (by decide), hranges,
      if_neg (by decide), if_pos rfl]
    rfl
  refine ⟨?_, rfl, rfl, ?_, htwice, ?_, ?_⟩
  · intro hagree
    have honce := hagree.once "accept-ranges".toList (by decide) _
      (List.mem_cons_of_mem _ (List.mem_cons_of_mem _ List.mem_cons_self))
    rw [htwice] at honce
    exact absurd honce (by decide)
  · rw [leaderResponse, values_copyForwardHeaders, if_pos (by decide), hranges]
    rfl
  · rw [serveFile, values_serveHeaders, values_headersToMap, if_neg (by decide), if_pos rfl,
      if_neg (by decide)]
    rfl
  · intro name hname hnotRanges hnotLength
    -- of the other headers the stored ones are the forwarded ones
    have hboth : ∀ n ∈ fileHeaders, n ≠ "content-length".toList →
        n ∈ storedHeaders ∧ n ∈ forwardHeaders := by
      decide
    obtain ⟨hstored, hforward⟩ := hboth name hname hnotLength
    have hleader : values (leaderResponse head).headers name = (head.get name).toList := by
      rw [leaderResponse, values_copyForwardHeaders, if_pos hforward]
    refine ⟨?_, ?_⟩
    · rw [hleader, serveFile, values_serveHeaders, values_stored hascii hstored,
        if_neg (Ne.symm hnotLength), if_neg (Ne.symm hnotRanges), List.append_nil, List.append_nil]
    · rw [hleader]
      cases head.get name with
      | none => exact Nat.zero_le 1
      | some value => exact le_refl 1

section Examples

/-- The head of a file of one byte, with an ETag. -/
def exampleHead : HeaderMap :=
  [("content-length".toList, "1".toList), ("accept-ranges".toList, "bytes".toList),
    ("etag".toList, "x".toList)]

/-- A `store` that has come to its insert. -/
def storing : List (BlitzCache.Act (List UInt8)) :=
  [.rename 0 exampleUrl [7] (copyForwardHeaders exampleHead), .measure 0]

theorem responses_disagree_example :
    ∃ s s' path headers cachedAt,
      run (BlitzCache.step example100) (opened .empty) storing = some s ∧
      BlitzCache.step example100 s (.insert 0 1 []) = some s' ∧
      (s'.disk.lookupEntry example100.urlHash exampleUrl 2).2 = some (path, headers, cachedAt) ∧
      ¬ Agree [leaderResponse exampleHead, followerResponse exampleHead, serveFile headers 1] := by
  obtain ⟨s, s', path, headers, cachedAt, hrun, hw, hinsert, hhit⟩ : ∃ s s' path headers cachedAt,
      run (BlitzCache.step example100) (opened .empty) storing = some s ∧
      s.stores 0 = .measured exampleUrl [7] (copyForwardHeaders exampleHead) 1 ∧
      BlitzCache.step example100 s (.insert 0 1 []) = some s' ∧
      (s'.disk.lookupEntry example100.urlHash exampleUrl 2).2 = some (path, headers, cachedAt) :=
    ⟨_, _, _, _, _, rfl, rfl, rfl, rfl⟩
  refine ⟨s, s', path, headers, cachedAt, hrun, hinsert, hhit, ?_⟩
  have hmulti : canMultithread (contentLength exampleHead)
      (exampleHead.get "accept-ranges".toList) = true := by
    decide
  exact (responses_disagree hmulti (by decide) ⟨_, hrun⟩ hw hinsert (.refl _) hhit).1

/-- The response from the cache, after the same `store`. -/
theorem accept_ranges_twice :
    (run (BlitzCache.step example100) (opened .empty) (storing ++ [.insert 0 1 []])).any
      (fun s => (s.disk.lookupEntry example100.urlHash exampleUrl 2).2.any
        fun hit => values (serveFile hit.2.1 1).headers "accept-ranges".toList
            == ["bytes".toList, "bytes".toList] &&
          values (leaderResponse exampleHead).headers "accept-ranges".toList
            == ["bytes".toList]) = true := by
  decide

end Examples

end BlitzResponses
