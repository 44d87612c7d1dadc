import AptBlitz.Library.Text

/-! # Headers

    A `HeaderMap` as the list of its headers, and what the proxy and the
    cache select from it.  Names are in lower case, as `HeaderMap` keeps
    them. -/

namespace BlitzHeaders

open RustText

/-- Headers in the order of the map; names are in lower case. -/
abbrev HeaderMap := List (Text × Text)

/-- `HeaderMap::get`: the first value. -/
def HeaderMap.get (headers : HeaderMap) (name : Text) : Option Text := headers.lookup name

/-- `HeaderMap::insert`, which replaces. -/
def HeaderMap.insert (headers : HeaderMap) (name value : Text) : HeaderMap :=
  (name, value) :: headers.filter fun h => h.1 != name

/-- `FORWARD_HEADERS`. -/
def forwardHeaders : List Text :=
  ["content-type", "content-length", "content-disposition", "accept-ranges", "last-modified",
    "etag", "cache-control", "expires", "location"].map String.toList

/-- `copy_forward_headers` into an empty map. -/
def copyForwardHeaders (source : HeaderMap) : HeaderMap :=
  forwardHeaders.filterMap fun name => (source.get name).map fun value => (name, value)

/-- The `Content-Length`, if it is a `u64`. -/
def contentLength (headers : HeaderMap) : Option Nat :=
  (headers.get "content-length".toList).bind fun v => (parseUnsigned (2 ^ 64 - 1) v).toOption

/-- `can_multithread`. -/
def canMultithread (contentLength : Option Nat) (acceptRanges : Option Text) : Bool :=
  contentLength.isSome && acceptRanges == some "bytes".toList

/-- `HeaderValue::to_str`, which takes visible ASCII only. -/
def toStr (value : Text) : Option Text :=
  if value.all fun c => c == '\t' || (32 ≤ c.toNat && c.toNat < 127) then some value else none

/-- The headers that are stored with a cached file. -/
def storedHeaders : List Text :=
  ["content-type", "content-disposition", "accept-ranges", "last-modified", "etag",
    "cache-control", "expires"].map String.toList

/-- `headers_to_map`; `map_to_headers` gives the same headers back. -/
def headersToMap (headers : HeaderMap) : HeaderMap :=
  storedHeaders.filterMap fun name =>
    ((headers.get name).bind toStr).map fun value => (name, value)

/-- `etag_equals`. -/
def etagEquals (stored response : HeaderMap) : Bool :=
  match stored.get "etag".toList, response.get "etag".toList with
  | some a, some b => a == b
  | _, _ => false

/-! ## What the maps give back -/

variable {headers : HeaderMap} {name value : Text}

/-- The other headers stay. -/
theorem lookup_filter_ne {n : Text} (hn : n ≠ name) :
    (headers.filter fun h => h.1 != name).lookup n = headers.lookup n := by
  induction headers with
  | nil => rfl
  | cons h headers ih =>
      obtain ⟨k, v⟩ := h
      by_cases hk : k = name
      · have hnk : (n == k) = false := beq_eq_false_iff_ne.mpr (hk ▸ hn)
        rw [List.filter_cons_of_neg (by simp [hk]), List.lookup_cons, hnk]
        exact ih
      · rw [List.filter_cons_of_pos (by simp [hk]), List.lookup_cons, List.lookup_cons, ih]

/-- An insert replaces all values of its name. -/
theorem get_insert (n : Text) :
    (headers.insert name value).get n = if n = name then some value else headers.get n := by
  by_cases hn : n = name
  · subst hn
    rw [if_pos rfl]
    exact List.lookup_cons_self
  · rw [if_neg hn]
    show ((name, value) :: headers.filter fun h => h.1 != name).lookup n = _
    rw [List.lookup_cons, beq_eq_false_iff_ne.mpr hn]
    exact lookup_filter_ne hn

/-- A value that is a text is that text. -/
theorem toStr_some {text : Text} (h : toStr value = some text) : text = value := by
  simp only [toStr] at h
  split at h
  · exact (Option.some.inj h).symm
  · exact nomatch h

/-- What is stored is as it was. -/
theorem get_headersToMap (h : (headersToMap headers).get name = some value) :
    headers.get name = some value := by
  obtain ⟨before, after, heq, -⟩ := List.lookup_eq_some_iff.mp h
  have hmem : (name, value) ∈ headersToMap headers := by simp [heq]
  obtain ⟨n, -, hn⟩ := List.mem_filterMap.mp hmem
  obtain ⟨text, htext, hpair⟩ := Option.map_eq_some_iff.mp hn
  cases hpair
  obtain ⟨v, hv, hstr⟩ := Option.bind_eq_some_iff.mp htext
  rw [hv, toStr_some hstr]

end BlitzHeaders
