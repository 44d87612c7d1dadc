import AptBlitz.Dispatch
import AptBlitz.Headers
import AptBlitz.Library.TextRules
import Mathlib.Data.List.Infix

/-! # Request targets

    What `handle_proxy` makes of the target of a request.  A target in origin
    form is a path with a query; the URL is either what comes behind its first
    slash, as in `/http://host/path`, or the target itself under the `Host`
    header.

    Which of the two is asked of the whole target: it is the first one wherever
    the target contains `://`.  So the URL is the one that the path asks for if
    and only if no later part of the target has a URL in it and the header can
    be read (`requestUrl_iff`). -/

namespace BlitzTargets

open RustText BlitzHeaders BlitzLeader BlitzDispatch BlitzUrlMap

/-- `http::Uri`. -/
structure Uri where
  scheme : Option Text
  authority : Option Text
  path : Text
  query : Option Text
  deriving DecidableEq, Repr

/-- `Uri::to_string`. -/
def Uri.text (uri : Uri) : Text :=
  let scheme := match uri.scheme with
    | some scheme => scheme ++ "://".toList
    | none => []
  let query := match uri.query with
    | some query => '?' :: query
    | none => []
  scheme ++ uri.authority.getD [] ++ uri.path ++ query

/-- `original_url`: the target without its first slash. -/
def originalUrl (uri : Uri) : Text := (stripPrefix ['/'] uri.text).getD uri.text

/-- The URL of a request. -/
def requestUrl (uri : Uri) (headers : HeaderMap) : Except ProxyError Text :=
  if "://".toList <:+: originalUrl uri then .ok (originalUrl uri)
  else
    match (headers.get "host".toList).bind toStr with
    | none => .error (.badRequest "absolute URI or Host header required".toList)
    | some host => .ok ("http://".toList ++ host ++ '/' :: originalUrl uri)

/-- `handle_proxy`. -/
def handleProxy (parse : UrlParser) (maps : List UrlMap) (permit : Bool) (method : Text) (uri : Uri)
    (headers : HeaderMap) : Routed :=
  match requestUrl uri headers with
  | .error e => .rejected e
  | .ok url => handleProxyInner parse maps permit method url

/-- A path, with or without a query. -/
structure OriginForm (uri : Uri) : Prop where
  scheme : uri.scheme = none
  authority : uri.authority = none
  path : ['/'] <+: uri.path

/-- A character of a scheme. -/
def isSchemeChar (c : Char) : Bool := c.isAlphanum || c == '+' || c == '-' || c == '.'

/-- `/scheme://…`. -/
def embedsUrl (p : Text) : Bool :=
  match p with
  | '/' :: rest =>
      ((rest.takeWhile isSchemeChar).head?.any Char.isAlpha) &&
        "://".toList.isPrefixOf (rest.dropWhile isSchemeChar)
  | _ => false

/-- The URL that the form of the path asks for. -/
def askedUrl (host p : Text) : Text := if embedsUrl p then p.tail else "http://".toList ++ host ++ p

variable {uri : Uri} {headers : HeaderMap} {host p rest : Text}

/-- A target in origin form begins with a slash. -/
theorem OriginForm.text_eq (h : OriginForm uri) : ∃ rest, uri.text = '/' :: rest := by
  obtain ⟨path, hpath⟩ := h.path
  rw [Uri.text, h.scheme, h.authority, ← hpath]
  exact ⟨_, rfl⟩

/-- A slash in front makes no difference to the colon behind it. -/
theorem infix_slash : "://".toList <:+: '/' :: rest ↔ "://".toList <:+: rest := by
  have hcolon : "://".toList = ':' :: "//".toList := rfl
  have hnot : ¬ "://".toList <+: '/' :: rest := by
    rw [hcolon, List.cons_prefix_cons]
    rintro ⟨hne, -⟩
    exact absurd hne (by decide)
  rw [List.infix_cons_iff]
  exact or_iff_right hnot

/-- An embedded URL has a `://`. -/
theorem infix_of_embedsUrl (h : embedsUrl p = true) : "://".toList <:+: p := by
  unfold embedsUrl at h
  split at h
  next rest =>
    rw [Bool.and_eq_true, List.isPrefixOf_iff_prefix] at h
    exact infix_slash.mpr (h.2.isInfix.trans (List.dropWhile_suffix _).isInfix)
  next => exact absurd h Bool.false_ne_true

/-- A host that is a text is that text. -/
theorem toStr_eq (h : toStr host = some rest) : rest = host := by
  rw [toStr] at h
  split at h
  · exact (Option.some.inj h).symm
  · cases h

theorem originalUrl_eq (htext : uri.text = '/' :: rest) : originalUrl uri = rest := by
  rw [originalUrl, htext, stripPrefix_cons]
  rfl

/-- A target that embeds a URL is that URL. -/
theorem requestUrl_of_url (htext : uri.text = '/' :: rest) (h : "://".toList <:+: rest) :
    requestUrl uri headers = .ok rest := by
  rw [requestUrl, originalUrl_eq htext, if_pos h]

/-- Without a URL in it, the target comes under the header. -/
theorem requestUrl_path (htext : uri.text = '/' :: rest) (h : ¬ "://".toList <:+: rest)
    (hhost : headers.get "host".toList = some host) :
    requestUrl uri headers =
      if (toStr host).isSome then .ok ("http://".toList ++ host ++ uri.text)
      else .error (.badRequest "absolute URI or Host header required".toList) := by
  rw [requestUrl, originalUrl_eq htext, if_neg h, hhost, htext]
  cases hstr : toStr host with
  | none => rw [Option.bind_some, hstr, if_neg (by decide)]
  | some s =>
      rw [Option.bind_some, hstr, toStr_eq hstr]
      rfl

/-- **The URL that the path asks for** is the one that is forwarded if and only
    if the path asks for what it contains itself, or the target contains no
    `://` and the header is visible ASCII. -/
theorem requestUrl_iff (horigin : OriginForm uri) (hhost : headers.get "host".toList = some host) :
    (requestUrl uri headers = .ok (askedUrl host uri.text) ↔
        embedsUrl uri.text = true ∨
          (¬ "://".toList <:+: uri.text ∧ (toStr host).isSome = true)) ∧
      ∀ parse maps permit method url, requestUrl uri headers = .ok url →
        handleProxy parse maps permit method uri headers
          = handleProxyInner parse maps permit method url := by
  refine ⟨?_, ?_⟩
  · obtain ⟨rest, htext⟩ := horigin.text_eq
    by_cases hinfix : "://".toList <:+: rest
    · -- the URL is what follows the slash, and no longer than that
      have hall : "://".toList <:+: uri.text := htext ▸ infix_slash.mpr hinfix
      rw [requestUrl_of_url htext hinfix, askedUrl]
      constructor
      · intro hasked
        refine Or.inl ?_
        by_contra hnot
        rw [if_neg hnot] at hasked
        have hlen := congrArg List.length (Except.ok.inj hasked)
        rw [List.length_append, htext, List.length_cons] at hlen
        omega
      · rintro (hembeds | ⟨hnot, -⟩)
        · rw [if_pos hembeds, htext]
          rfl
        · exact absurd hall hnot
    · have hall : ¬ "://".toList <:+: uri.text := htext ▸ fun h => hinfix (infix_slash.mp h)
      have hembeds : ¬ embedsUrl uri.text = true := fun h => hall (infix_of_embedsUrl h)
      rw [requestUrl_path htext hinfix hhost, askedUrl, if_neg hembeds]
      by_cases hvisible : (toStr host).isSome = true
      · rw [if_pos hvisible]
        exact iff_of_true rfl (Or.inr ⟨hall, hvisible⟩)
      · rw [if_neg hvisible]
        refine iff_of_false ?_ ?_
        · intro herr
          cases herr
        · rintro (h | ⟨-, h⟩)
          · exact hembeds h
          · exact hvisible h
  · intro parse maps permit method url hurl
    rw [handleProxy, hurl]

section Examples

/-- A mirror's redirector: the URL is in the query. -/
def redirector : Uri := ⟨none, none, "/get".toList, some "url=http://b/c".toList⟩

/-- The `Host` of the example. -/
def debianHost : HeaderMap := [("host".toList, "deb.debian.org".toList)]

/-- What is forwarded is not even a URL. -/
theorem not_askedUrl_query :
    OriginForm redirector ∧ embedsUrl redirector.text = false ∧
      requestUrl redirector debianHost = .ok "get?url=http://b/c".toList ∧
      askedUrl "deb.debian.org".toList redirector.text
        = "http://deb.debian.org/get?url=http://b/c".toList :=
  ⟨⟨rfl, rfl, ⟨_, rfl⟩⟩, by decide, by rfl, by rfl⟩

theorem requestUrl_iff_path :
    requestUrl ⟨none, none, "/debian/README".toList, some "a=b".toList⟩ debianHost
      = .ok (askedUrl "deb.debian.org".toList "/debian/README?a=b".toList) := by
  have horigin : OriginForm ⟨none, none, "/debian/README".toList, some "a=b".toList⟩ :=
    ⟨rfl, rfl, ⟨_, rfl⟩⟩
  exact (requestUrl_iff horigin rfl).1.mpr (Or.inr ⟨by decide, by decide⟩)

end Examples

end BlitzTargets
