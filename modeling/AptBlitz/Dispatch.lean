import AptBlitz.FtpUrl
import AptBlitz.Leader
import AptBlitz.UrlMap

/-! # Which handler a request gets

    `handle_proxy_inner` up to the point where it hands a request over: the
    permit, the URL maps, the safety check, and the choice by method and
    scheme.  The parser of URLs is a parameter.

    The safety check lets HTTP and HTTPS through and comes before the choice,
    so no request is ever handed to `handle_ftp_proxy`. -/

namespace BlitzDispatch

open RustText BlitzUrlMap BlitzFtpUrl BlitzLeader

/-- What `url::Url` tells of a URL. -/
structure Url where
  scheme : Text
  username : Text
  password : Option Text
  deriving DecidableEq

/-- `Url::parse`; the error is its text. -/
abbrev UrlParser := Text → Except Text Url

/-- `is_safe_upstream_url`. -/
def isSafeUpstreamUrl (parse : UrlParser) (url : Text) : Except Text Unit :=
  match parse url with
  | .error e => .error ("invalid URL: ".toList ++ e)
  | .ok parsed =>
      if parsed.scheme = "http".toList ∨ parsed.scheme = "https".toList then
        if parsed.username ≠ [] ∨ parsed.password.isSome then
          .error "URL contains embedded credentials".toList
        else .ok ()
      else .error ("unsupported scheme: ".toList ++ parsed.scheme)

/-- Where a request goes, with its URL. -/
inductive Routed where
  | rejected (e : ProxyError)
  /-- the HEAD request is forwarded -/
  | head (url : Text)
  /-- `handle_ftp_proxy` -/
  | ftp (url : Text)
  /-- `resolve_with_coalescing` -/
  | coalescing (url : Text)
  deriving DecidableEq

/-- `handle_proxy_inner`; `permit` is whether the limiter has given one. -/
def handleProxyInner (parse : UrlParser) (maps : List UrlMap) (permit : Bool) (method url : Text) :
    Routed :=
  if permit then
    let url := resolveUrl url maps
    match isSafeUpstreamUrl parse url with
    | .error e => .rejected (.badRequest e)
    | .ok _ =>
        if method = "HEAD".toList then .head url
        else if "ftp://".toList.isPrefixOf url ∨ "ftps://".toList.isPrefixOf url then .ftp url
        else .coalescing url
  else .rejected .tooManyRequests

variable {parse : UrlParser} {maps : List UrlMap} {permit : Bool} {method url u : Text} {parsed : Url}

/-- The parser takes the scheme from the beginning of the URL. -/
def KeepsFtp (parse : UrlParser) : Prop :=
  ∀ scheme ∈ ["ftp".toList, "ftps".toList], ∀ rest parsed,
    parse (scheme ++ "://".toList ++ rest) = .ok parsed → parsed.scheme = scheme

/-- The scheme is kept by the parser. -/
theorem scheme_of_start {scheme : Text} (hkeeps : KeepsFtp parse)
    (hscheme : scheme ∈ ["ftp".toList, "ftps".toList])
    (hstart : (scheme ++ "://".toList).isPrefixOf url) (hparse : parse url = .ok parsed) :
    parsed.scheme = scheme := by
  obtain ⟨rest, rfl⟩ := List.isPrefixOf_iff_prefix.mp hstart
  exact hkeeps scheme hscheme rest parsed hparse

/-- What is safe is HTTP. -/
theorem scheme_of_safe (h : isSafeUpstreamUrl parse url = .ok ()) :
    ∃ parsed, parse url = .ok parsed ∧
      (parsed.scheme = "http".toList ∨ parsed.scheme = "https".toList) := by
  rw [isSafeUpstreamUrl] at h
  split at h
  next => exact nomatch h
  next parsed hparse =>
    split at h
    next hhttp => exact ⟨parsed, hparse, hhttp⟩
    next => exact nomatch h

/-- A URL with an FTP scheme is not safe. -/
theorem not_safe_of_start {scheme : Text} (hkeeps : KeepsFtp parse)
    (hscheme : scheme ∈ ["ftp".toList, "ftps".toList])
    (hstart : (scheme ++ "://".toList).isPrefixOf url) : isSafeUpstreamUrl parse url ≠ .ok () := by
  intro hsafe
  obtain ⟨parsed, hparse, hhttp⟩ := scheme_of_safe hsafe
  have hsame := scheme_of_start hkeeps hscheme hstart hparse
  have hnot : ∀ s ∈ ["ftp".toList, "ftps".toList], s ≠ "http".toList ∧ s ≠ "https".toList := by
    decide
  obtain ⟨hne, hne'⟩ := hnot scheme hscheme
  rcases hhttp with heq | heq
  · exact hne (hsame.symm.trans heq)
  · exact hne' (hsame.symm.trans heq)

/-- No request gets to the FTP handler. -/
theorem never_ftp (hkeeps : KeepsFtp parse) : handleProxyInner parse maps permit method url ≠ .ftp u := by
  rw [handleProxyInner]
  split
  next =>
    dsimp only
    split
    next => exact nofun
    next hsafe =>
      split
      next => exact nofun
      next =>
        split
        next hftp =>
          rcases hftp with hstart | hstart
          · exact absurd hsafe (not_safe_of_start hkeeps List.mem_cons_self hstart)
          · exact absurd hsafe
              (not_safe_of_start hkeeps (List.mem_cons_of_mem _ List.mem_cons_self) hstart)
        next => exact nofun
  next => exact nofun

/-- **No FTP**: a request for an FTP URL that parses is rejected for its
    scheme, and no request whatever is handed to `handle_ftp_proxy`. -/
theorem ftp_rejected (hkeeps : KeepsFtp parse)
    (hscheme : "ftp://".toList.isPrefixOf (resolveUrl url maps))
    (hparse : parse (resolveUrl url maps) = .ok parsed) :
    handleProxyInner parse maps permit method url ≠ .ftp (resolveUrl url maps) ∧
      handleProxyInner parse maps true method url
        = .rejected (.badRequest "unsupported scheme: ftp".toList) := by
  refine ⟨never_ftp hkeeps, ?_⟩
  have hsame : parsed.scheme = "ftp".toList :=
    scheme_of_start hkeeps List.mem_cons_self hscheme hparse
  have hreject : isSafeUpstreamUrl parse (resolveUrl url maps)
      = .error "unsupported scheme: ftp".toList := by
    rw [isSafeUpstreamUrl, hparse]
    dsimp only
    rw [hsame, if_neg (by decide)]
    rfl
  rw [handleProxyInner, if_pos rfl]
  dsimp only
  rw [hreject]

section Examples

/-- The URL of the example. -/
def debianFtp : Text := "ftp://ftp.debian.org/debian/README".toList

/-- The parser at one URL. -/
def debianParse : UrlParser := fun url =>
  if url = debianFtp then .ok ⟨"ftp".toList, [], none⟩
  else .error "relative URL without a base".toList

/-- The parser of the example keeps the scheme. -/
theorem keepsFtp_debianParse : KeepsFtp debianParse := by
  intro scheme hscheme rest parsed hparse
  rw [debianParse] at hparse
  split at hparse
  next hurl =>
    cases hparse
    rcases List.mem_cons.mp hscheme with rfl | hftps
    · rfl
    · obtain rfl := List.mem_singleton.mp hftps
      exact nomatch congrArg (fun url => url.drop 3) hurl
  next => exact nomatch hparse

theorem ftp_rejected_debian :
    handleProxyInner debianParse [] true "GET".toList debianFtp ≠ .ftp debianFtp ∧
      (parseFtpUrl debianFtp).isOk = true := by
  have hparse : debianParse (resolveUrl debianFtp []) = .ok ⟨"ftp".toList, [], none⟩ := by
    decide
  exact ⟨(ftp_rejected keepsFtp_debianParse (by decide) hparse).1, by decide⟩

/-- A mirror that is reached over FTP, by its fake host. -/
theorem ftp_rejected_mapped :
    resolveUrl "http://debian/README".toList
        [⟨"debian".toList, "ftp://ftp.debian.org/debian".toList⟩] = debianFtp ∧
      handleProxyInner debianParse [⟨"debian".toList, "ftp://ftp.debian.org/debian".toList⟩] true
          "GET".toList "http://debian/README".toList
        = .rejected (.badRequest "unsupported scheme: ftp".toList) ∧
      (parseFtpUrl debianFtp).isOk = true := by
  decide

end Examples

end BlitzDispatch
