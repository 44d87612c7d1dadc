import AptBlitz.Library.Text

/-! # URL maps

    A fake host and the base URL that it stands for: `UrlMap::parse`, and
    `resolve_url`, which the handler applies to every request. -/

namespace BlitzUrlMap

open RustText

/-- A rule of `url_map`: requests for `fake_host` go to `real_base`. -/
structure UrlMap where
  fakeHost : Text
  realBase : Text
  deriving DecidableEq, Repr

/-- The schemes a base URL may have. -/
def baseSchemes : List Text := ["http://", "https://", "ftp://", "ftps://"].map String.toList

/-- `UrlMap::parse`. -/
def UrlMap.parse (input : Text) : Except Text UrlMap :=
  match splitOnce '=' input with
  | none =>
      .error ("invalid url-map format '".toList ++ input ++
        "': expected fake-host=real-base-url".toList)
  | some (fake, real) =>
      let fakeHost := trim fake
      let realBase := trim real
      if fakeHost = [] then .error "fake host must not be empty".toList
      else if baseSchemes.any fun scheme => scheme.isPrefixOf realBase then
        .ok ⟨fakeHost, trimEndMatches '/' realBase⟩
      else
        .error ("real base URL must start with http://, https://, ftp://, or ftps://, got '".toList ++
          realBase ++ "'".toList)

/-- The beginnings of a URL of the fake host. -/
def UrlMap.starts (map : UrlMap) : List Text :=
  ["http://".toList ++ map.fakeHost, "ftp://".toList ++ map.fakeHost]

/-- The URL under the real base, when it begins with the fake host. -/
def UrlMap.apply (map : UrlMap) (url start : Text) : Option Text :=
  match stripPrefix start url with
  | some [] => some (trimEndMatches '/' map.realBase)
  | some ('/' :: rest) => some (trimEndMatches '/' map.realBase ++ '/' :: rest)
  | _ => none

/-- `resolve_url`. -/
def resolveUrl (url : Text) (maps : List UrlMap) : Text :=
  (maps.findSome? fun map => map.starts.findSome? (map.apply url)).getD url

example : resolveUrl "http://debian/dists".toList [⟨"debian".toList, "ftp://ftp.debian.org/".toList⟩]
    = "ftp://ftp.debian.org/dists".toList := by decide

end BlitzUrlMap
