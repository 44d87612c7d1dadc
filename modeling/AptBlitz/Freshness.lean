import AptBlitz.Headers

/-! # Freshness

    When the cache serves a file without asking the upstream.  The clock is
    an argument, in seconds since the epoch, and so is the parser of HTTP
    dates, which gives such seconds. -/

namespace BlitzFreshness

open RustText BlitzHeaders

/-- `as i64` of a `u64`. -/
def asI64 (n : Nat) : Int := Int.bmod n (2 ^ 64)

/-- `parse_max_age`: the first `max-age=` directive decides. -/
def parseMaxAge (cacheControl : Text) : Option Nat :=
  let rest := (split ',' cacheControl).findSome? fun directive =>
    stripPrefix "max-age=".toList (trim directive)
  rest.bind fun rest =>
    let rest := trim rest
    match stripPrefix ['+'] rest with
    | some plus => (parseUnsigned (2 ^ 64 - 1) plus).toOption
    | none => (parseUnsigned (2 ^ 64 - 1) rest).toOption

/-- A `no-cache` or `no-store` directive. -/
def forbidsCaching (cacheControl : Text) : Bool :=
  (split ',' cacheControl).any fun directive =>
    trim directive == "no-cache".toList || trim directive == "no-store".toList

/-- The age limits of `is_fresh` after `Cache-Control`. -/
def freshByExpires (parseHttpDate : Text → Option Nat) (now age : Int) (headers : HeaderMap)
    (maxCacheAge : Nat) : Bool :=
  match ((headers.get "expires".toList).bind toStr).bind parseHttpDate with
  | some expiresAt => now < asI64 expiresAt
  | none => 0 < maxCacheAge && age < asI64 maxCacheAge

/-- `is_fresh`. -/
def isFresh (parseHttpDate : Text → Option Nat) (now cachedAt : Int) (headers : HeaderMap)
    (maxCacheAge : Nat) : Bool :=
  if cachedAt ≤ 0 ∨ now < cachedAt then false
  else
    let age := now - cachedAt
    match (headers.get "cache-control".toList).bind toStr with
    | some cc =>
        if forbidsCaching cc then false
        else match parseMaxAge cc with
          | some maxAge => age < asI64 maxAge
          | none => freshByExpires parseHttpDate now age headers maxCacheAge
    | none => freshByExpires parseHttpDate now age headers maxCacheAge

example : parseMaxAge "public, max-age= +60, max-age=5".toList = some 60 := by decide

end BlitzFreshness
