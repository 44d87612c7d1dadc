import AptBlitz.Library.Text

/-! # FTP URLs and sizes

    `parse_ftp_url`, and what `check_ftp_size` makes of the server's
    answers. -/

namespace BlitzFtpUrl

open RustText

/-- `FtpUrl`. -/
structure FtpUrl where
  scheme : Text
  username : Option Text
  password : Option Text
  host : Text
  port : Nat
  path : Text
  deriving DecidableEq

/-- One component of the path: empty ones and `.` are skipped, `..` takes the
    last one back. -/
def pushPart (segments : List Text) (part : Text) : List Text :=
  if part = [] ∨ part = ['.'] then segments
  else if part = ['.', '.'] then segments.dropLast
  else segments ++ [part]

/-- `normalize_ftp_path`. -/
def normalizeFtpPath (path : Text) : Text :=
  '/' :: join ['/'] ((split '/' path).foldl pushPart [])

/-- The scheme of the URL, and what follows it. -/
def stripScheme (url : Text) : Option (Text × Text) :=
  match stripPrefix "ftps://".toList url with
  | some rest => some ("ftps".toList, rest)
  | none => (stripPrefix "ftp://".toList url).map fun rest => ("ftp".toList, rest)

/-- The user info, which ends at the last `@` before the first `/`, and the
    rest. -/
def splitUserinfo (rest : Text) : Text × Text :=
  match rsplitOnce '@' (rest.takeWhile (· != '/')) with
  | some (userinfo, hostport) => (userinfo, hostport ++ rest.dropWhile (· != '/'))
  | none => ([], rest)

/-- The user and the password of the userinfo. -/
def splitCredentials (userinfo : Text) : Option Text × Option Text :=
  if userinfo = [] then (none, none)
  else match splitOnce ':' userinfo with
    | some (u, p) => (some u, some p)
    | none => (some userinfo, none)

/-- The host and port, and the path. -/
def splitPath (hostportpath : Text) : Text × Text :=
  match hostportpath.dropWhile (· != '/') with
  | [] => (hostportpath, ['/'])
  | path => (hostportpath.takeWhile (· != '/'), path)

/-- `parse_ftp_url`. -/
def parseFtpUrl (url : Text) : Except Text FtpUrl :=
  match stripScheme url with
  | none => .error ("not an FTP URL: ".toList ++ url)
  | some (scheme, rest) =>
      let (userinfo, hostportpath) := splitUserinfo rest
      let (username, password) := splitCredentials userinfo
      let (hostport, path) := splitPath hostportpath
      let hostAndPort : Except Text (Text × Nat) :=
        match splitOnce ':' hostport with
        | some (h, p) =>
            match parseUnsigned 65535 p with
            | .error e => .error e.text
            | .ok port => .ok (h, port)
        | none => .ok (hostport, if scheme = "ftps".toList then 990 else 21)
      match hostAndPort with
      | .error e => .error e
      | .ok (host, port) =>
          if host = [] then .error ("empty host in FTP URL: ".toList ++ url)
          else .ok ⟨scheme, username, password, host, port, normalizeFtpPath path⟩

/-- `check_ftp_size`, given how the login went and what the reply to `SIZE`
    was. -/
def checkFtpSize (login : Except Text Unit) (reply : Except Text Text) : Except Text Nat :=
  match login, reply with
  | .error e, _ => .error e
  | .ok _, .error e => .error e
  | .ok _, .ok resp =>
      match stripPrefix "213 ".toList resp with
      | none => .error ("unexpected SIZE response: ".toList ++ resp)
      | some size =>
          match parseUnsigned (2 ^ 64 - 1) (trim size) with
          | .error e => .error ("invalid SIZE: ".toList ++ resp ++ ": ".toList ++ e.text)
          | .ok n => .ok n

end BlitzFtpUrl
