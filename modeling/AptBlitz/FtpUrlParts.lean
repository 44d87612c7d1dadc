import AptBlitz.FtpUrl
import AptBlitz.Library.Numerals

/-! # The parts of an FTP URL

    `parse_ftp_url` cuts a URL six times, at characters that may stand in the
    parts as well: a password may have `@` and `:` in it, and so may a path.
    A URL written from its parts is cut where it was put together:
    `parseFtpUrl_render`. -/

namespace BlitzFtpUrlParts

open RustText BlitzFtpUrl

/-- The schemes that are accepted. -/
inductive Scheme where
  | ftp
  | ftps
  deriving DecidableEq

/-- The scheme as it is written. -/
def Scheme.text : Scheme → Text
  | .ftp => "ftp".toList
  | .ftps => "ftps".toList

/-- The port of the scheme. -/
def Scheme.defaultPort : Scheme → Nat
  | .ftp => 21
  | .ftps => 990

/-- A user, perhaps with a password.  An empty user without one is no user
    info. -/
structure Userinfo where
  user : Text
  password : Option Text
  colon_not_mem : ':' ∉ user
  slash_not_mem : '/' ∉ user
  slash_not_mem_password : ∀ p ∈ password, '/' ∉ p
  ne_nil : user = [] → password ≠ none

/-- The parts of a URL; the host may be empty, and the port any number. -/
structure Parts where
  scheme : Scheme
  userinfo : Option Userinfo
  host : Text
  /-- the decimal numeral of the port -/
  port : Option Text
  /-- the path, behind its first slash -/
  path : Text
  slash_not_mem : '/' ∉ host
  colon_not_mem : ':' ∉ host
  at_not_mem : '@' ∉ host
  port_numeral : ∀ p ∈ port, IsNumeral p

/-- The credentials as they are written. -/
def Userinfo.text (ui : Userinfo) : Text :=
  match ui.password with
  | some p => ui.user ++ ':' :: p
  | none => ui.user

namespace Parts

/-- The host and the port as they are written. -/
def hostport (u : Parts) : Text :=
  match u.port with
  | some p => u.host ++ ':' :: p
  | none => u.host

/-- User info, host and port. -/
def authority (u : Parts) : Text :=
  match u.userinfo with
  | some ui => ui.text ++ '@' :: u.hostport
  | none => u.hostport

/-- The URL of the parts. -/
def render (u : Parts) : Text :=
  u.scheme.text ++ "://".toList ++ (u.authority ++ '/' :: u.path)

/-- The port that is written, or that of the scheme. -/
def portNumber (u : Parts) : Nat :=
  match u.port with
  | some p => numeralValue p
  | none => u.scheme.defaultPort

end Parts

variable {ui : Userinfo} {u : Parts} {rest : Text}

/-! ## One cut after the other -/

/-- The scheme is read back. -/
theorem stripScheme_render (scheme : Scheme) (rest : Text) :
    stripScheme (scheme.text ++ "://".toList ++ rest) = some (scheme.text, rest) := by
  cases scheme with
  | ftps =>
      have hcut : stripPrefix "ftps://".toList (Scheme.ftps.text ++ "://".toList ++ rest)
          = some rest := stripPrefix_append "ftps://".toList rest
      rw [stripScheme, hcut]
      rfl
  | ftp =>
      have hno : stripPrefix "ftps://".toList (Scheme.ftp.text ++ "://".toList ++ rest) = none := rfl
      have hcut : stripPrefix "ftp://".toList (Scheme.ftp.text ++ "://".toList ++ rest)
          = some rest := stripPrefix_append "ftp://".toList rest
      rw [stripScheme, hno, hcut]
      rfl

/-- The last `@` is that of the credentials. -/
theorem at_not_mem_hostport (u : Parts) : '@' ∉ u.hostport := by
  rw [Parts.hostport]
  cases hport : u.port with
  | none => exact u.at_not_mem
  | some p =>
      have hp : '@' ∉ p := (u.port_numeral p hport).not_mem (by decide)
      exact not_mem_append_cons u.at_not_mem (by decide) hp

/-- There is no slash in the host and the port. -/
theorem slash_not_mem_hostport (u : Parts) : '/' ∉ u.hostport := by
  rw [Parts.hostport]
  cases hport : u.port with
  | none => exact u.slash_not_mem
  | some p =>
      have hp : '/' ∉ p := (u.port_numeral p hport).not_mem (by decide)
      exact not_mem_append_cons u.slash_not_mem (by decide) hp

/-- There is no slash in the credentials. -/
theorem slash_not_mem_text (ui : Userinfo) : '/' ∉ ui.text := by
  rw [Userinfo.text]
  cases hpassword : ui.password with
  | none => exact ui.slash_not_mem
  | some p =>
      have hp : '/' ∉ p := ui.slash_not_mem_password p hpassword
      exact not_mem_append_cons ui.slash_not_mem (by decide) hp

/-- The first slash is that of the path. -/
theorem slash_not_mem_authority (u : Parts) : '/' ∉ u.authority := by
  rw [Parts.authority]
  cases u.userinfo with
  | none => exact slash_not_mem_hostport u
  | some ui =>
      exact not_mem_append_cons (slash_not_mem_text ui) (by decide) (slash_not_mem_hostport u)

/-- The `@` before the first slash that is the last one ends the user info,
    whatever is in the password and in the path. -/
theorem splitUserinfo_render (u : Parts) :
    splitUserinfo (u.authority ++ '/' :: u.path)
      = ((u.userinfo.map Userinfo.text).getD [], u.hostport ++ '/' :: u.path) := by
  rw [splitUserinfo, takeWhile_ne_append (slash_not_mem_authority u),
    dropWhile_ne_append (slash_not_mem_authority u), Parts.authority]
  cases u.userinfo with
  | none =>
      dsimp only
      rw [rsplitOnce_none_iff.mpr (at_not_mem_hostport u)]
      rfl
  | some ui =>
      dsimp only
      rw [rsplitOnce_append_cons (at_not_mem_hostport u)]
      rfl

/-- The first `:` ends the user. -/
theorem splitCredentials_text (ui : Userinfo) :
    splitCredentials ui.text = (some ui.user, ui.password) := by
  rw [splitCredentials, Userinfo.text]
  cases hpassword : ui.password with
  | none =>
      have hne : ui.user ≠ [] := fun hnil => ui.ne_nil hnil hpassword
      dsimp only
      rw [if_neg hne, splitOnce_none_iff.mpr ui.colon_not_mem]
  | some p =>
      dsimp only
      rw [if_neg (List.append_ne_nil_of_right_ne_nil _ (List.cons_ne_nil _ _)),
        splitOnce_append_cons ui.colon_not_mem]

/-- The credentials are read back. -/
theorem splitCredentials_render (userinfo : Option Userinfo) :
    splitCredentials ((userinfo.map Userinfo.text).getD [])
      = (userinfo.map Userinfo.user, userinfo.bind Userinfo.password) := by
  cases userinfo with
  | none => rfl
  | some ui => exact splitCredentials_text ui

theorem splitPath_render (u : Parts) :
    splitPath (u.hostport ++ '/' :: u.path) = (u.hostport, '/' :: u.path) := by
  rw [splitPath, dropWhile_ne_append (slash_not_mem_hostport u),
    takeWhile_ne_append (slash_not_mem_hostport u)]

/-! ## The whole -/

/-- **Round trip**: a URL written from its parts is parsed to these parts,
    except where the port is no port or there is no host. -/
theorem parseFtpUrl_render (u : Parts) :
    parseFtpUrl u.render
      = if 65535 < u.portNumber then .error ParseIntError.posOverflow.text
        else if u.host = [] then .error ("empty host in FTP URL: ".toList ++ u.render)
        else .ok {
          scheme := u.scheme.text
          username := u.userinfo.map Userinfo.user
          password := u.userinfo.bind Userinfo.password
          host := u.host
          port := u.portNumber
          path := normalizeFtpPath ('/' :: u.path) } := by
  have hscheme : stripScheme u.render = some (u.scheme.text, u.authority ++ '/' :: u.path) :=
    stripScheme_render u.scheme _
  rw [parseFtpUrl, hscheme]
  dsimp only
  rw [splitUserinfo_render]
  dsimp only
  rw [splitCredentials_render, splitPath_render]
  dsimp only
  cases hport : u.port with
  | none =>
      have hnumber : u.portNumber = u.scheme.defaultPort := by rw [Parts.portNumber, hport]
      have hhostport : u.hostport = u.host := by rw [Parts.hostport, hport]
      have hdefault : (if u.scheme.text = "ftps".toList then 990 else 21)
          = u.scheme.defaultPort := by
        cases u.scheme <;> decide
      have hle : ¬ 65535 < u.scheme.defaultPort := by
        cases u.scheme <;> decide
      rw [hhostport, splitOnce_none_iff.mpr u.colon_not_mem, hnumber, if_neg hle, hdefault]
  | some p =>
      have hnumber : u.portNumber = numeralValue p := by rw [Parts.portNumber, hport]
      have hhostport : u.hostport = u.host ++ ':' :: p := by rw [Parts.hostport, hport]
      rw [hhostport, splitOnce_append_cons u.colon_not_mem, hnumber]
      dsimp only
      rw [parseUnsigned_numeral (u.port_numeral p hport)]
      by_cases hle : numeralValue p ≤ 65535
      · rw [if_pos hle, if_neg (not_lt.mpr hle)]
      · rw [if_neg hle, if_pos (not_le.mp hle)]

end BlitzFtpUrlParts
