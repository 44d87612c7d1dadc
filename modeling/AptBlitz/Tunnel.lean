import AptBlitz.Buffer
import AptBlitz.Library.Reader
import AptBlitz.Library.Utf8
import AptBlitz.NoProxy
import AptBlitz.Config

/-! # Tunnels

    `handle_connect_tunnel`: the head of the request is read up to an empty
    line, the host and the port come from its first line, and the tunnel is
    opened to them, directly, through a SOCKS5 proxy or through an HTTP proxy.
    What it does is the list of its events, in their order; what the network
    answers is a parameter.

    An HTTP proxy is believed for the twelve bytes that its answer begins
    with.  The reading before that stops at the end of the head, at the end of
    the stream, or at 4097 bytes, and nothing asks which of them it was
    (`established_iff`). -/

namespace BlitzTunnel

open RustText Utf8 Reader BlitzBuffer BlitzConfig BlitzNoProxy

/-- `\r\n\r\n`. -/
def emptyLine : Bytes := [0x0D, 0x0A, 0x0D, 0x0A]

/-- What the client is told. -/
inductive Answer where
  /-- `HTTP/1.1 200 Connection Established` -/
  | established
  /-- `HTTP/1.1 400 Bad Request` -/
  | badRequest
  /-- `HTTP/1.1 502 Bad Gateway` -/
  | badGateway
  deriving DecidableEq, Repr

/-- What the tunnel does to the outside, in order. -/
inductive Event where
  /-- `TcpStream::connect` to a host and a port -/
  | dial (host : Text) (port : UInt16)
  /-- `Socks5Stream::connect`: the proxy, and the target -/
  | dialSocks5 (proxyHost : Text) (proxyPort : UInt16) (host : Text) (port : UInt16)
  /-- `TcpStream::connect` to the address of the HTTP proxy -/
  | dialProxy (addr : Text)
  /-- the request, written to the HTTP proxy -/
  | ask (request : Text)
  /-- what has been read of the answer to it -/
  | hear (read : Bytes)
  | tell (answer : Answer)
  /-- `copy_bidirectional`: what each side sends from here on -/
  | relay (fromClient fromUpstream : Bytes)
  deriving DecidableEq, Repr

/-- The network: what comes from whom a connection can be opened to, and
    whether the client and the HTTP proxy can be written to. -/
structure Network where
  connect : Text → UInt16 → Option Bytes
  connectSocks5 : Text → UInt16 → Text → UInt16 → Option Bytes
  connectProxy : Text → Option Bytes
  writesProxy : Bool
  writesClient : Bool

/-! ## The request -/

/-- `authority`: the second part of the first line, behind `CONNECT`. -/
def authorityOf (head : Bytes) : Option Text :=
  match splitWhitespace (firstLine (lossy head)) with
  | method :: authority :: _ => if method = "CONNECT".toList then some authority else none
  | _ => none

/-- The host and the port. -/
def hostPort (authority : Text) : Option (Text × UInt16) :=
  match rsplitOnce ':' authority with
  | some (h, p) =>
      match parseUnsigned (2 ^ 16 - 1) p with
      | .ok port => some (h, .ofNat port)
      | .error _ => none
  | none => some (authority, 443)

/-! ## The ways to the host -/

/-- The client is told, and if it can be, the tunnel runs. -/
def establish (net : Network) (fromClient fromUpstream : Bytes) : List Event :=
  .tell .established :: if net.writesClient then [.relay fromClient fromUpstream] else []

/-- The connection to the target itself. -/
def direct (net : Network) (host : Text) (port : UInt16) (fromClient : Bytes) : List Event :=
  .dial host port ::
    match net.connect host port with
    | some fromUpstream => establish net fromClient fromUpstream
    | none => [.tell .badGateway]

/-- The connection over a SOCKS5 proxy. -/
def throughSocks5 (net : Network) (proxy : UpstreamProxy) (host : Text) (port : UInt16)
    (fromClient : Bytes) : List Event :=
  .dialSocks5 proxy.host proxy.port host port ::
    match net.connectSocks5 proxy.host proxy.port host port with
    | some fromUpstream => establish net fromClient fromUpstream
    | none => [.tell .badGateway]

/-- `connect_req`; `base64` is the encoder of the credentials. -/
def connectReq (base64 : Text → Text) (proxy : UpstreamProxy) (host : Text) (port : UInt16) :
    Text :=
  let line := "CONNECT ".toList ++ host ++ ':' :: natText port.toNat ++ " HTTP/1.1\r\n".toList
  match proxy.username, proxy.password with
  | some user, some pass =>
      line ++ "Proxy-Authorization: Basic ".toList ++ base64 (user ++ ':' :: pass)
        ++ "\r\n\r\n".toList
  | _, _ => line ++ "\r\n".toList

/-- Whether the answer of the proxy begins as it should. -/
def isOk (resp : Text) : Bool :=
  "HTTP/1.1 200".toList.isPrefixOf resp || "HTTP/1.0 200".toList.isPrefixOf resp

/-- The answer of the HTTP proxy, and what is made of it. -/
def hearProxy (net : Network) (fromClient response : Bytes) : List Event :=
  let read := readUntil emptyLine 4096 [] response
  .hear read.buf ::
    if isOk (lossy read.buf) then establish net fromClient read.rest else [.tell .badGateway]

/-- The address of the proxy, as it is dialled. -/
def proxyAddr (proxy : UpstreamProxy) : Text := proxy.host ++ ':' :: natText proxy.port.toNat

/-- The connection over an HTTP proxy. -/
def throughHttp (net : Network) (base64 : Text → Text) (proxy : UpstreamProxy) (host : Text)
    (port : UInt16) (fromClient : Bytes) : List Event :=
  .dialProxy (proxyAddr proxy) ::
    match net.connectProxy (proxyAddr proxy) with
    | some response =>
        .ask (connectReq base64 proxy host port) ::
          if net.writesProxy then hearProxy net fromClient response else [.tell .badGateway]
    | none => [.tell .badGateway]

/-- Which way the connection goes. -/
def openTunnel (net : Network) (base64 : Text → Text) (upstreamProxy : Option UpstreamProxy)
    (noProxy : List Text) (host : Text) (port : UInt16) (fromClient : Bytes) : List Event :=
  if noProxyMatch host noProxy then direct net host port fromClient
  else
    match upstreamProxy with
    | none => direct net host port fromClient
    | some proxy =>
        match proxy.proxyType with
        | .socks5 => throughSocks5 net proxy host port fromClient
        | .http | .https => throughHttp net base64 proxy host port fromClient

/-- `handle_connect_tunnel`, with what the client sends. -/
def handleConnectTunnel (net : Network) (base64 : Text → Text)
    (upstreamProxy : Option UpstreamProxy) (noProxy : List Text) (client : Bytes) : List Event :=
  let read := readUntil emptyLine 8192 [] client
  match read.stop with
  | .closed => []
  | .limit => [.tell .badRequest]
  | .ending =>
      match (authorityOf read.buf).bind hostPort with
      | none => [.tell .badRequest]
      | some (host, port) => openTunnel net base64 upstreamProxy noProxy host port read.rest

variable {net : Network} {base64 : Text → Text} {proxy : UpstreamProxy} {noProxy : List Text}
  {client head rest response fromClient p : Bytes} {host : Text} {port : UInt16}

/-- The head of the request is read, and this is left of what the client
    sends. -/
def Requests (client head rest : Bytes) : Prop :=
  readUntil emptyLine 8192 [] client = ⟨.ending, head, rest⟩

/-- A request without a host and a port is refused. -/
theorem handle_badRequest {upstreamProxy : Option UpstreamProxy} (h : Requests client head rest)
    (hnone : (authorityOf head).bind hostPort = none) :
    handleConnectTunnel net base64 upstreamProxy noProxy client = [.tell .badRequest] := by
  rw [Requests] at h
  simp only [handleConnectTunnel, h, hnone]

/-- A request with a host and a port opens a tunnel. -/
theorem handle_open {upstreamProxy : Option UpstreamProxy} (h : Requests client head rest)
    (hsome : (authorityOf head).bind hostPort = some (host, port)) :
    handleConnectTunnel net base64 upstreamProxy noProxy client
      = openTunnel net base64 upstreamProxy noProxy host port rest := by
  rw [Requests] at h
  simp only [handleConnectTunnel, h, hsome]

/-- Without a proxy the connection is direct. -/
theorem openTunnel_none (hmatch : noProxyMatch host noProxy = false) :
    openTunnel net base64 none noProxy host port fromClient = direct net host port fromClient := by
  simp only [openTunnel, hmatch, Bool.false_eq_true, if_false]

/-- A SOCKS5 proxy is used for a host that no rule names. -/
theorem openTunnel_socks5 (hmatch : noProxyMatch host noProxy = false)
    (htype : proxy.proxyType = .socks5) :
    openTunnel net base64 (some proxy) noProxy host port fromClient
      = throughSocks5 net proxy host port fromClient := by
  simp only [openTunnel, hmatch, htype, Bool.false_eq_true, if_false]

/-- An HTTP proxy is used for a host that no rule names. -/
theorem openTunnel_http (hmatch : noProxyMatch host noProxy = false)
    (htype : proxy.proxyType ≠ .socks5) :
    openTunnel net base64 (some proxy) noProxy host port fromClient
      = throughHttp net base64 proxy host port fromClient := by
  cases hhttp : proxy.proxyType with
  | socks5 => exact absurd hhttp htype
  | http => simp only [openTunnel, hmatch, hhttp, Bool.false_eq_true, if_false]
  | https => simp only [openTunnel, hmatch, hhttp, Bool.false_eq_true, if_false]

/-! ## The answer of an HTTP proxy -/

/-- The request gets to an HTTP proxy, and the proxy sends `response`. -/
structure Proxied (net : Network) (proxy : UpstreamProxy) (noProxy : List Text)
    (client response : Bytes) : Prop where
  requests : ∃ head rest host port, Requests client head rest ∧
    (authorityOf head).bind hostPort = some (host, port) ∧ noProxyMatch host noProxy = false
  http : proxy.proxyType ≠ .socks5
  connects : net.connectProxy (proxyAddr proxy) = some response
  writes : net.writesProxy = true

/-- What happens when an HTTP proxy answers. -/
theorem events_of_proxied (h : Proxied net proxy noProxy client response) :
    ∃ request fromClient,
      handleConnectTunnel net base64 (some proxy) noProxy client =
        .dialProxy (proxyAddr proxy) :: .ask request :: hearProxy net fromClient response := by
  obtain ⟨head, rest, host, port, hreq, hauthority, hbypass⟩ := h.requests
  refine ⟨connectReq base64 proxy host port, rest, ?_⟩
  rw [handle_open hreq hauthority, openTunnel_http hbypass h.http, throughHttp, h.connects]
  simp only [h.writes, if_true]

/-- `HTTP/1.1 200` or `HTTP/1.0 200`. -/
def Begins200 (response : Bytes) : Prop :=
  ascii "HTTP/1.1 200".toList <+: response ∨ ascii "HTTP/1.0 200".toList <+: response

theorem emptyLine_ne_nil : emptyLine ≠ [] := List.cons_ne_nil _ _

/-- Twelve bytes of ASCII begin the text that is looked at where they begin
    the answer. -/
theorem isPrefix_heard_iff {s : Text} (hascii : isAscii s = true) (hcr : 0x0D ∉ ascii s)
    (hlen : (ascii s).length ≤ 4097) :
    s <+: lossy (readUntil emptyLine 4096 [] response).buf ↔ ascii s <+: response := by
  have hopen : Open emptyLine (ascii s) := open_of_not_mem List.mem_cons_self hcr
  rw [isPrefix_lossy_iff hascii, isPrefix_buf_iff emptyLine_ne_nil hopen hlen]

/-- The test of the answer looks at its first twelve bytes. -/
theorem isOk_iff :
    isOk (lossy (readUntil emptyLine 4096 [] response).buf) = true ↔ Begins200 response := by
  rw [isOk, Bool.or_eq_true, List.isPrefixOf_iff_prefix, List.isPrefixOf_iff_prefix, Begins200]
  refine or_congr ?_ ?_
  · exact isPrefix_heard_iff (by decide) (by decide) (by decide)
  · exact isPrefix_heard_iff (by decide) (by decide) (by decide)

/-- The status line is one of the status 200. -/
def Status200 (head : Bytes) : Prop :=
  ∃ version rest, head = version ++ ascii " 200".toList ++ rest ∧ 0x20 ∉ version ∧ 0x0D ∉ version ∧
    (ascii " ".toList <+: rest ∨ ascii "\r\n".toList <+: rest)

/-- The status ends after its three digits. -/
def StatusEnds (response : Bytes) : Prop :=
  ascii " ".toList <+: response.drop 12 ∨ ascii "\r\n".toList <+: response.drop 12

/-- The answer begins with a version and ` 200`. -/
theorem Begins200.version (h : Begins200 response) :
    ∃ version rest, response = version ++ ascii " 200".toList ++ rest ∧ version.length = 8 ∧
      0x20 ∉ version ∧ 0x0D ∉ version := by
  rcases h with ⟨rest, rfl⟩ | ⟨rest, rfl⟩
  · exact ⟨ascii "HTTP/1.1".toList, rest, rfl, by decide, by decide, by decide⟩
  · exact ⟨ascii "HTTP/1.0".toList, rest, rfl, by decide, by decide, by decide⟩

/-- A head that begins with a 200 has that status if and only if the status
    ends there. -/
theorem status200_iff (h : Begins200 head) : Status200 head ↔ StatusEnds head := by
  obtain ⟨version, rest, hhead, hlen, hspace, hcr⟩ := h.version
  have hdrop : head.drop 12 = rest := by
    rw [hhead]
    exact List.drop_left' (by rw [List.length_append, hlen]; rfl)
  rw [StatusEnds, hdrop]
  constructor
  · rintro ⟨version', rest', hhead', hspace', -, hends⟩
    -- the first space of the line is the one before the status
    have hsame : version ++ 0x20 :: (ascii "200".toList ++ rest)
        = version' ++ 0x20 :: (ascii "200".toList ++ rest') := by
      rw [hhead, List.append_assoc, List.append_assoc] at hhead'
      exact hhead'
    rw [List.append_cancel_left (cut_unique hspace hspace' hsame).2]
    exact hends
  · intro hends
    exact ⟨version, rest, hhead, hspace, hcr, hends⟩

/-- What has no carriage return in it and begins the answer is before the
    empty line of a head. -/
theorem head_split (hhead : Head emptyLine head) (hs : head <+: response) (hp : p <+: response)
    (hcr : 0x0D ∉ p) : ∃ more, head = p ++ more ∧ emptyLine <:+ more := by
  have hopen : Open emptyLine p := open_of_not_mem List.mem_cons_self hcr
  rcases List.prefix_or_prefix_of_prefix hs hp with hle | hle
  · exact absurd (hopen.of_isPrefix hle) (hhead.not_open List.prefix_rfl)
  · obtain ⟨more, rfl⟩ := hle
    obtain ⟨front, hfront⟩ := hhead.1
    refine ⟨more, rfl, ?_⟩
    rcases List.append_eq_append_iff.mp hfront with ⟨front', hpart, hend⟩ | ⟨more', hpart, hend⟩
    · cases front' with
      | nil =>
          rw [List.nil_append] at hend
          exact ⟨[], hend⟩
      | cons b front' =>
          have hb : b = 0x0D := (List.cons.inj hend).1.symm
          refine absurd ?_ hcr
          rw [hpart, ← hb]
          exact List.mem_append_right _ List.mem_cons_self
    · exact ⟨more', hend.symm⟩

/-- The head begins as the whole answer does. -/
theorem Begins200.of_isPrefix (h : Begins200 response) (hhead : Head emptyLine head)
    (hs : head <+: response) : Begins200 head ∧ (StatusEnds head ↔ StatusEnds response) := by
  obtain ⟨p, hp, hlen, hcr, hbegins⟩ : ∃ p, p <+: response ∧ p.length = 12 ∧ 0x0D ∉ p ∧
      ∀ s, p <+: s → Begins200 s := by
    rcases h with hp | hp
    · exact ⟨_, hp, rfl, by decide, fun _ => Or.inl⟩
    · exact ⟨_, hp, rfl, by decide, fun _ => Or.inr⟩
  obtain ⟨more, rfl, hmore⟩ := head_split hhead hs hp hcr
  obtain ⟨tail, rfl⟩ := hs
  refine ⟨hbegins _ (List.prefix_append _ _), ?_⟩
  have hfour : 4 ≤ more.length := hmore.length_le
  have hmoreIff : ∀ s : Bytes, s.length ≤ 4 → (s <+: more ↔ s <+: more ++ tail) := by
    intro s hs
    constructor
    · intro hle
      exact hle.trans (List.prefix_append _ _)
    · intro hle
      exact List.prefix_of_prefix_length_le hle (List.prefix_append _ _) (hs.trans hfour)
  rw [StatusEnds, StatusEnds, List.append_assoc, List.drop_left' hlen, List.drop_left' hlen]
  exact or_congr (hmoreIff _ (by decide)) (hmoreIff _ (by decide))

/-- The client is told that the tunnel is there only after a whole head with
    the status 200 has been read, and gets nothing of it. -/
def Sound (response : Bytes) (events : List Event) : Prop :=
  ∀ before after, events = before ++ .tell .established :: after →
    ∃ head, .hear head ∈ before ∧ Head emptyLine head ∧ Status200 head ∧ head <+: response ∧
      ∀ fromClient fromUpstream, .relay fromClient fromUpstream ∈ events →
        head ++ fromUpstream = response

/-- What the server has sent is relayed unchanged. -/
theorem relay_mem_establish {fromUpstream toServer toClient : Bytes}
    (h : .relay toServer toClient ∈ establish net fromClient fromUpstream) :
    toClient = fromUpstream := by
  rw [establish] at h
  rcases List.mem_cons.mp h with heq | hrelay
  · cases heq
  · split at hrelay
    · cases List.mem_singleton.mp hrelay
      rfl
    · cases hrelay

/-- What has been read is heard before the client is told. -/
theorem hear_mem_before {request : Text} {events before after : List Event}
    (h : .dialProxy (proxyAddr proxy) :: .ask request :: .hear head :: events
      = before ++ .tell .established :: after) : .hear head ∈ before := by
  have hfront : [.dialProxy (proxyAddr proxy), .ask request, .hear head] <+: before := by
    refine isPrefix_before ?_ h
    rintro (_ | ⟨_, _ | ⟨_, _ | ⟨_, hnil⟩⟩⟩)
    cases hnil
  exact hfront.subset (List.mem_cons_of_mem _ (List.mem_cons_of_mem _ List.mem_cons_self))

/-- **The answer of the proxy** is treated as it should be if and only if,
    where it begins with a status 200, the status ends there, and the head
    within 4097 bytes. -/
theorem established_iff (h : Proxied net proxy noProxy client response) :
    Sound response (handleConnectTunnel net base64 (some proxy) noProxy client) ↔
      (Begins200 response → StatusEnds response ∧
        ∃ head rest, response = head ++ rest ∧ Head emptyLine head ∧ head.length ≤ 4097) := by
  obtain ⟨request, fromClient, hevents⟩ := @events_of_proxied net base64 _ _ _ _ h
  have hspec := @readUntil_spec _ emptyLine response 4096 _ emptyLine_ne_nil
  have happend := @readUntil_append _ emptyLine [] response 4096 _
  rw [hevents, hearProxy]
  constructor
  · intro hsound hbegins
    rw [if_pos (isOk_iff.mpr hbegins)] at hsound
    obtain ⟨head, hhear, hhead, hstatus, hle, -⟩ := hsound [_, _, _] _ rfl
    have hread : head = (readUntil emptyLine 4096 [] response).buf := by
      rcases hhear with _ | ⟨_, _ | ⟨_, _ | ⟨_, hnil⟩⟩⟩
      · rfl
      · cases hnil
    obtain ⟨hbegins', hends⟩ := hbegins.of_isPrefix hhead hle
    have hstatusEnds : StatusEnds response := hends.mp ((status200_iff hbegins').mp hstatus)
    rw [hread] at hhead
    exact ⟨hstatusEnds, _, _, happend.symm, hhead, hspec.length_le⟩
  · intro hcond before after hsplit
    by_cases hbegins : Begins200 response
    · obtain ⟨hends, head, rest, rfl, hhead, hlen⟩ := hcond hbegins
      obtain ⟨hbegins', hiff⟩ := hbegins.of_isPrefix hhead (List.prefix_append _ _)
      have hread := @readUntil_head _ emptyLine head rest 4096 _ emptyLine_ne_nil hhead hlen
      rw [if_pos (isOk_iff.mpr hbegins), hread] at hsplit
      refine ⟨head, hear_mem_before hsplit, hhead, (status200_iff hbegins').mpr (hiff.mpr hends),
        List.prefix_append _ _, fun toServer toClient hrelay => ?_⟩
      rw [if_pos (isOk_iff.mpr hbegins), hread] at hrelay
      rcases hrelay with _ | ⟨_, _ | ⟨_, _ | ⟨_, hrelay⟩⟩⟩
      rw [relay_mem_establish hrelay]
    · -- then the client is told of a bad gateway only
      rw [if_neg fun hok => hbegins (isOk_iff.mp hok)] at hsplit
      have htold : .tell .established ∈ before ++ .tell .established :: after :=
        List.mem_append_right _ List.mem_cons_self
      rw [← hsplit] at htold
      rcases htold with _ | ⟨_, _ | ⟨_, _ | ⟨_, _ | ⟨_, hnil⟩⟩⟩⟩
      cases hnil

section Examples

/-- A proxy without credentials. -/
def squid : UpstreamProxy := ⟨.http, "squid".toList, 3128, none, none⟩

/-- A network where the proxy answers so. -/
def answering (response : Bytes) : Network where
  connect _ _ := none
  connectSocks5 _ _ _ _ := none
  connectProxy _ := some response
  writesProxy := true
  writesClient := true

/-- A request for a tunnel. -/
def request : Bytes := ascii "CONNECT a:443 HTTP/1.1\r\n\r\n".toList

/-- The proxy has the request, and answers `response`. -/
theorem proxied_request (response : Bytes) :
    Proxied (answering response) squid [] request response where
  requests := ⟨request, [], "a".toList, 443, rfl, by decide, rfl⟩
  http := by decide
  connects := rfl
  writes := rfl

/-- The proxy goes away in the middle of its answer, and the client is told
    that the tunnel is there. -/
def truncated : Bytes := ascii "HTTP/1.1 200 OK\r\nVia".toList

/-- The tunnel is established on a status that is not 200. -/
theorem not_sound_truncated :
    ¬ Sound truncated (handleConnectTunnel (answering truncated) id (some squid) [] request) := by
  intro hsound
  have hevents : handleConnectTunnel (answering truncated) id (some squid) [] request =
      [.dialProxy "squid:3128".toList, .ask "CONNECT a:443 HTTP/1.1\r\n\r\n".toList,
        .hear truncated] ++ .tell .established :: [.relay [] []] := by
    decide
  obtain ⟨head, -, hhead, -, hle, -⟩ := hsound _ _ hevents
  have hread : readUntil emptyLine 4096 [] truncated = ⟨.closed, truncated, []⟩ := by rfl
  have hspec := @readUntil_spec _ emptyLine truncated 4096 _ emptyLine_ne_nil
  rw [hread] at hspec
  have hopen : Open emptyLine truncated := (hspec.closed rfl).1
  exact hhead.not_open hle hopen

theorem established_iff_ok :
    Sound (ascii "HTTP/1.1 200 OK\r\n\r\nhello".toList)
      (handleConnectTunnel (answering (ascii "HTTP/1.1 200 OK\r\n\r\nhello".toList)) id (some squid)
        [] request) := by
  refine (established_iff (proxied_request _)).mpr fun _ => ⟨Or.inl (by decide), ?_⟩
  refine ⟨ascii "HTTP/1.1 200 OK\r\n\r\n".toList, ascii "hello".toList, rfl, ?_, by decide⟩
  have hread : readUntil emptyLine 4096 [] (ascii "HTTP/1.1 200 OK\r\n\r\n".toList)
      = ⟨.ending, ascii "HTTP/1.1 200 OK\r\n\r\n".toList, []⟩ := by rfl
  have hspec := @readUntil_spec _ emptyLine (ascii "HTTP/1.1 200 OK\r\n\r\n".toList) 4096 _
    emptyLine_ne_nil
  rw [hread] at hspec
  exact hspec.ended rfl

end Examples

end BlitzTunnel
