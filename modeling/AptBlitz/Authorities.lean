import AptBlitz.Library.HostNames
import AptBlitz.Tunnel

/-! # The host and the port of a tunnel

    What `handle_connect_tunnel` makes of the authority of a request.  It is
    cut at its last colon, and what is behind that is the port; without a
    colon the port is 443.

    Names come out as they should (`hostPort_noColon`, `hostPort_port`).  In an
    IPv6 address the last colon is one of its own, and with a port the
    brackets stay with the host; only the request to an HTTP proxy has them
    there.  Whatever else has a colon and a number behind it is dialed
    (`meets_iff`). -/

namespace BlitzAuthorities

open RustText Reader HostNames BlitzBuffer BlitzConfig BlitzNoProxy BlitzTunnel

/-- The digits of a port. -/
structure IsPort (p : Text) (port : UInt16) : Prop where
  digits : p.all Char.isDigit = true
  value : parseUnsigned (2 ^ 16 - 1) p = .ok port.toNat

/-- `h`, `h:p`, `[v6]` or `[v6]:p`, with the host and the port that it means. -/
inductive Denotes : Text → Text → UInt16 → Prop where
  | name {host : Text} : IsName host → Denotes host host 443
  | namePort {host p : Text} {port : UInt16} :
      IsName host → IsPort p port → Denotes (host ++ ':' :: p) host port
  | ipv6 {v6 : Text} : IsIpv6 v6 → Denotes ('[' :: v6 ++ [']']) v6 443
  | ipv6Port {v6 p : Text} {port : UInt16} :
      IsIpv6 v6 → IsPort p port → Denotes (('[' :: v6 ++ [']']) ++ ':' :: p) v6 port

/-- A host and a port as an HTTP proxy reads them. -/
def target (host : Text) (port : UInt16) : Text :=
  (if ':' ∈ host then '[' :: host ++ [']'] else host) ++ ':' :: natText port.toNat

/-- The first event is a connection to the host on the port, or to an HTTP
    proxy, which is asked for nothing else. -/
inductive Dials (host : Text) (port : UInt16) : List Event → Prop where
  | direct {rest : List Event} : Dials host port (.dial host port :: rest)
  | socks5 {proxyHost : Text} {proxyPort : UInt16} {rest : List Event} :
      Dials host port (.dialSocks5 proxyHost proxyPort host port :: rest)
  | http {addr : Text} {rest : List Event} :
      (∀ request, .ask request ∈ rest →
        "CONNECT ".toList ++ target host port ++ " HTTP/1.1\r\n".toList <+: request) →
      Dials host port (.dialProxy addr :: rest)

/-- What is asked of a request: the host and the port of its authority are
    dialed, and any other authority is answered 400. -/
structure Meets (authority : Text) (events : List Event) : Prop where
  accepts : ∀ host port, Denotes authority host port → Dials host port events
  rejects : (∀ host port, ¬ Denotes authority host port) → events = [.tell .badRequest]

/-- Tunnels to the host go through an HTTP proxy. -/
def ThroughHttp (upstreamProxy : Option UpstreamProxy) (noProxy : List Text) (host : Text) : Prop :=
  ∃ proxy, upstreamProxy = some proxy ∧ proxy.proxyType ≠ .socks5 ∧
    noProxyMatch host noProxy = false

variable {net : Network} {base64 : Text → Text} {proxy : UpstreamProxy}
  {upstreamProxy : Option UpstreamProxy} {noProxy : List Text} {fromClient response : Bytes}
  {a host h p v6 request : Text} {port : UInt16}

/-! ## The authority -/

/-- A request line has the authority that is written on it, whatever comes
    behind the line. -/
theorem authorityOf_line {more : Bytes} (hne : a ≠ []) (hascii : Utf8.isAscii a = true)
    (hspace : a.any isWhitespace = false) :
    authorityOf (Utf8.ascii ("CONNECT ".toList ++ a ++ " HTTP/1.1\r\n".toList) ++ more)
      = some a := by
  have hall : Utf8.isAscii ("CONNECT ".toList ++ a ++ " HTTP/1.1\r\n".toList) = true :=
    Utf8.isAscii_append.mpr ⟨Utf8.isAscii_append.mpr ⟨rfl, hascii⟩, rfl⟩
  have hline : '\n' ∉ "CONNECT ".toList ++ a ++ " HTTP/1.1".toList := by
    intro hmem
    rcases List.mem_append.mp hmem with hmem | hmem
    · rcases List.mem_append.mp hmem with hmem | hmem
      · exact absurd hmem (by decide)
      · exact absurd rfl (List.any_eq_false.mp hspace '\n' hmem)
    · exact absurd hmem (by decide)
  have hsplit : "CONNECT ".toList ++ a ++ " HTTP/1.1\r\n".toList ++ Utf8.lossy more
      = ("CONNECT ".toList ++ a ++ " HTTP/1.1".toList) ++ '\r' :: '\n' :: Utf8.lossy more := by
    simp only [List.append_assoc]
    rfl
  have hfirst : firstLine (Utf8.lossy (Utf8.ascii ("CONNECT ".toList ++ a ++ " HTTP/1.1\r\n".toList)
      ++ more)) = "CONNECT ".toList ++ a ++ " HTTP/1.1".toList := by
    rw [Utf8.lossy_ascii_append hall, hsplit]
    exact firstLine_crlf hline
  have hparts : splitWhitespace ("CONNECT ".toList ++ a ++ " HTTP/1.1".toList)
      = "CONNECT".toList :: a :: splitWhitespace "HTTP/1.1".toList := by
    rw [← splitWhitespace_append_cons hne hspace (show isWhitespace ' ' = true by decide),
      ← splitWhitespace_append_cons (show "CONNECT".toList ≠ [] by decide) rfl
        (show isWhitespace ' ' = true by decide), List.append_assoc]
    rfl
  rw [authorityOf, hfirst, hparts]
  exact if_pos rfl

theorem colon_not_mem_port (hp : IsPort p port) : ':' ∉ p := fun hmem =>
  absurd (List.all_eq_true.mp hp.digits ':' hmem) (by decide)

theorem hostPort_ok {n : Nat} (hp : ':' ∉ p) (hn : parseUnsigned (2 ^ 16 - 1) p = .ok n) :
    hostPort (h ++ ':' :: p) = some (h, .ofNat n) := by
  simp only [hostPort, rsplitOnce_append_cons hp, hn]

theorem hostPort_error {e : ParseIntError} (hp : ':' ∉ p)
    (he : parseUnsigned (2 ^ 16 - 1) p = .error e) : hostPort (h ++ ':' :: p) = none := by
  simp only [hostPort, rsplitOnce_append_cons hp, he]

/-- A host and a port are read as such. -/
theorem hostPort_port (hp : IsPort p port) : hostPort (h ++ ':' :: p) = some (h, port) := by
  rw [hostPort_ok (colon_not_mem_port hp) hp.value, UInt16.ofNat_toNat]

/-- Without a colon the port is that of https. -/
theorem hostPort_noColon (ha : ':' ∉ a) : hostPort a = some (a, 443) := by
  simp only [hostPort, rsplitOnce_none_iff.mpr ha]

/-- What is behind the last colon of a refused authority is no port. -/
theorem hostPort_none_iff :
    hostPort a = none ↔
      ∃ h p, a = h ++ ':' :: p ∧ ':' ∉ p ∧ ∀ port, parseUnsigned (2 ^ 16 - 1) p ≠ .ok port := by
  constructor
  · intro hnone
    cases hcut : rsplitOnce ':' a with
    | none =>
        rw [hostPort_noColon (rsplitOnce_none_iff.mp hcut)] at hnone
        cases hnone
    | some parts =>
        obtain ⟨h, p⟩ := parts
        obtain ⟨rfl, hp⟩ := rsplitOnce_some hcut
        refine ⟨h, p, rfl, hp, fun port hport => ?_⟩
        rw [hostPort_ok hp hport] at hnone
        cases hnone
  · rintro ⟨h, p, rfl, hp, hport⟩
    cases hparse : parseUnsigned (2 ^ 16 - 1) p with
    | ok port => exact absurd hparse (hport port)
    | error e => exact hostPort_error hp hparse

/-- Behind its last colon, an IPv6 address in brackets has a bracket. -/
theorem hostPort_ipv6 (hv6 : IsIpv6 v6) : hostPort ('[' :: v6 ++ [']']) = none := by
  have hcolon : ':' ∈ '[' :: v6 ++ [']'] :=
    List.mem_append_left _ (List.mem_cons_of_mem _ (colon_mem_of_isIpv6 hv6))
  cases hcut : rsplitOnce ':' ('[' :: v6 ++ [']']) with
  | none => exact absurd hcolon (rsplitOnce_none_iff.mp hcut)
  | some parts =>
      obtain ⟨x, y⟩ := parts
      obtain ⟨hsplit, hy⟩ := rsplitOnce_some hcut
      have hlast : (':' :: y).getLast? = some ']' := by
        rw [← List.getLast?_append_cons x, ← hsplit, List.getLast?_concat]
      have hbracket : ']' ∈ y := by
        rcases List.mem_cons.mp (List.mem_of_getLast? hlast) with heq | hmem
        · exact absurd heq (by decide)
        · exact hmem
      refine hostPort_none_iff.mpr ⟨x, y, hsplit, hy, fun port hport => ?_⟩
      rcases mem_of_parseUnsigned hport hbracket with heq | hdigit
      · exact absurd heq (by decide)
      · exact absurd hdigit (by decide)

/-! ## The connection -/

/-- The HTTP proxy is dialled and asked for this host and port. -/
theorem throughHttp_events :
    ∃ rest,
      throughHttp net base64 proxy host port fromClient = .dialProxy (proxyAddr proxy) :: rest ∧
        ∀ request, .ask request ∈ rest → request = connectReq base64 proxy host port := by
  have hhear : ∀ response request, .ask request ∉ hearProxy net fromClient response := by
    intro response request hmem
    rw [hearProxy, establish] at hmem
    split at hmem
    · rcases hmem with _ | ⟨_, _ | ⟨_, hmem⟩⟩
      split at hmem
      · rcases hmem with _ | ⟨_, hnil⟩
        cases hnil
      · cases hmem
    · rcases hmem with _ | ⟨_, _ | ⟨_, hnil⟩⟩
      cases hnil
  refine ⟨_, rfl, fun request hmem => ?_⟩
  split at hmem
  · rcases List.mem_cons.mp hmem with heq | hmem
    · cases heq
      rfl
    · split at hmem
      · exact absurd hmem (hhear _ _)
      · rcases hmem with _ | ⟨_, hnil⟩
        cases hnil
  · rcases hmem with _ | ⟨_, hnil⟩
    cases hnil

/-- The request names the host and the port. -/
theorem connectReq_line :
    "CONNECT ".toList ++ host ++ ':' :: natText port.toNat ++ " HTTP/1.1\r\n".toList
      <+: connectReq base64 proxy host port := by
  rw [connectReq]
  split
  · refine List.IsPrefix.trans ?_ (List.prefix_append _ _)
    refine List.IsPrefix.trans ?_ (List.prefix_append _ _)
    exact List.prefix_append _ _
  · exact List.prefix_append _ _

/-- The tunnel goes through an HTTP proxy, or its first event is a connection
    to the host as it stands. -/
theorem openTunnel_cases :
    (ThroughHttp upstreamProxy noProxy host ∧ ∃ proxy,
        openTunnel net base64 upstreamProxy noProxy host port fromClient
          = throughHttp net base64 proxy host port fromClient) ∨
      (¬ ThroughHttp upstreamProxy noProxy host ∧ ∃ first rest,
        openTunnel net base64 upstreamProxy noProxy host port fromClient = first :: rest ∧
          (first = .dial host port ∨
            ∃ proxyHost proxyPort, first = .dialSocks5 proxyHost proxyPort host port)) := by
  cases hmatch : noProxyMatch host noProxy with
  | true =>
      have hdirect : openTunnel net base64 upstreamProxy noProxy host port fromClient
          = direct net host port fromClient := by
        rw [openTunnel.eq_def, if_pos hmatch]
      refine Or.inr ⟨?_, .dial host port, _, hdirect.trans rfl, Or.inl rfl⟩
      rintro ⟨proxy, -, -, hno⟩
      exact absurd (hmatch.symm.trans hno) (by decide)
  | false =>
      cases upstreamProxy with
      | none =>
          refine Or.inr ⟨?_, .dial host port, _, (openTunnel_none hmatch).trans rfl, Or.inl rfl⟩
          rintro ⟨proxy, hproxy, -, -⟩
          cases hproxy
      | some proxy =>
          by_cases htype : proxy.proxyType = .socks5
          · refine Or.inr ⟨?_, .dialSocks5 proxy.host proxy.port host port, _,
              (openTunnel_socks5 hmatch htype).trans rfl, Or.inr ⟨_, _, rfl⟩⟩
            rintro ⟨proxy', hproxy, hne, -⟩
            cases hproxy
            exact hne htype
          · exact Or.inl ⟨⟨proxy, rfl, htype, hmatch⟩, proxy, openTunnel_http hmatch htype⟩

/-- Through an HTTP proxy, the proxy reads the host as it is written to it. -/
theorem dials_throughHttp {meant : Text}
    (htarget : target meant port = host ++ ':' :: natText port.toNat) :
    Dials meant port (throughHttp net base64 proxy host port fromClient) := by
  obtain ⟨rest, hevents, hask⟩ := @throughHttp_events net base64 proxy fromClient host port
  rw [hevents]
  refine Dials.http fun request hmem => ?_
  rw [hask request hmem, htarget]
  have hline := @connectReq_line base64 proxy host port
  rw [List.append_assoc "CONNECT ".toList] at hline
  exact hline

/-- A host name is dialled as it is. -/
theorem dials_name (hcolon : ':' ∉ host) :
    Dials host port (openTunnel net base64 upstreamProxy noProxy host port fromClient) := by
  have htarget : target host port = host ++ ':' :: natText port.toNat := by
    rw [target, if_neg hcolon]
  rcases @openTunnel_cases net base64 upstreamProxy noProxy fromClient host port with
    ⟨-, proxy, hevents⟩ | ⟨-, first, rest, hevents, rfl | ⟨proxyHost, proxyPort, rfl⟩⟩
  · rw [hevents]
    exact dials_throughHttp htarget
  · rw [hevents]
    exact Dials.direct
  · rw [hevents]
    exact Dials.socks5

/-- In brackets, an IPv6 address is dialed by an HTTP proxy only. -/
theorem dials_brackets_iff (hcolon : ':' ∈ v6) :
    Dials v6 port
        (openTunnel net base64 upstreamProxy noProxy ('[' :: v6 ++ [']']) port fromClient) ↔
      ThroughHttp upstreamProxy noProxy ('[' :: v6 ++ [']']) := by
  have hne : '[' :: v6 ++ [']'] ≠ v6 := by
    intro heq
    have hlen := congrArg List.length heq
    rw [List.length_append, List.length_cons] at hlen
    omega
  have htarget : target v6 port = ('[' :: v6 ++ [']']) ++ ':' :: natText port.toNat := by
    rw [target, if_pos hcolon]
  rcases @openTunnel_cases net base64 upstreamProxy noProxy fromClient ('[' :: v6 ++ [']']) port
    with ⟨hhttp, proxy, hevents⟩ | ⟨hnot, first, rest, hevents, rfl | ⟨proxyHost, proxyPort, rfl⟩⟩
  · rw [hevents]
    exact iff_of_true (dials_throughHttp htarget) hhttp
  · rw [hevents]
    refine iff_of_false (fun hdials => ?_) hnot
    generalize '[' :: v6 ++ [']'] = host at hdials hne
    cases hdials
    exact hne rfl
  · rw [hevents]
    refine iff_of_false (fun hdials => ?_) hnot
    generalize '[' :: v6 ++ [']'] = host at hdials hne
    cases hdials
    exact hne rfl

/-! ## The exact condition -/

/-- A name, with or without a port. -/
def IsNamed (a : Text) : Prop :=
  ∃ host, IsName host ∧ (a = host ∨ ∃ p port, IsPort p port ∧ a = host ++ ':' :: p)

/-- An IPv6 address with a port, whose tunnels go through an HTTP proxy. -/
def IsProxied (upstreamProxy : Option UpstreamProxy) (noProxy : List Text) (a : Text) : Prop :=
  ∃ v6 p port, IsIpv6 v6 ∧ IsPort p port ∧ a = ('[' :: v6 ++ [']']) ++ ':' :: p ∧
    ThroughHttp upstreamProxy noProxy ('[' :: v6 ++ [']'])

/-- None of the forms, and no port behind the last colon. -/
def IsRefused (a : Text) : Prop :=
  (∀ host port, ¬ Denotes a host port) ∧
    ∃ h p, a = h ++ ':' :: p ∧ ':' ∉ p ∧ ∀ port, parseUnsigned (2 ^ 16 - 1) p ≠ .ok port

variable {client head rest : Bytes}

/-- An authority without a host and a port is refused. -/
theorem handle_refused (hreq : Requests client head rest) (ha : authorityOf head = some a)
    (hnone : hostPort a = none) :
    handleConnectTunnel net base64 upstreamProxy noProxy client = [.tell .badRequest] := by
  refine handle_badRequest hreq ?_
  rw [ha]
  exact hnone

/-- An authority with a host and a port opens a tunnel. -/
theorem handle_opened (hreq : Requests client head rest) (ha : authorityOf head = some a)
    (hsome : hostPort a = some (host, port)) :
    handleConnectTunnel net base64 upstreamProxy noProxy client
      = openTunnel net base64 upstreamProxy noProxy host port rest := by
  refine handle_open hreq ?_
  rw [ha]
  exact hsome

/-- Nothing is dialed where the request is refused. -/
theorem not_dials_refused : ¬ Dials host port [.tell .badRequest] := by
  intro hdials
  cases hdials

/-- A tunnel that is opened was not refused. -/
theorem openTunnel_ne_refused :
    openTunnel net base64 upstreamProxy noProxy host port fromClient ≠ [.tell .badRequest] := by
  intro hrefused
  rcases @openTunnel_cases net base64 upstreamProxy noProxy fromClient host port with
    ⟨-, proxy, hevents⟩ | ⟨-, first, rest, hevents, rfl | ⟨proxyHost, proxyPort, rfl⟩⟩
  · obtain ⟨rest, hhttp, -⟩ := @throughHttp_events net base64 proxy fromClient host port
    cases hhttp.symm.trans (hevents.symm.trans hrefused)
  · cases hevents.symm.trans hrefused
  · cases hevents.symm.trans hrefused

/-- What begins with a bracket is no name. -/
theorem not_isNamed_bracket {s : Text} : ¬ IsNamed ('[' :: s) := by
  rintro ⟨host, hname, rfl | ⟨p, port, hp, heq⟩⟩
  · exact bracket_not_mem_isName hname List.mem_cons_self
  · cases host with
    | nil => exact absurd (List.cons.inj heq).1 (by decide)
    | cons c host =>
        refine bracket_not_mem_isName hname ?_
        rw [(List.cons.inj heq).1]
        exact List.mem_cons_self

/-- Without a port, an IPv6 address ends with its bracket. -/
theorem not_isProxied_ipv6 (hv6 : IsIpv6 v6) :
    ¬ IsProxied upstreamProxy noProxy ('[' :: v6 ++ [']']) := by
  rintro ⟨v6', p, port, -, hp, heq, -⟩
  have hport := hostPort_port (h := '[' :: v6' ++ [']']) hp
  rw [← heq, hostPort_ipv6 hv6] at hport
  cases hport

/-- A name with or without a port denotes one. -/
theorem denotes_of_isNamed (hnamed : IsNamed a) : ∃ host port, Denotes a host port := by
  obtain ⟨host, hname, rfl | ⟨p, port, hp, rfl⟩⟩ := hnamed
  · exact ⟨a, 443, Denotes.name hname⟩
  · exact ⟨host, port, Denotes.namePort hname hp⟩

/-- What goes to a proxy denotes a host and a port. -/
theorem denotes_of_isProxied (hproxied : IsProxied upstreamProxy noProxy a) :
    ∃ host port, Denotes a host port := by
  obtain ⟨v6, p, port, hv6, hp, rfl, -⟩ := hproxied
  exact ⟨v6, port, Denotes.ipv6Port hv6 hp⟩

/-- The brackets of an IPv6 address with a port are what is looked up. -/
theorem isProxied_ipv6Port (hv6 : IsIpv6 v6) (hp : IsPort p port) :
    IsProxied upstreamProxy noProxy (('[' :: v6 ++ [']']) ++ ':' :: p) ↔
      ThroughHttp upstreamProxy noProxy ('[' :: v6 ++ [']']) := by
  constructor
  · rintro ⟨v6', p', port', -, hp', heq, hhttp⟩
    -- both ways to read the host are cut at the last colon
    have hsame := hostPort_port (h := '[' :: v6' ++ [']']) hp'
    rw [← heq, hostPort_port hp] at hsame
    rw [(Prod.mk.inj (Option.some.inj hsame)).1]
    exact hhttp
  · intro hhttp
    exact ⟨v6, p, port, hv6, hp, rfl, hhttp⟩

/-- What an authority means is dialed for a name, and for an IPv6 address with
    a port through an HTTP proxy. -/
theorem dials_iff (hreq : Requests client head rest) (ha : authorityOf head = some a)
    (hdenotes : Denotes a host port) :
    Dials host port (handleConnectTunnel net base64 upstreamProxy noProxy client) ↔
      IsNamed a ∨ IsProxied upstreamProxy noProxy a := by
  cases hdenotes with
  | name hname =>
      rw [handle_opened hreq ha (hostPort_noColon (colon_not_mem_isName hname))]
      exact iff_of_true (dials_name (colon_not_mem_isName hname)) (Or.inl ⟨_, hname, Or.inl rfl⟩)
  | namePort hname hp =>
      rw [handle_opened hreq ha (hostPort_port hp)]
      exact iff_of_true (dials_name (colon_not_mem_isName hname))
        (Or.inl ⟨_, hname, Or.inr ⟨_, _, hp, rfl⟩⟩)
  | ipv6 hv6 =>
      rw [handle_refused hreq ha (hostPort_ipv6 hv6)]
      refine iff_of_false not_dials_refused ?_
      rintro (hnamed | hproxied)
      · exact not_isNamed_bracket hnamed
      · exact not_isProxied_ipv6 hv6 hproxied
  | ipv6Port hv6 hp =>
      rw [handle_opened hreq ha (hostPort_port hp), dials_brackets_iff (colon_mem_of_isIpv6 hv6),
        isProxied_ipv6Port hv6 hp]
      exact (or_iff_right not_isNamed_bracket).symm

/-- What has none of the forms is answered 400 if it has no port behind its
    last colon. -/
theorem refused_iff (hreq : Requests client head rest) (ha : authorityOf head = some a) :
    handleConnectTunnel net base64 upstreamProxy noProxy client = [.tell .badRequest] ↔
      hostPort a = none := by
  cases hauthority : hostPort a with
  | none => exact iff_of_true (handle_refused hreq ha hauthority) rfl
  | some parts =>
      refine iff_of_false ?_ (Option.some_ne_none parts)
      rw [handle_opened hreq ha hauthority]
      exact openTunnel_ne_refused

/-- **Authorities**: the host and the port are dialed, and what is no authority
    is answered 400, if and only if the authority is a name, or an IPv6 address
    with a port on its way through an HTTP proxy, or has no port behind its
    last colon and none of the forms. -/
theorem meets_iff (hreq : Requests client head rest) (ha : authorityOf head = some a) :
    Meets a (handleConnectTunnel net base64 upstreamProxy noProxy client) ↔
      IsNamed a ∨ IsProxied upstreamProxy noProxy a ∨ IsRefused a := by
  by_cases hform : ∃ host port, Denotes a host port
  · constructor
    · intro hmeets
      obtain ⟨host, port, hdenotes⟩ := hform
      rw [← or_assoc]
      exact Or.inl ((dials_iff hreq ha hdenotes).mp (hmeets.accepts host port hdenotes))
    · intro hfits
      refine ⟨fun host port hdenotes => (dials_iff hreq ha hdenotes).mpr ?_, fun hnone => ?_⟩
      · rcases hfits with hnamed | hproxied | hrefused
        · exact Or.inl hnamed
        · exact Or.inr hproxied
        · exact absurd hdenotes (hrefused.1 host port)
      · obtain ⟨host, port, hdenotes⟩ := hform
        exact absurd hdenotes (hnone host port)
  · have hnone : ∀ host port, ¬ Denotes a host port := fun host port hdenotes =>
      hform ⟨host, port, hdenotes⟩
    constructor
    · intro hmeets
      have hrefused := (refused_iff hreq ha).mp (hmeets.rejects hnone)
      exact Or.inr (Or.inr ⟨hnone, hostPort_none_iff.mp hrefused⟩)
    · rintro (hnamed | hproxied | hrefused)
      · exact absurd (denotes_of_isNamed hnamed) hform
      · exact absurd (denotes_of_isProxied hproxied) hform
      · refine ⟨fun host port hdenotes => absurd hdenotes (hnone host port), fun _ => ?_⟩
        exact (refused_iff hreq ha).mpr (hostPort_none_iff.mpr hrefused.2)

section Examples

/-- A request without a field. -/
def requestFor (authority : Text) : Bytes :=
  Utf8.ascii ("CONNECT ".toList ++ authority ++ " HTTP/1.1\r\n".toList)
    ++ Utf8.ascii "\r\n".toList

/-- A network where every host refuses. -/
def refusing : Network where
  connect _ _ := none
  connectSocks5 _ _ _ _ := none
  connectProxy _ := none
  writesProxy := true
  writesClient := true

theorem isIpv6_loopback : IsIpv6 "::1".toList := by
  have hone : Groups "1".toList 1 := Groups.one ⟨by decide, by decide, by decide⟩
  exact @IsIpv6.compressed [] "1".toList 0 1 (Or.inl ⟨rfl, rfl⟩) (Or.inr (LastGroups.groups hone))
    (by decide)

/-- `[::1]:443` is dialed with its brackets, and `[::1]` not at all. -/
theorem not_meets_loopback :
    (authorityOf (requestFor "[::1]:443".toList) = some "[::1]:443".toList ∧
      ¬ Meets "[::1]:443".toList
        (handleConnectTunnel refusing id none [] (requestFor "[::1]:443".toList))) ∧
      authorityOf (requestFor "[::1]".toList) = some "[::1]".toList ∧
        ¬ Meets "[::1]".toList
          (handleConnectTunnel refusing id none [] (requestFor "[::1]".toList)) := by
  refine ⟨⟨by decide, fun hmeets => ?_⟩, by decide, fun hmeets => ?_⟩
  · have hport : IsPort "443".toList 443 := ⟨by decide, by decide⟩
    have hevents : handleConnectTunnel refusing id none [] (requestFor "[::1]:443".toList)
        = [.dial "[::1]".toList 443, .tell .badGateway] := by decide
    have hdials := hmeets.accepts "::1".toList 443 (Denotes.ipv6Port isIpv6_loopback hport)
    rw [hevents] at hdials
    cases hdials
  · have hevents : handleConnectTunnel refusing id none [] (requestFor "[::1]".toList)
        = [.tell .badRequest] := by decide
    have hdials := hmeets.accepts "::1".toList 443 (Denotes.ipv6 isIpv6_loopback)
    rw [hevents] at hdials
    cases hdials

theorem meets_iff_name :
    Meets "deb.debian.org".toList
      (handleConnectTunnel refusing id none [] (requestFor "deb.debian.org".toList)) := by
  have hname : IsName "deb.debian.org".toList := Or.inl (by decide)
  have hreq : Requests (requestFor "deb.debian.org".toList)
      (requestFor "deb.debian.org".toList) [] := rfl
  have ha : authorityOf (requestFor "deb.debian.org".toList) = some "deb.debian.org".toList :=
    authorityOf_line (by decide) (by decide) (by decide)
  exact (meets_iff hreq ha).mpr (Or.inl ⟨_, hname, Or.inl rfl⟩)

end Examples

end BlitzAuthorities
