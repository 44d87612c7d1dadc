import AptBlitz.Library.OsText
import AptBlitz.UrlMap
import Mathlib.Logic.Function.Basic

/-! # Configuration

    `Config::load` for a command line without flags, and the helpers with
    which `blitzctl` finds the cache: environment, configuration file, the
    bridge from the file to the environment, and the arguments that clap
    reads from there.

    The file system, `dirs`, `serde_yaml` and the value parsers of clap are
    given.  A `usize` is a `u64`. -/

namespace BlitzConfig

open RustText RustOs BlitzUrlMap

/-! ## Values -/

/-- `u64::MAX`. -/
def u64Max : Nat := 2 ^ 64 - 1

/-- `str::parse::<u64>`. -/
def parseU64 (s : Text) : Except ParseIntError UInt64 :=
  (parseUnsigned u64Max s).map UInt64.ofNat

/-- The suffixes of `parse_bytes_value`, in the order they are tried. -/
def byteSuffixes : List (Text × Nat) :=
  [("kb", 1000), ("mb", 1000 ^ 2), ("gb", 1000 ^ 3), ("tb", 1000 ^ 4), ("pb", 1000 ^ 5),
    ("k", 1024), ("m", 1024 ^ 2), ("g", 1024 ^ 3), ("t", 1024 ^ 4), ("p", 1024 ^ 5)].map
    fun p => (p.1.toList, p.2)

/-- `parse_bytes`. -/
def parseBytes (s : Text) : Except Text UInt64 :=
  let s := trim s
  if s = [] then .error "empty string".toList
  else
    let numPart := s.takeWhile Char.isDigit
    let suffix := trim (s.dropWhile Char.isDigit)
    match parseUnsigned u64Max numPart with
    | .error _ => .error ("invalid number '".toList ++ numPart ++ "'".toList)
    | .ok base =>
        if suffix = [] then .ok (.ofNat base)
        else
          match byteSuffixes.lookup (suffix.map Char.toLower) with
          | none =>
              .error ("unknown suffix '".toList ++ suffix ++
                "', expected K/KB/M/MB/G/GB/T/TB/P/PB".toList)
          | some multiplier =>
              if base * multiplier ≤ u64Max then .ok (.ofNat (base * multiplier))
              else .error ("value too large: ".toList ++ natText base ++ " × ".toList ++
                natText multiplier)

/-- `ProxyType`. -/
inductive ProxyType where
  | http
  | https
  | socks5
  deriving DecidableEq, Repr

/-- `UpstreamProxy`. -/
structure UpstreamProxy where
  proxyType : ProxyType
  host : Text
  port : UInt16
  username : Option Text
  password : Option Text
  deriving DecidableEq, Repr

/-- The schemes, in the order they are tried. -/
def proxySchemes : List (ProxyType × Text) :=
  [(.socks5, "socks5://".toList), (.http, "http://".toList), (.https, "https://".toList)]

/-- The user name and the password before the last `@`. -/
def userinfo (ui : Text) : Option Text × Option Text :=
  match splitOnce ':' ui with
  | some (u, p) => (some u, some p)
  | none => (some ui, none)

/-- `UpstreamProxy::parse`. -/
def UpstreamProxy.parse (input : Text) : Except Text UpstreamProxy :=
  match proxySchemes.findSome? fun s => (stripPrefix s.2 input).map fun rest => (s.1, rest) with
  | none => .error "upstream proxy must start with http://, https://, or socks5://".toList
  | some (proxyType, rest) =>
      let (user, hostport) :=
        match rsplitOnce '@' rest with
        | some (ui, hp) => (userinfo ui, hp)
        | none => ((none, none), rest)
      let parsed : Except Text (Text × UInt16) :=
        match rsplitOnce ':' hostport with
        | none => .ok (hostport, 1080)
        | some (h, p) =>
            match parseUnsigned (2 ^ 16 - 1) p with
            | .ok port => .ok (h, .ofNat port)
            | .error _ => .error "invalid proxy port".toList
      match parsed with
      | .error e => .error e
      | .ok (host, port) =>
          if host = [] then .error "upstream proxy host must not be empty".toList
          else .ok ⟨proxyType, host, port, user.1, user.2⟩

/-- `Config`. -/
structure Config where
  port : UInt16
  bind : Text
  connections : UInt64
  cacheDir : OsText
  maxCacheSize : UInt64
  maxCacheAge : UInt64
  urlMaps : List UrlMap
  upstreamProxy : Option UpstreamProxy
  noProxy : List Text
  maxConnectionsPerIp : UInt64
  maxTotalConnections : UInt64
  maxWorkers : UInt64
  upstreamBandwidth : UInt64
  perIpBandwidth : UInt64
  coalesceFollowerTimeoutSecs : UInt64
  coalesceMaxRetries : UInt32
  coalesceEtagMaxRetries : UInt32
  deriving DecidableEq, Repr

/-- What is in a configuration file. -/
structure YamlConfig where
  port : Option UInt16
  bind : Option Text
  connections : Option UInt64
  cacheDir : Option Text
  maxCacheSize : Option UInt64
  maxCacheAge : Option UInt64
  urlMap : Option (List Text)
  upstreamProxy : Option Text
  noProxy : Option (List Text)
  maxConnectionsPerIp : Option UInt64
  maxTotalConnections : Option UInt64
  maxWorkers : Option UInt64
  upstreamBandwidth : Option UInt64
  perIpBandwidth : Option UInt64
  coalesceFollowerTimeoutSecs : Option UInt64
  coalesceMaxRetries : Option UInt32
  coalesceEtagMaxRetries : Option UInt32

/-! ## The environment -/

/-- The environment. -/
abbrev Env := Text → Option OsText

/-- `std::env::var`, where it succeeds. -/
def var (env : Env) (name : Text) : Option Text := (env name).bind toStr

/-- `std::env::set_var`, which panics on a NUL. -/
def setVar (env : Env) (name value : Text) : Option Env :=
  if '\x00' ∈ value then none else some (Function.update env name (some (ofText value)))

/-- The variable of a key. -/
def varName (key : Text) : Text := "PROXY_".toList ++ key

/-- `set!`: a variable that cannot be read is set. -/
def setMissing (env : Env) (setting : Text × Option Text) : Option Env :=
  match setting.2 with
  | none => some env
  | some v => if (var env (varName setting.1)).isSome then some env
      else setVar env (varName setting.1) v

/-- The lists, which are not set when they are empty. -/
def joined (list : Option (List Text)) : Option Text :=
  list.bind fun parts => if parts = [] then none else some (join [','] parts)

namespace YamlConfig

/-- What `apply_env` sets, in its order. -/
def settings (y : YamlConfig) : List (Text × Option Text) :=
  [("PORT".toList, y.port.map fun n => natText n.toNat),
    ("BIND".toList, y.bind),
    ("CONNECTIONS".toList, y.connections.map fun n => natText n.toNat),
    ("CACHE_DIR".toList, y.cacheDir),
    ("MAX_CACHE_SIZE".toList, y.maxCacheSize.map fun n => natText n.toNat),
    ("MAX_CACHE_AGE".toList, y.maxCacheAge.map fun n => natText n.toNat),
    ("URL_MAP".toList, joined y.urlMap),
    ("UPSTREAM_PROXY".toList, y.upstreamProxy),
    ("NO_PROXY".toList, joined y.noProxy),
    ("MAX_CONNECTIONS_PER_IP".toList, y.maxConnectionsPerIp.map fun n => natText n.toNat),
    ("MAX_TOTAL_CONNECTIONS".toList, y.maxTotalConnections.map fun n => natText n.toNat),
    ("MAX_WORKERS".toList, y.maxWorkers.map fun n => natText n.toNat),
    ("UPSTREAM_BANDWIDTH".toList, y.upstreamBandwidth.map fun n => natText n.toNat),
    ("PER_IP_BANDWIDTH".toList, y.perIpBandwidth.map fun n => natText n.toNat),
    ("COALESCE_FOLLOWER_TIMEOUT_SECS".toList,
      y.coalesceFollowerTimeoutSecs.map fun n => natText n.toNat),
    ("COALESCE_MAX_RETRIES".toList, y.coalesceMaxRetries.map fun n => natText n.toNat),
    ("COALESCE_ETAG_MAX_RETRIES".toList, y.coalesceEtagMaxRetries.map fun n => natText n.toNat)]

/-- `apply_env`; `none` if it panics. -/
def applyEnv (y : YamlConfig) (env : Env) : Option Env := y.settings.foldlM setMissing env

end YamlConfig

/-! ## The file -/

/-- What the process finds around it. -/
structure Host where
  env : Env
  pathExists : OsText → Bool
  /-- `dirs::config_dir` -/
  configDir : Option OsText
  readToString : OsText → Option Text
  /-- `serde_yaml::from_str` -/
  fromStr : Text → Option YamlConfig

/-- `discover`. -/
def discover (host : Host) : Option OsText :=
  let names := ["config.yaml".toList, "config.yml".toList]
  let home : List OsText :=
    match host.configDir with
    | none => []
    | some home => names.map (pathJoin (pathJoin home "apt-blitz".toList))
  let etc := names.map (pathJoin (ofText "/etc/apt-blitz".toList))
  (["apt-blitz.yaml", "apt-blitz.yml"].map (fun name => ofText name.toList) ++ home ++ etc).find?
    host.pathExists

/-- The configuration in the file, where it can be read and parsed. -/
def discovered (host : Host) : Option YamlConfig :=
  (discover host).bind fun path => (host.readToString path).bind host.fromStr

/-! ## The arguments -/

/-- The value parsers of clap. -/
structure Clap where
  u16 : OsText → Option UInt16
  u32 : OsText → Option UInt32
  u64 : OsText → Option UInt64
  string : OsText → Option Text
  pathBuf : OsText → Option OsText

/-- The value of an argument without a flag: that of its variable, or the
    default. -/
def argValue {T : Type} (env : Env) (name : String) (parse : OsText → Option T) (default : T) :
    Option T :=
  match env name.toList with
  | some v => parse v
  | none => some default

/-- `value_delimiter = ','`. -/
def Clap.delimited (clap : Clap) (v : OsText) : Option (List Text) :=
  (clap.string v).map (split ',')

/-- `parse_bytes_value`. -/
def Clap.bytes (clap : Clap) (v : OsText) : Option UInt64 :=
  (clap.string v).bind fun s => (parseBytes s).toOption

/-- `Cli`. -/
structure Cli where
  port : UInt16
  bind : Text
  connections : UInt64
  cacheDir : OsText
  maxCacheSize : UInt64
  maxCacheAge : UInt64
  configFile : Option Text
  urlMap : List Text
  upstreamProxy : Option Text
  noProxy : List Text
  maxConnectionsPerIp : UInt64
  maxTotalConnections : UInt64
  maxWorkers : UInt64
  upstreamBandwidth : UInt64
  perIpBandwidth : UInt64
  coalesceFollowerTimeoutSecs : UInt64
  coalesceMaxRetries : UInt32
  coalesceEtagMaxRetries : UInt32
  deriving DecidableEq, Repr

/-- The default of `cache_dir`. -/
def defaultCacheDir : OsText := ofText "/var/cache/apt-blitz".toList

/-- `Cli::parse`; `none` where clap ends the process. -/
def Cli.parse (clap : Clap) (env : Env) : Option Cli := do
  let port ← argValue env "PROXY_PORT" clap.u16 8080
  let bind ← argValue env "PROXY_BIND" clap.string "127.0.0.1".toList
  let connections ← argValue env "PROXY_CONNECTIONS" clap.u64 4
  let cacheDir ← argValue env "PROXY_CACHE_DIR" clap.pathBuf defaultCacheDir
  let maxCacheSize ← argValue env "PROXY_MAX_CACHE_SIZE" clap.bytes 1073741824
  let maxCacheAge ← argValue env "PROXY_MAX_CACHE_AGE" clap.u64 86400
  let configFile ← argValue env "PROXY_CONFIG_FILE" (fun v => (clap.string v).map some) none
  let urlMap ← argValue env "PROXY_URL_MAP" clap.delimited []
  let upstreamProxy ← argValue env "PROXY_UPSTREAM_PROXY" (fun v => (clap.string v).map some) none
  let noProxy ← argValue env "PROXY_NO_PROXY" clap.delimited []
  let maxConnectionsPerIp ← argValue env "PROXY_MAX_CONNECTIONS_PER_IP" clap.u64 0
  let maxTotalConnections ← argValue env "PROXY_MAX_TOTAL_CONNECTIONS" clap.u64 0
  let maxWorkers ← argValue env "PROXY_MAX_WORKERS" clap.u64 0
  let upstreamBandwidth ← argValue env "PROXY_UPSTREAM_BANDWIDTH" clap.bytes 0
  let perIpBandwidth ← argValue env "PROXY_PER_IP_BANDWIDTH" clap.bytes 0
  let coalesceFollowerTimeoutSecs ←
    argValue env "PROXY_COALESCE_FOLLOWER_TIMEOUT_SECS" clap.u64 50
  let coalesceMaxRetries ← argValue env "PROXY_COALESCE_MAX_RETRIES" clap.u32 3
  let coalesceEtagMaxRetries ← argValue env "PROXY_COALESCE_ETAG_MAX_RETRIES" clap.u32 8
  some {
    port, bind, connections, cacheDir, maxCacheSize, maxCacheAge, configFile, urlMap,
    upstreamProxy, noProxy, maxConnectionsPerIp, maxTotalConnections, maxWorkers,
    upstreamBandwidth, perIpBandwidth, coalesceFollowerTimeoutSecs, coalesceMaxRetries,
    coalesceEtagMaxRetries }

/-! ## Loading -/

/-- How `Config::load` fails. -/
inductive LoadError where
  /-- `failed to read config` -/
  | read (path : OsText)
  /-- `failed to parse config` -/
  | parse (path : OsText)
  /-- `set_var` panics -/
  | panic
  /-- clap ends the process -/
  | usage
  | invalid (text : Text)
  deriving DecidableEq, Repr

/-- The environment after the file has been applied to it. -/
def loadEnv (host : Host) : Except LoadError Env :=
  match discover host with
  | none => .ok host.env
  | some path =>
      match host.readToString path with
      | none => .error (.read path)
      | some content =>
          match host.fromStr content with
          | none => .error (.parse path)
          | some yaml =>
              match yaml.applyEnv host.env with
              | none => .error .panic
              | some env => .ok env

/-- The final configuration. -/
def Cli.build (cli : Cli) : Except LoadError Config :=
  match cli.urlMap.mapM UrlMap.parse with
  | .error e => .error (.invalid e)
  | .ok urlMaps =>
      match cli.upstreamProxy.mapM UpstreamProxy.parse with
      | .error e => .error (.invalid e)
      | .ok upstreamProxy =>
          .ok {
            port := cli.port
            bind := cli.bind
            connections := cli.connections
            cacheDir := cli.cacheDir
            maxCacheSize := cli.maxCacheSize
            maxCacheAge := cli.maxCacheAge
            urlMaps := urlMaps
            upstreamProxy := upstreamProxy
            noProxy := cli.noProxy
            maxConnectionsPerIp := cli.maxConnectionsPerIp
            maxTotalConnections := cli.maxTotalConnections
            maxWorkers := cli.maxWorkers
            upstreamBandwidth := cli.upstreamBandwidth
            perIpBandwidth := cli.perIpBandwidth
            coalesceFollowerTimeoutSecs := cli.coalesceFollowerTimeoutSecs
            coalesceMaxRetries := cli.coalesceMaxRetries
            coalesceEtagMaxRetries := cli.coalesceEtagMaxRetries }

/-- `Config::load` without flags. -/
def load (host : Host) (clap : Clap) : Except LoadError Config :=
  match loadEnv host with
  | .error e => .error e
  | .ok env =>
      match Cli.parse clap env with
      | none => .error .usage
      | some cli => cli.build

/-! ## The helpers of `blitzctl` -/

/-- `cache_dir_only`. -/
def cacheDirOnly (host : Host) : OsText :=
  match (discovered host).bind YamlConfig.cacheDir with
  | some dir => ofText dir
  | none =>
      match var host.env "PROXY_CACHE_DIR".toList with
      | some v => if v = [] then defaultCacheDir else ofText v
      | none => defaultCacheDir

/-- `max_cache_age_only`. -/
def maxCacheAgeOnly (host : Host) : UInt64 :=
  match (var host.env "PROXY_MAX_CACHE_AGE".toList).bind fun v => (parseU64 (trim v)).toOption with
  | some n => n
  | none => ((discovered host).bind YamlConfig.maxCacheAge).getD 86400

/-- `load_url_maps`. -/
def loadUrlMaps (host : Host) : Except Text (List UrlMap) :=
  match (var host.env "PROXY_URL_MAP".toList).filter fun v => trim v ≠ [] with
  | some v => (((split ',' v).map trim).filter fun s => s ≠ []).mapM UrlMap.parse
  | none =>
      match (discovered host).bind YamlConfig.urlMap with
      | some maps => maps.mapM UrlMap.parse
      | none => .ok []

end BlitzConfig
