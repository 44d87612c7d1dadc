import AptBlitz.Coalescer
import AptBlitz.FtpUrl
import AptBlitz.Headers

/-! # The leader of a URL

    What `handle_proxy_inner` and `handle_ftp_proxy` do once
    `resolve_with_coalescing` has made their request the leader, the task
    `spawn_cache_persistence` that they leave behind, and the operations of
    other requests on the same coalescer.  A step is one operation on the
    coalescer, or one answer of the world outside.

    The answers are results as the code gets them: of the HEAD request, of
    opening the temp file, of the download, of `sync`, of `xz --test`, of
    `Cache::store`.  What the task tells the failure tracker is left out. -/

namespace BlitzLeader

open RustText BlitzCoalescer BlitzFtpUrl BlitzHeaders

/-- The head of an upstream response. -/
structure Response where
  status : Nat
  headers : HeaderMap
  deriving DecidableEq

/-- `ProxyError`, with its texts. -/
inductive ProxyError where
  | badRequest (msg : Text)
  | upstream (e : Text)
  | badGateway (msg : Text)
  | internal (msg : Text)
  | serviceUnavailable (msg : Text)
  | tooManyRequests
  deriving DecidableEq

/-! ## The handler -/

/-- What the handler does next. -/
inductive Pc where
  /-- the HEAD request is out -/
  | head
  /-- `complete(&url)`, then `plain_proxy` -/
  | completePlain
  /-- `complete(&url)`, then the response to HEAD is passed on -/
  | completeForward (head : Response)
  /-- `plain_proxy` has sent its request -/
  | plain
  /-- `parse_ftp_url` -/
  | parseUrl
  /-- `check_ftp_size` -/
  | size (url : FtpUrl)
  /-- the temp file is being created -/
  | create (totalSize : Nat) (headers : HeaderMap)
  /-- `temp_file.set_len(total_size)` -/
  | setLen (totalSize : Nat) (headers : HeaderMap)
  /-- `attach_buffer`, then the tasks are spawned -/
  | attach (totalSize : Nat) (headers : HeaderMap)
  | returned (result : Except ProxyError Response)
  deriving DecidableEq

/-- What the world outside adds to a step of the handler. -/
inductive HandlerInput where
  | go
  /-- what sending a request gave: the error, or the response's head -/
  | sent (result : Except Text Response)
  /-- what logging in gave, and the reply to `SIZE` -/
  | sized (login : Except Text Unit) (reply : Except Text Text)
  /-- what creating the temp file, or setting its length, gave -/
  | file (result : Except Text Unit)

/-- After a HEAD response. -/
def afterHead (resp : Response) : Pc :=
  if 200 ≤ resp.status ∧ resp.status < 300 then
    match contentLength resp.headers with
    | some totalSize =>
        if canMultithread (some totalSize) (resp.headers.get "accept-ranges".toList) then
          .create totalSize (copyForwardHeaders resp.headers)
        else .completePlain
    | none => .completePlain
  else if resp.status = 405 ∨ resp.status = 501 then .completePlain
  else .completeForward resp

/-- The headers of a file that comes over FTP. -/
def ftpHeaders (totalSize : Nat) : HeaderMap :=
  [("content-type".toList, "application/octet-stream".toList),
    ("content-length".toList, natText totalSize), ("accept-ranges".toList, "bytes".toList)]

/-! ## The persistence task -/

/-- What the task does on its way out. -/
inductive Cleanup where
  /-- `buffer.set_failed()` -/
  | setFailed
  /-- `remove_file(buffer.file_path())` -/
  | removeTemp
  | fail (etagChanged : Bool)
  | complete
  deriving DecidableEq

/-- What the task of `spawn_cache_persistence` does next. -/
inductive Task where
  | unspawned
  /-- `download_handle.await` -/
  | download
  /-- `buffer.sync()` -/
  | sync
  /-- `verify_xz_integrity` -/
  | verify
  /-- `cache.store` -/
  | store
  | cleanup (todo : List Cleanup)
  deriving DecidableEq

/-- `is_xz_url`. -/
def isXzUrl (url : Text) : Bool := ".xz".toList.isSuffixOf (url.takeWhile (· != '?'))

variable {ε : Type}

/-- After the download; `none` when its task panicked. -/
def afterDownload (etagChangedFor : ε → Bool) : Option (Except ε Unit) → Task
  | some (.ok _) => .sync
  | some (.error e) => .cleanup [.setFailed, .removeTemp, .fail (etagChangedFor e)]
  | none => .cleanup [.setFailed, .removeTemp, .fail false]

/-- Behind `buffer.sync()`. -/
def afterSync (url : Text) (synced : Bool) : Task :=
  if synced then if isXzUrl url then .verify else .store
  else .cleanup [.removeTemp, .fail false]

/-- Behind `verify_xz_integrity`. -/
def afterVerify (intact : Bool) : Task :=
  if intact then .store else .cleanup [.setFailed, .removeTemp, .fail false]

/-- Behind `cache.store`. -/
def afterStore (stored : Bool) : Task :=
  if stored then .cleanup [.complete] else .cleanup [.removeTemp, .fail false]

/-- What the world outside adds to a step of the task. -/
inductive TaskInput (ε : Type) where
  | go
  | downloaded (result : Option (Except ε Unit))
  /-- `sync`, `verify_xz_integrity` or `store` went well -/
  | went (well : Bool)

/-! ## The system -/

/-- Who created an entry of the coalescer. -/
inductive Creator where
  | leader
  | other
  deriving DecidableEq

/-- The coalescer, and for each entry who created it. -/
structure Entries (β : Type) where
  coalescer : Coalescer β
  creator : Text → Creator

variable {β : Type}

/-- `who` does an operation. -/
def Entries.perform (s : Entries β) (who : Creator) (op : Op β) : Entries β where
  coalescer := s.coalescer.after op
  creator := if s.coalescer.creates op then Function.update s.creator op.url who else s.creator

/-- A leader's handler and its task, and the maps they share with the others.
    -/
structure Leader (β ε : Type) where
  url : Text
  /-- the buffer that the handler makes -/
  buffer : β
  etagChangedFor : ε → Bool
  entries : Entries β
  handler : Pc
  task : Task
  bufferFailed : Bool

/-- `resolve_with_coalescing` has returned `Leader`; `first` is what the
    handler does then. -/
def start (coalescer : Coalescer β) (url : Text) (channel : Nat) (buffer : β)
    (etagChangedFor : ε → Bool) (first : Pc) : Leader β ε where
  url := url
  buffer := buffer
  etagChangedFor := etagChangedFor
  entries := Entries.perform ⟨coalescer, fun _ => .other⟩ .leader (.register url channel)
  handler := first
  task := .unspawned
  bufferFailed := false

namespace Leader

variable (s : Leader β ε)

/-- The handler goes on to `pc`. -/
def goto (pc : Pc) : Leader β ε := { s with handler := pc }

/-- The handler, or its task, does an operation. -/
def perform (op : Op β) : Leader β ε := { s with entries := s.entries.perform .leader op }

end Leader

/-- One step of the handler. -/
def handlerStep (s : Leader β ε) (input : HandlerInput) : Option (Leader β ε) :=
  match s.handler, input with
  | .head, .sent (.error e) => some (s.goto (.returned (.error (.upstream e))))
  | .head, .sent (.ok resp) => some (s.goto (afterHead resp))
  | .completePlain, .go => some ((s.perform (.complete s.url)).goto .plain)
  | .completeForward resp, .go =>
      some ((s.perform (.complete s.url)).goto
        (.returned (.ok ⟨resp.status, copyForwardHeaders resp.headers⟩)))
  | .plain, .sent (.error e) => some (s.goto (.returned (.error (.upstream e))))
  | .plain, .sent (.ok resp) =>
      some (s.goto (.returned (.ok ⟨resp.status, copyForwardHeaders resp.headers⟩)))
  | .parseUrl, .go =>
      match parseFtpUrl s.url with
      | .error e => some (s.goto (.returned (.error (.badRequest e))))
      | .ok url => some (s.goto (.size url))
  | .size _, .sized login reply =>
      match checkFtpSize login reply with
      | .error e => some (s.goto (.returned (.error (.badGateway ("FTP SIZE failed: ".toList ++ e)))))
      | .ok totalSize => some (s.goto (.create totalSize (ftpHeaders totalSize)))
  | .create _ _, .file (.error e) =>
      some (s.goto (.returned (.error (.internal ("failed to create temp file: ".toList ++ e)))))
  | .create totalSize headers, .file (.ok _) =>
      some (s.goto (.setLen totalSize headers))
  | .setLen _ _, .file (.error e) =>
      some (s.goto (.returned (.error (.internal ("failed to allocate temp file: ".toList ++ e)))))
  | .setLen totalSize headers, .file (.ok _) => some (s.goto (.attach totalSize headers))
  | .attach _ headers, .go =>
      some ({ s.perform (.attachBuffer s.url s.buffer) with task := .download }.goto
        (.returned (.ok ⟨200, headers⟩)))
  | _, _ => none

/-- One effect of the task's way out; the disk is not part of the state. -/
def cleanupStep (s : Leader β ε) : Cleanup → Leader β ε
  | .setFailed => { s with bufferFailed := true }
  | .removeTemp => s
  | .fail etagChanged => s.perform (.fail s.url etagChanged)
  | .complete => s.perform (.complete s.url)

/-- One step of the persistence task. -/
def taskStep (s : Leader β ε) (input : TaskInput ε) : Option (Leader β ε) :=
  match s.task, input with
  | .download, .downloaded result =>
      some { s with task := afterDownload s.etagChangedFor result }
  | .sync, .went well => some { s with task := afterSync s.url well }
  | .verify, .went well => some { s with task := afterVerify well }
  | .store, .went well => some { s with task := afterStore well }
  | .cleanup (e :: todo), .go => some { cleanupStep s e with task := .cleanup todo }
  | _, _ => none

/-- Whose step it is. -/
inductive Act (β ε : Type) where
  | handler (input : HandlerInput)
  | task (input : TaskInput ε)
  /-- another request does an operation -/
  | other (op : Op β)

/-- One step of the leader, or of somebody else on the maps. -/
def step (s : Leader β ε) : Act β ε → Option (Leader β ε)
  | .handler input => handlerStep s input
  | .task input => taskStep s input
  | .other op => some { s with entries := s.entries.perform .other op }

end BlitzLeader
