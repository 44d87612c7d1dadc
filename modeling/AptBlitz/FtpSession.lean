import AptBlitz.FtpResults
import AptBlitz.FtpUrl
import AptBlitz.Library.Runs
import AptBlitz.Library.TextRules

/-! # What an FTP worker says

    The commands that a worker of `download_ftp_multithreaded` writes to its
    control connection: `connect_and_login`, then `PASV`, `REST` and `RETR`
    for each segment it claims, then `QUIT`.

    The login is one step of the downloader; here it is taken apart into its
    commands, each with what the server answered.  A command counts as said
    once the worker begins to write it. -/

namespace BlitzFtpSession

open BlitzBuffer BlitzFtp BlitzFtpSteps BlitzFtpUrl BlitzTransfers RustText Download Runs

variable {url : FtpUrl} {d d' : Download} {w v n totalSize start : Nat} {pc pc' : Pc}
  {input : Input} {starts : List Nat} {said : List Command} {acts : List Act} {file : Bytes}

/-! ## Commands -/

/-- The commands that a worker writes on its control connection. -/
inductive Command where
  | user (name : Text)
  | pass (word : Text)
  | typeI
  | pasv
  | rest (start : Nat)
  | retr (path : Text)
  | quit
  deriving DecidableEq

/-- The line of a command, without its end. -/
def Command.line : Command → Text
  | .user name => "USER ".toList ++ name
  | .pass word => "PASS ".toList ++ word
  | .typeI => "TYPE I".toList
  | .pasv => "PASV".toList
  | .rest start => "REST ".toList ++ natText start
  | .retr path => "RETR ".toList ++ path
  | .quit => "QUIT".toList

/-- What a command gave: its reply, an error, or a panic. -/
abbrev Answer := Option (Except Text Text)

/-- `cmd` after `cmd`, each with what it gave, up to the first that fails:
    what was said, and how it ended. -/
def sayAll : List (Command × Answer) → List Command × Option (Except Text Unit)
  | [] => ([], some (.ok ()))
  | (c, none) :: _ => ([c], none)
  | (c, some (.error msg)) :: _ => ([c], some (.error msg))
  | (c, some (.ok _)) :: rest =>
      let (said, result) := sayAll rest
      (c :: said, result)

/-- The answers to a login: to the connection, with its banner, and to the
    commands. -/
structure LoginAnswers where
  connect : Option (Except Text Unit)
  user : Answer
  pass : Answer
  typeI : Answer

/-- `USER`, `anonymous` where the URL names nobody. -/
def userCommand (url : FtpUrl) : Command := .user (url.username.getD "anonymous".toList)

/-- `PASS`, `anonymous@` where the URL has no password. -/
def passCommand (url : FtpUrl) : Command := .pass (url.password.getD "anonymous@".toList)

/-- `FtpControl::connect_and_login`: what it wrote and its result, if it
    returned. -/
def connectAndLogin (url : FtpUrl) (answers : LoginAnswers) :
    List Command × Option (Except Text Unit) :=
  if url.scheme = "ftps".toList then
    ([], some (.error "FTPS is not yet supported; use plain ftp:// instead".toList))
  else
    match answers.connect with
    | none => ([], none)
    | some (.error msg) => ([], some (.error msg))
    | some (.ok _) =>
        sayAll [(userCommand url, answers.user), (passCommand url, answers.pass),
          (.typeI, answers.typeI)]

/-! ## A download with its logins -/

/-- The acts of a download whose logins answer command by command. -/
inductive Act where
  /-- `connect_and_login` of worker `w` -/
  | login (w : Nat) (answers : LoginAnswers)
  | other (a : BlitzFtp.Act)

/-- The outcome of a login. -/
def outcome : Option (Except Text Unit) → Input
  | some result => .sent result
  | none => .panic false

/-- Whether the act is one of a worker that is still to log in. -/
def loggingIn (d : Download) : BlitzFtp.Act → Bool
  | .worker w _ =>
      match d.workers w with
      | .login => true
      | _ => false
  | .await => false

/-- `BlitzFtp.step` with the login taken apart into its commands. -/
def step (url : FtpUrl) (d : Download) : Act → Option Download
  | .login w answers =>
      match d.workers w with
      | .login => BlitzFtp.step d (.worker w (outcome (connectAndLogin url answers).2))
      | _ => none
  | .other a => if loggingIn d a then none else BlitzFtp.step d a

/-- What a worker writes with its step to `pc'`. -/
def written (url : FtpUrl) (pc : Pc) (input : Input) : Pc → List Command
  | .pasv _ => [.pasv]
  | .rest c _ => [.rest c.start]
  | .connect _ _ => [.retr url.path]
  | .quit => [.quit]
  | _ =>
      match pc, input with
      -- the write of `RETR` failed
      | .retr _ _, .sent _ => [.retr url.path]
      | _, _ => []

/-- What worker `w` says with a step of the download. -/
def saying (url : FtpUrl) (w : Nat) (d : Download) : Act → List Command
  | .login v answers => if v = w then (connectAndLogin url answers).1 else []
  | .other (.worker v input) =>
      match workerStep d v input with
      | some d' => if v = w then written url (d.workers w) input (d'.workers w) else []
      | none => []
  | .other .await => []

/-! ## The script -/

/-- The commands of a login that went through. -/
def loginCommands (url : FtpUrl) : List Command := [userCommand url, passCommand url, .typeI]

/-- `REST`, for a segment that does not start the file. -/
def restart (start : Nat) : List Command := if 0 < start then [.rest start] else []

/-- The commands for one segment. -/
def transfer (url : FtpUrl) (start : Nat) : List Command :=
  .pasv :: restart start ++ [.retr url.path]

/-- The commands for the segments that begin at `starts`. -/
def script (url : FtpUrl) (starts : List Nat) : List Command :=
  loginCommands url ++ starts.flatMap (transfer url)

/-- Where the segment begins that worker `w` claims with the event. -/
def claimedStart (w : Nat) (e : Event DataConnection) : Option Nat :=
  match e.what with
  | .claimed a _ => if e.worker = w then some a else none
  | _ => none

/-- Where the segments begin that worker `w` has claimed, in the order it
    claimed them. -/
def claimedStarts (w : Nat) (log : List (Event DataConnection)) : List Nat :=
  log.filterMap (claimedStart w)

/-- The script of one more claimed segment. -/
theorem script_append :
    script url (starts ++ [start]) = script url starts ++ transfer url start := by
  rw [script, script, List.flatMap_append, List.append_assoc, List.flatMap_singleton]

/-- `sayAll` says the commands in order, all of them when it succeeds. -/
theorem sayAll_spoken (cs : List (Command × Answer)) :
    (sayAll cs).1 <+: cs.map Prod.fst ∧
      ((sayAll cs).2 = some (.ok ()) → (sayAll cs).1 = cs.map Prod.fst) := by
  induction cs with
  | nil => exact ⟨List.prefix_rfl, fun _ => rfl⟩
  | cons p cs ih =>
      obtain ⟨c, answer⟩ := p
      rcases answer with _ | msg | reply
      · exact ⟨⟨cs.map Prod.fst, rfl⟩, nofun⟩
      · exact ⟨⟨cs.map Prod.fst, rfl⟩, nofun⟩
      · exact ⟨List.cons_prefix_cons.mpr ⟨rfl, ih.1⟩, fun hok => congrArg (c :: ·) (ih.2 hok)⟩

/-- A login says its commands in order, and all of them if it succeeds. -/
theorem connectAndLogin_spoken (answers : LoginAnswers) :
    (connectAndLogin url answers).1 <+: loginCommands url ∧
      ((connectAndLogin url answers).2 = some (.ok ()) →
        (connectAndLogin url answers).1 = loginCommands url) := by
  rw [connectAndLogin]
  by_cases hs : url.scheme = "ftps".toList
  · rw [if_pos hs]
    exact ⟨List.nil_prefix, nofun⟩
  · rw [if_neg hs]
    rcases answers.connect with _ | msg | u
    · exact ⟨List.nil_prefix, nofun⟩
    · exact ⟨List.nil_prefix, nofun⟩
    · exact sayAll_spoken [(userCommand url, answers.user), (passCommand url, answers.pass),
        (.typeI, answers.typeI)]

/-- An `ftps` URL is refused before a word is said. -/
theorem connectAndLogin_ftps (answers : LoginAnswers) (h : url.scheme = "ftps".toList) :
    (connectAndLogin url answers).1 = [] ∧
      ∃ msg, (connectAndLogin url answers).2 = some (.error msg) := by
  rw [connectAndLogin, if_pos h]
  exact ⟨rfl, _, rfl⟩

/-! ## What has been said -/

/-- What a worker has said when it is at `pc` and has claimed the segments
    that begin at `starts`. -/
def Told (url : FtpUrl) (pc : Pc) (starts : List Nat) (said : List Command) : Prop :=
  match pc with
  | .unspawned => starts = [] ∧ said = []
  | .permit => starts = [] ∧ said = []
  | .login => starts = [] ∧ said = []
  | .pasv c => ∃ before, starts = before ++ [c.start] ∧ said = script url before ++ [.pasv]
  | .rest c _ => ∃ before, starts = before ++ [c.start] ∧ 0 < c.start ∧
      said = script url before ++ [.pasv, .rest c.start]
  | .retr c _ => ∃ before, starts = before ++ [c.start] ∧
      said = script url before ++ .pasv :: restart c.start
  | .quit => said = script url starts ++ [.quit]
  | .ended (.ok _) => said = script url starts ++ [.quit]
  | .ended (.error _) => said <+: script url starts ++ [.quit]
  | .panicked _ => said <+: script url starts ++ [.quit]
  | _ => said = script url starts

/-- Whatever it is at, a worker has said the first part of its script. -/
theorem Told.within (h : Told url pc starts said) : said <+: script url starts ++ [.quit] := by
  have hpart : ∀ {before start part}, starts = before ++ [start] → part <+: transfer url start →
      script url before ++ part <+: script url starts ++ [.quit] := by
    rintro before start part rfl hpart
    rw [script_append]
    exact ((List.prefix_append_right_inj _).mpr hpart).trans (List.prefix_append ..)
  cases pc with
  | unspawned => exact h.2 ▸ List.nil_prefix
  | permit => exact h.2 ▸ List.nil_prefix
  | login => exact h.2 ▸ List.nil_prefix
  | pasv c =>
      obtain ⟨before, hstarts, rfl⟩ := h
      exact hpart hstarts ⟨_, rfl⟩
  | rest c addr =>
      obtain ⟨before, hstarts, hpos, rfl⟩ := h
      refine hpart hstarts ⟨[.retr url.path], ?_⟩
      rw [transfer, restart, if_pos hpos]
  | retr c conn =>
      obtain ⟨before, hstarts, rfl⟩ := h
      exact hpart hstarts ⟨[.retr url.path], rfl⟩
  | quit => exact h ▸ List.prefix_rfl
  | ended r =>
      cases r with
      | ok u => exact h ▸ List.prefix_rfl
      | error e => exact h
  | panicked lost => exact h
  | _ =>
      rw [show said = script url starts from h]
      exact List.prefix_append ..

/-- The `RETR` of which the write failed was the next of the script. -/
theorem Told.retr_spoken {c : Claim} {conn : DataConnection}
    (h : Told url (.retr c conn) starts said) : said ++ [.retr url.path] = script url starts := by
  obtain ⟨before, rfl, rfl⟩ := h
  rw [script_append, List.append_assoc]
  rfl

/-! ## A step of a worker -/

/-- The starts that a worker claimed, one event later. -/
theorem claimedStarts_snoc {log : List (Event DataConnection)} {e : Event DataConnection} :
    claimedStarts w (log ++ [e]) = claimedStarts w log ++ (claimedStart w e).toList := by
  rw [claimedStarts, List.filterMap_append]
  refine congrArg _ ?_
  cases h : claimedStart w e with
  | none => exact List.filterMap_cons_none h
  | some a => exact List.filterMap_cons_some h

theorem claimedStarts_of_none {log : List (Event DataConnection)} {e : Event DataConnection}
    (h : claimedStart w e = none) : claimedStarts w (log ++ [e]) = claimedStarts w log := by
  rw [claimedStarts_snoc, h]
  exact List.append_nil _

theorem claimedStart_of_ne {id : Nat} {x : What DataConnection} (hv : v ≠ w) :
    claimedStart w ⟨v, id, x⟩ = none := by
  cases x with
  | claimed a z => exact if_neg hv
  | _ => rfl

/-- The steps within a segment, and from one to the next. -/
theorem Told.moves (h : Told url pc starts said) (hm : Moves pc pc') (hlogin : pc ≠ .login) :
    Told url pc' starts (said ++ written url pc input pc') := by
  have hnothing : ∀ {pc'}, written url pc input pc' = [] → Told url pc' starts said →
      Told url pc' starts (said ++ written url pc input pc') := by
    intro pc' hw hsame
    rw [hw, List.append_nil]
    exact hsame
  cases hm with
  | login => exact hnothing rfl h
  | loggedIn => exact absurd rfl hlogin
  | claim => exact hnothing rfl h
  | rest hpos =>
      obtain ⟨before, hstarts, rfl⟩ := h
      refine ⟨before, hstarts, hpos, ?_⟩
      rw [List.append_assoc]
      rfl
  | fromStart hzero =>
      obtain ⟨before, hstarts, rfl⟩ := h
      refine hnothing rfl ⟨before, hstarts, ?_⟩
      rw [restart, if_neg (by omega)]
  | rested =>
      obtain ⟨before, hstarts, hpos, rfl⟩ := h
      refine hnothing rfl ⟨before, hstarts, ?_⟩
      rw [restart, if_pos hpos]
  | retr => exact h.retr_spoken
  | first => exact hnothing rfl h
  | nothing => exact hnothing rfl h
  | replied => exact hnothing rfl h
  | again => exact hnothing rfl h

/-- A worker that stops has said the first part of its script, with the
    `RETR` it could not write. -/
theorem Told.stops (h : Told url pc starts said) (hover : pc'.joinResult ≠ none)
    (hok : pc' ≠ .ended (.ok ())) : Told url pc' starts (said ++ written url pc input pc') := by
  have hsaid : said ++ written url pc input pc' <+: script url starts ++ [.quit] := by
    have hretr : written url pc input pc' = [] ∨
        (∃ c conn, pc = .retr c conn) ∧ written url pc input pc' = [.retr url.path] := by
      cases pc' with
      | ended r =>
          simp only [written]
          split
          next => exact Or.inr ⟨⟨_, _, rfl⟩, rfl⟩
          next => exact Or.inl rfl
      | panicked lost =>
          simp only [written]
          split
          next => exact Or.inr ⟨⟨_, _, rfl⟩, rfl⟩
          next => exact Or.inl rfl
      | _ => exact absurd rfl hover
    rcases hretr with hnone | ⟨⟨c, conn, rfl⟩, hone⟩
    · rw [hnone, List.append_nil]
      exact h.within
    · rw [hone, h.retr_spoken]
      exact List.prefix_append ..
  cases pc' with
  | ended r =>
      cases r with
      | ok u => exact absurd rfl hok
      | error e => exact hsaid
  | panicked lost => exact hsaid
  | _ => exact absurd rfl hover

/-- **Step**: what a worker has said follows its script, but for the login. -/
theorem told_worked (h : Told url (d.workers w) (claimedStarts w d.log) said)
    (hw : Worked d w input d') (hlogin : d.workers w ≠ .login) :
    Told url (d'.workers w) (claimedStarts w d'.log)
      (said ++ written url (d.workers w) input (d'.workers w)) := by
  -- where the worker goes, with a note that claims nothing
  have hgoes : ∀ {d₁ : Download} {pc pc'}, d.workers w = pc → d₁.workers w = pc' →
      claimedStarts w d₁.log = claimedStarts w d.log →
      (Told url pc (claimedStarts w d.log) said →
        Told url pc' (claimedStarts w d.log) (said ++ written url pc input pc')) →
      Told url (d₁.workers w) (claimedStarts w d₁.log)
        (said ++ written url (d.workers w) input (d₁.workers w)) := by
    intro d₁ pc pc' hpc hpc' hlog hstep
    rw [hpc', hlog, hpc]
    exact hstep (hpc ▸ h)
  have hself : ∀ {d₁ : Download} {pc}, (d₁.goto w pc).workers w = pc := Function.update_self ..
  have hquiet : ∀ {pc}, Told url pc (claimedStarts w d.log) said →
      Told url pc (claimedStarts w d.log) (said ++ []) := by
    intro pc h
    rw [List.append_nil]
    exact h
  cases hw with
  | moved hm => exact hgoes rfl hself rfl fun h => h.moves hm hlogin
  | failed => exact hgoes rfl hself rfl fun h => h.stops (by rintro ⟨⟩) (by rintro ⟨⟩)
  | exhausted hw => exact hgoes hw hself rfl fun h => congrArg (· ++ [Command.quit]) h
  | cas hw => exact hgoes hw hself rfl fun h => hquiet h
  | @push _ p a z hw =>
      have hlog : claimedStarts w (d.log ++ [⟨w, d.buf.segments.length, .claimed a z⟩])
          = claimedStarts w d.log ++ [a] := by
        rw [claimedStarts_snoc, show claimedStart w ⟨w, _, .claimed a z⟩ = some a from if_pos rfl]
        rfl
      rw [hw] at h
      have hnew : Told url (.pasv ⟨p, d.buf.segments.length, a, z⟩) (claimedStarts w d.log ++ [a])
          (said ++ [.pasv]) := ⟨_, rfl, congrArg (· ++ [Command.pasv]) h⟩
      show Told url ((d.goto w _).workers w) (claimedStarts w (d.log ++ [_]))
        (said ++ written url _ _ ((d.goto w _).workers w))
      rw [hself, hlog]
      exact hnew
  | opened hw => exact hgoes hw hself (claimedStarts_of_none rfl) fun h => hquiet h
  | received hw => exact hgoes hw hself (claimedStarts_of_none rfl) fun h => hquiet h
  | closedEarly hw => exact hgoes hw hself rfl fun h => hquiet h
  | @wrote _ c k data b results hw hwrite =>
      refine hgoes hw hself (claimedStarts_of_none rfl) fun h => ?_
      rw [readLoop]
      split
      next => exact hquiet h
      next => exact hquiet h
  | wroteSome hw => exact hgoes hw hself rfl fun h => h.stops (by rintro ⟨⟩) (by rintro ⟨⟩)
  | ready hw => exact hgoes hw hself (claimedStarts_of_none rfl) fun h => hquiet h
  | unlisted hw => exact hgoes hw hself rfl fun h => hquiet h
  | counted hw => exact hgoes hw hself rfl fun h => hquiet h
  | finished hw => exact hgoes hw hself rfl fun h => hquiet h
  | panicked => exact hgoes rfl hself rfl fun h => h.stops (by rintro ⟨⟩) (by rintro ⟨⟩)

/-- A worker's step tells nothing about what another one says. -/
theorem worked_others (hw : Worked d v input d') (hv : v ≠ w) :
    d'.workers w = d.workers w ∧ claimedStarts w d'.log = claimedStarts w d.log := by
  have hsame : ∀ {pc}, Function.update d.workers v pc w = d.workers w :=
    Function.update_of_ne hv.symm ..
  have hnoted : ∀ {id x}, claimedStarts w (d.log ++ [⟨v, id, x⟩]) = claimedStarts w d.log :=
    claimedStarts_of_none (claimedStart_of_ne hv)
  cases hw with
  | push => exact ⟨hsame, hnoted⟩
  | opened => exact ⟨hsame, hnoted⟩
  | received => exact ⟨hsame, hnoted⟩
  | wrote => exact ⟨hsame, hnoted⟩
  | ready => exact ⟨hsame, hnoted⟩
  | _ => exact ⟨hsame, rfl⟩

/-- The outcome of a login. -/
theorem told_login (answers : LoginAnswers) (hw : d.workers w = .login)
    (h : Told url (d.workers w) (claimedStarts w d.log) said)
    (hs : workerStep d w (outcome (connectAndLogin url answers).2) = some d') :
    Told url (d'.workers w) (claimedStarts w d'.log) (said ++ (connectAndLogin url answers).1) := by
  rw [hw] at h
  obtain ⟨hstarts, rfl⟩ := h
  obtain ⟨hpart, hall⟩ := @connectAndLogin_spoken url answers
  have hover : (connectAndLogin url answers).1 <+: script url [] ++ [.quit] :=
    hpart.trans (by rw [script, List.append_assoc]; exact List.prefix_append ..)
  rw [List.nil_append]
  rcases hr : (connectAndLogin url answers).2 with _ | msg | u
  · rw [hr] at hs
    simp only [workerStep, outcome, panicStep, hw, Option.some.injEq] at hs
    subst hs
    show Told url ((d.goto w _).workers w) (claimedStarts w d.log) _
    rw [show (d.goto w (.panicked none)).workers w = .panicked none from Function.update_self ..,
      hstarts]
    exact hover
  · rw [hr] at hs
    simp only [workerStep, outcome, hw, Option.some.injEq] at hs
    subst hs
    show Told url ((d.goto w _).workers w) (claimedStarts w d.log) _
    rw [show (d.goto w (.ended (.error (.ftp msg)))).workers w = _ from Function.update_self ..,
      hstarts]
    exact hover
  · rw [hr] at hs
    simp only [workerStep, outcome, hw, Option.some.injEq] at hs
    subst hs
    show Told url ((d.goto w _).workers w) (claimedStarts w d.log) _
    rw [show (d.goto w (.top initialPreferred)).workers w = _ from Function.update_self .., hstarts,
      hall hr]
    exact (List.append_nil _).symm

/-! ## A worker without a login -/

/-- Where a worker is that has logged in. -/
def loggedIn : Pc → Bool
  | .unspawned => false
  | .permit => false
  | .login => false
  | .ended (.error _) => false
  | .panicked _ => false
  | _ => true

/-- A worker that has not logged in says nothing but its login. -/
theorem loggedIn_worked (hw : Worked d w input d') (hlogin : d.workers w ≠ .login)
    (h : loggedIn (d.workers w) = false) :
    loggedIn (d'.workers w) = false ∧ written url (d.workers w) input (d'.workers w) = [] := by
  have hgoes : ∀ {d₁ : Download} {pc pc'}, d.workers w = pc → d₁.workers w = pc' →
      (loggedIn pc = false → loggedIn pc' = false ∧ written url pc input pc' = []) →
      loggedIn (d₁.workers w) = false ∧
        written url (d.workers w) input (d₁.workers w) = [] := by
    intro d₁ pc pc' hpc hpc' hstep
    rw [hpc', hpc]
    exact hstep (hpc ▸ h)
  have hself : ∀ {d₁ : Download} {pc}, (d₁.goto w pc).workers w = pc := Function.update_self ..
  have hstops : ∀ {pc pc'}, (∃ e, pc' = .ended (.error e)) ∨ (∃ lost, pc' = .panicked lost) →
      loggedIn pc = false → loggedIn pc' = false ∧ written url pc input pc' = [] := by
    intro pc pc' hstop hpc
    have hnot : ∀ c conn, pc ≠ .retr c conn := by
      rintro c conn rfl
      cases hpc
    rcases hstop with ⟨e, rfl⟩ | ⟨lost, rfl⟩
    all_goals
      refine ⟨rfl, ?_⟩
      simp only [written]
      split
      next => exact absurd rfl (hnot _ _)
      next => rfl
  cases hw with
  | moved hm =>
      refine hgoes rfl hself fun hpc => ?_
      generalize d.workers w = pc at hm hpc hlogin
      cases hm with
      | login => exact ⟨rfl, rfl⟩
      | loggedIn => exact absurd rfl hlogin
      | _ => cases hpc
  | failed => exact hgoes rfl hself (hstops (Or.inl ⟨_, rfl⟩))
  | wroteSome hw => exact hgoes hw hself nofun
  | panicked => exact hgoes rfl hself (hstops (Or.inr ⟨_, rfl⟩))
  | exhausted hw => exact hgoes hw hself nofun
  | cas hw => exact hgoes hw hself nofun
  | push hw => exact hgoes hw hself nofun
  | opened hw => exact hgoes hw hself nofun
  | received hw => exact hgoes hw hself nofun
  | closedEarly hw => exact hgoes hw hself nofun
  | wrote hw => exact hgoes hw hself nofun
  | ready hw => exact hgoes hw hself nofun
  | unlisted hw => exact hgoes hw hself nofun
  | counted hw => exact hgoes hw hself nofun
  | finished hw => exact hgoes hw hself nofun

/-! ## Whole runs -/

/-- What worker `w` has said so far. -/
structure Session (url : FtpUrl) (w : Nat) (d : Download) (said : List Command) : Prop where
  told : Told url (d.workers w) (claimedStarts w d.log) said
  silent : url.scheme = "ftps".toList → loggedIn (d.workers w) = false ∧ said = []

/-- At the start nothing has been said. -/
theorem session_start : Session url w (BlitzFtp.start n totalSize file) [] := by
  have hw : (BlitzFtp.start n totalSize file).workers w = .permit ∨
      (BlitzFtp.start n totalSize file).workers w = .unspawned := by
    have hpc : (BlitzFtp.start n totalSize file).workers w
        = if w < n then .permit else .unspawned := rfl
    rw [hpc]
    split
    next => exact Or.inl rfl
    next => exact Or.inr rfl
  rcases hw with hw | hw
  all_goals exact ⟨by rw [hw]; exact ⟨rfl, rfl⟩, fun _ => ⟨by rw [hw]; rfl, rfl⟩⟩

/-- Whatever another worker does. -/
theorem Session.others (h : Session url w d said) (hw : Worked d v input d') (hv : v ≠ w) :
    Session url w d' (said ++ []) := by
  obtain ⟨hpc, hlog⟩ := worked_others hw hv
  rw [List.append_nil]
  exact ⟨by rw [hpc, hlog]; exact h.told, by rw [hpc]; exact h.silent⟩

/-- The login keeps the session to its script. -/
theorem Session.login (answers : LoginAnswers) (h : Session url w d said)
    (hw : d.workers w = .login)
    (hs : workerStep d w (outcome (connectAndLogin url answers).2) = some d') :
    Session url w d' (said ++ (connectAndLogin url answers).1) := by
  refine ⟨told_login answers hw h.told hs, fun hftps => ?_⟩
  obtain ⟨hnone, msg, hr⟩ := connectAndLogin_ftps answers hftps
  rw [hr] at hs
  simp only [workerStep, outcome, hw, Option.some.injEq] at hs
  subst hs
  rw [hnone, (h.silent hftps).2, show (fail d w (.ftp msg)).workers w = .ended (.error (.ftp msg))
    from Function.update_self ..]
  exact ⟨rfl, rfl⟩

/-- Every other step of the worker keeps the session to its script. -/
theorem Session.worked (h : Session url w d said) (hw : Worked d w input d')
    (hlogin : d.workers w ≠ .login) :
    Session url w d' (said ++ written url (d.workers w) input (d'.workers w)) := by
  refine ⟨told_worked h.told hw hlogin, fun hftps => ?_⟩
  obtain ⟨hout, hnone⟩ := h.silent hftps
  obtain ⟨hout', hquiet⟩ := @loggedIn_worked url _ _ _ _ hw hlogin hout
  rw [hnone, hquiet]
  exact ⟨hout', rfl⟩

/-- **Step**: what a worker has said follows its script. -/
theorem session_step (d : Download) (a : Act) (d' : Download) (said : List Command)
    (h : Session url w d said) (hs : step url d a = some d') :
    Session url w d' (said ++ saying url w d a) := by
  cases a with
  | login v answers =>
      simp only [step] at hs
      split at hs
      next hlogin =>
        by_cases hv : v = w
        · subst hv
          rw [saying, if_pos rfl]
          exact h.login answers hlogin hs
        · rw [saying, if_neg hv]
          exact h.others (worked_of_workerStep hs) hv
      next => cases hs
  | other a =>
      simp only [step] at hs
      split at hs
      next => cases hs
      next hnot =>
        cases a with
        | worker v input =>
            have hs : workerStep d v input = some d' := hs
            simp only [saying, hs]
            by_cases hv : v = w
            · subst hv
              rw [if_pos rfl]
              refine h.worked (worked_of_workerStep hs) fun hlogin => hnot ?_
              simp only [loggingIn, hlogin]
            · rw [if_neg hv]
              exact h.others (worked_of_workerStep hs) hv
        | await =>
            show Session url w d' (said ++ [])
            rw [List.append_nil]
            cases awaited_of_awaitStep hs <;> exact ⟨h.told, h.silent⟩

/-- What worker `w` says in a run. -/
def spoken (url : FtpUrl) (w : Nat) (d : Download) (acts : List Act) : List Command :=
  outputs (step url) (saying url w) d acts

/-- **Run** of a download: what each worker said is in its script. -/
theorem session_run (hrun : run (step url) (BlitzFtp.start n totalSize file) acts = some d)
    (w : Nat) : Session url w d (spoken url w (BlitzFtp.start n totalSize file) acts) :=
  outputs_invariant session_step session_start hrun

/-- **The control connection**: in every run, whatever the server answers and
    wherever the worker stops, what a worker says is the first part of its
    login, the commands for the segments it claimed, in the order it claimed
    them, and `QUIT`; it has said all of it when it returns `Ok(())`.  For an
    `ftps` URL it says nothing, least of all a password. -/
theorem control_session
    (hrun : run (step url) (BlitzFtp.start n totalSize file) acts = some d) (w : Nat) :
    spoken url w (BlitzFtp.start n totalSize file) acts
        <+: script url (claimedStarts w d.log) ++ [.quit] ∧
      (d.workers w = .ended (.ok ()) → spoken url w (BlitzFtp.start n totalSize file) acts
        = script url (claimedStarts w d.log) ++ [.quit]) ∧
      (url.scheme = "ftps".toList → spoken url w (BlitzFtp.start n totalSize file) acts = []) := by
  have h := session_run hrun w
  refine ⟨h.told.within, fun hok => ?_, fun hftps => (h.silent hftps).2⟩
  have htold := h.told
  rw [hok] at htold
  exact htold

/-- `ftp://deb/f`. -/
def anonymousUrl : FtpUrl := ⟨"ftp".toList, none, none, "deb".toList, 21, "/f".toList⟩

/-- A login that goes well, and the download of a one-byte file. -/
def oneByteSaid : List Act :=
  .other (.worker 0 .go) :: .login 0 ⟨some (.ok ()), some (.ok []), some (.ok []), some (.ok [])⟩ ::
    (BlitzFtpResults.oneByte.drop 2).map .other

theorem control_session_oneByte :
    ∃ d, run (step anonymousUrl) (BlitzFtp.start 1 1 [0]) oneByteSaid = some d ∧
      spoken anonymousUrl 0 (BlitzFtp.start 1 1 [0]) oneByteSaid
        <+: script anonymousUrl (claimedStarts 0 d.log) ++ [.quit] := by
  have hany : (run (step anonymousUrl) (BlitzFtp.start 1 1 [0]) oneByteSaid).any (fun d =>
      decide (d.coord = .returned (.ok ()))) = true := by decide
  obtain ⟨d, hrun, -⟩ := run_of_any hany
  exact ⟨d, hrun, (control_session hrun 0).1⟩

/-! ## On the wire -/

/-- What the commands are on the wire. -/
def wire (cs : List Command) : Text := cs.flatMap fun c => c.line ++ ['\r', '\n']

/-- The lines on the wire are joined by the line feeds. -/
theorem wire_eq_join (cs : List Command) :
    wire cs = join ['\n'] (cs.map (fun c => c.line ++ ['\r']) ++ [[]]) := by
  induction cs with
  | nil => exact List.intercalate_singleton.symm
  | cons c cs ih =>
      have hne : cs.map (fun c => c.line ++ ['\r']) ++ [[]] ≠ [] :=
        List.append_ne_nil_of_right_ne_nil _ (List.cons_ne_nil _ _)
      rw [List.map_cons, List.cons_append, join, List.intercalate_cons_of_ne_nil hne, ← join, ← ih,
        wire, List.flatMap_cons, wire, List.append_assoc, List.append_assoc, List.append_assoc]
      rfl

/-- **Lines and commands**: a server that reads line by line reads the
    commands that were said, and nothing else, if and only if none of them
    has a line feed in it. -/
theorem split_wire_iff (cs : List Command) :
    split '\n' (wire cs) = cs.map (fun c => c.line ++ ['\r']) ++ [[]] ↔
      ∀ c ∈ cs, '\n' ∉ c.line := by
  have hne : cs.map (fun c => c.line ++ ['\r']) ++ [[]] ≠ [] :=
    List.append_ne_nil_of_right_ne_nil _ (List.cons_ne_nil _ _)
  constructor
  · intro h c hc hlf
    have hmem : c.line ++ ['\r'] ∈ split '\n' (wire cs) := by
      rw [h]
      exact List.mem_append_left _ (List.mem_map_of_mem hc)
    exact not_mem_of_mem_split hmem (List.mem_append_left _ hlf)
  · intro h
    rw [wire_eq_join]
    refine split_join hne fun part hpart => ?_
    rcases List.mem_append.mp hpart with hline | hend
    · obtain ⟨c, hc, rfl⟩ := List.mem_map.mp hline
      intro hlf
      rcases List.mem_append.mp hlf with hlf | hcr
      · exact h c hc hlf
      · exact absurd (List.mem_singleton.mp hcr) (by decide)
    · rw [List.mem_singleton.mp hend]
      exact List.not_mem_nil

/-- A character that stands in no part of the URL. -/
structure Without (c : Char) (url : FtpUrl) : Prop where
  username : ∀ name, url.username = some name → c ∉ name
  password : ∀ word, url.password = some word → c ∉ word
  path : c ∉ url.path

theorem not_mem_splitUserinfo {c : Char} {rest userinfo hostportpath : Text} (h : c ∉ rest)
    (hs : splitUserinfo rest = (userinfo, hostportpath)) : c ∉ userinfo ∧ c ∉ hostportpath := by
  have hhead : c ∉ rest.takeWhile (· != '/') := fun hc => h ((List.takeWhile_sublist _).mem hc)
  have htail : c ∉ rest.dropWhile (· != '/') := fun hc => h ((List.dropWhile_sublist _).mem hc)
  rw [splitUserinfo] at hs
  split at hs
  next ui hostport hsplit =>
    obtain ⟨heq, -⟩ := rsplitOnce_some hsplit
    cases hs
    rw [heq] at hhead
    exact ⟨fun hc => hhead (List.mem_append_left _ hc), fun hc =>
      (List.mem_append.mp hc).elim
        (fun hc => hhead (List.mem_append_right _ (List.mem_cons_of_mem _ hc))) htail⟩
  next =>
    cases hs
    exact ⟨List.not_mem_nil, h⟩

theorem not_mem_splitCredentials {c : Char} {userinfo : Text} {username password : Option Text}
    (h : c ∉ userinfo) (hs : splitCredentials userinfo = (username, password)) :
    (∀ name, username = some name → c ∉ name) ∧ (∀ word, password = some word → c ∉ word) := by
  rw [splitCredentials] at hs
  split at hs
  next =>
    cases hs
    exact ⟨nofun, nofun⟩
  next =>
    split at hs
    next u p hsplit =>
      obtain ⟨heq, -⟩ := splitOnce_some hsplit
      cases hs
      rw [heq] at h
      exact ⟨fun _ hu hc => h (List.mem_append_left _ (Option.some.inj hu ▸ hc)), fun _ hp hc =>
        h (List.mem_append_right _ (List.mem_cons_of_mem _ (Option.some.inj hp ▸ hc)))⟩
    next =>
      cases hs
      exact ⟨fun _ hu hc => h (Option.some.inj hu ▸ hc), nofun⟩

/-- A character that is not in the authority is not in the path either. -/
theorem not_mem_splitPath {c : Char} {hostportpath hostport path : Text} (hc : c ≠ '/')
    (h : c ∉ hostportpath) (hs : splitPath hostportpath = (hostport, path)) : c ∉ path := by
  rw [splitPath] at hs
  split at hs
  next =>
    cases hs
    exact fun hmem => hc (List.mem_singleton.mp hmem)
  next =>
    cases hs
    exact fun hmem => h ((List.dropWhile_sublist _).mem hmem)

/-- Normalising a path brings in no character but `/`. -/
theorem not_mem_normalizeFtpPath {c : Char} {path : Text} (hc : c ≠ '/') (h : c ∉ path) :
    c ∉ normalizeFtpPath path := by
  have hparts : ∀ parts segments : List Text, (∀ part ∈ parts, c ∉ part) →
      (∀ part ∈ segments, c ∉ part) → ∀ part ∈ parts.foldl pushPart segments, c ∉ part := by
    intro parts
    induction parts with
    | nil => exact fun _ _ hsegs => hsegs
    | cons part parts ih =>
        intro segments hparts hsegs
        refine ih _ (fun p hp => hparts p (List.mem_cons_of_mem _ hp)) fun p hp => ?_
        rw [pushPart] at hp
        split at hp
        next => exact hsegs p hp
        next =>
          split at hp
          next => exact hsegs p (List.mem_of_mem_dropLast hp)
          next =>
            rcases List.mem_append.mp hp with hp | hp
            · exact hsegs p hp
            · exact List.mem_singleton.mp hp ▸ hparts part List.mem_cons_self
  rw [normalizeFtpPath]
  intro hmem
  rcases List.mem_cons.mp hmem with rfl | hmem
  · exact hc rfl
  · rcases mem_join hmem with rfl | ⟨part, hpart, hcp⟩
    · exact hc rfl
    · exact hparts _ [] (fun p hp hcp => h (mem_of_mem_split hp hcp)) nofun part hpart hcp

/-- What the URL does not have, none of its parts has. -/
theorem without_of_parse {c : Char} {text : Text} (hc : c ≠ '/') (h : c ∉ text)
    (hurl : parseFtpUrl text = .ok url) : Without c url := by
  rw [parseFtpUrl] at hurl
  split at hurl
  next => cases hurl
  next scheme rest hscheme =>
    have hrest : c ∉ rest := by
      intro hmem
      rw [stripScheme] at hscheme
      split at hscheme
      next hstrip =>
        cases hscheme
        exact h (stripPrefix_some hstrip ▸ List.mem_append_right _ hmem)
      next =>
        obtain ⟨rest', hstrip, heq⟩ := Option.map_eq_some_iff.mp hscheme
        cases heq
        exact h (stripPrefix_some hstrip ▸ List.mem_append_right _ hmem)
    rcases hui : splitUserinfo rest with ⟨userinfo, hostportpath⟩
    rcases hcred : splitCredentials userinfo with ⟨username, password⟩
    rcases hpath : splitPath hostportpath with ⟨hostport, path⟩
    simp only [hui, hcred, hpath] at hurl
    split at hurl
    next => cases hurl
    next =>
      split at hurl
      next => cases hurl
      next =>
        cases hurl
        obtain ⟨huser, hhost⟩ := not_mem_splitUserinfo hrest hui
        obtain ⟨hname, hword⟩ := not_mem_splitCredentials huser hcred
        exact ⟨hname, hword, not_mem_normalizeFtpPath hc (not_mem_splitPath hc hhost hpath)⟩

/-- The lines of a worker's commands have what the URL has, and no line feed
    of their own. -/
theorem lf_not_mem_script (h : Without '\n' url) (starts : List Nat) :
    ∀ c ∈ script url starts ++ [.quit], '\n' ∉ c.line := by
  have hword : ∀ {word text : Text}, '\n' ∉ word → '\n' ∉ text → '\n' ∉ word ++ text :=
    fun hword htext hlf => (List.mem_append.mp hlf).elim hword htext
  have hgetD : ∀ {value : Option Text} {default : Text}, (∀ v, value = some v → '\n' ∉ v) →
      '\n' ∉ default → '\n' ∉ value.getD default := by
    intro value default hvalue hdefault
    cases value with
    | none => exact hdefault
    | some v => exact hvalue v rfl
  intro c hc
  rcases List.mem_append.mp hc with hscript | hquit
  · rcases List.mem_append.mp hscript with hlogin | htransfers
    · rcases List.mem_cons.mp hlogin with rfl | hlogin
      · exact hword (by decide) (hgetD h.username (by decide))
      · rcases List.mem_cons.mp hlogin with rfl | hlogin
        · exact hword (by decide) (hgetD h.password (by decide))
        · rw [List.mem_singleton.mp hlogin]
          decide
    · obtain ⟨start, -, hmem⟩ := List.mem_flatMap.mp htransfers
      rcases List.mem_cons.mp hmem with rfl | hmem
      · decide
      · rcases List.mem_append.mp hmem with hrest | hretr
        · rw [restart] at hrest
          split at hrest
          next =>
            rw [List.mem_singleton.mp hrest]
            refine hword (by decide) fun hlf => ?_
            exact absurd (Nat.isDigit_of_mem_toDigits (by decide) (by decide) hlf) (by decide)
          next => cases hrest
        · rw [List.mem_singleton.mp hretr]
          exact hword (by decide) h.path
  · rw [List.mem_singleton.mp hquit]
    decide

/-- **No command out of a URL**: where the requested URL has no line feed, a
    server that reads line by line reads, in every run and from every worker,
    the commands the worker says, and nothing else. -/
theorem server_reads_commands {text : Text} (hurl : parseFtpUrl text = .ok url)
    (hlf : '\n' ∉ text)
    (hrun : run (step url) (BlitzFtp.start n totalSize file) acts = some d) (w : Nat) :
    split '\n' (wire (spoken url w (BlitzFtp.start n totalSize file) acts))
      = (spoken url w (BlitzFtp.start n totalSize file) acts).map (fun c => c.line ++ ['\r'])
        ++ [[]] := by
  rw [split_wire_iff]
  exact fun c hc => lf_not_mem_script (without_of_parse (by decide) hlf hurl) _ c
    ((session_run hrun w).told.within.subset hc)

theorem server_reads_commands_oneByte :
    split '\n' (wire (spoken anonymousUrl 0 (BlitzFtp.start 1 1 [0]) oneByteSaid))
      = (spoken anonymousUrl 0 (BlitzFtp.start 1 1 [0]) oneByteSaid).map (fun c => c.line ++ ['\r'])
        ++ [[]] := by
  have hany : (run (step anonymousUrl) (BlitzFtp.start 1 1 [0]) oneByteSaid).any (fun d =>
      decide (d.coord = .returned (.ok ()))) = true := by decide
  obtain ⟨d, hrun, -⟩ := run_of_any hany
  have hurl : parseFtpUrl "ftp://deb/f".toList = .ok anonymousUrl := by rfl
  exact server_reads_commands hurl (by decide) hrun 0

end BlitzFtpSession
