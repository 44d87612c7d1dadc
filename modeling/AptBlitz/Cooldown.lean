import AptBlitz.Leader
import AptBlitz.Library.Runs
import Mathlib.Data.List.AList

/-! # The failure cooldown

    `FailureTracker`, the persistence tasks that report to it, and the clock,
    in nanoseconds.  Tasks of any URLs run side by side; a task reports
    before it goes on with its clean-up.

    `inCooldown_iff` says when three failures of a URL in a row put it in
    cooldown. -/

namespace BlitzCooldown

open RustText BlitzLeader Runs

/-! ## `FailureTracker` -/

/-- For each URL the failures counted, and the time of the last one. -/
abbrev Failures := AList fun _ : Text => Nat × Nat

/-- `FAILURE_COOLDOWN`, in nanoseconds. -/
def failureCooldown : Nat := 60 * 10 ^ 9

/-- `MAX_FAILURES_BEFORE_COOLDOWN`. -/
def maxFailuresBeforeCooldown : Nat := 3

/-- `MAX_FAILURE_ENTRIES`. -/
def maxFailureEntries : Nat := 10000

namespace Failures

/-- `HashMap::retain`. -/
def retain (m : Failures) (keep : Nat × Nat → Bool) : Failures where
  entries := m.entries.filter fun e => keep e.2
  nodupKeys := m.nodupKeys.sublist List.filter_sublist

/-- The time in the middle of all times. -/
def cutoff (m : Failures) : Nat :=
  let ages := m.entries.map fun e => e.2.2
  (ages.mergeSort (· ≤ ·)).getD (ages.length / 2) 0

/-- The count of the URL goes up, at most to one more than the limit. -/
def count (m : Failures) (now : Nat) (url : Text) : Failures :=
  m.insert url
    (min (((m.lookup url).elim 0 Prod.fst) + 1) (maxFailuresBeforeCooldown + 1), now)

/-- `record_failure`. -/
def recordFailure (m : Failures) (now : Nat) (url : Text) : Failures :=
  let m := m.count now url
  if maxFailureEntries < m.entries.length then m.retain fun r => m.cutoff ≤ r.2 else m

/-- `record_success`. -/
def recordSuccess (m : Failures) (url : Text) : Failures := m.erase url

/-- `is_in_cooldown`. -/
def isInCooldown (m : Failures) (now : Nat) (url : Text) : Bool :=
  match m.lookup url with
  | some (count, lastFailure) =>
      maxFailuresBeforeCooldown ≤ count && now - lastFailure < failureCooldown
  | none => false

end Failures

/-! ## The tasks -/

/-- What the tracker is told. -/
inductive Report where
  | success
  | failure
  deriving DecidableEq

variable {ε : Type}

/-- What the persistence task tells the tracker. -/
def report (etagChangedFor : ε → Bool) : Task → TaskInput ε → Option Report
  | .download, .downloaded (some (.ok _)) => some .success
  | .download, .downloaded (some (.error e)) => if etagChangedFor e then none else some .failure
  | .download, .downloaded none => some .failure
  | .verify, .went false => some .failure
  | _, _ => none

/-- Where the task goes on. -/
def nextTask (url : Text) (etagChangedFor : ε → Bool) : Task → TaskInput ε → Option Task
  | .download, .downloaded result => some (afterDownload etagChangedFor result)
  | .sync, .went well => some (afterSync url well)
  | .verify, .went well => some (afterVerify well)
  | .store, .went well => some (afterStore well)
  | .cleanup (_ :: todo), .go => some (.cleanup todo)
  | _, _ => none

/-- It is the task of the leader. -/
theorem task_taskStep {β : Type} (s : Leader β ε) (input : TaskInput ε) :
    (taskStep s input).map Leader.task = nextTask s.url s.etagChangedFor s.task input := by
  rw [taskStep.eq_def, nextTask.eq_def]
  cases s.task with
  | unspawned => rfl
  | download => cases input <;> rfl
  | sync => cases input <;> rfl
  | verify => cases input <;> rfl
  | store => cases input <;> rfl
  | cleanup todo =>
      cases todo with
      | nil => cases input <;> rfl
      | cons e todo => cases input <;> rfl

/-- A task of `spawn_cache_persistence`. -/
structure Persistence (ε : Type) where
  url : Text
  etagChangedFor : ε → Bool
  task : Task

/-- The tracker, the clock and the tasks. -/
structure Sys (ε : Type) where
  failures : Failures
  now : Nat
  tasks : Nat → Option (Persistence ε)

/-- Time passes, a task begins, or a task goes on. -/
inductive Act (ε : Type) where
  /-- time passes -/
  | tick (nanos : Nat)
  /-- `spawn_cache_persistence` -/
  | spawn (i : Nat) (url : Text) (etagChangedFor : ε → Bool)
  | task (i : Nat) (input : TaskInput ε)

namespace Sys

/-- What an action reports, and of which URL. -/
def reportOf (s : Sys ε) : Act ε → Option (Text × Report)
  | .task i input =>
      (s.tasks i).bind fun p => (report p.etagChangedFor p.task input).map fun r => (p.url, r)
  | _ => none

/-- What the tracker is told by a task. -/
def tell (s : Sys ε) : Option (Text × Report) → Failures
  | some (url, .success) => s.failures.recordSuccess url
  | some (url, .failure) => s.failures.recordFailure s.now url
  | none => s.failures

end Sys

/-- One step of the clock or of a task. -/
def step (s : Sys ε) (a : Act ε) : Option (Sys ε) :=
  match a with
  | .tick nanos => some { s with now := s.now + nanos }
  | .spawn i url etagChangedFor =>
      match s.tasks i with
      | some _ => none
      | none =>
          some { s with tasks := Function.update s.tasks i (some ⟨url, etagChangedFor, .download⟩) }
  | .task i input =>
      match s.tasks i with
      | none => none
      | some p =>
          (nextTask p.url p.etagChangedFor p.task input).map fun task =>
            { s with
              failures := s.tell (s.reportOf a)
              tasks := Function.update s.tasks i (some { p with task := task }) }

/-- A process that starts at a time. -/
def started (now : Nat) : Sys ε := ⟨∅, now, fun _ => none⟩

/-! ## What a report does to the record of a URL -/

namespace Failures

variable {m : Failures} {now : Nat} {u url : Text} {keep : Nat × Nat → Bool}

/-- The sweep of one record. -/
theorem lookup_retain : (m.retain keep).lookup u = (m.lookup u).filter keep := by
  ext r
  rw [Option.filter_eq_some_iff, ← Option.mem_def, ← Option.mem_def, AList.mem_lookup_iff,
    AList.mem_lookup_iff]
  show (⟨u, r⟩ : Sigma fun _ => Nat × Nat) ∈ m.entries.filter (fun e => keep e.2) ↔ _
  rw [List.mem_filter]

/-- No record is from the future. -/
def Timely (m : Failures) (now : Nat) : Prop := ∀ u r, m.lookup u = some r → r.2 ≤ now

/-- The cutoff is in the past. -/
theorem Timely.cutoff_le (h : m.Timely now) : m.cutoff ≤ now := by
  rw [cutoff, List.getD_eq_getElem?_getD]
  cases hmid : ((m.entries.map fun e => e.2.2).mergeSort (· ≤ ·))[
      (m.entries.map fun e => e.2.2).length / 2]? with
  | none => exact Nat.zero_le _
  | some time =>
      have hmem := List.mem_mergeSort.mp (List.mem_of_getElem? hmid)
      obtain ⟨e, he, rfl⟩ := List.mem_map.mp hmem
      exact h e.1 e.2 (AList.mem_lookup_iff.mpr he)

/-- A record after one more failure. -/
def hit (record : Option (Nat × Nat)) (now : Nat) : Option (Nat × Nat) :=
  some (min ((record.elim 0 Prod.fst) + 1) (maxFailuresBeforeCooldown + 1), now)

theorem elim_hit {record : Option (Nat × Nat)} :
    (hit record now).elim 0 Prod.fst = min (record.elim 0 Prod.fst + 1) 4 := rfl

theorem lookup_count : (m.count now url).lookup url = hit (m.lookup url) now :=
  AList.lookup_insert _

theorem lookup_count_ne (h : u ≠ url) : (m.count now url).lookup u = m.lookup u :=
  AList.lookup_insert_ne h

/-- A failure is recorded with the time it has. -/
theorem Timely.count (h : m.Timely now) : (m.count now url).Timely now := by
  intro u r hr
  by_cases hu : u = url
  · subst hu
    rw [lookup_count] at hr
    cases hr
    exact le_rfl
  · rw [lookup_count_ne hu] at hr
    exact h u r hr

theorem Timely.retain (h : m.Timely now) : (m.retain keep).Timely now := by
  intro u r hr
  rw [lookup_retain] at hr
  exact h u r (Option.filter_eq_some_iff.mp hr).1

theorem Timely.recordFailure (h : m.Timely now) : (m.recordFailure now url).Timely now := by
  rw [Failures.recordFailure]
  split
  · exact h.count.retain
  · exact h.count

/-- A success. -/
theorem Timely.recordSuccess (h : m.Timely now) : (m.recordSuccess url).Timely now := by
  intro u r hr
  by_cases hu : u = url
  · subst hu
    rw [Failures.recordSuccess, AList.lookup_erase] at hr
    cases hr
  · rw [Failures.recordSuccess, AList.lookup_erase_ne hu] at hr
    exact h u r hr

/-- The failure just counted is in the younger half. -/
theorem lookup_recordFailure (h : m.Timely now) :
    (m.recordFailure now url).lookup url = hit (m.lookup url) now := by
  rw [recordFailure]
  split
  · rw [lookup_retain, lookup_count]
    simp only [hit, Option.filter_some, decide_eq_true h.count.cutoff_le, if_true]
  · exact lookup_count

/-- A failure of one URL takes the record of another away: the map is full,
    and the record is in the older half. -/
def Drops (m : Failures) (now : Nat) (url u : Text) : Prop :=
  maxFailureEntries < (m.count now url).entries.length ∧
    ∃ r ∈ m.lookup u, r.2 < (m.count now url).cutoff

instance (m : Failures) (now : Nat) (url u : Text) : Decidable (m.Drops now url u) :=
  inferInstanceAs (Decidable (_ ∧ _))

/-- A record that the sweep drops. -/
theorem lookup_recordFailure_of_drops (hu : u ≠ url) (h : m.Drops now url u) :
    (m.recordFailure now url).lookup u = none := by
  obtain ⟨hfull, r, hr, hold⟩ := h
  rw [recordFailure]
  rw [if_pos hfull, lookup_retain, lookup_count_ne hu, Option.mem_def.mp hr, Option.filter_some,
    decide_eq_false (not_le.mpr hold)]
  rfl

/-- A record that the sweep leaves. -/
theorem lookup_recordFailure_of_not_drops (hu : u ≠ url) (h : ¬ m.Drops now url u) :
    (m.recordFailure now url).lookup u = m.lookup u := by
  rw [recordFailure]
  split
  next hfull =>
    rw [lookup_retain, lookup_count_ne hu]
    cases hr : m.lookup u with
    | none => rfl
    | some r =>
        have hyoung : (m.count now url).cutoff ≤ r.2 := not_lt.mp fun hold => h ⟨hfull, r, hr, hold⟩
        rw [Option.filter_some, decide_eq_true hyoung]
        rfl
  next => exact lookup_count_ne hu

/-- What `is_in_cooldown` says. -/
theorem isInCooldown_iff : m.isInCooldown now u = true ↔ ∃ r, m.lookup u = some r ∧
    3 ≤ r.1 ∧ now - r.2 < failureCooldown := by
  rw [isInCooldown]
  cases m.lookup u with
  | none => simp
  | some r =>
      dsimp only
      rw [Bool.and_eq_true, decide_eq_true_iff, decide_eq_true_iff]
      constructor
      · intro h
        exact ⟨r, rfl, h⟩
      · rintro ⟨_, hr, h⟩
        cases hr
        exact h

/-- A success forgets the URL's failures. -/
theorem lookup_recordSuccess : (m.recordSuccess url).lookup url = none := AList.lookup_erase ..

theorem lookup_recordSuccess_ne (h : u ≠ url) : (m.recordSuccess url).lookup u = m.lookup u :=
  AList.lookup_erase_ne h

end Failures

/-! ## One step -/

variable {s s' t : Sys ε} {a o : Act ε} {as pre rest : List (Act ε)} {u : Text}

/-- A step changes the records by what it reports, and time does not go
    back. -/
theorem step_tells (h : step s a = some s') :
    s'.failures = s.tell (s.reportOf a) ∧ s.now ≤ s'.now := by
  cases a with
  | tick nanos =>
      cases h
      exact ⟨rfl, Nat.le_add_right ..⟩
  | spawn i url etagChangedFor =>
      rw [step] at h
      split at h
      · cases h
      · cases h
        exact ⟨rfl, le_rfl⟩
  | task i input =>
      rw [step] at h
      split at h
      · cases h
      · obtain ⟨task, -, rfl⟩ := Option.map_eq_some_iff.mp h
        exact ⟨rfl, le_rfl⟩

/-- **Step**: no record is from the future. -/
theorem timely_step (hs : s.failures.Timely s.now) (h : step s a = some s') :
    s'.failures.Timely s'.now := by
  obtain ⟨htell, hnow⟩ := step_tells h
  have htimely : s'.failures.Timely s.now := by
    rw [htell]
    cases s.reportOf a with
    | none => exact hs
    | some r =>
        obtain ⟨url, report⟩ := r
        cases report with
        | success => exact hs.recordSuccess
        | failure => exact hs.recordFailure
  intro u r hr
  exact (htimely u r hr).trans hnow

/-- **Run**: no record is from the future. -/
theorem timely_run {start : Nat} (h : run step (started start) as = some s) :
    s.failures.Timely s.now := by
  refine run_invariant (I := fun s : Sys ε => s.failures.Timely s.now)
    (fun _ _ _ => timely_step) ?_ h
  intro u r hr
  cases hr

/-- The action is a completed download of the URL that ended in an error
    other than a changed ETag, or was rejected. -/
def Fails (u : Text) (s : Sys ε) (a : Act ε) : Prop := s.reportOf a = some (u, .failure)

/-- The times of such outcomes. -/
def failureTimes (u : Text) (s : Sys ε) (a : Act ε) : List Nat :=
  if s.reportOf a = some (u, .failure) then [s.now] else []

/-- The record of the URL goes: a download of it came to its end, whatever
    becomes of the file then; or the map is full, and another URL's failure
    takes the older half away. -/
def Spoils (u : Text) (s : Sys ε) (a : Act ε) : Prop :=
  s.reportOf a = some (u, .success) ∨
    ∃ r ∈ s.reportOf a, r.2 = .failure ∧ u ≠ r.1 ∧ s.failures.Drops s.now r.1 u

instance (u : Text) (s : Sys ε) (a : Act ε) : Decidable (Spoils u s a) :=
  inferInstanceAs (Decidable (_ ∨ _))

/-- A failure of the URL does not drop its own record. -/
theorem Fails.not_spoils (h : Fails u s a) : ¬ Spoils u s a := by
  rintro (hsuccess | ⟨r, hr, -, hother, -⟩)
  · rw [h] at hsuccess
    cases hsuccess
  · rw [h] at hr
    cases hr
    exact hother rfl

/-- What spoils a record leaves none. -/
theorem lookup_of_spoils (hspoils : Spoils u s a) (h : step s a = some s') :
    s'.failures.lookup u = none := by
  rw [(step_tells h).1]
  rcases hspoils with hsuccess | ⟨⟨v, report⟩, hr, rfl, hother, hdrops⟩
  · rw [hsuccess]
    exact Failures.lookup_recordSuccess
  · rw [Option.mem_def.mp hr]
    exact Failures.lookup_recordFailure_of_drops hother hdrops

/-- Any other step counts its failures, and leaves the record alone else. -/
theorem lookup_of_not_spoils (htimely : s.failures.Timely s.now) (hkeeps : ¬ Spoils u s a)
    (h : step s a = some s') :
    s'.failures.lookup u
      = (failureTimes u s a).foldl Failures.hit (s.failures.lookup u) := by
  rw [(step_tells h).1, failureTimes]
  cases hreport : s.reportOf a with
  | none => rfl
  | some r =>
      obtain ⟨v, report⟩ := r
      by_cases hv : u = v
      · subst hv
        cases report with
        | success => exact absurd (Or.inl hreport) hkeeps
        | failure =>
            rw [if_pos rfl]
            exact Failures.lookup_recordFailure htimely
      · have hother : ¬ some (v, report) = some (u, Report.failure) := by
          intro heq
          cases heq
          exact hv rfl
        rw [if_neg hother]
        cases report with
        | success => exact Failures.lookup_recordSuccess_ne hv
        | failure =>
            refine Failures.lookup_recordFailure_of_not_drops hv fun hdrops => hkeeps ?_
            exact Or.inr ⟨_, hreport, rfl, hv, hdrops⟩

/-! ## Runs -/

/-- In a run that does not spoil the record, all failures are counted. -/
theorem lookup_of_along (htimely : s.failures.Timely s.now)
    (hkeeps : Along step (fun s a => ¬ Spoils u s a) s as) (h : run step s as = some t) :
    t.failures.lookup u
      = (outputs step (failureTimes u) s as).foldl Failures.hit (s.failures.lookup u) := by
  induction as generalizing s with
  | nil =>
      cases h
      rfl
  | cons a as ih =>
      obtain ⟨m, hm, hrest⟩ := run_cons_some h
      rw [outputs_cons hm, List.foldl_append, ← lookup_of_not_spoils htimely hkeeps.1 hm]
      exact ih (timely_step htimely hm) (hkeeps.2 m hm) hrest

/-- The failures on record. -/
def countOf (u : Text) (s : Sys ε) : Nat := (s.failures.lookup u).elim 0 Prod.fst

/-- **Step**: no more are on record than have happened. -/
theorem countOf_step (htimely : s.failures.Timely s.now) (h : step s a = some s') :
    countOf u s' ≤ countOf u s + (failureTimes u s a).length := by
  by_cases hspoils : Spoils u s a
  · rw [countOf, lookup_of_spoils hspoils h]
    exact Nat.zero_le _
  · rw [countOf, lookup_of_not_spoils htimely hspoils h, failureTimes]
    split
    · simp only [List.foldl_cons, List.foldl_nil, Failures.hit, Option.elim_some, List.length_cons,
        List.length_nil]
      exact Nat.min_le_left ..
    · exact Nat.le_add_right ..

/-- **Run**: no more are on record than have happened. -/
theorem countOf_run (htimely : s.failures.Timely s.now) (h : run step s as = some t) :
    countOf u t ≤ countOf u s + (outputs step (failureTimes u) s as).length := by
  induction as generalizing s with
  | nil =>
      cases h
      exact Nat.le_add_right ..
  | cons a as ih =>
      obtain ⟨m, hm, hrest⟩ := run_cons_some h
      have hhead := countOf_step (u := u) htimely hm
      have htail := ih (timely_step htimely hm) hrest
      rw [outputs_cons hm, List.length_append]
      omega

/-- Once the record was spoiled, only the failures after that count. -/
theorem countOf_of_not_along (htimely : s.failures.Timely s.now)
    (hspoilt : ¬ Along step (fun s a => ¬ Spoils u s a) s as) (h : run step s as = some t) :
    countOf u t ≤ (outputs step (failureTimes u) s as).length := by
  induction as generalizing s with
  | nil => exact absurd trivial hspoilt
  | cons a as ih =>
      obtain ⟨m, hm, hrest⟩ := run_cons_some h
      rw [outputs_cons hm, List.length_append]
      by_cases hspoils : Spoils u s a
      · have htail := countOf_run (u := u) (timely_step htimely hm) hrest
        have hzero : countOf u m = 0 := by
          rw [countOf, lookup_of_spoils hspoils hm]
          rfl
        omega
      · have htail : ¬ Along step (fun s a => ¬ Spoils u s a) m as := by
          intro halong
          exact hspoilt ((along_cons_some hm).mpr ⟨hspoils, halong⟩)
        have hrest := ih (timely_step htimely hm) htail hrest
        omega

/-- **The cooldown, exactly.**  After a failing outcome of the URL and two
    more, and until 60 s after the last of them, the URL is in cooldown if
    and only if nothing spoils its record from the first of the three on. -/
theorem inCooldown_iff {start first second third : Nat}
    (hpre : run step (started start) pre = some s) (ho : Fails u s o)
    (hrun : run step s (o :: rest) = some t)
    (hthree : outputs step (failureTimes u) s (o :: rest) = [first, second, third])
    (htime : t.now < third + failureCooldown) :
    t.failures.isInCooldown t.now u = true ↔
      Along step (fun s a => ¬ Spoils u s a) s (o :: rest) := by
  have htimely := timely_run hpre
  constructor
  · intro hcooldown
    by_contra hspoilt
    obtain ⟨m, hm, hrest⟩ := run_cons_some hrun
    have hhead : failureTimes u s o = [s.now] := if_pos ho
    rw [outputs_cons hm, hhead, List.singleton_append] at hthree
    obtain ⟨-, htwo⟩ := List.cons.inj hthree
    -- the first outcome does not spoil, so what does comes after it
    have htail : ¬ Along step (fun s a => ¬ Spoils u s a) m rest := by
      intro halong
      exact hspoilt ((along_cons_some hm).mpr ⟨Fails.not_spoils ho, halong⟩)
    have hcount := countOf_of_not_along (timely_step htimely hm) htail hrest
    obtain ⟨r, hlast, hlimit, -⟩ := Failures.isInCooldown_iff.mp hcooldown
    rw [htwo, countOf, hlast] at hcount
    have hcount : r.1 ≤ 2 := hcount
    omega
  · intro halong
    have hlookup := lookup_of_along htimely halong hrun
    rw [hthree] at hlookup
    refine Failures.isInCooldown_iff.mpr ⟨_, hlookup, ?_, ?_⟩
    · -- each of the three counts, up to the limit
      show 3 ≤ min ((Failures.hit (Failures.hit _ first) second).elim 0 Prod.fst + 1) 4
      rw [Failures.elim_hit, Failures.elim_hit]
      omega
    · show t.now - third < failureCooldown
      have hpositive : 0 < failureCooldown := by decide
      omega

/-! ## Three outcomes -/

/-- A download that ends in an error. -/
def errs (i : Nat) (url : Text) : List (Act Unit) :=
  [.spawn i url fun _ => false, .task i (.downloaded (some (.error ())))]

/-- A download that is rejected by the integrity check. -/
def rejects (i : Nat) (url : Text) : List (Act Unit) :=
  [.spawn i url fun _ => false, .task i (.downloaded (some (.ok ()))), .task i (.went true),
    .task i (.went false)]

/-- The URL of an xz file. -/
def xzUrl : Text := ['a', '.', 'x', 'z']

/-- Three errors, and some time. -/
theorem inCooldown_errs :
    ∃ t, run step (started 0) (errs 0 xzUrl ++ errs 1 xzUrl ++ errs 2 xzUrl ++ [.tick 7]) = some t ∧
      t.failures.isInCooldown t.now xzUrl = true := by
  obtain ⟨s, hs, ho⟩ : ∃ s : Sys Unit, run step (started 0) [.spawn 0 xzUrl fun _ => false] = some s ∧
      Fails xzUrl s (.task 0 (.downloaded (some (.error ())))) := ⟨_, rfl, rfl⟩
  obtain ⟨t, ht⟩ : ∃ t, run step s (.task 0 (.downloaded (some (.error ()))) :: (errs 1 xzUrl ++
      errs 2 xzUrl ++ [.tick 7])) = some t := by
    cases hs
    exact ⟨_, rfl⟩
  have hthree : outputs step (failureTimes xzUrl) s (.task 0 (.downloaded (some (.error ()))) ::
      (errs 1 xzUrl ++ errs 2 xzUrl ++ [.tick 7])) = [0, 0, 0] := by
    cases hs
    decide
  have hall := run_append hs ht
  refine ⟨t, hall, (inCooldown_iff hs ho ht hthree ?_).mpr ?_⟩
  · cases hs
    cases ht
    decide
  · cases hs
    decide

/-- Three rejections: each download came to its end first, and that took the
    failures before it away. -/
theorem not_inCooldown_rejects :
    ∃ t, run step (started 0) (rejects 0 xzUrl ++ rejects 1 xzUrl ++ rejects 2 xzUrl) = some t ∧
      outputs step (failureTimes xzUrl) (started 0)
          (rejects 0 xzUrl ++ rejects 1 xzUrl ++ rejects 2 xzUrl) = [0, 0, 0] ∧
        t.failures.isInCooldown t.now xzUrl = false := by
  refine ⟨_, rfl, ?_, ?_⟩
  · decide
  · decide

end BlitzCooldown
