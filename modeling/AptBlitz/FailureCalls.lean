import AptBlitz.Cooldown
import AptBlitz.Library.Ranks
import Mathlib.Data.Finset.Card

/-! # The failure tracker, by its calls

    `FailureTracker` under any sequence of its calls, for any URLs, at times
    that do not go back and may be equal.

    It keeps to its limit as long as the failure that fills it does not find
    more than half of the records equally old, for what is at least as young
    as the middle stays: `bounded_iff`.  While all calls together are about no
    more URLs than the limit, nothing is dropped, and the cooldown is that of
    the whole history: `inCooldown_history`. -/

namespace BlitzFailureCalls

open RustText BlitzCooldown Failures Runs

/-- The calls that change the tracker. -/
inductive Call where
  | failure (url : Text)
  | success (url : Text)
  deriving DecidableEq

/-- The URL that a call is about. -/
def Call.url : Call → Text
  | .failure url => url
  | .success url => url

/-- The failures and the time of the last call. -/
structure Tracker where
  failures : Failures
  clock : Nat

namespace Tracker

/-- A call at a time. -/
def call (s : Tracker) (now : Nat) : Call → Tracker
  | .failure url => ⟨s.failures.recordFailure now url, now⟩
  | .success url => ⟨s.failures.recordSuccess url, now⟩

end Tracker

/-- A call; the clock does not go back. -/
def step (s : Tracker) (a : Nat × Call) : Option Tracker :=
  if s.clock ≤ a.1 then some (s.call a.1 a.2) else none

/-- The tracker at time `now`, empty. -/
def started (now : Nat) : Tracker := ⟨∅, now⟩

variable {s s' : Tracker} {a : Nat × Call} {calls : List (Nat × Call)} {m : Failures}
  {now start : Nat} {u url : Text}

/-- **Step**: no failure is later than the clock. -/
theorem timely_step (h : s.failures.Timely s.clock) (hs : step s a = some s') :
    s'.failures.Timely s'.clock := by
  rw [step] at hs
  split at hs
  next hclock =>
    cases hs
    have hlater : s.failures.Timely a.1 := fun u r hr => (h u r hr).trans hclock
    cases hcall : a.2 with
    | failure url => exact hlater.recordFailure
    | success url => exact hlater.recordSuccess
  next => cases hs

theorem timely_started : (started start).failures.Timely start := by
  intro u r hr
  cases hr

/-! ## The limit -/

/-- The map is over its limit, and more than half of its records are as old
    as the oldest. -/
def Crowded (m : Failures) : Prop :=
  maxFailureEntries < m.entries.length ∧ ∃ oldest, (∀ e ∈ m.entries, oldest ≤ e.2.2) ∧
    m.entries.length / 2 < m.entries.countP fun e => e.2.2 = oldest

/-- The call is a failure that crowds the map. -/
def Crowds (s : Tracker) (a : Nat × Call) : Prop :=
  ∃ url, a.2 = .failure url ∧ Crowded (s.failures.count a.1 url)

/-- After a failure, the map keeps to its limit and has the URL. -/
def Bounds (s : Tracker) (a : Nat × Call) : Prop :=
  ∀ url s', a.2 = .failure url → step s a = some s' →
    s'.failures.entries.length ≤ maxFailureEntries ∧ url ∈ s'.failures

theorem length_count_le : (m.count now url).entries.length ≤ m.entries.length + 1 := by
  rw [count, AList.entries_insert]
  exact Nat.succ_le_succ (List.kerase_sublist _ _).length_le

theorem length_retain {keep : Nat × Nat → Bool} :
    (m.retain keep).entries.length = (m.entries.filter fun e => keep e.2).length := rfl

/-- All records are at least as young as the middle if more than half are as
    old as the oldest. -/
theorem forall_cutoff_le_iff (h : 0 < m.entries.length) :
    (∀ e ∈ m.entries, m.cutoff ≤ e.2.2) ↔
      ∃ oldest, (∀ e ∈ m.entries, oldest ≤ e.2.2) ∧
        m.entries.length / 2 < m.entries.countP fun e => e.2.2 = oldest := by
  have hlen : m.entries.length / 2 < ((m.entries.map fun e => e.2.2).mergeSort (· ≤ ·)).length := by
    rw [List.length_mergeSort, List.length_map]
    omega
  have hcutoff : m.cutoff = ((m.entries.map fun e => e.2.2).mergeSort (· ≤ ·))[m.entries.length / 2] := by
    rw [cutoff, List.length_map]
    exact (List.getElem_eq_getD 0).symm
  have hall := Ranks.getElem_mergeSort_least_iff hlen
  rw [← hcutoff] at hall
  simpa only [List.forall_mem_map, List.countP_map, Function.comp_def] using hall

/-- **One failure**: the limit holds after it if and only if it does not crowd
    the map. -/
theorem length_recordFailure_le_iff (h : m.entries.length ≤ maxFailureEntries) :
    (m.recordFailure now url).entries.length ≤ maxFailureEntries ↔
      ¬ Crowded (m.count now url) := by
  rw [recordFailure, Crowded]
  by_cases hfull : maxFailureEntries < (m.count now url).entries.length
  · have hone : (m.count now url).entries.length = maxFailureEntries + 1 :=
      Nat.le_antisymm (length_count_le.trans (Nat.succ_le_succ h)) hfull
    rw [if_pos hfull, and_iff_right hfull,
      ← forall_cutoff_le_iff (Nat.zero_lt_of_lt hfull)]
    rw [length_retain, ← Nat.lt_add_one_iff, ← hone, List.length_filter_lt_length_iff_exists]
    simp only [decide_eq_true_eq, not_forall, exists_prop]
  · rw [if_neg hfull]
    exact iff_of_true (not_lt.mp hfull) fun hcrowded => hfull hcrowded.1

theorem length_recordSuccess_le : (m.recordSuccess url).entries.length ≤ m.entries.length :=
  (List.kerase_sublist _ _).length_le

/-! ## Runs -/

/-- Times do not come from the future, and the limit holds. -/
structure Within (s : Tracker) : Prop where
  timely : s.failures.Timely s.clock
  length_le : s.failures.entries.length ≤ maxFailureEntries

theorem within_started : Within (started start) := ⟨timely_started, Nat.zero_le _⟩

/-- What a call does, when it may come. -/
theorem step_some (h : step s a = some s') : s.clock ≤ a.1 ∧ s' = s.call a.1 a.2 := by
  rw [step] at h
  split at h
  next hclock =>
    cases h
    exact ⟨hclock, rfl⟩
  next => cases h

/-- The map stays within its limit unless a new URL crowds it. -/
theorem within_step_iff (h : Within s) (hs : step s a = some s') : Within s' ↔ ¬ Crowds s a := by
  have htimely := timely_step h.timely hs
  obtain ⟨-, rfl⟩ := step_some hs
  cases hcall : a.2 with
  | failure url =>
      rw [hcall] at htimely
      have hiff : Crowds s a ↔ Crowded (s.failures.count a.1 url) := by
        constructor
        · rintro ⟨url', hurl', hcrowded⟩
          rw [hcall] at hurl'
          cases hurl'
          exact hcrowded
        · intro hcrowded
          exact ⟨url, hcall, hcrowded⟩
      rw [hiff, ← length_recordFailure_le_iff h.length_le]
      constructor
      · intro hwithin
        exact hwithin.length_le
      · intro hlength
        exact ⟨htimely, hlength⟩
  | success url =>
      rw [hcall] at htimely
      refine iff_of_true ⟨htimely, length_recordSuccess_le.trans h.length_le⟩ ?_
      rintro ⟨url', hurl', -⟩
      rw [hcall] at hurl'
      cases hurl'

/-- The URL of a failure is there after it. -/
theorem mem_recordFailure (h : m.Timely now) : url ∈ m.recordFailure now url := by
  rw [← AList.lookup_isSome, lookup_recordFailure h]
  rfl

/-- `Bounds` before the step is being within the limit after it. -/
theorem bounds_iff (h : Within s) (hs : step s a = some s') : Bounds s a ↔ Within s' := by
  have htimely := timely_step h.timely hs
  constructor
  · intro hbounds
    obtain ⟨-, rfl⟩ := step_some hs
    cases hcall : a.2 with
    | failure url =>
        have hlength := (hbounds url _ hcall hs).1
        rw [hcall] at hlength htimely
        exact ⟨htimely, hlength⟩
    | success url =>
        rw [hcall] at htimely
        exact ⟨htimely, length_recordSuccess_le.trans h.length_le⟩
  · rintro hwithin url t hurl ht
    obtain rfl : s' = t := Option.some.inj (hs.symm.trans ht)
    refine ⟨hwithin.length_le, ?_⟩
    obtain ⟨hclock, rfl⟩ := step_some hs
    rw [hurl]
    exact mem_recordFailure fun u r hr => (h.timely u r hr).trans hclock

/-- **The limit, exactly**: along a run the map keeps to its limit, and has the
    URL of each failure after it, if and only if no failure crowds the map. -/
theorem bounded_iff (h : run step (started start) calls = some s) :
    Along step Bounds (started start) calls ↔
      Along step (fun s a => ¬ Crowds s a) (started start) calls := by
  have hall : Along step (fun _ _ => True) (started start) calls :=
    along_of_mem fun _ _ _ => trivial
  have hbounds := along_iff_always (I := fun _ => True) (P := Within) (G := Bounds)
    (fun _ _ _ _ _ _ => trivial) (fun _ _ _ _ _ hs hstep => bounds_iff hs hstep) trivial
    within_started hall h
  have hcrowds := along_iff_always (I := fun _ => True) (P := Within)
    (G := fun s a => ¬ Crowds s a) (fun _ _ _ _ _ _ => trivial)
    (fun _ _ _ _ _ hs hstep => (within_step_iff hs hstep).symm) trivial within_started hall h
  exact hbounds.trans hcrowds.symm

/-- Two failures and a success. -/
def threeCalls : List (Nat × Call) :=
  [(0, .failure ['a']), (5, .failure ['b']), (5, .success ['a'])]

theorem bounded_three : Along step Bounds (started 0) threeCalls := by
  have hrun : ∃ s, run step (started 0) threeCalls = some s := ⟨_, rfl⟩
  obtain ⟨s, hs⟩ := hrun
  refine (bounded_iff hs).mpr ?_
  have hsmall : ∀ m : Failures, m.entries.length ≤ 2 → ¬ Crowded m := by
    rintro m hm ⟨hfull, -⟩
    have hlimit : maxFailureEntries = 10000 := rfl
    omega
  refine ⟨?_, ?_⟩
  · rintro ⟨url, hurl, hcrowded⟩
    cases hurl
    exact hsmall _ (by decide) hcrowded
  · rintro s ⟨⟩
    refine ⟨?_, ?_⟩
    · rintro ⟨url, hurl, hcrowded⟩
      cases hurl
      exact hsmall _ (by decide) hcrowded
    · rintro s ⟨⟩
      refine ⟨?_, fun _ _ => trivial⟩
      rintro ⟨url, hurl, -⟩
      cases hurl

/-! ## At one time -/

/-- Failures of so many URLs, all at one time. -/
def simultaneous : Nat → List (Nat × Call)
  | 0 => []
  | n + 1 => simultaneous n ++ [(0, .failure (List.replicate n 'a'))]

/-- All of them are kept, whatever the limit. -/
theorem run_simultaneous (n : Nat) : ∃ s, run step (started 0) (simultaneous n) = some s ∧
    s.clock = 0 ∧ s.failures.entries.length = n ∧ s.failures.Timely 0 ∧
      ∀ u ∈ s.failures, u.length < n := by
  induction n with
  | zero =>
      refine ⟨_, rfl, rfl, rfl, timely_started, ?_⟩
      intro u hu
      cases hu
  | succ n ih =>
      obtain ⟨s, hs, hclock, hlength, htimely, hshort⟩ := ih
      have hnew : List.replicate n 'a' ∉ s.failures := by
        intro hmem
        have hlt := hshort _ hmem
        rw [List.length_replicate] at hlt
        exact Nat.lt_irrefl n hlt
      have hcount : (s.failures.count 0 (List.replicate n 'a')).entries.length = n + 1 := by
        rw [count, AList.entries_insert, List.length_cons, List.kerase_of_notMem_keys hnew, hlength]
      -- no time is before the middle, which is 0
      have hkeep : (s.failures.recordFailure 0 (List.replicate n 'a')).entries
          = (s.failures.count 0 (List.replicate n 'a')).entries := by
        rw [recordFailure]
        split
        · refine List.filter_eq_self.mpr fun e _ => ?_
          rw [decide_eq_true_iff]
          exact htimely.count.cutoff_le.trans (Nat.zero_le _)
        · rfl
      have hstep : step s (0, .failure (List.replicate n 'a'))
          = some (s.call 0 (.failure (List.replicate n 'a'))) := by
        rw [step, hclock]
        rfl
      refine ⟨_, run_append hs ((run_cons hstep).trans rfl), rfl, ?_, htimely.recordFailure, ?_⟩
      · show (s.failures.recordFailure 0 _).entries.length = n + 1
        rw [hkeep, hcount]
      · intro u hu
        have hu : u ∈ (s.failures.recordFailure 0 (List.replicate n 'a')).keys := hu
        rw [AList.keys, hkeep] at hu
        have hmem : u ∈ s.failures.count 0 (List.replicate n 'a') := hu
        rw [count, AList.mem_insert] at hmem
        rcases hmem with rfl | hmem
        · rw [List.length_replicate]
          exact Nat.lt_succ_self n
        · exact Nat.lt_succ_of_lt (hshort u hmem)

/-- 10,001 URLs fail at one time, and the map keeps them all. -/
theorem not_bounded_simultaneous : ∃ s, run step (started 0) (simultaneous 10001) = some s ∧
    s.failures.entries.length = 10001 ∧ ¬ s.failures.entries.length ≤ maxFailureEntries := by
  obtain ⟨s, hs, -, hlength, -, -⟩ := run_simultaneous 10001
  refine ⟨s, hs, hlength, ?_⟩
  rw [hlength]
  decide

/-! ## The whole history -/

/-- The failures of a URL up to a call, and the call. -/
def since (u : Text) (times : List Nat) (a : Nat × Call) : List Nat :=
  if a.2 = .failure u then times ++ [a.1] else if a.2 = .success u then [] else times

/-- The times of the failures of a URL since its last success. -/
def failuresSince (u : Text) (calls : List (Nat × Call)) : List Nat := calls.foldl (since u) []

/-- What the failures since the last success mean for the time `now`. -/
def CoolsDown (times : List Nat) (now : Nat) : Prop :=
  maxFailuresBeforeCooldown ≤ times.length ∧ ∃ last ∈ times.getLast?, now < last + failureCooldown

/-- The record that the tracker keeps of such failures. -/
def recordOf (times : List Nat) : Option (Nat × Nat) :=
  times.getLast?.map fun last => (min times.length (maxFailuresBeforeCooldown + 1), last)

/-- The URLs of a history. -/
def urls (calls : List (Nat × Call)) : Finset Text := (calls.map fun a => a.2.url).toFinset

/-- The failures of a URL, one call later. -/
theorem failuresSince_concat :
    failuresSince u (calls ++ [a]) = since u (failuresSince u calls) a := by
  rw [failuresSince, List.foldl_append]
  rfl

/-- The record of a URL, one failure later. -/
theorem recordOf_concat {times : List Nat} :
    recordOf (times ++ [now]) = hit (recordOf times) now := by
  have hlast : (times ++ [now]).getLast? = some now := List.getLast?_concat
  rw [recordOf, hlast, hit, List.length_append, List.length_singleton]
  cases times with
  | nil => rfl
  | cons t times =>
      rw [recordOf, List.getLast?_cons]
      simp only [Option.map_some, Option.elim_some, List.length_cons]
      congr 2
      omega

/-- The URLs of the records are among those of the calls. -/
structure Faithful (calls : List (Nat × Call)) (s : Tracker) : Prop where
  timely : s.failures.Timely s.clock
  known : ∀ u ∈ s.failures, u ∈ urls calls
  lookup : ∀ u, s.failures.lookup u = recordOf (failuresSince u calls)

theorem urls_subset : urls calls ⊆ urls (calls ++ [a]) := by
  intro u hu
  rw [urls, List.mem_toFinset] at hu ⊢
  rw [List.map_append]
  exact List.mem_append_left _ hu

theorem url_mem_urls : a.2.url ∈ urls (calls ++ [a]) := by
  rw [urls, List.mem_toFinset, List.map_append]
  exact List.mem_append_right _ (List.mem_singleton_self _)

/-- With no more URLs than the limit, nothing is dropped. -/
theorem recordFailure_eq_count (hknown : ∀ u ∈ m.count now url, u ∈ urls calls)
    (hfew : (urls calls).card ≤ maxFailureEntries) :
    m.recordFailure now url = m.count now url := by
  have hsubset : (m.count now url).keys.toFinset ⊆ urls calls := by
    intro u hu
    rw [List.mem_toFinset] at hu
    exact hknown u hu
  have hcard := Finset.card_le_card hsubset
  rw [List.toFinset_card_of_nodup (m.count now url).keys_nodup] at hcard
  have hlength : (m.count now url).keys.length = (m.count now url).entries.length :=
    List.length_map ..
  rw [recordFailure, if_neg]
  omega

/-- **Step**: the tracker keeps to the history. -/
theorem faithful_step (h : Faithful calls s) (hs : step s a = some s')
    (hfew : (urls (calls ++ [a])).card ≤ maxFailureEntries) : Faithful (calls ++ [a]) s' := by
  have htimely := timely_step h.timely hs
  have hurl : a.2.url ∈ urls (calls ++ [a]) := url_mem_urls
  obtain ⟨-, rfl⟩ := step_some hs
  cases hcall : a.2 with
  | failure url =>
      rw [hcall] at htimely hurl
      have hknown : ∀ u ∈ s.failures.count a.1 url, u ∈ urls (calls ++ [a]) := by
        intro u hu
        rw [count, AList.mem_insert] at hu
        rcases hu with rfl | hu
        · exact hurl
        · exact urls_subset (h.known u hu)
      have hcount := recordFailure_eq_count hknown hfew
      refine ⟨htimely, ?_, fun u => ?_⟩
      · show ∀ u ∈ s.failures.recordFailure a.1 url, u ∈ urls (calls ++ [a])
        rw [hcount]
        exact hknown
      · show (s.failures.recordFailure a.1 url).lookup u = _
        rw [hcount, failuresSince_concat, since, hcall]
        by_cases hu : u = url
        · subst hu
          rw [if_pos rfl, lookup_count, h.lookup, recordOf_concat]
        · have hfailure : ¬ Call.failure url = .failure u := by
            rintro ⟨⟩
            exact hu rfl
          have hsuccess : ¬ Call.failure url = .success u := by
            rintro ⟨⟩
          rw [if_neg hfailure, if_neg hsuccess, lookup_count_ne hu, h.lookup]
  | success url =>
      rw [hcall] at htimely
      refine ⟨htimely, ?_, fun u => ?_⟩
      · intro u hu
        exact urls_subset (h.known u (AList.mem_erase.mp hu).2)
      · show (s.failures.recordSuccess url).lookup u = _
        rw [failuresSince_concat, since, hcall]
        have hfailure : ¬ Call.success url = .failure u := by
          rintro ⟨⟩
        by_cases hu : u = url
        · subst hu
          rw [if_neg hfailure, if_pos rfl, lookup_recordSuccess]
          rfl
        · have hsuccess : ¬ Call.success url = .success u := by
            rintro ⟨⟩
            exact hu rfl
          rw [if_neg hfailure, if_neg hsuccess, lookup_recordSuccess_ne hu, h.lookup]

/-- **Run** of the tracker. -/
theorem faithful_run (h : run step (started start) calls = some s)
    (hfew : (urls calls).card ≤ maxFailureEntries) : Faithful calls s := by
  induction calls using List.reverseRecOn generalizing s with
  | nil =>
      cases h
      refine ⟨timely_started, ?_, fun _ => rfl⟩
      intro u hu
      cases hu
  | append_singleton calls a ih =>
      obtain ⟨m, hm, hlast⟩ := run_append_some h
      obtain ⟨t, ht, hrest⟩ := run_cons_some hlast
      cases hrest
      exact faithful_step (ih hm ((Finset.card_le_card urls_subset).trans hfew)) ht hfew

/-- The answer of the tracker is the one of the history. -/
theorem isInCooldown_recordOf {times : List Nat} (h : m.lookup u = recordOf times) :
    m.isInCooldown now u = true ↔ CoolsDown times now := by
  rw [isInCooldown_iff, h, CoolsDown, recordOf]
  have hlimit : maxFailuresBeforeCooldown = 3 := rfl
  have hpositive : 0 < failureCooldown := by decide
  cases times.getLast? with
  | none => simp
  | some last =>
      simp only [Option.map_some, Option.some.injEq, exists_eq_left', Option.mem_def, hlimit]
      omega

/-- The calls about a URL. -/
def about (u : Text) (calls : List (Nat × Call)) : List (Nat × Call) :=
  calls.filter fun a => a.2.url = u

/-- Calls about other URLs do not count. -/
theorem failuresSince_about : failuresSince u (about u calls) = failuresSince u calls := by
  induction calls using List.reverseRecOn with
  | nil => rfl
  | append_singleton calls a ih =>
      rw [failuresSince_concat, ← ih, about, List.filter_append]
      by_cases ha : a.2.url = u
      · rw [List.filter_cons_of_pos (by simpa using ha), List.filter_nil]
        exact failuresSince_concat
      · rw [List.filter_cons_of_neg (by simpa using ha), List.filter_nil, List.append_nil, since]
        have hfailure : a.2 ≠ .failure u := fun h => ha (by rw [h]; rfl)
        have hsuccess : a.2 ≠ .success u := fun h => ha (by rw [h]; rfl)
        rw [if_neg hfailure, if_neg hsuccess]
        rfl

/-- **Refinement**: after calls about no more URLs than the limit, a URL is in
    cooldown if and only if it has failed three times since its last success,
    the last time less than 60 s ago; and calls about other URLs make no
    difference. -/
theorem inCooldown_history (h : run step (started start) calls = some s)
    (hfew : (urls calls).card ≤ maxFailureEntries) (u : Text) (now : Nat) :
    (s.failures.isInCooldown now u = true ↔ CoolsDown (failuresSince u calls) now) ∧
      ∀ {start' calls' s'}, run step (started start') calls' = some s' →
        (urls calls').card ≤ maxFailureEntries → about u calls' = about u calls →
          s'.failures.isInCooldown now u = s.failures.isInCooldown now u := by
  have hfirst : s.failures.isInCooldown now u = true ↔ CoolsDown (failuresSince u calls) now :=
    isInCooldown_recordOf ((faithful_run h hfew).lookup u)
  refine ⟨hfirst, fun {_ calls' s'} h' hfew' habout => ?_⟩
  have hsecond : s'.failures.isInCooldown now u = true
      ↔ CoolsDown (failuresSince u calls') now :=
    isInCooldown_recordOf ((faithful_run h' hfew').lookup u)
  rw [Bool.eq_iff_iff, hfirst, hsecond, ← failuresSince_about, habout, failuresSince_about]

/-- Three failures of one URL, with a success of another in between. -/
def fourCalls : List (Nat × Call) :=
  [(0, .failure ['a']), (1, .failure ['a']), (1, .success ['b']), (7, .failure ['a'])]

theorem inCooldown_history_four :
    ∃ s, run step (started 0) fourCalls = some s ∧ s.failures.isInCooldown 8 ['a'] = true := by
  have hrun : ∃ s, run step (started 0) fourCalls = some s := ⟨_, rfl⟩
  obtain ⟨s, hs⟩ := hrun
  refine ⟨s, hs, (inCooldown_history hs (by decide) ['a'] 8).1.mpr ?_⟩
  exact ⟨by decide, 7, by decide, by decide⟩

end BlitzFailureCalls
