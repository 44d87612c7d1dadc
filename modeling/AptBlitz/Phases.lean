import AptBlitz.Coalescer
import AptBlitz.Library.Runs

/-! # The phases of a URL

    In the map of the coalescer a URL is absent, pending, or downloading.
    The operations carry no owner, so any of them can come in any phase.

    `lawful_iff` says in which runs the phases only move as they should. -/

namespace BlitzPhases

open RustText BlitzCoalescer Runs

variable {β : Type}

/-- The phases of a URL in the map. -/
inductive Phase where
  | absent
  | pending
  | downloading
  deriving DecidableEq

/-- The moves of a URL, with staying. -/
inductive Phase.Moves : Phase → Phase → Prop
  | stays (p : Phase) : Moves p p
  | registered : Moves .absent .pending
  | attached : Moves .pending .downloading
  | finished : Moves .downloading .absent
  | dropped : Moves .pending .absent

/-- The phase of an entry. -/
def phaseOf : Option (Inflight β) → Phase
  | none => .absent
  | some (.pending _) => .pending
  | some (.downloading _) => .downloading

/-- The phase of a URL. -/
def phase (c : Coalescer β) (url : Text) : Phase := phaseOf (c.inflight.lookup url)

/-- An operation that ends a download. -/
def Ends (url : Text) : Op β → Prop
  | .complete u => u = url
  | .fail u _ => u = url
  | _ => False

/-- What the operations should keep to. -/
structure Lawful (c : Coalescer β) (op : Op β) : Prop where
  moves : ∀ url, (phase c url).Moves (phase (c.after op) url)
  /-- a download disappears only when it is ended -/
  ended : ∀ url, phase c url = .downloading → phase (c.after op) url = .absent → Ends url op
  attach : ∀ url buffer, op = .attachBuffer url buffer → phase c url ≠ .pending →
    (c.after op).inflight = c.inflight
  others : ∀ url, url ≠ op.url → (c.after op).inflight.lookup url = c.inflight.lookup url

/-- A buffer is attached to a URL that is downloading. -/
def AttachesAgain (c : Coalescer β) : Op β → Prop
  | .attachBuffer url _ => phase c url = .downloading
  | _ => False

section

variable {c : Coalescer β} {op : Op β} {url : Text} {buffer : β}

/-! ## Each operation on its own URL -/

/-- `register` makes a pending entry or leaves what is there. -/
theorem phase_register (c : Coalescer β) (url : Text) (channel : Nat) :
    phase (c.after (.register url channel)) url = phase c url ∨
      phase c url = .absent ∧ phase (c.after (.register url channel)) url = .pending := by
  rw [phase, phase, Coalescer.after, Coalescer.register]
  split
  · exact Or.inl rfl
  · cases hc : c.inflight.lookup url with
    | none =>
        right
        refine ⟨rfl, ?_⟩
        dsimp only
        rw [Finmap.lookup_insert]
        rfl
    | some e =>
        left
        cases e with
        | downloading buffer =>
            dsimp only
            rw [hc]
        | pending senders =>
            dsimp only
            rw [Finmap.lookup_insert]
            rfl

/-- A pending entry becomes a download. -/
theorem phase_attach_pending (h : phase c url = .pending) :
    phase (c.after (.attachBuffer url buffer)) url = .downloading := by
  rw [phase] at h
  rw [phase, Coalescer.after, Coalescer.attachBuffer]
  cases hc : c.inflight.lookup url with
  | none =>
      rw [hc] at h
      cases h
  | some e =>
      cases e with
      | downloading buffer =>
          rw [hc] at h
          cases h
      | pending senders =>
          dsimp only
          rw [Finmap.lookup_insert]
          rfl

/-- In any other phase the entry, if there is one, is removed. -/
theorem inflight_attach (h : phase c url ≠ .pending) :
    (c.after (.attachBuffer url buffer)).inflight = c.inflight.erase url := by
  rw [phase] at h
  rw [Coalescer.after, Coalescer.attachBuffer]
  cases hc : c.inflight.lookup url with
  | none => rfl
  | some e =>
      cases e with
      | downloading buffer => rfl
      | pending senders =>
          rw [hc] at h
          exact absurd rfl h

/-- Nothing to remove. -/
theorem erase_eq_self (h : c.inflight.lookup url = none) : c.inflight.erase url = c.inflight := by
  refine Finmap.ext_lookup fun u => ?_
  by_cases hu : u = url
  · subst hu
    rw [Finmap.lookup_erase, h]
  · exact Finmap.lookup_erase_ne hu

/-- A URL that is absent has no entry. -/
theorem lookup_of_absent (h : phase c url = .absent) : c.inflight.lookup url = none := by
  rw [phase] at h
  cases hc : c.inflight.lookup url with
  | none => rfl
  | some e =>
      rw [hc] at h
      cases e with
      | downloading buffer => cases h
      | pending senders => cases h

/-- Ended, a URL is absent. -/
theorem phase_of_ends (h : Ends url op) : phase (c.after op) url = .absent := by
  cases op with
  | register u channel => cases h
  | attachBuffer u buffer => cases h
  | complete u =>
      cases h
      rw [phase, Coalescer.after, Coalescer.complete]
      dsimp only
      rw [Finmap.lookup_erase]
      rfl
  | fail u etagChanged =>
      cases h
      rw [phase, Coalescer.after, Coalescer.fail]
      dsimp only
      rw [Finmap.lookup_erase]
      rfl

theorem Phase.Moves.to_absent (p : Phase) : p.Moves .absent := by
  cases p with
  | absent => exact .stays _
  | pending => exact .dropped
  | downloading => exact .finished

/-! ## The law -/

theorem phase_of_ne (h : url ≠ op.url) : phase (c.after op) url = phase c url := by
  rw [phase, phase, Coalescer.lookup_after_of_ne h]

/-- On the URL of the operation, the law says everything. -/
theorem lawful_of_self (hmoves : (phase c op.url).Moves (phase (c.after op) op.url))
    (hended : phase c op.url = .downloading → phase (c.after op) op.url = .absent → Ends op.url op)
    (hattach : ∀ url buffer, op = .attachBuffer url buffer → phase c url ≠ .pending →
      (c.after op).inflight = c.inflight) : Lawful c op where
  moves url := by
    by_cases hurl : url = op.url
    · subst hurl
      exact hmoves
    · rw [phase_of_ne hurl]
      exact .stays _
  ended url hbefore hafter := by
    by_cases hurl : url = op.url
    · subst hurl
      exact hended hbefore hafter
    · rw [phase_of_ne hurl, hbefore] at hafter
      cases hafter
  attach := hattach
  others url hurl := Coalescer.lookup_after_of_ne hurl

/-- `register` keeps to the law. -/
theorem lawful_register (c : Coalescer β) (url : Text) (channel : Nat) :
    Lawful c (.register url channel) := by
  rcases phase_register c url channel with hsame | ⟨habsent, hpending⟩
  · refine lawful_of_self ?_ ?_ nofun
    · show (phase c url).Moves (phase (c.after (.register url channel)) url)
      rw [hsame]
      exact .stays _
    · intro hbefore hafter
      have hbefore : phase c url = .downloading := hbefore
      rw [← hsame] at hbefore
      cases hbefore.symm.trans hafter
  · refine lawful_of_self ?_ ?_ nofun
    · show (phase c url).Moves (phase (c.after (.register url channel)) url)
      rw [habsent, hpending]
      exact .registered
    · intro hbefore
      cases habsent.symm.trans hbefore

/-- `attach_buffer` of a pending URL keeps to the law. -/
theorem lawful_attach_pending {buffer : β} (h : phase c url = .pending) :
    Lawful c (.attachBuffer url buffer) := by
  have hafter : phase (c.after (.attachBuffer url buffer)) url = .downloading :=
    phase_attach_pending h
  refine lawful_of_self ?_ ?_ ?_
  · show (phase c url).Moves (phase (c.after (.attachBuffer url buffer)) url)
    rw [h, hafter]
    exact .attached
  · intro hbefore
    cases h.symm.trans hbefore
  · rintro u b heq hne
    cases heq
    exact absurd h hne

/-- `attach_buffer` of an absent URL does nothing. -/
theorem lawful_attach_absent {buffer : β} (h : phase c url = .absent) :
    Lawful c (.attachBuffer url buffer) := by
  have hpending : phase c url ≠ .pending := by
    rw [h]
    decide
  have hsame : (c.after (.attachBuffer url buffer)).inflight = c.inflight :=
    (inflight_attach hpending).trans (erase_eq_self (lookup_of_absent h))
  refine lawful_of_self ?_ ?_ ?_
  · show (phase c url).Moves (phase (c.after (.attachBuffer url buffer)) url)
    rw [phase, phase, hsame]
    exact .stays _
  · intro hbefore
    cases h.symm.trans hbefore
  · intro _ _ _ _
    exact hsame

/-- `attach_buffer` of a downloading URL loses it. -/
theorem not_lawful_attach {buffer : β} (h : phase c url = .downloading) :
    ¬ Lawful c (.attachBuffer url buffer) := by
  intro hlaw
  have hpending : phase c url ≠ .pending := by
    rw [h]
    decide
  have hsame := hlaw.attach url buffer rfl hpending
  rw [inflight_attach hpending] at hsame
  have hgone : c.inflight.lookup url = none := by
    rw [← hsame]
    exact Finmap.lookup_erase ..
  rw [phase, hgone] at h
  cases h

/-- `complete` and `fail` keep to the law. -/
theorem lawful_ends (h : Ends op.url op) : Lawful c op := by
  refine lawful_of_self ?_ (fun _ _ => h) ?_
  · rw [phase_of_ends h]
    exact Phase.Moves.to_absent _
  · rintro u b rfl
    cases h

/-- An operation keeps to the law unless it attaches again. -/
theorem lawful_step_iff : Lawful c op ↔ ¬ AttachesAgain c op := by
  cases op with
  | register url channel => exact iff_of_true (lawful_register c url channel) nofun
  | attachBuffer url buffer =>
      show _ ↔ ¬ phase c url = .downloading
      cases hp : phase c url with
      | absent => exact iff_of_true (lawful_attach_absent hp) nofun
      | pending => exact iff_of_true (lawful_attach_pending hp) nofun
      | downloading => exact iff_of_false (not_lawful_attach hp) (fun h => h rfl)
  | complete url => exact iff_of_true (lawful_ends rfl) nofun
  | fail url etagChanged => exact iff_of_true (lawful_ends rfl) nofun

end

/-! ## Runs -/

/-- Every operation is possible in every state. -/
def step (c : Coalescer β) (op : Op β) : Option (Coalescer β) := some (c.after op)

/-- **The phases of the URLs, exactly**: a sequence of operations keeps to
    the law, from any state, if and only if no buffer is attached to a URL
    that is downloading. -/
theorem lawful_iff (c : Coalescer β) (ops : List (Op β)) :
    Along step Lawful c ops ↔ Along step (fun c op => ¬ AttachesAgain c op) c ops := by
  constructor
  · intro hlaw
    exact along_mono (fun _ _ => lawful_step_iff.mp) hlaw
  · intro hnot
    exact along_mono (fun _ _ => lawful_step_iff.mpr) hnot

/-- The second buffer takes the first one's entry away. -/
theorem not_lawful :
    phase (((Coalescer.new.after (.register ['u'] 0)).after (.attachBuffer ['u'] 1))) ['u']
        = .downloading ∧
      phase (((Coalescer.new.after (.register ['u'] 0)).after (.attachBuffer ['u'] 1)).after
        (.attachBuffer ['u'] 2)) ['u'] = .absent := by
  constructor
  · decide
  · decide

end BlitzPhases
