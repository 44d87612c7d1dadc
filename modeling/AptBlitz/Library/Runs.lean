/-! # Runs of a guarded step function

    A system is a function `step : S → A → Option S`: the state an action
    leads to, or `none` when the action is not possible.  One thread's step
    and one step of the environment are both actions, so a schedule (an
    interleaving) is a list of actions, and a run is a schedule whose every
    action was possible.

    Two predicates speak about a run as a whole: `Always P`, every state it
    passes through satisfies `P`, and `Along G`, every action it takes
    satisfies `G` in the state it is taken in.  The rules below turn facts
    about one step into facts about runs, and carry runs and invariants
    through a simulation. -/

namespace Runs

variable {S A T B : Type}

/-- Replay a schedule. -/
def run (step : S → A → Option S) : S → List A → Option S
  | s, [] => some s
  | s, a :: as =>
      match step s a with
      | some s' => run step s' as
      | none => none

/-- Every state the schedule passes through satisfies `P`, the first and the
    last one included. -/
def Always (step : S → A → Option S) (P : S → Prop) : S → List A → Prop
  | s, [] => P s
  | s, a :: as => P s ∧ ∀ s', step s a = some s' → Always step P s' as

/-- Every action the schedule takes satisfies `G` in the state it is taken
    in. -/
def Along (step : S → A → Option S) (G : S → A → Prop) : S → List A → Prop
  | _, [] => True
  | s, a :: as => G s a ∧ ∀ s', step s a = some s' → Along step G s' as

/-- `t` is reached from `s` by some schedule. -/
def Reaches (step : S → A → Option S) (s t : S) : Prop :=
  ∃ as, run step s as = some t

section Rules

variable {step : S → A → Option S} {s t u : S} {a : A} {as bs : List A}

theorem run_cons (h : step s a = some t) :
    run step s (a :: as) = run step t as := by
  simp only [run, h]

/-- A run that takes an action goes through the state after it. -/
theorem run_cons_some (h : run step s (a :: as) = some u) :
    ∃ t, step s a = some t ∧ run step t as = some u := by
  simp only [run] at h
  cases hs : step s a with
  | none => rw [hs] at h; exact nomatch h
  | some t => rw [hs] at h; exact ⟨t, rfl, h⟩

/-- One run after the other. -/
theorem run_append (h₁ : run step s as = some t)
    (h₂ : run step t bs = some u) : run step s (as ++ bs) = some u := by
  induction as generalizing s with
  | nil =>
      have hst : s = t := Option.some.inj h₁
      exact hst ▸ h₂
  | cons a as ih =>
      obtain ⟨m, hm, hrest⟩ := run_cons_some h₁
      rw [List.cons_append, run_cons hm]
      exact ih hrest

/-- A run of a schedule in two parts stops between them. -/
theorem run_append_some (h : run step s (as ++ bs) = some u) :
    ∃ t, run step s as = some t ∧ run step t bs = some u := by
  induction as generalizing s with
  | nil => exact ⟨s, rfl, h⟩
  | cons a as ih =>
      obtain ⟨m, hm, hrest⟩ := run_cons_some h
      obtain ⟨t, h₁, h₂⟩ := ih hrest
      exact ⟨t, by rw [run_cons hm]; exact h₁, h₂⟩

theorem Reaches.refl : Reaches step s s := ⟨[], rfl⟩

theorem Reaches.single (h : step s a = some t) : Reaches step s t :=
  ⟨[a], by rw [run_cons h]; rfl⟩

/-- What is reached from a reached state is reached. -/
theorem Reaches.trans (h₁ : Reaches step s t) (h₂ : Reaches step t u) :
    Reaches step s u := by
  obtain ⟨as, has⟩ := h₁
  obtain ⟨bs, hbs⟩ := h₂
  exact ⟨as ++ bs, run_append has hbs⟩

/-- **Invariant rule**: what every step preserves, every run preserves. -/
theorem run_invariant {I : S → Prop}
    (hstep : ∀ s a s', I s → step s a = some s' → I s')
    (h₀ : I s) (h : run step s as = some t) : I t := by
  induction as generalizing s with
  | nil =>
      have hst : s = t := Option.some.inj h
      exact hst ▸ h₀
  | cons a as ih =>
      obtain ⟨m, hm, hrest⟩ := run_cons_some h
      exact ih (hstep s a m h₀ hm) hrest

/-- Invariant rule for the runs whose every action satisfies `G`. -/
theorem along_invariant {I : S → Prop} {G : S → A → Prop}
    (hstep : ∀ s a s', I s → G s a → step s a = some s' → I s')
    (h₀ : I s) (hG : Along step G s as) (h : run step s as = some t) :
    I t := by
  induction as generalizing s with
  | nil =>
      have hst : s = t := Option.some.inj h
      exact hst ▸ h₀
  | cons a as ih =>
      obtain ⟨m, hm, hrest⟩ := run_cons_some h
      exact ih (hstep s a m h₀ hG.1 hm) (hG.2 m hm) hrest

/-- In a run whose every action satisfies `G`, an invariant of such actions
    holds of every state. -/
theorem always_of_along {I P : S → Prop} {G : S → A → Prop}
    (hstep : ∀ s a s', I s → G s a → step s a = some s' → I s')
    (hP : ∀ s, I s → P s) (h₀ : I s) (hG : Along step G s as) :
    Always step P s as := by
  induction as generalizing s with
  | nil => exact hP s h₀
  | cons a as ih =>
      exact ⟨hP s h₀, fun m hm => ih (hstep s a m h₀ hG.1 hm) (hG.2 m hm)⟩

/-- What every step preserves, and what it implies, holds of every state of a
    run. -/
theorem always_of_step {I P : S → Prop}
    (hstep : ∀ s a s', I s → step s a = some s' → I s') (hP : ∀ s, I s → P s) (h₀ : I s) :
    Always step P s as := by
  induction as generalizing s with
  | nil => exact hP s h₀
  | cons a as ih => exact ⟨hP s h₀, fun m hm => ih (hstep s a m h₀ hm)⟩

/-- What an invariant of a run's actions implies about them. -/
theorem along_of_along {I : S → Prop} {G H : S → A → Prop}
    (hstep : ∀ s a s', I s → G s a → step s a = some s' → I s')
    (hH : ∀ s a, I s → G s a → H s a) (h₀ : I s) (hG : Along step G s as) :
    Along step H s as := by
  induction as generalizing s with
  | nil => exact trivial
  | cons a as ih =>
      exact ⟨hH s a h₀ hG.1, fun m hm => ih (hstep s a m h₀ hG.1 hm) (hG.2 m hm)⟩

theorem always_and {P Q : S → Prop} (hP : Always step P s as)
    (hQ : Always step Q s as) : Always step (fun s => P s ∧ Q s) s as := by
  induction as generalizing s with
  | nil => exact ⟨hP, hQ⟩
  | cons a as ih => exact ⟨⟨hP.1, hQ.1⟩, fun m hm => ih (hP.2 m hm) (hQ.2 m hm)⟩

theorem along_and {G H : S → A → Prop} (hG : Along step G s as)
    (hH : Along step H s as) : Along step (fun s a => G s a ∧ H s a) s as := by
  induction as generalizing s with
  | nil => exact trivial
  | cons a as ih => exact ⟨⟨hG.1, hH.1⟩, fun m hm => ih (hG.2 m hm) (hH.2 m hm)⟩

/-- The converse of `always_of_along`: if a step that fails `G` spoils `P` at
    once, then a run that keeps `P` took no such step. -/
theorem along_of_always {P : S → Prop} {G : S → A → Prop}
    (hG : ∀ s a s', P s → step s a = some s' → P s' → G s a)
    (hrun : run step s as = some t) (hP : Always step P s as) :
    Along step G s as := by
  induction as generalizing s with
  | nil => exact trivial
  | cons a as ih =>
      obtain ⟨m, hm, hrest⟩ := run_cons_some hrun
      have hPm : Always step P m as := hP.2 m hm
      have hm0 : P m := by
        cases as with
        | nil => exact hPm
        | cons b bs => exact hPm.1
      refine ⟨hG s a m hP.1 hm hm0, ?_⟩
      intro m' hm'
      have heq : m = m' := Option.some.inj (hm.symm.trans hm')
      subst heq
      exact ih hrest hPm

/-- **Exact condition rule**: where the actions that keep `P` are those that
    satisfy `G`, the runs that keep `P` are those that satisfy `G` all along. -/
theorem along_iff_always {I P : S → Prop} {G H : S → A → Prop}
    (hstep : ∀ s a s', I s → H s a → step s a = some s' → I s')
    (hkeep : ∀ s a s', I s → H s a → P s → step s a = some s' → (G s a ↔ P s'))
    (h₀ : I s) (hP : P s) (hH : Along step H s as) (h : run step s as = some t) :
    Along step G s as ↔ Always step P s as := by
  induction as generalizing s with
  | nil => exact iff_of_true trivial hP
  | cons a as ih =>
      obtain ⟨m, hm, hrest⟩ := run_cons_some h
      have hnext : ∀ m', step s a = some m' → m = m' :=
        fun m' hm' => Option.some.inj (hm.symm.trans hm')
      have hIm : I m := hstep s a m h₀ hH.1 hm
      have hiff : G s a ↔ P m := hkeep s a m h₀ hH.1 hP hm
      constructor
      · rintro ⟨hG, halong⟩
        refine ⟨hP, fun m' hm' => ?_⟩
        rw [← hnext m' hm']
        exact (ih hIm (hiff.mp hG) (hH.2 m hm) hrest).mp (halong m hm)
      · rintro ⟨-, halways⟩
        have hPm : P m := by
          have := halways m hm
          cases as with
          | nil => exact this
          | cons b bs => exact this.1
        refine ⟨hiff.mpr hPm, fun m' hm' => ?_⟩
        rw [← hnext m' hm']
        exact (ih hIm hPm (hH.2 m hm) hrest).mpr (halways m hm)

/-- What holds throughout holds at the end. -/
theorem last_of_always {P : S → Prop} (hP : Always step P s as) (h : run step s as = some t) :
    P t := by
  induction as generalizing s with
  | nil =>
      have hst : s = t := Option.some.inj h
      exact hst ▸ hP
  | cons a as ih =>
      obtain ⟨m, hm, hrest⟩ := run_cons_some h
      exact ih (hP.2 m hm) hrest

/-- What no step can restore, once lost, and holds at the end, held
    throughout. -/
theorem always_of_last {P : S → Prop}
    (hback : ∀ s a s', step s a = some s' → P s' → P s)
    (h : run step s as = some t) (ht : P t) : Always step P s as := by
  induction as generalizing s with
  | nil =>
      have hst : s = t := Option.some.inj h
      exact hst ▸ ht
  | cons a as ih =>
      obtain ⟨m, hm, hrest⟩ := run_cons_some h
      have hPm : P m := by
        have := ih hrest
        cases as with
        | nil => exact this
        | cons b bs => exact this.1
      refine ⟨hback s a m hm hPm, ?_⟩
      intro m' hm'
      have heq : m = m' := Option.some.inj (hm.symm.trans hm')
      exact heq ▸ ih hrest

/-- **First failure rule**: where an action that fails `G` leads to `P`, and
    `P` stays, a run either meets `G` all along or ends in `P`. -/
theorem along_or_last {I P : S → Prop} {G H : S → A → Prop}
    (hstep : ∀ s a s', I s → H s a → step s a = some s' → I s')
    (hfail : ∀ s a s', I s → H s a → step s a = some s' → ¬ G s a → P s')
    (hstay : ∀ s a s', P s → H s a → step s a = some s' → P s')
    (h₀ : I s) (hH : Along step H s as) (h : run step s as = some t) :
    Along step G s as ∨ P t := by
  induction as generalizing s with
  | nil => exact Or.inl trivial
  | cons a as ih =>
      obtain ⟨m, hm, hrest⟩ := run_cons_some h
      by_cases hG : G s a
      · rcases ih (hstep s a m h₀ hH.1 hm) (hH.2 m hm) hrest with halong | hP
        · refine Or.inl ⟨hG, ?_⟩
          intro m' hm'
          have heq : m = m' := Option.some.inj (hm.symm.trans hm')
          exact heq ▸ halong
        · exact Or.inr hP
      · exact Or.inr (along_invariant hstay (hfail s a m h₀ hH.1 hm hG) (hH.2 m hm) hrest)

theorem along_mono {G H : S → A → Prop} (hmono : ∀ s a, G s a → H s a)
    (h : Along step G s as) : Along step H s as := by
  induction as generalizing s with
  | nil => exact trivial
  | cons a as ih => exact ⟨hmono s a h.1, fun m hm => ih (h.2 m hm)⟩

/-- Restrictions that say the same of the actions that can be taken, say the
    same of a run. -/
theorem along_congr {I : S → Prop} {G H : S → A → Prop}
    (hstep : ∀ s a s', I s → step s a = some s' → I s')
    (hiff : ∀ s a s', I s → step s a = some s' → (G s a ↔ H s a))
    (h₀ : I s) (h : run step s as = some t) : Along step G s as ↔ Along step H s as := by
  induction as generalizing s with
  | nil => exact Iff.rfl
  | cons a as ih =>
      obtain ⟨m, hm, hrest⟩ := run_cons_some h
      have htail := ih (hstep s a m h₀ hm) hrest
      have hnext : ∀ m', step s a = some m' → m = m' :=
        fun m' hm' => Option.some.inj (hm.symm.trans hm')
      constructor
      · rintro ⟨hG, halong⟩
        refine ⟨(hiff s a m h₀ hm).mp hG, fun m' hm' => ?_⟩
        rw [← hnext m' hm']
        exact htail.mp (halong m hm)
      · rintro ⟨hH, halong⟩
        refine ⟨(hiff s a m h₀ hm).mpr hH, fun m' hm' => ?_⟩
        rw [← hnext m' hm']
        exact htail.mpr (halong m hm)

/-- A restriction that every action of a schedule meets in any state. -/
theorem along_of_mem {G : S → A → Prop} (h : ∀ a ∈ as, ∀ s, G s a) : Along step G s as := by
  induction as generalizing s with
  | nil => exact trivial
  | cons a as ih =>
      exact ⟨h a List.mem_cons_self s, fun _ _ =>
        ih fun b hb => h b (List.mem_cons_of_mem _ hb)⟩

/-- A restriction that every action a run takes meets in the state the run
    has reached before it. -/
theorem along_of_reached {G : S → A → Prop}
    (h : ∀ as' a bs m, as = as' ++ a :: bs → run step s as' = some m → G m a) :
    Along step G s as := by
  induction as generalizing s with
  | nil => exact trivial
  | cons a as ih =>
      refine ⟨h [] a as s rfl rfl, fun m hm => ih ?_⟩
      intro as' b bs u hsplit hrun
      refine h (a :: as') b bs u (by rw [hsplit, List.cons_append]) ?_
      rw [run_cons hm]
      exact hrun

/-- What holds along a run holds of the action at any place of it. -/
theorem reached_of_along {G : S → A → Prop} (h : Along step G s (as ++ a :: bs))
    (hrun : run step s as = some t) : G t a := by
  induction as generalizing s with
  | nil =>
      have hst : s = t := Option.some.inj hrun
      exact hst ▸ h.1
  | cons b as ih =>
      obtain ⟨m, hm, hrest⟩ := run_cons_some hrun
      exact ih (h.2 m hm) hrest

/-- What holds along a schedule holds along its first part. -/
theorem along_of_append {G : S → A → Prop} (h : Along step G s (as ++ bs)) :
    Along step G s as := by
  induction as generalizing s with
  | nil => exact trivial
  | cons a as ih => exact ⟨h.1, fun m hm => ih (h.2 m hm)⟩

/-- **Measure rule**: where the actions of a kind lower `μ` and no action
    raises it, a run takes at most `μ` many of that kind. -/
theorem countP_add_measure_le {I : S → Prop} {H : S → A → Prop} {p : A → Bool} {μ : S → Nat}
    (hstep : ∀ s a s', I s → H s a → step s a = some s' → I s')
    (hless : ∀ s a s', I s → H s a → step s a = some s' → p a = true → μ s' < μ s)
    (hkeep : ∀ s a s', I s → H s a → step s a = some s' → p a = false → μ s' ≤ μ s)
    (h₀ : I s) (hH : Along step H s as) (h : run step s as = some t) :
    as.countP p + μ t ≤ μ s := by
  induction as generalizing s with
  | nil =>
      have hst : s = t := Option.some.inj h
      subst hst
      have hnone : ([] : List A).countP p = 0 := List.countP_nil
      omega
  | cons a as ih =>
      obtain ⟨m, hm, hrest⟩ := run_cons_some h
      have htail := ih (hstep s a m h₀ hH.1 hm) (hH.2 m hm) hrest
      rw [List.countP_cons]
      by_cases hp : p a = true
      · have := hless s a m h₀ hH.1 hm hp
        rw [if_pos hp]
        omega
      · have := hkeep s a m h₀ hH.1 hm (Bool.eq_false_iff.mpr hp)
        rw [if_neg hp]
        omega

/-- **Termination rule**: where every step lowers `μ`, a run from `s` takes at
    most `μ s` steps. -/
theorem length_le_of_measure {I : S → Prop} {μ : S → Nat}
    (hstep : ∀ s a s', I s → step s a = some s' → I s')
    (hless : ∀ s a s', I s → step s a = some s' → μ s' < μ s)
    (h₀ : I s) (h : run step s as = some t) : as.length ≤ μ s := by
  induction as generalizing s with
  | nil => exact Nat.zero_le _
  | cons a as ih =>
      obtain ⟨m, hm, hrest⟩ := run_cons_some h
      exact Nat.lt_of_le_of_lt (ih (hstep s a m h₀ hm) hrest) (hless s a m h₀ hm)

/-- **Divergence rule**: where some step from every state of `I` stays in it,
    there are runs of every length. -/
theorem exists_run_of_progress {I : S → Prop}
    (hnext : ∀ s, I s → ∃ a t, step s a = some t ∧ I t) (h₀ : I s) (n : Nat) :
    ∃ as t, run step s as = some t ∧ as.length = n := by
  induction n generalizing s with
  | zero => exact ⟨[], s, rfl, rfl⟩
  | succ n ih =>
      obtain ⟨a, m, hm, hI⟩ := hnext s h₀
      obtain ⟨as, t, hrun, hlen⟩ := ih hI
      exact ⟨a :: as, t, by rw [run_cons hm]; exact hrun, congrArg Nat.succ hlen⟩

/-- What an invariant implies about every action. -/
theorem along_of_step {I : S → Prop} {G : S → A → Prop}
    (hstep : ∀ s a s', I s → step s a = some s' → I s') (hG : ∀ s a, I s → G s a)
    (h₀ : I s) : Along step G s as := by
  induction as generalizing s with
  | nil => exact trivial
  | cons a as ih => exact ⟨hG s a h₀, fun m hm => ih (hstep s a m h₀ hm)⟩

/-- An action that cannot be taken is the last. -/
theorem along_cons_none {G : S → A → Prop} (h : step s a = none) :
    Along step G s (a :: as) ↔ G s a := by
  constructor
  · intro halong
    exact halong.1
  · intro hG
    refine ⟨hG, fun m hm => ?_⟩
    cases h.symm.trans hm

/-- An action that is taken, and the rest. -/
theorem along_cons_some {G : S → A → Prop} (h : step s a = some t) :
    Along step G s (a :: as) ↔ G s a ∧ Along step G t as := by
  constructor
  · intro halong
    exact ⟨halong.1, halong.2 t h⟩
  · rintro ⟨hG, halong⟩
    refine ⟨hG, fun m hm => ?_⟩
    cases h.symm.trans hm
    exact halong

/-- A restriction can be tested on a schedule. -/
instance decidableAlong {G : S → A → Prop} [∀ s a, Decidable (G s a)] :
    ∀ (s : S) (as : List A), Decidable (Along step G s as)
  | _, [] => isTrue trivial
  | s, a :: as =>
      match h : step s a with
      | none => decidable_of_iff (G s a) (along_cons_none h).symm
      | some t =>
          haveI : Decidable (Along step G t as) := decidableAlong t as
          decidable_of_iff (G s a ∧ Along step G t as) (along_cons_some h).symm

/-- A Boolean test of the last state of a schedule exhibits a run. -/
theorem run_of_any {p : S → Bool} (h : (run step s as).any p = true) :
    ∃ t, run step s as = some t ∧ p t = true := by
  cases hr : run step s as with
  | none => rw [hr] at h; exact nomatch h
  | some t => rw [hr] at h; exact ⟨t, rfl, h⟩

end Rules

/-! ## What a run puts out

    `out s a` is what action `a` puts out in state `s`. -/

/-- What the actions of a run put out, in order. -/
def outputs (step : S → A → Option S) (out : S → A → List B) : S → List A → List B
  | _, [] => []
  | s, a :: as =>
      match step s a with
      | some s' => out s a ++ outputs step out s' as
      | none => []

section Outputs

variable {step : S → A → Option S} {out : S → A → List B} {late : S → A → List T} {s t : S}
  {a : A} {as : List A}

/-- The outputs of the first action come first. -/
theorem outputs_cons (h : step s a = some t) :
    outputs step out s (a :: as) = out s a ++ outputs step out t as := by
  simp only [outputs, h]

/-- **Amortised rule**: what a step puts out is paid by what it adds to `ψ`,
    takes from `φ`, or puts out late; so is what a run puts out. -/
theorem length_outputs_le {I : S → Prop} {φ ψ : S → Nat}
    (hstep : ∀ s a s', I s → step s a = some s' → I s')
    (hpay : ∀ s a s', I s → step s a = some s' →
      (out s a).length + φ s' + ψ s ≤ φ s + ψ s' + (late s a).length)
    (h₀ : I s) (h : run step s as = some t) :
    (outputs step out s as).length + φ t + ψ s
      ≤ φ s + ψ t + (outputs step late s as).length := by
  induction as generalizing s with
  | nil =>
      have hst : s = t := Option.some.inj h
      subst hst
      show 0 + φ s + ψ s ≤ φ s + ψ s + 0
      omega
  | cons a as ih =>
      obtain ⟨m, hm, hrest⟩ := run_cons_some h
      have htail := ih (hstep s a m h₀ hm) hrest
      have hhead := hpay s a m h₀ hm
      rw [outputs_cons hm, outputs_cons hm, List.length_append, List.length_append]
      omega

/-- Putting out each action of a kind lists them. -/
theorem outputs_of_kind {p : A → Bool} (h : run step s as = some t) :
    outputs step (fun _ a => if p a then [a] else []) s as = as.filter p := by
  induction as generalizing s with
  | nil => rfl
  | cons a as ih =>
      obtain ⟨m, hm, hrest⟩ := run_cons_some h
      rw [outputs_cons hm, ih hrest]
      by_cases hp : p a = true
      · rw [if_pos hp, List.filter_cons_of_pos hp]
        rfl
      · rw [if_neg hp, List.filter_cons_of_neg hp]
        rfl

/-- **History rule**: an invariant of the state together with everything that
    was put out so far. -/
theorem outputs_invariant {J : S → List B → Prop}
    (hstep : ∀ s a s' bs, J s bs → step s a = some s' → J s' (bs ++ out s a))
    {bs : List B} (h₀ : J s bs) (h : run step s as = some t) :
    J t (bs ++ outputs step out s as) := by
  induction as generalizing s bs with
  | nil =>
      have hst : s = t := Option.some.inj h
      subst hst
      show J s (bs ++ [])
      rw [List.append_nil]
      exact h₀
  | cons a as ih =>
      obtain ⟨m, hm, hrest⟩ := run_cons_some h
      rw [outputs_cons hm, ← List.append_assoc]
      exact ih (hstep s a m bs h₀ hm) hrest

end Outputs

/-! ## Notes

    `note s h a` is what is noted of action `a` in state `s`, after `h`.  The
    system knows nothing of its notes: they let a condition speak about the
    order of the steps so far. -/

section Notes

variable {H : Type} {step : S → A → Option S} {note : S → H → A → H} {s : S} {h : H}
  {x y : S × H} {a : A} {as : List A}

/-- The system, with notes of its steps. -/
def watch (step : S → A → Option S) (note : S → H → A → H) (x : S × H) (a : A) :
    Option (S × H) :=
  (step x.1 a).map fun s => (s, note x.1 x.2 a)

theorem watch_some (hw : watch step note x a = some y) :
    step x.1 a = some y.1 ∧ y.2 = note x.1 x.2 a := by
  obtain ⟨s, hs, rfl⟩ := Option.map_eq_some_iff.mp hw
  exact ⟨hs, rfl⟩

theorem watch_of_step {t : S} (hs : step s a = some t) :
    watch step note (s, h) a = some (t, note s h a) :=
  Option.map_eq_some_iff.mpr ⟨t, hs, rfl⟩

/-- A restriction that does not read the notes. -/
theorem along_watch {G : S → A → Prop} (hG : Along step G s as) :
    Along (watch step note) (fun x a => G x.1 a) (s, h) as := by
  induction as generalizing s h with
  | nil => exact trivial
  | cons a as ih =>
      refine ⟨hG.1, ?_⟩
      rintro ⟨t, h'⟩ hw
      exact ih (hG.2 t (watch_some hw).1)

/-- **Notes rule**: what holds of the states of a watched run holds of those
    of the run. -/
theorem always_of_watch {P : S → Prop}
    (hP : Always (watch step note) (fun x => P x.1) (s, h) as) : Always step P s as := by
  induction as generalizing s h with
  | nil => exact hP
  | cons a as ih => exact ⟨hP.1, fun t ht => ih (hP.2 _ (watch_of_step ht))⟩

end Notes

/-! ## Simulation

    `f` maps a concrete state to an abstract one.  A concrete step is matched
    when the abstract state reaches the image of the next concrete state; a
    step that changes nothing abstract is matched by no step at all. -/

section Simulation

variable {step : S → A → Option S} {stepT : T → B → Option T} {f : S → T}
  {I : S → Prop} {J : T → Prop}

/-- An abstract invariant `J` and a concrete one `I`, each allowed to lean on
    the other, hold together in every state of a concrete run. -/
theorem simulation_invariant
    (hJ : ∀ t b t', J t → stepT t b = some t' → J t')
    (hsim : ∀ s a s', I s → J (f s) → step s a = some s' →
      Reaches stepT (f s) (f s'))
    (hI : ∀ s a s', I s → J (f s) → step s a = some s' → I s')
    {s t : S} {as : List A} (h₀ : I s) (hJ₀ : J (f s))
    (h : run step s as = some t) : I t ∧ J (f t) := by
  refine run_invariant (I := fun s => I s ∧ J (f s)) ?_ ⟨h₀, hJ₀⟩ h
  rintro s a s' ⟨hi, hj⟩ hs
  obtain ⟨bs, hbs⟩ := hsim s a s' hi hj hs
  exact ⟨hI s a s' hi hj hs, run_invariant hJ hj hbs⟩

/-- **Refinement**: the image of a concrete run is an abstract run. -/
theorem run_simulates
    (hJ : ∀ t b t', J t → stepT t b = some t' → J t')
    (hsim : ∀ s a s', I s → J (f s) → step s a = some s' →
      Reaches stepT (f s) (f s'))
    (hI : ∀ s a s', I s → J (f s) → step s a = some s' → I s')
    {s t : S} {as : List A} (h₀ : I s) (hJ₀ : J (f s))
    (h : run step s as = some t) : Reaches stepT (f s) (f t) := by
  induction as generalizing s with
  | nil =>
      have hst : s = t := Option.some.inj h
      exact hst ▸ Reaches.refl
  | cons a as ih =>
      obtain ⟨m, hm, hrest⟩ := run_cons_some h
      obtain ⟨bs, hbs⟩ := hsim s a m h₀ hJ₀ hm
      have hjm : J (f m) := run_invariant hJ hJ₀ hbs
      exact Reaches.trans ⟨bs, hbs⟩ (ih (hI s a m h₀ hJ₀ hm) hjm hrest)

end Simulation

end Runs
