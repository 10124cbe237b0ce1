import Mathlib.Data.List.Basic
import Mathlib.Data.List.Induction

/-!
Labelled transition systems with an executable step: runs under a condition on each step, the
invariant rule over whole runs, and the replay of a list of labels.
-/

namespace Transition

structure System (σ : Type) (lab : Type) where
  init : σ → Prop
  step : σ → lab → Option σ

variable {σ lab : Type}

/-- A run: its steps, oldest first, each with the state it was taken from, and the state it ends in.
Every step meets `C`. -/
inductive Run (S : System σ lab) (C : σ → lab → Prop) : List (σ × lab) → σ → Prop where
  | init : S.init s → Run S C [] s
  | step : Run S C tr s → C s l → S.step s l = some s' → Run S C (tr ++ [(s, l)]) s'

abbrev Free : σ → lab → Prop := fun _ _ => True

/-- An invariant of the initial states that every step keeps holds along every run. -/
theorem Run.invariant {S : System σ lab} {C : σ → lab → Prop} {I : List (σ × lab) → σ → Prop}
    (start : ∀ s, S.init s → I [] s)
    (keep : ∀ tr s l s', Run S C tr s → I tr s → C s l → S.step s l = some s' → I (tr ++ [(s, l)]) s')
    (h : Run S C tr s) : I tr s := by
  induction h with
  | init hi => exact start _ hi
  | step run hc hs ih => exact keep _ _ _ _ run ih hc hs

theorem Run.invariant_state {S : System σ lab} {C : σ → lab → Prop} {I : σ → Prop}
    (start : ∀ s, S.init s → I s)
    (keep : ∀ s l s', I s → C s l → S.step s l = some s' → I s')
    (h : Run S C tr s) : I s :=
  h.invariant (I := fun _ s => I s) start fun _ s l s' _ hi hc hs => keep s l s' hi hc hs

theorem Run.mono {S : System σ lab} {C D : σ → lab → Prop} (weaker : ∀ s l, C s l → D s l)
    (h : Run S C tr s) : Run S D tr s := by
  induction h with
  | init hi => exact .init hi
  | step _ hc hs ih => exact .step ih (weaker _ _ hc) hs

theorem Run.widen {S T : System σ lab} {C : σ → lab → Prop} (start : ∀ s, S.init s → T.init s) (same : S.step = T.step)
    (h : Run S C tr s) : Run T C tr s := by
  induction h with
  | init hi => exact .init (start _ hi)
  | step _ hc hs ih => exact .step ih hc (same ▸ hs)

theorem Run.mem {S : System σ lab} {C : σ → lab → Prop} (h : Run S C tr s) (m : (u, l) ∈ tr) :
    ∃ earlier t, Run S C earlier u ∧ C u l ∧ S.step u l = some t := by
  induction h with
  | init => simp at m
  | step run hc hs ih =>
    rcases List.mem_append.mp m with old | last
    · exact ih old
    · obtain ⟨rfl, rfl⟩ := Prod.mk.inj (List.mem_singleton.mp last)
      exact ⟨_, _, run, hc, hs⟩

def System.from (S : System σ lab) (u : σ) : System σ lab where
  init := (· = u)
  step := S.step

theorem Run.split {S : System σ lab} {C : σ → lab → Prop} (h : Run S C (tr ++ more) s) :
    ∃ u, Run S C tr u ∧ Run (S.from u) C more s := by
  induction more using List.reverseRecOn generalizing s with
  | nil =>
    rw [List.append_nil] at h
    exact ⟨s, h, .init rfl⟩
  | append_singleton more x ih =>
    rw [← List.append_assoc] at h
    generalize whole : tr ++ more ++ [x] = steps at h
    cases h with
    | init => simp at whole
    | step run hc hs =>
      obtain ⟨rfl, last⟩ := List.append_inj' whole rfl
      obtain rfl := List.singleton_inj.mp last
      obtain ⟨u, before, after⟩ := ih run
      exact ⟨u, before, after.step hc hs⟩

theorem Run.last {S : System σ lab} {C : σ → lab → Prop} (h : Run S C (tr ++ [(u, l)]) s) :
    Run S C tr u ∧ C u l ∧ S.step u l = some s := by
  generalize whole : tr ++ [(u, l)] = steps at h
  cases h with
  | init => simp at whole
  | step run hc hs =>
    obtain ⟨rfl, last⟩ := List.append_inj' whole rfl
    obtain ⟨rfl, rfl⟩ := Prod.mk.inj (List.singleton_inj.mp last)
    exact ⟨run, hc, hs⟩

theorem Run.restrict {S : System σ lab} {C D : σ → lab → Prop} (h : Run S C tr s) (all : ∀ x ∈ tr, D x.1 x.2) :
    Run S (fun s l => C s l ∧ D s l) tr s := by
  induction h with
  | init hi => exact .init hi
  | step _ hc hs ih =>
    exact .step (ih fun x member => all x (List.mem_append_left _ member)) ⟨hc, all (_, _) (by simp)⟩ hs

/-- Forward simulation: where every step is matched by one, so is every run. -/
theorem Run.follow {τ lab' : Type} {S : System σ lab} {T : System τ lab'} {C : σ → lab → Prop} {D : τ → lab' → Prop}
    {R : σ → τ → Prop} (start : ∀ s, S.init s → ∃ t, T.init t ∧ R s t)
    (keep : ∀ s t l s', R s t → C s l → S.step s l = some s' → ∃ l' t', D t l' ∧ T.step t l' = some t' ∧ R s' t')
    (h : Run S C tr s) : ∃ tr' t, Run T D tr' t ∧ R s t := by
  induction h with
  | init hi =>
    obtain ⟨t, ht, r⟩ := start _ hi
    exact ⟨[], t, .init ht, r⟩
  | step _ hc hs ih =>
    obtain ⟨tr', t, run, r⟩ := ih
    obtain ⟨l', t', hd, ht, r'⟩ := keep _ t _ _ r hc hs
    exact ⟨_, t', run.step hd ht, r'⟩

/-- What a part of the state goes through is a run of its own, when every step leaves it or is one of its steps. -/
theorem Run.part {τ lab' : Type} {S : System σ lab} {T : System τ lab'} {C : σ → lab → Prop} {D : τ → lab' → Prop} (part : σ → τ)
    (start : ∀ s, S.init s → T.init (part s))
    (keep : ∀ s l s', C s l → S.step s l = some s' →
      part s' = part s ∨ ∃ l', D (part s) l' ∧ T.step (part s) l' = some (part s'))
    (h : Run S C tr s) : ∃ tr', Run T D tr' (part s) := by
  induction h with
  | init hi => exact ⟨[], .init (start _ hi)⟩
  | step _ hc hs ih =>
    obtain ⟨tr', run⟩ := ih
    rcases keep _ _ _ hc hs with same | ⟨l', hd, ht⟩
    · rw [same]
      exact ⟨tr', run⟩
    · exact ⟨_, run.step hd ht⟩

def exec (S : System σ lab) : σ → List lab → Option σ
  | s, [] => some s
  | s, l :: rest => (S.step s l).bind fun t => exec S t rest

theorem exec_append (S : System σ lab) (s : σ) (ls more : List lab) :
    exec S s (ls ++ more) = (exec S s ls).bind fun t => exec S t more := by
  induction ls generalizing s with
  | nil => rfl
  | cons l ls ih =>
    rw [List.cons_append, exec, exec]
    cases S.step s l with
    | none => rfl
    | some u => exact ih u

/-- Replaying labels that the condition never forbids continues a run. -/
theorem Run.exec {S : System σ lab} {C : σ → lab → Prop} (h : Run S C tr s) (e : exec S s ls = some t)
    (free : ∀ u, ∀ l ∈ ls, C u l) : ∃ more, more.map Prod.snd = ls ∧ Run S C (tr ++ more) t := by
  induction ls generalizing tr s with
  | nil =>
    obtain rfl := Option.some.inj e
    exact ⟨[], rfl, by simpa using h⟩
  | cons l ls ih =>
    obtain ⟨u, hu, e⟩ := Option.bind_eq_some_iff.mp e
    obtain ⟨more, labels, run⟩ :=
      ih (.step h (free s l (.head _)) hu) e fun u l member => free u l (.tail _ member)
    exact ⟨(s, l) :: more, by simp [labels], by simpa using run⟩

/-- The labels can be replayed from `s`, each under the condition. -/
def Along (S : System σ lab) (C : σ → lab → Prop) : σ → List lab → Prop
  | _, [] => True
  | s, l :: rest => C s l ∧ match S.step s l with
    | some t => Along S C t rest
    | none => False

instance Along.decidable (S : System σ lab) (C : σ → lab → Prop) [∀ s l, Decidable (C s l)] :
    (s : σ) → (ls : List lab) → Decidable (Along S C s ls)
  | _, [] => .isTrue trivial
  | s, l :: rest =>
    have : Decidable (match S.step s l with
        | some t => Along S C t rest
        | none => False) :=
      match S.step s l with
      | some t => Along.decidable S C t rest
      | none => .isFalse id
    inferInstanceAs (Decidable (_ ∧ _))

def trace (S : System σ lab) : σ → List lab → List (σ × lab)
  | _, [] => []
  | s, l :: rest => (s, l) :: (S.step s l).elim [] fun t => trace S t rest

theorem trace_labels {S : System σ lab} (e : exec S s ls = some t) : (trace S s ls).map Prod.snd = ls := by
  induction ls generalizing s with
  | nil => rfl
  | cons l ls ih =>
    obtain ⟨u, hu, e⟩ := Option.bind_eq_some_iff.mp e
    simp [trace, hu, ih e]

theorem trace_append {S : System σ lab} (e : exec S s ls = some t) :
    trace S s (ls ++ more) = trace S s ls ++ trace S t more := by
  induction ls generalizing s with
  | nil =>
    obtain rfl := Option.some.inj e
    rfl
  | cons l ls ih =>
    obtain ⟨u, hu, e⟩ := Option.bind_eq_some_iff.mp e
    simp [trace, hu, ih e]

theorem Run.along {S : System σ lab} {C : σ → lab → Prop} (h : Run S C tr s) (a : Along S C s ls) :
    ∃ t, Transition.exec S s ls = some t ∧ Run S C (tr ++ trace S s ls) t := by
  induction ls generalizing tr s with
  | nil => exact ⟨s, rfl, by simpa [trace] using h⟩
  | cons l ls ih =>
    obtain ⟨hc, a⟩ := a
    split at a
    next u hu =>
      obtain ⟨t, e, run⟩ := ih (.step h hc hu) a
      refine ⟨t, ?_, by simpa [trace, hu] using run⟩
      simpa [Transition.exec, hu] using e
    next => exact a.elim

end Transition
