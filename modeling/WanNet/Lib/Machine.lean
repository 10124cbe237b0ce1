import Mathlib.Data.List.Basic

/-!
Machines that answer one call after another, and when two of them cannot be told apart.
-/

namespace Machine

variable {S T C R : Type}

def run (step : S → C → S × R) (s : S) : List C → S × List R
  | [] => (s, [])
  | c :: later => ((run step (step s c).1 later).1, (step s c).2 :: (run step (step s c).1 later).2)

/-- States that answer every call alike and stay alike answer every sequence of calls alike. -/
theorem run_simulates {step : S → C → S × R} {spec : T → C → T × R} {Alike : S → T → Prop}
    (alike : ∀ s t c, Alike s t → Alike (step s c).1 (spec t c).1 ∧ (step s c).2 = (spec t c).2) {s : S} {t : T}
    (start : Alike s t) (calls : List C) :
    Alike (run step s calls).1 (run spec t calls).1 ∧ (run step s calls).2 = (run spec t calls).2 := by
  induction calls generalizing s t with
  | nil => exact ⟨start, rfl⟩
  | cons c later ih =>
    obtain ⟨next, reply⟩ := alike s t c start
    obtain ⟨final, replies⟩ := ih next
    refine ⟨final, ?_⟩
    simp only [run]
    rw [reply, replies]

/-- A view of the replies is a view of the whole run's. -/
theorem run_map {step : S → C → S × R} (f : R → Q) (s : S) (calls : List C) :
    run (fun s c => ((step s c).1, f (step s c).2)) s calls = ((run step s calls).1, (run step s calls).2.map f) := by
  induction calls generalizing s with
  | nil => rfl
  | cons c later ih => simp only [run, ih, List.map_cons]

/-- States that answer every call alike up to a view of the replies answer every sequence of calls so. -/
theorem run_simulates_map {step : S → C → S × Q} {spec : T → D → T × R} {f : R → Q} {g : D → C} {Alike : S → T → Prop}
    (alike : ∀ s t c, Alike s t → Alike (step s (g c)).1 (spec t c).1 ∧ (step s (g c)).2 = f (spec t c).2) {s : S} {t : T}
    (start : Alike s t) (calls : List D) :
    let ran := run (fun s c => step s (g c)) s calls
    Alike ran.1 (run spec t calls).1 ∧ ran.2 = (run spec t calls).2.map f := by
  intro ran
  have mapped : Alike ran.1 (run (fun t c => ((spec t c).1, f (spec t c).2)) t calls).1 ∧ ran.2 = _ := run_simulates alike start calls
  rwa [run_map] at mapped

end Machine
