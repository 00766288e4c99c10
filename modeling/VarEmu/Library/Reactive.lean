import Mathlib.Data.List.Basic

namespace VarEmu.Library.Reactive

variable {σ τ γ ι ο : Type}

section Runs

variable (step : σ → ι → ο × σ)

def outputs : σ → List ι → List ο
  | _, [] => []
  | s, i :: is => (step s i).1 :: outputs (step s i).2 is

def final : σ → List ι → σ
  | s, [] => s
  | s, i :: is => final (step s i).2 is

/-- Every input of the run meets `C` in the state that it finds. -/
def Respects (C : σ → ι → Prop) : σ → List ι → Prop
  | _, [] => True
  | s, i :: is => C s i ∧ Respects C (step s i).2 is

instance decidableRespects (C : σ → ι → Prop) [∀ s i, Decidable (C s i)] :
    ∀ (s : σ) (is : List ι), Decidable (Respects step C s is)
  | _, [] => inferInstanceAs (Decidable True)
  | s, i :: is =>
    have := decidableRespects C (step s i).2 is
    inferInstanceAs (Decidable (C s i ∧ Respects step C (step s i).2 is))

/-- The machine with a second component that it never looks at. -/
def ghost (next : γ → σ → ι → γ) (s : σ × γ) (i : ι) : ο × (σ × γ) :=
  ((step s.1 i).1, (step s.1 i).2, next s.2 s.1 i)

end Runs

variable {step : σ → ι → ο × σ} {step' : τ → ι → ο × τ}

theorem outputs_ghost (next : γ → σ → ι → γ) (s : σ) (g : γ) (is : List ι) :
    outputs (ghost step next) (s, g) is = outputs step s is := by
  induction is generalizing s g with
  | nil => rfl
  | cons i is ih => exact congrArg ((step s i).1 :: ·) (ih _ _)

theorem final_ghost (next : γ → σ → ι → γ) (s : σ) (g : γ) (is : List ι) :
    (final (ghost step next) (s, g) is).1 = final step s is := by
  induction is generalizing s g with
  | nil => rfl
  | cons i is ih => exact ih _ _

theorem respects_ghost {next : γ → σ → ι → γ} {C : σ → ι → Prop} {s : σ} (g : γ) {is : List ι}
    (h : Respects step C s is) : Respects (ghost step next) (fun s i ↦ C s.1 i) (s, g) is := by
  induction is generalizing s g with
  | nil => trivial
  | cons i is ih => exact ⟨h.1, ih _ h.2⟩

/-- Related machines give the same outputs and end in related states. -/
theorem simulates {R : σ → τ → Prop} {C : σ → ι → Prop}
    (hstep : ∀ s t i, R s t → C s i →
      (step s i).1 = (step' t i).1 ∧ R (step s i).2 (step' t i).2)
    {s : σ} {t : τ} {is : List ι} (hr : R s t) (hc : Respects step C s is) :
    outputs step s is = outputs step' t is ∧ R (final step s is) (final step' t is) := by
  induction is generalizing s t with
  | nil => exact ⟨rfl, hr⟩
  | cons i is ih =>
    obtain ⟨ho, hr'⟩ := hstep s t i hr hc.1
    obtain ⟨hos, hfinal⟩ := ih hr' hc.2
    exact ⟨by rw [outputs, outputs, ho, hos], hfinal⟩

theorem respects_of_invariant {I : σ → Prop} {C : σ → ι → Prop} {D : σ → ι → Prop}
    (hstep : ∀ s i, I s → D s i → C s i ∧ I (step s i).2) {s : σ} {is : List ι} (hs : I s)
    (hd : Respects step D s is) : Respects step C s is := by
  induction is generalizing s with
  | nil => trivial
  | cons i is ih =>
    obtain ⟨hc, hi⟩ := hstep s i hs hd.1
    exact ⟨hc, ih hi hd.2⟩

theorem respects_of_forall {C : ι → Prop} {is : List ι} (h : ∀ i ∈ is, C i) (s : σ) :
    Respects step (fun _ i ↦ C i) s is := by
  induction is generalizing s with
  | nil => trivial
  | cons i is ih =>
    rw [List.forall_mem_cons] at h
    exact ⟨h.1, ih h.2 _⟩

theorem final_invariant {I : σ → Prop} {C : σ → ι → Prop}
    (hstep : ∀ s i, I s → C s i → I (step s i).2) {s : σ} {is : List ι} (hs : I s)
    (hc : Respects step C s is) : I (final step s is) := by
  induction is generalizing s with
  | nil => exact hs
  | cons i is ih => exact ih (hstep s i hs hc.1) hc.2

end VarEmu.Library.Reactive
