import Mathlib.Data.List.Basic

namespace VarEmu.Library.Execution

variable {σ ι κ ε α β : Type}

theorem bind_ok_iff {x : Except ε α} {f : α → Except ε β} {b : β} :
    x >>= f = .ok b ↔ ∃ a, x = .ok a ∧ f a = .ok b := by
  rcases x with e | a <;> simp [bind, Except.bind]

theorem bind_error_iff {x : Except ε α} {f : α → Except ε β} {e : ε} :
    x >>= f = .error e ↔ x = .error e ∨ ∃ a, x = .ok a ∧ f a = .error e := by
  rcases x with e | a <;> simp [bind, Except.bind]

theorem guard_ok_iff {c : Prop} [Decidable c] {x : Except ε α} {e : ε} {a : α} :
    (if c then x else .error e) = .ok a ↔ c ∧ x = .ok a := by
  by_cases h : c <;> simp [h]

def Ends (P : α → Prop) : Except ε α → Prop
  | .ok a => P a
  | .error _ => False

instance (P : α → Prop) [DecidablePred P] (x : Except ε α) : Decidable (Ends P x) :=
  match x with
  | .ok a => inferInstanceAs (Decidable (P a))
  | .error _ => inferInstanceAs (Decidable False)

theorem Ends.exists {P : α → Prop} {x : Except ε α} (h : Ends P x) : ∃ a, x = .ok a ∧ P a := by
  cases x with
  | ok a => exact ⟨a, rfl, h⟩
  | error e => exact h.elim

theorem fold_total {f : σ → ι → Except ε σ} {xs : List ι}
    (h : ∀ x ∈ xs, ∀ s, ∃ s', f s x = .ok s') (s : σ) : ∃ s', xs.foldlM f s = .ok s' := by
  induction xs generalizing s with
  | nil => exact ⟨s, rfl⟩
  | cons x xs ih =>
    obtain ⟨s₁, hx⟩ := h x List.mem_cons_self s
    obtain ⟨s', hs'⟩ := ih (fun y hy ↦ h y (List.mem_cons_of_mem x hy)) s₁
    exact ⟨s', bind_ok_iff.mpr ⟨s₁, hx, hs'⟩⟩

theorem fold_eq_foldl {f : σ → ι → Except ε σ} {g : σ → ι → σ}
    (hf : ∀ s x s', f s x = .ok s' → s' = g s x) {xs : List ι} {s s' : σ}
    (h : xs.foldlM f s = .ok s') : s' = xs.foldl g s := by
  induction xs generalizing s with
  | nil =>
    cases h
    rfl
  | cons x xs ih =>
    obtain ⟨s₁, hx, h⟩ := bind_ok_iff.mp h
    rw [List.foldl_cons, ← hf s x s₁ hx]
    exact ih h

/-- Effects that compose along an append compose along a loop. -/
theorem foldl_effects {act : σ → List κ → σ} (hnil : ∀ s, act s [] = s)
    (happend : ∀ s us ws, act s (us ++ ws) = act (act s us) ws) (effects : ι → List κ)
    (xs : List ι) (s : σ) :
    xs.foldl (fun s x ↦ act s (effects x)) s = act s (xs.flatMap effects) := by
  induction xs generalizing s with
  | nil => exact (hnil s).symm
  | cons x xs ih => rw [List.foldl_cons, ih, List.flatMap_cons, happend]

section Runs

variable (step : σ → ι → Except ε σ)

/-- Performs the events in order. The first one that has no outcome ends the run. -/
def run : σ → List ι → Except ε σ
  | s, [] => .ok s
  | s, e :: es => step s e >>= fun s' ↦ run s' es

/-- Every event of the run meets `C` in the state it finds. -/
def Always (C : σ → ι → Prop) : σ → List ι → Prop
  | _, [] => True
  | s, e :: es => C s e ∧ match step s e with
    | .ok s' => Always C s' es
    | .error _ => True

instance decidableAlways (C : σ → ι → Prop) [∀ s e, Decidable (C s e)] :
    ∀ (s : σ) (es : List ι), Decidable (Always step C s es)
  | _, [] => inferInstanceAs (Decidable True)
  | s, e :: es =>
    match h : step s e with
    | .ok s' =>
      have := decidableAlways C s' es
      decidable_of_iff (C s e ∧ Always step C s' es) (by simp [Always, h])
    | .error _ => decidable_of_iff (C s e) (by simp [Always, h])

def Throughout (Q : σ → Prop) : σ → List ι → Prop
  | s, [] => Q s
  | s, e :: es => Q s ∧ match step s e with
    | .ok s' => Throughout Q s' es
    | .error _ => True

/-- A journal of the run: each event enters what it does to the state it finds. -/
def journal (enter : σ → ι → σ → α → α) : α → σ → List ι → α
  | a, _, [] => a
  | a, s, e :: es => match step s e with
    | .ok s' => journal enter (enter s e s' a) s' es
    | .error _ => a

end Runs

variable {step : σ → ι → Except ε σ}

theorem run_nil_eq_ok {s t : σ} : run step s [] = .ok t ↔ s = t := by
  simp [run]

theorem run_cons_eq_ok {s t : σ} {e : ι} {es : List ι} :
    run step s (e :: es) = .ok t ↔ ∃ s', step s e = .ok s' ∧ run step s' es = .ok t :=
  bind_ok_iff

theorem run_append_eq_ok {s t : σ} {es fs : List ι} :
    run step s (es ++ fs) = .ok t ↔ ∃ s', run step s es = .ok s' ∧ run step s' fs = .ok t := by
  induction es generalizing s with
  | nil => simp [run]
  | cons e es ih =>
    simp only [List.cons_append, run_cons_eq_ok, ih]
    constructor
    · rintro ⟨s', hs, u, hu, ht⟩
      exact ⟨u, ⟨s', hs, hu⟩, ht⟩
    · rintro ⟨u, ⟨s', hs, hu⟩, ht⟩
      exact ⟨s', hs, u, hu, ht⟩

theorem run_snoc_eq_ok {s t : σ} {es : List ι} {e : ι} :
    run step s (es ++ [e]) = .ok t ↔ ∃ s', run step s es = .ok s' ∧ step s' e = .ok t := by
  simp [run_append_eq_ok, run_cons_eq_ok, run_nil_eq_ok]

/-- A run fails at the first event that does. -/
theorem run_eq_error_iff {s : σ} {es : List ι} {x : ε} :
    run step s es = .error x ↔
      ∃ fs e gs t, es = fs ++ e :: gs ∧ run step s fs = .ok t ∧ step t e = .error x := by
  constructor
  · intro h
    induction es generalizing s with
    | nil => cases h
    | cons e es ih =>
      rcases bind_error_iff.mp h with h | ⟨s', hs', h⟩
      · exact ⟨[], e, es, s, rfl, rfl, h⟩
      · obtain ⟨fs, d, gs, t, rfl, ht, hd⟩ := ih h
        exact ⟨e :: fs, d, gs, t, rfl, run_cons_eq_ok.mpr ⟨s', hs', ht⟩, hd⟩
  · rintro ⟨fs, e, gs, t, rfl, ht, he⟩
    induction fs generalizing s with
    | nil =>
      cases ht
      exact bind_error_iff.mpr (.inl he)
    | cons f fs ih =>
      obtain ⟨s', hs', ht⟩ := run_cons_eq_ok.mp ht
      exact bind_error_iff.mpr (.inr ⟨s', hs', ih ht⟩)

theorem always_cons {C : σ → ι → Prop} {s s' : σ} {e : ι} {es : List ι}
    (h : step s e = .ok s') : Always step C s (e :: es) ↔ C s e ∧ Always step C s' es := by
  simp [Always, h]

theorem always_append {C : σ → ι → Prop} {s s' : σ} {es fs : List ι}
    (h : run step s es = .ok s') :
    Always step C s (es ++ fs) ↔ Always step C s es ∧ Always step C s' fs := by
  induction es generalizing s with
  | nil =>
    rw [run_nil_eq_ok] at h
    simp [Always, h]
  | cons e es ih =>
    obtain ⟨u, hu, hr⟩ := run_cons_eq_ok.mp h
    rw [List.cons_append, always_cons hu, always_cons hu, ih hr, and_assoc]

theorem Always.and {C D : σ → ι → Prop} {s : σ} {es : List ι} (hc : Always step C s es)
    (hd : Always step D s es) : Always step (fun s e ↦ C s e ∧ D s e) s es := by
  induction es generalizing s with
  | nil => trivial
  | cons e es ih =>
    refine ⟨⟨hc.1, hd.1⟩, ?_⟩
    have hc := hc.2
    have hd := hd.2
    cases h : step s e with
    | error x => trivial
    | ok s' =>
      rw [h] at hc hd
      exact ih hc hd

theorem always_of_forall {C : σ → ι → Prop} {es : List ι} (h : ∀ e ∈ es, ∀ s, C s e) (s : σ) :
    Always step C s es := by
  induction es generalizing s with
  | nil => trivial
  | cons e es ih =>
    refine ⟨h e List.mem_cons_self s, ?_⟩
    cases step s e with
    | error x => trivial
    | ok s' => exact ih (fun f hf ↦ h f (List.mem_cons_of_mem e hf)) s'

theorem throughout_cons {Q : σ → Prop} {s s' : σ} {e : ι} {es : List ι}
    (h : step s e = .ok s') : Throughout step Q s (e :: es) ↔ Q s ∧ Throughout step Q s' es := by
  simp [Throughout, h]

theorem run_invariant {C : σ → ι → Prop} {I : σ → Prop}
    (hstep : ∀ s e s', I s → C s e → step s e = .ok s' → I s')
    {s t : σ} {es : List ι} (h : run step s es = .ok t) (hc : Always step C s es)
    (hs : I s) : I t := by
  induction es generalizing s with
  | nil => exact run_nil_eq_ok.mp h ▸ hs
  | cons e es ih =>
    obtain ⟨s', he, hr⟩ := run_cons_eq_ok.mp h
    rw [always_cons he] at hc
    exact ih hr hc.2 (hstep s e s' hs hc.1 he)

theorem run_preserves {I : σ → Prop}
    (hstep : ∀ s e s', I s → step s e = .ok s' → I s')
    {s t : σ} {es : List ι} (h : run step s es = .ok t) (hs : I s) : I t :=
  run_invariant (C := fun _ _ ↦ True) (fun s e s' hi _ he ↦ hstep s e s' hi he) h
    (always_of_forall (fun _ _ _ ↦ trivial) s) hs

theorem always_of_invariant {C : σ → ι → Prop} {I : σ → Prop} {es : List ι}
    (hstep : ∀ e ∈ es, ∀ s s', I s → step s e = .ok s' → I s') (hc : ∀ s e, I s → C s e) {s : σ}
    (hs : I s) : Always step C s es := by
  induction es generalizing s with
  | nil => trivial
  | cons e es ih =>
    refine ⟨hc s e hs, ?_⟩
    cases h : step s e with
    | error x => trivial
    | ok s' =>
      exact ih (fun f hf ↦ hstep f (List.mem_cons_of_mem e hf))
        (hstep e List.mem_cons_self s s' hs h)

theorem run_journal {C : σ → ι → Prop} {enter : σ → ι → σ → α → α} {R : α → σ → Prop}
    (hstep : ∀ a s e s', R a s → C s e → step s e = .ok s' → R (enter s e s' a) s')
    {a : α} {s t : σ} {es : List ι} (h : run step s es = .ok t) (hc : Always step C s es)
    (hs : R a s) : R (journal step enter a s es) t := by
  induction es generalizing a s with
  | nil => exact run_nil_eq_ok.mp h ▸ hs
  | cons e es ih =>
    obtain ⟨s', he, hr⟩ := run_cons_eq_ok.mp h
    rw [always_cons he] at hc
    simp only [journal, he]
    exact ih hr hc.2 (hstep a s e s' hs hc.1 he)

/-- Events that the relation does not notice can be left out of a run: what remains is a run
of its own, and ends in a related state. -/
theorem run_erase {C : σ → ι → Prop} {R : σ → σ → Prop} (visible : ι → Bool)
    (hvisible : ∀ s u e s', R s u → visible e = true → C s e → step s e = .ok s' →
      ∃ u', step u e = .ok u' ∧ R s' u')
    (hhidden : ∀ s u e s', R s u → visible e = false → C s e → step s e = .ok s' → R s' u)
    {s t u : σ} {es : List ι} (h : run step s es = .ok t) (hc : Always step C s es)
    (hr : R s u) : ∃ v, run step u (es.filter visible) = .ok v ∧ R t v := by
  induction es generalizing s u with
  | nil => exact ⟨u, rfl, run_nil_eq_ok.mp h ▸ hr⟩
  | cons e es ih =>
    obtain ⟨s', he, ht⟩ := run_cons_eq_ok.mp h
    rw [always_cons he] at hc
    cases hv : visible e
    · rw [List.filter_cons_of_neg (by simp [hv])]
      exact ih ht hc.2 (hhidden s u e s' hr hv hc.1 he)
    · obtain ⟨u', hu, hr'⟩ := hvisible s u e s' hr hv hc.1 he
      obtain ⟨v, hrun, hrv⟩ := ih ht hc.2 hr'
      rw [List.filter_cons_of_pos hv]
      exact ⟨v, run_cons_eq_ok.mpr ⟨u', hu, hrun⟩, hrv⟩

/-- Two runs with the same visible events, from one state, end in related states. -/
theorem run_same_visible {C : σ → ι → Prop} {R : σ → σ → Prop} (visible : ι → Bool)
    (hvisible : ∀ s u e s', R s u → visible e = true → C s e → step s e = .ok s' →
      ∃ u', step u e = .ok u' ∧ R s' u')
    (hhidden : ∀ s u e s', R s u → visible e = false → C s e → step s e = .ok s' → R s' u)
    (hsymm : ∀ s t, R s t → R t s) (htrans : ∀ s t u, R s t → R t u → R s u)
    {s t u : σ} {es fs : List ι} (ht : run step s es = .ok t) (hu : run step s fs = .ok u)
    (hes : Always step C s es) (hfs : Always step C s fs)
    (hsame : es.filter visible = fs.filter visible) (hr : R s s) : R t u := by
  obtain ⟨v, hv, htv⟩ := run_erase visible hvisible hhidden ht hes hr
  obtain ⟨w, hw, huw⟩ := run_erase visible hvisible hhidden hu hfs hr
  rw [hsame, hw] at hv
  cases hv
  exact htrans _ _ _ htv (hsymm _ _ huw)

end VarEmu.Library.Execution
