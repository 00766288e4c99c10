import Mathlib.Data.List.Basic

namespace VarEmu.Library.Queries

variable {Q : Type} {R : Q → Type} {α β γ : Type}

/-- A computation that asks a store one question after the other. -/
inductive Lookup (R : Q → Type) (α : Type)
  | done (a : α)
  | ask (q : Q) (next : R q → Lookup R α)

namespace Lookup

def bind : Lookup R α → (α → Lookup R β) → Lookup R β
  | done a, f => f a
  | ask q next, f => ask q fun r ↦ (next r).bind f

def map (f : α → β) : Lookup R α → Lookup R β
  | done a => done (f a)
  | ask q next => ask q fun r ↦ (next r).map f

instance : Monad (Lookup R) where
  pure := done
  bind := bind

def answer (q : Q) : Lookup R (R q) := ask q done

def eval (m : ∀ q, R q) : Lookup R α → α
  | done a => a
  | ask q next => (next (m q)).eval m

/-- The questions that are asked of the store `m`. -/
def asked (m : ∀ q, R q) : Lookup R α → List Q
  | done _ => []
  | ask q next => q :: (next (m q)).asked m

variable (m m' : ∀ q, R q)

theorem map_map (g : β → γ) (f : α → β) (p : Lookup R α) : (p.map f).map g = p.map (g ∘ f) := by
  induction p with
  | done a => rfl
  | ask q next ih => exact congrArg (ask q) (funext ih)

@[simp] theorem map_pure (g : α → β) (a : α) : (pure a : Lookup R α).map g = pure (g a) := rfl

theorem map_bind (g : β → γ) (p : Lookup R α) (f : α → Lookup R β) :
    (p >>= f).map g = p >>= fun a ↦ (f a).map g := by
  induction p with
  | done a => rfl
  | ask q next ih => exact congrArg (ask q) (funext ih)

@[simp] theorem eval_map (f : α → β) (p : Lookup R α) : (p.map f).eval m = f (p.eval m) := by
  induction p with
  | done a => rfl
  | ask q next ih => exact ih (m q)

@[simp] theorem asked_map (f : α → β) (p : Lookup R α) : (p.map f).asked m = p.asked m := by
  induction p with
  | done a => rfl
  | ask q next ih => exact congrArg (q :: ·) (ih (m q))

variable {m m'}

/-- Stores that agree on the questions asked give the same value. -/
theorem eval_of_agree {p : Lookup R α} (h : ∀ q ∈ p.asked m, m' q = m q) :
    p.eval m' = p.eval m := by
  induction p with
  | done a => rfl
  | ask q next ih =>
    rw [eval, eval, h q List.mem_cons_self]
    exact ih (m q) fun q' hq' ↦ h q' (List.mem_cons_of_mem q hq')

end Lookup

end VarEmu.Library.Queries
