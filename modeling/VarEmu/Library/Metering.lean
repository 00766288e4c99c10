import Mathlib.Tactic.Ring

namespace VarEmu.Library.Metering

variable {R : Type}

/-- A meter that is priced lazily: `acc` covers the consumption up to the reading `ckpt`, and
what came after it is still to be priced. -/
@[ext]
structure Meter (R : Type) where
  ckpt : R
  acc : R

variable [CommRing R]

def Meter.due (m : Meter R) (t p : R) : R := m.acc + (t - m.ckpt) * p

def Meter.flush (m : Meter R) (t p : R) : Meter R := ⟨t, m.due t p⟩

theorem Meter.due_flush (m : Meter R) (t u p : R) : (m.flush t p).due u p = m.due u p := by
  simp only [flush, due]
  ring

theorem Meter.due_flush_self (m : Meter R) (t p q : R) : (m.flush t p).due t q = m.due t p := by
  simp only [flush, due]
  ring

theorem Meter.flush_flush (m : Meter R) (t p : R) : (m.flush t p).flush t p = m.flush t p := by
  rw [flush, due_flush, flush]

theorem Meter.due_advance (m : Meter R) (t u p : R) : m.due u p = m.due t p + (u - t) * p := by
  simp only [due]
  ring

theorem Meter.due_reprice (m : Meter R) (t p q : R) :
    m.due t q = m.due t p + (t - m.ckpt) * (q - p) := by
  simp only [due]
  ring

/-- The bill for a consumption that starts at a reading with price `p`, changes price at the
listed readings, and ends at the last one: each segment at the price in force during it. -/
def bill (start p : R) : List (R × R) → R → R
  | [], t => (t - start) * p
  | (u, q) :: changes, t => (u - start) * p + bill u q changes t

theorem bill_advance (start u p : R) (changes : List (R × R)) (t : R) :
    bill start p changes t = (u - start) * p + bill u p changes t := by
  cases changes with
  | nil =>
    simp only [bill]
    ring
  | cons c changes =>
    simp only [bill]
    ring

theorem bill_change (start p q : R) (changes : List (R × R)) (t : R) :
    bill start p ((start, q) :: changes) t = bill start q changes t := by
  simp [bill]

theorem bill_append_cons (start p u q : R) (cs ds : List (R × R)) (t : R) :
    bill start p (cs ++ (u, q) :: ds) t = bill start p cs u + bill u q ds t := by
  induction cs generalizing start p with
  | nil => rfl
  | cons c cs ih => simp only [List.cons_append, bill, ih, add_assoc]

theorem bill_self (start p : R) : bill start p [] start = 0 := by
  simp [bill]

end VarEmu.Library.Metering
