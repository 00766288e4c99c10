import Mathlib.Algebra.Order.Ring.Defs
import Mathlib.Tactic.Linarith
import VarEmu.Library.Metering

namespace VarEmu.Library.HighWater

open Metering

variable {R : Type} [LinearOrder R]

/-- The maximum of `m` and the readings. -/
def peak (m : R) (rs : List (R × R)) : R := (rs.map Prod.fst).foldl max m

theorem peak_snoc (m : R) (rs : List (R × R)) (r : R × R) :
    peak m (rs ++ [r]) = max (peak m rs) r.1 := by
  simp [peak]

theorem peak_le_iff {m n : R} {rs : List (R × R)} :
    peak m rs ≤ n ↔ m ≤ n ∧ ∀ r ∈ rs, r.1 ≤ n := by
  induction rs generalizing m with
  | nil => simp [peak]
  | cons r rs ih =>
    have h := ih (m := max m r.1)
    simp only [peak, List.map_cons, List.foldl_cons] at h ⊢
    rw [h, max_le_iff, List.forall_mem_cons, and_assoc]

variable [CommRing R]

/-- A meter whose readings may fall back: the mark follows only the highest one, and a reading
below it costs nothing. -/
def raise (m : Meter R) (t p : R) : Meter R := m.flush (max m.ckpt t) p

def raiseAll (m : Meter R) (rs : List (R × R)) : Meter R := rs.foldl (fun m r ↦ raise m r.1 r.2) m

/-- Each reading pays, at its own price, for what it adds to the maximum before it. -/
def charged (m : R) : List (R × R) → R
  | [] => 0
  | (t, p) :: rs => (max m t - m) * p + charged (max m t) rs

theorem raiseAll_snoc (m : Meter R) (rs : List (R × R)) (r : R × R) :
    raiseAll m (rs ++ [r]) = raise (raiseAll m rs) r.1 r.2 := by
  simp [raiseAll]

theorem raiseAll_eq (m : Meter R) (rs : List (R × R)) :
    raiseAll m rs = ⟨peak m.ckpt rs, m.acc + charged m.ckpt rs⟩ := by
  induction rs generalizing m with
  | nil => simp [raiseAll, peak, charged]
  | cons r rs ih =>
    have h := ih (raise m r.1 r.2)
    simp only [raiseAll, peak, charged, List.foldl_cons, List.map_cons] at h ⊢
    rw [h]
    simp only [raise, Meter.flush, Meter.due, add_assoc]

theorem charged_const {m p : R} {rs : List (R × R)} (h : ∀ r ∈ rs, r.2 = p) :
    charged m rs = (peak m rs - m) * p := by
  induction rs generalizing m with
  | nil => simp [charged, peak]
  | cons r rs ih =>
    obtain ⟨hr, hrs⟩ := List.forall_mem_cons.mp h
    have hrest := ih (m := max m r.1) hrs
    simp only [charged, peak, List.map_cons, List.foldl_cons] at hrest ⊢
    rw [hrest, hr]
    ring

theorem acc_le_raise [IsStrictOrderedRing R] (m : Meter R) (t : R) {p : R} (hp : 0 ≤ p) :
    m.acc ≤ (raise m t p).acc := by
  have h := mul_nonneg (sub_nonneg.mpr (le_max_left m.ckpt t)) hp
  simp only [raise, Meter.flush, Meter.due]
  linarith

end VarEmu.Library.HighWater
