import Mathlib.Algebra.BigOperators.Group.Finset.Piecewise
import Mathlib.Tactic.Abel

namespace VarEmu.Library.Accounts

open scoped BigOperators

variable {α M : Type} [DecidableEq α] [AddCommGroup M]

/-- Accounts that share one running meter: `mark` is the last reading that was charged. -/
structure Ledger (α M : Type) where
  mark : M
  account : α → M

def Ledger.charge (l : Ledger α M) (a : α) (reading : M) : Ledger α M where
  mark := reading
  account := Function.update l.account a (l.account a + (reading - l.mark))

/-- Whoever is charged, the accounts together move with the mark. -/
theorem Ledger.charge_total (l : Ledger α M) (s : Finset α) {a : α} (ha : a ∈ s) (reading : M) :
    ∑ b ∈ s, (l.charge a reading).account b =
      ∑ b ∈ s, l.account b + ((l.charge a reading).mark - l.mark) := by
  simp only [charge]
  rw [Finset.sum_update_of_mem ha, Finset.sdiff_singleton_eq_erase,
    ← Finset.add_sum_erase s l.account ha]
  abel

def Ledger.Balanced (l : Ledger α M) (s : Finset α) : Prop := ∑ a ∈ s, l.account a = l.mark

theorem Ledger.Balanced.charge {l : Ledger α M} {s : Finset α} (h : l.Balanced s) {a : α}
    (ha : a ∈ s) (reading : M) : (l.charge a reading).Balanced s := by
  unfold Ledger.Balanced at h ⊢
  rw [l.charge_total s ha reading, h]
  abel

theorem Ledger.Balanced.insert {l : Ledger α M} {s : Finset α} (h : l.Balanced s) {a : α}
    (ha : a ∉ s) (hz : l.account a = 0) : l.Balanced (insert a s) := by
  unfold Ledger.Balanced at h ⊢
  rw [Finset.sum_insert ha, hz, zero_add, h]

end VarEmu.Library.Accounts
