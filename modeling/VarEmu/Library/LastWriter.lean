import Mathlib.Data.List.Induction
import Mathlib.Tactic.Common

namespace VarEmu.Library.LastWriter

variable {ι κ α ν ω : Type*} (key : ι → α → κ) (set : ν → α → α) (value : ω → κ → Option ν)

/-- Cells under keys, and writes that say what a cell gets by its key. -/
def put (f : ι → α) (w : ω) : ι → α :=
  fun i ↦ (value w (key i (f i))).elim (f i) (set · (f i))

def putAll : (ι → α) → List ω → ι → α := List.foldl (put key set value)

def lastWrite (ws : List ω) (k : κ) : Option ν := ws.reverse.findSome? (value · k)

variable {value} {ws us : List ω} {w : ω} {k : κ}

theorem last_write_append :
    lastWrite value (ws ++ us) k = (lastWrite value us k).or (lastWrite value ws k) := by
  rw [lastWrite, List.reverse_append, List.findSome?_append]
  rfl

theorem last_write_snoc :
    lastWrite value (ws ++ [w]) k = (value w k).or (lastWrite value ws k) := by
  rw [last_write_append]
  cases h : value w k <;> simp [lastWrite, h]

variable (value) in
/-- The last writer wins. -/
theorem put_all_apply (hkey : ∀ i v x, key i (set v x) = key i x)
    (hset : ∀ v v' x, set v (set v' x) = set v x) (f : ι → α) (ws : List ω) (i : ι) :
    putAll key set value f ws i =
      (lastWrite value ws (key i (f i))).elim (f i) (set · (f i)) := by
  induction ws using List.reverseRecOn with
  | nil => rfl
  | append_singleton ws w ih =>
    have hlast : putAll key set value f (ws ++ [w]) i =
        put key set value (putAll key set value f ws) w i := by
      rw [putAll, List.foldl_append]
      rfl
    have hsame : key i (putAll key set value f ws i) = key i (f i) := by
      rw [ih]
      cases lastWrite value ws (key i (f i)) with
      | none => rfl
      | some v => exact hkey i v (f i)
    rw [hlast, put, hsame, ih, last_write_snoc]
    cases value w (key i (f i)) with
    | none => rfl
    | some v =>
      cases lastWrite value ws (key i (f i)) with
      | none => rfl
      | some v' => exact hset v v' (f i)

variable (value) in
/-- Writes that are repeated at once change nothing. -/
theorem put_all_twice (hkey : ∀ i v x, key i (set v x) = key i x)
    (hset : ∀ v v' x, set v (set v' x) = set v x) (f : ι → α) (ws us : List ω) :
    putAll key set value f (ws ++ us ++ us) = putAll key set value f (ws ++ us) := by
  funext i
  have hsame : lastWrite value (ws ++ us ++ us) (key i (f i)) =
      lastWrite value (ws ++ us) (key i (f i)) := by
    rw [last_write_append, last_write_append]
    cases lastWrite value us (key i (f i)) <;> rfl
  rw [put_all_apply key set value hkey hset, put_all_apply key set value hkey hset, hsame]

end VarEmu.Library.LastWriter
