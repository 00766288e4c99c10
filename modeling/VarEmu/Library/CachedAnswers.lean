import Mathlib.Logic.Basic

namespace VarEmu.Library.CachedAnswers

variable {E K V : Type} (Right : E → K → V → Prop)

/-- What the cache holds for a key that is not stale is right. -/
def Coherent (e : E) (stale : K → Bool) (cache : K → Option V) : Prop :=
  ∀ k v, stale k = false → cache k = some v → Right e k v

/-- A key becomes stale when the right answers change, and fresh when it is dropped. -/
def nextStale (dropped changed stale : K → Bool) : K → Bool :=
  fun k ↦ !dropped k && (stale k || changed k)

variable {Right} {e e' : E} {stale dropped changed : K → Bool} {cache cache' : K → Option V}

/-- An entry of the new cache has not been dropped, and is an old one or one that is right. -/
theorem Coherent.next (h : Coherent Right e stale cache)
    (hcache : ∀ k v, cache' k = some v →
      dropped k = false ∧ (cache k = some v ∨ Right e k v))
    (hsame : ∀ k v, changed k = false → Right e k v → Right e' k v) :
    Coherent Right e' (nextStale dropped changed stale) cache' := by
  intro k v hs hc
  obtain ⟨hdropped, hold⟩ := hcache k v hc
  simp only [nextStale, hdropped, Bool.not_false, Bool.true_and, Bool.or_eq_false_iff] at hs
  obtain hold | hright := hold
  · exact hsame k v hs.2 (h k v hs.1 hold)
  · exact hsame k v hs.2 hright

theorem next_fresh (hk : dropped = (fun _ ↦ true) ∨ changed = (fun _ ↦ false)) :
    nextStale dropped changed (fun _ ↦ false) = fun _ ↦ false := by
  funext k
  obtain h | h := hk
  · simp [nextStale, h]
  · simp [nextStale, h]

end VarEmu.Library.CachedAnswers
