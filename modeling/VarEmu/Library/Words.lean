import Mathlib.Data.List.Basic
import Mathlib.Data.List.TakeWhile

namespace VarEmu.Library.Words

variable {α : Type} {sep : α → Bool}

/-- The maximal runs without a separator. -/
def words (sep : α → Bool) (s : List α) : List (List α) := (s.splitOnP sep).filter (· ≠ [])

theorem words_append_sep {c : α} (hc : sep c = true) (s t : List α) :
    words sep (s ++ c :: t) = words sep s ++ words sep t := by
  rw [words, List.splitOnP_append_cons s t hc, List.filter_append]
  rfl

theorem mem_of_mem_split {s w : List α} (hw : w ∈ s.splitOnP sep) : ∀ c ∈ w, c ∈ s := by
  induction s generalizing w with
  | nil => simp_all
  | cons x s ih =>
    obtain ⟨u, us, hu⟩ := List.exists_cons_of_ne_nil (List.splitOnP_ne_nil sep s)
    rw [List.splitOnP_cons_eq_if_modifyHead, hu, List.modifyHead_cons] at hw
    rw [hu] at ih
    intro c hc
    split_ifs at hw
    · rcases List.mem_cons.mp hw with rfl | hw
      · cases hc
      · exact List.mem_cons_of_mem _ (ih hw c hc)
    · rcases List.mem_cons.mp hw with rfl | hw
      · rcases List.mem_cons.mp hc with rfl | hc
        · exact List.mem_cons_self
        · exact List.mem_cons_of_mem _ (ih List.mem_cons_self c hc)
      · exact List.mem_cons_of_mem _ (ih (List.mem_cons_of_mem _ hw) c hc)

theorem mem_of_mem_words {s w : List α} (hw : w ∈ words sep s) : ∀ c ∈ w, c ∈ s :=
  mem_of_mem_split (List.mem_of_mem_filter hw)

theorem words_solid {s : List α} (hne : s ≠ []) (hs : ∀ c ∈ s, sep c = false) :
    words sep s = [s] := by
  rw [words, List.splitOnP_eq_singleton hs]
  simp [hne]

/-- A text that begins with something solid has a first word that begins with it. -/
theorem words_solid_append {s : List α} (hne : s ≠ []) (hs : ∀ c ∈ s, sep c = false)
    (t : List α) : ∃ u us, words sep (s ++ t) = (s ++ u) :: us := by
  induction t generalizing s with
  | nil => exact ⟨[], [], by rw [List.append_nil, words_solid hne hs]⟩
  | cons c t ih =>
    cases hc : sep c with
    | true =>
      refine ⟨[], words sep t, ?_⟩
      rw [words_append_sep hc, words_solid hne hs, List.append_nil]
      rfl
    | false =>
      have hs' : ∀ x ∈ s ++ [c], sep x = false := by
        intro x hx
        rcases List.mem_append.mp hx with hx | hx
        · exact hs x hx
        · rwa [List.mem_singleton.mp hx]
      obtain ⟨u, us, h⟩ := ih (by simp) hs'
      exact ⟨c :: u, us, by simpa using h⟩

section Fields

variable [DecidableEq α] {x : α} {s : List α}

theorem split_on_of_mem (hx : x ∈ s) :
    s.splitOn x = s.takeWhile (· ≠ x) :: ((s.dropWhile (· ≠ x)).drop 1).splitOn x := by
  induction s with
  | nil => cases hx
  | cons c s ih =>
    rw [List.splitOn_cons_eq_if_modifyHead]
    by_cases hc : c = x
    · simp [hc]
    · have hs : x ∈ s := by simpa [Ne.symm hc] using hx
      simp [hc, ih hs]

theorem split_on_head (x : α) (s : List α) :
    ∃ rest, s.splitOn x = s.takeWhile (· ≠ x) :: rest := by
  by_cases hx : x ∈ s
  · exact ⟨_, split_on_of_mem hx⟩
  · refine ⟨[], ?_⟩
    have hall : ∀ c ∈ s, decide (c ≠ x) = true := by
      intro c hc
      simpa using ne_of_mem_of_not_mem hc hx
    rw [List.splitOn_eq_singleton hx, List.takeWhile_eq_self_iff.mpr hall]

end Fields

end VarEmu.Library.Words
