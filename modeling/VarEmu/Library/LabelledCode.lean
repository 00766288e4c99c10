import Mathlib.Data.List.Basic
import Mathlib.Data.Nat.Notation

namespace VarEmu.Library.LabelledCode

/-- Code with labels: an operation that may leave the code, a branch on a test that may itself
have an effect, and the place of a label. -/
inductive Op (σ ε : Type*)
  | exec (f : σ → σ × Option ε)
  | branch (test : σ → σ × Bool) (label : ℕ)
  | label (label : ℕ)

inductive Status (ε : Type*)
  | running
  | skipping (label : ℕ)
  | left (exit : ε)
  deriving DecidableEq

variable {σ ε : Type*}

/-- Branches go forward: a branch that is taken skips what follows up to its label. -/
def step : Status ε × σ → Op σ ε → Status ε × σ
  | (.running, s), .exec f => ((f s).2.elim .running .left, (f s).1)
  | (.running, s), .branch test label =>
    (if (test s).2 then .skipping label else .running, (test s).1)
  | (.running, s), .label _ => (.running, s)
  | (.skipping target, s), .label label =>
    (if label = target then .running else .skipping target, s)
  | (.skipping target, s), .exec _ | (.skipping target, s), .branch _ _ => (.skipping target, s)
  | (.left exit, s), _ => (.left exit, s)

def run (c : Status ε × σ) (code : List (Op σ ε)) : Status ε × σ := code.foldl step c

def branches (code : List (Op σ ε)) : List ℕ :=
  code.filterMap fun
    | .branch _ label => some label
    | .exec _ | .label _ => none

def placed (code : List (Op σ ε)) : List ℕ :=
  code.filterMap fun
    | .label label => some label
    | .exec _ | .branch _ _ => none

/-- Every label that is branched to is placed exactly once. -/
def WellPlaced (code : List (Op σ ε)) : Prop :=
  ∀ label ∈ branches code, (placed code).count label = 1

variable {c : Status ε × σ} {s : σ} {code code' : List (Op σ ε)} {target : ℕ}

@[simp]
theorem run_nil : run c ([] : List (Op σ ε)) = c := rfl

@[simp]
theorem run_cons (op : Op σ ε) : run c (op :: code) = run (step c op) code := rfl

theorem run_append : run c (code ++ code') = run (run c code) code' := List.foldl_append

@[simp]
theorem branches_append : branches (code ++ code') = branches code ++ branches code' :=
  List.filterMap_append

@[simp]
theorem placed_append : placed (code ++ code') = placed code ++ placed code' :=
  List.filterMap_append

@[simp]
theorem placed_nil : placed ([] : List (Op σ ε)) = [] := rfl

@[simp]
theorem placed_exec (f : σ → σ × Option ε) : placed (.exec f :: code) = placed code := rfl

@[simp]
theorem placed_branch (test : σ → σ × Bool) (label : ℕ) :
    placed (.branch test label :: code) = placed code := rfl

@[simp]
theorem placed_label (label : ℕ) : placed (.label label :: code) = label :: placed code := rfl

@[simp]
theorem branches_nil : branches ([] : List (Op σ ε)) = [] := rfl

@[simp]
theorem branches_exec (f : σ → σ × Option ε) : branches (.exec f :: code) = branches code := rfl

@[simp]
theorem branches_branch (test : σ → σ × Bool) (label : ℕ) :
    branches (.branch test label :: code) = label :: branches code := rfl

@[simp]
theorem branches_label (label : ℕ) : branches (.label label :: code) = branches code := rfl

theorem run_left (exit : ε) : run (.left exit, s) code = (.left exit, s) := by
  induction code with
  | nil => rfl
  | cons op code ih =>
    rw [run_cons]
    cases op <;> exact ih

theorem run_skipping (h : target ∉ placed code) :
    run (.skipping target, s) code = (.skipping target, s) := by
  induction code with
  | nil => rfl
  | cons op code ih =>
    rw [run_cons]
    cases op with
    | exec f => exact ih h
    | branch test label => exact ih h
    | label label =>
      have hne : label ≠ target := by
        rintro rfl
        exact h List.mem_cons_self
      simp only [step, if_neg hne]
      exact ih fun hmem ↦ h (List.mem_cons_of_mem _ hmem)

variable (target) in
theorem not_well_placed (hbranch : target ∈ branches code) (hplaced : target ∉ placed code) :
    ¬WellPlaced code := by
  intro h
  have hcount := h target hbranch
  rw [List.count_eq_zero_of_not_mem hplaced] at hcount
  cases hcount

/-- A piece of code that branches to a label on a test. The labels of its own are newer. -/
structure Skips (label : ℕ) (code : List (Op σ ε)) (test : σ → Bool) (effect : σ → σ) : Prop where
  newer : ∀ l ∈ placed code, label < l
  branches : ∀ l ∈ branches code, l = label ∨ (placed code).count l = 1
  run : ∀ s, run (.running, s) code = (if test s then .skipping label else .running, effect s)

theorem Skips.congr {label : ℕ} {test test' : σ → Bool} {effect : σ → σ}
    (h : Skips label code test effect) (htest : ∀ s, test s = test' s) :
    Skips label code test' effect :=
  (funext htest : test = test') ▸ h

/-- The label of a skip is to be placed once in what follows. -/
theorem well_placed_of_skips {label : ℕ} {test : σ → Bool} {effect : σ → σ}
    (h : Skips label code test effect) {before after : List (Op σ ε)}
    (hbefore : branches before = [] ∧ placed before = [])
    (hafter : branches after = [] ∧ placed after = [label]) :
    WellPlaced (before ++ code ++ after) := by
  intro l hl
  have hnot : label ∉ placed code := fun hmem ↦ Nat.lt_irrefl label (h.newer label hmem)
  simp only [branches_append, hbefore.1, hafter.1, List.nil_append, List.append_nil] at hl
  simp only [placed_append, hbefore.2, hafter.2, List.nil_append, List.count_append]
  rcases h.branches l hl with rfl | hone
  · rw [List.count_eq_zero_of_not_mem hnot, List.count_singleton_self]
  · have hne : l ≠ label := by
      rintro rfl
      rw [List.count_eq_zero_of_not_mem hnot] at hone
      cases hone
    rw [hone, List.count_singleton, if_neg (by simpa using hne.symm)]

section Zoom

variable {τ ε' : Type*}

/-- A part of a state that can be read and replaced. -/
structure Lens (τ σ : Type*) where
  get : τ → σ
  put : τ → σ → τ
  get_put : ∀ t s, get (put t s) = s
  put_get : ∀ t, put t (get t) = t
  put_put : ∀ t s s', put (put t s) s' = put t s'

/-- Code for a part of the state as code for the whole of it. -/
def Op.zoom (lens : Lens τ σ) (leave : ε → ε') : Op σ ε → Op τ ε'
  | .exec f => .exec fun t ↦ (lens.put t (f (lens.get t)).1, (f (lens.get t)).2.map leave)
  | .branch test target =>
    .branch (fun t ↦ (lens.put t (test (lens.get t)).1, (test (lens.get t)).2)) target
  | .label target => .label target

def Status.map (leave : ε → ε') : Status ε → Status ε'
  | .running => .running
  | .skipping label => .skipping label
  | .left exit => .left (leave exit)

variable (lens : Lens τ σ) (leave : ε → ε')

theorem step_zoom (st : Status ε) (t : τ) (op : Op σ ε) :
    step (st.map leave, t) (op.zoom lens leave) =
      ((step (st, lens.get t) op).1.map leave, lens.put t (step (st, lens.get t) op).2) := by
  cases st with
  | running =>
    cases op with
    | exec f => cases h : (f (lens.get t)).2 <;> simp [step, Op.zoom, Status.map, h]
    | branch test label => cases h : (test (lens.get t)).2 <;> simp [step, Op.zoom, Status.map, h]
    | label label => simp [step, Op.zoom, Status.map, lens.put_get]
  | skipping target =>
    cases op with
    | exec f => simp [step, Op.zoom, Status.map, lens.put_get]
    | branch test label => simp [step, Op.zoom, Status.map, lens.put_get]
    | label label =>
      by_cases h : label = target <;> simp [step, Op.zoom, Status.map, lens.put_get, h]
  | left exit => cases op <;> simp [step, Op.zoom, Status.map, lens.put_get]

theorem run_zoom (st : Status ε) (t : τ) (code : List (Op σ ε)) :
    run (st.map leave, t) (code.map (Op.zoom lens leave)) =
      ((run (st, lens.get t) code).1.map leave, lens.put t (run (st, lens.get t) code).2) := by
  induction code generalizing st t with
  | nil => simp [lens.put_get]
  | cons op code ih =>
    rw [List.map_cons, run_cons, run_cons, step_zoom, ih, lens.get_put, lens.put_put]

theorem placed_zoom (code : List (Op σ ε)) :
    placed (code.map (Op.zoom lens leave)) = placed code := by
  rw [placed, placed, List.filterMap_map]
  congr 1
  funext op
  cases op <;> rfl

theorem branches_zoom (code : List (Op σ ε)) :
    branches (code.map (Op.zoom lens leave)) = branches code := by
  rw [branches, branches, List.filterMap_map]
  congr 1
  funext op
  cases op <;> rfl

theorem Skips.zoom {label : ℕ} {test : σ → Bool} (h : Skips label code test id) :
    Skips label (code.map (Op.zoom lens leave)) (fun t ↦ test (lens.get t)) id where
  newer := (placed_zoom lens leave code).symm ▸ h.newer
  branches := by
    rw [placed_zoom, branches_zoom]
    exact h.branches
  run := by
    intro t
    have hrun := run_zoom lens leave .running t code
    rw [h.run, id_eq, lens.put_get] at hrun
    cases htest : test (lens.get t) <;> simpa [Status.map, htest] using hrun

end Zoom

end VarEmu.Library.LabelledCode
