import Mathlib.Logic.Function.Basic

namespace VarEmu.Library.Banks

variable {K V : Type} [DecidableEq K]

/-- A register with one copy for each bank. The copy of the current bank is the live one, and
what `saved` has for that bank is out of date. -/
structure Banked (K V : Type) where
  live : V
  saved : K → V
  current : K

def Banked.view (b : Banked K V) : K → V := Function.update b.saved b.current b.live

/-- The live copy goes to its bank, and the copy of the other bank is fetched. -/
def Banked.switch (b : Banked K V) (k : K) : Banked K V where
  live := Function.update b.saved b.current b.live k
  saved := Function.update b.saved b.current b.live
  current := k

theorem view_switch (b : Banked K V) (k : K) : (b.switch k).view = b.view :=
  Function.update_eq_self k b.view

theorem view_current (b : Banked K V) : b.view b.current = b.live := Function.update_self _ _ _

theorem view_live (b : Banked K V) (v : V) :
    { b with live := v }.view = Function.update b.view b.current v :=
  (Function.update_idem _ _ _).symm

theorem view_of_ne (b : Banked K V) {k : K} (h : k ≠ b.current) : b.view k = b.saved k :=
  Function.update_of_ne h _ _

theorem view_saved (b : Banked K V) {k : K} (h : k ≠ b.current) (v : V) :
    { b with saved := Function.update b.saved k v }.view = Function.update b.view k v := by
  unfold Banked.view
  exact Function.update_comm h _ _ _

end VarEmu.Library.Banks
