import Mathlib.Data.List.Induction
import Mathlib.Data.UInt
import VarEmu.Library.Bytes

namespace VarEmu.Library.WordStack

open Bytes

/-- Memory that gives back the words written to it, at the aligned addresses where it is RAM. -/
structure Ram (M : Type) where
  ldl : M → UInt32 → UInt32
  stl : M → UInt32 → UInt32 → M
  InRam : UInt32 → Prop
  ldl_stl_self : ∀ m a v, InRam a → 4 ∣ a.toNat → ldl (stl m a v) a = v
  ldl_stl_of_ne : ∀ m a b v, InRam a → InRam b → 4 ∣ a.toNat → 4 ∣ b.toNat → b ≠ a →
    ldl (stl m a v) b = ldl m b

variable {M : Type} (ram : Ram M)

/-- A stack that grows down: its pointer, and the memory it is in. -/
def push (p : UInt32 × M) (val : UInt32) : UInt32 × M := (p.1 - 4, ram.stl p.2 (p.1 - 4) val)

def slot (sp : UInt32) (k : ℕ) : UInt32 := sp - UInt32.ofNat (4 * k)

theorem slot_zero (sp : UInt32) : slot sp 0 = sp := by
  simp [slot]

theorem slot_succ (sp : UInt32) (k : ℕ) : slot sp (k + 1) = slot sp k - 4 := by
  have hmul : UInt32.ofNat (4 * (k + 1)) = UInt32.ofNat (4 * k) + 4 := by
    rw [Nat.mul_succ, UInt32.ofNat_add]
    rfl
  rw [slot, slot, hmul, sub_add_eq_sub_sub]

theorem slot_aligned {sp : UInt32} (h : 4 ∣ sp.toNat) (k : ℕ) : 4 ∣ (slot sp k).toNat := by
  rw [slot, UInt32.toNat_sub, UInt32.toNat_ofNat']
  omega

theorem slot_ne (sp : UInt32) {j k : ℕ} (hjk : j < k) (hk : k < 2 ^ 30) :
    slot sp j ≠ slot sp k := by
  intro h
  have h := sub_right_injective h
  rw [← UInt32.toNat_inj, UInt32.toNat_ofNat', UInt32.toNat_ofNat'] at h
  omega

variable {ram}

theorem push_all_pointer (ws : List UInt32) (p : UInt32 × M) :
    (ws.foldl (push ram) p).1 = slot p.1 ws.length := by
  induction ws using List.reverseRecOn with
  | nil => exact (slot_zero p.1).symm
  | append_singleton ws w ih =>
    rw [List.foldl_append, List.length_append, List.length_singleton, slot_succ, ← ih]
    rfl

theorem slot_add (sp : UInt32) {j k : ℕ} (hjk : j ≤ k) :
    slot sp k + UInt32.ofNat (4 * j) = slot sp (k - j) := by
  have hmul : UInt32.ofNat (4 * k) = UInt32.ofNat (4 * (k - j)) + UInt32.ofNat (4 * j) := by
    rw [← UInt32.ofNat_add, ← Nat.mul_add, Nat.sub_add_cancel hjk]
  rw [slot, slot, hmul, sub_add_eq_sub_sub, sub_add_cancel]

/-- The words pushed lie below the pointer, the last one lowest. -/
theorem push_all_word {ws : List UInt32} {p : UInt32 × M} (hp : 4 ∣ p.1.toNat)
    (hram : ∀ k < ws.length, ram.InRam (slot p.1 (k + 1))) (hws : ws.length < 2 ^ 30) {j : ℕ}
    {w : UInt32} (hw : ws[j]? = some w) :
    ram.ldl (ws.foldl (push ram) p).2 (slot p.1 (j + 1)) = w := by
  induction ws using List.reverseRecOn with
  | nil => cases hw
  | append_singleton ws v ih =>
    rw [List.length_append, List.length_singleton] at hram hws
    have hpush : ((ws ++ [v]).foldl (push ram) p).2 =
        ram.stl (ws.foldl (push ram) p).2 (slot p.1 (ws.length + 1)) v := by
      rw [List.foldl_append, slot_succ, ← push_all_pointer]
      rfl
    rw [hpush]
    by_cases hj : j = ws.length
    · obtain rfl : v = w := by simpa [hj] using hw
      rw [hj]
      exact ram.ldl_stl_self _ _ v (hram _ (by omega)) (slot_aligned hp _)
    · have hlt : j < ws.length := by
        have := (List.getElem?_eq_some_iff.mp hw).1
        rw [List.length_append, List.length_singleton] at this
        omega
      rw [ram.ldl_stl_of_ne _ _ _ v (hram _ (by omega)) (hram _ (by omega)) (slot_aligned hp _)
        (slot_aligned hp _) (slot_ne p.1 (by omega) hws)]
      rw [List.getElem?_append_left hlt] at hw
      exact ih (fun k hk ↦ hram k (by omega)) (by omega) hw

section ByteMemory

def loadWord (m : UInt32 → UInt8) (a : UInt32) : UInt32 :=
  UInt32.ofNat (ofBytes ((List.range 4).map fun k ↦ m (a + UInt32.ofNat k)))

def storeWord (m : UInt32 → UInt8) (a v : UInt32) : UInt32 → UInt8 := fun x ↦
  if (x - a).toNat < 4 then UInt8.ofNat (v.toNat / 256 ^ (x - a).toNat) else m x

theorem load_store_self (m : UInt32 → UInt8) (a v : UInt32) : loadWord (storeWord m a v) a = v := by
  have hbytes : (List.range 4).map (fun k ↦ storeWord m a v (a + UInt32.ofNat k)) =
      leBytes 4 v.toNat := by
    rw [le_bytes_eq_map]
    apply List.map_congr_left
    intro k hk
    have hk : k < 4 := List.mem_range.mp hk
    have hoffset : (a + UInt32.ofNat k - a).toNat = k := by
      rw [add_sub_cancel_left, UInt32.toNat_ofNat']
      omega
    rw [storeWord, hoffset, if_pos hk]
  have hword : v.toNat % 256 ^ 4 = v.toNat := Nat.mod_eq_of_lt v.toNat_lt
  rw [loadWord, hbytes, of_bytes_le_bytes, hword, UInt32.ofNat_toNat]

theorem load_store_of_ne (m : UInt32 → UInt8) (a b v : UInt32) (ha : 4 ∣ a.toNat)
    (hb : 4 ∣ b.toNat) (hne : b ≠ a) : loadWord (storeWord m a v) b = loadWord m b := by
  have hbytes : (List.range 4).map (fun k ↦ storeWord m a v (b + UInt32.ofNat k)) =
      (List.range 4).map fun k ↦ m (b + UInt32.ofNat k) := by
    apply List.map_congr_left
    intro k hk
    have hk : k < 4 := List.mem_range.mp hk
    have hne : b.toNat ≠ a.toNat := fun h ↦ hne (UInt32.toNat_inj.mp h)
    have hlt := a.toNat_lt
    have hlt' := b.toNat_lt
    have hfar : ¬(b + UInt32.ofNat k - a).toNat < 4 := by
      rw [UInt32.toNat_sub, UInt32.toNat_add, UInt32.toNat_ofNat']
      omega
    rw [storeWord, if_neg hfar]
  rw [loadWord, hbytes, loadWord]

def byteRam : Ram (UInt32 → UInt8) where
  ldl := loadWord
  stl := storeWord
  InRam _ := True
  ldl_stl_self m a v _ _ := load_store_self m a v
  ldl_stl_of_ne m a b v _ _ := load_store_of_ne m a b v

end ByteMemory

end VarEmu.Library.WordStack
