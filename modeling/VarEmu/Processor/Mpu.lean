import VarEmu.Processor.Tlb

namespace VarEmu.Processor.Mpu

open Library.Pages Library.Queries Lookup Mmu Tlb
open ExceptionFrame (ExceptionIndex)

/-- The loop over eight fields of two bits, whose mask moves up from field to field. -/
def apRounds (field : Word → ℕ → Word) (k : ℕ) : Word × Word :=
  (List.range k).foldl (fun s i ↦ (s.1 ||| field s.2 (2 * i), s.2 <<< 2)) (0, 3)

def simpleMpuApBits (val : Word) : Word := (apRounds (fun mask i ↦ (val >>> i) &&& mask) 8).1

def extendedMpuApBits (val : Word) : Word := (apRounds (fun mask i ↦ (val &&& mask) <<< i) 8).1

def pmsav5DataApWrite (env : Cp15) (value : Word) : Cp15 :=
  { env with c5Data := extendedMpuApBits value }

def pmsav5DataApRead (env : Cp15) : Word := simpleMpuApBits env.c5Data

section Fields

theorem ap_rounds_mask (field : Word → ℕ → Word) (k : ℕ) :
    (apRounds field k).2 = 3#32 <<< (2 * k) := by
  induction k with
  | zero => rfl
  | succ k ih =>
    rw [apRounds, List.range_succ, List.foldl_append, List.foldl_cons, List.foldl_nil]
    change (apRounds field k).2 <<< 2 = _
    rw [ih, ← BitVec.shiftLeft_add]
    rfl

theorem ap_rounds_bit (field : Word → ℕ → Word) (k b : ℕ) :
    (apRounds field k).1.getLsbD b = true ↔
      ∃ i < k, (field (3#32 <<< (2 * i)) (2 * i)).getLsbD b = true := by
  induction k with
  | zero => simp [apRounds]
  | succ k ih =>
    have hsucc : (apRounds field (k + 1)).1 =
        (apRounds field k).1 ||| field (3#32 <<< (2 * k)) (2 * k) := by
      rw [← ap_rounds_mask field k, apRounds, List.range_succ, List.foldl_append, List.foldl_cons,
        List.foldl_nil]
      rfl
    rw [hsucc, BitVec.getLsbD_or, Bool.or_eq_true, ih]
    constructor
    · rintro (⟨i, hi, h⟩ | h)
      · exact ⟨i, by omega, h⟩
      · exact ⟨k, by omega, h⟩
    · rintro ⟨i, hi, h⟩
      obtain hi | rfl : i < k ∨ i = k := by omega
      · exact .inl ⟨i, hi, h⟩
      · exact .inr h

theorem mask_bit (i b : ℕ) : (3#32 <<< (2 * i)).getLsbD b = true ↔ b < 32 ∧ b / 2 = i := by
  have hthree (c : ℕ) : (3#32).getLsbD c = true ↔ c < 2 := by
    have hall : ∀ c < 32, (3#32).getLsbD c = true ↔ c < 2 := by decide
    by_cases hc : c < 32
    · exact hall c hc
    · rw [BitVec.getLsbD_of_ge _ _ (not_lt.mp hc)]
      simp
      omega
  simp only [BitVec.getLsbD_shiftLeft, Bool.and_eq_true, Bool.not_eq_true', decide_eq_true_eq,
    decide_eq_false_iff_not, hthree]
  omega

theorem simple_bit (val : Word) (b : ℕ) :
    (simpleMpuApBits val).getLsbD b = true ↔ b < 16 ∧ val.getLsbD (b + 2 * (b / 2)) = true := by
  rw [simpleMpuApBits, ap_rounds_bit]
  simp only [BitVec.getLsbD_and, BitVec.getLsbD_ushiftRight, Bool.and_eq_true, mask_bit]
  constructor
  · rintro ⟨i, hi, h, hb, rfl⟩
    exact ⟨by omega, by rwa [add_comm]⟩
  · rintro ⟨hb, h⟩
    exact ⟨b / 2, by omega, by rwa [add_comm], by omega, rfl⟩

theorem extended_bit (val : Word) (b : ℕ) :
    (extendedMpuApBits val).getLsbD b = true ↔
      b < 32 ∧ b % 4 < 2 ∧ val.getLsbD (b - 2 * (b / 4)) = true := by
  have hround (i : ℕ) : ((val &&& 3#32 <<< (2 * i)) <<< (2 * i)).getLsbD b = true ↔
      b < 32 ∧ 2 * i ≤ b ∧ val.getLsbD (b - 2 * i) = true ∧ (b - 2 * i) / 2 = i := by
    rw [BitVec.getLsbD_shiftLeft, BitVec.getLsbD_and, Bool.and_eq_true, Bool.and_eq_true,
      Bool.and_eq_true, mask_bit]
    simp only [Bool.not_eq_true', decide_eq_true_eq, decide_eq_false_iff_not]
    constructor
    · rintro ⟨⟨hb, hge⟩, h, -, hdiv⟩
      exact ⟨hb, not_lt.mp hge, h, hdiv⟩
    · rintro ⟨hb, hge, h, hdiv⟩
      exact ⟨⟨hb, not_lt.mpr hge⟩, h, by omega, hdiv⟩
  rw [extendedMpuApBits, ap_rounds_bit]
  simp only [hround]
  constructor
  · rintro ⟨i, hi, hb, hge, h, hdiv⟩
    obtain rfl : i = b / 4 := by omega
    exact ⟨hb, by omega, h⟩
  · rintro ⟨hb, hmod, h⟩
    exact ⟨b / 4, by omega, hb, by omega, h, by omega⟩

theorem simple_extended (val : Word) :
    simpleMpuApBits (extendedMpuApBits val) = val &&& 0xffff#32 := by
  have hlow : 0xffff#32 = low 32 16 := by decide
  apply BitVec.eq_of_getLsbD_eq
  intro b hb
  rw [Bool.eq_iff_iff, simple_bit, extended_bit, hlow, BitVec.getLsbD_and, getLsbD_low,
    Bool.and_eq_true, Bool.and_eq_true, decide_eq_true_eq, decide_eq_true_eq]
  have hindex : b + 2 * (b / 2) - 2 * ((b + 2 * (b / 2)) / 4) = b := by omega
  rw [hindex]
  constructor
  · rintro ⟨h16, -, -, h⟩
    exact ⟨h, hb, h16⟩
  · rintro ⟨h, -, h16⟩
    exact ⟨h16, by omega, by omega, h⟩

theorem extended_field (val : Word) (n : Fin 8) :
    (extendedMpuApBits val >>> (n.val * 4)) &&& 0xf#32 = (val >>> (n.val * 2)) &&& 3#32 := by
  have hfour : 0xf#32 = low 32 4 := by decide
  have htwo : 3#32 = low 32 2 := by decide
  apply BitVec.eq_of_getLsbD_eq
  intro b hb
  rw [Bool.eq_iff_iff, hfour, htwo, BitVec.getLsbD_and, BitVec.getLsbD_and,
    BitVec.getLsbD_ushiftRight, BitVec.getLsbD_ushiftRight, getLsbD_low, getLsbD_low]
  simp only [Bool.and_eq_true, decide_eq_true_eq, extended_bit]
  have hn := n.isLt
  constructor
  · rintro ⟨⟨h32, hmod, h⟩, -, h4⟩
    refine ⟨?_, hb, by omega⟩
    rwa [show n.val * 4 + b - 2 * ((n.val * 4 + b) / 4) = n.val * 2 + b by omega] at h
  · rintro ⟨h, -, h2⟩
    refine ⟨⟨by omega, by omega, ?_⟩, hb, by omega⟩
    rwa [show n.val * 4 + b - 2 * ((n.val * 4 + b) / 4) = n.val * 2 + b by omega]

end Fields

section Regions

/-- An enabled region is the aligned block of its size around its base. -/
def Contains (base address : Word) : Prop :=
  base.getLsbD 0 = true ∧ SamePage (((base >>> 1) &&& 0x1f#32).toNat + 1) base address

instance (base address : Word) : Decidable (Contains base address) :=
  inferInstanceAs (Decidable (_ ∧ _))

theorem region_mask {s : Word} (hs : s.toNat < 32) :
    ((1#32 <<< s) <<< 1) - 1#32 = low 32 (s.toNat + 1) := by
  have hall : ∀ k : ℕ, k < 32 → (((1#32 <<< k) <<< 1 : Word) - 1#32) = low 32 (k + 1) := by decide
  exact hall s.toNat hs

theorem region_matches_iff (address base : Word) :
    regionMatches address base = true ↔ Contains base address := by
  have hsize : ((base >>> 1) &&& 0x1f#32).toNat < 32 := by
    rw [BitVec.toNat_and]
    exact lt_of_le_of_lt Nat.and_le_right (by decide)
  have hbit : (base &&& 1#32 != 0#32) = base.getLsbD 0 := by
    rw [BitVec.and_one_eq_setWidth_ofBool_getLsbD]
    cases base.getLsbD 0 <;> rfl
  rw [regionMatches, Bool.and_eq_true, hbit, beq_iff_eq]
  change _ ∧ (base ^^^ address) &&&
    ~~~(((1#32 <<< ((base >>> 1) &&& 0x1f#32)) <<< 1) - 1#32) = 0#32 ↔ _
  rw [region_mask hsize, xor_above_eq_zero_iff]
  rfl

/-- The region that decides about an address: the one with the highest number around it. -/
structure Decides (env : Cp15) (address : Word) (n : Fin 8) : Prop where
  contains : Contains (env.c6Region n) address
  highest : ∀ k, n < k → ¬Contains (env.c6Region k) address

/-- The regions in the order of the search, cut at one of them. -/
theorem search_order (n : Fin 8) :
    ([7, 6, 5, 4, 3, 2, 1, 0] : List (Fin 8)) =
      [7, 6, 5, 4, 3, 2, 1, 0].filter (n < ·) ++
        n :: [7, 6, 5, 4, 3, 2, 1, 0].filter (· < n) := by
  revert n
  decide

theorem find_region_of_decides {env : Cp15} {address : Word} {n : Fin 8}
    (h : Decides env address n) : findRegion env address = some n := by
  have hn : regionMatches address (env.c6Region n) = true := (region_matches_iff _ _).mpr h.contains
  have habove : ∀ k, n < k → regionMatches address (env.c6Region k) = false := by
    intro k hk
    rw [Bool.eq_false_iff, ne_eq, region_matches_iff]
    exact h.highest k hk
  rw [findRegion, List.find?_eq_some_iff_append]
  refine ⟨hn, _, _, search_order n, ?_⟩
  intro k hk
  rw [List.mem_filter, decide_eq_true_eq] at hk
  rw [habove k hk.2, Bool.not_false]

theorem eval_mpu {f : Features} (hm : f.mpu = true) {env : Cp15} (hon : env.c1Sys &&& 1#32 ≠ 0#32)
    (a : Word) (t : AccessType) (u : Bool) (m : Memory) :
    (getPhysAddr f env a t u).eval m = getPhysAddrMpu env (modifiedAddress env a) t u := by
  simp only [getPhysAddr, if_neg hon, if_pos hm]
  rfl

/-- What the two bits of a region allow. -/
def fieldRights (isUser : Bool) : Fin 4 → Option Prot
  | 0 => none
  | 1 => if isUser then none else some .readWrite
  | 2 => some ⟨true, !isUser, false⟩
  | 3 => some .readWrite

theorem region_field_extended (v : Word) (n : Fin 8) (u : Bool) :
    regionCases u (regionField (extendedMpuApBits v) n) =
      fieldRights u (Fin.ofNat 4 (v >>> (n.val * 2)).toNat) := by
  have hcases : ∀ k < 2 ^ 2, regionCases u (Fin.ofNat 16 k) = fieldRights u (Fin.ofNat 4 k) := by
    cases u <;> decide
  have hlow := and_low_toNat (k := 2) (v >>> (n.val * 2)) (by decide)
  rw [regionField, extended_field, show 3#32 = low 32 2 by decide, hlow,
    hcases _ (Nat.mod_lt _ (by decide))]
  congr 1
  ext
  simp

/-- After a write to the permission register, a data access is judged by the two bits of the region
that decides about its address. The register reads back as written. -/
theorem data_ap_write_judges {f : Features} (hm : f.mpu = true) {env : Cp15}
    (hon : env.c1Sys &&& 1#32 ≠ 0#32) {t : AccessType} (ht : t ≠ .execute) {a : Word} {n : Fin 8}
    (hn : Decides env (modifiedAddress env a) n) (v : Word) (u : Bool) (m : Memory) :
    pmsav5DataApRead (pmsav5DataApWrite env v) = v &&& 0xffff#32 ∧
      (getPhysAddr f (pmsav5DataApWrite env v) a t u).eval m =
        match fieldRights u (Fin.ofNat 4 (v >>> (n.val * 2)).toNat) with
        | none => .error 1
        | some prot =>
          .ok ⟨(modifiedAddress env a).setWidth 64, { prot with exec := true }, 0x400⟩ := by
  refine ⟨simple_extended v, ?_⟩
  have hfind : findRegion (pmsav5DataApWrite env v) (modifiedAddress (pmsav5DataApWrite env v) a) =
      some n := find_region_of_decides ⟨hn.contains, hn.highest⟩
  have heval := eval_mpu hm (show (pmsav5DataApWrite env v).c1Sys &&& 1#32 ≠ 0#32 from hon) a t u m
  rw [heval, ← region_field_extended]
  simp only [getPhysAddrMpu, hfind, if_neg ht]
  rfl

abbrev mpuCore : Features := ⟨false, false, false, false, false, false, true⟩

/-- A background region and a page of its own at 0x8000. -/
def twoRegions : Cp15 :=
  { Cp15.reset 1 with
    c6Region := fun n ↦ if n.val = 0 then 0x3f else if n.val = 3 then 0x8017 else 0 }

theorem data_ap_write_judges_page :
    pmsav5DataApRead (pmsav5DataApWrite twoRegions 0x83) = 0x83 &&& 0xffff#32 ∧
      (getPhysAddr mpuCore (pmsav5DataApWrite twoRegions 0x83) 0x8004 .write true).eval
          (fun _ ↦ 0) =
        match fieldRights true (Fin.ofNat 4 ((0x83 : Word) >>> (3 * 2)).toNat) with
        | none => .error 1
        | some prot => .ok ⟨(modifiedAddress twoRegions 0x8004).setWidth 64,
            { prot with exec := true }, 0x400⟩ :=
  data_ap_write_judges (n := 3) rfl (by decide) (by decide) ⟨by decide, by decide⟩ 0x83 true _

end Regions

section Lock

variable (f : Features)

/-- The values that a failed data access leaves in the register. -/
abbrev faultStatuses : List Word := [1#32, 2#32, 0x801#32, 0x802#32]

/-- A data access has failed since the registers were as in `env`, and none of them has been
written. -/
structure Locked (env : Cp15) (s : Cpu) : Prop where
  enabled : s.cp15.c1Sys &&& 1#32 ≠ 0#32
  regions : s.cp15.c6Region = env.c6Region
  fcse : s.cp15.c13Fcse = env.c13Fcse
  status : s.cp15.c5Data ∈ faultStatuses

def misses (s : Cpu) (calls : List (Word × AccessType × Bool)) : Cpu :=
  calls.foldl (fun s c ↦ (cpuArmHandleMmuFault f s c.1 c.2.1 c.2.2).2) s

variable {f}

theorem mpu_status {env : Cp15} {a : Word} {t : AccessType} {u : Bool} {ret : Word}
    (h : getPhysAddrMpu env a t u = .error ret) : ret = 1 ∨ ret = 2 := by
  simp only [getPhysAddrMpu] at h
  split at h
  · cases h
    exact .inr rfl
  · split at h
    · cases h
      exact .inl rfl
    · cases h

theorem fault_status (env : Cp15) (a : Word) {t : AccessType} (ht : t ≠ .execute) {ret : Word}
    (h : ret = 1 ∨ ret = 2) : (recordFault f env a t ret).2.c5Data ∈ faultStatuses := by
  simp only [recordFault, if_neg ht]
  obtain rfl | rfl := h
  · split_ifs <;> decide
  · split_ifs <;> decide

theorem locked_fault (hm : f.mpu = true) {env : Cp15} {s : Cpu} (h : Locked env s) (a : Word)
    (t : AccessType) (u : Bool) : Locked env (cpuArmHandleMmuFault f s a t u).2 := by
  unfold cpuArmHandleMmuFault
  rw [eval_mpu hm h.enabled]
  cases hret : getPhysAddrMpu s.cp15 (modifiedAddress s.cp15 a) t u with
  | ok r => exact ⟨h.enabled, h.regions, h.fcse, h.status⟩
  | error ret =>
    by_cases ht : t = .execute
    · subst ht
      exact ⟨h.enabled, h.regions, h.fcse, h.status⟩
    · have hstatus := fault_status (f := f) s.cp15 a ht (mpu_status hret)
      simp only [recordFault, if_neg ht] at hstatus ⊢
      exact ⟨h.enabled, h.regions, h.fcse, hstatus⟩

theorem locked_misses (hm : f.mpu = true) {env : Cp15} {s : Cpu} (h : Locked env s)
    (calls : List (Word × AccessType × Bool)) : Locked env (misses f s calls) := by
  induction calls generalizing s with
  | nil => exact h
  | cons c calls ih => exact ih (locked_fault hm h c.1 c.2.1 c.2.2)

theorem locked_fails (hm : f.mpu = true) {env : Cp15} {s : Cpu} (h : Locked env s) {a : Word}
    {t : AccessType} (ht : t ≠ .execute) (hn : findRegion env (modifiedAddress env a) ≠ some 0)
    (u : Bool) : (cpuArmHandleMmuFault f s a t u).1 = some .dataAbort := by
  have hnone : ∀ status ∈ faultStatuses, ∀ n : Fin 8, n ≠ 0 →
      ∀ u, regionCases u (regionField status n) = none := by
    intro status hs
    simp only [List.mem_cons, List.not_mem_nil, or_false] at hs
    obtain rfl | rfl | rfl | rfl := hs <;> decide
  have hfind : findRegion s.cp15 (modifiedAddress s.cp15 a) =
      findRegion env (modifiedAddress env a) := by
    simp only [findRegion, modifiedAddress, h.regions, h.fcse]
  have herror : ∃ ret, getPhysAddrMpu s.cp15 (modifiedAddress s.cp15 a) t u = .error ret := by
    simp only [getPhysAddrMpu, hfind, if_neg ht]
    cases hr : findRegion env (modifiedAddress env a) with
    | none => exact ⟨2, rfl⟩
    | some n =>
      have hne : n ≠ 0 := fun h0 ↦ hn (by rw [hr, h0])
      simp only [hnone _ h.status n hne u]
      exact ⟨1, rfl⟩
  obtain ⟨ret, hret⟩ := herror
  unfold cpuArmHandleMmuFault
  rw [eval_mpu hm h.enabled, hret]
  simp only [recordFault, if_neg ht]

/-- The permissions of data accesses and the status of their faults share a register. Once a data
access has failed, no access that another region than the first decides gets a translation. -/
theorem data_fault_locks_regions (hm : f.mpu = true) {s : Cpu}
    (hon : s.cp15.c1Sys &&& 1#32 ≠ 0#32) {a₀ : Word} {t₀ : AccessType} {u₀ : Bool}
    (hfault : (cpuArmHandleMmuFault f s a₀ t₀ u₀).1 = some .dataAbort)
    (calls : List (Word × AccessType × Bool)) {a : Word} {t : AccessType} (ht : t ≠ .execute)
    (hn : findRegion s.cp15 (modifiedAddress s.cp15 a) ≠ some 0) (u : Bool) :
    (cpuArmHandleMmuFault f (misses f (cpuArmHandleMmuFault f s a₀ t₀ u₀).2 calls) a t u).1 =
      some .dataAbort := by
  refine locked_fails hm (locked_misses hm ?_ calls) ht hn u
  unfold cpuArmHandleMmuFault at hfault ⊢
  rw [eval_mpu hm hon] at hfault ⊢
  cases hret : getPhysAddrMpu s.cp15 (modifiedAddress s.cp15 a₀) t₀ u₀ with
  | ok r =>
    rw [hret] at hfault
    cases hfault
  | error ret =>
    rw [hret] at hfault
    by_cases ht₀ : t₀ = .execute
    · subst ht₀
      cases hfault
    · have hstatus := fault_status (f := f) s.cp15 a₀ ht₀ (mpu_status hret)
      simp only [recordFault, if_neg ht₀] at hstatus ⊢
      exact ⟨hon, rfl, rfl, hstatus⟩

theorem data_fault_locks_regions_page :
    (cpuArmHandleMmuFault mpuCore (misses mpuCore (cpuArmHandleMmuFault mpuCore
      (Cpu.start twoRegions fun _ ↦ 0) 0x8004 .read false).2 [(0x100, .read, false)])
      0x8008 .write false).1 = some .dataAbort :=
  data_fault_locks_regions rfl (by decide) rfl _ (by decide) (by decide) false

end Lock

end VarEmu.Processor.Mpu
