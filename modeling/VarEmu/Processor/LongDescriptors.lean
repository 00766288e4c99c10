import VarEmu.Processor.Mmu

namespace VarEmu.Processor.LongDescriptors

open Library.Queries Lookup Mmu

/-- The descriptors that a walk reads, in order. -/
def path {α : Type} (m : Memory) (p : Walk α) : List HwAddr :=
  (p.asked m).map fun l ↦ (m l).setWidth 64

/-- The attributes gathered from the tables on a path. -/
def gathered (tableattrs : Word) (tables : List HwAddr) : Word :=
  tables.foldl (fun attrs d ↦ attrs ||| (extract64 d 59 5).setWidth 32) tableattrs

section Path

variable {α : Type} (m : Memory)

theorem eval_ldq (addr : HwAddr) (k : HwAddr → Walk α) :
    (ldqPhys addr >>= k).eval m = (k (m (.ldq addr))).eval m := rfl

theorem path_ldq (addr : HwAddr) (k : HwAddr → Walk α) :
    path m (ldqPhys addr >>= k) = m (.ldq addr) :: path m (k (m (.ldq addr))) := by
  change (m (.ldq addr)).setWidth 64 :: _ = _
  rw [BitVec.setWidth_eq]
  rfl

theorem walk_lpae_path (a : Word) (left : ℕ) (descaddr : HwAddr) (tableattrs : Word)
    {l : LeafLpae} (h : (walkLpae a left descaddr tableattrs).eval m = .ok l) :
    ∃ tables leaf, path m (walkLpae a left descaddr tableattrs) = tables ++ [leaf] ∧
      l.attrs = mergeAttrs leaf (gathered tableattrs tables) := by
  induction left generalizing descaddr tableattrs with
  | zero =>
    rw [walkLpae, eval_ldq] at h
    rw [walkLpae, path_ldq]
    generalize m (.ldq (descaddrAt a 3 descaddr)) = d at h ⊢
    split_ifs at h ⊢
    · cases h
    · cases h
      exact ⟨[], d, rfl, rfl⟩
  | succ left ih =>
    rw [walkLpae, eval_ldq] at h
    rw [walkLpae, path_ldq]
    generalize m (.ldq (descaddrAt a (2 - left) descaddr)) = d at h ⊢
    split_ifs at h ⊢
    · cases h
    · obtain ⟨tables, leaf, hpath, hattrs⟩ := ih _ _ h
      exact ⟨d :: tables, leaf, by rw [hpath]; rfl, hattrs⟩
    · cases h
      exact ⟨[], d, rfl, rfl⟩

theorem leaf_lpae_path {env : Cp15} {a : Word} {l : LeafLpae}
    (h : (leafLpae env a).eval m = .ok l) :
    ∃ tables leaf, path m (leafLpae env a) = tables ++ [leaf] ∧
      l.attrs = mergeAttrs leaf (gathered 0 tables) := by
  simp only [leafLpae] at h ⊢
  split at h
  · cases h
  · split_ifs at h ⊢ <;> first | cases h | exact walk_lpae_path m _ _ _ _ h

end Path

theorem gathered_bit (tableattrs : Word) (tables : List HwAddr) {i : ℕ} (hi : i < 5) :
    (gathered tableattrs tables).getLsbD i =
      (tableattrs.getLsbD i || tables.any fun d ↦ d.getLsbD (59 + i)) := by
  induction tables generalizing tableattrs with
  | nil => simp [gathered]
  | cons d tables ih =>
    have hd : ((extract64 d 59 5).setWidth 32).getLsbD i = d.getLsbD (59 + i) := by
      simp only [extract64, BitVec.getLsbD_setWidth, BitVec.getLsbD_and, BitVec.getLsbD_ushiftRight,
        BitVec.getLsbD_allOnes]
      have h32 : i < 32 := by omega
      have h64 : 64 - 5 + i < 64 := by omega
      simp [h32, h64]
    rw [gathered, List.foldl_cons]
    change (gathered _ tables).getLsbD i = _
    rw [ih, BitVec.getLsbD_or, hd, List.any_cons, Bool.or_assoc]

section Merge

variable (d : HwAddr) (tableattrs : Word)

theorem extract_bit (k : ℕ) : extract32 tableattrs k 1 ≠ 0#32 ↔ tableattrs.getLsbD k = true := by
  have hone : BitVec.allOnes 32 >>> (32 - 1) = 1#32 := by decide
  rw [extract32, hone, BitVec.and_one_eq_setWidth_ofBool_getLsbD, BitVec.getLsbD_ushiftRight]
  cases tableattrs.getLsbD (k + 0) <;> simp_all

theorem merge_access_flag : (mergeAttrs d tableattrs).getLsbD 8 = d.getLsbD 10 := by
  simp only [mergeAttrs]
  split_ifs <;> simp [extract64, extract32]

theorem merge_read_only :
    (mergeAttrs d tableattrs).getLsbD 5 = (d.getLsbD 7 || tableattrs.getLsbD 3) := by
  simp only [mergeAttrs]
  split_ifs <;> simp [extract64, extract32]

theorem merge_privileged_never :
    (mergeAttrs d tableattrs).getLsbD 11 = (d.getLsbD 53 || tableattrs.getLsbD 0) := by
  simp only [mergeAttrs]
  split_ifs <;> simp [extract64, extract32]

theorem merge_never :
    (mergeAttrs d tableattrs).getLsbD 12 = (d.getLsbD 54 || tableattrs.getLsbD 1) := by
  simp only [mergeAttrs]
  split_ifs <;> simp [extract64, extract32]

theorem merge_user :
    (mergeAttrs d tableattrs).getLsbD 4 = (d.getLsbD 6 && !tableattrs.getLsbD 2) := by
  simp only [mergeAttrs, extract_bit]
  cases h : tableattrs.getLsbD 2
  · simp [extract64, extract32]
  · simp

end Merge

theorem test_bit (x : Word) {k : ℕ} (hk : k < 32) :
    (x &&& (1#32 <<< k) != 0#32) = x.getLsbD k := by
  rw [← BitVec.twoPow_eq, BitVec.and_twoPow]
  cases x.getLsbD k
  · rfl
  · simp only [if_true, bne_iff_ne]
    intro h
    have hbit := congrArg (·.getLsbD k) h
    simp [hk] at hbit

/-- The permission of an access through the tables and the last descriptor of a path. -/
structure Permits (tables : List HwAddr) (leaf : HwAddr) (t : AccessType) (u : Bool) : Prop where
  accessed : leaf.getLsbD 10 = true
  user : u = true → leaf.getLsbD 6 = true ∧ ∀ d ∈ tables, d.getLsbD 61 = false
  write : t = .write → leaf.getLsbD 7 = false ∧ ∀ d ∈ tables, d.getLsbD 62 = false
  execute : t = .execute → leaf.getLsbD 54 = false ∧ ∀ d ∈ tables, d.getLsbD 60 = false
  privileged : t = .execute → u = false →
    leaf.getLsbD 53 = false ∧ ∀ d ∈ tables, d.getLsbD 59 = false

theorem permits_iff {tables : List HwAddr} {leaf : HwAddr} {t : AccessType} {u : Bool} :
    Permits tables leaf t u ↔ leaf.getLsbD 10 = true ∧
      (u = true → leaf.getLsbD 6 = true ∧ ∀ d ∈ tables, d.getLsbD 61 = false) ∧
      (t = .write → leaf.getLsbD 7 = false ∧ ∀ d ∈ tables, d.getLsbD 62 = false) ∧
      (t = .execute → leaf.getLsbD 54 = false ∧ ∀ d ∈ tables, d.getLsbD 60 = false) ∧
      (t = .execute → u = false → leaf.getLsbD 53 = false ∧ ∀ d ∈ tables, d.getLsbD 59 = false) :=
  ⟨fun h ↦ ⟨h.accessed, h.user, h.write, h.execute, h.privileged⟩,
    fun ⟨ha, hu, hw, hx, hp⟩ ↦ ⟨ha, hu, hw, hx, hp⟩⟩

theorem guarded_ok {c : Prop} [Decidable c] {status : Word} {x : Result} :
    (∃ r, (if c then .error status else x) = .ok r) ↔ ¬c ∧ ∃ r, x = .ok r := by
  by_cases h : c <;> simp [h]

theorem permit_lpae_iff (t : AccessType) (u : Bool) {l : LeafLpae} {tables : List HwAddr}
    {leaf : HwAddr} (h : l.attrs = mergeAttrs leaf (gathered 0 tables)) :
    (∃ r, permitLpae t u l = .ok r) ↔ Permits tables leaf t u := by
  have h8 : l.attrs.getLsbD 8 = leaf.getLsbD 10 := by rw [h, merge_access_flag]
  have h5 : l.attrs.getLsbD 5 = (leaf.getLsbD 7 || tables.any (·.getLsbD 62)) := by
    rw [h, merge_read_only, gathered_bit _ _ (by omega)]
    simp
  have h4 : l.attrs.getLsbD 4 = (leaf.getLsbD 6 && !tables.any (·.getLsbD 61)) := by
    rw [h, merge_user, gathered_bit _ _ (by omega)]
    simp
  have h11 : l.attrs.getLsbD 11 = (leaf.getLsbD 53 || tables.any (·.getLsbD 59)) := by
    rw [h, merge_privileged_never, gathered_bit _ _ (by omega)]
    simp
  have h12 : l.attrs.getLsbD 12 = (leaf.getLsbD 54 || tables.any (·.getLsbD 60)) := by
    rw [h, merge_never, gathered_bit _ _ (by omega)]
    simp
  have hnone (k : ℕ) : (∀ d ∈ tables, d.getLsbD k = false) ↔ tables.any (·.getLsbD k) = false := by
    simp
  have hzero {k : ℕ} (hk : k < 32) :
      l.attrs &&& (1#32 <<< k) = 0#32 ↔ l.attrs.getLsbD k = false := by
    rw [← test_bit l.attrs hk, bne_eq_false_iff_eq]
  rw [permits_iff]
  simp only [permitLpae, test_bit _ (show 5 < 32 by omega), test_bit _ (show 11 < 32 by omega),
    test_bit _ (show 12 < 32 by omega), hzero (show 4 < 32 by omega), hzero (show 8 < 32 by omega),
    h4, h5, h8, h11, h12, hnone]
  simp only [guarded_ok, Except.ok.injEq, exists_eq', and_true]
  cases t <;> cases u <;> simp

/-- A walk that reaches a last descriptor permits what no table on its path forbids. -/
theorem lpae_permissions {env : Cp15} {m : Memory} {a : Word} {l : LeafLpae}
    (h : (leafLpae env a).eval m = .ok l) (t : AccessType) (u : Bool) :
    ∃ tables leaf, path m (getPhysAddrLpae env a t u) = tables ++ [leaf] ∧
      ((∃ r, (getPhysAddrLpae env a t u).eval m = .ok r) ↔ Permits tables leaf t u) := by
  obtain ⟨tables, leaf, hpath, hattrs⟩ := leaf_lpae_path m h
  refine ⟨tables, leaf, ?_, ?_⟩
  · rw [← hpath, path, getPhysAddrLpae, asked_map, path]
  · rw [← permit_lpae_iff t u hattrs, getPhysAddrLpae, eval_map, h]
    rfl

/-- Two tables above a page, the first of which forbids writing. -/
def twoTables : Memory
  | .ldl _ => 0
  | .ldq addr =>
    if addr = 0 then 0x4000000000001003 else if addr = 0x1000 then 0x2003 else 0x5443

def longOn : Cp15 := { Cp15.reset 1 with c2Control := 0x80000000 }

theorem lpae_permissions_two_tables :
    ∃ tables leaf, path twoTables (getPhysAddrLpae longOn 0x10 .write true) = tables ++ [leaf] ∧
      ((∃ r, (getPhysAddrLpae longOn 0x10 .write true).eval twoTables = .ok r) ↔
        Permits tables leaf .write true) :=
  lpae_permissions
    (l := ⟨0x5010, mergeAttrs 0x5443 (gathered 0 [0x4000000000001003, 0x2003]), 0x1000, 3⟩) rfl
    .write true

end VarEmu.Processor.LongDescriptors
