import Mathlib.Tactic.FinCases
import VarEmu.Processor.Mmu

namespace VarEmu.Processor.PageRights

open Library.Pages Library.Queries Lookup Mmu

variable {f : Features} {env : Cp15}

abbrev pageBits : ℕ := 10

section Pages

variable {a b : Word}

def leafTo (b : Word) (l : Leaf) : Leaf :=
  { l with physAddr := relocate pageBits l.physAddr b }

def lpaeTo (b : Word) (l : LeafLpae) : LeafLpae :=
  { l with descaddr := relocate pageBits l.descaddr (b.setWidth 64) }

def translationTo (b : Word) (r : Translation) : Translation :=
  { r with physAddr := relocate pageBits r.physAddr (b.setWidth 64) }

/-- A frame of the mask `m` below which the offset is taken from the address. -/
theorem masked_frame (h : SamePage pageBits a b) (desc : Word) {m o : Word}
    (hm : m &&& low 32 pageBits = 0#32) (ho : o &&& low 32 pageBits = low 32 pageBits) :
    (desc &&& m) ||| (b &&& o) =
      relocate pageBits ((desc &&& m) ||| (a &&& o)) b := by
  apply h.frame _ ho
  rw [BitVec.and_assoc, hm, BitVec.and_zero]

theorem level1_table_page (h : SamePage pageBits a b)
    (hmask : env.c2Mask &&& low 32 pageBits = 0#32) :
    getLevel1TableAddress env b = getLevel1TableAddress env a := by
  have hsel : b &&& env.c2Mask = a &&& env.c2Mask := h.symm.and hmask
  have hindex : (b >>> 18) &&& 0x3ffc#32 = (a >>> 18) &&& 0x3ffc#32 := h.symm.field (by decide)
  simp only [getLevel1TableAddress, hsel, hindex]

theorem page_v5_page (h : SamePage pageBits a b) (type domain desc : Word) :
    pageV5 f env b type domain desc =
      (pageV5 f env a type domain desc).map (leafTo b) := by
  have hsub : (b >>> 13) &&& 6#32 = (a >>> 13) &&& 6#32 := h.symm.field (by decide)
  unfold pageV5
  simp only [hsub,
    masked_frame h desc (m := 0xffff0000#32) (o := 0xffff#32) (by decide) (by decide),
    masked_frame h desc (m := 0xfffff000#32) (o := 0xfff#32) (by decide) (by decide),
    masked_frame h desc (m := 0xfffffc00#32) (o := 0x3ff#32) (by decide) (by decide)]
  split_ifs <;> rfl

theorem leaf_v5_page (h : SamePage pageBits a b) (hmask : env.c2Mask &&& low 32 pageBits = 0#32) :
    leafV5 f env b = (leafV5 f env a).map (Except.map (leafTo b)) := by
  have hcoarse : (b >>> 10) &&& 0x3fc#32 = (a >>> 10) &&& 0x3fc#32 := h.symm.field (by decide)
  have hfine : (b >>> 8) &&& 0xffc#32 = (a >>> 8) &&& 0xffc#32 := h.symm.field (by decide)
  simp only [leafV5, level1_table_page h hmask, map_bind, hcoarse, hfine, page_v5_page h]
  refine congrArg _ (funext fun desc ↦ ?_)
  simp only [masked_frame h desc (m := 0xfff00000#32) (o := 0x000fffff#32) (by decide) (by decide)]
  split_ifs <;> rfl

theorem permit_v5_relocate (t : AccessType) (u : Bool) (l : Leaf) :
    permitV5 f env t u (leafTo b l) = (permitV5 f env t u l).map (translationTo b) := by
  simp only [permitV5, apply_ite (Except.map (translationTo b)), leafTo,
    relocate_setWidth]
  rfl

theorem page_v6_page (h : SamePage pageBits a b) (domain : Word) (pxn : Bool) (desc : Word) :
    pageV6 env b domain pxn desc = (pageV6 env a domain pxn desc).map (leafTo b) := by
  unfold pageV6
  simp only [masked_frame h desc (m := 0xffff0000#32) (o := 0xffff#32) (by decide) (by decide),
    masked_frame h desc (m := 0xfffff000#32) (o := 0xfff#32) (by decide) (by decide)]
  split_ifs <;> rfl

theorem leaf_v6_page (h : SamePage pageBits a b) (hmask : env.c2Mask &&& low 32 pageBits = 0#32) :
    leafV6 f env b = (leafV6 f env a).map (Except.map (leafTo b)) := by
  have hcoarse : (b >>> 10) &&& 0x3fc#32 = (a >>> 10) &&& 0x3fc#32 := h.symm.field (by decide)
  simp only [leafV6, level1_table_page h hmask, map_bind, hcoarse, page_v6_page h]
  refine congrArg _ (funext fun desc ↦ ?_)
  simp only [masked_frame h desc (m := 0xfff00000#32) (o := 0x000fffff#32) (by decide) (by decide),
    masked_frame h desc (m := 0xff000000#32) (o := 0x00ffffff#32) (by decide) (by decide)]
  split_ifs <;> rfl

theorem permit_v6_relocate (t : AccessType) (u : Bool) (l : Leaf) :
    permitV6 f env t u (leafTo b l) = (permitV6 f env t u l).map (translationTo b) := by
  simp only [permitV6, apply_ite (Except.map (translationTo b)), leafTo,
    relocate_setWidth]
  rfl

theorem descaddr_page (h : SamePage pageBits a b) {level : ℕ} (hl : level ≤ 3) (descaddr : HwAddr) :
    descaddrAt b level descaddr = descaddrAt a level descaddr := by
  have hclear : ∀ l ≤ 3, 0xff8#32 &&& low 32 (pageBits - 9 * (4 - l)) = 0#32 := by decide
  have hindex : (b >>> (9 * (4 - level))) &&& 0xff8#32 = (a >>> (9 * (4 - level))) &&& 0xff8#32 :=
    h.symm.field (hclear level hl)
  rw [descaddrAt, descaddrAt, hindex]

theorem leaf_at_page (h : SamePage pageBits a b) {level : ℕ} (hl : level ≤ 3) (descriptor : HwAddr)
    (tableattrs : Word) :
    leafAt b level descriptor tableattrs = lpaeTo b (leafAt a level descriptor tableattrs) := by
  have hfull : ∀ l ≤ 3, (1#32 <<< (39 - 9 * l) - 1).setWidth 64 &&& low 64 pageBits =
      low 64 pageBits := by decide
  have hframe : descriptor &&& 0xfffffff000#64 &&& low 64 pageBits = 0#64 := by
    rw [BitVec.and_assoc, show (0xfffffff000#64 &&& low 64 pageBits) = 0#64 by decide,
      BitVec.and_zero]
  simp only [leafAt, lpaeTo, BitVec.setWidth_and]
  rw [h.setWidth.frame hframe (hfull level hl)]

theorem walk_lpae_page (h : SamePage pageBits a b) (left : ℕ) (descaddr : HwAddr)
    (tableattrs : Word) :
    walkLpae b left descaddr tableattrs =
      (walkLpae a left descaddr tableattrs).map (Except.map (lpaeTo b)) := by
  induction left generalizing descaddr tableattrs with
  | zero =>
    simp only [walkLpae, descaddr_page h le_rfl, leaf_at_page h le_rfl, map_bind]
    refine congrArg _ (funext fun descriptor ↦ ?_)
    split_ifs <;> rfl
  | succ left ih =>
    have hl : 2 - left ≤ 3 := by omega
    simp only [walkLpae, descaddr_page h hl, leaf_at_page h hl, map_bind, ih]
    refine congrArg _ (funext fun descriptor ↦ ?_)
    split_ifs <;> rfl

theorem extract_high_page (h : SamePage pageBits a b) {n : ℕ} (hn : n < 8) :
    extract32 b (32 - n) n = extract32 a (32 - n) n := by
  apply h.symm.field
  rw [show pageBits - (32 - n) = 0 by simp [pageBits]; omega]
  rw [show low 32 0 = 0#32 by decide, BitVec.and_zero]

theorem ttbr_select_page (h : SamePage pageBits a b) {t0sz t1sz : ℕ} (h0 : t0sz < 8)
    (h1 : t1sz < 8) : ttbrSelect t0sz t1sz b = ttbrSelect t0sz t1sz a := by
  simp only [ttbrSelect, extract_high_page h h0, extract_high_page h.not h1]

theorem extract_three_lt (value : Word) (start : ℕ) : (extract32 value start 3).toNat < 8 := by
  rw [extract32, BitVec.toNat_and]
  exact lt_of_le_of_lt Nat.and_le_right (by decide)

theorem walk_region_page (h : SamePage pageBits a b) {tsz : ℕ} (ht : tsz < 8) (left : ℕ)
    (descaddr : HwAddr) :
    walkLpae (b &&& (0xffffffff#32 >>> tsz)) left descaddr 0 =
      (walkLpae (a &&& (0xffffffff#32 >>> tsz)) left descaddr 0).map
        (Except.map (lpaeTo b)) := by
  have hfull : ∀ n < 8, (0xffffffff#32 >>> n).setWidth 64 &&& low 64 pageBits =
      low 64 pageBits := by decide
  have hoffset : lpaeTo (b &&& (0xffffffff#32 >>> tsz)) = lpaeTo b := by
    funext l
    rw [lpaeTo, BitVec.setWidth_and, relocate_masked _ _ (hfull tsz ht), lpaeTo]
  rw [walk_lpae_page (h.masked _), hoffset]

theorem leaf_lpae_page (h : SamePage pageBits a b) :
    leafLpae env b = (leafLpae env a).map (Except.map (lpaeTo b)) := by
  have h0 := extract_three_lt env.c2Control 0
  have h1 := extract_three_lt env.c2Control 16
  simp only [leafLpae, ttbr_select_page h h0 h1]
  cases ttbrSelect (extract32 env.c2Control 0 3).toNat (extract32 env.c2Control 16 3).toNat a with
  | none => rfl
  | some select =>
    have ht : (if select then (extract32 env.c2Control 16 3).toNat
        else (extract32 env.c2Control 0 3).toNat) < 8 := by
      split_ifs
      · exact h1
      · exact h0
    simp only [walk_region_page h ht, apply_ite (Lookup.map _), map_pure]
    rfl

theorem permit_lpae_relocate (t : AccessType) (u : Bool) (l : LeafLpae) :
    permitLpae t u (lpaeTo b l) = (permitLpae t u l).map (translationTo b) := by
  simp only [permitLpae, apply_ite (Except.map (translationTo b))]
  rfl

/-- The registers treat the addresses of one page alike. -/
structure Paged (env : Cp15) : Prop where
  mask : env.c2Mask &&& low 32 pageBits = 0#32
  fcse : env.c13Fcse &&& low 32 pageBits = 0#32

theorem map_permitted {L : Type} {leaf : Word → Walk (Except Word L)} {move : L → L}
    {permit : L → Result} (hleaf : leaf b = (leaf a).map (Except.map move))
    (hpermit : ∀ l, permit (move l) = (permit l).map (translationTo b)) :
    (leaf b).map (·.bind permit) =
      ((leaf a).map (·.bind permit)).map (Except.map (translationTo b)) := by
  rw [hleaf, map_map, map_map]
  congr 1
  funext x
  cases x with
  | error e => rfl
  | ok l => exact hpermit l

theorem modified_address_page (hp : Paged env) (h : SamePage pageBits a b) :
    SamePage pageBits (modifiedAddress env a) (modifiedAddress env b) := by
  have hlt : a < 0x02000000#32 ↔ b < 0x02000000#32 := by
    rw [samePage_iff_div] at h
    rw [BitVec.lt_def, BitVec.lt_def]
    change a.toNat / 1024 = b.toNat / 1024 at h
    change a.toNat < 33554432 ↔ b.toNat < 33554432
    omega
  by_cases ha : a < 0x02000000#32
  · rw [modifiedAddress, modifiedAddress, if_pos ha, if_pos (hlt.mp ha)]
    exact h.add (by decide) hp.fcse
  · rw [modifiedAddress, modifiedAddress, if_neg ha, if_neg (fun hb ↦ ha (hlt.mpr hb))]
    exact h

theorem modified_address_offset (hp : Paged env) (b : Word) :
    translationTo (modifiedAddress env b) = translationTo b := by
  have hlow : modifiedAddress env b &&& low 32 pageBits = b &&& low 32 pageBits := by
    unfold modifiedAddress
    split_ifs
    · exact add_and_low b (by decide) hp.fcse
    · rfl
  funext r
  rw [translationTo, relocate_congr _ (setWidth_and_low (by decide) hlow),
    translationTo]

/-- The translation of an address is that of any other address of its page, with its own offset. -/
theorem get_phys_addr_page (hm : f.mpu = false) (hp : Paged env) (h : SamePage pageBits a b)
    (t : AccessType) (u : Bool) :
    getPhysAddr f env b t u =
      (getPhysAddr f env a t u).map (Except.map (translationTo b)) := by
  have h' := modified_address_page hp h
  rw [← modified_address_offset hp]
  simp only [getPhysAddr, hm, apply_ite (Lookup.map _), Bool.false_eq_true, if_false]
  congr 1
  · simp only [map_pure, Except.map, translationTo, h'.setWidth.relocate_self]
  · congr 1
    · exact map_permitted (leaf_lpae_page h') (permit_lpae_relocate t u)
    · congr 1
      · exact map_permitted (leaf_v6_page h' hp.mask) (permit_v6_relocate t u)
      · exact map_permitted (leaf_v5_page h' hp.mask) (permit_v5_relocate t u)

end Pages

section Rights

/-- A successful translation tells which of the other accesses to the page succeed as well. -/
def Exact (result : AccessType → Result) : Prop :=
  ∀ t r, result t = .ok r → ∀ t',
    if r.prot.grants t' then result t' = .ok r else ∃ status, result t' = .error status

theorem check_ap_access (ap : Fin 8) (d : Word) (t : AccessType) (u : Bool) :
    checkAp f env ap d t u =
      if t = .write ∧ (checkAp f env ap d .read u).write = false then .none
      else checkAp f env ap d .read u := by
  have hcases : ∀ v s r ap t u, apCases v s r ap t u =
      if t = .write ∧ (apCases v s r ap .read u).write = false then .none
      else apCases v s r ap .read u := by decide
  by_cases hd : d = 3#32
  · simp [checkAp, hd]
  · simpa only [checkAp, if_neg hd] using hcases ..

theorem check_ap_read (ap : Fin 8) (d : Word) (u : Bool) :
    checkAp f env ap d .read u ∈ [Prot.none, .pageRead, .readWrite] := by
  have hcases : ∀ v s r ap u, apCases v s r ap .read u ∈ [Prot.none, .pageRead, .readWrite] := by
    decide
  unfold checkAp
  split_ifs
  · decide
  · exact hcases ..

/-- Reading and writing are granted by the second where they are granted by the first. -/
def Within (p q : Prot) : Prop := (p.read → q.read) ∧ (p.write → q.write)

instance (p q : Prot) : Decidable (Within p q) := inferInstanceAs (Decidable (_ ∧ _))

theorem check_ap_user (ap : Fin 8) (d : Word) (t : AccessType) :
    Within (checkAp f env ap d t true) (checkAp f env ap d t false) := by
  have hcases : ∀ v s r ap t,
      Within (apCases v s r ap t true) (apCases v s r ap t false) := by decide
  unfold checkAp
  split_ifs
  · decide
  · exact hcases ..

theorem permit_v5_exact (u : Bool) (l : Leaf) : Exact fun t ↦ permitV5 f env t u l := by
  intro t r h t'
  have hread := @check_ap_read f env l.ap l.domainProt u
  simp only [permitV5, check_ap_access l.ap l.domainProt t, check_ap_access l.ap l.domainProt t']
    at h ⊢
  simp only [List.mem_cons, List.not_mem_nil, or_false] at hread
  obtain hr | hr | hr := hread
  · simp [hr] at h
  · rw [hr] at h ⊢
    cases t <;> simp at h <;> subst h <;> cases t' <;> simp [Prot.grants]
  · rw [hr] at h ⊢
    cases t <;> simp at h <;> subst h <;> cases t' <;> simp [Prot.grants]

theorem permit_v6_exact (u : Bool) (l : Leaf) : Exact fun t ↦ permitV6 f env t u l := by
  intro t r h t'
  have hread := @check_ap_read f env l.ap l.domainProt u
  simp only [permitV6, check_ap_access l.ap l.domainProt t, check_ap_access l.ap l.domainProt t']
    at h ⊢
  generalize (l.xn || l.pxn && !u) = xn at h ⊢
  by_cases hd : l.domainProt = 3#32
  · simp only [if_pos hd, Except.ok.injEq] at h ⊢
    subst h
    cases t' <;> rfl
  · by_cases hflag : env.c1Sys &&& (1#32 <<< 29) ≠ 0#32 ∧ l.ap.val % 2 = 0
    · simp only [if_neg hd, if_pos hflag] at h
      split_ifs at h
    · simp only [if_neg hd, if_neg hflag] at h ⊢
      simp only [List.mem_cons, List.not_mem_nil, or_false] at hread
      obtain hr | hr | hr := hread
      · simp [hr] at h
      · rw [hr] at h ⊢
        cases t <;> cases xn <;> simp at h <;> subst h <;> cases t' <;> simp [Prot.grants]
      · rw [hr] at h ⊢
        cases t <;> cases xn <;> simp at h <;> subst h <;> cases t' <;> simp [Prot.grants]

theorem permit_lpae_exact (u : Bool) (l : LeafLpae) : Exact fun t ↦ permitLpae t u l := by
  intro t r h t'
  simp only [permitLpae] at h ⊢
  generalize (l.attrs &&& 1#32 <<< 12 != 0#32 || !u && l.attrs &&& 1#32 <<< 11 != 0#32) = noExec
    at h ⊢
  generalize (l.attrs &&& 1#32 <<< 5 != 0#32) = noWrite at h ⊢
  by_cases haf : l.attrs &&& 1#32 <<< 8 = 0#32
  · simp only [if_pos haf, reduceCtorEq] at h
  · by_cases hu : u = true ∧ l.attrs &&& 1#32 <<< 4 = 0#32
    · simp only [if_neg haf, if_pos hu, reduceCtorEq] at h
    · simp only [if_neg haf, if_neg hu] at h ⊢
      cases t <;> cases noExec <;> cases noWrite <;> simp at h <;> subst h <;> cases t' <;>
        simp [Prot.grants]

theorem Exact.bind {L : Type} (x : Except Word L) {permit : AccessType → L → Result}
    (h : ∀ l, Exact fun t ↦ permit t l) : Exact fun t ↦ x.bind (permit t) := by
  cases x with
  | error e => intro t r h; cases h
  | ok l => exact h l

/-- On a system with translation tables, the permissions a successful access reports are those of
all kinds of access. -/
theorem get_phys_addr_exact (hm : f.mpu = false) (m : Memory) (a : Word) (u : Bool) :
    Exact fun t ↦ (getPhysAddr f env a t u).eval m := by
  unfold getPhysAddr
  simp only [hm, Bool.false_eq_true, if_false]
  split_ifs
  · intro t r h t'
    cases h
    cases t' <;> rfl
  · simpa only [getPhysAddrLpae, eval_map] using Exact.bind _ (permit_lpae_exact u)
  · simpa only [getPhysAddrV6, eval_map] using Exact.bind _ (permit_v6_exact u)
  · simpa only [getPhysAddrV5, eval_map] using Exact.bind _ (permit_v5_exact u)

/-- One successful translation tells all about its page: every kind of access to every address. -/
theorem translation_uniform_on_page (hm : f.mpu = false) (hp : Paged env) (m : Memory)
    {a b : Word} (h : SamePage pageBits a b) (u : Bool) {t : AccessType} {r : Translation}
    (hr : (getPhysAddr f env a t u).eval m = .ok r) (t' : AccessType) :
    if r.prot.grants t' then (getPhysAddr f env b t' u).eval m = .ok (translationTo b r)
    else ∃ status, (getPhysAddr f env b t' u).eval m = .error status := by
  have hexact := get_phys_addr_exact hm m a u t r hr t'
  rw [get_phys_addr_page hm hp h, eval_map]
  split_ifs at hexact ⊢
  · exact congrArg (Except.map (translationTo b)) hexact
  · obtain ⟨status, hstatus⟩ := hexact
    exact ⟨status, congrArg (Except.map (translationTo b)) hstatus⟩

/-- A table of sections that map every megabyte to the one of number `n`. -/
def sections (n : Word) : Memory
  | .ldl _ => (n <<< 20) ||| 0xc02#32
  | .ldq _ => 0

/-- Translation is on, domain 0 is checked. -/
def sectionsOn : Cp15 := { Cp15.reset 1 with c2Base0 := 0x4000, c3 := 1 }

abbrev v5Core : Features := ⟨false, false, false, false, false, false, false⟩

theorem translation_uniform_on_page_sections :
    if Prot.all.grants .write then
      (getPhysAddr v5Core sectionsOn 0x8010 .write true).eval (sections 3) =
        .ok (translationTo 0x8010 ⟨0x308004, .all, 0x100000⟩)
    else ∃ status, (getPhysAddr v5Core sectionsOn 0x8010 .write true).eval (sections 3) =
      .error status :=
  @translation_uniform_on_page v5Core sectionsOn rfl ⟨by decide, by decide⟩ (sections 3) 0x8004
    0x8010 (by decide) true .read ⟨0x308004, .all, 0x100000⟩ rfl .write

theorem check_ap_none {ap : Fin 8} {d : Word} {t : AccessType} {u : Bool}
    (h : checkAp f env ap d t u ≠ .none) : (checkAp f env ap d t u).read = true := by
  have hread := @check_ap_read f env ap d u
  rw [check_ap_access] at h ⊢
  split_ifs at h ⊢
  · exact absurd rfl h
  · simp only [List.mem_cons, List.not_mem_nil, or_false] at hread
    obtain hr | hr | hr := hread
    · exact absurd hr h
    · rw [hr]
    · rw [hr]

theorem check_ap_privileged {ap : Fin 8} {d : Word} {t : AccessType}
    (h : checkAp f env ap d t true ≠ .none) : checkAp f env ap d t false ≠ .none := by
  intro hp
  have hw := (@check_ap_user f env ap d t).1 (check_ap_none h)
  rw [hp] at hw
  exact absurd hw (by decide)

/-- The privileged access goes to the same place, with at least the same rights. -/
def UserWithin (user privileged : Result) : Prop :=
  ∀ r, user = .ok r → ∃ r', privileged = .ok r' ∧ r'.physAddr = r.physAddr ∧
    r'.pageSize = r.pageSize ∧ Within r.prot r'.prot

theorem permit_v5_user (t : AccessType) (l : Leaf) :
    UserWithin (permitV5 f env t true l) (permitV5 f env t false l) := by
  intro r h
  have hwithin := @check_ap_user f env l.ap l.domainProt t
  unfold permitV5 at h ⊢
  by_cases hu : checkAp f env l.ap l.domainProt t true = .none
  · simp only [if_pos hu, reduceCtorEq] at h
  · simp only [if_neg hu, Except.ok.injEq] at h
    subst h
    exact ⟨_, if_neg (check_ap_privileged hu), rfl, rfl, hwithin⟩

theorem permit_v6_user {t : AccessType} (ht : t ≠ .execute) (l : Leaf) :
    UserWithin (permitV6 f env t true l) (permitV6 f env t false l) := by
  intro r h
  have hwithin := @check_ap_user f env l.ap l.domainProt t
  simp only [permitV6, ht, and_false, if_false] at h ⊢
  by_cases hd : l.domainProt = 3#32
  · simp only [if_pos hd, Except.ok.injEq] at h ⊢
    exact ⟨r, h, rfl, rfl, id, id⟩
  · by_cases hflag : env.c1Sys &&& (1#32 <<< 29) ≠ 0#32 ∧ l.ap.val % 2 = 0
    · simp only [if_neg hd, if_pos hflag, reduceCtorEq] at h
    · by_cases hu : checkAp f env l.ap l.domainProt t true = .none
      · simp only [if_neg hd, if_neg hflag, if_pos hu, reduceCtorEq] at h
      · simp only [if_neg hd, if_neg hflag, if_neg hu, if_neg (check_ap_privileged hu),
          Except.ok.injEq] at h ⊢
        subst h
        exact ⟨_, rfl, rfl, rfl, hwithin⟩

theorem permit_lpae_user {t : AccessType} (ht : t ≠ .execute) (l : LeafLpae) :
    UserWithin (permitLpae t true l) (permitLpae t false l) := by
  intro r h
  simp only [permitLpae, ht, and_false, if_false, Bool.false_eq_true, false_and] at h ⊢
  split_ifs at h ⊢
  simp only [Except.ok.injEq] at h
  subst h
  exact ⟨_, rfl, rfl, rfl, id, id⟩

theorem get_phys_addr_mpu_user (a : Word) (t : AccessType) :
    UserWithin (getPhysAddrMpu env a t true) (getPhysAddrMpu env a t false) := by
  have hcases : ∀ field p, regionCases true field = some p →
      ∃ q, regionCases false field = some q ∧ Within p q := by
    intro field
    fin_cases field <;> decide +revert
  intro r h
  unfold getPhysAddrMpu at h ⊢
  cases hn : findRegion env a with
  | none => simp [hn] at h
  | some n =>
    simp only [hn] at h ⊢
    generalize regionField (if t = .execute then env.c5Insn else env.c5Data) n = field at h ⊢
    cases hp : regionCases true field with
    | none => simp [hp] at h
    | some p =>
      obtain ⟨q, hq, hwithin⟩ := hcases field p hp
      simp only [hp, Except.ok.injEq] at h
      subst h
      simp only [hq]
      exact ⟨_, rfl, rfl, rfl, hwithin⟩

theorem UserWithin.bind {L : Type} (x : Except Word L) {user privileged : L → Result}
    (h : ∀ l, UserWithin (user l) (privileged l)) :
    UserWithin (x.bind user) (x.bind privileged) := by
  cases x with
  | error e => intro r h; cases h
  | ok l => exact h l

/-- Whoever may read or write a place in user mode may do so in a privileged mode, whatever the
translation scheme. -/
theorem user_access_within_privileged {t : AccessType} (ht : t ≠ .execute) (m : Memory) (a : Word) :
    UserWithin ((getPhysAddr f env a t true).eval m) ((getPhysAddr f env a t false).eval m) := by
  unfold getPhysAddr
  split_ifs
  · intro r h
    exact ⟨r, h, rfl, rfl, id, id⟩
  · exact get_phys_addr_mpu_user _ t
  · simpa only [getPhysAddrLpae, eval_map] using UserWithin.bind _ (permit_lpae_user ht)
  · simpa only [getPhysAddrV6, eval_map] using UserWithin.bind _ (permit_v6_user ht)
  · simpa only [getPhysAddrV5, eval_map] using UserWithin.bind _ (permit_v5_user t)

theorem user_access_within_privileged_sections :
    UserWithin ((getPhysAddr v5Core sectionsOn 0x8010 .write true).eval (sections 3))
      ((getPhysAddr v5Core sectionsOn 0x8010 .write false).eval (sections 3)) :=
  user_access_within_privileged (by decide) (sections 3) 0x8010

end Rights
end VarEmu.Processor.PageRights
