import VarEmu.Library.CachedAnswers
import VarEmu.Library.Reactive
import VarEmu.Processor.ExceptionFrame
import VarEmu.Processor.PageRights

namespace VarEmu.Processor.Tlb

open Library.CachedAnswers Library.Pages Library.Queries Library.Reactive Lookup
open Mmu PageRights
open ExceptionFrame (ExceptionIndex)

abbrev targetPageMask : Word := ~~~0x3ff#32

/-- The translation mode and the address of a page. -/
abbrev Key := Bool × Word

structure Entry where
  physPage : HwAddr
  prot : Prot

structure Cpu where
  cp15 : Cp15
  mem : Memory
  tlb : Key → Option Entry

inductive Outcome
  | done
  | address (physAddr : HwAddr)
  | exception (index : ExceptionIndex)
  /-- The access finds no entry after the entry was made. -/
  | again
  deriving DecidableEq

/-- What a write to a register takes out of the table. -/
inductive Flush
  | nothing
  | all
  | page (address : Word)

def Flush.drops : Flush → Key → Bool
  | .nothing, _ => false
  | .all, _ => true
  | .page address, k => k.2 == address

def Flush.apply (flush : Flush) (tlb : Key → Option Entry) : Key → Option Entry :=
  fun k ↦ if !flush.drops k then tlb k else none

section Registers

variable (f : Features) (env : Cp15)

def sctlrWrite (value : Word) : Cp15 × Flush := ({ env with c1Sys := value }, .all)

def dacrWrite (value : Word) : Cp15 × Flush := ({ env with c3 := value }, .all)

def fcseWrite (value : Word) : Cp15 × Flush :=
  if env.c13Fcse ≠ value then ({ env with c13Fcse := value }, .all) else (env, .nothing)

def contextidrWrite (value : Word) : Cp15 × Flush :=
  ({ env with c13Context := value },
    if env.c13Context ≠ value ∧ f.mpu = false then .all else .nothing)

def tlbiallWrite : Cp15 × Flush := (env, .all)

def tlbimvaWrite (value : Word) : Cp15 × Flush := (env, .page (value &&& targetPageMask))

def tlbiasidWrite : Cp15 × Flush := (env, .all)

def tlbimvaaWrite (value : Word) : Cp15 × Flush := (env, .page (value &&& targetPageMask))

-- A shift count that exceeds the word is reduced modulo 32, as on the host.
def vmsaTtbcrWrite (value : Word) : Cp15 × Flush :=
  let value := if f.lpae then value &&& ~~~((7#32 <<< 19) ||| (3#32 <<< 14) ||| (0xf#32 <<< 3))
    else value &&& 7#32
  ({ env with
      c2Control := value
      c2Mask := ~~~(0xffffffff#32 >>> (value.toNat % 32))
      c2BaseMask := ~~~(0x3fff#32 >>> (value.toNat % 32)) },
    if f.lpae then .all else .nothing)

def ttbr0Write (value : Word) : Cp15 × Flush := ({ env with c2Base0 := value }, .nothing)

def ttbr1Write (value : Word) : Cp15 × Flush := ({ env with c2Base1 := value }, .nothing)

def ttbr064Write (value : HwAddr) : Cp15 × Flush :=
  ({ env with c2Base0Hi := (value >>> 32).setWidth 32, c2Base0 := value.setWidth 32 }, .all)

def ttbr164Write (value : HwAddr) : Cp15 × Flush :=
  ({ env with c2Base1Hi := (value >>> 32).setWidth 32, c2Base1 := value.setWidth 32 }, .nothing)

def parWrite (value : Word) : Cp15 × Flush :=
  ({ env with c7Par := if f.lpae then value else if f.v7 then value &&& 0xfffff6ff#32
      else value &&& 0xfffff1ff#32 }, .nothing)

def par64Write (value : HwAddr) : Cp15 × Flush :=
  ({ env with c7ParHi := (value >>> 32).setWidth 32, c7Par := value.setWidth 32 }, .nothing)

/-- The fault registers after a failed access, and the exception. -/
def recordFault (address : Word) (accessType : AccessType) (ret : Word) : ExceptionIndex × Cp15 :=
  if accessType = .execute then
    (.prefetchAbort, { env with c5Insn := ret, c6Insn := address })
  else
    (.dataAbort,
      { env with
        c5Data := if accessType = .write ∧ f.v6 then ret ||| (1#32 <<< 11) else ret
        c6Data := address })

def atsAccess (opc2 : Fin 8) : AccessType := if opc2.val % 2 = 1 then .write else .read

def atsUser (opc2 : Fin 8) : Bool := opc2.val / 2 % 2 = 1

/-- The result of a translation in the long format of the register. -/
def longPar : Result → HwAddr
  | .ok r => (1#64 <<< 11) ||| (r.physAddr &&& ~~~0xfff#64)
  | .error ret => (1#64 <<< 11) ||| 1#64 ||| ((ret &&& 0x3f#32) <<< 1).setWidth 64

def shortPar : Result → Word
  | .ok r =>
    if r.pageSize = 1#32 <<< 24 ∧ f.v7 then
      (r.physAddr.setWidth 32 &&& 0xff000000#32) ||| (1#32 <<< 1)
    else r.physAddr.setWidth 32 &&& 0xfffff000#32
  | .error ret =>
    ((ret &&& (10#32 <<< 1)) >>> 5) ||| ((ret &&& (12#32 <<< 1)) >>> 6)
      ||| ((ret &&& 0xf#32) <<< 1) ||| 1#32

/-- A translation on request. The operations on other security states are undefined. -/
def atsWrite (mem : Memory) (opc2 : Fin 8) (value : Word) : Option Cp15 :=
  if 4 ≤ opc2.val then none
  else
    let ret := (getPhysAddr f env value (atsAccess opc2) (atsUser opc2)).eval mem
    if extendedAddressesEnabled f env then
      some
        { env with
          c7Par := (longPar ret).setWidth 32
          c7ParHi := (longPar ret >>> 32).setWidth 32 }
    else some { env with c7Par := shortPar f ret, c7ParHi := 0 }

end Registers

inductive Register
  | sctlr
  | dacr
  | fcse
  | contextidr
  | tlbiall
  | tlbimva
  | tlbiasid
  | tlbimvaa
  | ttbcr
  | ttbr0
  | ttbr1
  | par
  deriving DecidableEq

inductive Register64
  | ttbr0
  | ttbr1
  | par
  deriving DecidableEq

def writeRegister (f : Features) (env : Cp15) : Register → Word → Cp15 × Flush
  | .sctlr, value => sctlrWrite env value
  | .dacr, value => dacrWrite env value
  | .fcse, value => fcseWrite env value
  | .contextidr, value => contextidrWrite f env value
  | .tlbiall, _ => tlbiallWrite env
  | .tlbimva, value => tlbimvaWrite env value
  | .tlbiasid, _ => tlbiasidWrite env
  | .tlbimvaa, value => tlbimvaaWrite env value
  | .ttbcr, value => vmsaTtbcrWrite f env value
  | .ttbr0, value => ttbr0Write env value
  | .ttbr1, value => ttbr1Write env value
  | .par, value => parWrite f env value

def writeRegister64 (env : Cp15) : Register64 → HwAddr → Cp15 × Flush
  | .ttbr0, value => ttbr064Write env value
  | .ttbr1, value => ttbr164Write env value
  | .par, value => par64Write env value

/-- What happens to the processor and its memory. Other bus masters may change the memory, and an
entry may be displaced at any time. -/
inductive Event
  | access (address : Word) (accessType : AccessType) (mmuIdx : Bool)
  | write (r : Register) (value : Word)
  | write64 (r : Register64) (value : HwAddr)
  | ats (opc2 : Fin 8) (value : Word)
  | memory (m : Memory)
  | evict (k : Key)

section Machine

variable (f : Features)

def tlbSetPage (s : Cpu) (k : Key) (e : Entry) : Cpu :=
  { s with tlb := Function.update s.tlb k (some e) }

def cpuArmHandleMmuFault (s : Cpu) (address : Word) (accessType : AccessType) (mmuIdx : Bool) :
    Option ExceptionIndex × Cpu :=
  match (getPhysAddr f s.cp15 address accessType mmuIdx).eval s.mem with
  | .ok r =>
    (none, tlbSetPage s (mmuIdx, address &&& targetPageMask) ⟨r.physAddr &&& ~~~0x3ff#64, r.prot⟩)
  | .error ret =>
    let (index, cp15) := recordFault f s.cp15 address accessType ret
    (some index, { s with cp15 })

def hit (s : Cpu) (address : Word) (accessType : AccessType) (mmuIdx : Bool) : Option HwAddr :=
  match s.tlb (mmuIdx, address &&& targetPageMask) with
  | some e =>
    if e.prot.grants accessType then some (e.physPage ||| (address.setWidth 64 &&& 0x3ff#64))
    else none
  | none => none

def access (s : Cpu) (address : Word) (accessType : AccessType) (mmuIdx : Bool) : Outcome × Cpu :=
  match hit s address accessType mmuIdx with
  | some physAddr => (.address physAddr, s)
  | none =>
    match cpuArmHandleMmuFault f s address accessType mmuIdx with
    | (some index, s) => (.exception index, s)
    | (none, s) =>
      match hit s address accessType mmuIdx with
      | some physAddr => (.address physAddr, s)
      | none => (.again, s)

def Cpu.update (s : Cpu) (w : Cp15 × Flush) : Cpu := { s with cp15 := w.1, tlb := w.2.apply s.tlb }

def step (s : Cpu) : Event → Outcome × Cpu
  | .access address accessType mmuIdx => access f s address accessType mmuIdx
  | .write r value => (.done, s.update (writeRegister f s.cp15 r value))
  | .write64 r value => (.done, s.update (writeRegister64 s.cp15 r value))
  | .ats opc2 value =>
    match atsWrite f s.cp15 s.mem opc2 value with
    | some cp15 => (.done, { s with cp15 })
    | none => (.exception .udef, s)
  | .memory m => (.done, { s with mem := m })
  | .evict k => (.done, { s with tlb := Function.update s.tlb k none })

/-- The same machine without a table: every access walks. -/
structure Flat where
  cp15 : Cp15
  mem : Memory

def Cpu.flat (s : Cpu) : Flat := ⟨s.cp15, s.mem⟩

def flatAccess (s : Flat) (address : Word) (accessType : AccessType) (mmuIdx : Bool) :
    Outcome × Flat :=
  match (getPhysAddr f s.cp15 address accessType mmuIdx).eval s.mem with
  | .ok r => (.address r.physAddr, s)
  | .error ret =>
    let (index, cp15) := recordFault f s.cp15 address accessType ret
    (.exception index, { s with cp15 })

def flatStep (s : Flat) : Event → Outcome × Flat
  | .access address accessType mmuIdx => flatAccess f s address accessType mmuIdx
  | .write r value => (.done, { s with cp15 := (writeRegister f s.cp15 r value).1 })
  | .write64 r value => (.done, { s with cp15 := (writeRegister64 s.cp15 r value).1 })
  | .ats opc2 value =>
    match atsWrite f s.cp15 s.mem opc2 value with
    | some cp15 => (.done, { s with cp15 })
    | none => (.exception .udef, s)
  | .memory m => (.done, { s with mem := m })
  | .evict _ => (.done, s)

end Machine

section Transparency

variable (f : Features)

/-- The translation of a page for a kind of access. -/
def pageTranslation (s : Flat) (k : Key) (t : AccessType) : Result :=
  (getPhysAddr f s.cp15 k.2 t k.1).eval s.mem

/-- Every access that the entry grants goes where the tables send it. -/
def RightEntry (s : Flat) (k : Key) (e : Entry) : Prop :=
  ∀ t, e.prot.grants t = true → ∃ size, pageTranslation f s k t = .ok ⟨e.physPage, e.prot, size⟩

def flushOf (s : Cpu) : Event → Flush
  | .write r value => (writeRegister f s.cp15 r value).2
  | .write64 r value => (writeRegister64 s.cp15 r value).2
  | _ => .nothing

/-- The pages whose translation has changed since they were last taken out of the table. -/
def staleAfter (stale : Key → Bool) (s : Cpu) (e : Event) : Key → Bool :=
  nextStale (flushOf f s e).drops (fun k ↦ decide (∃ t,
    pageTranslation f (step f s e).2.flat k t ≠ pageTranslation f s.flat k t)) stale

/-- The machine, watched for pages that have become stale. -/
abbrev monitored : Cpu × (Key → Bool) → Event → Outcome × (Cpu × (Key → Bool)) :=
  ghost (step f) (staleAfter f)

/-- No access goes to a page whose translation has changed without an invalidation, and process
identifiers are multiples of the page size. -/
def careful (s : Cpu × (Key → Bool)) : Event → Bool
  | .access address _ mmuIdx => !s.2 (mmuIdx, address &&& targetPageMask)
  | .write .fcse value => value &&& low 32 pageBits == 0#32
  | _ => true

structure Invariant (s : Cpu × (Key → Bool)) (t : Flat) : Prop where
  flat : s.1.flat = t
  paged : Paged s.1.cp15
  coherent : Coherent (RightEntry f) t s.2 s.1.tlb

variable {f}

theorem target_page_mask_eq : targetPageMask = ~~~low 32 pageBits := by decide

theorem eval_page (hm : f.mpu = false) {s : Flat} (hp : Paged s.cp15) {a b : Word}
    (h : SamePage pageBits a b) (t : AccessType) (u : Bool) :
    (getPhysAddr f s.cp15 b t u).eval s.mem =
      ((getPhysAddr f s.cp15 a t u).eval s.mem).map (translationTo b) := by
  rw [get_phys_addr_page hm hp h, eval_map]

theorem page_offset (a : Word) : (a &&& targetPageMask).setWidth 64 &&& low 64 pageBits = 0#64 := by
  have hlow : low 64 pageBits = (low 32 pageBits).setWidth 64 := by decide
  rw [target_page_mask_eq, hlow, ← BitVec.setWidth_and, base_and_low]
  rfl

/-- The translation of the first address of a page is the first address of a page. -/
theorem page_translation_base (hm : f.mpu = false) {s : Flat} (hp : Paged s.cp15) {a : Word}
    {u : Bool} {t : AccessType} {r : Translation}
    (h : pageTranslation f s (u, a &&& targetPageMask) t = .ok r) :
    r.physAddr &&& ~~~low 64 pageBits = r.physAddr := by
  have hself := eval_page hm hp (SamePage.rfl (a := a &&& targetPageMask)) t u
  rw [show (getPhysAddr f s.cp15 (a &&& targetPageMask) t u).eval s.mem = .ok r from h] at hself
  simp only [Except.map, Except.ok.injEq] at hself
  have hphys := congrArg Translation.physAddr hself
  rw [translationTo, relocate_base _ (page_offset a)] at hphys
  exact hphys.symm

theorem RightEntry.access (hm : f.mpu = false) {s : Flat} (hp : Paged s.cp15) {a : Word} {u : Bool}
    {e : Entry} (he : RightEntry f s (u, a &&& targetPageMask) e) {t : AccessType}
    (ht : e.prot.grants t = true) :
    ∃ size, (getPhysAddr f s.cp15 a t u).eval s.mem =
      .ok ⟨e.physPage ||| (a.setWidth 64 &&& 0x3ff#64), e.prot, size⟩ := by
  obtain ⟨size, hpage⟩ := he t ht
  have hbase := page_translation_base hm hp hpage
  refine ⟨size, ?_⟩
  rw [eval_page hm hp (target_page_mask_eq ▸ samePage_base a) t u]
  change (pageTranslation f s (u, a &&& targetPageMask) t).map (translationTo a) = _
  rw [hpage, Except.map, translationTo, relocate_eq_or hbase]
  rfl

theorem right_entry_of_walk (hm : f.mpu = false) {s : Flat} (hp : Paged s.cp15) {a : Word}
    {u : Bool} {t : AccessType} {r : Translation}
    (h : (getPhysAddr f s.cp15 a t u).eval s.mem = .ok r) :
    RightEntry f s (u, a &&& targetPageMask) ⟨r.physAddr &&& ~~~0x3ff#64, r.prot⟩ := by
  intro t' ht'
  have hwalk := get_phys_addr_exact hm s.mem a u t r h t'
  rw [if_pos ht'] at hwalk
  dsimp only at hwalk
  refine ⟨r.pageSize, ?_⟩
  rw [pageTranslation, eval_page hm hp (target_page_mask_eq ▸ (samePage_base a).symm) t' u, hwalk,
    Except.map, translationTo, relocate_base _ (page_offset a)]
  rfl

theorem walk_grants (hm : f.mpu = false) {s : Flat} {a : Word} {u : Bool} {t : AccessType}
    {r : Translation} (h : (getPhysAddr f s.cp15 a t u).eval s.mem = .ok r) :
    r.prot.grants t = true := by
  have hwalk := get_phys_addr_exact hm s.mem a u t r h t
  by_contra hg
  rw [if_neg hg] at hwalk
  obtain ⟨status, hstatus⟩ := hwalk
  dsimp only at hstatus
  rw [h] at hstatus
  cases hstatus

theorem hit_set_page (s : Cpu) (a : Word) {t : AccessType} (u : Bool) {e : Entry}
    (h : e.prot.grants t = true) :
    hit (tlbSetPage s (u, a &&& targetPageMask) e) a t u =
      some (e.physPage ||| (a.setWidth 64 &&& 0x3ff#64)) := by
  simp only [hit, tlbSetPage, Function.update_self, h, if_true]

/-- An access uses an entry, makes one, or fails as the walk does. -/
theorem access_cases (hm : f.mpu = false) {s : Cpu} (hp : Paged s.cp15) (a : Word) (t : AccessType)
    (u : Bool) :
    (∃ e, s.tlb (u, a &&& targetPageMask) = some e ∧ e.prot.grants t = true ∧
      access f s a t u = (.address (e.physPage ||| (a.setWidth 64 &&& 0x3ff#64)), s)) ∨
    (∃ r, (getPhysAddr f s.cp15 a t u).eval s.mem = .ok r ∧
      access f s a t u = (.address r.physAddr,
        tlbSetPage s (u, a &&& targetPageMask) ⟨r.physAddr &&& ~~~0x3ff#64, r.prot⟩)) ∨
    (∃ ret, (getPhysAddr f s.cp15 a t u).eval s.mem = .error ret ∧
      access f s a t u = (.exception (recordFault f s.cp15 a t ret).1,
        { s with cp15 := (recordFault f s.cp15 a t ret).2 })) := by
  cases hhit : hit s a t u with
  | some pa =>
    have ha : access f s a t u = (.address pa, s) := by simp only [access, hhit]
    simp only [hit] at hhit
    split at hhit
    · rename_i e he
      split_ifs at hhit with hg
      cases hhit
      exact .inl ⟨e, he, hg, ha⟩
    · cases hhit
  | none =>
    cases hwalk : (getPhysAddr f s.cp15 a t u).eval s.mem with
    | error ret =>
      refine .inr (.inr ⟨ret, rfl, ?_⟩)
      simp only [access, hhit, cpuArmHandleMmuFault, hwalk]
    | ok r =>
      refine .inr (.inl ⟨r, rfl, ?_⟩)
      have hg := walk_grants hm (s := s.flat) hwalk
      obtain ⟨size, hsame⟩ := (right_entry_of_walk hm (s := s.flat) hp hwalk).access hm hp hg
      have hphys : r.physAddr = (r.physAddr &&& ~~~0x3ff#64) ||| (a.setWidth 64 &&& 0x3ff#64) := by
        have := hwalk.symm.trans hsame
        rw [Except.ok.injEq] at this
        exact congrArg Translation.physAddr this
      have hnew := hit_set_page s a u (e := ⟨r.physAddr &&& ~~~0x3ff#64, r.prot⟩) hg
      simp only [access, hhit, cpuArmHandleMmuFault, hwalk, hnew]
      rw [← hphys]

theorem step_tlb (hm : f.mpu = false) {s : Cpu} (hp : Paged s.cp15) (e : Event) (k : Key)
    (v : Entry) (h : (step f s e).2.tlb k = some v) :
    (flushOf f s e).drops k = false ∧ (s.tlb k = some v ∨ RightEntry f s.flat k v) := by
  have hdropped (w : Cp15 × Flush) (hw : (s.update w).tlb k = some v) :
      w.2.drops k = false ∧ s.tlb k = some v := by
    simp only [Cpu.update, Flush.apply] at hw
    split_ifs at hw with hd
    exact ⟨by simpa using hd, hw⟩
  cases e with
  | access a t u =>
    refine ⟨rfl, ?_⟩
    obtain ⟨e, -, -, ha⟩ | ⟨r, hwalk, ha⟩ | ⟨ret, -, ha⟩ := access_cases hm hp a t u
    · rw [step, ha] at h
      exact .inl h
    · rw [step, ha] at h
      by_cases hk : k = (u, a &&& targetPageMask)
      · subst hk
        simp only [tlbSetPage, Function.update_self, Option.some.injEq] at h
        exact .inr (h ▸ right_entry_of_walk hm hp hwalk)
      · simp only [tlbSetPage, Function.update_of_ne hk] at h
        exact .inl h
    · rw [step, ha] at h
      exact .inl h
  | write r value => exact ⟨(hdropped _ h).1, .inl (hdropped _ h).2⟩
  | write64 r value => exact ⟨(hdropped _ h).1, .inl (hdropped _ h).2⟩
  | ats opc2 value =>
    refine ⟨rfl, .inl ?_⟩
    simp only [step] at h
    split at h
    · exact h
    · exact h
  | memory m => exact ⟨rfl, .inl h⟩
  | evict k' =>
    refine ⟨rfl, .inl ?_⟩
    by_cases hk : k = k'
    · simp [step, hk] at h
    · simpa [step, hk] using h

theorem ttbcr_shift {value m : Word} (hm : m &&& low 32 5 = 7#32) :
    (value &&& m).toNat % 32 < 8 := by
  have hle : (value &&& 7#32).toNat ≤ 7 := by
    rw [BitVec.toNat_and]
    exact Nat.and_le_right
  have hmod := and_low_toNat (k := 5) (value &&& m) (by decide)
  rw [BitVec.and_assoc, hm] at hmod
  change _ = _ % 32 at hmod
  omega

theorem ttbcr_mask {n : ℕ} (hn : n < 8) : ~~~(0xffffffff#32 >>> n) &&& low 32 pageBits = 0#32 := by
  have hall : ∀ n < 8, ~~~(0xffffffff#32 >>> n) &&& low 32 pageBits = 0#32 := by decide
  exact hall n hn

theorem paged_write {env : Cp15} (hp : Paged env) {r : Register} {value : Word}
    (hv : r = .fcse → value &&& low 32 pageBits = 0#32) :
    Paged (writeRegister f env r value).1 := by
  cases r
  case fcse =>
    simp only [writeRegister, fcseWrite]
    split_ifs
    · exact ⟨hp.mask, hv rfl⟩
    · exact hp
  case ttbcr =>
    refine ⟨ttbcr_mask ?_, hp.fcse⟩
    split_ifs
    · exact ttbcr_shift (by decide)
    · exact ttbcr_shift (by decide)
  all_goals exact ⟨hp.mask, hp.fcse⟩

theorem paged_fault {env : Cp15} (hp : Paged env) (a : Word) (t : AccessType) (ret : Word) :
    Paged (recordFault f env a t ret).2 := by
  unfold recordFault
  split_ifs <;> exact ⟨hp.mask, hp.fcse⟩

theorem ats_write_eq {env env' : Cp15} {m : Memory} {opc2 : Fin 8} {value : Word}
    (h : atsWrite f env m opc2 value = some env') :
    env' = { env with c7Par := env'.c7Par, c7ParHi := env'.c7ParHi } := by
  simp only [atsWrite] at h
  split_ifs at h <;> cases h <;> rfl

theorem paged_step (hm : f.mpu = false) {s : Cpu × (Key → Bool)} (hp : Paged s.1.cp15) {e : Event}
    (hc : careful s e = true) : Paged (step f s.1 e).2.cp15 := by
  cases e with
  | access a t u =>
    obtain ⟨e, -, -, ha⟩ | ⟨r, -, ha⟩ | ⟨ret, -, ha⟩ := access_cases hm hp a t u
    · rw [step, ha]
      exact hp
    · rw [step, ha]
      exact hp
    · rw [step, ha]
      exact paged_fault hp a t ret
  | write r value =>
    apply paged_write hp
    rintro rfl
    simpa [careful] using hc
  | write64 r value =>
    cases r <;> exact ⟨hp.mask, hp.fcse⟩
  | ats opc2 value =>
    simp only [step]
    split
    · rename_i env' h
      rw [ats_write_eq h]
      exact ⟨hp.mask, hp.fcse⟩
    · exact hp
  | memory m => exact hp
  | evict k => exact hp

theorem step_flat (hm : f.mpu = false) {s : Cpu × (Key → Bool)} {t : Flat} (hi : Invariant f s t)
    {e : Event} (hc : careful s e = true) :
    (step f s.1 e).1 = (flatStep f t e).1 ∧ (step f s.1 e).2.flat = (flatStep f t e).2 := by
  obtain ⟨rfl, hp, hcoherent⟩ := hi
  cases e with
  | access a t u =>
    obtain ⟨e, he, hg, ha⟩ | ⟨r, hwalk, ha⟩ | ⟨ret, hwalk, ha⟩ := access_cases hm hp a t u
    · obtain ⟨size, hwalk⟩ := (hcoherent _ e (by simpa [careful] using hc) he).access hm hp hg
      simp only [step, ha, flatStep, flatAccess, hwalk, and_self]
    · simp only [step, ha, flatStep, flatAccess, Cpu.flat, hwalk, tlbSetPage, and_self]
    · simp only [step, ha, flatStep, flatAccess, Cpu.flat, hwalk, and_self]
  | write r value => exact ⟨rfl, rfl⟩
  | write64 r value => exact ⟨rfl, rfl⟩
  | ats opc2 value =>
    simp only [step, flatStep, Cpu.flat]
    split <;> exact ⟨rfl, rfl⟩
  | memory m => exact ⟨rfl, rfl⟩
  | evict k => exact ⟨rfl, rfl⟩

theorem invariant_step (hm : f.mpu = false) (s : Cpu × (Key → Bool)) (t : Flat) (e : Event)
    (hi : Invariant f s t) (hc : careful s e = true) :
    (monitored f s e).1 = (flatStep f t e).1 ∧
      Invariant f (monitored f s e).2 (flatStep f t e).2 := by
  obtain ⟨hout, hflat⟩ := step_flat hm hi hc
  refine ⟨hout, hflat, paged_step hm hi.paged hc, ?_⟩
  have hcoherent := hi.coherent
  rw [← hi.flat] at hcoherent
  rw [← hflat]
  refine hcoherent.next (step_tlb hm hi.paged e) ?_
  intro k v hsame hright t ht
  obtain ⟨size, hpage⟩ := hright t ht
  refine ⟨size, ?_⟩
  have hk : ∀ t, pageTranslation f (step f s.1 e).2.flat k t = pageTranslation f s.1.flat k t := by
    simpa using hsame
  rw [hk t, hpage]

def Cpu.start (env : Cp15) (m : Memory) : Cpu := ⟨env, m, fun _ ↦ none⟩

/-- A processor with an empty table. Its accesses go where the tables in memory send them at that
time, as long as software takes out pages before it uses them with a new translation. -/
theorem tlb_transparent (hm : f.mpu = false) {env : Cp15} (hp : Paged env) (m : Memory)
    {es : List Event}
    (hc : Respects (monitored f) (fun s e ↦ careful s e = true)
      (Cpu.start env m, fun _ ↦ false) es) :
    outputs (step f) (Cpu.start env m) es = outputs (flatStep f) ⟨env, m⟩ es ∧
      (final (step f) (Cpu.start env m) es).flat = final (flatStep f) ⟨env, m⟩ es := by
  have hstart : Invariant f (Cpu.start env m, fun _ ↦ false) ⟨env, m⟩ :=
    ⟨rfl, hp, fun k v _ h ↦ by cases h⟩
  obtain ⟨hout, hfinal⟩ := simulates (invariant_step hm) hstart hc
  rw [outputs_ghost] at hout
  rw [← final_ghost (staleAfter f) (Cpu.start env m) (fun _ ↦ false)]
  exact ⟨hout, hfinal.flat⟩

/-- A page is remapped, taken out and used again. -/
abbrev remap : List Event :=
  [.access 0x8004 .read false, .memory (sections 5), .write .tlbimva 0x8000,
    .access 0x8004 .read false, .write .ttbr0 0x8000, .write .tlbiall 0,
    .access 0x9008 .write true, .write .dacr 0, .access 0x8004 .execute false]

theorem tlb_transparent_remap :
    outputs (step v5Core) (Cpu.start sectionsOn (sections 3)) remap =
        outputs (flatStep v5Core) ⟨sectionsOn, sections 3⟩ remap ∧
      (final (step v5Core) (Cpu.start sectionsOn (sections 3)) remap).flat =
        final (flatStep v5Core) ⟨sectionsOn, sections 3⟩ remap :=
  tlb_transparent rfl ⟨by decide, by decide⟩ (sections 3) (by decide)

/-- Writes that take out whatever they may change, and changes of memory that leave the
descriptors alone. -/
def Quiet (f : Features) (s : Cpu) : Event → Prop
  | .write .fcse value => value &&& low 32 pageBits = 0#32
  | .write .ttbcr _ => f.lpae = true
  | .write .ttbr0 _ | .write .ttbr1 _ | .write64 .ttbr1 _ => False
  | .memory m => ∀ a t u, ∀ l ∈ (getPhysAddr f s.cp15 a t u).asked s.mem, m l = s.mem l
  | _ => True

/-- The registers that decide translations on a system with tables. -/
def tableRegisters (env : Cp15) : Cp15 :=
  { env with
    c5Insn := 0, c5Data := 0, c6Region := fun _ ↦ 0, c6Insn := 0, c6Data := 0, c7Par := 0
    c7ParHi := 0, c13Context := 0 }

theorem page_translation_tables (hm : f.mpu = false) {s s' : Flat}
    (h : tableRegisters s'.cp15 = tableRegisters s.cp15) (hmem : s'.mem = s.mem) :
    pageTranslation f s' = pageTranslation f s := by
  have htables (env : Cp15) (a : Word) (t : AccessType) (u : Bool) :
      getPhysAddr f env a t u = getPhysAddr f (tableRegisters env) a t u := by
    simp only [getPhysAddr, hm, Bool.false_eq_true, if_false]
    rfl
  funext k t
  rw [pageTranslation, pageTranslation, htables, h, ← htables, hmem]

theorem quiet_step (hm : f.mpu = false) {s : Cpu} (hp : Paged s.cp15) {e : Event}
    (hq : Quiet f s e) :
    (flushOf f s e).drops = (fun _ ↦ true) ∨
      pageTranslation f (step f s e).2.flat = pageTranslation f s.flat := by
  cases e with
  | access a t u =>
    right
    obtain ⟨e, -, -, ha⟩ | ⟨r, -, ha⟩ | ⟨ret, -, ha⟩ := access_cases hm hp a t u
    · rw [step, ha]
    · rw [step, ha]
      rfl
    · rw [step, ha]
      refine page_translation_tables hm ?_ rfl
      simp only [Cpu.flat, recordFault]
      split_ifs <;> rfl
  | write r value =>
    cases r
    case fcse =>
      by_cases hv : s.cp15.c13Fcse ≠ value
      · left
        simp only [flushOf, writeRegister, fcseWrite, if_pos hv]
        rfl
      · right
        simp only [step, writeRegister, fcseWrite, if_neg hv, Cpu.update, Cpu.flat]
    case ttbcr =>
      left
      simp only [flushOf, writeRegister, vmsaTtbcrWrite, show f.lpae = true from hq, if_true]
      rfl
    case ttbr0 => exact hq.elim
    case ttbr1 => exact hq.elim
    case sctlr | dacr | tlbiall | tlbiasid => exact .inl rfl
    all_goals exact .inr (page_translation_tables hm rfl rfl)
  | write64 r value =>
    cases r with
    | ttbr0 => exact .inl rfl
    | ttbr1 => exact hq.elim
    | par => exact .inr (page_translation_tables hm rfl rfl)
  | ats opc2 value =>
    right
    simp only [step]
    split
    · rename_i env' h
      refine page_translation_tables hm ?_ rfl
      rw [Cpu.flat, ats_write_eq h]
      rfl
    · rfl
  | memory m =>
    right
    funext k t
    exact eval_of_agree (hq k.2 t k.1)
  | evict k => exact .inr rfl

/-- The writes that invalidate what they change need no help from software. -/
theorem quiet_run_careful (hm : f.mpu = false) {env : Cp15} (hp : Paged env) (m : Memory)
    {es : List Event} (hq : Respects (step f) (Quiet f) (Cpu.start env m) es) :
    Respects (monitored f) (fun s e ↦ careful s e = true) (Cpu.start env m, fun _ ↦ false) es := by
  refine respects_of_invariant (I := fun s ↦ s.2 = (fun _ ↦ false) ∧ Paged s.1.cp15) ?_ ⟨rfl, hp⟩
    (respects_ghost _ hq)
  rintro ⟨s, stale⟩ e ⟨hstale, hp⟩ hq
  have hcareful : careful (s, stale) e = true := by
    rw [show stale = fun _ ↦ false from hstale]
    cases e with
    | write r value =>
      cases r
      case fcse => simpa [careful, Quiet] using hq
      all_goals rfl
    | _ => rfl
  refine ⟨hcareful, ?_, paged_step hm hp hcareful⟩
  rw [show stale = fun _ ↦ false from hstale]
  apply next_fresh
  refine (quiet_step hm hp hq).imp id fun hsame ↦ ?_
  funext k
  simp [hsame]

theorem quiet_run_careful_domains :
    Respects (monitored v5Core) (fun s e ↦ careful s e = true)
      (Cpu.start sectionsOn (sections 3), fun _ ↦ false)
      [.access 0x8004 .read false, .write .dacr 3, .write .fcse 0x2000000, .write .sctlr 0,
        .access 0x8004 .write true] :=
  quiet_run_careful rfl ⟨by decide, by decide⟩ (sections 3)
    ⟨trivial, trivial, by simp [Quiet]; decide, trivial, trivial, trivial⟩

end Transparency

section Probe

variable (f : Features) (env : Cp15) (m : Memory)

def par64Read : HwAddr := (env.c7ParHi.setWidth 64 <<< 32) ||| env.c7Par.setWidth 64

/-- The address is in a page of 16 MiB, and the processor is one that marks these. -/
def supersection (value : Word) (accessType : AccessType) (isUser : Bool) : Bool :=
  match (getPhysAddr f env value accessType isUser).eval m with
  | .ok r => f.v7 && r.pageSize == 1#32 <<< 24
  | .error _ => false

/-- The register as what the access does determines it, all of its 64 bits. Where it succeeds,
there is the frame of the physical address, with a bit for a supersection, and where it fails
there are the lowest bit and the status that the access leaves in the fault register. The long
format marks itself with bit 11. -/
def Reports (long super : Bool) (par : HwAddr) (status : Word) : Outcome → Prop
  | .address pa =>
    par = if long then (pa &&& ~~~0xfff#64) ||| 0x800#64
      else if super then (pa &&& 0xff000000#64) ||| 2#64
      else pa &&& 0xfffff000#64
  | .exception index =>
    index = .dataAbort ∧
    par = if long then ((status.setWidth 64 &&& 0x3f#64) <<< 1) ||| 0x801#64
      else ((status.setWidth 64 &&& 0xf#64) <<< 1) ||| 1#64
  | _ => False

variable {f env m}

theorem par_halves (par : HwAddr) :
    (((par >>> 32).setWidth 32).setWidth 64 <<< 32) ||| (par.setWidth 32).setWidth 64 = par := by
  ext i hi
  by_cases h : i < 32
  · simp [h, BitVec.getLsbD_eq_getElem hi]
  · have hback : 32 + (i - 32) = i := by omega
    have hlow : i - 32 < 32 := by omega
    simp [h, hback, hlow, BitVec.getLsbD_eq_getElem hi]

theorem frame_mask (pa : HwAddr) (mask : Word) :
    (pa.setWidth 32 &&& mask).setWidth 64 = pa &&& mask.setWidth 64 := by
  ext i hi
  by_cases h : i < 32
  · simp [h, BitVec.getLsbD_eq_getElem hi]
  · simp [h, BitVec.getLsbD_of_ge mask i (not_lt.mp h)]

theorem status_low {status ret : Word} {mask : HwAddr} (h : status &&& 0x3f#32 = ret &&& 0x3f#32)
    (hmask : (0x3f#32).setWidth 64 &&& mask = mask) :
    status.setWidth 64 &&& mask = ret.setWidth 64 &&& mask := by
  rw [← hmask, ← BitVec.and_assoc, ← BitVec.and_assoc, ← BitVec.setWidth_and,
    ← BitVec.setWidth_and, h]

theorem and_shift_zero (x : Word) {mask : Word} {k : ℕ} (h : mask.toNat < 2 ^ k) :
    (x &&& mask) >>> k = 0#32 := by
  apply BitVec.eq_of_toNat_eq
  rw [BitVec.toNat_ushiftRight, Nat.shiftRight_eq_div_pow, BitVec.toNat_and]
  exact Nat.div_eq_of_lt (lt_of_le_of_lt Nat.and_le_right h)

theorem status_field (x : Word) {mask : Word} (h : mask.toNat < 2 ^ 31) :
    ((x &&& mask) <<< 1).setWidth 64 = (x.setWidth 64 &&& mask.setWidth 64) <<< 1 := by
  have hlt : (x &&& mask).toNat < 2 ^ 31 := by
    rw [BitVec.toNat_and]
    exact lt_of_le_of_lt Nat.and_le_right h
  rw [← BitVec.setWidth_and]
  apply BitVec.eq_of_toNat_eq
  simp only [BitVec.toNat_setWidth, BitVec.toNat_shiftLeft, Nat.shiftLeft_eq]
  omega

theorem short_par_ok (r : Translation) (status : Word) :
    Reports false (f.v7 && r.pageSize == 1#32 <<< 24) ((shortPar f (.ok r)).setWidth 64) status
      (.address r.physAddr) := by
  rw [Reports, if_neg Bool.false_ne_true, shortPar]
  by_cases h : r.pageSize = 1#32 <<< 24 ∧ f.v7
  · have hsuper : (f.v7 && r.pageSize == 1#32 <<< 24) = true := by simp [h.1, h.2]
    rw [if_pos h, if_pos hsuper, BitVec.setWidth_or, frame_mask]
    rfl
  · have hsuper : (f.v7 && r.pageSize == 1#32 <<< 24) = false := by
      rw [Bool.and_comm, ← Bool.not_eq_true]
      simpa using h
    rw [if_neg h, hsuper, if_neg Bool.false_ne_true, frame_mask]
    rfl

theorem short_par_error (super : Bool) (ret : Word) {status : Word}
    (h : status &&& 0x3f#32 = ret &&& 0x3f#32) :
    Reports false super ((shortPar f (.error ret)).setWidth 64) status
      (.exception .dataAbort) := by
  refine ⟨rfl, ?_⟩
  rw [if_neg Bool.false_ne_true, status_low h (by decide), shortPar, and_shift_zero _ (by decide),
    and_shift_zero _ (by decide), BitVec.zero_or, BitVec.zero_or, BitVec.setWidth_or,
    status_field _ (by decide)]
  rfl

theorem long_par_ok (super : Bool) (r : Translation) (status : Word) :
    Reports true super (longPar (.ok r)) status (.address r.physAddr) := by
  rw [Reports, if_pos rfl, longPar, BitVec.or_comm]
  rfl

theorem long_par_error (super : Bool) (ret : Word) {status : Word}
    (h : status &&& 0x3f#32 = ret &&& 0x3f#32) :
    Reports true super (longPar (.error ret)) status (.exception .dataAbort) := by
  refine ⟨rfl, ?_⟩
  rw [if_pos rfl, status_low h (by decide), longPar, status_field _ (by decide), BitVec.or_comm]
  rfl

theorem record_fault_status (a : Word) {t : AccessType} (ht : t ≠ .execute) (ret : Word) :
    (recordFault f env a t ret).2.c5Data &&& 0x3f#32 = ret &&& 0x3f#32 := by
  simp only [recordFault, if_neg ht]
  split_ifs
  · rw [BitVec.and_or_distrib_right]
    simp
  · rfl

theorem ats_access_ne (opc2 : Fin 8) : atsAccess opc2 ≠ .execute := by
  unfold atsAccess
  split_ifs <;> decide

/-- A translation on request reports what an access of that kind does. -/
theorem ats_reports_access {opc2 : Fin 8} (h : opc2.val < 4) (value : Word) :
    ∃ env', atsWrite f env m opc2 value = some env' ∧
      Reports (extendedAddressesEnabled f env)
        (supersection f env m value (atsAccess opc2) (atsUser opc2)) (par64Read env')
        (flatStep f ⟨env, m⟩ (.access value (atsAccess opc2) (atsUser opc2))).2.cp15.c5Data
        (flatStep f ⟨env, m⟩ (.access value (atsAccess opc2) (atsUser opc2))).1 := by
  have hstatus := @record_fault_status f env value _ (ats_access_ne opc2)
  have hindex (ret : Word) : (recordFault f env value (atsAccess opc2) ret).1 = .dataAbort := by
    simp only [recordFault, if_neg (ats_access_ne opc2)]
  simp only [atsWrite, if_neg (not_le.mpr h), flatStep, flatAccess, supersection]
  cases (getPhysAddr f env value (atsAccess opc2) (atsUser opc2)).eval m with
  | ok r =>
    cases extendedAddressesEnabled f env with
    | true =>
      refine ⟨_, rfl, ?_⟩
      rw [par64Read, par_halves]
      exact long_par_ok _ r _
    | false =>
      refine ⟨_, rfl, ?_⟩
      rw [par64Read]
      simpa using short_par_ok r _
  | error ret =>
    simp only [hindex]
    cases extendedAddressesEnabled f env with
    | true =>
      refine ⟨_, rfl, ?_⟩
      rw [par64Read, par_halves]
      exact long_par_error _ ret (hstatus ret)
    | false =>
      refine ⟨_, rfl, ?_⟩
      rw [par64Read]
      simpa using short_par_error _ ret (hstatus ret)

theorem ats_reports_access_sections :
    ∃ env', atsWrite v5Core sectionsOn (sections 3) 2 0x8004 = some env' ∧
      Reports (extendedAddressesEnabled v5Core sectionsOn)
        (supersection v5Core sectionsOn (sections 3) 0x8004 .read true) (par64Read env')
        (flatStep v5Core ⟨sectionsOn, sections 3⟩ (.access 0x8004 .read true)).2.cp15.c5Data
        (flatStep v5Core ⟨sectionsOn, sections 3⟩ (.access 0x8004 .read true)).1 :=
  ats_reports_access (by decide) 0x8004

end Probe

end VarEmu.Processor.Tlb
