import Mathlib.Data.Fintype.Basic
import VarEmu.Library.Pages
import VarEmu.Library.Queries

namespace VarEmu.Processor.Mmu

open Library.Pages Library.Queries Lookup

abbrev Word := BitVec 32

abbrev HwAddr := BitVec 64

inductive AccessType
  | read
  | write
  | execute
  deriving DecidableEq, Repr

instance : Fintype AccessType where
  elems := {.read, .write, .execute}
  complete t := by cases t <;> decide

structure Prot where
  read : Bool
  write : Bool
  exec : Bool
  deriving DecidableEq, Repr

namespace Prot

abbrev none : Prot := ⟨false, false, false⟩

abbrev pageRead : Prot := ⟨true, false, false⟩

abbrev readWrite : Prot := ⟨true, true, false⟩

abbrev all : Prot := ⟨true, true, true⟩

/-- The page may be used for the access. -/
def grants (p : Prot) : AccessType → Bool
  | .read => p.read
  | .write => p.write
  | .execute => p.exec

end Prot

structure Features where
  v6 : Bool
  v6k : Bool
  v7 : Bool
  lpae : Bool
  pxn : Bool
  xscale : Bool
  mpu : Bool
  deriving DecidableEq, Repr

/-- The registers of the system control coprocessor that translation reads or writes. -/
structure Cp15 where
  c1Sys : Word
  c2Base0 : Word
  c2Base0Hi : Word
  c2Base1 : Word
  c2Base1Hi : Word
  c2Control : Word
  c2Mask : Word
  c2BaseMask : Word
  c3 : Word
  c5Insn : Word
  c5Data : Word
  c6Region : Fin 8 → Word
  c6Insn : Word
  c6Data : Word
  c7Par : Word
  c7ParHi : Word
  c13Fcse : Word
  c13Context : Word

/-- The registers after a reset, with the control register of the processor. -/
def Cp15.reset (c1Sys : Word) : Cp15 where
  c1Sys
  c2Base0 := 0
  c2Base0Hi := 0
  c2Base1 := 0
  c2Base1Hi := 0
  c2Control := 0
  c2Mask := 0
  c2BaseMask := 0xffffc000
  c3 := 0
  c5Insn := 0
  c5Data := 0
  c6Region _ := 0
  c6Insn := 0
  c6Data := 0
  c7Par := 0
  c7ParHi := 0
  c13Fcse := 0
  c13Context := 0

inductive Load
  | ldl (addr : HwAddr)
  | ldq (addr : HwAddr)
  deriving DecidableEq

abbrev Load.width : Load → ℕ
  | .ldl _ => 32
  | .ldq _ => 64

abbrev Answer (l : Load) : Type := BitVec l.width

/-- Physical memory, as the walks read it. -/
abbrev Memory := (l : Load) → Answer l

abbrev Walk (α : Type) := Lookup Answer α

def ldlPhys (addr : Word) : Walk Word := answer (Load.ldl (addr.setWidth 64))

def ldqPhys (addr : HwAddr) : Walk HwAddr := answer (Load.ldq addr)

structure Translation where
  physAddr : HwAddr
  prot : Prot
  pageSize : Word
  deriving DecidableEq, Repr

/-- The status of a failed translation, or its result. -/
abbrev Result := Except Word Translation

def extract32 (value : Word) (start length : ℕ) : Word :=
  (value >>> start) &&& (BitVec.allOnes 32 >>> (32 - length))

def extract64 (value : HwAddr) (start length : ℕ) : HwAddr :=
  (value >>> start) &&& (BitVec.allOnes 64 >>> (64 - length))

variable (f : Features) (env : Cp15)

/-- The cases of `check_ap`, with the two tests of the control register. -/
def apCases (v6k system rom : Bool) (ap : Fin 8) (accessType : AccessType) (isUser : Bool) : Prot :=
  let protRo : Prot := if accessType = .write then .none else .pageRead
  match ap with
  | 0 =>
    if accessType = .write then .none
    else if system then if isUser then .none else .pageRead
    else if rom then .pageRead
    else .none
  | 1 => if isUser then .none else .readWrite
  | 2 => if isUser then protRo else .readWrite
  | 3 => .readWrite
  | 4 => .none
  | 5 => if isUser then .none else protRo
  | 6 => protRo
  | 7 => if v6k then protRo else .none

def checkAp (ap : Fin 8) (domainProt : Word) (accessType : AccessType) (isUser : Bool) : Prot :=
  if domainProt = 3#32 then .readWrite
  else
    let sr := (env.c1Sys >>> 8) &&& 3#32
    apCases f.v6k (sr = 1#32) (sr = 2#32) ap accessType isUser

def getLevel1TableAddress (address : Word) : Word :=
  let table := if address &&& env.c2Mask ≠ 0#32 then env.c2Base1 &&& 0xffffc000#32
    else env.c2Base0 &&& env.c2BaseMask
  table ||| ((address >>> 18) &&& 0x3ffc#32)

/-- What a walk of the short format has found when only the permissions are left to check. -/
structure Leaf where
  physAddr : Word
  ap : Fin 8
  pageSize : Word
  xn : Bool
  pxn : Bool
  code : Word
  domain : Word
  domainProt : Word

/-- The access permission field of a descriptor, in the cases of `check_ap`. -/
def apField (ap : Word) : Fin 8 := Fin.ofNat 8 ap.toNat

def fault (code domain : Word) : Word := code ||| (domain <<< 4)

def domainProtOf (domain : Word) : Word := (env.c3 >>> (domain * 2)) &&& 3#32

def pageV5 (address type domain desc : Word) : Except Word Leaf :=
  let page (physAddr ap pageSize : Word) : Leaf :=
    { physAddr, ap := apField ap, pageSize, xn := false, pxn := false, code := 15, domain
      domainProt := domainProtOf env domain }
  let subpage := (desc >>> (4 + ((address >>> 13) &&& 6#32))) &&& 3#32
  if desc &&& 3#32 = 0#32 then .error (fault 7 domain)
  else if desc &&& 3#32 = 1#32 then
    .ok (page ((desc &&& 0xffff0000#32) ||| (address &&& 0xffff#32)) subpage 0x10000)
  else if desc &&& 3#32 = 2#32 then
    .ok (page ((desc &&& 0xfffff000#32) ||| (address &&& 0xfff#32)) subpage 0x1000)
  else if type = 1#32 then
    if f.xscale then
      .ok (page ((desc &&& 0xfffff000#32) ||| (address &&& 0xfff#32)) ((desc >>> 4) &&& 3#32) 0x400)
    else .error (fault 7 domain)
  else
    .ok (page ((desc &&& 0xfffffc00#32) ||| (address &&& 0x3ff#32)) ((desc >>> 4) &&& 3#32) 0x400)

def leafV5 (address : Word) : Walk (Except Word Leaf) := do
  let desc ← ldlPhys (getLevel1TableAddress env address)
  let type := desc &&& 3#32
  let domain := (desc >>> 5) &&& 0xf#32
  let domainProt := domainProtOf env domain
  if type = 0#32 then return .error (fault 5 domain)
  else if domainProt = 0#32 ∨ domainProt = 2#32 then
    return .error (fault (if type = 2#32 then 9 else 11) domain)
  else if type = 2#32 then
    return .ok
      { physAddr := (desc &&& 0xfff00000#32) ||| (address &&& 0x000fffff#32)
        ap := apField ((desc >>> 10) &&& 3#32)
        pageSize := 0x100000
        xn := false, pxn := false, code := 13, domain, domainProt }
  else do
    let table := if type = 1#32 then (desc &&& 0xfffffc00#32) ||| ((address >>> 10) &&& 0x3fc#32)
      else (desc &&& 0xfffff000#32) ||| ((address >>> 8) &&& 0xffc#32)
    let desc ← ldlPhys table
    return pageV5 f env address type domain desc

def permitV5 (accessType : AccessType) (isUser : Bool) (l : Leaf) : Result :=
  let prot := checkAp f env l.ap l.domainProt accessType isUser
  if prot = .none then .error (fault l.code l.domain)
  else .ok ⟨l.physAddr.setWidth 64, { prot with exec := true }, l.pageSize⟩

def getPhysAddrV5 (address : Word) (accessType : AccessType) (isUser : Bool) : Walk Result :=
  (leafV5 f env address).map (·.bind (permitV5 f env accessType isUser))

def pageV6 (address domain : Word) (pxn : Bool) (desc : Word) : Except Word Leaf :=
  let page (physAddr pageSize : Word) (xn : Bool) : Leaf :=
    { physAddr
      ap := apField (((desc >>> 4) &&& 3#32) ||| ((desc >>> 7) &&& 4#32))
      pageSize, xn, pxn
      code := 15, domain, domainProt := domainProtOf env domain }
  if desc &&& 3#32 = 0#32 then .error (fault 7 domain)
  else if desc &&& 3#32 = 1#32 then
    .ok (page ((desc &&& 0xffff0000#32) ||| (address &&& 0xffff#32)) 0x10000
      (desc &&& (1#32 <<< 15) != 0#32))
  else
    .ok (page ((desc &&& 0xfffff000#32) ||| (address &&& 0xfff#32)) 0x1000 (desc &&& 1#32 != 0#32))

def leafV6 (address : Word) : Walk (Except Word Leaf) := do
  let desc ← ldlPhys (getLevel1TableAddress env address)
  let type := desc &&& 3#32
  let supersection := desc &&& (1#32 <<< 18) ≠ 0#32
  let domain := if type = 1#32 ∨ ¬supersection then (desc >>> 5) &&& 0xf#32 else 0
  let domainProt := domainProtOf env domain
  if type = 0#32 ∨ (type = 3#32 ∧ ¬f.pxn) then return .error (fault 5 0)
  else if domainProt = 0#32 ∨ domainProt = 2#32 then
    return .error (fault (if type ≠ 1#32 then 9 else 11) domain)
  else if type ≠ 1#32 then
    return .ok
      { physAddr := if supersection then (desc &&& 0xff000000#32) ||| (address &&& 0x00ffffff#32)
          else (desc &&& 0xfff00000#32) ||| (address &&& 0x000fffff#32)
        pageSize := if supersection then 0x1000000 else 0x100000
        ap := apField (((desc >>> 10) &&& 3#32) ||| ((desc >>> 13) &&& 4#32))
        xn := desc &&& (1#32 <<< 4) != 0#32
        pxn := desc &&& 1#32 != 0#32
        code := 13, domain, domainProt }
  else do
    let pxn := f.pxn && (desc >>> 2) &&& 1#32 != 0#32
    let desc ← ldlPhys ((desc &&& 0xfffffc00#32) ||| ((address >>> 10) &&& 0x3fc#32))
    return pageV6 env address domain pxn desc

def permitV6 (accessType : AccessType) (isUser : Bool) (l : Leaf) : Result :=
  if l.domainProt = 3#32 then .ok ⟨l.physAddr.setWidth 64, .all, l.pageSize⟩
  else
    let xn := l.xn || l.pxn && !isUser
    let prot := checkAp f env l.ap l.domainProt accessType isUser
    if xn ∧ accessType = .execute then .error (fault l.code l.domain)
    -- The simplified model uses AP[0] as an access flag.
    else if env.c1Sys &&& (1#32 <<< 29) ≠ 0#32 ∧ l.ap.val % 2 = 0 then
      .error (fault (if l.code = 15#32 then 6 else 3) l.domain)
    else if prot = .none then .error (fault l.code l.domain)
    else .ok ⟨l.physAddr.setWidth 64, { prot with exec := prot.exec || !xn }, l.pageSize⟩

def getPhysAddrV6 (address : Word) (accessType : AccessType) (isUser : Bool) : Walk Result :=
  (leafV6 f env address).map (·.bind (permitV6 f env accessType isUser))

inductive MmuFaultType
  | translationFault
  | accessFault
  | permissionFault

def MmuFaultType.code : MmuFaultType → Word
  | translationFault => 1
  | accessFault => 2
  | permissionFault => 3

def faultLpae (type : MmuFaultType) (level : ℕ) : Word :=
  (1#32 <<< 9) ||| (type.code <<< 2) ||| BitVec.ofNat 32 level

structure LeafLpae where
  descaddr : HwAddr
  attrs : Word
  pageSize : Word
  level : ℕ

/-- The attributes of the last descriptor together with those gathered on the way to it. -/
def mergeAttrs (descriptor : HwAddr) (tableattrs : Word) : Word :=
  let attrs := (extract64 descriptor 2 10 ||| (extract64 descriptor 52 12 <<< 10)).setWidth 32
  let attrs := attrs ||| (extract32 tableattrs 0 2 <<< 11)
  let attrs := attrs ||| (extract32 tableattrs 3 1 <<< 5)
  if extract32 tableattrs 2 1 ≠ 0#32 then attrs &&& ~~~(1#32 <<< 4) else attrs

def descaddrAt (address : Word) (level : ℕ) (descaddr : HwAddr) : HwAddr :=
  descaddr ||| ((address >>> (9 * (4 - level))) &&& 0xff8#32).setWidth 64

/-- A block at level 1 or 2, or a page at level 3. -/
def leafAt (address : Word) (level : ℕ) (descriptor : HwAddr) (tableattrs : Word) : LeafLpae :=
  let pageSize := 1#32 <<< (39 - 9 * level)
  { descaddr := (descriptor &&& 0xfffffff000#64) ||| (address &&& (pageSize - 1)).setWidth 64
    attrs := mergeAttrs descriptor tableattrs
    pageSize, level }

/-- The loop over the levels of the table, with the number of levels below the present one. -/
def walkLpae (address : Word) : ℕ → HwAddr → Word → Walk (Except Word LeafLpae)
  | 0, descaddr, tableattrs => do
    let descriptor ← ldqPhys (descaddrAt address 3 descaddr)
    if descriptor &&& 1#64 = 0#64 ∨ descriptor &&& 2#64 = 0#64 then
      return .error (faultLpae .translationFault 3)
    else return .ok (leafAt address 3 descriptor tableattrs)
  | left + 1, descaddr, tableattrs => do
    let level := 2 - left
    let descriptor ← ldqPhys (descaddrAt address level descaddr)
    if descriptor &&& 1#64 = 0#64 then return .error (faultLpae .translationFault level)
    else if descriptor &&& 2#64 ≠ 0#64 then
      walkLpae address left (descriptor &&& 0xfffffff000#64)
        (tableattrs ||| (extract64 descriptor 59 5).setWidth 32)
    else return .ok (leafAt address level descriptor tableattrs)

/-- The base register that controls the address, or none in the gap between the regions. -/
def ttbrSelect (t0sz t1sz : ℕ) (address : Word) : Option Bool :=
  if t0sz ≠ 0 ∧ extract32 address (32 - t0sz) t0sz = 0#32 then some false
  else if t1sz ≠ 0 ∧ extract32 (~~~address) (32 - t1sz) t1sz = 0#32 then some true
  else if t0sz = 0 then some false
  else if t1sz = 0 then some true
  else none

def leafLpae (address : Word) : Walk (Except Word LeafLpae) :=
  let t0sz := (extract32 env.c2Control 0 3).toNat
  let t1sz := (extract32 env.c2Control 16 3).toNat
  match ttbrSelect t0sz t1sz address with
  | none => return .error (faultLpae .translationFault 1)
  | some select =>
    let ttbr : HwAddr := if select then env.c2Base1Hi ++ env.c2Base1
      else env.c2Base0Hi ++ env.c2Base0
    let epd := extract32 env.c2Control (if select then 23 else 7) 1
    let tsz := if select then t1sz else t0sz
    if epd ≠ 0#32 then return .error (faultLpae .translationFault 1)
    else
      let n := if tsz > 1 then 14 - tsz else 5 - tsz
      walkLpae (address &&& (0xffffffff#32 >>> tsz)) (if tsz > 1 then 1 else 2)
        (extract64 ttbr 0 40 &&& ~~~((1#64 <<< n) - 1)) 0

def permitLpae (accessType : AccessType) (isUser : Bool) (l : LeafLpae) : Result :=
  let noExec := l.attrs &&& (1#32 <<< 12) != 0#32 || !isUser && l.attrs &&& (1#32 <<< 11) != 0#32
  let noWrite := l.attrs &&& (1#32 <<< 5) != 0#32
  if l.attrs &&& (1#32 <<< 8) = 0#32 then .error (faultLpae .accessFault l.level)
  else if isUser ∧ l.attrs &&& (1#32 <<< 4) = 0#32 then .error (faultLpae .permissionFault l.level)
  else if noExec ∧ accessType = .execute then .error (faultLpae .permissionFault l.level)
  else if noWrite ∧ accessType = .write then .error (faultLpae .permissionFault l.level)
  else .ok ⟨l.descaddr, ⟨true, !noWrite, !noExec⟩, l.pageSize⟩

def getPhysAddrLpae (address : Word) (accessType : AccessType) (isUser : Bool) : Walk Result :=
  (leafLpae env address).map (·.bind (permitLpae accessType isUser))

def regionMatches (address base : Word) : Bool :=
  let mask : Word := ((1#32 <<< ((base >>> 1) &&& 0x1f#32)) <<< 1) - 1
  base &&& 1#32 != 0#32 && (base ^^^ address) &&& ~~~mask == 0#32

/-- The search for the region of the address, from the highest number down. -/
def findRegion (address : Word) : Option (Fin 8) :=
  [7, 6, 5, 4, 3, 2, 1, 0].find? fun n ↦ regionMatches address (env.c6Region n)

/-- The permissions of a region, none where the access is not permitted. -/
def regionCases (isUser : Bool) : Fin 16 → Option Prot
  | 1 => if isUser then none else some .readWrite
  | 2 => some ⟨true, !isUser, false⟩
  | 3 => some .readWrite
  | 5 => if isUser then none else some .pageRead
  | 6 => some .pageRead
  | _ => none

def regionField (mask : Word) (n : Fin 8) : Fin 16 :=
  Fin.ofNat 16 ((mask >>> (n.val * 4)) &&& 0xf#32).toNat

def getPhysAddrMpu (address : Word) (accessType : AccessType) (isUser : Bool) : Result :=
  match findRegion env address with
  | none => .error 2
  | some n =>
    let mask := if accessType = .execute then env.c5Insn else env.c5Data
    match regionCases isUser (regionField mask n) with
    | none => .error 1
    | some prot => .ok ⟨address.setWidth 64, { prot with exec := true }, 0x400⟩

def extendedAddressesEnabled : Bool := f.lpae && env.c2Control &&& (1#32 <<< 31) != 0#32

def modifiedAddress (address : Word) : Word :=
  if address < 0x02000000#32 then address + env.c13Fcse else address

def getPhysAddr (address : Word) (accessType : AccessType) (isUser : Bool) : Walk Result :=
  let address := modifiedAddress env address
  if env.c1Sys &&& 1#32 = 0#32 then return .ok ⟨address.setWidth 64, .all, 0x400⟩
  else if f.mpu then return getPhysAddrMpu env address accessType isUser
  else if extendedAddressesEnabled f env then getPhysAddrLpae env address accessType isUser
  else if env.c1Sys &&& (1#32 <<< 23) ≠ 0#32 then getPhysAddrV6 f env address accessType isUser
  else getPhysAddrV5 f env address accessType isUser

end VarEmu.Processor.Mmu
