import VarEmu.Emulator.Device

namespace VarEmu.Kernel.Driver

open Emulator.State Library.Execution

/-- The device behind the mapped window: what it does on its own, and how the driver reaches
it. -/
structure Hardware (D A : Type) where
  act : D → A → Except Fault D
  iowrite32 : D → UInt64 → UInt32 → Except Fault D
  memcpyFromio : D → VemuState

abbrev setFaults : Int32 := 0x000

abbrev readCmd : UInt64 := 0xD00

abbrev readHw : Int32 := 0x1000000

abbrev readSys : Int32 := 0x0100000

abbrev readProc : Int32 := 0x0010000

inductive Source
  | tmp
  | proc
  | sys
  deriving DecidableEq

/-- A `copy_to_user` in progress, with the words that have reached the user's buffer. -/
structure Copy where
  source : Source
  sent : List UInt64
  deriving DecidableEq

/-- Where the kernel stands between the two hooks: running the current task, switching to the
next one, or between the two calls of a `READ_PROC`. -/
inductive Window
  | running
  | switching (next : ℕ)
  | readProc
  deriving DecidableEq

/-- The device and the kernel variables of the driver. Tasks are numbered in the order of their
creation, and `basePointer` says whether the window is mapped. -/
structure KernelState (D : Type) where
  dev : D
  basePointer : Bool
  pin : VemuState
  pout : VemuState
  sys : VemuState
  tmp : VemuState
  vemu : ℕ → VemuState
  nrTasks : ℕ
  current : ℕ
  window : Window
  copy : ℕ → Option Copy

variable {D A : Type} (hw : Hardware D A)

def boot (dev : D) : KernelState D where
  dev := dev
  basePointer := false
  pin := fun _ ↦ 0
  pout := fun _ ↦ 0
  sys := fun _ ↦ 0
  tmp := fun _ ↦ 0
  vemu := fun _ _ ↦ 0
  nrTasks := 1
  current := 0
  window := .running
  copy := fun _ ↦ none

def vemuReadState (k : KernelState D) (target : VemuState) : Except Fault (D × VemuState) :=
  if k.basePointer then do
    let dev ← hw.iowrite32 k.dev readCmd 1
    .ok (dev, hw.memcpyFromio dev)
  else .ok (k.dev, target)

def vemuRegWrite (k : KernelState D) (offset : Int32) (val : UInt64) :
    Except Fault (KernelState D) :=
  if k.basePointer then
    if 0 ≤ offset.toInt ∧ offset.toInt + 4 ≤ 0x1000 then do
      let dev ← hw.iowrite32 k.dev (UInt64.ofNat offset.toInt.toNat) val.toUInt32
      .ok { k with dev }
    else .error .outOfBounds
  else .ok k

def vemuAddDelta (target new old : VemuState) : VemuState := fun i ↦
  if i.val < vemuStateNVars - 3 then target i + (new i - old i) else target i

def vemuProcessIn (k : KernelState D) : Except Fault (KernelState D) := do
  let (dev, pin) ← vemuReadState hw k k.pin
  let sys := vemuAddDelta k.sys pin k.pout
  vemuRegWrite hw { k with dev, pin, sys } setFaults (VemuState.faultStatus (k.vemu k.current))

def saved (vemu pout pin : VemuState) : VemuState :=
  let vemu := vemuAddDelta vemu pout pin
  let vemu := Function.update vemu 17 (VemuState.faultStatus pout)
  let vemu := Function.update vemu 18 (VemuState.frequency pout)
  Function.update vemu 19 (VemuState.voltage pout)

def vemuProcessOut (k : KernelState D) : Except Fault (KernelState D) := do
  let (dev, pout) ← vemuReadState hw k k.pout
  .ok { k with
    dev, pout
    vemu := Function.update k.vemu k.current (saved (k.vemu k.current) pout k.pin) }

def KernelState.openCopy (k : KernelState D) (source : Source) : KernelState D :=
  { k with copy := Function.update k.copy k.current (some ⟨source, []⟩) }

/-- The call up to the copy. After the first hook of a `READ_PROC` the second is still to come;
any other request that is not known returns `-EFAULT`. -/
def sysVarRegRead (k : KernelState D) (offset : Int32) : Except Fault (KernelState D) :=
  if offset &&& readHw ≠ 0 then do
    let (dev, tmp) ← vemuReadState hw k k.tmp
    .ok (KernelState.openCopy { k with dev, tmp } .tmp)
  else if offset &&& readProc ≠ 0 then do
    let k ← vemuProcessOut hw k
    .ok { k with window := .readProc }
  else if offset &&& readSys ≠ 0 then .ok (k.openCopy .sys)
  else .ok k

def sysVarRegReadProcIn (k : KernelState D) : Except Fault (KernelState D) := do
  let k ← vemuProcessIn hw { k with window := .running }
  .ok (k.openCopy .proc)

def KernelState.source (k : KernelState D) (t : ℕ) : Source → VemuState
  | .tmp => k.tmp
  | .proc => k.vemu t
  | .sys => k.sys

def copyWord (k : KernelState D) : Except Fault (KernelState D) :=
  match k.copy k.current with
  | none => .error .disabled
  | some c =>
    if h : c.sent.length < vemuStateNVars then
      let sent := c.sent ++ [k.source k.current c.source ⟨c.sent.length, h⟩]
      .ok { k with
        copy := Function.update k.copy k.current
          (if sent.length = vemuStateNVars then none else some { c with sent }) }
    else .error .disabled

/-- The value is copied to a local variable first, so a fault there changes nothing. -/
def sysVarRegWrite (k : KernelState D) (offset : Int32) (val : UInt64) :
    Except Fault (KernelState D) :=
  if offset > 0x1000 ∨ offset % 8 ≠ 0 then .ok k else vemuRegWrite hw k offset val

def variabilityInit (k : KernelState D) : KernelState D :=
  { k with
    basePointer := true
    pin := fun _ ↦ 0
    pout := fun _ ↦ 0
    sys := fun _ ↦ 0
    tmp := fun _ ↦ 0 }

/-- The parent's structure is copied, and the counters of the copy are cleared. -/
def dupTaskStruct (k : KernelState D) : KernelState D :=
  let vemu := Function.update k.vemu k.nrTasks (k.vemu k.current)
  { k with
    vemu := Function.update vemu k.nrTasks fun _ ↦ 0
    copy := Function.update k.copy k.nrTasks none
    nrTasks := k.nrTasks + 1 }

section Outcomes

variable {hw} {k k' : KernelState D}

theorem read_state_ok {target w : VemuState} {dev : D}
    (h : vemuReadState hw k target = .ok (dev, w)) :
    (k.basePointer = false ∧ dev = k.dev ∧ w = target) ∨
    (k.basePointer = true ∧ hw.iowrite32 k.dev readCmd 1 = .ok dev ∧ w = hw.memcpyFromio dev) := by
  unfold vemuReadState at h
  split_ifs at h with hb
  · obtain ⟨d, hd, h⟩ := bind_ok_iff.mp h
    cases h
    exact .inr ⟨hb, hd, rfl⟩
  · cases h
    exact .inl ⟨by simpa using hb, rfl, rfl⟩

theorem reg_write_ok {offset : Int32} {val : UInt64} (h : vemuRegWrite hw k offset val = .ok k') :
    (k.basePointer = false ∧ k' = k) ∨
    (k.basePointer = true ∧ 0 ≤ offset.toInt ∧ offset.toInt + 4 ≤ 0x1000 ∧ ∃ dev,
      k' = { k with dev } ∧
      hw.iowrite32 k.dev (UInt64.ofNat offset.toInt.toNat) val.toUInt32 = .ok dev) := by
  unfold vemuRegWrite at h
  split_ifs at h with hb hwin
  · obtain ⟨dev, hd, h⟩ := bind_ok_iff.mp h
    cases h
    exact .inr ⟨hb, hwin.1, hwin.2, dev, rfl, hd⟩
  · cases h
    exact .inl ⟨by simpa using hb, rfl⟩

theorem sys_var_reg_write_frame {offset : Int32} {val : UInt64}
    (h : sysVarRegWrite hw k offset val = .ok k') : k' = { k with dev := k'.dev } := by
  unfold sysVarRegWrite at h
  split_ifs at h
  · cases h
    rfl
  · rcases reg_write_ok h with ⟨_, rfl⟩ | ⟨_, _, _, dev, rfl, _⟩
    · rfl
    · rfl

theorem process_out_ok (h : vemuProcessOut hw k = .ok k') :
    ∃ dev pout, vemuReadState hw k k.pout = .ok (dev, pout) ∧
      k' = { k with
        dev, pout
        vemu := Function.update k.vemu k.current (saved (k.vemu k.current) pout k.pin) } := by
  obtain ⟨⟨dev, pout⟩, hr, h⟩ := bind_ok_iff.mp h
  cases h
  exact ⟨dev, pout, hr, rfl⟩

theorem process_in_ok (h : vemuProcessIn hw k = .ok k') :
    ∃ d pin dev, vemuReadState hw k k.pin = .ok (d, pin) ∧
      k' = { k with dev, pin, sys := vemuAddDelta k.sys pin k.pout } ∧
      ((k.basePointer = false ∧ dev = d) ∨
        (k.basePointer = true ∧ hw.iowrite32 d Emulator.Device.setFaults
          (VemuState.faultStatus (k.vemu k.current)).toUInt32 = .ok dev)) := by
  obtain ⟨⟨d, pin⟩, hr, h⟩ := bind_ok_iff.mp h
  rcases reg_write_ok h with ⟨hb, rfl⟩ | ⟨hb, _, _, dev, rfl, hd⟩
  · exact ⟨d, pin, d, hr, rfl, .inl ⟨hb, rfl⟩⟩
  · exact ⟨d, pin, dev, hr, rfl, .inr ⟨hb, hd⟩⟩

theorem add_delta_counter (target new old : VemuState) {i : Fin vemuStateNVars}
    (h : i.val < vemuStateNVars - 3) :
    vemuAddDelta target new old i = target i + (new i - old i) :=
  if_pos h

theorem saved_counter (vemu pout pin : VemuState) {i : Fin vemuStateNVars}
    (h : i.val < vemuStateNVars - 3) : saved vemu pout pin i = vemu i + (pout i - pin i) := by
  have hne : ∀ j : Fin vemuStateNVars, vemuStateNVars - 3 ≤ j.val → i ≠ j := by
    rintro j hj rfl
    omega
  simp only [saved, Function.update_of_ne (hne 19 (by decide)),
    Function.update_of_ne (hne 18 (by decide)), Function.update_of_ne (hne 17 (by decide))]
  exact add_delta_counter vemu pout pin h

theorem saved_fault_status (vemu pout pin : VemuState) :
    VemuState.faultStatus (saved vemu pout pin) = VemuState.faultStatus pout := rfl

end Outcomes

end VarEmu.Kernel.Driver
