import VarEmu.Kernel.Events
import VarEmu.Library.Bytes

namespace VarEmu.Kernel.SnapshotReads

open Emulator.State Driver Events Library.Bytes Library.Execution
open Emulator.Cycles (vemuInitCycles)
open Emulator.Machine (linearHost gigahertz load)

/-- The member `array8` of the union, on a little-endian host. -/
def array8 (v : VemuState) : List UInt8 :=
  List.ofFn fun j : Fin (vemuStateNVars * 8) ↦
    let i : Fin vemuStateNVars := ⟨j / 8, Nat.div_lt_of_lt_mul (Nat.mul_comm _ 8 ▸ j.isLt)⟩
    UInt8.ofNat ((v i).toNat / 256 ^ (j % 8 : ℕ))

/-- A guest read of the module. The copy fills the low bytes of a local variable that holds `rv`
before. -/
def vemuModRead (s : Emu) (rv offset : UInt64) (size : ℕ) : Except Fault UInt64 :=
  if offset.toNat ≤ vemuStateNVars * 8 then
    let bytes := ((array8 s.lastState).drop offset.toNat).take size
    if bytes.length = size then
      .ok (UInt64.ofNat (ofBytes bytes + rv.toNat / 256 ^ size * 256 ^ size))
    else .error .outOfBounds
  else .error .assertion

structure Access where
  offset : UInt64
  size : ℕ
  deriving DecidableEq

def Access.Aligned (a : Access) : Prop :=
  (a.size = 1 ∨ a.size = 2 ∨ a.size = 4) ∧ a.size ∣ a.offset.toNat

instance (a : Access) : Decidable a.Aligned := inferInstanceAs (Decidable (_ ∧ _))

def Access.Holds (a : Access) (j : ℕ) : Prop := a.offset.toNat ≤ j ∧ j < a.offset.toNat + a.size

instance (a : Access) (j : ℕ) : Decidable (a.Holds j) := inferInstanceAs (Decidable (_ ∧ _))

def ReadsSnapshot (s : Emu) (a : Access) : Prop :=
  ∀ rv, ∃ r, vemuModRead s rv a.offset a.size = .ok r ∧
    ∀ k < a.size, (array8 s.lastState)[a.offset.toNat + k]? = some (UInt8.ofNat (r.toNat / 256 ^ k))

theorem length_array8 (v : VemuState) : (array8 v).length = vemuStateNVars * 8 :=
  List.length_ofFn

theorem get_array8 (v : VemuState) (i : Fin vemuStateNVars) {k : ℕ} (hk : k < 8) :
    (array8 v)[8 * i.val + k]? = some (UInt8.ofNat ((v i).toNat / 256 ^ k)) := by
  have hlt : 8 * i.val + k < vemuStateNVars * 8 := by omega
  have hdiv : (8 * i.val + k) / 8 = i.val := by omega
  have hmod : (8 * i.val + k) % 8 = k := by omega
  rw [array8, List.getElem?_ofFn, dif_pos hlt]
  simp only [hdiv, hmod]

theorem mod_read_inside (s : Emu) (rv : UInt64) {a : Access} (hsize : a.size ≤ 8)
    (h : a.offset.toNat + a.size ≤ vemuStateNVars * 8) :
    ∃ r, vemuModRead s rv a.offset a.size = .ok r ∧
      ∀ k < a.size,
        (array8 s.lastState)[a.offset.toNat + k]? = some (UInt8.ofNat (r.toNat / 256 ^ k)) := by
  set bytes := ((array8 s.lastState).drop a.offset.toNat).take a.size with hbytes
  have hlen : bytes.length = a.size := by
    rw [hbytes, List.length_take, List.length_drop, length_array8]
    omega
  refine ⟨UInt64.ofNat (ofBytes bytes + rv.toNat / 256 ^ a.size * 256 ^ a.size), ?_, ?_⟩
  · rw [vemuModRead, if_pos (by omega)]
    exact if_pos hlen
  · intro k hk
    have hlow : leBytes a.size (UInt64.ofNat
        (ofBytes bytes + rv.toNat / 256 ^ a.size * 256 ^ a.size)).toNat = bytes := by
      rw [UInt64.toNat_ofNat']
      change leBytes a.size (_ % 256 ^ 8) = bytes
      rw [le_bytes_mod _ hsize, ← hlen]
      exact le_bytes_of_bytes bytes _
    rw [← get_le_bytes a.size _ hk, hlow, hbytes, List.getElem?_take_of_lt hk, List.getElem?_drop]

theorem reads_snapshot_iff {s : Emu} {a : Access} (ha : a.Aligned)
    (hpass : ∀ rv, vemuModRead s rv a.offset a.size ≠ .error .assertion) :
    ReadsSnapshot s a ↔ a.offset.toNat < vemuStateNVars * 8 := by
  have hle : a.offset.toNat ≤ vemuStateNVars * 8 := by
    by_contra hgt
    exact hpass 0 (if_neg hgt)
  obtain ⟨hsize, hdvd⟩ := ha
  constructor
  · intro h
    obtain ⟨r, -, hread⟩ := h 0
    have hzero : 0 < a.size := by omega
    have hsome := List.getElem?_eq_some_iff.mp (hread 0 hzero)
    have hlt : a.offset.toNat + 0 < (array8 s.lastState).length := hsome.1
    rwa [length_array8] at hlt
  · intro hlt rv
    have hinside : a.offset.toNat + a.size ≤ vemuStateNVars * 8 := by
      rcases hsize with h | h | h
      all_goals
        rw [h] at hdvd ⊢
        omega
    exact mod_read_inside s rv (by omega) hinside

def Access.fill (a : Access) (r : UInt64) (target : ℕ → UInt8) : ℕ → UInt8 := fun j ↦
  if a.Holds j then UInt8.ofNat (r.toNat / 256 ^ (j - a.offset.toNat)) else target j

/-- The emulator, and the memory that `memcpy_fromio` fills. -/
structure Transfer where
  emu : Emu
  target : ℕ → UInt8

inductive Move
  | event (e : Emulator.Machine.Event)
  | read (a : Access) (rv : UInt64)

variable (host : Host)

def step (t : Transfer) : Move → Except Fault Transfer
  | .event e => do
    let emu ← Emulator.Machine.step host t.emu e
    .ok { t with emu }
  | .read a rv => do
    let r ← vemuModRead t.emu rv a.offset a.size
    .ok { t with target := a.fill r t.target }

def events : List Move → List Emulator.Machine.Event
  | [] => []
  | .event e :: moves => e :: events moves
  | .read _ _ :: moves => events moves

def accesses : List Move → List Access
  | [] => []
  | .event _ :: moves => accesses moves
  | .read a _ :: moves => a :: accesses moves

def Tiles (tiling : List Access) : Prop :=
  (∀ a ∈ tiling, a.Aligned ∧ a.offset.toNat + a.size ≤ vemuStateNVars * 8) ∧
  ∀ j < vemuStateNVars * 8, ∃ a ∈ tiling, a.Holds j

instance (tiling : List Access) : Decidable (Tiles tiling) := inferInstanceAs (Decidable (_ ∧ _))

def latches : Emulator.Machine.Event → Bool
  | .modWrite offset _ => offset == readCmd
  | .act _ => false

/-- The member `array64` of a union whose bytes are given. -/
def array64 (target : ℕ → UInt8) : VemuState := fun i ↦
  UInt64.ofNat (ofBytes ((List.range 8).map fun k ↦ target (8 * i.val + k)))

theorem array64_eq {target : ℕ → UInt8} {v : VemuState}
    (h : ∀ j < vemuStateNVars * 8, (array8 v)[j]? = some (target j)) : array64 target = v := by
  funext i
  have hbytes : (List.range 8).map (fun k ↦ target (8 * i.val + k)) = leBytes 8 (v i).toNat := by
    rw [le_bytes_eq_map]
    apply List.map_congr_left
    intro k hk
    have hk' : k < 8 := List.mem_range.mp hk
    have hbyte := h (8 * i.val + k) (by omega)
    rw [get_array8 v i hk'] at hbyte
    exact (Option.some_inj.mp hbyte).symm
  have hword : (v i).toNat % 256 ^ 8 = (v i).toNat := Nat.mod_eq_of_lt (v i).toNat_lt
  rw [array64, hbytes, of_bytes_le_bytes, hword, UInt64.ofNat_toNat]

theorem step_read {s : Emu} {a : Access} (ha : a.Aligned)
    (hin : a.offset.toNat + a.size ≤ vemuStateNVars * 8) (rv : UInt64) (target : ℕ → UInt8) :
    ∃ target', step host ⟨s, target⟩ (.read a rv) = .ok ⟨s, target'⟩ ∧
      (∀ j, a.Holds j → (array8 s.lastState)[j]? = some (target' j)) ∧
      ∀ j, ¬a.Holds j → target' j = target j := by
  have hsize : a.size ≤ 8 := by
    have := ha.1
    omega
  obtain ⟨r, hr, hbytes⟩ := mod_read_inside s rv hsize hin
  refine ⟨_, bind_ok_iff.mpr ⟨r, hr, rfl⟩, ?_, ?_⟩
  · intro j hj
    have hk : j - a.offset.toNat < a.size := by
      unfold Access.Holds at hj
      omega
    have hbyte := hbytes (j - a.offset.toNat) hk
    rw [Nat.add_sub_cancel' hj.1] at hbyte
    rw [hbyte, Access.fill, if_pos hj]
  · intro j hj
    exact if_neg hj

variable {host}

theorem step_last_state {s s' : Emu} {e : Emulator.Machine.Event} (he : latches e = false)
    (h : Emulator.Machine.step host s e = .ok s') : s'.lastState = s.lastState := by
  cases Emulator.Machine.step_outcome h with
  | retire _ hs | tick hs | sleep _ hs | wake _ _ hs | faults hs =>
    subst hs
    rfl
  | books _ hs => rw [hs.lastState_eq]
  | change _ _ ht hs =>
    subst hs
    exact ht.lastState_eq
  | latch => cases he

theorem run_transfer {moves : List Move} {s s' : Emu} (target : ℕ → UInt8)
    (haccess : ∀ a ∈ accesses moves,
      a.Aligned ∧ a.offset.toNat + a.size ≤ vemuStateNVars * 8)
    (hquiet : ∀ e ∈ events moves, latches e = false)
    (h : run (Emulator.Machine.step host) s (events moves) = .ok s') :
    ∃ t, run (step host) ⟨s, target⟩ moves = .ok t ∧ t.emu = s' ∧
      (∀ j, (∃ a ∈ accesses moves, a.Holds j) →
        (array8 s.lastState)[j]? = some (t.target j)) ∧
      ∀ j, (∀ a ∈ accesses moves, ¬a.Holds j) → t.target j = target j := by
  induction moves generalizing s target with
  | nil =>
    cases h
    exact ⟨_, rfl, rfl, by simp [accesses], fun _ _ ↦ rfl⟩
  | cons m moves ih =>
    cases m with
    | event e =>
      obtain ⟨s₁, hs₁, h⟩ := run_cons_eq_ok.mp h
      obtain ⟨t, ht, hemu, hheld, hrest⟩ := ih target haccess
        (fun e' he' ↦ hquiet e' (List.mem_cons_of_mem e he')) h
      refine ⟨t, run_cons_eq_ok.mpr ⟨_, bind_ok_iff.mpr ⟨s₁, hs₁, rfl⟩, ht⟩, hemu, ?_, hrest⟩
      rwa [step_last_state (hquiet e List.mem_cons_self) hs₁] at hheld
    | read a rv =>
      obtain ⟨ha, hin⟩ := haccess a List.mem_cons_self
      obtain ⟨target₁, hread, hnew, hold⟩ := step_read host ha hin rv target
      obtain ⟨t, ht, hemu, hheld, hrest⟩ := ih target₁
        (fun b hb ↦ haccess b (List.mem_cons_of_mem a hb)) hquiet h
      refine ⟨t, run_cons_eq_ok.mpr ⟨_, hread, ht⟩, hemu, ?_, ?_⟩
      · -- A later access may read the byte again; otherwise it stays as this one left it.
        intro j hj
        by_cases hlater : ∃ b ∈ accesses moves, b.Holds j
        · exact hheld j hlater
        · have haj : a.Holds j := by
            obtain ⟨b, hb, hbj⟩ := hj
            rcases List.mem_cons.mp hb with rfl | hb
            · exact hbj
            · exact absurd ⟨b, hb, hbj⟩ hlater
          rw [hrest j (fun b hb hbj ↦ hlater ⟨b, hb, hbj⟩)]
          exact hnew j haj
      · intro j hj
        rw [hrest j (fun b hb ↦ hj b (List.mem_cons_of_mem a hb))]
        exact hold j (hj a List.mem_cons_self)

theorem transfer_state {moves : List Move} {s s' : Emu} (target : ℕ → UInt8)
    (htiles : Tiles (accesses moves)) (hquiet : ∀ e ∈ events moves, latches e = false)
    (h : run (Emulator.Machine.step host) s (events moves) = .ok s') :
    ∃ t, run (step host) ⟨s, target⟩ moves = .ok t ∧ t.emu = s' ∧
      array64 t.target = s.lastState := by
  obtain ⟨t, ht, hemu, hheld, -⟩ := run_transfer target htiles.1 hquiet h
  exact ⟨t, ht, hemu, array64_eq fun j hj ↦ hheld j (htiles.2 j hj)⟩

/-- An aligned access that passes the assertion returns bytes of the snapshot unless it is at the
end of it. Whatever else happens during the transfer, the words of the snapshot arrive. -/
theorem module_reads_exact_iff (host : Host) :
    (∀ (s : Emu) (a : Access), a.Aligned →
      (∀ rv, vemuModRead s rv a.offset a.size ≠ .error .assertion) →
      (ReadsSnapshot s a ↔ a.offset.toNat < vemuStateNVars * 8)) ∧
    ∀ (k : KernelState Emu) (old w : VemuState) (dev s' : Emu) (moves : List Move)
      (target : ℕ → UInt8), k.basePointer = true →
      vemuReadState (emulator host) k old = .ok (dev, w) →
      Tiles (accesses moves) → (∀ e ∈ events moves, latches e = false) →
      run (Emulator.Machine.step host) dev (events moves) = .ok s' →
      ∃ t, run (step host) ⟨dev, target⟩ moves = .ok t ∧ t.emu = s' ∧ array64 t.target = w := by
  refine ⟨fun s a ha hpass ↦ reads_snapshot_iff ha hpass, ?_⟩
  intro k old w dev s' moves target hmapped hread htiles hquiet hrun
  have hw : w = dev.lastState := by
    rcases read_state_ok hread with ⟨hb, -, -⟩ | ⟨-, -, hw⟩
    · rw [hmapped] at hb
      cases hb
    · exact hw
  rw [hw]
  exact transfer_state target htiles hquiet hrun

def wordReads : List Move :=
  (List.range 40).map fun i ↦ .read ⟨UInt64.ofNat (4 * i), 4⟩ 0

def interruptedReads : List Move :=
  .event load :: wordReads.take 7 ++ .event (.act .sleepStart) :: wordReads.drop 7

theorem interrupted_reads_exact :
    ∃ dev w t, vemuReadState (emulator linearHost)
        (variabilityInit (boot (vemuInitCycles gigahertz 0))) (fun _ ↦ 0) = .ok (dev, w) ∧
      ReadsSnapshot dev ⟨156, 4⟩ ∧
      run (step linearHost) ⟨dev, fun _ ↦ 0⟩ interruptedReads = .ok t ∧ array64 t.target = w := by
  have hok : Ends (fun p ↦ Ends (fun _ ↦ True)
      (run (Emulator.Machine.step linearHost) p.1 (events interruptedReads)))
      (vemuReadState (emulator linearHost)
        (variabilityInit (boot (vemuInitCycles gigahertz 0))) (fun _ ↦ 0)) := by
    decide +kernel
  obtain ⟨⟨dev, w⟩, hread, hok⟩ := hok.exists
  obtain ⟨s', hs', -⟩ := hok.exists
  obtain ⟨hexact, htransfer⟩ := module_reads_exact_iff linearHost
  obtain ⟨t, ht, -, hw⟩ := htransfer _ _ w dev s' interruptedReads (fun _ ↦ 0) rfl hread
    (by decide +kernel) (by decide +kernel) hs'
  refine ⟨dev, w, t, hread, (hexact dev ⟨156, 4⟩ (by decide) ?_).mpr (by decide), ht, hw⟩
  intro rv hfault
  obtain ⟨r, hr, -⟩ := mod_read_inside dev rv (a := ⟨156, 4⟩) (by decide) (by decide)
  rw [hr] at hfault
  cases hfault

theorem read_past_snapshot :
    Access.Aligned ⟨160, 4⟩ ∧
    ∀ (s : Emu) (rv : UInt64), vemuModRead s rv 160 4 = .error .outOfBounds := by
  refine ⟨by decide, ?_⟩
  intro s rv
  have hnone : (array8 s.lastState).drop (160 : UInt64).toNat = [] :=
    List.drop_eq_nil_of_le (length_array8 s.lastState).le
  rw [vemuModRead, if_pos (by decide), hnone]
  rfl

end VarEmu.Kernel.SnapshotReads
