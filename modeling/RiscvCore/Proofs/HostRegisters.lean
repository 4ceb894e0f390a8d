import Mathlib
import RiscvCore.Core.Session
import RiscvCore.Proofs.Fields

namespace RiscvCore

namespace RegisterId

/-- What a register holds once the host writes `v` to it: `x0` drops the write, `pc` keeps `v`
modulo `2^16`, every other register keeps `v` whole. -/
def held : RegisterId → UInt32 → UInt32
  | gpr r, v => if r.index = 0 then 0 else v
  | pc, v => v % 65536
  | _, v => v

theorem held_eq (id : RegisterId) (w : UInt32) :
    id.held w = if id = gpr Reg.zero then 0 else if id = pc then w % 65536 else w := by
  cases id with
  | gpr r =>
    by_cases h : r = Reg.zero
    · subst h
      rfl
    · have hi : r.index ≠ 0 := fun e => h (Reg.ext_index e)
      simp [held, h, hi]
  | _ => rfl

end RegisterId

namespace Command

def isRegisterWrite : Command → Bool
  | writeRegister .. | setRegister .. | setMachine _ => true
  | _ => false

/-- The value a host write gives register `id`, if it writes `id` at all. -/
def written : Command → RegisterId → Option UInt32
  | writeRegister id v, id' => if id' = id then some v else none
  | setRegister r v, id' => if id' = .gpr r then some v else none
  | setMachine m, .mstatus => some m.mstatus
  | setMachine m, .mepc => some m.mepc
  | setMachine m, .mcause => some m.mcause
  | setMachine m, .mtvec => some m.mtvec
  | _, _ => none

end Command

/-- The value the last of the commands that write `id` gives it. -/
def lastWritten (cmds : List Command) (id : RegisterId) : Option UInt32 :=
  (cmds.filterMap (·.written id)).getLast?

theorem lastWritten_cons (cmd : Command) (cmds : List Command) (id : RegisterId) :
    lastWritten (cmd :: cmds) id = (lastWritten cmds id).or (cmd.written id) := by
  unfold lastWritten
  rw [List.filterMap_cons]
  cases cmd.written id with
  | none => cases (cmds.filterMap (·.written id)).getLast? <;> rfl
  | some v => rw [List.getLast?_cons]; cases (cmds.filterMap (·.written id)).getLast? <;> rfl

namespace Core

@[simp] theorem readRegister_zero (c : Core) : c.readRegister (.gpr Reg.zero) = 0 :=
  c.regs.read_zero

theorem setRegister_eq_writeRegister (c : Core) (r : Reg) (v : UInt32) :
    c.setRegister r v = c.writeRegister v (.gpr r) := rfl

theorem readRegister_writeRegister_self (c : Core) (v : UInt32) (id : RegisterId) :
    (c.writeRegister v id).readRegister id = id.held v := by
  cases id with
  | gpr r =>
    simp only [writeRegister, readRegister, RegFile.read_write, RegisterId.held, true_and]
    by_cases h : r.index = 0
    · have hr : r = Reg.zero := Reg.ext_index h
      simp [hr]
    · simp [h]
  | pc =>
    apply UInt32.toNat_inj.mp
    simp [writeRegister, readRegister, RegisterId.held]
  | _ => rfl

theorem readRegister_writeRegister_ne (c : Core) (v : UInt32) {id id' : RegisterId}
    (h : id' ≠ id) : (c.writeRegister v id).readRegister id' = c.readRegister id' := by
  cases id with
  | gpr r =>
    cases id' with
    | gpr r' =>
      have hr : r' ≠ r := fun e => h (congrArg _ e)
      simp [writeRegister, readRegister, RegFile.read_write, hr]
    | _ => rfl
  | _ =>
    cases id' <;> simp_all [writeRegister, readRegister]

theorem readRegister_writeRegister (c : Core) (v : UInt32) (id id' : RegisterId) :
    (c.writeRegister v id).readRegister id' = if id' = id then id.held v else c.readRegister id' := by
  split
  · rename_i h
    subst h
    exact readRegister_writeRegister_self c v id'
  · rename_i h
    exact readRegister_writeRegister_ne c v h

theorem readRegister_exec_write (c : Core) {cmd : Command} (hw : cmd.isRegisterWrite = true)
    (id : RegisterId) :
    (c.exec cmd).2.readRegister id = ((cmd.written id).map id.held).getD (c.readRegister id) := by
  cases cmd with
  | writeRegister id₀ v =>
    simp only [exec, Command.written, readRegister_writeRegister]
    split <;> simp_all
  | setRegister r v =>
    simp only [exec, Command.written, setRegister_eq_writeRegister, readRegister_writeRegister]
    split <;> simp_all
  | setMachine m => cases id <;> rfl
  | _ => simp [Command.isRegisterWrite] at hw

theorem readRegister_session_writes (c : Core) {cmds : List Command}
    (hw : ∀ cmd ∈ cmds, cmd.isRegisterWrite = true) (id : RegisterId) :
    (c.session cmds).readRegister id =
      ((lastWritten cmds id).map id.held).getD (c.readRegister id) := by
  induction cmds generalizing c with
  | nil => rfl
  | cons cmd cmds ih =>
    have hcmd : cmd.isRegisterWrite = true := hw cmd List.mem_cons_self
    have hrest : ∀ cmd' ∈ cmds, cmd'.isRegisterWrite = true :=
      fun cmd' h => hw cmd' (List.mem_cons_of_mem cmd h)
    -- a later write hides this one; without one the value this command left stays
    calc (c.session (cmd :: cmds)).readRegister id
        = ((lastWritten cmds id).map id.held).getD ((c.exec cmd).2.readRegister id) :=
          ih (c.exec cmd).2 hrest
      _ = ((lastWritten cmds id).map id.held).getD
            (((cmd.written id).map id.held).getD (c.readRegister id)) := by
          rw [readRegister_exec_write c hcmd]
      _ = ((lastWritten (cmd :: cmds) id).map id.held).getD (c.readRegister id) := by
          rw [lastWritten_cons]
          cases lastWritten cmds id <;> rfl

theorem getRegister_toBitVec (c : Core) (r : Reg) :
    (c.getRegister r).toBitVec = (c.readRegister (.gpr r)).toBitVec := rfl

end Core

theorem Reg.ofNat?_of_le {i : Nat} (h : 32 ≤ i) : Reg.ofNat? i = none := by
  simp [Reg.ofNat?, Nat.not_lt.mpr h]

namespace RegFile

theorem readIndex_index (rf : RegFile) (r : Reg) : rf.readIndex r.index = .ok (rf.read r) := by
  simp [readIndex, Reg.ofNat?_index]

theorem writeIndex_index (rf : RegFile) (r : Reg) (v : UInt32) :
    rf.writeIndex r.index v = .ok (rf.write r v) := by
  simp [writeIndex, Reg.ofNat?_index]

theorem readIndex_of_le (rf : RegFile) {i : Nat} (h : 32 ≤ i) :
    rf.readIndex i = .error (.invalidRegister i) := by
  simp [readIndex, Reg.ofNat?_of_le h]

theorem writeIndex_of_le (rf : RegFile) {i : Nat} (h : 32 ≤ i) (v : UInt32) :
    rf.writeIndex i v = .error (.invalidRegister i) := by
  simp [writeIndex, Reg.ofNat?_of_le h]

theorem exists_index {i : Nat} (h : i < 32) : ∃ r : Reg, r.index = i := ⟨⟨⟨i, h⟩⟩, rfl⟩

theorem readIndex_ok_iff (rf : RegFile) (i : Nat) : (∃ w, rf.readIndex i = .ok w) ↔ i < 32 := by
  constructor
  · rintro ⟨w, hw⟩
    by_contra hn
    rw [readIndex_of_le rf (Nat.le_of_not_lt hn)] at hw
    cases hw
  · intro h
    obtain ⟨r, rfl⟩ := exists_index h
    exact ⟨_, readIndex_index rf r⟩

theorem writeIndex_ok_iff (rf : RegFile) (i : Nat) (v : UInt32) :
    (∃ rf', rf.writeIndex i v = .ok rf') ↔ i < 32 := by
  constructor
  · rintro ⟨rf', hw⟩
    by_contra hn
    rw [writeIndex_of_le rf (Nat.le_of_not_lt hn)] at hw
    cases hw
  · intro h
    obtain ⟨r, rfl⟩ := exists_index h
    exact ⟨_, writeIndex_index rf r v⟩

end RegFile

/-- Store laws of host register access. After any sequence of host writes, an id reads what the
last write to it left (the value itself for `x1`..`x31` and the machine-mode registers, the value
modulo `2^16` for `pc`, and 0 for `x0`), or what it read before if nothing wrote it; `x0` always
reads 0; a write to one id leaves every other id's value alone, and `setRegister` is a write of the
register's id; the signed reading of a general-purpose register has the bits of its unsigned one.
On the register file, reading and writing by plain index succeed exactly below 32, where they are
reading and writing that register, and otherwise fail naming the index. -/
theorem host_register_store_laws (c : Core) (cmds : List Command)
    (hw : ∀ cmd ∈ cmds, cmd.isRegisterWrite = true) (id id' : RegisterId) (v : UInt32) (r : Reg)
    (rf : RegFile) (i : Nat) :
    (c.session cmds).readRegister id =
      ((lastWritten cmds id).map fun w =>
        if id = .gpr Reg.zero then 0 else if id = .pc then w % 65536 else w).getD
        (c.readRegister id) ∧
    c.readRegister (.gpr Reg.zero) = 0 ∧
    (id' ≠ id → (c.writeRegister v id).readRegister id' = c.readRegister id') ∧
    c.setRegister r v = c.writeRegister v (.gpr r) ∧
    (c.getRegister r).toBitVec = (c.readRegister (.gpr r)).toBitVec ∧
    ((∃ w, rf.readIndex i = .ok w) ↔ i < 32) ∧ ((∃ rf', rf.writeIndex i v = .ok rf') ↔ i < 32) ∧
    rf.readIndex r.index = .ok (rf.read r) ∧ rf.writeIndex r.index v = .ok (rf.write r v) ∧
    (32 ≤ i → rf.readIndex i = .error (.invalidRegister i) ∧
      rf.writeIndex i v = .error (.invalidRegister i)) := by
  have hheld : id.held = fun w =>
      if id = .gpr Reg.zero then 0 else if id = .pc then w % 65536 else w :=
    funext (RegisterId.held_eq id)
  refine ⟨hheld ▸ Core.readRegister_session_writes c hw id, Core.readRegister_zero c,
    Core.readRegister_writeRegister_ne c v, Core.setRegister_eq_writeRegister c r v,
    Core.getRegister_toBitVec c r, RegFile.readIndex_ok_iff rf i, RegFile.writeIndex_ok_iff rf i v,
    RegFile.readIndex_index rf r, RegFile.writeIndex_index rf r v,
    fun h => ⟨RegFile.readIndex_of_le rf h, RegFile.writeIndex_of_le rf h v⟩⟩

theorem host_register_store_laws_writes :
    (∀ cmd ∈ [.writeRegister .pc 0x12345, .setRegister Reg.s0 7, .setMachine { mtvec := 0x100 },
      .writeRegister (.gpr Reg.zero) 9], Command.isRegisterWrite cmd = true) ∧
    (Core.init.session [.writeRegister .pc 0x12345, .setRegister Reg.s0 7,
      .setMachine { mtvec := 0x100 }, .writeRegister (.gpr Reg.zero) 9]).readRegister .pc =
      0x2345 := by
  have hw : ∀ cmd ∈ [.writeRegister .pc 0x12345, .setRegister Reg.s0 7,
      .setMachine { mtvec := 0x100 }, .writeRegister (.gpr Reg.zero) 9],
      Command.isRegisterWrite cmd = true := by
    simp [Command.isRegisterWrite]
  refine ⟨hw, ?_⟩
  rw [(host_register_store_laws Core.init _ hw .pc .pc 0 Reg.zero RegFile.empty 0).1]
  rfl

end RiscvCore
