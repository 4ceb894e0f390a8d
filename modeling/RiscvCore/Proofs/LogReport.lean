import Mathlib
import RiscvCore.Proofs.RollingLog
import RiscvCore.Proofs.Reference

namespace RiscvCore

namespace Event

/-- The event names register `r` as changed from `a` to `b`. -/
def Reports : Event → Reg → UInt32 → UInt32 → Prop
  | .arithmetic rd _ _ old new, r, a, b | .upper rd old new, r, a, b => rd = r ∧ old = a ∧ new = b
  | .jump rd old (some new) _, r, a, b => rd = r ∧ old = a ∧ new = b
  | _, _, _, _ => False

/-- The events of steps that write their destination without naming it: a load, and an
unsupported OP or OP_IMM. -/
def Silent : Event → Prop
  | .other .load | .unsupported .op _ _ | .unsupported .opImm _ _ => True
  | _ => False

end Event

/-- What an entry says of the step from `c` to `c'` over `fetch`: where and when it ran, the word
it fetched, the operands an arithmetic step read, where a jump went, and whether a branch was
taken, with its target exactly when it was. -/
structure Entry.Describes (e : Entry) (fetch : UInt16 → UInt32) (c c' : Core) : Prop where
  pc : e.pc = c.pc
  word : e.word = fetch c.pc
  cycle : e.cycle = c'.count
  operands : ∀ rd a b old new, e.event = .arithmetic rd a b old new →
    a = c.regs.read (decode (fetch c.pc)).rs1 ∧
    b = if (decode (fetch c.pc)).opcode = .op then some (c.regs.read (decode (fetch c.pc)).rs2)
      else none
  jump : ∀ rd old new t, e.event = .jump rd old new t → t = c'.pc
  branch : ∀ a b taken t, e.event = .branch a b taken t →
    taken = (execute (decode (fetch c.pc)) c.regs c.pc).branchTaken ∧
    t = if taken then some c'.pc else none

/-- Every register the step from `c` to `c'` changed is named in the event with its old and new
value. -/
def Event.ReportsChanges (ev : Event) (c c' : Core) : Prop :=
  ∀ r, c'.regs.read r ≠ c.regs.read r → ev.Reports r (c.regs.read r) (c'.regs.read r)

section Record
variable (n : Nat) (pc : UInt16) (d : Decoded) (o : Outcome) (a b old : UInt32)

theorem record_arithmetic {rd : Reg} {a' old' new' : UInt32} {b' : Option UInt32}
    (h : (Entry.record n pc d o a b old).event = .arithmetic rd a' b' old' new') :
    a' = a ∧ b' = if d.opcode = .op then some b else none := by
  simp only [Entry.record] at h
  split at h
  · cases h
  · split at h <;> rename_i ho <;> cases h
    · simp [ho]
    · simp [ho]

theorem record_jump {rd : Reg} {old' : UInt32} {new' : Option UInt32} {t : UInt16}
    (h : (Entry.record n pc d o a b old).event = .jump rd old' new' t) : t = o.nextPc := by
  simp only [Entry.record] at h
  split at h
  · cases h
  · split at h <;> cases h <;> rfl

theorem record_branch {a' b' : UInt32} {taken : Bool} {t : Option UInt16}
    (h : (Entry.record n pc d o a b old).event = .branch a' b' taken t) :
    taken = o.branchTaken ∧ t = if taken then some o.nextPc else none := by
  simp only [Entry.record] at h
  split at h
  · cases h
  · split at h <;> cases h
    exact ⟨rfl, rfl⟩

end Record

theorem execute_unsupported {d : Decoded} {rf : RegFile} {pc : UInt16}
    (h : (execute d rf pc).unsupported = true) :
    (d.opcode = .op ∨ d.opcode = .opImm ∨ d.opcode = .branch) ∧ (execute d rf pc).result = 0 := by
  by_cases hi : d.opcode = .opImm
  · rw [execute_opImm rf pc hi] at h ⊢
    simp only [Decoded.outcomeOf, Option.isNone_iff_eq_none] at h ⊢
    simp [h, hi]
  by_cases ho : d.opcode = .op
  · rw [execute_op rf pc ho] at h ⊢
    simp only [Decoded.outcomeOf, Option.isNone_iff_eq_none] at h ⊢
    simp [h, ho]
  by_cases hb : d.opcode = .branch
  · rw [execute_branch rf pc hb]
    exact ⟨.inr (.inr hb), rfl⟩
  exfalso
  by_cases hj : d.opcode = .jal
  · rw [execute_jal rf pc hj] at h; cases h
  by_cases hjr : d.opcode = .jalr
  · rw [execute_jalr rf pc hjr] at h; cases h
  by_cases hl : d.opcode = .lui
  · rw [execute_lui rf pc hl] at h; cases h
  by_cases ha : d.opcode = .auipc
  · rw [execute_auipc rf pc ha] at h; cases h
  rw [execute_other rf pc (by simp [hi, ho, hb, hj, hjr, hl, ha])] at h
  cases h

theorem writesRd_opcodes {o : Opcode} (h : o.format.writesRd = true) :
    o ∈ [.load, .opImm, .auipc, .op, .lui, .jalr, .jal] := by
  cases o <;> first | decide | cases h

theorem record_reports {d : Decoded} (hf : d.format = d.opcode.format)
    (hw : d.format.writesRd = true) (hz : d.rd.isZero = false) (rf : RegFile) (pc : UInt16)
    (n : Nat) (a b : UInt32) :
    (Entry.record n pc d (execute d rf pc) a b (rf.read d.rd)).event.Reports d.rd (rf.read d.rd)
        (execute d rf pc).result ∨
      ((Entry.record n pc d (execute d rf pc) a b (rf.read d.rd)).event.Silent ∧
        (execute d rf pc).result = 0) := by
  cases hu : (execute d rf pc).unsupported
  · rw [hf] at hw
    have hop := writesRd_opcodes hw
    simp only [List.mem_cons, List.not_mem_nil, or_false] at hop
    rcases hop with h | h | h | h | h | h | h
    · right
      rw [execute_other rf pc (by simp [h])]
      simp [Entry.record, Decoded.outcomeOf, h, Event.Silent]
    all_goals left; simp [Entry.record, hu, h, hz, Event.Reports]
  · obtain ⟨hop, h0⟩ := execute_unsupported hu
    right
    refine ⟨?_, h0⟩
    rcases hop with h | h | h
    · simp [Entry.record, hu, h, Event.Silent]
    · simp [Entry.record, hu, h, Event.Silent]
    · rw [hf, h] at hw; cases hw

namespace Core

variable (fetch : UInt16 → UInt32)

theorem execute_writeBack (d : Decoded) (rf : RegFile) (pc : UInt16) :
    (execute d rf pc).writeBack =
      if d.format.writesRd then some (d.rd, (execute d rf pc).result) else none := rfl

theorem advance_regs (c : Core) :
    (c.advance fetch).2.regs =
      if (decode (fetch c.pc)).format.writesRd then
        c.regs.write (decode (fetch c.pc)).rd (execute (decode (fetch c.pc)) c.regs c.pc).result
      else c.regs := by
  simp only [advance, execute_writeBack]
  cases (decode (fetch c.pc)).format.writesRd <;> rfl

theorem advance_changed (c : Core) {x : Reg} (h : (c.advance fetch).2.regs.read x ≠ c.regs.read x) :
    (decode (fetch c.pc)).format.writesRd = true ∧ x = (decode (fetch c.pc)).rd ∧
      (decode (fetch c.pc)).rd.isZero = false ∧
      (c.advance fetch).2.regs.read x = (execute (decode (fetch c.pc)) c.regs c.pc).result := by
  rw [advance_regs] at h ⊢
  by_cases hw : (decode (fetch c.pc)).format.writesRd = true
  · rw [if_pos hw, RegFile.read_write] at h ⊢
    split at h
    · rename_i hx
      refine ⟨hw, hx.1, ?_, by rw [if_pos hx]⟩
      simpa [Reg.isZero] using hx.2
    · exact absurd rfl h
  · rw [if_neg hw] at h
    exact absurd rfl h

theorem stepEntry_changes (c : Core) {x : Reg}
    (h : (c.advance fetch).2.regs.read x ≠ c.regs.read x) :
    (c.stepEntry fetch).event.Reports x (c.regs.read x) ((c.advance fetch).2.regs.read x) ∨
      ((c.stepEntry fetch).event.Silent ∧ x = (decode (fetch c.pc)).rd ∧
        (c.advance fetch).2.regs.read x = 0) := by
  obtain ⟨hw, rfl, hz, hv⟩ := advance_changed fetch c h
  rw [hv]
  rcases record_reports rfl hw hz c.regs c.pc (c.count + 1) (c.regs.read (decode (fetch c.pc)).rs1)
    (c.regs.read (decode (fetch c.pc)).rs2) with hr | ⟨hs, h0⟩
  · exact .inl hr
  · exact .inr ⟨hs, rfl, h0⟩

theorem stepEntry_describes (c : Core) :
    (c.stepEntry fetch).Describes fetch c (c.advance fetch).2 where
  pc := rfl
  word := rfl
  cycle := rfl
  operands _ _ _ _ _ h := record_arithmetic _ _ _ _ _ _ _ h
  jump _ _ _ _ h := record_jump _ _ _ _ _ _ _ h
  branch _ _ _ _ h := record_branch _ _ _ _ _ _ _ h

theorem logged_eq {c c' : Core} {r : StepResult} (h : c.step fetch = .ok (r, c')) {e : Entry}
    (he : e ∈ c.logged fetch) : e = c.stepEntry fetch ∧ c'.log = pushLog c.log e := by
  have he' : e = c.stepEntry fetch := by
    simp only [logged] at he
    split at he
    · exact List.mem_singleton.mp he
    · cases he
  refine ⟨he', ?_⟩
  rw [step_log fetch h]
  simp only [logged] at he ⊢
  split
  · rw [he', List.foldl_cons, List.foldl_nil]
  · rename_i hn
    rw [if_neg hn] at he
    cases he

/-- A logged entry reports its step faithfully. The step pushes it onto the log; it names the pc
the step ran at, the word it fetched and the cycle it retired as, the operands an arithmetic step
read, where a jump went, and a branch's decision with its target exactly when taken; and every
register the step changed is named with its old and new value, except that a load or an
unsupported OP or OP_IMM sets its destination to 0 without naming it. -/
theorem log_entry_faithful {c c' : Core} {r : StepResult} (h : c.step fetch = .ok (r, c'))
    {e : Entry} (he : e ∈ c.logged fetch) :
    c'.log = pushLog c.log e ∧ e.Describes fetch c c' ∧
    ∀ x : Reg, c'.regs.read x ≠ c.regs.read x →
      e.event.Reports x (c.regs.read x) (c'.regs.read x) ∨
      (e.event.Silent ∧ x = (decode (fetch c.pc)).rd ∧ c'.regs.read x = 0) := by
  obtain ⟨rfl, hlog⟩ := logged_eq fetch h he
  obtain ⟨-, -, -, rfl⟩ := step_eq_ok fetch h
  exact ⟨hlog, stepEntry_describes fetch c, fun x hx => stepEntry_changes fetch c hx⟩

/-- A core at `instructions` with 5 in `a0`, about to run `lw a0, 0(zero)` at address 0. -/
def loadingCore : Core := { level := .instructions, regs := RegFile.empty.write (Reg.ofField 10) 5 }

/-- The word `lw a0, 0(zero)`. -/
def loadWord : UInt32 := 0x2503

theorem loadingCore_load :
    loadingCore.step (fun _ => loadWord) =
        .ok (.proceed, (loadingCore.advance fun _ => loadWord).2) ∧
      loadingCore.stepEntry (fun _ => loadWord) ∈ loadingCore.logged (fun _ => loadWord) ∧
      (loadingCore.stepEntry fun _ => loadWord).event = .other .load := by
  have hstep := step_ok (fun _ => loadWord) (c := loadingCore) rfl (fun L h => by cases h)
  have hhalt : loadingCore.haltsNow (fun _ => loadWord) = false := by decide
  rw [hhalt] at hstep
  exact ⟨hstep, by simp [logged, loadingCore, LogLevel.logs], by decide⟩

theorem log_entry_faithful_load :
    ∃ c', loadingCore.step (fun _ => loadWord) = .ok (.proceed, c') ∧
      c'.log = [loadingCore.stepEntry fun _ => loadWord] ∧
      (loadingCore.stepEntry fun _ => loadWord).event = .other .load ∧
      loadingCore.regs.read (Reg.ofField 10) = 5 ∧ c'.regs.read (Reg.ofField 10) = 0 := by
  obtain ⟨hstep, hlogged, hev⟩ := loadingCore_load
  obtain ⟨hlog, -, hch⟩ := log_entry_faithful (fun _ => loadWord) hstep hlogged
  refine ⟨_, hstep, ?_, hev, by decide, ?_⟩
  · rw [hlog]
    rfl
  · rcases hch (Reg.ofField 10) (by decide) with hr | ⟨-, -, h0⟩
    · rw [hev] at hr
      simp [Event.Reports] at hr
    · exact h0

theorem load_change_unreported :
    ¬ ∀ (c c' : Core) (fetch : UInt16 → UInt32) (r : StepResult), c.step fetch = .ok (r, c') →
      ∀ e ∈ c.logged fetch, e.Describes fetch c c' ∧ e.event.ReportsChanges c c' := by
  intro h
  obtain ⟨hstep, hlogged, hev⟩ := loadingCore_load
  obtain ⟨-, hch⟩ := h _ _ _ _ hstep _ hlogged
  have hr := hch (Reg.ofField 10) (by decide)
  rw [hev] at hr
  simp [Event.Reports] at hr

end Core

end RiscvCore
