import Mathlib
import RiscvCore.Proofs.Run
import RiscvCore.Proofs.Reference

namespace RiscvCore

namespace Core

variable (fetch : UInt16 → UInt32)

def withRun (c : Core) (p : HaltPolicy) (s : RunState) : Core := { c with policy := p, state := s }

section WithRun
variable (c : Core) (p q : HaltPolicy) (s t : RunState)

@[simp] theorem withRun_pc : (c.withRun p s).pc = c.pc := rfl
@[simp] theorem withRun_regs : (c.withRun p s).regs = c.regs := rfl
@[simp] theorem withRun_withRun : (c.withRun p s).withRun q t = c.withRun q t := rfl

theorem withRun_eq_self {c : Core} {p : HaltPolicy} {s : RunState} (hp : c.policy = p)
    (hs : c.state = s) : c.withRun p s = c := by
  subst hp hs
  rfl

theorem advance_withRun :
    ((c.withRun p s).advance fetch).2.withRun q t = (c.advance fetch).2.withRun q t := rfl

theorem after_withRun (i : Nat) :
    ((c.withRun p s).after fetch i).withRun q t = (c.after fetch i).withRun q t := by
  induction i generalizing q t with
  | zero => rfl
  | succ i ih =>
    rw [after_succ', after_succ', ← advance_withRun fetch ((c.withRun p s).after fetch i) q q t,
      ih, advance_withRun]

end WithRun

theorem nextPc_ret (rf : RegFile) (pc : UInt16) :
    (execute (decode Encode.retWord) rf pc).nextPc = ((rf.read Reg.ra &&& ~~~1) >>> 2).toUInt16 := by
  have hop : (decode Encode.retWord).opcode = .jalr := by decide
  have hrs1 : (decode Encode.retWord).rs1 = Reg.ra := by decide
  have himm : (decode Encode.retWord).imm.toUInt32 = 0 := by decide
  rw [execute_jalr rf pc hop, hrs1, himm, UInt32.add_zero]
  rfl

theorem haltsNow_onReturn {c : Core} (h : c.policy = .onReturn) :
    c.haltsNow fetch = true ↔ fetch c.pc = Encode.retWord := by
  simp [haltsNow, halts, h]

theorem fetch_ne_ret {c : Core} (h : c.policy = .onReturn) (hn : c.haltsNow fetch = false) :
    fetch c.pc ≠ Encode.retWord := fun hr => by
  rw [← haltsNow_onReturn fetch h, hn] at hr
  cases hr

theorem haltsNow_returnToZero {c : Core} (h : c.policy = .returnToZero) :
    c.haltsNow fetch = true ↔
      fetch c.pc = Encode.retWord ∧ ((c.regs.read Reg.ra &&& ~~~1) >>> 2).toUInt16 = 0 := by
  simp only [haltsNow, halts, h, Bool.and_eq_true, beq_iff_eq, Bool.or_eq_true]
  constructor
  · rintro ⟨hret, hz⟩
    refine ⟨hret, ?_⟩
    rcases hz with hz | hz
    · cases hz
    · rwa [hret, nextPc_ret] at hz
  · rintro ⟨hret, hz⟩
    refine ⟨hret, .inr ?_⟩
    rwa [hret, nextPc_ret]

theorem after_withRun_eq {a b : Core} {p : HaltPolicy} {s : RunState}
    (h : a.withRun p s = b.withRun p s) (i : Nat) (q : HaltPolicy) (t : RunState) :
    (a.after fetch i).withRun q t = (b.after fetch i).withRun q t := by
  have ha : a = b.withRun a.policy a.state := by
    rw [← withRun_withRun b p a.policy s a.state, ← h, withRun_withRun, withRun_eq_self rfl rfl]
  rw [ha, after_withRun]

section Lockstep
variable {a b : Core}

theorem after_pc_agree (hab : a.withRun .returnToZero .running = b.withRun .returnToZero .running)
    (i : Nat) : (a.after fetch i).pc = (b.after fetch i).pc := by
  rw [← withRun_pc _ .returnToZero .running, after_withRun_eq fetch hab, withRun_pc]

theorem after_regs_agree (hab : a.withRun .returnToZero .running = b.withRun .returnToZero .running)
    (i : Nat) : (a.after fetch i).regs = (b.after fetch i).regs := by
  rw [← withRun_regs _ .returnToZero .running, after_withRun_eq fetch hab, withRun_regs]

theorem haltsNow_of_returnToZero (ha : a.policy = .onReturn) (hb : b.policy = .returnToZero)
    (hab : a.withRun .returnToZero .running = b.withRun .returnToZero .running) {i : Nat}
    (h : (b.after fetch i).haltsNow fetch = true) : (a.after fetch i).haltsNow fetch = true := by
  rw [haltsNow_returnToZero fetch (by rw [after_policy, hb])] at h
  rw [haltsNow_onReturn fetch (by rw [after_policy, ha]), after_pc_agree fetch hab]
  exact h.1

theorem noHalt_returnToZero (ha : a.policy = .onReturn) (hb : b.policy = .returnToZero)
    (hab : a.withRun .returnToZero .running = b.withRun .returnToZero .running) {j : Nat}
    (hnot : ∀ i < j, (a.after fetch i).haltsNow fetch = false) :
    ∀ i < j, (b.after fetch i).haltsNow fetch = false := fun i hi => by
  cases h : (b.after fetch i).haltsNow fetch
  · rfl
  · rw [← hnot i hi, haltsNow_of_returnToZero fetch ha hb hab h]

theorem after_eq_running (hb : b.policy = .returnToZero)
    (hab : a.withRun .returnToZero .running = b.withRun .returnToZero .running)
    (hrun : b.state = .running) {j : Nat} (hnot : ∀ i < j, (b.after fetch i).haltsNow fetch = false) :
    b.after fetch j = (a.after fetch j).withRun .returnToZero .running := by
  rw [after_withRun_eq fetch hab,
    withRun_eq_self (by rw [after_policy, hb]) (after_running fetch b hrun hnot)]

theorem after_eq_halted (hb : b.policy = .returnToZero)
    (hab : a.withRun .returnToZero .running = b.withRun .returnToZero .running) {j : Nat}
    (ha' : (a.after fetch j).haltsNow fetch = true) (hb' : (b.after fetch j).haltsNow fetch = true) :
    b.after fetch (j + 1) = { a.after fetch (j + 1) with policy := .returnToZero } := by
  have hsa : (a.after fetch (j + 1)).state = .stopped := by
    rw [after_succ', advance_state, if_pos ha']
  have hsb : (b.after fetch (j + 1)).state = .stopped := by
    rw [after_succ', advance_state, if_pos hb']
  show _ = (a.after fetch (j + 1)).withRun .returnToZero (a.after fetch (j + 1)).state
  rw [hsa, after_withRun_eq fetch hab, withRun_eq_self (by rw [after_policy, hb]) hsb]

end Lockstep

/-- The two halt policies run in lockstep. Through every advance the two runs' cores are equal
but for policy and run state. The `onReturn` run halts at the first fetched `ret`, and the
`returnToZero` run at the first `ret` whose return address, bit 0 cleared and shifted right by
two, is word 0, so never earlier. The two end at the same step with the same core exactly when
that first `ret` goes to word 0, and an `onReturn` run that fails is matched by the same failure. -/
theorem halt_policies_lockstep (c : Core) (start : UInt16) :
    let a₀ := ({ c with policy := .onReturn } : Core).reset start
    let b₀ := ({ c with policy := .returnToZero } : Core).reset start
    let ra := ({ c with policy := .onReturn } : Core).run start fetch
    let rb := ({ c with policy := .returnToZero } : Core).run start fetch
    (∀ i, { a₀.after fetch i with policy := .returnToZero, state := (b₀.after fetch i).state } =
      b₀.after fetch i) ∧
    (∀ m, ra.2 = .ok m →
      1 ≤ m ∧ ra.1 = a₀.after fetch m ∧ fetch (a₀.after fetch (m - 1)).pc = Encode.retWord ∧
      (∀ i < m - 1, fetch (a₀.after fetch i).pc ≠ Encode.retWord) ∧
      (∀ n, rb.2 = .ok n → m ≤ n) ∧
      (ra.1.pc = 0 ↔ rb = ({ ra.1 with policy := .returnToZero }, .ok m))) ∧
    (∀ n, rb.2 = .ok n →
      1 ≤ n ∧ rb.1 = b₀.after fetch n ∧ rb.1.pc = 0 ∧
      (fetch (b₀.after fetch (n - 1)).pc = Encode.retWord ∧
        (((b₀.after fetch (n - 1)).regs.read Reg.ra &&& ~~~1) >>> 2).toUInt16 = 0) ∧
      ∀ i < n - 1, ¬ (fetch (b₀.after fetch i).pc = Encode.retWord ∧
        (((b₀.after fetch i).regs.read Reg.ra &&& ~~~1) >>> 2).toUInt16 = 0)) ∧
    (∀ e, ra.2 = .error e →
      (∀ i < c.limit.getD (2 ^ 64 + 1), fetch (a₀.after fetch i).pc ≠ Encode.retWord) ∧
      rb = ({ ra.1 with policy := .returnToZero }, .error e)) := by
  intro a₀ b₀ ra rb
  have ha : a₀.policy = .onReturn := rfl
  have hb : b₀.policy = .returnToZero := rfl
  have hab : a₀.withRun .returnToZero .running = b₀.withRun .returnToZero .running := rfl
  have hpa : ∀ i, (a₀.after fetch i).policy = .onReturn := fun i => by rw [after_policy, ha]
  have hpb : ∀ i, (b₀.after fetch i).policy = .returnToZero := fun i => by rw [after_policy, hb]
  have hB : ∀ n, rb.2 = .ok n → ∃ j < c.limit.getD (2 ^ 64 + 1), n = j + 1 ∧
      rb.1 = b₀.after fetch (j + 1) ∧ (∀ i < j, (b₀.after fetch i).haltsNow fetch = false) ∧
      (b₀.after fetch j).haltsNow fetch = true := fun n hn =>
    run_eq_ok fetch (show rb = (rb.1, .ok n) from Prod.ext rfl hn)
  refine ⟨fun i => ?_, fun m hm => ?_, fun n hn => ?_, fun e he => ?_⟩
  · show (a₀.after fetch i).withRun _ _ = _
    rw [after_withRun_eq fetch hab, withRun_eq_self (hpb i) rfl]
  · obtain ⟨j, hj, rfl, hfinal, hnot, hhalt⟩ :=
      run_eq_ok fetch (show ra = (ra.1, .ok m) from Prod.ext rfl hm)
    have hret : fetch (a₀.after fetch j).pc = Encode.retWord :=
      (haltsNow_onReturn fetch (hpa j)).mp hhalt
    refine ⟨Nat.succ_pos j, hfinal, hret, fun i hi => ?_, fun n hn => ?_, ?_⟩
    · exact fetch_ne_ret fetch (hpa i) (hnot i hi)
    · obtain ⟨j', -, rfl, -, -, hhalt'⟩ := hB n hn
      have := haltsNow_of_returnToZero fetch ha hb hab hhalt'
      by_contra hlt
      rw [hnot j' (by omega)] at this
      cases this
    · constructor
      · intro hz
        have hnext : (((a₀.after fetch j).regs.read Reg.ra &&& ~~~1) >>> 2).toUInt16 = 0 := by
          rw [hfinal, after_succ', advance_pc, hret, nextPc_ret] at hz
          exact hz
        have hhaltb : (b₀.after fetch j).haltsNow fetch = true := by
          rw [haltsNow_returnToZero fetch (hpb j), ← after_pc_agree fetch hab,
            ← after_regs_agree fetch hab]
          exact ⟨hret, hnext⟩
        rw [show rb = _ from run_of_first_halt fetch hj (noHalt_returnToZero fetch ha hb hab hnot)
          hhaltb, hfinal, after_eq_halted fetch hb hab hhalt hhaltb]
      · intro hrb
        obtain ⟨j', -, -, hfinal', -, hhalt'⟩ := hB (j + 1) (by rw [hrb])
        have hpc : rb.1.pc = 0 := by
          rw [hfinal', after_succ']
          exact (haltsNow_spec fetch _ hhalt').2 (hpb j')
        rw [hrb] at hpc
        exact hpc
  · obtain ⟨j, -, rfl, hfinal, hnot, hhalt⟩ := hB n hn
    have hspec := haltsNow_spec fetch _ hhalt
    refine ⟨Nat.succ_pos j, hfinal, ?_, (haltsNow_returnToZero fetch (hpb j)).mp hhalt,
      fun i hi hz => ?_⟩
    · rw [hfinal, after_succ']
      exact hspec.2 (hpb j)
    · rw [← haltsNow_returnToZero fetch (hpb i), hnot i hi] at hz
      cases hz
  · set β := c.limit.getD (2 ^ 64 + 1)
    have hnone : ∀ i < β, (a₀.after fetch i).haltsNow fetch = false :=
      run_eq_error fetch (show ra = (ra.1, .error e) from Prod.ext rfl he)
    have hnone' := noHalt_returnToZero fetch ha hb hab hnone
    have hra : ra = (a₀.after fetch β, .error (.limitExceeded β β (a₀.after fetch β).pc
        (a₀.after fetch β).regs.snapshot)) :=
      run_of_no_halt (c := ({ c with policy := .onReturn } : Core)) fetch hnone
    have hrb : rb = (b₀.after fetch β, .error (.limitExceeded β β (b₀.after fetch β).pc
        (b₀.after fetch β).regs.snapshot)) :=
      run_of_no_halt (c := ({ c with policy := .returnToZero } : Core)) fetch hnone'
    have hsa : (a₀.after fetch β).state = .running := after_running fetch a₀ rfl hnone
    refine ⟨fun i hi => fetch_ne_ret fetch (hpa i) (hnone i hi), ?_⟩
    rw [hrb, ← he, hra, after_eq_running fetch hb hab rfl hnone']
    refine Prod.ext ?_ rfl
    show _ = (a₀.after fetch β).withRun .returnToZero (a₀.after fetch β).state
    rw [hsa]

theorem halt_policies_lockstep_call :
    let fetch : UInt16 → UInt32 := fun a =>
      [Encode.jType Reg.ra 8, Encode.jType Reg.zero 8, Encode.retWord,
        Encode.iType Encode.opImm Reg.ra 0 Reg.zero 0, Encode.retWord].getD a.toNat 0
    (({ Core.init with policy := .onReturn } : Core).run 0 fetch).2 = .ok 2 ∧
      ∀ n, (({ Core.init with policy := .returnToZero } : Core).run 0 fetch).2 = .ok n → 2 ≤ n := by
  intro fetch
  have hm : (({ Core.init with policy := .onReturn } : Core).run 0 fetch).2 = .ok 2 := by decide
  exact ⟨hm, ((halt_policies_lockstep fetch Core.init 0).2.1 2 hm).2.2.2.2.1⟩

example : (((Core.init).run 0 fun a =>
    [Encode.jType Reg.ra 8, Encode.jType Reg.zero 8, Encode.retWord,
      Encode.iType Encode.opImm Reg.ra 0 Reg.zero 0, Encode.retWord].getD a.toNat 0).2 = .ok 5) := by
  decide

end Core

end RiscvCore
