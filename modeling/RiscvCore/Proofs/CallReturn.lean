import Mathlib
import RiscvCore.Proofs.Reference

namespace RiscvCore

theorem linkOf_toNat (pc : UInt16) : (linkOf pc).toNat = 4 * (pc.toNat + 1) := by
  have hpc := pc.toNat_lt
  have h := congrArg UInt32.toNat (Reference.linkOf_eq pc)
  rw [h, Reference.returnAddress, UInt32.toNat_ofNat']
  exact Nat.mod_eq_of_lt (by omega)

theorem execute_call_link (w : UInt32) (rf : RegFile) (pc : UInt16)
    (h : (decode w).opcode = .jal ∨ (decode w).opcode = .jalr) :
    (execute (decode w) rf pc).writeBack = some ((decode w).rd, linkOf pc) := by
  have hfmt : (decode w).format.writesRd = true := by
    rw [decode_format]
    rcases h with h | h <;> rw [h] <;> rfl
  rcases h with h | h
  · rw [execute_jal rf pc h, Decoded.outcomeOf, if_pos hfmt]
  · rw [execute_jalr rf pc h, Decoded.outcomeOf, if_pos hfmt]

theorem execute_jalr_link {d : Decoded} (rf : RegFile) (pc pc' : UInt16) (h : d.opcode = .jalr)
    (hl : rf.read d.rs1 = linkOf pc) :
    ((execute d rf pc').nextPc.toNat : Int) = (pc.toNat + 1 + d.imm.toInt / 4) % 2 ^ 16 := by
  have hpc := pc.toNat_lt
  rw [execute_jalr rf pc' h, hl, Reference.Int32.toUInt32_eq_ofInt, Reference.jalr_target_eq,
    linkOf_toNat]
  simp only [Decoded.outcomeOf, UInt16.toNat_ofNat']
  omega

theorem execute_fallthrough {d : Decoded} (rf : RegFile) (pc : UInt16)
    (h : d.opcode ∉ [.branch, .jal, .jalr]) : (execute d rf pc).nextPc = pc + 1 := by
  simp only [List.mem_cons, List.not_mem_nil, or_false, not_or] at h
  obtain ⟨hb, hj, hjr⟩ := h
  by_cases hi : d.opcode = .opImm
  · rw [execute_opImm rf pc hi]; rfl
  by_cases ho : d.opcode = .op
  · rw [execute_op rf pc ho]; rfl
  by_cases hl : d.opcode = .lui
  · rw [execute_lui rf pc hl]; rfl
  by_cases ha : d.opcode = .auipc
  · rw [execute_auipc rf pc ha]; rfl
  rw [execute_other rf pc (by simp [hi, ho, hb, hj, hjr, hl, ha])]
  rfl

/-- Calls and returns agree at every word address `pc`: a JAL or JALR there writes the link
`4 * (pc + 1)`, a JALR anywhere through that link goes to `pc + 1 + imm / 4` (rounded down,
wrapping at `2^16`) for every immediate, 12-bit or not, and with immediate 0 to `pc + 1`, the
next pc of every instruction at `pc` that is not a branch or a jump. -/
theorem call_return_agree (pc : UInt16) :
    (∀ (w : UInt32) (rf : RegFile), (decode w).opcode = .jal ∨ (decode w).opcode = .jalr →
      (execute (decode w) rf pc).writeBack = some ((decode w).rd, linkOf pc)) ∧
    (linkOf pc).toNat = 4 * (pc.toNat + 1) ∧
    (∀ (d : Decoded) (rf : RegFile) (pc' : UInt16), d.opcode = .jalr → rf.read d.rs1 = linkOf pc →
      ((execute d rf pc').nextPc.toNat : Int) = (pc.toNat + 1 + d.imm.toInt / 4) % 2 ^ 16) ∧
    (∀ (d : Decoded) (rf : RegFile) (pc' : UInt16), d.opcode = .jalr → d.imm = 0 →
      rf.read d.rs1 = linkOf pc → (execute d rf pc').nextPc = pc + 1) ∧
    (∀ (d : Decoded) (rf : RegFile), d.opcode ∉ [.branch, .jal, .jalr] →
      (execute d rf pc).nextPc = pc + 1) := by
  refine ⟨fun w rf h => execute_call_link w rf pc h, linkOf_toNat pc,
    fun d rf pc' h hl => execute_jalr_link rf pc pc' h hl, ?_,
    fun d rf h => execute_fallthrough rf pc h⟩
  intro d rf pc' h h0 hl
  have hi : d.imm.toInt = 0 := by rw [h0]; rfl
  have ht := execute_jalr_link rf pc pc' h hl
  rw [hi] at ht
  apply UInt16.toNat_inj.mp
  simp only [UInt16.toNat_add, UInt16.toNat_one]
  omega

theorem call_return_agree_top :
    (execute (decode 0xef) RegFile.empty 65535).writeBack = some (Reg.ra, linkOf 65535) ∧
    (linkOf 65535).toNat = 2 ^ 18 ∧
    (execute (decode 0xff808067) (RegFile.empty.write Reg.ra (linkOf 65535)) 7).nextPc = 65534 ∧
    (execute (decode Encode.retWord) (RegFile.empty.write Reg.ra (linkOf 65535)) 7).nextPc = 0 ∧
    (execute (decode 0x13) RegFile.empty 65535).nextPc = 0 := by
  obtain ⟨hcall, hlink, hjalr, hret, hfall⟩ := call_return_agree 65535
  have hback := hjalr (decode 0xff808067) (RegFile.empty.write Reg.ra (linkOf 65535)) 7
    (by decide) (by decide)
  have himm : (decode 0xff808067).imm.toInt = -8 := by decide
  rw [himm] at hback
  refine ⟨hcall 0xef RegFile.empty (.inl (by decide)), hlink, ?_,
    hret (decode Encode.retWord) _ 7 (by decide) (by decide) (by decide),
    hfall (decode 0x13) RegFile.empty (by decide)⟩
  have hpc : (65535 : UInt16).toNat = 65535 := rfl
  have ht : (65534 : UInt16).toNat = 65534 := rfl
  rw [hpc] at hback
  apply UInt16.toNat_inj.mp
  omega

end RiscvCore
