import Mathlib
import RiscvCore.Proofs.Encoding
import RiscvCore.Proofs.Reference

namespace RiscvCore

def ImmOp.toAluOp : ImmOp → AluOp
  | .addi => .add
  | .slti => .slt
  | .sltiu => .sltu
  | .xori => .xor
  | .ori => .or
  | .andi => .and

def ShiftOp.toAluOp : ShiftOp → AluOp
  | .slli => .sll
  | .srli => .srl
  | .srai => .sra

namespace Assembly

/-- An I or S immediate as its word keeps it: the low 12 bits, sign-extended. -/
def immI12 (imm : Int) : Int := (imm % 2 ^ 12).bmod (2 ^ 12)

/-- A branch offset as its word keeps it: bits 12:1, sign-extended from 13 bits. -/
def offB (off : Int) : Int := (off % 2 ^ 13 / 2 * 2).bmod (2 ^ 13)

/-- A jump offset as its word keeps it: bits 20:1, sign-extended from 21 bits. -/
def offJ (off : Int) : Int := (off % 2 ^ 21 / 2 * 2).bmod (2 ^ 21)

/-- An upper immediate as its word keeps it: the low 20 bits. -/
def immU20 (imm : Int) : Nat := (imm % 2 ^ 20).toNat

/-- A supported outcome: the value goes to the destination, if there is one. -/
def effect (dest : Option Reg) (v : UInt32) (taken : Bool) (next : UInt16) : Outcome :=
  { result := v
    branchTaken := taken
    nextPc := next
    writeBack := dest.map (·, v)
    unsupported := false }

open Reference in
/-- What an instruction does at word address `pc` over the registers `rf`. Loads give 0,
stores write nothing, and a raw data word means nothing of its own. -/
def meaning (rf : RegFile) (pc : UInt16) : Inst → Option Outcome
  | .alu f rd rs1 rs2 => some (effect rd (f.eval (rf.read rs1) (rf.read rs2)) false (pc + 1))
  | .aluImm f rd rs1 imm =>
    some (effect rd (f.toAluOp.eval (rf.read rs1) (.ofInt (immI12 imm))) false (pc + 1))
  | .shift f rd rs1 shamt =>
    some (effect rd (f.toAluOp.eval (rf.read rs1) (.ofNat (shamt % 32))) false (pc + 1))
  | .load _ rd _ _ => some (effect rd 0 false (pc + 1))
  | .store .. => some (effect none 0 false (pc + 1))
  | .branch f rs1 rs2 off =>
    let taken := f.holds (rf.read rs1) (rf.read rs2)
    some (effect none 0 taken (if taken then jump pc (offB off) else pc + 1))
  | .jal rd off => some (effect rd (returnAddress pc) false (jump pc (offJ off)))
  | .jalr rd rs1 imm =>
    some (effect rd (returnAddress pc) false
      (.ofNat ((((rf.read rs1).toNat + immI12 imm) % 2 ^ 32).toNat / 2 * 2 / 4)))
  | .lui rd imm => some (effect rd (.ofNat (immU20 imm * 2 ^ 12)) false (pc + 1))
  | .auipc rd imm => some (effect rd (.ofNat (4 * pc.toNat + immU20 imm * 2 ^ 12)) false (pc + 1))
  | .fence | .ecall | .ebreak => some (effect none 0 false (pc + 1))
  | .word _ => none

theorem outcomeOf_eq_effect {d : Decoded} {dest : Option Reg}
    (h : (if d.format.writesRd then some d.rd else none) = dest) (v : UInt32) (taken : Bool)
    (next : UInt16) : d.outcomeOf v taken next false = effect dest v taken next := by
  subst h
  unfold Decoded.outcomeOf effect
  cases d.format.writesRd <;> rfl

theorem dest_of_writesRd {d : Decoded} {f : InstFormat} (hf : d.format = f)
    (hw : f.writesRd = true) {rd : Reg} (hrd : d.rd = rd) :
    (if d.format.writesRd then some d.rd else none) = some rd := by
  rw [hf, if_pos hw, hrd]

theorem dest_of_not_writesRd {d : Decoded} {f : InstFormat} (hf : d.format = f)
    (hw : f.writesRd = false) : (if d.format.writesRd then some d.rd else none) = none := by
  rw [hf, hw]
  rfl

open Reference

theorem opOp_funct (f : AluOp) : opOp (field f.funct3 0 3) (field f.funct7 0 7) = some f := by
  cases f <;> rfl

theorem opImmOp_funct (f : ImmOp) (f7 : Nat) :
    opImmOp (field f.funct3 0 3) f7 = some f.toAluOp := by
  cases f <;> rfl

theorem branchCond_funct (f : BranchOp) : branchCond (field f.funct3 0 3) = some f := by
  cases f <;> rfl

theorem shift_imm_toNat (f : ShiftOp) (n : Nat) :
    (f.upper ||| (n % 32).toUInt32).toNat = f.upper.toNat + n % 32 := by
  have hn : n % 32 < 2 ^ 10 := by omega
  have ht : ((n % 32).toUInt32).toNat = n % 32 := by
    simp only [Nat.toUInt32_eq, UInt32.toNat_ofNat']
    omega
  cases f <;> simp only [ShiftOp.upper, UInt32.toNat_or, ht, UInt32.reduceToNat]
  · simp
  · simp
  · rw [show (1024 : Nat) = 1 <<< 10 from rfl, shiftLeft_or_eq_add hn]

theorem opImmOp_shift (f : ShiftOp) (n : Nat) :
    opImmOp (field f.funct3 0 3) (field (f.upper ||| (n % 32).toUInt32) 5 7) = some f.toAluOp := by
  have h7 : field (f.upper ||| (n % 32).toUInt32) 5 7 = f.upper.toNat / 32 := by
    have := Nat.mod_lt n (by decide : 0 < 32)
    rw [field, shift_imm_toNat]
    cases f <;> simp only [ShiftOp.upper, UInt32.reduceToNat] <;> omega
  rw [h7]
  cases f <;> rfl

theorem eval_shift_congr (f : ShiftOp) (a : UInt32) {b c : UInt32}
    (h : b.toNat % 32 = c.toNat % 32) : f.toAluOp.eval a b = f.toAluOp.eval a c := by
  cases f <;> simp only [ShiftOp.toAluOp, AluOp.eval, h]

theorem bmod_eq_of_emod_eq {x y : Int} {n : Nat} (h : x % n = y % n) : x.bmod n = y.bmod n := by
  rw [← Int.emod_bmod, h, Int.emod_bmod]

theorem toInt_signExtend_ofInt (z : Int) {k : Nat} (hk₁ : 1 ≤ k) (hk : k ≤ 32) :
    (signExtend (UInt32.ofInt z) k).toInt = (z % 2 ^ k).bmod (2 ^ k) := by
  have hd : ((2 ^ k : Nat) : Int) ∣ 2 ^ 32 := by
    exact_mod_cast Nat.pow_dvd_pow 2 hk
  rw [toInt_signExtend _ hk₁ hk, UInt32.toNat_ofInt_cast]
  apply bmod_eq_of_emod_eq
  rw [Int.emod_emod_of_dvd _ hd]
  push_cast
  rw [Int.emod_emod]

theorem immI12_toUInt32 (imm : Int) :
    (signExtend (UInt32.ofInt imm) 12).toUInt32 = .ofInt (immI12 imm) := by
  rw [Int32.toUInt32_eq_ofInt, toInt_signExtend_ofInt _ (by decide) (by decide), immI12]

theorem double_signExtend_half (off : Int) {k : Nat} (hk₁ : 1 ≤ k) (hk : k < 32) :
    (2 : Int) * (signExtend (UInt32.ofInt off >>> 1) k).toInt =
      (off % 2 ^ (k + 1) / 2 * 2).bmod (2 ^ (k + 1)) := by
  set N := (UInt32.ofInt off).toNat with hN
  have hlow : off % 2 ^ (k + 1) = ((N % 2 ^ (k + 1) : Nat) : Int) := by
    have hd : (2 : Int) ^ (k + 1) ∣ 2 ^ 32 := pow_dvd_pow 2 (by omega)
    push_cast
    rw [hN, UInt32.toNat_ofInt_cast, Int.emod_emod_of_dvd _ hd]
  have hsh : (UInt32.ofInt off >>> 1).toNat = N / 2 := by
    simp [hN, Nat.shiftRight_eq_div_pow]
  have hhalf : N / 2 % 2 ^ k = N % 2 ^ (k + 1) / 2 % 2 ^ k := by
    have hlt : N % 2 ^ (k + 1) / 2 < 2 ^ k := by
      have := Nat.mod_lt N (Nat.two_pow_pos (k + 1))
      rw [Nat.pow_succ] at this ⊢
      omega
    calc N / 2 % 2 ^ k = N % (2 * 2 ^ k) / 2 := (Nat.mod_mul_right_div_self N 2 (2 ^ k)).symm
      _ = N % 2 ^ (k + 1) / 2 := by rw [Nat.pow_succ, Nat.mul_comm]
      _ = N % 2 ^ (k + 1) / 2 % 2 ^ k := (Nat.mod_eq_of_lt hlt).symm
  rw [toInt_signExtend _ hk₁ (by omega), hsh, mul_comm _ (2 : Int), bmod_two_mul, hlow]
  congr 1
  apply bmod_eq_of_emod_eq
  exact_mod_cast hhalf

theorem upperOf_ofInt (imm : Int) :
    upperOf (signExtend (UInt32.ofInt imm) 20) = .ofNat (immU20 imm * 2 ^ 12) := by
  have hc := UInt32.toNat_ofInt_cast imm
  rw [upperOf_signExtend, immU20]
  congr 2
  omega

theorem shift_amount (f : ShiftOp) (n : Nat) :
    (signExtend (f.upper ||| (n % 32).toUInt32) 12).toUInt32.toNat % 32 = n % 32 := by
  have h := signExtend_toUInt32_mod (f.upper ||| (n % 32).toUInt32) (k := 12) (by decide)
  rw [shift_imm_toNat] at h
  cases f <;> simp only [ShiftOp.upper, UInt32.reduceToNat] at h ⊢ <;> omega

theorem meaning_encode (i : Inst) (hi : ∀ w, i ≠ .word w) (rf : RegFile) (pc : UInt16) :
    meaning rf pc i = some (execute (decode i.encode) rf pc) := by
  cases i with
  | alu f rd rs1 rs2 =>
    obtain ⟨ho, hf, hrd, hrs1, hrs2, h3, h7, -⟩ := decode_rType rd rs1 rs2 f.funct3 f.funct7
    simp only [Inst.encode]
    rw [execute_op rf pc ho]
    dsimp only
    rw [h3, h7, hrs1, hrs2, aluResult_op, opOp_funct, Option.map_some, Option.getD_some,
      Option.isNone_some, outcomeOf_eq_effect (dest_of_writesRd hf rfl hrd)]
    rfl
  | aluImm f rd rs1 imm =>
    obtain ⟨ho, hf, hrd, hrs1, h3, -, himm⟩ :=
      decode_iType rd rs1 (rfl : field Encode.opImm 0 7 = Opcode.opImm.bits * 4 + 3)
        (show Opcode.opImm.format = .i from rfl) f.funct3 (UInt32.ofInt imm)
    simp only [Inst.encode]
    rw [execute_opImm rf pc ho]
    dsimp only
    rw [h3, hrs1, himm, immI12_toUInt32, aluResult_opImm, opImmOp_funct, Option.map_some,
      Option.getD_some, Option.isNone_some, outcomeOf_eq_effect (dest_of_writesRd hf rfl hrd)]
    rfl
  | shift f rd rs1 shamt =>
    obtain ⟨ho, hf, hrd, hrs1, h3, h7, himm⟩ :=
      decode_iType rd rs1 (rfl : field Encode.opImm 0 7 = Opcode.opImm.bits * 4 + 3)
        (show Opcode.opImm.format = .i from rfl) f.funct3 (f.upper ||| (shamt % 32).toUInt32)
    simp only [Inst.encode]
    rw [execute_opImm rf pc ho]
    dsimp only
    rw [h3, h7, hrs1, himm, aluResult_opImm, opImmOp_shift, Option.map_some, Option.getD_some,
      Option.isNone_some, outcomeOf_eq_effect (dest_of_writesRd hf rfl hrd),
      eval_shift_congr f _ (c := .ofNat (shamt % 32)) (by simp [shift_amount])]
    rfl
  | load f rd rs1 imm =>
    obtain ⟨ho, hf, hrd, -⟩ :=
      decode_iType rd rs1 (rfl : field Encode.opLoad 0 7 = Opcode.load.bits * 4 + 3)
        (show Opcode.load.format = .i from rfl) f.funct3 (UInt32.ofInt imm)
    simp only [Inst.encode]
    rw [execute_other rf pc (by simp [ho]), outcomeOf_eq_effect (dest_of_writesRd hf rfl hrd)]
    rfl
  | store f rs1 rs2 imm =>
    obtain ⟨ho, hf, -⟩ := decode_sType rs1 rs2 f.funct3 (UInt32.ofInt imm)
    simp only [Inst.encode]
    rw [execute_other rf pc (by simp [ho]), outcomeOf_eq_effect (dest_of_not_writesRd hf rfl)]
    rfl
  | branch f rs1 rs2 off =>
    obtain ⟨ho, hf, hrs1, hrs2, h3, himm⟩ := decode_bType rs1 rs2 f.funct3 (UInt32.ofInt off)
    simp only [Inst.encode]
    rw [execute_branch rf pc ho]
    dsimp only
    rw [h3, hrs1, hrs2, himm, branchTaken?_eq, branchCond_funct, Option.map_some,
      Option.getD_some, Option.isNone_some, relativePc_eq_jump,
      double_signExtend_half off (k := 12) (by decide) (by decide),
      outcomeOf_eq_effect (dest_of_not_writesRd hf rfl)]
    cases h : f.holds (rf.read rs1) (rf.read rs2) <;> simp [meaning, h, offB]
  | jal rd off =>
    obtain ⟨ho, hf, hrd, himm⟩ := decode_jType rd (UInt32.ofInt off)
    simp only [Inst.encode]
    rw [execute_jal rf pc ho, himm, linkOf_eq, relativePc_eq_jump,
      double_signExtend_half off (k := 20) (by decide) (by decide),
      outcomeOf_eq_effect (dest_of_writesRd hf rfl hrd)]
    rfl
  | jalr rd rs1 imm =>
    obtain ⟨ho, hf, hrd, hrs1, -, -, himm⟩ :=
      decode_iType rd rs1 (rfl : field Encode.opJalr 0 7 = Opcode.jalr.bits * 4 + 3)
        (show Opcode.jalr.format = .i from rfl) 0 (UInt32.ofInt imm)
    simp only [Inst.encode]
    rw [execute_jalr rf pc ho, hrs1, himm, immI12_toUInt32, jalr_target_eq, linkOf_eq,
      outcomeOf_eq_effect (dest_of_writesRd hf rfl hrd)]
    rfl
  | lui rd imm =>
    obtain ⟨ho, hf, hrd, himm⟩ :=
      decode_uType rd (rfl : field Encode.opLui 0 7 = Opcode.lui.bits * 4 + 3)
        (show Opcode.lui.format = .u from rfl) (UInt32.ofInt imm)
    simp only [Inst.encode]
    rw [execute_lui rf pc ho, himm, upperOf_ofInt,
      outcomeOf_eq_effect (dest_of_writesRd hf rfl hrd)]
    rfl
  | auipc rd imm =>
    obtain ⟨ho, hf, hrd, himm⟩ :=
      decode_uType rd (rfl : field Encode.opAuipc 0 7 = Opcode.auipc.bits * 4 + 3)
        (show Opcode.auipc.format = .u from rfl) (UInt32.ofInt imm)
    simp only [Inst.encode]
    rw [execute_auipc rf pc ho, himm, upperOf_ofInt, auipc_eq,
      outcomeOf_eq_effect (dest_of_writesRd hf rfl hrd)]
    rfl
  | fence | ecall | ebreak =>
    rw [execute_other rf pc (by decide), outcomeOf_eq_effect (show _ = none by decide)]
    rfl
  | word w => exact absurd rfl (hi w)

theorem meaning_supported {rf : RegFile} {pc : UInt16} {i : Inst} {o : Outcome}
    (h : meaning rf pc i = some o) : o.unsupported = false := by
  cases i <;> simp only [meaning, Option.some.injEq, reduceCtorEq] at h <;> rw [← h] <;> rfl

theorem immI12_of_range {imm : Int} (lo : -2048 ≤ imm) (hi : imm ≤ 2047) :
    immI12 imm = imm := by
  rw [immI12, Int.bmod_def]
  split <;> omega

theorem offB_of_range {off : Int} (lo : -4096 ≤ off) (hi : off ≤ 4094) (even : off % 2 = 0) :
    offB off = off := by
  rw [offB, Int.bmod_def]
  split <;> omega

theorem offJ_of_range {off : Int} (lo : -2 ^ 20 ≤ off) (hi : off ≤ 2 ^ 20 - 2)
    (even : off % 2 = 0) :
    offJ off = off := by
  rw [offJ, Int.bmod_def]
  split <;> omega

/-- Every instruction other than a raw data word, encoded, decoded and executed at any word
address over any registers, is supported and does what its mnemonic means, with its immediates
as its word keeps them; within the assembler's ranges the signed immediates and offsets are kept
whole. -/
theorem execute_encode_eq_meaning :
    (∀ (i : Inst) (rf : RegFile) (pc : UInt16), (∀ w, i ≠ .word w) →
      (execute (decode i.encode) rf pc).unsupported = false ∧
        meaning rf pc i = some (execute (decode i.encode) rf pc)) ∧
    (∀ imm : Int, -2048 ≤ imm → imm ≤ 2047 → immI12 imm = imm) ∧
    (∀ off : Int, -4096 ≤ off → off ≤ 4094 → off % 2 = 0 → offB off = off) ∧
    (∀ off : Int, -2 ^ 20 ≤ off → off ≤ 2 ^ 20 - 2 → off % 2 = 0 → offJ off = off) := by
  refine ⟨fun i rf pc hi => ?_, fun _ => immI12_of_range, fun _ => offB_of_range,
    fun _ => offJ_of_range⟩
  have h := meaning_encode i hi rf pc
  exact ⟨meaning_supported h, h⟩

theorem execute_encode_eq_meaning_sub_branch :
    (∀ w, Inst.alu .sub .ra .s0 .zero ≠ .word w) ∧
      meaning .empty 7 (.alu .sub .ra .s0 .zero) =
        some (execute (decode (Inst.alu .sub .ra .s0 .zero).encode) .empty 7) ∧
    (∀ w, Inst.branch .beq .zero .zero (-4096) ≠ .word w) ∧
      meaning .empty 2000 (.branch .beq .zero .zero (-4096)) =
        some (execute (decode (Inst.branch .beq .zero .zero (-4096)).encode) .empty 2000) :=
  ⟨fun _ => by simp, (execute_encode_eq_meaning.1 _ _ _ fun _ => by simp).2,
    fun _ => by simp, (execute_encode_eq_meaning.1 _ _ _ fun _ => by simp).2⟩

example : meaning .empty 2000 (.branch .beq .zero .zero (-4096)) =
    some (effect none 0 true 976) := by decide

end Assembly

end RiscvCore
