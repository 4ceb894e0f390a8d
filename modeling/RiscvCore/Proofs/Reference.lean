import Mathlib
import RiscvCore.Execute
import RiscvCore.Inst
import RiscvCore.Proofs.Fields

namespace RiscvCore

namespace Reference

def signed (a : UInt32) : Int := (a.toNat : Int).bmod (2 ^ 32)

end Reference

open Reference in
/-- An operation on two words as numbers; a shift reads the low five bits of its second operand. -/
def AluOp.eval : AluOp → UInt32 → UInt32 → UInt32
  | .add, a, b => .ofNat (a.toNat + b.toNat)
  | .sub, a, b => .ofInt ((a.toNat : Int) - b.toNat)
  | .sll, a, b => .ofNat (a.toNat * 2 ^ (b.toNat % 32))
  | .slt, a, b => if signed a < signed b then 1 else 0
  | .sltu, a, b => if a.toNat < b.toNat then 1 else 0
  | .xor, a, b => .ofNat (a.toNat ^^^ b.toNat)
  | .srl, a, b => .ofNat (a.toNat / 2 ^ (b.toNat % 32))
  | .sra, a, b => .ofInt (signed a / 2 ^ (b.toNat % 32))
  | .or, a, b => .ofNat (a.toNat ||| b.toNat)
  | .and, a, b => .ofNat (a.toNat &&& b.toNat)

open Reference in
def BranchOp.holds : BranchOp → UInt32 → UInt32 → Bool
  | .beq, a, b => a.toNat == b.toNat
  | .bne, a, b => a.toNat != b.toNat
  | .blt, a, b => decide (signed a < signed b)
  | .bge, a, b => decide (signed b ≤ signed a)
  | .bltu, a, b => decide (a.toNat < b.toNat)
  | .bgeu, a, b => decide (b.toNat ≤ a.toNat)

namespace Reference

/-- OP_IMM by funct3: funct7 counts only for the shifts, where it is the top of the immediate. -/
def opImmOp : Nat → Nat → Option AluOp
  | 0, _ => some .add
  | 1, 0 => some .sll
  | 2, _ => some .slt
  | 3, _ => some .sltu
  | 4, _ => some .xor
  | 5, 0 => some .srl
  | 5, 0x20 => some .sra
  | 6, _ => some .or
  | 7, _ => some .and
  | _, _ => none

def opOp : Nat → Nat → Option AluOp
  | 0, 0 => some .add
  | 0, 0x20 => some .sub
  | 1, 0 => some .sll
  | 2, 0 => some .slt
  | 3, 0 => some .sltu
  | 4, 0 => some .xor
  | 5, 0 => some .srl
  | 5, 0x20 => some .sra
  | 6, 0 => some .or
  | 7, 0 => some .and
  | _, _ => none

def branchCond : Nat → Option BranchOp
  | 0 => some .beq
  | 1 => some .bne
  | 4 => some .blt
  | 5 => some .bge
  | 6 => some .bltu
  | 7 => some .bgeu
  | _ => none

/-- The register named by the five bits of `w` from bit `lo`. -/
def regAt (w : UInt32) (lo : Nat) : Reg := ⟨⟨field w lo 5, field_lt w lo 5⟩⟩

/-- Bits 31:20, sign-extended. -/
def immI (w : UInt32) : Int := (field w 20 12 : Int).bmod (2 ^ 12)

/-- Bits 31, 7, 30:25 and 11:8 above a zero bit, sign-extended from 13 bits. -/
def immB (w : UInt32) : Int :=
  ((field w 31 1 * 2 ^ 12 + field w 7 1 * 2 ^ 11 + field w 25 6 * 2 ^ 5 + field w 8 4 * 2 : Nat) :
    Int).bmod (2 ^ 13)

/-- Bits 31:12 above twelve zero bits. -/
def immU (w : UInt32) : Nat := field w 12 20 * 2 ^ 12

/-- Bits 31, 19:12, 20 and 30:21 above a zero bit, sign-extended from 21 bits. -/
def immJ (w : UInt32) : Int :=
  ((field w 31 1 * 2 ^ 20 + field w 12 8 * 2 ^ 12 + field w 20 1 * 2 ^ 11 + field w 21 10 * 2 :
    Nat) : Int).bmod (2 ^ 21)

/-- The word address `pc` moved by a byte offset, rounded down to a word, wrapping at `2^16`. -/
def jump (pc : UInt16) (off : Int) : UInt16 := .ofInt (pc.toNat + off / 4)

/-- The byte address of the word after `pc`. -/
def returnAddress (pc : UInt16) : UInt32 := .ofNat (4 * (pc.toNat + 1))

/-- The major opcodes whose format has a destination: LOAD, OP_IMM, AUIPC, OP, LUI, JALR, JAL. -/
def destOpcodes : List Nat := [0x00, 0x04, 0x05, 0x0c, 0x0d, 0x19, 0x1b]

/-- What the word `w` does at word address `pc` over the registers `rf`. A funct3/funct7 pair
with no meaning is unsupported, gives 0 and takes no branch; loads give 0. -/
def outcome (w : UInt32) (rf : RegFile) (pc : UInt16) : Outcome :=
  let a := rf.read (regAt w 15)
  let b := rf.read (regAt w 20)
  let f3 := field w 12 3
  let f7 := field w 25 7
  let next : UInt16 := .ofNat (pc.toNat + 1)
  let (result, taken, target, unsupported) : UInt32 × Bool × UInt16 × Bool :=
    match field w 2 5 with
    | 0x04 =>
      match opImmOp f3 f7 with
      | some op => (op.eval a (.ofInt (immI w)), false, next, false)
      | none => (0, false, next, true)
    | 0x0c =>
      match opOp f3 f7 with
      | some op => (op.eval a b, false, next, false)
      | none => (0, false, next, true)
    | 0x18 =>
      match branchCond f3 with
      | some c => if c.holds a b then (0, true, jump pc (immB w), false) else (0, false, next, false)
      | none => (0, false, next, true)
    | 0x1b => (returnAddress pc, false, jump pc (immJ w), false)
    | 0x19 => (returnAddress pc, false,
        .ofNat (((a.toNat + immI w) % 2 ^ 32).toNat / 2 * 2 / 4), false)
    | 0x0d => (.ofNat (immU w), false, next, false)
    | 0x05 => (.ofNat (4 * pc.toNat + immU w), false, next, false)
    | _ => (0, false, next, false)
  { result
    branchTaken := taken
    nextPc := target
    writeBack := if field w 2 5 ∈ destOpcodes then some (regAt w 7, result) else none
    unsupported }

theorem signed_eq_toInt (a : UInt32) : signed a = a.toInt32.toInt := by
  show _ = a.toBitVec.toInt
  rw [BitVec.toInt_eq_toNat_bmod]
  rfl

theorem sltWord_eq (a b : UInt32) : sltWord a b = decide (signed a < signed b) := by
  rw [sltWord, signed_eq_toInt, signed_eq_toInt]
  exact decide_eq_decide.mpr Int32.lt_iff_toInt_lt

theorem Int32.toUInt32_eq_ofInt (x : Int32) : x.toUInt32 = .ofInt x.toInt := by
  apply UInt32.toNat_inj.mp
  have h1 := Int32.toNat_toUInt32 x
  have h2 := UInt32.toNat_ofInt_cast x.toInt
  omega

theorem Int32.toInt_shiftRight (x : Int32) {n : Nat} (hn : n < 32) :
    (x >>> n.toInt32).toInt = x.toInt / 2 ^ n := by
  have hs : ∀ m < 32, ((Nat.toInt32 m).toBitVec.smod 32).toNat = m := by decide
  show (x.toBitVec.sshiftRight' ((Nat.toInt32 n).toBitVec.smod 32)).toInt = _
  rw [BitVec.toInt_sshiftRight', Int.shiftRight_eq_div_pow, hs n hn]
  rfl

theorem and_31 (n : Nat) : n &&& 31 = n % 32 := Nat.and_two_pow_sub_one_eq_mod n 5

end Reference

namespace AluOp
open Reference
variable (a b : UInt32)

@[simp] theorem eval_add : add.eval a b = a + b := by
  apply UInt32.toNat_inj.mp
  simp [eval]

@[simp] theorem eval_sub : sub.eval a b = a - b := by
  apply UInt32.toNat_inj.mp
  have h := UInt32.toNat_ofInt_cast ((a.toNat : Int) - b.toNat)
  have := a.toNat_lt; have := b.toNat_lt
  rw [eval, UInt32.toNat_sub]
  omega

@[simp] theorem eval_sll : sll.eval a b = a <<< (b &&& 31) := by
  apply UInt32.toNat_inj.mp
  simp [eval, and_31, Nat.shiftLeft_eq]

@[simp] theorem eval_srl : srl.eval a b = a >>> (b &&& 31) := by
  apply UInt32.toNat_inj.mp
  have h : a.toNat / 2 ^ (b.toNat % 32) < 2 ^ 32 :=
    Nat.lt_of_le_of_lt (Nat.div_le_self _ _) a.toNat_lt
  simp only [eval, UInt32.toNat_ofNat', Nat.mod_eq_of_lt h, UInt32.toNat_shiftRight,
    UInt32.toNat_and, UInt32.reduceToNat, and_31, Nat.mod_mod, Nat.shiftRight_eq_div_pow]

@[simp] theorem eval_slt : slt.eval a b = if sltWord a b then 1 else 0 := by
  simp [eval, sltWord_eq]

@[simp] theorem eval_sltu : sltu.eval a b = if a < b then 1 else 0 := by
  simp [eval, UInt32.lt_iff_toNat_lt]

@[simp] theorem eval_sra : sra.eval a b = sraWord a (b &&& 31).toNat := by
  have hs : (b &&& 31).toNat = b.toNat % 32 := by simp [and_31]
  rw [eval, sraWord, Int32.toUInt32_eq_ofInt, hs,
    Int32.toInt_shiftRight _ (Nat.mod_lt _ (by decide)), signed_eq_toInt]

@[simp] theorem eval_xor : xor.eval a b = a ^^^ b := by
  rw [eval, ← UInt32.toNat_xor, UInt32.ofNat_toNat]

@[simp] theorem eval_or : or.eval a b = a ||| b := by
  rw [eval, ← UInt32.toNat_or, UInt32.ofNat_toNat]

@[simp] theorem eval_and : and.eval a b = a &&& b := by
  rw [eval, ← UInt32.toNat_and, UInt32.ofNat_toNat]

end AluOp

namespace Reference

theorem aluResult_opImm (f3 f7 : Nat) (a b : UInt32) :
    aluResult true f3 f7 a b = (opImmOp f3 f7).map (·.eval a b) := by
  rcases Nat.lt_or_ge f3 8 with h | h
  · interval_cases f3 <;> by_cases h0 : f7 = 0 <;> by_cases h1 : f7 = 0x20 <;>
      simp [aluResult, opImmOp, h0, h1]
  · obtain ⟨n, rfl⟩ : ∃ n, f3 = n + 8 := ⟨f3 - 8, by omega⟩
    simp [aluResult, opImmOp]

theorem aluResult_op (f3 f7 : Nat) (a b : UInt32) :
    aluResult false f3 f7 a b = (opOp f3 f7).map (·.eval a b) := by
  rcases Nat.lt_or_ge f3 8 with h | h
  · interval_cases f3 <;> by_cases h0 : f7 = 0 <;> by_cases h1 : f7 = 0x20 <;>
      simp [aluResult, opOp, h0, h1]
  · obtain ⟨n, rfl⟩ : ∃ n, f3 = n + 8 := ⟨f3 - 8, by omega⟩
    simp [aluResult, opOp]

theorem branchTaken?_eq (f3 : Nat) (a b : UInt32) :
    branchTaken? f3 a b = (branchCond f3).map (·.holds a b) := by
  rcases Nat.lt_or_ge f3 8 with h | h
  · interval_cases f3 <;>
      simp [branchTaken?, branchCond, BranchOp.holds, sltWord_eq, UInt32.lt_iff_toNat_lt,
        UInt32.toNat_inj, bne, ← decide_not]
  · obtain ⟨n, rfl⟩ : ∃ n, f3 = n + 8 := ⟨f3 - 8, by omega⟩
    simp [branchTaken?, branchCond]

theorem toInt_signExtend_ofNat {v k : Nat} (hv : v < 2 ^ k) (hk₁ : 1 ≤ k) (hk : k ≤ 32) :
    (signExtend (UInt32.ofNat v) k).toInt = (v : Int).bmod (2 ^ k) := by
  have : 2 ^ k ≤ 2 ^ 32 := Nat.pow_le_pow_right (by decide) hk
  rw [toInt_signExtend _ hk₁ hk, UInt32.toNat_ofNat', Nat.mod_eq_of_lt (by omega)]

theorem bmod_two_mul (v : Int) (k : Nat) : (2 * v).bmod (2 ^ (k + 1)) = 2 * v.bmod (2 ^ k) := by
  have hP : 0 < 2 ^ k := Nat.two_pow_pos k
  have hm : 2 * v % ((2 ^ (k + 1) : Nat) : Int) = 2 * (v % ((2 ^ k : Nat) : Int)) := by
    rw [Nat.pow_succ, Nat.cast_mul, Nat.cast_ofNat, mul_comm ((2 ^ k : Nat) : Int) 2]
    exact Int.mul_emod_mul_of_pos _ _ (by norm_num)
  rw [Int.bmod_def, Int.bmod_def, hm, Nat.pow_succ]
  push_cast
  split_ifs <;> omega

theorem immI_toUInt32 (w : UInt32) : (immediateOf w .i).toUInt32 = .ofInt (immI w) := by
  rw [Int32.toUInt32_eq_ofInt, immediateOf_i,
    toInt_signExtend_ofNat (field_lt w 20 12) (by decide) (by decide)]
  rfl

theorem immB_eq (w : UInt32) : immB w = 2 * (immediateOf w .b).toInt := by
  have := field_lt w 31 1; have := field_lt w 7 1; have := field_lt w 25 6; have := field_lt w 8 4
  have e : field w 31 1 * 2 ^ 12 + field w 7 1 * 2 ^ 11 + field w 25 6 * 2 ^ 5 + field w 8 4 * 2 =
      2 * (field w 31 1 * 2 ^ 11 + field w 7 1 * 2 ^ 10 + field w 25 6 * 2 ^ 4 + field w 8 4) := by
    ring
  unfold immB
  rw [e, Nat.cast_mul, Nat.cast_ofNat, immediateOf_b,
    toInt_signExtend_ofNat (by omega) (by decide) (by decide), ← bmod_two_mul]

theorem immJ_eq (w : UInt32) : immJ w = 2 * (immediateOf w .j).toInt := by
  have := field_lt w 31 1; have := field_lt w 12 8; have := field_lt w 20 1
  have := field_lt w 21 10
  have e : field w 31 1 * 2 ^ 20 + field w 12 8 * 2 ^ 12 + field w 20 1 * 2 ^ 11 +
      field w 21 10 * 2 =
      2 * (field w 31 1 * 2 ^ 19 + field w 12 8 * 2 ^ 11 + field w 20 1 * 2 ^ 10 +
        field w 21 10) := by
    ring
  unfold immJ
  rw [e, Nat.cast_mul, Nat.cast_ofNat, immediateOf_j,
    toInt_signExtend_ofNat (by omega) (by decide) (by decide), ← bmod_two_mul]

theorem relativePc_eq_jump (pc : UInt16) (imm : Int32) :
    relativePc pc imm = jump pc (2 * imm.toInt) := by
  have h := Int32.toNat_toUInt32 (imm >>> 1)
  have h1 : (imm >>> 1).toInt = imm.toInt / 2 := Int32.toInt_shiftRight imm (n := 1) (by decide)
  rw [h1] at h
  apply UInt16.toNat_inj.mp
  simp only [relativePc, jump, UInt16.toNat_add, UInt32.toNat_toUInt16, UInt16.ofInt,
    UInt16.toNat_ofNat']
  omega

theorem upperOf_signExtend (v : UInt32) :
    upperOf (signExtend v 20) = .ofNat (v.toNat % 2 ^ 20 * 2 ^ 12) := by
  have h := signExtend_toUInt32_mod v (k := 20) (by decide)
  apply UInt32.toNat_inj.mp
  simp only [upperOf, UInt32.toNat_shiftLeft, UInt32.reduceToNat, Nat.reduceMod, Nat.shiftLeft_eq,
    UInt32.toNat_ofNat']
  omega

theorem upperOf_eq (w : UInt32) : upperOf (immediateOf w .u) = .ofNat (immU w) := by
  have := field_lt w 12 20
  rw [immediateOf_u, upperOf_signExtend, UInt32.toNat_ofNat',
    Nat.mod_eq_of_lt (by omega : field w 12 20 < 2 ^ 32), Nat.mod_eq_of_lt this, immU]

theorem auipc_eq (pc : UInt16) (n : Nat) :
    (pc.toUInt32 <<< 2) + .ofNat n = .ofNat (4 * pc.toNat + n) := by
  have := pc.toNat_lt
  apply UInt32.toNat_inj.mp
  simp only [UInt32.toNat_add, UInt32.toNat_shiftLeft, UInt16.toNat_toUInt32, UInt32.reduceToNat,
    Nat.reduceMod, Nat.shiftLeft_eq, UInt32.toNat_ofNat']
  omega

theorem linkOf_eq (pc : UInt16) : linkOf pc = returnAddress pc := by
  have := pc.toNat_lt
  apply UInt32.toNat_inj.mp
  simp only [linkOf, returnAddress, UInt32.toNat_shiftLeft, UInt32.toNat_add, UInt16.toNat_toUInt32,
    UInt32.reduceToNat, Nat.reduceMod, Nat.shiftLeft_eq, UInt32.toNat_ofNat']
  omega

theorem fallthrough_eq (pc : UInt16) : pc + 1 = .ofNat (pc.toNat + 1) := by
  apply UInt16.toNat_inj.mp
  simp

theorem jalr_target_eq (a : UInt32) (i : Int) :
    (((a + .ofInt i) &&& ~~~1) >>> 2).toUInt16 = .ofNat (((a.toNat + i) % 2 ^ 32).toNat / 2 * 2 / 4) := by
  have hi := UInt32.toNat_ofInt_cast i
  have ha := a.toNat_lt
  have hq : ∀ t < 2 ^ 32, (t &&& 4294967294) >>> 2 = t / 4 := by
    intro t ht
    rw [Nat.shiftRight_and_distrib, show 4294967294 >>> 2 = 2 ^ 30 - 1 from rfl,
      Nat.and_two_pow_sub_one_eq_mod, Nat.shiftRight_eq_div_pow]
    omega
  apply UInt16.toNat_inj.mp
  simp only [UInt32.toNat_toUInt16, UInt32.toNat_shiftRight, UInt32.toNat_and, UInt32.toNat_not,
    UInt32.toNat_add, UInt32.reduceToNat, UInt32.size, Nat.reduceSub, Nat.reduceMod,
    UInt16.toNat_ofNat']
  rw [hq _ (Nat.mod_lt _ (by decide))]
  omega

section Decoded
variable (w : UInt32)

theorem decode_rd_regAt : (decode w).rd = regAt w 7 := decode_rd_eq rfl
theorem decode_rs1_regAt : (decode w).rs1 = regAt w 15 := decode_rs1_eq rfl
theorem decode_rs2_regAt : (decode w).rs2 = regAt w 20 := decode_rs2_eq rfl

theorem writesRd_eq (o : Opcode) : o.format.writesRd = decide (o.bits ∈ destOpcodes) := by
  cases o <;> rfl

end Decoded

end Reference

/-- The outcome of `d` producing `v`: the value goes to the destination when the format has
one. -/
def Decoded.outcomeOf (d : Decoded) (v : UInt32) (taken : Bool) (next : UInt16)
    (unsupported : Bool) : Outcome :=
  { result := v
    branchTaken := taken
    nextPc := next
    writeBack := if d.format.writesRd then some (d.rd, v) else none
    unsupported }

section Dispatch
variable {d : Decoded} (rf : RegFile) (pc : UInt16)

theorem execute_opImm (h : d.opcode = .opImm) :
    execute d rf pc =
      let r := aluResult true d.funct3 d.funct7 (rf.read d.rs1) d.imm.toUInt32
      d.outcomeOf (r.getD 0) false (pc + 1) r.isNone := by
  simp only [execute, h, beq_self_eq_true, ↓reduceIte]
  cases aluResult true d.funct3 d.funct7 (rf.read d.rs1) d.imm.toUInt32 <;> rfl

theorem execute_op (h : d.opcode = .op) :
    execute d rf pc =
      let r := aluResult false d.funct3 d.funct7 (rf.read d.rs1) (rf.read d.rs2)
      d.outcomeOf (r.getD 0) false (pc + 1) r.isNone := by
  simp only [execute, h, show (Opcode.op == Opcode.opImm) = false from rfl, Bool.false_eq_true,
    ↓reduceIte]
  cases aluResult false d.funct3 d.funct7 (rf.read d.rs1) (rf.read d.rs2) <;> rfl

theorem execute_branch (h : d.opcode = .branch) :
    execute d rf pc =
      let t := branchTaken? d.funct3 (rf.read d.rs1) (rf.read d.rs2)
      d.outcomeOf 0 (t.getD false) (if t = some true then relativePc pc d.imm else pc + 1)
        t.isNone := by
  simp only [execute, h]
  rcases branchTaken? d.funct3 (rf.read d.rs1) (rf.read d.rs2) with _ | _ | _ <;> rfl

theorem execute_jal (h : d.opcode = .jal) :
    execute d rf pc = d.outcomeOf (linkOf pc) false (relativePc pc d.imm) false := by
  simp only [execute, h]
  rfl

theorem execute_jalr (h : d.opcode = .jalr) :
    execute d rf pc = d.outcomeOf (linkOf pc) false
      (((rf.read d.rs1 + d.imm.toUInt32) &&& ~~~1) >>> 2).toUInt16 false := by
  simp only [execute, h]
  rfl

theorem execute_lui (h : d.opcode = .lui) :
    execute d rf pc = d.outcomeOf (upperOf d.imm) false (pc + 1) false := by
  simp only [execute, h]
  rfl

theorem execute_auipc (h : d.opcode = .auipc) :
    execute d rf pc = d.outcomeOf ((pc.toUInt32 <<< 2) + upperOf d.imm) false (pc + 1) false := by
  simp only [execute, h]
  rfl

theorem execute_other (h : d.opcode ∉ [.opImm, .op, .branch, .jal, .jalr, .lui, .auipc]) :
    execute d rf pc = d.outcomeOf 0 false (pc + 1) false := by
  unfold execute
  cases ho : d.opcode <;> simp_all <;> rfl

end Dispatch

namespace Reference

theorem outcomeOf_decode (w : UInt32) (v : UInt32) (taken : Bool) (next : UInt16) (u : Bool) :
    (decode w).outcomeOf v taken next u =
      { result := v, branchTaken := taken, nextPc := next,
        writeBack := if field w 2 5 ∈ destOpcodes then some (regAt w 7, v) else none,
        unsupported := u } := by
  simp [Decoded.outcomeOf, decode_format, writesRd_eq, decode_rd_regAt, field_opcode]

/-- Executing a decoded word is the reference on its bits, for every word, register file and
word address. -/
theorem execute_decode_eq_reference (w : UInt32) (rf : RegFile) (pc : UInt16) :
    execute (decode w) rf pc = outcome w rf pc := by
  have hbits : field w 2 5 = (decode w).opcode.bits := field_opcode w
  have hrs1 := decode_rs1_regAt w
  have hrs2 := decode_rs2_regAt w
  unfold outcome
  dsimp only
  rw [← fallthrough_eq, hbits]
  -- one case per opcode the executor dispatches on; the rest give 0 and fall through
  cases ho : (decode w).opcode
  case opImm =>
    rw [execute_opImm rf pc ho, decode_imm, decode_format, ho,
      show Opcode.opImm.format = .i from rfl, immI_toUInt32, decode_funct3, decode_funct7, hrs1,
      aluResult_opImm, outcomeOf_decode, hbits, ho]
    cases opImmOp (field w 12 3) (field w 25 7) <;> rfl
  case op =>
    rw [execute_op rf pc ho, decode_funct3, decode_funct7, hrs1, hrs2, aluResult_op,
      outcomeOf_decode, hbits, ho]
    cases opOp (field w 12 3) (field w 25 7) <;> rfl
  case branch =>
    rw [execute_branch rf pc ho, decode_imm, decode_format, ho,
      show Opcode.branch.format = .b from rfl, relativePc_eq_jump, ← immB_eq, decode_funct3, hrs1,
      hrs2, branchTaken?_eq, outcomeOf_decode, hbits, ho]
    cases branchCond (field w 12 3) with
    | none => rfl
    | some c =>
      cases h : c.holds (rf.read (regAt w 15)) (rf.read (regAt w 20)) <;>
        simp [h, Opcode.bits, destOpcodes]
  case jal =>
    rw [execute_jal rf pc ho, decode_imm, decode_format, ho, show Opcode.jal.format = .j from rfl,
      relativePc_eq_jump, ← immJ_eq, linkOf_eq, outcomeOf_decode, hbits, ho]
    rfl
  case jalr =>
    rw [execute_jalr rf pc ho, decode_imm, decode_format, ho, show Opcode.jalr.format = .i from rfl,
      immI_toUInt32, hrs1, jalr_target_eq, linkOf_eq, outcomeOf_decode, hbits, ho]
    rfl
  case lui =>
    rw [execute_lui rf pc ho, decode_imm, decode_format, ho, show Opcode.lui.format = .u from rfl,
      upperOf_eq, outcomeOf_decode, hbits, ho]
    rfl
  case auipc =>
    rw [execute_auipc rf pc ho, decode_imm, decode_format, ho,
      show Opcode.auipc.format = .u from rfl, upperOf_eq, auipc_eq, outcomeOf_decode, hbits, ho]
    rfl
  all_goals rw [execute_other rf pc (by simp [ho]), outcomeOf_decode, hbits, ho]; rfl

example : (outcome 0x00500093 .empty 0).writeBack = some (.ra, 5) := by decide

end Reference

end RiscvCore
