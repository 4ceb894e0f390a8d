import Mathlib
import RiscvCore.Proofs.AsmText

namespace RiscvCore

namespace Inst

/-- The operand ranges of the encodings: 12-bit signed immediates for I and S forms, shift
amounts below 32, even 13-bit and 21-bit signed offsets for branches and jumps, and upper
immediates read signed or unsigned in 20 bits. -/
def InRange : Inst → Prop
  | alu .. | fence | ecall | ebreak | word _ => True
  | aluImm _ _ _ imm | load _ _ _ imm | store _ _ _ imm | jalr _ _ imm => -2048 ≤ imm ∧ imm ≤ 2047
  | shift _ _ _ shamt => shamt ≤ 31
  | branch _ _ _ off => off % 2 = 0 ∧ -4096 ≤ off ∧ off ≤ 4094
  | jal _ off => off % 2 = 0 ∧ -1048576 ≤ off ∧ off ≤ 1048574
  | lui _ imm | auipc _ imm => -524288 ≤ imm ∧ imm ≤ 1048575

instance : DecidablePred InRange := fun i => by
  cases i <;> unfold InRange <;> infer_instance

open Asm in
/-- The mnemonic and operands an instruction is written with: registers in the order of the
assembly syntax, loads, stores and `jalr` with a memory operand. -/
def statement : Inst → Mnemonic × List Operand
  | alu f rd rs1 rs2 => (.alu f, [.reg rd, .reg rs1, .reg rs2])
  | aluImm f rd rs1 imm => (.aluImm f, [.reg rd, .reg rs1, .imm imm])
  | shift f rd rs1 shamt => (.shift f, [.reg rd, .reg rs1, .imm shamt])
  | load f rd rs1 imm => (.load f, [.reg rd, .mem imm rs1])
  | store f rs1 rs2 imm => (.store f, [.reg rs2, .mem imm rs1])
  | branch f rs1 rs2 off => (.branch f, [.reg rs1, .reg rs2, .imm off])
  | jal rd off => (.jal, [.reg rd, .imm off])
  | jalr rd rs1 imm => (.jalr, [.reg rd, .mem imm rs1])
  | lui rd imm => (.lui, [.reg rd, .imm imm])
  | auipc rd imm => (.auipc, [.reg rd, .imm imm])
  | fence => (.fence, [])
  | ecall => (.ecall, [])
  | ebreak => (.ebreak, [])
  | word w => (.word, [.imm w.toNat])

/-- The canonical text of an instruction: its lower-case mnemonic, then a space and its operands
separated by `, `, registers by ABI name, numbers in decimal. -/
def text (i : Inst) : String := Asm.statementText i.statement.1.name i.statement.2

example : (Inst.store .sw (Reg.mk 2) (Reg.mk 1) (-8)).text = "sw ra, -8(sp)" := by decide +kernel

end Inst

namespace Asm

namespace Mnemonic

theorem mem_all (k : Mnemonic) : k ∈ all := by
  cases k <;> simp [all] <;> rename_i f <;> cases f <;> decide

theorem names_spelling : all.all (fun k => ofName? k.name == some k && !k.name.toList.isEmpty &&
    k.name.toList.all fun c => isIdentChar c && c.toLower == c) = true := by
  decide +kernel

theorem spelling (k : Mnemonic) : ofName? k.name = some k ∧ IsName k.name.toList ∧
    k.name.toList.map Char.toLower = k.name.toList := by
  have h := List.all_eq_true.mp names_spelling k (mem_all k)
  simp only [Bool.and_eq_true, beq_iff_eq, Bool.not_eq_true', List.isEmpty_eq_false_iff,
    List.all_eq_true] at h
  refine ⟨h.1.1, ⟨h.1.2, fun c hc => (h.2 c hc).1⟩, ?_⟩
  exact (List.map_congr_left fun c hc => (h.2 c hc).2).trans (List.map_id _)

end Mnemonic

theorem ofInt_toNat_word (w : UInt32) : UInt32.ofInt (w.toNat : Int) = w := by
  have hw := w.toNat_lt
  rw [UInt32.ofInt, Int.emod_eq_of_lt (by omega) (by omega), Int.toNat_natCast, UInt32.ofNat_toNat]

namespace Site

/-- What every result of a line's checks satisfies: an instruction has its operands in range,
and an error names the line. -/
def Sound (c : Site) : Except AsmError Inst → Prop
  | .ok i => i.InRange
  | .error e => e.line = c.line

theorem sound_ranged {c : Site} {v lo hi : Int} {f : Int → Inst}
    (hf : lo ≤ v → v ≤ hi → (f v).InRange) :
    c.Sound (c.ranged v lo hi >>= fun w => pure (f w)) := by
  unfold ranged
  split
  · rfl
  · exact hf (by omega) (by omega)

theorem sound_offset {c : Site} {v lo hi : Int} {f : Int → Inst}
    (hf : v % 2 = 0 → lo ≤ v → v ≤ hi → (f v).InRange) :
    c.Sound (c.offset v lo hi >>= fun w => pure (f w)) := by
  unfold offset
  split
  · rfl
  · exact sound_ranged (hf (by omega))

theorem buildAs_sound (c : Site) (ops : List Operand) (k : Mnemonic) :
    c.Sound (c.buildAs ops k) := by
  cases k <;> simp only [buildAs, branchZero, upper, noOperands, imm12, branchOffset, jumpOffset] <;>
    split
  all_goals first
    | rfl
    | exact sound_ranged fun hlo hhi => by simp only [Inst.InRange] <;> omega
    | exact sound_offset fun hev hlo hhi => by simp only [Inst.InRange]; omega
    | simp [Sound, Inst.InRange, Inst.mv, Inst.nop, Inst.ret]

theorem ranged_of_mem (c : Site) {v lo hi : Int} (hlo : lo ≤ v) (hhi : v ≤ hi) :
    c.ranged v lo hi = .ok v := by
  simp [ranged]
  omega

theorem offset_of_mem (c : Site) {v lo hi : Int} (hev : v % 2 = 0) (hlo : lo ≤ v) (hhi : v ≤ hi) :
    c.offset v lo hi = .ok v := by
  simp [offset, hev, ranged_of_mem c hlo hhi]

theorem buildAs_statement (c : Site) {i : Inst} (h : i.InRange) :
    c.buildAs i.statement.2 i.statement.1 = .ok i := by
  have hword (w : UInt32) : c.ranged (w.toNat : Int) (-2147483648) 4294967295 = .ok w.toNat :=
    ranged_of_mem c (by omega) (by have := w.toNat_lt; omega)
  cases i <;> simp only [Inst.InRange] at h <;>
    simp [Inst.statement, buildAs, imm12, branchOffset, jumpOffset, upper, noOperands,
      ranged_of_mem, offset_of_mem, h, hword, ofInt_toNat_word]

theorem build_sound (c : Site) (ops : List Operand) : c.Sound (c.build ops) := by
  unfold build
  split
  · exact buildAs_sound c ops _
  · rfl

end Site

theorem assembleLine_sound (n : Nat) (l : List Char) :
    (∀ i, assembleLine n l = .ok (some i) → i.InRange) ∧
    (∀ e, assembleLine n l = .error e → e.line = n) := by
  unfold assembleLine
  dsimp only
  split
  · simp
  · split
    · simp [AsmError.line]
    · rename_i m ops _
      have hs := Site.build_sound ⟨n, m.toLower⟩ ops
      cases hb : Site.build ⟨n, m.toLower⟩ ops with
      | ok i =>
        rw [hb] at hs
        simpa [Functor.map, Except.map, Site.Sound] using hs
      | error e =>
        rw [hb] at hs
        simpa [Functor.map, Except.map, Site.Sound] using hs

theorem assembleLine_eq_none (n : Nat) (l : List Char) :
    assembleLine n l = .ok none ↔ Text.codeOf l = [] := by
  unfold assembleLine
  dsimp only
  split
  · simp_all
  · rename_i h
    have hne : Text.codeOf l ≠ [] := by simpa using h
    simp only [hne, iff_false]
    split
    · simp
    · cases Site.build _ _ <;> simp [Functor.map, Except.map]

theorem assembleLine_text (n : Nat) (k : Mnemonic) {ops : List Operand}
    (h : ∀ p ∈ ops, p.Readable) :
    assembleLine n (statementText k.name ops).toList = some <$> Site.buildAs ⟨n, k.name⟩ ops k := by
  obtain ⟨hfind, hname, hlower⟩ := k.spelling
  have htoLower : k.name.toLower = k.name := by
    rw [← String.toList_inj, String.toLower, String.toList_map, hlower]
  have hne : (statementText k.name ops).toList ≠ [] := by
    cases ops <;> simp [statementText, String.toList_append, hname.ne_nil]
  unfold assembleLine
  simp only [codeOf_text hname, statement?_text hname h, hne, htoLower, Site.build, hfind,
    List.isEmpty_eq_false_iff.mpr, ne_eq, not_false_eq_true, Bool.false_eq_true, if_false]

theorem readable_statement {i : Inst} (h : i.InRange) : ∀ p ∈ i.statement.2, p.Readable := by
  cases i <;> simp only [Inst.InRange] at h <;> simp [Inst.statement, Operand.Readable, maxValue]
  all_goals first | omega | (rename_i w; have := w.toNat_lt; omega)

theorem assembleInstruction_text {i : Inst} (h : i.InRange) :
    assembleInstruction i.text = .ok i := by
  unfold assembleInstruction Inst.text
  rw [assembleLine_text 1 _ (readable_statement h), Site.buildAs_statement _ h]
  rfl

theorem assembleInstruction_inRange {s : String} {i : Inst} (h : assembleInstruction s = .ok i) :
    i.InRange := by
  unfold assembleInstruction at h
  cases hl : assembleLine 1 s.toList with
  | error e =>
    rw [hl] at h
    cases h
  | ok o =>
    cases o with
    | none =>
      rw [hl] at h
      cases h
    | some i' =>
      simp only [hl] at h
      cases h
      exact (assembleLine_sound 1 _).1 _ hl

section Sequence

variable {ε α : Type}

theorem mapM_id_map_ok (os : List α) : (os.map Except.ok).mapM id = (.ok os : Except ε _) := by
  rw [List.mapM_map]
  exact List.mapM_pure (f := id) |>.trans (by simp; rfl)

theorem mapM_id_error (os : List α) (e : ε) (rest : List (Except ε α)) :
    (os.map Except.ok ++ Except.error e :: rest).mapM id = .error e := by
  rw [List.mapM_append, mapM_id_map_ok]
  rfl

theorem results_cases (rs : List (Except ε α)) :
    (∃ os : List α, rs = os.map Except.ok) ∨
      ∃ (os : List α) (e : ε) (rest : List (Except ε α)),
        rs = os.map Except.ok ++ Except.error e :: rest := by
  induction rs with
  | nil => exact .inl ⟨[], rfl⟩
  | cons r rs ih =>
    cases r with
    | error e => exact .inr ⟨[], e, rs, rfl⟩
    | ok a =>
      rcases ih with ⟨os, rfl⟩ | ⟨os, e, rest, rfl⟩
      · exact .inl ⟨a :: os, rfl⟩
      · exact .inr ⟨a :: os, e, rest, rfl⟩

theorem mapM_id_eq_ok {rs : List (Except ε α)} {os : List α} :
    rs.mapM id = .ok os ↔ rs = os.map Except.ok := by
  constructor
  · intro h
    rcases results_cases rs with ⟨os', rfl⟩ | ⟨os', e, rest, rfl⟩
    · rw [mapM_id_map_ok] at h
      cases h
      rfl
    · rw [mapM_id_error] at h
      cases h
  · rintro rfl
    exact mapM_id_map_ok os

theorem mapM_id_eq_error {rs : List (Except ε α)} {e : ε} :
    rs.mapM id = .error e ↔
      ∃ (os : List α) (rest : List (Except ε α)), rs = os.map Except.ok ++ Except.error e :: rest := by
  constructor
  · intro h
    rcases results_cases rs with ⟨os, rfl⟩ | ⟨os, e', rest, rfl⟩
    · rw [mapM_id_map_ok] at h
      cases h
    · rw [mapM_id_error] at h
      cases h
      exact ⟨os, rest, rfl⟩
  · rintro ⟨os, rest, rfl⟩
    exact mapM_id_error os e rest

end Sequence

theorem assembleFrom_eq (n : Nat) (ls : List (List Char)) :
    assembleFrom n ls =
      ((ls.mapIdx fun k l => assembleLine (n + k) l).mapM id).map List.reduceOption := by
  induction ls generalizing n with
  | nil => rfl
  | cons l ls ih =>
    have hshift : (fun k l => assembleLine (n + (k + 1)) l) = fun k l => assembleLine (n + 1 + k) l := by
      funext k l
      rw [Nat.add_right_comm, Nat.add_assoc]
    rw [List.mapIdx_cons, Nat.add_zero, hshift, assembleFrom, ih (n + 1), List.mapM_cons]
    cases assembleLine n l with
    | error e => rfl
    | ok o =>
      cases (ls.mapIdx fun k l => assembleLine (n + 1 + k) l).mapM id with
      | error e => rfl
      | ok os => cases o <;> rfl

theorem line_of_results {n : Nat} {ls : List (List Char)} {os : List (Option Inst)} {e : AsmError}
    {rest : List (Except AsmError (Option Inst))}
    (h : ls.mapIdx (fun k l => assembleLine (n + k) l) = os.map .ok ++ .error e :: rest) :
    e.line = n + os.length := by
  have hget := congrArg (·[os.length]?) h
  simp only [List.getElem?_mapIdx, List.getElem?_append_right (by simp : (os.map Except.ok).length ≤ os.length),
    List.length_map, Nat.sub_self, List.getElem?_cons_zero] at hget
  obtain ⟨l, -, hl⟩ := Option.map_eq_some_iff.mp hget
  exact (assembleLine_sound _ l).2 e hl

theorem assembleInstruction_word {v : Int} (hv : v.natAbs ≤ maxValue) :
    assembleInstruction (statementText ".word" [.imm v]) =
      if -2147483648 ≤ v ∧ v ≤ 4294967295 then .ok (.word (UInt32.ofInt v))
      else .error (.immediateOutOfRange 1 ".word" v (-2147483648) 4294967295) := by
  have hline := @assembleLine_text 1 Mnemonic.word [.imm v] (by simpa [Operand.Readable] using hv)
  unfold assembleInstruction
  rw [show ".word" = Mnemonic.word.name from rfl, hline]
  by_cases h : -2147483648 ≤ v ∧ v ≤ 4294967295
  · simp [Site.buildAs, Site.ranged_of_mem _ h.1 h.2, h]
    rfl
  · have hout : v < -2147483648 ∨ v > 4294967295 := by omega
    simp [Site.buildAs, Site.ranged, hout, h]
    rfl

/-- The text assembler is sound and complete for its syntax. A text assembles exactly when each
of its lines does, to the words of the lines' instructions in line order, a line whose code is
empty giving none; otherwise it fails with the error of its first failing line, which names
that line. Every instruction the assembler builds has its operands in range, every instruction
in range assembles back from its canonical text, and a data word takes a signed or unsigned
32-bit value modulo `2^32`. -/
theorem text_assembler_sound_complete :
    (∀ (text : String) (ws : List UInt32), assembleWords text = .ok ws ↔
      ∃ os : List (Option Inst),
        (Text.lines text).mapIdx (fun k l => assembleLine (k + 1) l) = os.map .ok ∧
        ws = os.reduceOption.map Inst.encode) ∧
    (∀ (text : String) (e : AsmError), assembleWords text = .error e ↔
      ∃ (os : List (Option Inst)) (rest : List (Except AsmError (Option Inst))),
        (Text.lines text).mapIdx (fun k l => assembleLine (k + 1) l) =
          os.map .ok ++ .error e :: rest ∧ e.line = os.length + 1) ∧
    (∀ (n : Nat) (l : List Char), assembleLine n l = .ok none ↔ Text.codeOf l = []) ∧
    (∀ (s : String) (i : Inst), assembleInstruction s = .ok i → i.InRange) ∧
    (∀ i : Inst, i.InRange → assembleInstruction i.text = .ok i) ∧
    (∀ v : Int, v.natAbs ≤ maxValue →
      assembleInstruction (statementText ".word" [.imm v]) =
        if -2147483648 ≤ v ∧ v ≤ 4294967295 then .ok (.word (UInt32.ofInt v))
        else .error (.immediateOutOfRange 1 ".word" v (-2147483648) 4294967295)) := by
  have hwords (text : String) : assembleWords text =
      (((Text.lines text).mapIdx fun k l => assembleLine (k + 1) l).mapM id).map
        (List.map Inst.encode ∘ List.reduceOption) := by
    have hnum : (fun k l => assembleLine (k + 1) l) = fun k l => assembleLine (1 + k) l := by
      funext k l
      rw [Nat.add_comm]
    rw [assembleWords, assembleFrom_eq, hnum]
    cases ((Text.lines text).mapIdx fun k l => assembleLine (1 + k) l).mapM id <;> rfl
  refine ⟨fun text ws => ?_, fun text e => ?_, assembleLine_eq_none,
    fun _ _ => assembleInstruction_inRange, fun _ => assembleInstruction_text,
    fun _ => assembleInstruction_word⟩
  · rw [hwords]
    constructor
    · intro h
      cases hr : ((Text.lines text).mapIdx fun k l => assembleLine (k + 1) l).mapM id with
      | error e =>
        rw [hr] at h
        cases h
      | ok os =>
        rw [hr] at h
        cases h
        exact ⟨os, mapM_id_eq_ok.mp hr, rfl⟩
    · rintro ⟨os, hR, rfl⟩
      rw [mapM_id_eq_ok.mpr hR]
      rfl
  · rw [hwords]
    have hmap : ∀ r : Except AsmError (List (Option Inst)),
        r.map (List.map Inst.encode ∘ List.reduceOption) = .error e ↔ r = .error e := by
      intro r
      cases r <;> simp [Except.map]
    rw [hmap, mapM_id_eq_error]
    constructor
    · rintro ⟨os, rest, hR⟩
      have hline := @line_of_results 1 _ os e rest (by
        rw [← hR]
        congr 1
        funext k l
        rw [Nat.add_comm])
      exact ⟨os, rest, hR, by omega⟩
    · rintro ⟨os, rest, hR, -⟩
      exact ⟨os, rest, hR⟩

theorem text_assembler_sound_complete_store :
    (Inst.store .sw (Reg.mk 2) (Reg.mk 1) (-8)).InRange ∧
      assembleInstruction (Inst.store .sw (Reg.mk 2) (Reg.mk 1) (-8)).text =
        .ok (Inst.store .sw (Reg.mk 2) (Reg.mk 1) (-8)) :=
  ⟨by decide, text_assembler_sound_complete.2.2.2.2.1 _ (by decide)⟩

end Asm

end RiscvCore
