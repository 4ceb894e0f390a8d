
namespace RiscvCore

/-- A general-purpose register, `x0` to `x31`. -/
structure Reg where
  num : Fin 32
deriving DecidableEq, Repr, Inhabited

namespace Reg

def abiNames : List String :=
  ["zero", "ra", "sp", "gp", "tp", "t0", "t1", "t2", "s0", "s1", "a0", "a1", "a2", "a3", "a4",
   "a5", "a6", "a7", "s2", "s3", "s4", "s5", "s6", "s7", "s8", "s9", "s10", "s11", "t3", "t4",
   "t5", "t6"]

def zero : Reg := ⟨0⟩
def ra : Reg := ⟨1⟩
def s0 : Reg := ⟨8⟩

def index (r : Reg) : Nat := r.num.val

def isZero (r : Reg) : Bool := r.index == 0

def abiName (r : Reg) : String := abiNames.getD r.index ""

def all : List Reg := (List.finRange 32).map Reg.mk

def ofNat? (n : Nat) : Option Reg :=
  if h : n < 32 then some ⟨⟨n, h⟩⟩ else none

/-- The register named by the low five bits of an instruction field. -/
def ofField (bits : UInt32) : Reg := ⟨⟨bits.toNat % 32, Nat.mod_lt _ (by decide)⟩⟩

/-- The text of the fault raised when a register number is 32 or more. -/
def rangeFault : String := "Register number must be < 32"

/-- The register with number `n`, or the range fault. -/
def ofNatChecked (n : Nat) : Except String Reg :=
  match ofNat? n with
  | some r => .ok r
  | none => .error rangeFault

/-- A decimal numeral as an unsigned byte reads it: an optional `+`, then at least one digit, of
a value at most 255. -/
def readDecimal? : List Char → Option Nat
  | '+' :: ds => digitsValue? ds
  | ds => digitsValue? ds
where
  digitsValue? (ds : List Char) : Option Nat :=
    if !ds.isEmpty && ds.all Char.isDigit then
      let n := ds.foldl (fun n d => 10 * n + (d.toNat - '0'.toNat)) 0
      if n ≤ 255 then some n else none
    else none

/-- The register a name denotes: an ABI name, `fp`, or `x` and a number below 32. -/
def ofName? (name : String) : Option Reg :=
  if name == "fp" then some s0 else
  match abiNames.idxOf? name with
  | some i => ofNat? i
  | none =>
    match name.toList with
    | 'x' :: rest => (readDecimal? rest).bind ofNat?
    | _ => none

theorem index_lt (r : Reg) : r.index < 32 := r.num.isLt

theorem ofNat?_index (r : Reg) : ofNat? r.index = some r := by
  simp [ofNat?, index, r.num.isLt]

end Reg

end RiscvCore
