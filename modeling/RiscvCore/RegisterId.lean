import RiscvCore.Reg

namespace RiscvCore

inductive RegisterId where
  | gpr (r : Reg)
  | pc
  | mstatus
  | mepc
  | mcause
  | mtvec
deriving DecidableEq, Repr

namespace RegisterId

def number : RegisterId → Nat
  | gpr r => r.index
  | pc => 32
  | mstatus => 33
  | mepc => 34
  | mcause => 35
  | mtvec => 36

def ofNumber? (n : Nat) : Option RegisterId :=
  match Reg.ofNat? n with
  | some r => some (gpr r)
  | none =>
    match n with
    | 32 => some pc
    | 33 => some mstatus
    | 34 => some mepc
    | 35 => some mcause
    | 36 => some mtvec
    | _ => none

def name : RegisterId → String
  | gpr r => s!"x{r.index}"
  | pc => "pc"
  | mstatus => "mstatus"
  | mepc => "mepc"
  | mcause => "mcause"
  | mtvec => "mtvec"

/-- A canonical name, or any name of a general-purpose register. -/
def ofName? (s : String) : Option RegisterId :=
  match s with
  | "pc" => some pc
  | "mstatus" => some mstatus
  | "mepc" => some mepc
  | "mcause" => some mcause
  | "mtvec" => some mtvec
  | _ => (Reg.ofName? s).map gpr

def all : List RegisterId := (List.range 37).filterMap ofNumber?

end RegisterId

end RiscvCore
