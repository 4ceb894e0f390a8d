import RiscvCore.CoreError
import RiscvCore.Reg

namespace RiscvCore

structure RegFile where
  vals : Vector UInt32 32
  zero_eq : vals[0] = 0

namespace RegFile

def empty : RegFile := ⟨Vector.replicate 32 0, by simp⟩

instance : Inhabited RegFile := ⟨empty⟩

def read (rf : RegFile) (r : Reg) : UInt32 :=
  have := r.index_lt
  rf.vals[r.index]

def write (rf : RegFile) (r : Reg) (v : UInt32) : RegFile :=
  if h : r.index = 0 then rf
  else ⟨rf.vals.set r.index v r.index_lt, by rw [Vector.getElem_set_ne _ _ (by omega)]; exact rf.zero_eq⟩

/-- All 32 words, `x0` included. -/
def snapshot (rf : RegFile) : Vector UInt32 32 := rf.vals

/-- The registers holding a word other than zero, in ascending order. -/
def nonZero (rf : RegFile) : List (Reg × UInt32) :=
  (Reg.all.map fun r => (r, rf.read r)).filter (·.2 != 0)

/-- Reading by a plain index, which must be below 32. -/
def readIndex (rf : RegFile) (i : Nat) : Except CoreError UInt32 :=
  match Reg.ofNat? i with
  | some r => .ok (rf.read r)
  | none => .error (.invalidRegister i)

/-- Writing by a plain index, which must be below 32. -/
def writeIndex (rf : RegFile) (i : Nat) (v : UInt32) : Except CoreError RegFile :=
  match Reg.ofNat? i with
  | some r => .ok (rf.write r v)
  | none => .error (.invalidRegister i)

@[simp] theorem read_zero (rf : RegFile) : rf.read Reg.zero = 0 := rf.zero_eq

theorem read_write (rf : RegFile) (r s : Reg) (v : UInt32) :
    (rf.write r v).read s = if s = r ∧ r.index ≠ 0 then v else rf.read s := by
  unfold write read
  by_cases h : r.index = 0
  · simp [h]
  · simp only [h, dite_false]
    by_cases hs : s = r
    · subst hs
      simp [h]
    · have hne : r.index ≠ s.index := by
        intro e; apply hs; cases s; cases r
        simp only [Reg.index] at e
        exact congrArg Reg.mk (Fin.ext e.symm)
      simp only [hs, false_and, ite_false]
      exact Vector.getElem_set_ne _ _ hne

end RegFile

end RiscvCore
