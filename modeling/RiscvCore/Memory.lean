import RiscvCore.CoreError

namespace RiscvCore

structure Memory where
  words : Vector UInt32 wordCount

namespace Memory

def empty : Memory := ⟨Vector.replicate wordCount 0⟩

instance : Inhabited Memory := ⟨empty⟩

def read (m : Memory) (a : UInt16) : UInt32 :=
  have : a.toNat < wordCount := a.toNat_lt
  m.words[a.toNat]

def write (m : Memory) (a : UInt16) (w : UInt32) : Memory :=
  ⟨m.words.set a.toNat w a.toNat_lt⟩

/-- Words placed from address `start` on; the caller sees that they fit. -/
def place (m : Memory) (start : Nat) : List UInt32 → Memory
  | [] => m
  | w :: ws =>
    if h : start < wordCount then place ⟨m.words.set start w h⟩ (start + 1) ws else m

/-- `ws` loaded at word `offset`, if it fits. -/
def load (m : Memory) (offset : Nat) (ws : List UInt32) : Except CoreError Memory :=
  if offset + ws.length ≤ wordCount then .ok (m.place offset ws)
  else .error (.imageTooLarge offset ws.length wordCount)

def ofWords (ws : List UInt32) : Except CoreError Memory := empty.load 0 ws

/-- A call of the host that changes a memory in place. -/
inductive Call where
  | load (offset : UInt16) (ws : List UInt32)
  | write (address : UInt16) (w : UInt32)

/-- A call made in place, with its answer: a refused load leaves the memory as it was. -/
def exec (m : Memory) : Call → Except CoreError Unit × Memory
  | .load offset ws =>
    match m.load offset.toNat ws with
    | .ok m' => (.ok (), m')
    | .error e => (.error e, m)
  | .write a w => (.ok (), m.write a w)

def session (m : Memory) (calls : List Call) : Memory := calls.foldl (fun m c => (m.exec c).2) m

/-- The word of up to four bytes, least significant first. -/
def wordOfBytes (bs : List UInt8) : UInt32 :=
  bs.foldr (fun b w => (w <<< 8) ||| b.toUInt32) 0

/-- Code bytes grouped into words, a short last group padded with zeros. -/
def wordsOfBytes (bs : List UInt8) : List UInt32 :=
  let a := bs.toArray
  (List.range ((a.size + 3) / 4)).map fun i => wordOfBytes (a.extract (4 * i) (4 * i + 4)).toList

def ofBytes (bs : List UInt8) : Except CoreError Memory := ofWords (wordsOfBytes bs)

def nonZeroCount (m : Memory) : Nat := m.words.toList.countP (· != 0)

/-- The summary of a memory: its size and how many words are not zero. -/
def summary (m : Memory) : String :=
  s!"InstructionMemory \x7b words: {wordCount}, non_zero: {m.nonZeroCount} \x7d"

end Memory

end RiscvCore

namespace RiscvCore

/-- Code as a core fetches it: a list of words that reads 0 past its end, or a full memory. -/
inductive Store where
  | slice (words : Array UInt32)
  | full (mem : Memory)

namespace Store

def read : Store → UInt16 → UInt32
  | slice ws, a => ws.getD a.toNat 0
  | full m, a => m.read a

end Store

end RiscvCore
