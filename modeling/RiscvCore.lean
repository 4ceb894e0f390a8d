import RiscvCore.Text.Digits
import RiscvCore.Text.Blank
import RiscvCore.Reg
import RiscvCore.Opcode
import RiscvCore.InstFormat
import RiscvCore.Immediate
import RiscvCore.Decode
import RiscvCore.CoreError
import RiscvCore.RegFile
import RiscvCore.Execute
import RiscvCore.Log
import RiscvCore.Encode
import RiscvCore.Inst
import RiscvCore.Asm.Error
import RiscvCore.Asm.Statement
import RiscvCore.Asm.Build
import RiscvCore.Asm.Assemble
import RiscvCore.RegisterId
import RiscvCore.Memory
import RiscvCore.Image
import RiscvCore.Core.Basic
import RiscvCore.Core.Step
import RiscvCore.Core.Report
import RiscvCore.Core.Session
import RiscvCore.Expect
import RiscvCore.Proofs.SignExtend
import RiscvCore.Proofs.Fields
import RiscvCore.Proofs.Encoding
import RiscvCore.Proofs.Reference
import RiscvCore.Proofs.Assembly
import RiscvCore.Proofs.Run
import RiscvCore.Proofs.Store
import RiscvCore.Proofs.Session
import RiscvCore.Proofs.HaltPolicy
import RiscvCore.Proofs.AsmText
import RiscvCore.Proofs.Assembler
import RiscvCore.Proofs.Decoding
import RiscvCore.Proofs.Architecture
import RiscvCore.Proofs.Limit
import RiscvCore.Proofs.RollingLog
import RiscvCore.Proofs.CallReturn
import RiscvCore.Proofs.MemoryLoad
import RiscvCore.Proofs.LogReport
import RiscvCore.Proofs.HexImage
import RiscvCore.Proofs.RegisterNames
import RiscvCore.Proofs.HostRegisters
import RiscvCore.Proofs.ByteImage
