import VarEmu.Library.Execution
import VarEmu.Library.Truncation
import VarEmu.Library.Metering
import VarEmu.Library.Accounts
import VarEmu.Library.HighWater
import VarEmu.Library.Bits
import VarEmu.Library.LabelledCode
import VarEmu.Library.LastWriter
import VarEmu.Library.Bytes
import VarEmu.Library.WordStack
import VarEmu.Library.Decimal
import VarEmu.Library.Words
import VarEmu.Emulator.State
import VarEmu.Emulator.Cycles
import VarEmu.Emulator.Energy
import VarEmu.Emulator.Device
import VarEmu.Emulator.Monitor
import VarEmu.Emulator.Numerals
import VarEmu.Emulator.Machine
import VarEmu.Emulator.Prompt
import VarEmu.Emulator.ActiveEnergy
import VarEmu.Emulator.EnergyReads
import VarEmu.Emulator.SleepClock
import VarEmu.Emulator.Snapshots
import VarEmu.Emulator.SleepEnergy
import VarEmu.Emulator.PowerModel
import VarEmu.Emulator.Frequency
import VarEmu.Emulator.InputFile
import VarEmu.Emulator.ClassTable
import VarEmu.Emulator.ClassRange
import VarEmu.Emulator.Instances
import VarEmu.Kernel.Driver
import VarEmu.Kernel.Events
import VarEmu.Kernel.Accounting
import VarEmu.Kernel.FaultIsolation
import VarEmu.Kernel.Coherence
import VarEmu.Kernel.UserCopy
import VarEmu.Kernel.ReadBack
import VarEmu.Kernel.SnapshotReads
import VarEmu.Kernel.WriteWindow
import VarEmu.User.Registers
import VarEmu.Translator.Decode
import VarEmu.Translator.Blocks
import VarEmu.Translator.Errors
import VarEmu.Translator.Fetch
import VarEmu.Translator.Emission
import VarEmu.Translator.Injection
import VarEmu.Processor.ExceptionFrame
import VarEmu.Processor.PageRights
import VarEmu.Processor.Tlb
import VarEmu.Processor.LongDescriptors
import VarEmu.Processor.Mpu
import VarEmu.Processor.Privilege
import VarEmu.Translator.Tcg
import VarEmu.Translator.DataProcessing
