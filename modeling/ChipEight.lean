import ChipEight.Text.Hex
import ChipEight.Text.Numeral
import ChipEight.Text.Terminal
import ChipEight.Fault
import ChipEight.Nibble
import ChipEight.Instruction.Basic
import ChipEight.Instruction.Decode
import ChipEight.Instruction.Mnemonic
import ChipEight.Instruction.Record
import ChipEight.Registers
import ChipEight.Keypad
import ChipEight.Memory.Basic
import ChipEight.Memory.Dump
import ChipEight.Glyph
import ChipEight.Screen.Basic
import ChipEight.Screen.Picture
import ChipEight.Random.ChaCha
import ChipEight.Random.Source
import ChipEight.Settings
import ChipEight.Instruction.Arith
import ChipEight.Machine.Basic
import ChipEight.Machine.Execute
import ChipEight.Machine.Dump
import ChipEight.Machine.Operation
import ChipEight.Event
import ChipEight.Runner
import ChipEight.CommandLine.KeyText
import ChipEight.CommandLine.Parameter
import ChipEight.CommandLine.UsageError
import ChipEight.CommandLine.Arguments
import ChipEight.CommandLine.Console
import ChipEight.CommandLine.FileTree
import ChipEight.CommandLine.Program
import ChipEight.Main
import ChipEight.Proofs.Effects
import ChipEight.Proofs.Runs
import ChipEight.Proofs.Bounds
import ChipEight.Proofs.Checked.Memory
import ChipEight.Proofs.FaultAtomicity
import ChipEight.Proofs.Checked.Screen
import ChipEight.Proofs.Checked.Machine
import ChipEight.Proofs.Checked.Safety
import ChipEight.Proofs.KeyWait
import ChipEight.Proofs.StaleScreen
import ChipEight.Proofs.Calls
import ChipEight.Proofs.ScreenFlag
import ChipEight.Proofs.Ticks
import ChipEight.Proofs.Runner.Course
import ChipEight.Proofs.Runner.BareTicks
import ChipEight.Proofs.Runner.Frames
import ChipEight.Proofs.Runner.Splitting
import ChipEight.Proofs.Drawing
import ChipEight.Proofs.Glyphs
import ChipEight.Proofs.InstructionForms
import ChipEight.Proofs.Faults
import ChipEight.Proofs.Runner.Waiting
import ChipEight.Proofs.TimerIsolation
import ChipEight.Proofs.Footprints
import ChipEight.Proofs.KeyIsolation
import ChipEight.Proofs.Runner.Restarting
import ChipEight.Proofs.SettingIsolation
import ChipEight.Proofs.Rolls
import ChipEight.Proofs.DrawOrder
import ChipEight.Proofs.DrawInstruction
import ChipEight.Proofs.Arithmetic
import ChipEight.Proofs.WaitProtocol
import ChipEight.Proofs.Timers
import ChipEight.Proofs.Text.Numerals
import ChipEight.Proofs.Dumps
import ChipEight.Proofs.CommandLine.ErrorStream
import ChipEight.Proofs.CommandLine.Headless
import ChipEight.Proofs.ControlFlow
import ChipEight.Proofs.Loading
import ChipEight.Proofs.Runner.Logging
import ChipEight.Proofs.ReadingBack
import ChipEight.Proofs.Assembler
import ChipEight.Proofs.CommandLine.KeySpelling
