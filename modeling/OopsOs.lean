import OopsOs.Lib.Machine
import OopsOs.Lib.ByteMem
import OopsOs.Lib.Buffers
import OopsOs.Lib.Text
import OopsOs.Lib.FirstFit
import OopsOs.Lib.Links
import OopsOs.Lib.PageWalk
import OopsOs.Lib.Programs
import OopsOs.Console
import OopsOs.ScrollView
import OopsOs.BlockCopy
import OopsOs.Kernel
import OopsOs.Terminal
import OopsOs.Switching
import OopsOs.ScreenWrites
import OopsOs.Background
import OopsOs.FileSystem
import OopsOs.SystemCalls
import OopsOs.FileReads
import OopsOs.FileSessions
import OopsOs.ReadBounds
import OopsOs.FilePositions
import OopsOs.FileSlices
import OopsOs.FileBlocks
import OopsOs.Numerals
import OopsOs.Printf
import OopsOs.Grep
import OopsOs.NameLookup
import OopsOs.DirectoryNames
import OopsOs.Modifiers
import OopsOs.ProgramOutput
import OopsOs.SystemCallEntry
import OopsOs.Keyboard
import OopsOs.Processes
import OopsOs.Executables
import OopsOs.CommandLines
import OopsOs.ExecuteEffects
import OopsOs.Schedule
import OopsOs.ProcessFrames
import OopsOs.ProcessTable
import OopsOs.NestedPrograms
import OopsOs.TableSystem
import OopsOs.SavedContexts
import OopsOs.ProcessStacks
import OopsOs.ProcessRuns
import OopsOs.ProgramWindow
import OopsOs.OwnBlocks
import OopsOs.ProcessSafety
import OopsOs.LineInput
import OopsOs.TypeAhead
import OopsOs.LineEditor
import OopsOs.KeyboardBounds
import OopsOs.ArrowKeys
import OopsOs.Echo
import OopsOs.LineOwners
import OopsOs.LineOwnerRuns
import OopsOs.InterruptMasks
import OopsOs.RtcReaders
import OopsOs.ProcessCalls
import OopsOs.Arguments
import OopsOs.DescriptorChecks
import OopsOs.DescriptorTable
import OopsOs.DescriptorRuns
import OopsOs.DirectoryListing
import OopsOs.Paging
import OopsOs.VideoMap
import OopsOs.KernelStack
import OopsOs.ExitStatus
import OopsOs.BlinkList
import OopsOs.BlinkDisplay
import OopsOs.UserCalls
import OopsOs.Cat
import OopsOs.Ls
import OopsOs.Shell
import OopsOs.ProgramScreens
import OopsOs.BlinkPhases
import OopsOs.FishFrames
import OopsOs.FishScreen
import OopsOs.RtcRegisters
import OopsOs.Rotation
import OopsOs.Descriptors
import OopsOs.InterruptLines
