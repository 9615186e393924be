import DemosSched.General.Fallible
import DemosSched.General.CyclicSearch
import DemosSched.General.Loop
import DemosSched.General.Yaml
import DemosSched.General.Single
import DemosSched.General.Directories
import DemosSched.General.Raising
import DemosSched.General.Naming
import DemosSched.Configuration
import DemosSched.State
import DemosSched.Process
import DemosSched.Partition
import DemosSched.Slice
import DemosSched.Window
import DemosSched.PartitionManager
import DemosSched.DemosScheduler
import DemosSched.SliceSteps
import DemosSched.Effects
import DemosSched.Phases
import DemosSched.Closing
import DemosSched.Soundness
import DemosSched.Isolation
import DemosSched.Runs
import DemosSched.Progress
import DemosSched.Completion
import DemosSched.Ledger
import DemosSched.LateEvents
import DemosSched.FreshStart
import DemosSched.Shutdown
import DemosSched.Freezer
import DemosSched.Initialization
import DemosSched.Ownership
import DemosSched.Jitter
import DemosSched.Handshake
import DemosSched.EndDetection
import DemosSched.Course
import DemosSched.Gating
import DemosSched.WindowStart
import DemosSched.PowerPolicy
import DemosSched.PolicyOrder
import DemosSched.PowerManager
import DemosSched.CpuList
import DemosSched.Normalization
import DemosSched.NormalForm
import DemosSched.Definitions
import DemosSched.Accepted
import DemosSched.Idempotence
import DemosSched.SchedulerObjects
import DemosSched.Executable
import DemosSched.References
import DemosSched.Affinity
import DemosSched.BudgetBounds
import DemosSched.Shorthand
import DemosSched.SliceForms
import DemosSched.SliceRoles
import DemosSched.InlineSlice
import DemosSched.ProcessLibrary
import DemosSched.CpuCount
import DemosSched.CpuItems
import DemosSched.CpuValidation
import DemosSched.CpuPrinting
import DemosSched.CpuIteration
import DemosSched.CommandLine
import DemosSched.Termination
import DemosSched.Steady
import DemosSched.BeStart
import DemosSched.General.Confined
import DemosSched.DeliveryOrder
import DemosSched.Tenure
import DemosSched.PerProcess
import DemosSched.Acts
import DemosSched.Handling
import DemosSched.Moves
import DemosSched.Undisturbed
import DemosSched.Bystanders
import DemosSched.Accounts
import DemosSched.RoundRobin
import DemosSched.Fairness
import DemosSched.Timetable
import DemosSched.ScTurns
import DemosSched.WindowTurns
import DemosSched.ReferenceSchedule
import DemosSched.General.CyclicService
import DemosSched.Beats
import DemosSched.BePlan
import DemosSched.BeRounds
import DemosSched.BeTimetable
import DemosSched.WholeSchedule
import DemosSched.FairShares
import DemosSched.Cgroups
import DemosSched.CgroupCleanup
import DemosSched.Realized
import DemosSched.WindowPolicies
import DemosSched.Imx8
import DemosSched.PolicySetup
import DemosSched.ProcessStart
import DemosSched.Overruns
import DemosSched.DefaultBudgets
import DemosSched.InitialCpus
import DemosSched.InPlace
import DemosSched.Alternating
import DemosSched.SignalCompletion
import DemosSched.WindowCycle
