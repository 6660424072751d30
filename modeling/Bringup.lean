import Bringup.CommandLine.Session
import Bringup.Docker.Dictated
import Bringup.Docker.Scripted
import Bringup.Engine.Scripted
import Bringup.Main
import Bringup.Proofs.Lifecycle.DependencyOrder
import Bringup.Proofs.Lifecycle.DependentsDown
import Bringup.Proofs.Lifecycle.HaltingDiscipline
import Bringup.Proofs.Lifecycle.Histories
import Bringup.Proofs.Lifecycle.InTurn
import Bringup.Proofs.Lifecycle.LastErrors
import Bringup.Proofs.Lifecycle.Remembered
import Bringup.Proofs.Lifecycle.RestartAnswers
import Bringup.Proofs.Lifecycle.RestartsEnd
import Bringup.Proofs.Lifecycle.SingleInstance
import Bringup.Proofs.Lifecycle.StopWins
import Bringup.Proofs.Simulation.BindingsAgree
import Bringup.Proofs.Simulation.CancelAtOnce
import Bringup.Proofs.Simulation.CriticalPath
import Bringup.Proofs.Simulation.Dismantling
import Bringup.Proofs.Simulation.InTime
import Bringup.Proofs.Simulation.Interrupted
import Bringup.Proofs.Simulation.LiveStarts
import Bringup.Proofs.Simulation.LoneStop
import Bringup.Proofs.Simulation.Standstill
import Bringup.Proofs.Simulation.StartOutcome
import Bringup.Proofs.Simulation.Teardown
import Bringup.Proofs.Simulation.Termination
import Bringup.Proofs.Simulation.Visitors
import Bringup.Proofs.Topology.Built
import Bringup.Proofs.Topology.Declarations
import Bringup.Proofs.Topology.Recursion
import Bringup.Proofs.Lifecycle.Anew
import Bringup.Proofs.Lifecycle.Settling
import Bringup.Proofs.Simulation.Begun
import Bringup.Proofs.Simulation.Cutting
import Bringup.Proofs.Graph.CyclicNode
import Bringup.Proofs.Simulation.StoreHistory
import Bringup.Proofs.Topology.CycleChecks
import Bringup.Proofs.Topology.LeastOrder
import Bringup.Proofs.Topology.OneByOne
import Bringup.Proofs.Deployment.Loading
import Bringup.Proofs.Lifecycle.Barred
import Bringup.Proofs.Simulation.Adrift
import Bringup.Proofs.Simulation.Aftermath
import Bringup.Proofs.Simulation.Isolation
import Bringup.Proofs.Simulation.LoneRestart
import Bringup.Proofs.Deployment.PortMappings
import Bringup.Proofs.EnvFile.Rendering
import Bringup.Proofs.Lifecycle.Backoff
import Bringup.Proofs.Lifecycle.Claims
import Bringup.Proofs.Engine.Accounting
import Bringup.Proofs.Docker.RunArguments
import Bringup.Proofs.Simulation.Removal
