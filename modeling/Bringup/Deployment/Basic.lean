import Bringup.Deployment.Description
import Bringup.Deployment.Error
import Bringup.Lifecycle.Retry
import Bringup.Topology.Builder

/-!
# Deployments

A deployment is a topology and the way to start and stop it. It is made from a description in order:
the services with their files of variables and ports, then all of them as one batch, then the volumes.
The first of these that fails is the error.
-/

namespace Bringup

/-- A topology and how to start and stop it. -/
structure Deployment where
  topology : Topology
  config : Lifecycle.Config
  deriving Inhabited

namespace Deployment

/-- How to start and stop, from the settings. -/
def Settings.config (settings : Settings) : Lifecycle.Config where
  retry := ⟨settings.maxRetries, .ofMillis settings.baseDelay, .ofMillis settings.maxDelay⟩
  stopTimeout := .ofMillis settings.stopTimeout

/-- The variables that a file sets. -/
def readEnvFile (read : Files.Reader) (path : String) : Except Error Environment := do
  let text ← (read path).mapError (.unreadable path)
  (EnvFile.parse text).mapError (.envFile path)

/-- The service of an entry. What the entry says of a variable counts, and not what its file says. -/
def ServiceEntry.service (entry : ServiceEntry) (read : Files.Reader) (directory : String) :
    Except Error Service := do
  let fromFile ←
    match entry.envFile with
    | some path => readEnvFile read (Files.Path.join directory path)
    | none => .ok .empty
  let ports ← (entry.ports.mapM PortMapping.parse).mapError .topology
  return {
    id := ⟨entry.name⟩
    image := entry.image
    ports
    environment := fromFile.overriddenBy entry.environment
    dependsOn := .ofList (entry.dependsOn.map ServiceId.mk)
    requiredEnv := entry.requiredEnv }

/-- Declares the volume of an entry. -/
def VolumeEntry.declare (builder : Topology.Builder) (entry : VolumeEntry) :
    Except TopologyError Topology.Builder :=
  match builder.addVolume ⟨⟨entry.name⟩, entry.mountPath⟩ ⟨entry.owner⟩ with
  | (builder, .ok _) => .ok builder
  | (_, .error error) => .error error

/-- The topology of services and of the volumes of entries. -/
def assemble (services : List Service) (volumes : List VolumeEntry) :
    Except TopologyError Topology :=
  match Topology.Builder.addServices {} services with
  | (builder, .ok _) => do (← volumes.foldlM VolumeEntry.declare builder).build
  | (_, .error error) => .error error

/-- The topology that a description describes, whose files lie in a directory. -/
def Description.topology (description : Description) (read : Files.Reader) (directory : String) :
    Except Error Topology := do
  let services ← description.services.mapM fun entry => entry.service read directory
  (assemble services description.volumes).mapError .topology

/-- The description in a file. -/
def Description.load (read : Files.Reader) (path : String) : Except Error Description := do
  let text ← (read path).mapError (.unreadable path)
  match Description.parse? text with
  | some description => return description
  | none => throw .malformed

/-- The deployment that a file describes, whose files of variables lie next to it. -/
def load (read : Files.Reader) (path : String) : Except Error Deployment := do
  let description ← Description.load read path
  let directory := (Files.Path.parent? path).getD "."
  let topology ← description.topology read directory
  return { topology, config := description.settings.config }

end Deployment

end Bringup
