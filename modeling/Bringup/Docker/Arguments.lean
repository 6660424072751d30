import Bringup.Container
import Bringup.Text.Blank

/-!
# Docker commands

The names under which a project keeps its containers and volumes, and the arguments of the commands
that run, stop and inspect them. Containers join the network of the project under the name of their
service, so that services reach each other by name.
-/

namespace Bringup.Docker

/-- The name of the container of a service. -/
def containerName (project : String) (service : ServiceId) : String := s!"{project}-{service}"

/-- The name of a volume. -/
def volumeName (project : String) (volume : VolumeId) : String := s!"{project}_{volume}"

/-- The options that expose a port. -/
def portOptions (port : PortMapping) : List String := ["-p", port.display]

/-- The options that set a variable. -/
def variableOptions (entry : String × String) : List String :=
  ["-e", s!"{entry.1}={entry.2}"]

/-- The options that mount a volume. -/
def volumeOptions (project : String) (volume : Volume) : List String :=
  ["-v", s!"{volumeName project volume.id}:{volume.mountPath}"]

/-- Runs the container of a service in the background. -/
def runArguments (project : String) (service : Service) (volumes : List Volume) : List String :=
  ["run", "-d", "--name", containerName project service.id, "--network", project,
    "--network-alias", service.id.name] ++
  service.ports.flatMap portOptions ++
  service.environment.entries.flatMap variableOptions ++
  volumes.flatMap (volumeOptions project) ++
  [service.image]

/-- Asks a container to stop, within so many whole seconds. -/
def stopArguments (handle : Container.Handle) (timeout : Duration) : List String :=
  ["stop", "-t", toString timeout.wholeSeconds, handle.id]

/-- Prints the health of a container, or its state where the image knows of no health. -/
def statusFormat : String :=
  "\x7b\x7bif .State.Health\x7d\x7d\x7b\x7b.State.Health.Status\x7d\x7d\x7b\x7belse\x7d\x7d\x7b\x7b.State.Status\x7d\x7d\x7b\x7bend\x7d\x7d"

/-- Asks for the status of a container. -/
def inspectArguments (handle : Container.Handle) : List String :=
  ["inspect", "--format", statusFormat, handle.id]

/-- Whether a container with a status can be used. -/
def probeOf (status : String) : Container.Probe :=
  let status := String.ofList (Text.trim status.toList)
  if status ∈ ["healthy", "running"] then .ready
  else if status ∈ ["starting", "created", "restarting"] then .notReady
  else .errored s!"container is {status}"

end Bringup.Docker
