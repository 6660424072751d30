import Bringup.Container
import Bringup.Lifecycle.State
import Bringup.Volume.Bindings

/-!
# Why a service is not ready

The causes that a lifecycle operation records with a service or hands back, and what each says.
-/

namespace Bringup.Lifecycle

/-- Why a service is not ready, or an operation on it is refused. -/
inductive Error where
  /-- The dependency is not ready and will not become so by itself. -/
  | dependencyFailed (service dependency : ServiceId)
  /-- The container never said that it is ready. -/
  | probeTimeout (service : ServiceId) (attempts : UInt32)
  | startFailed (service : ServiceId) (source : Container.Error)
  | volume (service : ServiceId) (source : Volume.BindingError)
  | cancelled (service : ServiceId)
  | unknownService (service : ServiceId)
  | notRestartable (service : ServiceId) (state : ServiceState)
  deriving DecidableEq, Inhabited, Repr

/-- What the error says. -/
def Error.message : Error → String
  | .dependencyFailed service dependency =>
    s!"Service {service} cannot start: dependency {dependency} did not become ready"
  | .probeTimeout service attempts => s!"Service {service} not ready after {attempts} probe attempts"
  | .startFailed service source => s!"Service {service} failed to start: {source.message}"
  | .volume service source => s!"Volume binding failed for {service}: {source.message}"
  | .cancelled service => s!"Lifecycle operation on {service} was cancelled"
  | .unknownService service => s!"Unknown service: {service}"
  | .notRestartable service state =>
    s!"Service {service} cannot be restarted while {state.display}"

end Bringup.Lifecycle
