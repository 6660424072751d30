import Bringup.Names
import Bringup.Text.Quoted

/-!
# What can be wrong with a set of services

The causes for which a declaration of services and volumes is refused, and what each says.
-/

namespace Bringup

/-- Why a service, a port or a volume cannot be declared. -/
inductive TopologyError where
  /-- The service depends, directly or through others, on itself. -/
  | cyclicDependency (service : ServiceId)
  | unknownDependency (service dependency : ServiceId)
  | unknownOwner (volume : VolumeId) (owner : ServiceId)
  /-- `second` exposes a host port that `first` exposes already. -/
  | portConflict (port : UInt16) (first second : ServiceId)
  | duplicateService (service : ServiceId)
  | duplicateVolume (volume : VolumeId)
  | missingEnvironment (service : ServiceId) (key : String)
  /-- The text is no port mapping. -/
  | invalidPort (text : String)
  /-- The mount path of the volume is not absolute. -/
  | invalidMountPath (volume : VolumeId) (path : String)
  deriving DecidableEq, Repr

/-- What the error says. -/
def TopologyError.message : TopologyError → String
  | .cyclicDependency service => s!"Cyclic dependency involving service: {service}"
  | .unknownDependency service dependency =>
    s!"Service {service} depends on unknown service {dependency}"
  | .unknownOwner volume owner => s!"Volume {volume} is owned by unknown service {owner}"
  | .portConflict port first second =>
    s!"Host port {port} is exposed by both {first} and {second}"
  | .duplicateService service => s!"Service already declared: {service}"
  | .duplicateVolume volume => s!"Volume already declared: {volume}"
  | .missingEnvironment service key =>
    s!"Service {service} is missing required environment variable {key}"
  | .invalidPort text => s!"Invalid port mapping: {Text.quote text}"
  | .invalidMountPath volume path =>
    s!"Volume {volume} needs an absolute mount path, got {Text.quote path}"

end Bringup
