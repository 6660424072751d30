import Bringup.Text.Padding
import Bringup.Topology.Basic

/-!
# Plans

A plan shows what would happen, without doing it: the order in which the services start, the one in
which they stop, and a line for each service with its image, ports and volumes.
-/

namespace Bringup.CommandLine

variable (t : Topology)

/-- The names of services in a row. -/
def arrows (services : List (Fin t.size)) : String :=
  " -> ".intercalate (services.map fun s => (t.id s).name)

/-- The line on a service. -/
def planLine (s : Fin t.size) : String :=
  let service := t.service s
  let ports := ", ".intercalate (service.ports.map PortMapping.display)
  let volumes := ", ".intercalate ((t.volumesOf s).map fun volume => s!"{volume.id}:{volume.mountPath}")
  let name := Text.padRight 16 service.id.name
  let image := Text.padRight 32 service.image
  s!"  {name} {image} ports=[{ports}] volumes=[{volumes}]\n"

/-- The plan of a topology, which has one unless its dependencies run in a circle. -/
def plan : Except TopologyError String := do
  let start ← t.startOrder
  let stop ← t.stopOrder
  let lines := (List.finRange t.size).map (planLine t)
  return s!"start: {arrows t start}\nstop:  {arrows t stop}\n" ++ String.join lines

end Bringup.CommandLine
