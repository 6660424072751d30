import Bringup.Text.Blank
import Bringup.Topology.Error

/-!
# Port mappings

A port mapping makes a port of a container reachable at a port of the host. It is written
`host:container`, or as one number where both are the same; each number may stand between blanks
and after a plus sign, and must lie between 1 and 65535. `display` is the one form in which a
mapping is shown.
-/

namespace Bringup

/-- A port of the host and the container's port behind it. -/
structure PortMapping where
  host : UInt16
  container : UInt16
  deriving DecidableEq, Inhabited, Repr

namespace PortMapping

/-- The mapping as `host:container`. -/
def display (mapping : PortMapping) : String := s!"{mapping.host}:{mapping.container}"

instance : ToString PortMapping := ⟨display⟩

/-- Takes one more decimal digit into a number, unless it no longer fits 16 bits. -/
def pushDigit (n : Nat) (c : Char) : Option Nat :=
  if c.isDigit then
    let next := n * 10 + (c.toNat - '0'.toNat)
    if next < UInt16.size then some next else none
  else none

/-- The number that decimal digits stand for, if there are any and the number fits 16 bits. -/
def digits? : List Char → Option Nat
  | [] => none
  | c :: cs => (c :: cs).foldlM pushDigit 0

/-- A port number: digits after at most one plus sign, blanks around, and not zero. -/
def port? (text : List Char) : Option UInt16 :=
  let cs := Text.trim text
  match digits? ((Text.dropLead? ['+'] cs).getD cs) with
  | none => none
  | some n => if n = 0 then none else some n.toUInt16

/-- The mapping that a text stands for. -/
def ofText? (text : String) : Option PortMapping :=
  match Text.splitAt? ':' text.toList with
  | none => (port? text.toList).map fun port => ⟨port, port⟩
  | some (host, container) => do return ⟨← port? host, ← port? container⟩

/-- Reads a mapping, or reports the text as no port mapping. -/
def parse (text : String) : Except TopologyError PortMapping :=
  match ofText? text with
  | some mapping => .ok mapping
  | none => .error (.invalidPort text)

end PortMapping

end Bringup
