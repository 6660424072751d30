import Bringup.Service

/-!
# Volume bindings

The table that says which service each known volume is bound to. A volume has at most one owner at a
time; binding it again to its owner changes nothing, and a volume in use cannot be forgotten.
-/

namespace Bringup.Volume

/-- Why a request about a volume is refused. -/
inductive BindingError where
  | alreadyBound (volume : VolumeId) (owner : ServiceId)
  | inUse (volume : VolumeId) (owner : ServiceId)
  | unknown (volume : VolumeId)
  /-- Nobody serves the table. -/
  | closed
  /-- The request was taken and never answered. -/
  | dropped
  deriving DecidableEq, Inhabited, Repr

/-- What the error says. -/
def BindingError.message : BindingError → String
  | .alreadyBound volume owner => s!"Volume {volume} is already bound to {owner}"
  | .inUse volume owner => s!"Volume {volume} is in use by {owner}"
  | .unknown volume => s!"Unknown volume: {volume}"
  | .closed => "Volume store closed"
  | .dropped => "Volume store dropped response channel"

/-- A known volume and the service it is bound to. -/
structure Binding where
  volume : Volume
  owner : Option ServiceId := none
  /-- How often the volume went from unbound to bound. -/
  attachCount : Nat := 0
  deriving DecidableEq, Inhabited, Repr

/-- A known volume's name. -/
abbrev Binding.id (binding : Binding) : VolumeId := binding.volume.id

/-- What the table can be asked. -/
inductive Request where
  | register (volume : Volume)
  | attach (volume : VolumeId) (service : ServiceId)
  | detach (volume : VolumeId)
  | destroy (volume : VolumeId)
  | binding (volume : VolumeId)
  deriving DecidableEq, Inhabited, Repr

/-- What the table answers to the request of the same name. -/
inductive Answer where
  | registered
  /-- Whether the volume was unbound before. -/
  | attached (fresh : Bool)
  /-- The owner the volume was taken from. -/
  | detached (previous : Option ServiceId)
  | destroyed
  | binding (binding : Option Binding)
  deriving DecidableEq, Inhabited, Repr

/-- The known volumes, each once. -/
structure Bindings where
  entries : List Binding := []
  deriving DecidableEq, Inhabited, Repr

namespace Bindings

/-- The binding of a volume, if the volume is known. -/
def get? (table : Bindings) (volume : VolumeId) : Option Binding :=
  table.entries.find? fun binding => binding.id = volume

/-- The table with a binding in the place of the one of the same volume. -/
def put (table : Bindings) (binding : Binding) : Bindings :=
  if (table.get? binding.id).isSome then
    ⟨table.entries.map fun old => if old.id = binding.id then binding else old⟩
  else ⟨table.entries ++ [binding]⟩

/-- The table without a volume. -/
def erase (table : Bindings) (volume : VolumeId) : Bindings :=
  ⟨table.entries.filter fun binding => binding.id ≠ volume⟩

/-- The table of unbound volumes, where the last of a name counts. -/
def ofVolumes (volumes : List Volume) : Bindings :=
  volumes.foldl (fun table volume => table.put { volume }) {}

/-- Makes a volume known; a known one keeps its binding. -/
def register (table : Bindings) (volume : Volume) : Bindings :=
  match table.get? volume.id with
  | some _ => table
  | none => table.put { volume }

/-- Binds a volume to a service, and says whether it was unbound. -/
def attach (table : Bindings) (volume : VolumeId) (service : ServiceId) :
    Bindings × Except BindingError Bool :=
  match table.get? volume with
  | none => (table, .error (.unknown volume))
  | some binding =>
    match binding.owner with
    | some owner =>
      if owner = service then (table, .ok false) else (table, .error (.alreadyBound volume owner))
    | none =>
      (table.put { binding with owner := some service, attachCount := binding.attachCount + 1 },
        .ok true)

/-- Unbinds a volume, and says from whom. -/
def detach (table : Bindings) (volume : VolumeId) :
    Bindings × Except BindingError (Option ServiceId) :=
  match table.get? volume with
  | none => (table, .error (.unknown volume))
  | some binding => (table.put { binding with owner := none }, .ok binding.owner)

/-- Forgets an unbound volume. -/
def destroy (table : Bindings) (volume : VolumeId) : Bindings × Except BindingError Unit :=
  match table.get? volume with
  | none => (table, .error (.unknown volume))
  | some binding =>
    match binding.owner with
    | some owner => (table, .error (.inUse volume owner))
    | none => (table.erase volume, .ok ())

/-- Serves one request. -/
def serve (table : Bindings) : Request → Bindings × Except BindingError Answer
  | .register volume => (table.register volume, .ok .registered)
  | .attach volume service =>
    let (table, result) := table.attach volume service
    (table, result.map .attached)
  | .detach volume =>
    let (table, result) := table.detach volume
    (table, result.map .detached)
  | .destroy volume =>
    let (table, result) := table.destroy volume
    (table, result.map fun _ => .destroyed)
  | .binding volume => (table, .ok (.binding (table.get? volume)))

end Bindings

end Bringup.Volume
