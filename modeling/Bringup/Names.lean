/-!
# Names of services and volumes

Services and volumes are told apart by name. The two kinds of name are types of their own, so that
a service can never stand where a volume is meant.
-/

namespace Bringup

/-- The name of a service. -/
structure ServiceId where
  name : String
  deriving DecidableEq, Inhabited, Repr

/-- The name of a volume. -/
structure VolumeId where
  name : String
  deriving DecidableEq, Inhabited, Repr

instance : ToString ServiceId := ⟨ServiceId.name⟩

instance : ToString VolumeId := ⟨VolumeId.name⟩

end Bringup
