import Bringup.Environment
import Bringup.Toml.Document

/-!
# Descriptions of deployments

A deployment is described by a TOML document: how to start and stop it, its services and its volumes.
Each of these is a record. A record is written as a table with its field names as keys and no others,
or as an array of its fields in order, of which the last may be left out where they have a default.
-/

namespace Bringup.Deployment

/-- How services are started and stopped. -/
structure Settings where
  /-- How often a service that is not ready is asked again. -/
  maxRetries : UInt32 := 5
  /-- The wait before the first retry, in milliseconds. -/
  baseDelay : UInt64 := 250
  /-- The longest wait between two retries, in milliseconds. -/
  maxDelay : UInt64 := 5000
  /-- How long a service may take to stop, in milliseconds. -/
  stopTimeout : UInt64 := 10000
  deriving DecidableEq, Inhabited, Repr

/-- A service as described. -/
structure ServiceEntry where
  name : String
  image : String
  ports : List String := []
  /-- The path of a file with variables. -/
  envFile : Option String := none
  /-- Variables that are described with the service. -/
  environment : Environment := .empty
  dependsOn : List String := []
  requiredEnv : List String := []
  deriving DecidableEq, Inhabited

/-- A volume as described. -/
structure VolumeEntry where
  name : String
  owner : String
  mountPath : String
  deriving DecidableEq, Inhabited, Repr

/-- A described deployment. -/
structure Description where
  settings : Settings := {}
  services : List ServiceEntry := []
  volumes : List VolumeEntry := []
  deriving DecidableEq, Inhabited

/-! ### Records -/

open Toml (Value)

/-- The values of the fields of a record. -/
def fields? (names : List String) (value : Value) : Option (List (Option Value)) :=
  match value.entries?, value.items? with
  | some entries, _ =>
    if entries.all fun (key, _) => key ∈ names then some (names.map fun name => entries.lookup name)
    else none
  | none, some items => some ((List.range names.length).map fun i => items[i]?)
  | none, none => none

/-- The value of a field, which is the default where the field is left out. -/
def field? {α : Type} (read : Value → Option α) (default : α) : Option Value → Option α
  | none => some default
  | some value => read value

/-- The texts of an array of texts. -/
def texts? (value : Value) : Option (List String) := value.items?.bind fun items => items.mapM Value.text?

/-- The variables of a table of texts. -/
def environment? (value : Value) : Option Environment := do
  let entries ← value.entries?
  let pairs ← entries.mapM fun (key, value) => value.text?.map fun text => (key, text)
  return Environment.ofList pairs

/-- The settings that a value describes. -/
def Settings.ofValue? (value : Value) : Option Settings := do
  let defaults : Settings := {}
  let count (limit : Nat) (value : Value) : Option Nat := value.naturalUpTo? limit
  let names := ["max_retries", "base_delay_ms", "max_delay_ms", "stop_timeout_ms"]
  match ← fields? names value with
  | [maxRetries, baseDelay, maxDelay, stopTimeout] =>
    let millis (default : UInt64) : Option Value → Option UInt64 :=
      field? (fun value => (count (UInt64.size - 1) value).map Nat.toUInt64) default
    return {
      maxRetries := ← field? (fun value => (count (UInt32.size - 1) value).map Nat.toUInt32)
        defaults.maxRetries maxRetries
      baseDelay := ← millis defaults.baseDelay baseDelay
      maxDelay := ← millis defaults.maxDelay maxDelay
      stopTimeout := ← millis defaults.stopTimeout stopTimeout }
  | _ => none

/-- The service that a value describes. A table may leave the file with variables out, an array must
name one. -/
def ServiceEntry.ofValue? (value : Value) : Option ServiceEntry := do
  let names := ["name", "image", "ports", "env_file", "environment", "depends_on", "required_env"]
  match ← fields? names value with
  | [some name, some image, ports, envFile, environment, dependsOn, requiredEnv] =>
    let envFile ←
      match envFile with
      | some path => path.text?.map some
      | none => if value.items?.isSome then none else some none
    return {
      name := ← name.text?
      image := ← image.text?
      ports := ← field? texts? [] ports
      envFile
      environment := ← field? environment? .empty environment
      dependsOn := ← field? texts? [] dependsOn
      requiredEnv := ← field? texts? [] requiredEnv }
  | _ => none

/-- The volume that a value describes. -/
def VolumeEntry.ofValue? (value : Value) : Option VolumeEntry := do
  match ← fields? ["name", "owner", "mount_path"] value with
  | [some name, some owner, some mountPath] =>
    return { name := ← name.text?, owner := ← owner.text?, mountPath := ← mountPath.text? }
  | _ => none

/-- The deployment that a value describes. -/
def Description.ofValue? (value : Value) : Option Description := do
  match ← fields? ["orchestrator", "services", "volumes"] value with
  | [settings, services, volumes] =>
    let entries {α : Type} (read : Value → Option α) : Option Value → Option (List α) :=
      field? (fun value => value.items?.bind fun items => items.mapM read) []
    return {
      settings := ← field? Settings.ofValue? {} settings
      services := ← entries ServiceEntry.ofValue? services
      volumes := ← entries VolumeEntry.ofValue? volumes }
  | _ => none

/-- The deployment that a document describes. -/
def Description.parse? (text : String) : Option Description := do
  Description.ofValue? (.table .header (← Toml.parse? text))

end Bringup.Deployment
