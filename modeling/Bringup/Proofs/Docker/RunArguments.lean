import Bringup.Docker.Arguments
import Bringup.Proofs.Deployment.PortMappings
import Bringup.Proofs.EnvFile.Composition

/-!
# What the arguments of a run say

The arguments that run a container are a flat list of texts, and any of the texts in it may look like an
option. Still nothing is lost: after eight texts that are always there the options stand in pairs, and
what is left over is the image. So a reader that takes two texts at a time never takes a value for an
option, and each value is cut at its first separator, of which there is none in what stands before it:

    request?_runArguments : request? project (runArguments project service volumes) =
      some (.of service volumes).
-/

namespace Bringup.Docker

open Text

/-- What the arguments of a run are made from, apart from the name of the project. -/
structure Request where
  id : ServiceId
  ports : List PortMapping
  environment : Environment
  volumes : List Volume
  image : String
  deriving DecidableEq

/-- The run of a service with its volumes. -/
def Request.of (service : Service) (volumes : List Volume) : Request :=
  ⟨service.id, service.ports, service.environment, volumes, service.image⟩

/-! ## Reading arguments -/

/-- A mapping of ports, where the port zero is a port too. -/
def port? (text : String) : Option PortMapping := do
  let (host, container) ← splitAt? ':' text.toList
  return ⟨(← PortMapping.digits? host).toUInt16, (← PortMapping.digits? container).toUInt16⟩

/-- A variable and its value. -/
def setting? (text : String) : Option (String × String) :=
  (splitAt? '=' text.toList).map fun (key, value) => (.ofList key, .ofList value)

/-- A volume of the project and where it is mounted. -/
def volume? (project text : String) : Option Volume := do
  let rest ← dropLead? s!"{project}_".toList text.toList
  let (id, path) ← splitAt? ':' rest
  return ⟨⟨.ofList id⟩, .ofList path⟩

/-- What the options and the image after them say. -/
structure Options where
  ports : List PortMapping := []
  settings : List (String × String) := []
  volumes : List Volume := []
  image : String

/-- Reads options, each of them two texts, up to the image. -/
def options? (project : String) : List String → Option Options
  | [] => none
  | [image] => some { image }
  | flag :: value :: rest => do
    let options ← options? project rest
    match flag with
    | "-p" => return { options with ports := (← port? value) :: options.ports }
    | "-e" => return { options with settings := (← setting? value) :: options.settings }
    | "-v" => return { options with volumes := (← volume? project value) :: options.volumes }
    | _ => none

/-- Reads the arguments of a run. -/
def request? (project : String) : List String → Option Request
  | _ :: _ :: _ :: _ :: _ :: _ :: _ :: id :: rest => do
    let options ← options? project rest
    return ⟨⟨id⟩, options.ports, .ofList options.settings, options.volumes, options.image⟩
  | _ => none

/-! ## Reading what was written -/

theorem digits?_toDigits (port : UInt16) :
    PortMapping.digits? (Nat.toDigits 10 port.toNat) = some port.toNat :=
  PortMapping.digits?_eq_some_iff.2 ⟨Nat.toDigits_ne_nil,
    fun _ hc => Nat.isDigit_of_mem_toDigits (by decide) (by decide) hc, port.toNat_lt,
    Nat.ofDigitChars_ten_toDigits⟩

theorem port?_display (mapping : PortMapping) : port? mapping.display = some mapping := by
  have hcolon : ':' ∉ Nat.toDigits 10 mapping.host.toNat := fun hc =>
    absurd (Nat.isDigit_of_mem_toDigits (by decide) (by decide) hc) (by decide)
  rw [port?, PortMapping.toList_display, splitAt?_append _ hcolon]
  simp [digits?_toDigits]

theorem setting?_of_key {entry : String × String} (h : '=' ∉ entry.1.toList) :
    setting? s!"{entry.1}={entry.2}" = some entry := by
  have htext : s!"{entry.1}={entry.2}".toList = entry.1.toList ++ '=' :: entry.2.toList := by
    simp [toString]
  rw [setting?, htext, splitAt?_append _ h]
  simp

theorem volume?_of_id {volume : Volume} (project : String) (h : ':' ∉ volume.id.name.toList) :
    volume? project s!"{volumeName project volume.id}:{volume.mountPath}" = some volume := by
  have htext : s!"{volumeName project volume.id}:{volume.mountPath}".toList =
      s!"{project}_".toList ++ (volume.id.name.toList ++ ':' :: volume.mountPath.toList) := by
    simp [toString, volumeName]
  rw [volume?, htext, dropLead?_eq_some.2 rfl]
  simp [splitAt?_append _ h]

section Groups

variable {project : String} {rest : List String}

theorem options?_port (port : PortMapping) : options? project (portOptions port ++ rest) =
    (options? project rest).map fun options => { options with ports := port :: options.ports } := by
  simp only [portOptions, List.cons_append, List.nil_append, options?, port?_display]
  cases options? project rest <;> rfl

theorem options?_setting {entry : String × String} (h : '=' ∉ entry.1.toList) :
    options? project (variableOptions entry ++ rest) =
      (options? project rest).map fun options =>
        { options with settings := entry :: options.settings } := by
  simp only [variableOptions, List.cons_append, List.nil_append, options?, setting?_of_key h]
  cases options? project rest <;> rfl

theorem options?_volume {volume : Volume} (h : ':' ∉ volume.id.name.toList) :
    options? project (volumeOptions project volume ++ rest) =
      (options? project rest).map fun options =>
        { options with volumes := volume :: options.volumes } := by
  simp only [volumeOptions, List.cons_append, List.nil_append, options?, volume?_of_id project h]
  cases options? project rest <;> rfl

theorem options?_ports (ports : List PortMapping) :
    options? project (ports.flatMap portOptions ++ rest) =
      (options? project rest).map fun options => { options with ports := ports ++ options.ports } := by
  induction ports with
  | nil => simp
  | cons port ports ih =>
      rw [List.flatMap_cons, List.append_assoc, options?_port, ih, Option.map_map]
      rfl

theorem options?_settings {entries : List (String × String)}
    (h : ∀ entry ∈ entries, '=' ∉ entry.1.toList) :
    options? project (entries.flatMap variableOptions ++ rest) =
      (options? project rest).map fun options =>
        { options with settings := entries ++ options.settings } := by
  induction entries with
  | nil => simp
  | cons entry entries ih =>
      obtain ⟨hentry, hentries⟩ := List.forall_mem_cons.1 h
      rw [List.flatMap_cons, List.append_assoc, options?_setting hentry, ih hentries, Option.map_map]
      rfl

theorem options?_volumes {volumes : List Volume} (h : ∀ volume ∈ volumes, ':' ∉ volume.id.name.toList) :
    options? project (volumes.flatMap (volumeOptions project) ++ rest) =
      (options? project rest).map fun options =>
        { options with volumes := volumes ++ options.volumes } := by
  induction volumes with
  | nil => simp
  | cons volume volumes ih =>
      obtain ⟨hvolume, hvolumes⟩ := List.forall_mem_cons.1 h
      rw [List.flatMap_cons, List.append_assoc, options?_volume hvolume, ih hvolumes, Option.map_map]
      rfl

end Groups

/-- An environment is told by its entries. -/
theorem ofList_entries (env : Environment) : Environment.ofList env.entries = env :=
  Environment.ext_get? fun key => by
    rw [Environment.ofList, Environment.get?_setAll, Environment.get?_empty, Option.or_none,
      Environment.lastValue_entries]

/-- No separator stands in what is before it. -/
def Plain (service : Service) (volumes : List Volume) : Prop :=
  (∀ entry ∈ service.environment.entries, '=' ∉ entry.1.toList) ∧
    ∀ volume ∈ volumes, ':' ∉ volume.id.name.toList

instance (service : Service) (volumes : List Volume) : Decidable (Plain service volumes) :=
  inferInstanceAs (Decidable (_ ∧ _))

/-- **The arguments of a run are read back.** -/
theorem request?_runArguments (project : String) {service : Service} {volumes : List Volume}
    (h : Plain service volumes) :
    request? project (runArguments project service volumes) = some (.of service volumes) := by
  obtain ⟨hkeys, hids⟩ := h
  have himage : options? project [service.image] = some { image := service.image } := rfl
  simp only [runArguments, List.cons_append, List.nil_append, List.append_assoc, request?,
    options?_ports, options?_settings hkeys, options?_volumes hids, himage, Option.map_some]
  simp [Request.of, ofList_entries]

/-- **The arguments of a run lose nothing**: they can be read back with the name of the project alone, so
they are equal only if everything they were made from is. What an environment file sets has no equals sign in
a key. -/
theorem runArguments_lossless (project : String) :
    (∀ service volumes, Plain service volumes →
      request? project (runArguments project service volumes) = some (.of service volumes)) ∧
    (∀ service service' volumes volumes', Plain service volumes → Plain service' volumes' →
      runArguments project service volumes = runArguments project service' volumes' →
      service.id = service'.id ∧ service.ports = service'.ports ∧
        service.environment = service'.environment ∧ volumes = volumes' ∧
        service.image = service'.image) ∧
    ∀ text env, EnvFile.parse text = .ok env → ∀ entry ∈ env.entries, '=' ∉ entry.1.toList := by
  refine ⟨fun service volumes h => request?_runArguments project h, ?_, ?_⟩
  · intro service service' volumes volumes' h h' he
    have hread := request?_runArguments project h
    rw [he, request?_runArguments project h', Option.some.injEq] at hread
    obtain ⟨hid, hports, henv, hvolumes, himage⟩ := Request.mk.inj hread
    exact ⟨hid.symm, hports.symm, henv.symm, hvolumes.symm, himage.symm⟩
  · intro text env h entry hentry hc
    exact ((EnvFile.key_of_parse h (Environment.get?_eq_some.2 hentry)).2 _ hc).1 rfl

/-- Texts that look like options, and separators in all places where they may stand. -/
theorem runArguments_lossless_adversarial :
    let service : Service :=
      { id := ⟨"-v"⟩, image := "-p", ports := [⟨0, 80⟩, ⟨0, 80⟩]
        environment := .ofList [("-e", "-p=-v"), ("", ":= ")] }
    let volumes : List Volume := [⟨⟨"a b_=-"⟩, ":-e"⟩, ⟨⟨"-v"⟩, ""⟩]
    Plain service volumes ∧
      runArguments "-d:_" service volumes = ["run", "-d", "--name", "-d:_--v", "--network", "-d:_",
        "--network-alias", "-v", "-p", "0:80", "-p", "0:80", "-e", "=:= ", "-e", "-e=-p=-v",
        "-v", "-d:__a b_=-::-e", "-v", "-d:__-v:", "-p"] ∧
      request? "-d:_" (runArguments "-d:_" service volumes) = some (.of service volumes) := by
  intro service volumes
  have hplain : Plain service volumes := by decide +kernel
  exact ⟨hplain, by decide +kernel, (runArguments_lossless "-d:_").1 service volumes hplain⟩

end Bringup.Docker
