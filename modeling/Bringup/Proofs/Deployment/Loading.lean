import Bringup.Deployment.Basic
import Bringup.Proofs.Deployment.Variables
import Bringup.Proofs.Topology.Validation

/-!
# How a deployment is loaded

A description makes a topology in three parts: each entry of a service is loaded by itself, all services
are declared as one batch, and the volumes are declared behind them. For each part it is said what is in
order (`Loadable`, `Acceptable`, `Mountable`) and what can be blamed (`Fault`), so that one of the two
holds and decides what comes of the part. All that is in order is a matter of which entries there are and
not of where they stand (`Valid.perm`); what is blamed is the first that is not (`FirstFault`). So a
description makes a topology just if it is valid, and the topology has the services and volumes of the
entries, in their order (`topology_loads`).
-/

namespace Bringup

/-! ## Lists of which each member may fail -/

section Lists

variable {α β ε : Type}

theorem mapM_ok {f : α → Except ε β} {g : α → β} {xs : List α} (h : ∀ x ∈ xs, f x = .ok (g x)) :
    xs.mapM f = .ok (xs.map g) := by
  induction xs with
  | nil => rfl
  | cons x rest ih =>
      obtain ⟨hx, hrest⟩ := List.forall_mem_cons.1 h
      rw [List.mapM_cons, hx, ih hrest]
      rfl

/-- The first failure is that of the list. -/
theorem mapM_error {f : α → Except ε β} {g : α → β} {before behind : List α} {x : α} {error : ε}
    (h : ∀ y ∈ before, f y = .ok (g y)) (hx : f x = .error error) :
    (before ++ x :: behind).mapM f = .error error := by
  rw [List.mapM_append, mapM_ok h, List.mapM_cons, hx]
  rfl

end Lists

namespace Topology

/-! ## The order of a batch -/

theorem Precedes.perm {services services' : List Service} {d s : ServiceId}
    (hp : services.Perm services') (h : Precedes services d s) : Precedes services' d s := by
  obtain ⟨⟨x, hx, hd⟩, y, hy, hs⟩ := h
  exact ⟨⟨x, hp.mem_iff.1 hx, hd⟩, y, hp.mem_iff.1 hy, hs⟩

/-- **Whether a batch is accepted** is no matter of the order in which its services stand. -/
theorem Builder.Acceptable.perm {b : Builder} {batch batch' : List Service} (hp : batch.Perm batch')
    (h : b.Acceptable batch) : b.Acceptable batch' where
  distinct := (hp.map Service.id).nodup h.distinct
  fresh s hs := h.fresh s (hp.mem_iff.2 hs)
  environment s hs := h.environment s (hp.mem_iff.2 hs)
  ports := ((hp.append_left b.services).flatMap_right hosts).nodup h.ports
  known s hs id hid := by
    obtain ⟨d, hd, he⟩ := h.known s (hp.mem_iff.2 hs) id hid
    exact ⟨d, (hp.append_left b.services).mem_iff.1 hd, he⟩
  acyclic id hr := by
    refine h.acyclic id (hr.lift (fun id => id) fun d s hd => ?_)
    exact hd.perm (hp.append_left b.services).symm

end Topology

namespace Deployment

open Bringup.Topology (Builder)

variable {read : Files.Reader} {directory : String} {error : Error}

/-! ## Entries of services -/

namespace ServiceEntry

variable {entry : ServiceEntry}

/-- The path of the file with the variables of an entry. -/
def envPath (entry : ServiceEntry) (directory : String) : Option String :=
  entry.envFile.map (Files.Path.join directory)

/-- The file with the variables, if there is one, can be read, and so can all its lines. -/
def FileLoads (read : Files.Reader) (directory : String) (entry : ServiceEntry) : Prop :=
  ∀ path, entry.envPath directory = some path →
    ∃ text, read path = .ok text ∧ EnvFile.Readable text

/-- An entry can be loaded: so can its file of variables, and its ports are mappings. -/
structure Loadable (read : Files.Reader) (directory : String) (entry : ServiceEntry) : Prop where
  file : entry.FileLoads read directory
  ports : ∀ port ∈ entry.ports, ∃ mapping, PortMapping.ofText? port = some mapping

/-- What an entry can be blamed for: its file cannot be read, a line of the file sets no variable, or,
with a file that can be read, a port is no mapping. -/
inductive Fault (read : Files.Reader) (directory : String) (entry : ServiceEntry) : Error → Prop where
  | unreadable {path : String} {fault : Files.Fault} (hpath : entry.envPath directory = some path)
    (hread : read path = .error fault) : Fault read directory entry (.unreadable path fault)
  | line {path text : String} {error : EnvFile.Error} (hpath : entry.envPath directory = some path)
    (hread : read path = .ok text) (hline : EnvFile.Faulty text error) :
    Fault read directory entry (.envFile path error)
  | port {before behind : List String} {port : String} (hfile : entry.FileLoads read directory)
    (hports : entry.ports = before ++ port :: behind)
    (hbefore : ∀ p ∈ before, ∃ mapping, PortMapping.ofText? p = some mapping)
    (hport : PortMapping.ofText? port = none) :
    Fault read directory entry (.topology (.invalidPort port))

/-- The variables that the file of an entry sets, in the order of its lines. -/
def fileVariables (read : Files.Reader) (directory : String) (entry : ServiceEntry) :
    List (String × String) :=
  match entry.envPath directory with
  | none => []
  | some path => ((read path).map EnvFile.assignments).toOption.getD []

/-- The service that an entry describes. -/
def described (read : Files.Reader) (directory : String) (entry : ServiceEntry) : Service where
  id := ⟨entry.name⟩
  image := entry.image
  ports := entry.ports.filterMap PortMapping.ofText?
  environment := (Environment.ofList (entry.fileVariables read directory)).overriddenBy entry.environment
  dependsOn := .ofList (entry.dependsOn.map ServiceId.mk)
  requiredEnv := entry.requiredEnv

/-- A service is what an entry describes. -/
structure Describes (read : Files.Reader) (directory : String) (entry : ServiceEntry)
    (service : Service) : Prop where
  id : service.id.name = entry.name
  image : service.image = entry.image
  /-- One mapping for each text, in their order. -/
  ports : entry.ports.map PortMapping.ofText? = service.ports.map some
  /-- A variable has the value of the entry, and else the last one that the file gives it. -/
  environment : ∀ key, service.environment.get? key =
    (entry.environment.get? key).or
      (Environment.lastValue key (entry.fileVariables read directory))
  dependsOn : ∀ id, id ∈ service.dependsOn ↔ id.name ∈ entry.dependsOn
  requiredEnv : service.requiredEnv = entry.requiredEnv

theorem map_ofText?_of_isSome {ports : List String}
    (h : ∀ port ∈ ports, ∃ mapping, PortMapping.ofText? port = some mapping) :
    ports.map PortMapping.ofText? = (ports.filterMap PortMapping.ofText?).map some := by
  induction ports with
  | nil => rfl
  | cons port rest ih =>
      obtain ⟨⟨mapping, hport⟩, hrest⟩ := List.forall_mem_cons.1 h
      rw [List.map_cons, List.filterMap_cons_some hport, List.map_cons, hport, ih hrest]

/-- An entry that can be loaded describes its service. -/
theorem Loadable.describes (h : entry.Loadable read directory) :
    entry.Describes read directory (entry.described read directory) where
  id := rfl
  image := rfl
  ports := map_ofText?_of_isSome h.ports
  environment key := by
    rw [described, Environment.get?_overriddenBy, Environment.ofList, Environment.get?_setAll,
      Environment.get?_empty, Option.or_none]
  dependsOn id := by
    rw [described, ServiceSet.mem_ofList, List.mem_map]
    constructor
    · rintro ⟨name, hname, rfl⟩
      exact hname
    · exact fun hname => ⟨id.name, hname, rfl⟩
  requiredEnv := rfl

/-- With its file of variables an entry is loaded if its ports are mappings. -/
theorem service_of_fileLoads (h : entry.FileLoads read directory) :
    entry.service read directory = ((entry.ports.mapM PortMapping.parse).mapError .topology).map
      fun ports => { entry.described read directory with ports } := by
  unfold service
  cases hfile : entry.envFile with
  | none =>
      have hvariables : entry.fileVariables read directory = [] := by
        rw [fileVariables, envPath, hfile]
        rfl
      rw [described, hvariables]
      rfl
  | some file =>
      have hpath : entry.envPath directory = some (Files.Path.join directory file) := by
        rw [envPath, hfile]
        rfl
      obtain ⟨text, hread, hreadable⟩ := h _ hpath
      have hvariables : entry.fileVariables read directory = EnvFile.assignments text := by
        simp only [fileVariables, hpath, hread]
        rfl
      have henv : readEnvFile read (Files.Path.join directory file)
          = .ok (.ofList (EnvFile.assignments text)) := by
        rw [readEnvFile, hread]
        exact congrArg (Except.mapError _) (EnvFile.parse_of_readable hreadable)
      simp only [henv, described, hvariables]
      rfl

theorem parse_of_isSome {text : String} (h : ∃ mapping, PortMapping.ofText? text = some mapping) :
    PortMapping.parse text = .ok ((PortMapping.ofText? text).getD default) := by
  obtain ⟨mapping, h⟩ := h
  rw [PortMapping.parse, h, Option.getD_some]

theorem parse_of_none {text : String} (h : PortMapping.ofText? text = none) :
    PortMapping.parse text = .error (.invalidPort text) := by
  rw [PortMapping.parse, h]

/-- **An entry that can be loaded** makes the service that it describes. -/
theorem Loadable.service (h : entry.Loadable read directory) :
    entry.service read directory = .ok (entry.described read directory) := by
  have hports : entry.ports.mapM PortMapping.parse
      = .ok (entry.ports.filterMap PortMapping.ofText?) := by
    rw [mapM_ok fun port hp => parse_of_isSome (h.ports port hp)]
    have hmap := congrArg (List.map fun mapping => mapping.getD default) (map_ofText?_of_isSome h.ports)
    rw [List.map_map, List.map_map] at hmap
    exact congrArg Except.ok (hmap.trans (List.map_id _))
  rw [service_of_fileLoads h.file, hports]
  rfl

/-- **What an entry can be blamed for** is the error that it makes. -/
theorem Fault.service (h : entry.Fault read directory error) :
    entry.service read directory = .error error := by
  cases h with
  | unreadable hpath hread =>
      obtain ⟨file, hfile, rfl⟩ := Option.map_eq_some_iff.1 hpath
      rw [ServiceEntry.service, hfile]
      simp only [readEnvFile, hread]
      rfl
  | line hpath hread hline =>
      obtain ⟨file, hfile, rfl⟩ := Option.map_eq_some_iff.1 hpath
      rw [ServiceEntry.service, hfile]
      simp only [readEnvFile, hread, Except.mapError, bind, Except.bind, EnvFile.parse_of_faulty hline]
  | port hfile hports hbefore hport =>
      rw [service_of_fileLoads hfile, hports,
        mapM_error (fun p hp => parse_of_isSome (hbefore p hp)) (parse_of_none hport)]
      rfl

/-- An entry can be loaded or can be blamed. -/
theorem loadable_or_fault (read : Files.Reader) (directory : String) (entry : ServiceEntry) :
    entry.Loadable read directory ∨ ∃ error, entry.Fault read directory error := by
  have hports (hfile : entry.FileLoads read directory) :
      entry.Loadable read directory ∨ ∃ error, entry.Fault read directory error := by
    rcases all_or_first (fun port => ∃ mapping, PortMapping.ofText? port = some mapping) entry.ports with
      hall | ⟨before, port, behind, hports, hbefore, hport⟩
    · exact .inl ⟨hfile, hall⟩
    · have hnone : PortMapping.ofText? port = none := by
        rw [Option.eq_none_iff_forall_ne_some]
        exact fun mapping hmapping => hport ⟨mapping, hmapping⟩
      exact .inr ⟨_, .port hfile hports hbefore hnone⟩
  cases hpath : entry.envPath directory with
  | none => exact hports fun path hsome => by rw [hpath] at hsome; cases hsome
  | some path =>
      cases hread : read path with
      | error fault => exact .inr ⟨_, .unreadable hpath hread⟩
      | ok text =>
          rcases EnvFile.readable_or_faulty text with hreadable | ⟨error, hfaulty⟩
          · refine hports fun path' hsome => ?_
            obtain rfl := Option.some.inj (hpath.symm.trans hsome)
            exact ⟨text, hread, hreadable⟩
          · exact .inr ⟨_, .line hpath hread hfaulty⟩

end ServiceEntry

/-! ## Entries of volumes -/

namespace VolumeEntry

variable {b : Builder} {services : List Service} {volumes before : List VolumeEntry} {entry : VolumeEntry}

/-- The volume of an entry. -/
def decl (entry : VolumeEntry) : VolumeDecl := ⟨⟨⟨entry.name⟩, entry.mountPath⟩, ⟨entry.owner⟩⟩

/-- Volumes belong to some services, have names that differ and are mounted at absolute paths. -/
structure Mountable (services : List Service) (volumes : List VolumeEntry) : Prop where
  owners : ∀ entry ∈ volumes, ∃ s ∈ services, s.id.name = entry.owner
  distinct : (volumes.map VolumeEntry.name).Nodup
  absolute : ∀ entry ∈ volumes, entry.mountPath.toList.head? = some '/'

/-- What an entry behind some others can be blamed for: it belongs to none of the services, else one
before it has its name, else its path is not absolute. -/
inductive Fault (services : List Service) (before : List VolumeEntry) (entry : VolumeEntry) :
    TopologyError → Prop where
  | owner (h : ∀ s ∈ services, s.id.name ≠ entry.owner) :
    Fault services before entry (.unknownOwner ⟨entry.name⟩ ⟨entry.owner⟩)
  | name (howner : ∃ s ∈ services, s.id.name = entry.owner) (h : ∃ other ∈ before, other.name = entry.name) :
    Fault services before entry (.duplicateVolume ⟨entry.name⟩)
  | path (howner : ∃ s ∈ services, s.id.name = entry.owner) (hname : ∀ other ∈ before, other.name ≠ entry.name)
    (h : entry.mountPath.toList.head? ≠ some '/') :
    Fault services before entry (.invalidMountPath ⟨entry.name⟩ entry.mountPath)

theorem Mountable.perm {services' : List Service} {volumes' : List VolumeEntry}
    (hs : services.Perm services') (hv : volumes.Perm volumes') (h : Mountable services volumes) :
    Mountable services' volumes' where
  owners entry he := by
    obtain ⟨s, hm, hid⟩ := h.owners entry (hv.mem_iff.2 he)
    exact ⟨s, hs.mem_iff.1 hm, hid⟩
  distinct := (hv.map VolumeEntry.name).nodup h.distinct
  absolute entry he := h.absolute entry (hv.mem_iff.2 he)

theorem Mountable.concat (h : Mountable services volumes) (howner : ∃ s ∈ services, s.id.name = entry.owner)
    (hname : ¬ ∃ other ∈ volumes, other.name = entry.name)
    (hpath : entry.mountPath.toList.head? = some '/') : Mountable services (volumes ++ [entry]) where
  owners := by simpa [or_imp, forall_and] using ⟨h.owners, howner⟩
  distinct := by
    rw [List.map_append, List.map_singleton, ← List.concat_eq_append, List.nodup_concat]
    exact ⟨by simpa using hname, h.distinct⟩
  absolute := by simpa [or_imp, forall_and] using ⟨h.absolute, hpath⟩

/-- The volumes of entries are in order, or there is a first one that can be blamed. -/
theorem mountable_or_fault (services : List Service) (volumes : List VolumeEntry) :
    Mountable services volumes ∨ ∃ before entry behind error, volumes = before ++ entry :: behind ∧
      Mountable services before ∧ entry.Fault services before error := by
  induction volumes using List.reverseRecOn with
  | nil => exact .inl ⟨by simp, List.nodup_nil, by simp⟩
  | append_singleton volumes entry ih =>
      rcases ih with hm | ⟨before, first, behind, error, rfl, hm, hfault⟩
      · by_cases howner : ∃ s ∈ services, s.id.name = entry.owner
        · by_cases hname : ∃ other ∈ volumes, other.name = entry.name
          · exact .inr ⟨volumes, entry, [], _, rfl, hm, .name howner hname⟩
          · by_cases hpath : entry.mountPath.toList.head? = some '/'
            · exact .inl (hm.concat howner hname hpath)
            · exact .inr ⟨volumes, entry, [], _, rfl, hm, .path howner (by simpa using hname) hpath⟩
        · exact .inr ⟨volumes, entry, [], _, rfl, hm, .owner (by simpa using howner)⟩
      · exact .inr ⟨before, first, behind ++ [entry], error, by simp, hm, hfault⟩

theorem declare_eq (b : Builder) (entry : VolumeEntry) :
    entry.declare b = b.attempt (.volume entry.decl.volume entry.decl.owner) := by
  have htake : b.addVolume ⟨⟨entry.name⟩, entry.mountPath⟩ ⟨entry.owner⟩
      = b.settle (b.attempt (.volume entry.decl.volume entry.decl.owner)) :=
    Builder.take_eq (.volume entry.decl.volume entry.decl.owner)
  rw [declare, htake]
  cases b.attempt (.volume entry.decl.volume entry.decl.owner) <;> rfl

theorem owner_known (h : b.Sound) (howner : ∃ s ∈ b.services, s.id.name = entry.owner) :
    ¬ (b.position? entry.decl.owner).isNone := by
  obtain ⟨s, hs, hid⟩ := howner
  exact fun hnone => h.position?_isNone.1 hnone s hs (congrArg ServiceId.mk hid)

theorem any_name (hv : b.volumes = before.map decl) :
    (b.volumes.any fun decl => decl.volume.id = entry.decl.volume.id) = true ↔
      ∃ other ∈ before, other.name = entry.name := by
  simp [hv, decl]

/-- An entry that fits behind the volumes of a builder is declared. -/
theorem declare_of_fits (h : b.Sound) (hv : b.volumes = before.map decl)
    (hm : Mountable b.services (before ++ [entry])) :
    entry.declare b = .ok { b with volumes := (before ++ [entry]).map decl } := by
  have howner := owner_known h (hm.owners entry (by simp))
  have hpath : entry.decl.volume.mountPath.toList.head? = some '/' := hm.absolute entry (by simp)
  have hname : ¬ (b.volumes.any fun decl => decl.volume.id = entry.decl.volume.id) = true := by
    rw [any_name hv]
    have hdistinct := hm.distinct
    rw [List.map_append, List.map_singleton, ← List.concat_eq_append, List.nodup_concat] at hdistinct
    simpa using hdistinct.1
  rw [declare_eq, Builder.attempt, if_neg howner, if_neg hname, if_neg (not_not.2 hpath), hv,
    List.map_append]
  rfl

/-- **What an entry can be blamed for** is the error that it makes. -/
theorem Fault.declare {error : TopologyError} (h : b.Sound) (hv : b.volumes = before.map decl)
    (hf : entry.Fault b.services before error) : entry.declare b = .error error := by
  rw [declare_eq, Builder.attempt]
  cases hf with
  | owner hnone =>
      have hposition : (b.position? entry.decl.owner).isNone :=
        h.position?_isNone.2 fun s hs he => hnone s hs (congrArg ServiceId.name he)
      rw [if_pos hposition]
      rfl
  | name howner hother =>
      rw [if_neg (owner_known h howner), if_pos ((any_name hv).2 hother)]
      rfl
  | path howner hname hpath =>
      have hnew : ¬ (b.volumes.any fun decl => decl.volume.id = entry.decl.volume.id) = true := by
        rw [any_name hv]
        simpa using hname
      have hrelative : entry.decl.volume.mountPath.toList.head? ≠ some '/' := hpath
      rw [if_neg (owner_known h howner), if_neg hnew, if_pos hrelative]
      rfl

/-- Volumes in order are all declared, behind those that are. -/
theorem foldlM_declare (h : b.Represents) (hv : b.volumes = before.map decl)
    (hm : Mountable b.services (before ++ volumes)) :
    volumes.foldlM declare b = .ok { b with volumes := (before ++ volumes).map decl } := by
  induction volumes generalizing b before with
  | nil =>
      rw [List.append_nil, ← hv]
      rfl
  | cons entry rest ih =>
      rw [List.append_cons] at hm ⊢
      have hfirst : Mountable b.services (before ++ [entry]) :=
        ⟨fun e he => hm.owners e (List.mem_append_left _ he),
          (List.map_append ▸ hm.distinct).of_append_left,
          fun e he => hm.absolute e (List.mem_append_left _ he)⟩
      have hdeclare := declare_of_fits h.toSound hv hfirst
      have hnext := h.addVolume entry.decl.volume entry.decl.owner
      have htake := Builder.take_ok (declare_eq b entry ▸ hdeclare)
      rw [show b.addVolume _ _ = _ from htake.1] at hnext
      rw [List.foldlM_cons, hdeclare]
      exact ih hnext rfl hm

/-- **Volumes in order are all declared**, and nothing else changes. -/
theorem exists_foldlM (h : b.Represents) (hv : b.volumes = []) (hm : Mountable b.services volumes) :
    ∃ last, volumes.foldlM declare b = .ok last ∧ last.services = b.services ∧
      last.volumes = volumes.map decl ∧ last.refused = b.refused :=
  have hnone : b.volumes = ([] : List VolumeEntry).map decl := hv
  ⟨_, foldlM_declare h hnone hm, rfl, rfl, rfl⟩

/-- The parts of a builder agree behind the volumes that it has declared. -/
theorem represents_foldlM {b' : Builder} (h : b.Represents) (hd : volumes.foldlM declare b = .ok b') :
    b'.Represents := by
  refine Builder.foldlM_keeps (fun {b entry b'} hb he => ?_) volumes h hd
  have hnext := hb.addVolume entry.decl.volume entry.decl.owner
  have htake := Builder.take_ok (declare_eq b entry ▸ he)
  rwa [show b.addVolume _ _ = _ from htake.1] at hnext

end VolumeEntry

/-! ## Descriptions -/

namespace Description

variable {description : Description}

/-- The services that the entries of a description describe. -/
def described (description : Description) (read : Files.Reader) (directory : String) : List Service :=
  description.services.map (ServiceEntry.described read directory)

/-- All entries can be loaded, and their services and volumes can be declared. -/
structure Valid (read : Files.Reader) (directory : String) (description : Description) : Prop where
  loads : ∀ entry ∈ description.services, entry.Loadable read directory
  services : Builder.Acceptable {} (description.described read directory)
  volumes : VolumeEntry.Mountable (description.described read directory) description.volumes

/-- What comes first of what a description can be blamed for: the first entry of a service that cannot be
loaded, else an error in the batch of the services, else the first volume that cannot be declared. -/
inductive FirstFault (read : Files.Reader) (directory : String) (description : Description) :
    Error → Prop where
  | entry {before behind : List ServiceEntry} {entry : ServiceEntry} {error : Error}
    (hservices : description.services = before ++ entry :: behind)
    (hbefore : ∀ other ∈ before, other.Loadable read directory)
    (h : entry.Fault read directory error) : FirstFault read directory description error
  | batch {error : TopologyError}
    (hloads : ∀ entry ∈ description.services, entry.Loadable read directory)
    (h : (Builder.addServices {} (description.described read directory)).2 = .error error)
    (hjustified : Builder.Justified {} (description.described read directory) error) :
    FirstFault read directory description (.topology error)
  | volume {before behind : List VolumeEntry} {entry : VolumeEntry} {error : TopologyError}
    (hloads : ∀ entry ∈ description.services, entry.Loadable read directory)
    (hservices : Builder.Acceptable {} (description.described read directory))
    (hvolumes : description.volumes = before ++ entry :: behind)
    (hbefore : VolumeEntry.Mountable (description.described read directory) before)
    (h : entry.Fault (description.described read directory) before error) :
    FirstFault read directory description (.topology error)

/-- **Where the entries stand** is no matter of whether a description is valid. -/
theorem Valid.perm {other : Description} (hs : description.services.Perm other.services)
    (hv : description.volumes.Perm other.volumes) (h : description.Valid read directory) :
    other.Valid read directory where
  loads entry he := h.loads entry (hs.mem_iff.2 he)
  services := h.services.perm (hs.map _)
  volumes := h.volumes.perm (hs.map _) hv

/-- The topology of entries that can all be loaded. -/
theorem topology_of_loads (h : ∀ entry ∈ description.services, entry.Loadable read directory) :
    description.topology read directory
      = (assemble (description.described read directory) description.volumes).mapError .topology := by
  have hservices : description.services.mapM (fun entry => entry.service read directory)
      = .ok (description.described read directory) :=
    mapM_ok fun entry he => (h entry he).service
  rw [topology, hservices]
  rfl

/-- The builder with an acceptable batch. -/
theorem exists_declared {batch : List Service} (h : Builder.Acceptable {} batch) :
    ∃ b : Builder, Builder.addServices {} batch = (b, .ok ()) ∧ b.Represents ∧ b.services = batch ∧
      b.volumes = [] ∧ b.refused = none := by
  have hempty := Builder.represents_empty
  have hok := (Builder.addServices_ok_iff hempty.toAgrees).2 h
  rw [Builder.addServices] at hok ⊢
  cases hstage : Builder.stage {} batch with
  | error error =>
      rw [hstage] at hok
      cases hok
  | ok b =>
      obtain ⟨-, hservices, hvolumes⟩ := hempty.toAgrees.draw (Builder.stage_ok hstage).1
      have hattempt : Builder.attempt {} (.services batch) = .ok b := hstage
      exact ⟨b, rfl, hempty.stage hstage, hservices, hvolumes, (Builder.take_ok hattempt).2⟩

/-- What is left of a topology once its services are declared. -/
theorem assemble_of_declared {batch : List Service} {volumes : List VolumeEntry} {b : Builder}
    (hb : Builder.addServices {} batch = (b, .ok ())) :
    assemble batch volumes = (volumes.foldlM VolumeEntry.declare b).bind Builder.build := by
  rw [assemble, hb]
  rfl

/-- **A valid description** makes a topology with its services and volumes. -/
theorem Valid.topology (h : description.Valid read directory) :
    ∃ t, description.topology read directory = .ok t ∧
      t.services = description.described read directory ∧
      t.volumes = description.volumes.map VolumeEntry.decl := by
  obtain ⟨b, hb, hrepresents, hservices, hvolumes, hrefused⟩ := exists_declared h.services
  obtain ⟨last, hfold, hservices', hvolumes', hrefused'⟩ :=
    VolumeEntry.exists_foldlM hrepresents hvolumes (hservices ▸ h.volumes)
  have hbuild := (VolumeEntry.represents_foldlM hrepresents hfold).build_eq
  rw [hrefused', hrefused] at hbuild
  refine ⟨last.declared, ?_, hservices'.trans hservices, hvolumes'⟩
  rw [topology_of_loads h.loads, assemble_of_declared hb, hfold, Except.bind, hbuild]
  rfl

/-- **What comes first of what a description can be blamed for** is the error that it makes. -/
theorem FirstFault.topology (h : description.FirstFault read directory error) :
    description.topology read directory = .error error := by
  cases h with
  | entry hservices hbefore h =>
      rw [Description.topology, hservices, mapM_error (fun other ho => (hbefore other ho).service) h.service]
      rfl
  | batch hloads h hjustified =>
      rw [topology_of_loads hloads, assemble]
      revert h
      rcases Builder.addServices {} (description.described read directory) with ⟨b, result⟩
      rintro rfl
      rfl
  | volume hloads hservices hvolumes hbefore h =>
      obtain ⟨b, hb, hrepresents, hdeclared, hnone, -⟩ := exists_declared hservices
      obtain ⟨mid, hmid, hdeclared', hvolumes', -⟩ :=
        VolumeEntry.exists_foldlM hrepresents hnone (hdeclared ▸ hbefore)
      have hfails := VolumeEntry.Fault.declare (VolumeEntry.represents_foldlM hrepresents hmid).toSound
        hvolumes' (hdeclared'.trans hdeclared ▸ h)
      rw [topology_of_loads hloads, assemble_of_declared hb, hvolumes, List.foldlM_append, hmid]
      simp only [bind, Except.bind, List.foldlM_cons, hfails]
      rfl

/-- A description is valid or can be blamed. -/
theorem valid_or_fault (read : Files.Reader) (directory : String) (description : Description) :
    description.Valid read directory ∨ ∃ error, description.FirstFault read directory error := by
  rcases all_or_first (ServiceEntry.Loadable read directory) description.services with
    hloads | ⟨before, entry, behind, hservices, hbefore, hentry⟩
  · cases hbatch : (Builder.addServices {} (description.described read directory)).2 with
    | error error =>
        have hjustified := Builder.addServices_error Builder.represents_empty.toAgrees hbatch
        exact .inr ⟨_, .batch hloads hbatch hjustified⟩
    | ok done =>
        have hacceptable := (Builder.addServices_ok_iff Builder.represents_empty.toAgrees).1 hbatch
        rcases VolumeEntry.mountable_or_fault (description.described read directory) description.volumes with
          hvolumes | ⟨before, entry, behind, error, hvolumes, hbefore, hfault⟩
        · exact .inl ⟨hloads, hacceptable, hvolumes⟩
        · exact .inr ⟨_, .volume hloads hacceptable hvolumes hbefore hfault⟩
  · obtain ⟨error, hfault⟩ := (ServiceEntry.loadable_or_fault read directory entry).resolve_left hentry
    exact .inr ⟨error, .entry hservices hbefore hfault⟩

/-- **Deployments are loaded faithfully, whatever the order of their entries.** A description makes a
topology just if it is valid: each file of variables can be read and so can its lines, each text of a port
is a mapping, the services make an acceptable batch and the volumes can be mounted. The topology has one
service for each entry and one volume for each entry, in their order, and each service is what its entry
describes. Where the description is not valid, the error is the first of those for which it can be blamed.
And whether it makes a topology is the same for all descriptions with the same entries. -/
theorem topology_loads (description : Description) (read : Files.Reader) (directory : String) :
    ((∃ t, description.topology read directory = .ok t) ↔ description.Valid read directory) ∧
    (∀ t, description.topology read directory = .ok t →
      List.Forall₂ (ServiceEntry.Describes read directory) description.services t.services ∧
      t.volumes = description.volumes.map VolumeEntry.decl) ∧
    (∀ error, description.topology read directory = .error error ↔
      description.FirstFault read directory error) ∧
    ∀ other : Description, other.services.Perm description.services →
      other.volumes.Perm description.volumes →
      ((∃ t, other.topology read directory = .ok t) ↔
        ∃ t, description.topology read directory = .ok t) := by
  have hvalid (description : Description) :
      (∃ t, description.topology read directory = .ok t) ↔ description.Valid read directory := by
    constructor
    · rintro ⟨t, ht⟩
      refine (valid_or_fault read directory description).resolve_right fun ⟨error, hfault⟩ => ?_
      rw [hfault.topology] at ht
      cases ht
    · intro h
      obtain ⟨t, ht, -⟩ := h.topology
      exact ⟨t, ht⟩
  refine ⟨hvalid description, fun t ht => ?_, fun error => ⟨fun he => ?_, fun h => h.topology⟩,
    fun other hs hv => ?_⟩
  · have h := (hvalid description).1 ⟨t, ht⟩
    obtain ⟨t', ht', hservices, hvolumes⟩ := h.topology
    obtain rfl := Except.ok.inj (ht.symm.trans ht')
    refine ⟨?_, hvolumes⟩
    rw [hservices, described, List.forall₂_map_right_iff, List.forall₂_same]
    exact fun entry he => (h.loads entry he).describes
  · rcases valid_or_fault read directory description with h | ⟨error', hfault⟩
    · obtain ⟨t, ht, -⟩ := h.topology
      rw [ht] at he
      cases he
    · obtain rfl := Except.error.inj (he.symm.trans hfault.topology)
      exact hfault
  · rw [hvalid other, hvalid description]
    exact ⟨fun h => h.perm hs hv, fun h => h.perm hs.symm hv.symm⟩

end Description

end Deployment

end Bringup
