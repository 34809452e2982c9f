import TedgeDot.Library.LocalOnly
import TedgeDot.Runtime.Atomic

/-!
# What a command can reach

The boundary between a management command and the configuration file: which restricted keys an
accepted command can add, change or remove.
-/

namespace TedgeDot.Management

open Library

/-- The restricted keys of `[connection]` and of every device's address are as they were: a
device that was not there before has none. -/
structure LocalOnlyKept (keys : List String) (before after : Toml) : Prop where
  connection : Unchanged keys (before.get "connection") (after.get "connection")
  devices : ∀ device ∈ devices after, ∀ name, Library.deviceName device = some name →
    Unchanged keys (addressNamed before name) (device.get "protocol_address")

/-- So are those below an array. -/
structure KeptBelowArrays (keys : List String) (before after : Toml) : Prop where
  connection : UnchangedBelowArrays keys (before.get "connection") (after.get "connection")
  devices : ∀ device ∈ devices after, ∀ name, Library.deviceName device = some name →
    UnchangedBelowArrays keys (addressNamed before name) (device.get "protocol_address")

theorem unchanged_nil (before after : Option Toml) : Unchanged [] before after := by
  rintro path ⟨front, k, hk, -⟩
  cases hk

theorem changedKey_of_guard {before after : Toml} {keys : List String} (hkeys : keys ≠ [])
    (h : rejectLocalOnlySettings before after keys = .ok ()) :
    changedKey (before.get "connection") (after.get "connection") keys = none ∧
      ∀ device ∈ devices after, changedInDevice before device keys = none := by
  unfold rejectLocalOnlySettings at h
  rw [if_neg (by simpa using hkeys)] at h
  split at h
  · cases h
  · rename_i hconnection
    split at h
    · cases h
    · rename_i hdevices
      refine ⟨hconnection, fun device hdevice => ?_⟩
      have := List.findSome?_eq_none_iff.mp hdevices device hdevice
      simpa using this

theorem localOnlyKept_iff {before after : Toml} {keys : List String}
    (h : rejectLocalOnlySettings before after keys = .ok ()) :
    LocalOnlyKept keys before after ↔ KeptBelowArrays keys before after := by
  constructor
  · intro hkept
    exact ⟨fun path hpath _ => hkept.connection path hpath,
      fun device hdevice name hname path hpath _ => hkept.devices device hdevice name hname path hpath⟩
  · intro hkept
    by_cases hkeys : keys = []
    · subst hkeys
      exact ⟨unchanged_nil _ _, fun _ _ _ _ => unchanged_nil _ _⟩
    · obtain ⟨hconnection, hdevices⟩ := changedKey_of_guard hkeys h
      refine ⟨(unchanged_iff hconnection).mpr hkept.connection, fun device hdevice name hname => ?_⟩
      have hdevice' := hdevices device hdevice
      unfold changedInDevice deviceLabel at hdevice'
      rw [hname] at hdevice'
      exact (unchanged_iff hdevice').mpr (hkept.devices device hdevice name hname)

variable {M : Type}

/-- An accepted command leaves the restricted keys as they were exactly when it does so below
arrays. -/
theorem local_only_kept_iff {h : Host M} {around : Surroundings} {s : State M} {verb : String}
    {json : Json} {new : Document × ConnectorConfig}
    (haccepted : verdict h s (candidate h around s.doc verb json) = .ok new) :
    LocalOnlyKept h.localOnlySettings s.doc.toToml new.1.toToml ↔
      KeptBelowArrays h.localOnlySettings s.doc.toToml new.1.toToml := by
  apply localOnlyKept_iff
  exact (vetted_of_candidate (candidate_of_verdict haccepted).1).localOnly

/-! A password file in an array of servers. -/

def opcua : Host Unit where
  configure _ _ := ((), .ok ())
  protocol := "opcua"
  callsMethods := true
  localOnlySettings := ["password_file"]
  needsRestart _ _ := false
  same _ _ := false

def opcuaState : State Unit where
  config := { protocol := "opcua" }
  doc := [("connector", .table [("protocol", .value (.string "opcua"))])]
  file := .ok [("connector", .table [("protocol", .value (.string "opcua"))])]
  connector := ()

/-- `set-config` of `[connection]`, which resolves. -/
def serversPatch : Json :=
  .object [("target", .string "connection"),
    ("config", .object [("servers",
      .array [.object [("password_file", .string "/etc/shadow")]])])]

def serversAround : Surroundings := { resolve := fun _ => .ok { protocol := "opcua" } }

def serversDocument : Document :=
  [("connector", .table [("protocol", .value (.string "opcua"))]),
   ("connection", .table [("servers",
     .value (.array [.table [("password_file", .string "/etc/shadow")]]))])]

theorem accepted_servers :
    verdict opcua opcuaState (candidate opcua serversAround opcuaState.doc "set-config" serversPatch) =
      .ok (serversDocument, { protocol := "opcua" }) := rfl

/-- The command is accepted, and adds a restricted key to `[connection]`. -/
theorem password_file_below_array :
    verdict opcua opcuaState (candidate opcua serversAround opcuaState.doc "set-config" serversPatch) =
      .ok (serversDocument, { protocol := "opcua" }) ∧
    ¬ LocalOnlyKept opcua.localOnlySettings opcuaState.doc.toToml serversDocument.toToml := by
  refine ⟨accepted_servers, fun hkept => ?_⟩
  have hpath : Restricted opcua.localOnlySettings
      [.key "servers", .index 0, .key "password_file"] :=
    ⟨[.key "servers", .index 0], "password_file", by decide, rfl⟩
  exact absurd (hkept.connection _ hpath) (by decide)

/-- A password file below an array. -/
theorem local_only_kept_iff_servers :
    LocalOnlyKept opcua.localOnlySettings opcuaState.doc.toToml serversDocument.toToml ↔
      KeptBelowArrays opcua.localOnlySettings opcuaState.doc.toToml serversDocument.toToml :=
  local_only_kept_iff accepted_servers

end TedgeDot.Management
