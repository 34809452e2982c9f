import TedgeDot.Flows.Descriptors

/-!
# `ot-registration`

A device is registered once its connector reports a connected link, and a registered device that has
methods advertises them. The methods come with the capability descriptors of the services, and all
services share one place for the methods of a device.

The store is the one of one device: every key of the mapper's store that belongs to it. The methods
are kept as text; `stringify` is `JSON.stringify` and `parse` is `JSON.parse`.

## Main result

- `methods_advertised`: where at no moment two services list methods of the device, what is kept and
  what is retained are the methods of the latest descriptors.
-/

namespace TedgeDot.Flows.Registration

open TedgeDot.Machine TedgeDot.Latest
open TedgeDot.Flows.ParameterState (inherited addTo mem_addTo)

/-! ## The flow -/

/-- The flow's configuration and the texts of JSON values. A text is never empty, and reading a text
and writing it again gives the same text. -/
structure Config where
  deviceType : String
  commandCapabilities : String
  twinFragment : String
  stringify : Json → String
  parse : String → Json
  stringify_ne : ∀ v, stringify v ≠ ""
  stringify_parse : ∀ v, stringify (parse (stringify v)) = stringify v

structure Device where
  /-- `registered:<device>` -/
  registered : Bool
  /-- `methods:<device>` -/
  methods : Option String
  /-- `method-devices:<service>`, by the services whose list has the device. -/
  listing : List String

def Device.empty : Device where
  registered := false
  methods := none
  listing := []

/-- A message the flow publishes; all of them are retained. -/
structure Published where
  topic : Topic
  payload : String

/-- A message for the device, with its payload where that is JSON: the descriptor of a service, or
the link status of a protocol. -/
inductive Event where
  | capabilities (service : String) (payload : Option Json)
  | link (protocol : String) (payload : Option Json)

def methodCommand : String := "ot_call_method"

def commandTopic (device capability : String) : Topic :=
  ["te", "device", device, "", "", "cmd", capability]

/-- `JSON.stringify({ methods })` -/
def methodsText (cfg : Config) (methods : Json) : String :=
  "\x7b\"methods\":" ++ cfg.stringify methods ++ "\x7d"

/-- The capability of a device with these methods; an empty message where there are none. -/
def methodCapability (cfg : Config) (device : String) (methods : Option Json) : Published where
  topic := commandTopic device methodCommand
  payload := methods.elim "" (methodsText cfg)

/-- The methods of a descriptor, each with its device; none where the flow fails. -/
def methodsOf (descriptor : Json) : Option (List (String × Json)) :=
  let listed := match descriptor.get "methods" with
    | some (.array items) => items
    | _ => []
  let entries := listed.filterMap fun m =>
    match m, (m.get "device").bind Json.asStr, (m.get "point").bind Json.asStr with
    | .object members, some device, some _ =>
      some (device, Json.object (members.filter fun x => x.1 != "device"))
    | _, _, _ => none
  if entries.any fun e => inherited.contains e.1 then none else some entries

/-- `onCapabilities`, of what concerns the device. -/
def onCapabilities (cfg : Config) (device : String) (s : Device) (service : String)
    (descriptor : Json) : Device × List Published :=
  match methodsOf descriptor with
  | none => (s, [])
  | some entries =>
    let methods := (entries.filter fun e => e.1 = device).map (·.2)
    if methods = [] then
      if service ∈ s.listing then
        ({ s with methods := none, listing := s.listing.filter fun d => d ≠ service },
          if s.registered then [methodCapability cfg device none] else [])
      else (s, [])
    else
      let json := cfg.stringify (.array methods)
      if s.methods = some json then ({ s with listing := addTo s.listing service }, [])
      else
        ({ s with methods := some json, listing := addTo s.listing service },
          if s.registered then [methodCapability cfg device (some (.array methods))] else [])

/-- White space, as `trim` takes it. -/
def isSpaceJs (c : Char) : Bool :=
  (9 ≤ c.toNat && c.toNat ≤ 13) || (0x2000 ≤ c.toNat && c.toNat ≤ 0x200a) ||
    [0x20, 0xa0, 0x1680, 0x2028, 0x2029, 0x202f, 0x205f, 0x3000, 0xfeff].contains c.toNat

def trimJs (cs : List Char) : List Char :=
  ((cs.dropWhile isSpaceJs).reverse.dropWhile isSpaceJs).reverse

/-- The command types to advertise on every device. -/
def commandCapabilities (cfg : Config) : List String :=
  let caps := if cfg.commandCapabilities = "" then "ot_write,ot_write_coil,parameter_update"
    else cfg.commandCapabilities
  (((caps.toList.splitOn ',').map trimJs).filter fun cs => cs != []).map String.ofList

def registration (cfg : Config) (device protocol : String) (payload : Option Json) : Published where
  topic := ["te", "device", device, "", ""]
  payload :=
    let declared := ((payload.bind (·.get "type")).bind Json.asStr).filter fun type => type != ""
    let other := if cfg.deviceType = "" then protocol ++ "-device" else cfg.deviceType
    cfg.stringify (.object [("@type", .string "child-device"), ("name", .string device),
      ("type", .string (declared.getD other)), ("ot-protocol", .string protocol)])

/-- What is published when a device is registered. -/
def registered (cfg : Config) (device protocol : String) (payload : Option Json) (s : Device) :
    List Published :=
  registration cfg device protocol payload ::
    (commandCapabilities cfg).map (fun cap => ⟨commandTopic device cap, "\x7b\x7d"⟩) ++
    ((s.methods.filter fun text => text != "").map fun text =>
      methodCapability cfg device (some (cfg.parse text))).toList ++
    (((payload.bind (·.get "info")).filter fun info => isObject info && cfg.twinFragment != "").map
      fun info => ⟨["te", "device", device, "", "", "twin", cfg.twinFragment],
        cfg.stringify info⟩).toList

/-- Whether a link status registers the device. -/
def connects (device : String) (payload : Option Json) : Bool :=
  device != "" && device != "main" &&
    ((payload.bind (·.get "status")).bind Json.asStr).getD "connected" == "connected"

def onLink (cfg : Config) (device : String) (s : Device) (protocol : String)
    (payload : Option Json) : Device × List Published :=
  if connects device payload then
    if s.registered then (s, [])
    else ({ s with registered := true }, registered cfg device protocol payload s)
  else (s, [])

def onMessage (cfg : Config) (device : String) (s : Device) : Event → Device × List Published
  | .capabilities service (some descriptor) => onCapabilities cfg device s service descriptor
  | .capabilities _ none => (s, [])
  | .link protocol payload => onLink cfg device s protocol payload

/-! ## The broker -/

/-- The flow's store of a device, with the retained messages. -/
structure Registry where
  store : Device
  retained : Topic → Option String

def Registry.initial : Registry where
  store := Device.empty
  retained _ := none

/-- A retained message; an empty one removes what is there. -/
def publish (retained : Topic → Option String) (messages : List Published) :
    Topic → Option String :=
  messages.foldl (fun retained m =>
    Function.update retained m.topic (if m.payload = "" then none else some m.payload)) retained

def Registry.step (cfg : Config) (device : String) (t : Registry) (event : Event) :
    Registry × Unit :=
  let next := onMessage cfg device t.store event
  ({ store := next.1, retained := publish t.retained next.2 }, ())

/-! ## What is kept and retained -/

/-- The methods a descriptor lists of the device, by its service. -/
def listed (device : String) : Event → Option (String × List Json)
  | .capabilities service (some descriptor) =>
    (methodsOf descriptor).map fun entries =>
      (service, (entries.filter fun e => e.1 = device).map (·.2))
  | _ => none

/-- Whether a message registers the device. -/
def registers (device : String) : Event → Bool
  | .link _ payload => connects device payload
  | .capabilities _ _ => false

/-- The device has these methods: they are kept, and once it is registered they are retained. -/
structure Advertises (cfg : Config) (device : String) (methods : List Json) (t : Registry) :
    Prop where
  kept : t.store.methods = if methods = [] then none else some (cfg.stringify (.array methods))
  retained : t.retained (commandTopic device methodCommand) =
    if t.store.registered = true ∧ methods ≠ [] then some (methodsText cfg (.array methods)) else none

variable {cfg : Config} {device : String}

@[simp] theorem publish_nil (retained : Topic → Option String) : publish retained [] = retained := rfl

theorem publish_append (retained : Topic → Option String) (ms ns : List Published) :
    publish retained (ms ++ ns) = publish (publish retained ms) ns := by
  simp [publish]

theorem publish_of_ne {messages : List Published} {topic : Topic}
    (h : ∀ m ∈ messages, m.topic ≠ topic) (retained : Topic → Option String) :
    publish retained messages topic = retained topic := by
  induction messages generalizing retained with
  | nil => rfl
  | cons m messages ih =>
    obtain ⟨hm, h⟩ := List.forall_mem_cons.1 h
    exact (ih h _).trans (Function.update_of_ne hm.symm _ _)

theorem methodsText_ne (cfg : Config) (methods : Json) : methodsText cfg methods ≠ "" := by
  intro h
  have hchars := congrArg String.toList h
  simp [methodsText] at hchars

theorem publish_methods (retained : Topic → Option String) (cfg : Config) (device : String)
    (methods : Json) :
    publish retained [methodCapability cfg device (some methods)] (commandTopic device methodCommand) =
      some (methodsText cfg methods) := by
  simp [publish, methodCapability, methodsText_ne]

theorem publish_none (retained : Topic → Option String) (cfg : Config) (device : String) :
    publish retained [methodCapability cfg device none] (commandTopic device methodCommand) =
      none := by
  simp [publish, methodCapability]

theorem methodsText_congr {a b : Json} (h : cfg.stringify a = cfg.stringify b) :
    methodsText cfg a = methodsText cfg b := by
  rw [methodsText, methodsText, h]

/-- What the topic of the methods retains once the device is registered. -/
theorem registered_retained (hcaps : methodCommand ∉ commandCapabilities cfg) (protocol : String)
    (payload : Option Json) (s : Device) (retained : Topic → Option String) :
    publish retained (registered cfg device protocol payload s)
        (commandTopic device methodCommand) =
      match s.methods.filter fun text => text != "" with
      | some text => some (methodsText cfg (cfg.parse text))
      | none => retained (commandTopic device methodCommand) := by
  have htwin : ∀ m ∈ (((payload.bind (·.get "info")).filter fun info =>
      isObject info && cfg.twinFragment != "").map fun info =>
        (⟨["te", "device", device, "", "", "twin", cfg.twinFragment], cfg.stringify info⟩ :
          Published)).toList, m.topic ≠ commandTopic device methodCommand := by
    intro m hm
    obtain ⟨info, -, rfl⟩ := Option.map_eq_some_iff.1 (Option.mem_toList.1 hm)
    simp [commandTopic]
  have hfirst : ∀ m ∈ registration cfg device protocol payload ::
      (commandCapabilities cfg).map (fun cap => (⟨commandTopic device cap, "\x7b\x7d"⟩ : Published)),
      m.topic ≠ commandTopic device methodCommand := by
    intro m hm
    rcases List.mem_cons.1 hm with rfl | hm
    · simp [registration, commandTopic]
    · obtain ⟨cap, hcap, rfl⟩ := List.mem_map.1 hm
      have hne : cap ≠ methodCommand := by
        rintro rfl
        exact hcaps hcap
      simpa [commandTopic] using hne
  unfold registered
  rw [publish_append, publish_of_ne htwin, publish_append]
  cases s.methods.filter fun text => text != "" with
  | none => exact publish_of_ne hfirst retained
  | some text => exact publish_methods _ cfg device (cfg.parse text)

/-! ## Runs -/

/-- The state of a device whose services share one place for its methods. -/
structure Consistent (cfg : Config) (device : String) (events : List Event) (t : Registry) : Prop where
  listing : ∀ service, service ∈ t.store.listing ↔
    latestLists (listed device) events service ≠ []
  advertises : Advertises cfg device (places (fun _ => ()) (listed device) events ()) t

theorem consistent_initial (cfg : Config) (device : String) :
    Consistent cfg device [] Registry.initial :=
  ⟨by simp [Registry.initial, Device.empty, latestLists], by simp [Registry.initial, Device.empty],
    by simp [Registry.initial]⟩

/-- A descriptor keeps the registry consistent with the methods listed so far. -/
theorem Consistent.described {events : List Event} {t : Registry}
    (h : Consistent cfg device events t) {service : String} {descriptor : Json}
    {entries : List (String × Json)} (hentries : methodsOf descriptor = some entries) :
    Consistent cfg device (events ++ [.capabilities service (some descriptor)])
      (t.step cfg device (.capabilities service (some descriptor))).1 := by
  obtain ⟨hlisting, hkept, hretained⟩ := h
  have htold : listed device (.capabilities service (some descriptor)) =
      some (service, (entries.filter fun e => e.1 = device).map (·.2)) := by
    simp [listed, hentries]
  have hlists : latestLists (listed device) (events ++ [.capabilities service (some descriptor)]) =
      Function.update (latestLists (listed device) events) service
        ((entries.filter fun e => e.1 = device).map (·.2)) := by
    rw [latestLists_snoc, hear, htold]
  have hplaces : places (fun _ => ()) (listed device)
      (events ++ [.capabilities service (some descriptor)]) () =
      if latestLists (listed device) events service ≠ [] ∨
          (entries.filter fun e => e.1 = device).map (·.2) ≠ [] then
        (entries.filter fun e => e.1 = device).map (·.2)
      else places (fun _ => ()) (listed device) events () := by
    rw [places_snoc, place, htold]
    dsimp only
    split <;> simp
  -- only this service's list changes
  have hother : ∀ a, ∀ other, other ≠ service →
      (other ∈ t.store.listing ↔
        Function.update (latestLists (listed device) events) service a other ≠ []) := by
    intro a other hne
    rw [Function.update_of_ne hne, hlisting]
  unfold Registry.step onMessage onCapabilities
  simp only [hentries]
  generalize (entries.filter fun e => e.1 = device).map (·.2) = methods at *
  -- an empty list takes the service from those that list methods
  by_cases hmethods : methods = []
  · subst hmethods
    by_cases hin : service ∈ t.store.listing
    · rw [if_pos (Or.inl ((hlisting service).1 hin))] at hplaces
      rw [if_pos rfl, if_pos hin]
      refine ⟨fun other => ?_, ?_, ?_⟩
      · rw [hlists]
        by_cases hne : other = service
        · simp [hne]
        · simpa [hne] using hother [] other hne
      · simp [hplaces]
      · rw [hplaces]
        cases hregistered : t.store.registered with
        | false => simpa [hregistered] using hretained
        | true => simp [publish_none]
    · have hnothing : latestLists (listed device) events service = [] := by
        by_contra hne
        exact hin ((hlisting service).2 hne)
      rw [if_neg (by simp [hnothing])] at hplaces
      rw [if_pos rfl, if_neg hin]
      refine ⟨fun other => ?_, ?_, ?_⟩
      · have hsame : Function.update (latestLists (listed device) events) service [] =
            latestLists (listed device) events := hnothing ▸ Function.update_eq_self service _
        rw [hlists, hsame]
        exact hlisting other
      · rw [hplaces]
        exact hkept
      · rw [hplaces]
        exact hretained
  · rw [if_pos (Or.inr hmethods)] at hplaces
    rw [if_neg hmethods]
    have hadded : ∀ other, other ∈ addTo t.store.listing service ↔
        latestLists (listed device) (events ++ [.capabilities service (some descriptor)]) other ≠
          [] := by
      intro other
      rw [mem_addTo, hlists]
      by_cases hne : other = service
      · simp [hne, hmethods]
      · simpa [hne] using hother methods other hne
    split
    · next hsame =>
      refine ⟨hadded, ?_, ?_⟩
      · rw [hplaces, if_neg hmethods]
        exact hsame
      · -- the text is the one that is retained already
        rw [hkept] at hsame
        split at hsame
        · cases hsame
        · next hbefore =>
          have htext := methodsText_congr (Option.some.inj hsame)
          simpa [hplaces, hmethods, hbefore, htext] using hretained
    · refine ⟨hadded, by simp [hplaces, hmethods], ?_⟩
      rw [hplaces]
      cases hregistered : t.store.registered with
      | false => simpa [hregistered] using hretained
      | true => simp [publish_methods, hmethods]

/-- So does a link status, which registers the device. -/
theorem Consistent.linked (hcaps : methodCommand ∉ commandCapabilities cfg) {events : List Event}
    {t : Registry} (h : Consistent cfg device events t) (protocol : String)
    (payload : Option Json) :
    Consistent cfg device (events ++ [.link protocol payload])
      (t.step cfg device (.link protocol payload)).1 := by
  obtain ⟨hlisting, hkept, hretained⟩ := h
  have hlists : latestLists (listed device) (events ++ [.link protocol payload]) =
      latestLists (listed device) events := latestLists_snoc _ _ _
  have hplaces : places (fun _ => ()) (listed device) (events ++ [.link protocol payload]) =
      places (fun _ => ()) (listed device) events := places_snoc _ _ _ _
  unfold Registry.step onMessage onLink
  dsimp only
  split
  · split
    · refine ⟨by simpa [hlists] using hlisting, ?_⟩
      rw [hplaces]
      exact ⟨hkept, hretained⟩
    · next hnew =>
      refine ⟨by simpa [hlists] using hlisting, ?_⟩
      rw [hplaces]
      refine ⟨hkept, ?_⟩
      dsimp only
      rw [registered_retained hcaps, hkept]
      by_cases hnone : places (fun _ => ()) (listed device) events () = []
      · simpa [hnone, hnew] using hretained
      · have htext := methodsText_congr (cfg.stringify_parse
          (.array (places (fun _ => ()) (listed device) events ())))
        simp [hnone, Option.filter, cfg.stringify_ne, htext]
  · refine ⟨by simpa [hlists] using hlisting, ?_⟩
    rw [hplaces]
    exact ⟨hkept, hretained⟩

/-- In every history the registry agrees with what was listed. -/
theorem consistent_final (device : String) (hcaps : methodCommand ∉ commandCapabilities cfg)
    (events : List Event) :
    Consistent cfg device events (final (Registry.step cfg device) Registry.initial events) := by
  induction events using List.reverseRecOn with
  | nil => exact consistent_initial cfg device
  | append_singleton events event ih =>
    rw [final_append, final_cons, final_nil]
    generalize final (Registry.step cfg device) Registry.initial events = t at ih ⊢
    cases event with
    | link protocol payload => exact ih.linked hcaps protocol payload
    | capabilities service payload =>
      -- what is no JSON, and what the flow fails on, changes nothing
      have hquiet : listed device (.capabilities service payload) = none →
          (t.step cfg device (.capabilities service payload)).1 = t →
          Consistent cfg device (events ++ [.capabilities service payload])
            (t.step cfg device (.capabilities service payload)).1 := by
        intro htold hsame
        rw [hsame]
        refine ⟨fun other => ?_, ?_⟩
        · rw [latestLists_snoc, hear, htold]
          exact ih.listing other
        · rw [places_snoc, place, htold]
          exact ih.advertises
      cases payload with
      | none => exact hquiet rfl rfl
      | some descriptor =>
        cases hentries : methodsOf descriptor with
        | none =>
          apply hquiet
          · simp [listed, hentries]
          · simp [Registry.step, onMessage, onCapabilities, hentries]
        | some entries => exact ih.described hentries

theorem methods_advertised (hcaps : methodCommand ∉ commandCapabilities cfg) {events : List Event}
    (hlone : ∀ moment, moment <+: events →
      Lone (fun _ => ()) (latestLists (listed device) moment)) :
    (∀ service, latestLists (listed device) events service ≠ [] →
      Advertises cfg device (latestLists (listed device) events service)
        (final (Registry.step cfg device) Registry.initial events)) ∧
    ((∀ service, latestLists (listed device) events service = []) →
      Advertises cfg device [] (final (Registry.step cfg device) Registry.initial events)) := by
  have hshown := shown_of_lone hlone
  have hadvertises := (consistent_final device hcaps events).advertises
  constructor
  · intro service hservice
    rwa [← hshown.said service hservice]
  · intro hnone
    rwa [← hshown.silent () fun service _ => hnone service]

/-- The device is registered once a link status registers it, and for good. -/
theorem registered_final (events : List Event) :
    (final (Registry.step cfg device) Registry.initial events).store.registered =
      events.any (registers device) := by
  induction events using List.reverseRecOn with
  | nil => rfl
  | append_singleton events event ih =>
    rw [final_append, final_cons, final_nil, List.any_append, ← ih]
    generalize final (Registry.step cfg device) Registry.initial events = t
    cases event with
    | link protocol payload =>
      unfold Registry.step onMessage onLink
      simp only [List.any_cons, registers, List.any_nil, Bool.or_false]
      split
      · next hconnects =>
        split
        · next hregistered => simp [hregistered]
        · simp [hconnects]
      · next hconnects => simp [hconnects]
    | capabilities service payload =>
      cases payload with
      | none => simp [Registry.step, onMessage, registers]
      | some descriptor =>
        unfold Registry.step onMessage onCapabilities
        simp only [List.any_cons, registers, List.any_nil, Bool.or_false]
        split
        · rfl
        · split
          · split <;> rfl
          · split <;> rfl

end TedgeDot.Flows.Registration
