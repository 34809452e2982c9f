import Mathlib.Logic.Function.Basic
import TedgeDot.Flows.ParameterNames

/-!
# `ot-parameter-state`

The flow keeps the parameter sets of a device in its twin. Four tables say the same thing from four
sides: which point a key of a set belongs to, which keys a point has claimed, which points have
claimed one, and the values of each set.

The store is the one of one device: every key of the mapper's store that begins with its name, by
what follows the name. `stringify` is `JSON.stringify`, which decides whether a value has changed.
A point of a message that is no string is taken by its text.
-/

namespace TedgeDot.Flows.ParameterState

/-! ## The store of a device -/

structure Device where
  /-- `ot-protocol:<device>` -/
  protocol : Option String
  /-- `ot-device-type:<device>`, empty where there is none. -/
  deviceType : String
  /-- `ot-parameter-protocols:<device>` -/
  protocols : List String
  /-- `ot-parameter-points:<device>:<protocol>`, none while they are not listed. -/
  points : String → Option (List String)
  /-- `ot-parameter-declared:<device>:<protocol>` -/
  declared : String → List Json
  /-- `ot-parameter-declaring:<service>`, by the services whose list has the device. -/
  declaring : List String
  /-- `ot-parameter-values:<device>:<set>` -/
  values : String → JsonMap
  /-- `ot-parameter-sets:<device>` -/
  sets : List String
  /-- `ot-parameter-set:<device>:<point>`: none while it is unknown, `some none` for a point that is
  no parameter. -/
  placed : String → Option (Option (List String))
  /-- `ot-parameter-key:<device>:<point>` -/
  key : String → Option String
  /-- `ot-parameter-point:<device>:<set>:<key>` -/
  point : String → Option String
  /-- `ot-parameter-claims:<device>:<point>` -/
  claims : String → List (String × String)
  /-- `ot-parameter-claimants:<device>` -/
  claimants : List String

def Device.empty : Device where
  protocol := none
  deviceType := ""
  protocols := []
  points _ := none
  declared _ := []
  declaring := []
  values _ := []
  sets := []
  placed _ := none
  key _ := none
  point _ := none
  claims _ := []
  claimants := []

/-- `<set>:<key>` -/
def pointKey (set key : String) : String := set ++ ":" ++ key

def addTo (list : List String) (s : String) : List String := if s ∈ list then list else list ++ [s]

def keyOf (s : Device) (point : String) : String := (s.key point).getD point

/-- The point a key of a set belongs to. -/
def ownerOf (s : Device) (set key : String) : Option String :=
  (s.point (pointKey set key)).filter fun owner => owner != ""

/-- Whether the set has the other shape, by a point other than `point`. -/
def shapeTaken (s : Device) (set key point : String) : Bool :=
  if key ≠ literalKey then (ownerOf s set literalKey).any fun literal => literal != point
  else s.claimants.any fun other =>
    other != point && (s.claims other).any fun c => c.1 == set && c.2 != literalKey

def claim (s : Device) (set key point : String) : Device × Bool :=
  match ownerOf s set key with
  | some owner => (s, owner == point)
  | none =>
    if shapeTaken s set key point then (s, false)
    else
      ({ s with
          point := Function.update s.point (pointKey set key) (some point)
          claims := Function.update s.claims point (s.claims point ++ [(set, key)])
          claimants := addTo s.claimants point }, true)

/-- A store with the sets that were changed, in the order of the first change. -/
structure Work where
  device : Device
  changed : List String

section Values

variable (stringify : Json → String)

def applyValue (point key : String) (value : Json) (w : Work) (set : String) : Work :=
  if (claim w.device set key point).2 then
    let s := (claim w.device set key point).1
    if (property (s.values set) key).map stringify = some (stringify value) then
      { w with device := s }
    else
      { device := { s with
          values := Function.update s.values set (setMember (s.values set) key value)
          sets := addTo s.sets set }
        changed := addTo w.changed set }
  else w

/-- The value of one point, for each of its sets. -/
def applyUpdate (resolveSets : String → Option (List String)) (w : Work) (m : String × Json) :
    Work :=
  match resolveSets m.1 with
  | some sets => sets.foldl (applyValue stringify m.1 (keyOf w.device m.1) m.2) w
  | none => w

def applyValues (updates : JsonMap) (resolveSets : String → Option (List String)) (w : Work) :
    Work :=
  (ownOrder updates).foldl (applyUpdate stringify resolveSets) w

end Values

/-- Removes the point's key from the set, where it holds it. -/
def dropFrom (point key : String) (w : Work) (set : String) : Work :=
  let s := w.device
  if (ownerOf s set key).getD key ≠ point then w
  else
    let s := { s with
      point := Function.update s.point (pointKey set key) none
      claims := Function.update s.claims point ((s.claims point).filter fun c => c ≠ (set, key)) }
    if (s.values set).containsKey key then
      { device := { s with
          values := Function.update s.values set ((s.values set).filter fun m => m.1 != key) }
        changed := addTo w.changed set }
    else { w with device := s }

/-- `dropValue` of each of these claims of the point. -/
def dropClaims (point : String) (w : Work) (claims : List (String × String)) : Work :=
  claims.foldl (fun w c => dropFrom point c.2 w c.1) w

/-- `ot-parameter-set` is written for a point. -/
def Work.recordSets (w : Work) (point : String) (sets : Option (List String)) : Work :=
  { w with device := { w.device with
      placed := Function.update w.device.placed point (some sets) } }

/-- `ot-parameter-key` is written for a point. -/
def Work.recordKey (w : Work) (point key : String) : Work :=
  { w with device := { w.device with key := Function.update w.device.key point (some key) } }

/-- The claims of a point that its description does not name. -/
def staleClaims (s : Device) (point : String) (current : List String) (key : String) :
    List (String × String) :=
  (s.claims point).filter fun c => ¬ (c.2 = key ∧ c.1 ∈ current)

/-- `claim` in each of some sets. -/
def claimAll (point key : String) (w : Work) (sets : List String) : Work :=
  sets.foldl (fun w set => { w with device := (claim w.device set key point).1 }) w

/-- A point goes where its latest description says. -/
def placePoint (w : Work) (point : String) (sets : Option (List String)) (key : String) : Work :=
  let current := sets.getD []
  let w := w.recordSets point sets
  let w := dropClaims point w (staleClaims w.device point current key)
  claimAll point key (w.recordKey point key) current

/-! ## Declarations -/

/-- An entry `applyDeclarations` places. -/
structure Declaration where
  point : String
  key : String
  sets : List String

/-- The id of an entry's point, where it is one. -/
def entryPoint (entry : Json) : Option String :=
  ((entry.get "point").bind Json.asStr).filter fun point => point != ""

def declarations (names : Names) (entries : List Json) : List Declaration :=
  entries.filterMap fun e =>
    match entryPoint e, declaredKey e with
    | some point, some key => some { point, key, sets := setsOf e names }
    | _, _ => none

/-- `wanted`: the point that takes a key of a set; the last one that names it. -/
def wanted (entries : List Declaration) (name : String) : Option String :=
  (((entries.flatMap fun e => e.sets.map fun set => (pointKey set e.key, e.point)).reverse.find?
    fun x => x.1 == name)).map (·.2)

/-- The claims of the point that another declared point is to take. -/
def surrendered (s : Device) (entries : List Declaration) (point : String) :
    List (String × String) :=
  (s.claims point).filter fun c => (wanted entries (pointKey c.1 c.2)).any fun taker =>
    taker != point

/-- The first pass: what another declared point is to take is given up. -/
def surrender (entries : List Declaration) (w : Work) (e : Declaration) : Work :=
  dropClaims e.point w (surrendered w.device entries e.point)

def placeDeclared (w : Work) (e : Declaration) : Work := placePoint w e.point (some e.sets) e.key

def applyDeclarations (w : Work) (names : Names) (protocol : String) : Work :=
  let entries := declarations names (w.device.declared protocol)
  entries.foldl placeDeclared (entries.foldl (surrender entries) w)

/-! ## What is published -/

/-- The payload of a set's retained message; none for the empty one. -/
def twinPayload (values : JsonMap) : Option Json :=
  match values.get literalKey with
  | some literal => some literal
  | none => if values = [] then none else some (.object values)

/-- `twinMessages`: each set with its payload. -/
def twinMessages (w : Work) : List (String × Option Json) :=
  w.changed.map fun set => (set, twinPayload (w.device.values set))

/-! ## Removed points -/

/-- Every configured point, where each protocol has listed its own. -/
def configuredPoints (s : Device) : Option (List String) :=
  (s.protocols.mapM s.points).map List.flatten

def forgetPoint (w : Work) (point : String) : Work :=
  { w with device := { w.device with
      placed := Function.update w.device.placed point none
      key := Function.update w.device.key point none } }

/-- The value of a key, where its point is not configured. -/
def pruneKey (configured : List String) (set : String) (w : Work) (m : String × Json) : Work :=
  let point := (ownerOf w.device set m.1).getD m.1
  if point ∈ configured then w else forgetPoint (dropFrom point m.1 w set) point

def pruneSet (configured : List String) (w : Work) (set : String) : Work :=
  (ownOrder (w.device.values set)).foldl (pruneKey configured set) w

/-- The claims of a point that is not configured. -/
def prunePoint (w : Work) (point : String) : Work :=
  let w := dropClaims point w (w.device.claims point)
  forgetPoint { w with device := { w.device with
    claims := Function.update w.device.claims point [] } } point

def pruneRemovedPoints (w : Work) : Work :=
  match configuredPoints w.device with
  | none => w
  | some configured =>
    let w := w.device.sets.foldl (pruneSet configured) w
    let claimants := w.device.claimants
    let w := (claimants.filter fun p => p ∉ configured).foldl prunePoint w
    { w with device := { w.device with claimants := claimants.filter fun p => p ∈ configured } }

/-- A point whose key is not declared any more goes back to its id. -/
def releaseDeclaration (w : Work) (entry : Json) : Work :=
  match entryPoint entry with
  | some point =>
    if some (keyOf w.device point) = declaredKey entry then
      forgetPoint (dropClaims point w (w.device.claims point)) point
    else w
  | none => w

/-! ## Messages -/

/-- Names every object inherits: a device of such a name makes the flow fail. -/
def inherited : List String :=
  ["__proto__", "constructor", "toString", "valueOf", "hasOwnProperty", "isPrototypeOf",
    "propertyIsEnumerable", "toLocaleString", "__defineGetter__", "__defineSetter__",
    "__lookupGetter__", "__lookupSetter__"]

/-- The members of an entry that are recorded. -/
def pick (entry : Json) : Json :=
  .object (["point", "key", "set", "group", "fragment"].filterMap fun name =>
    (entry.get name).map fun v => (name, v))

/-- The entries of a descriptor, each with its device; none where the flow fails. -/
def descriptorEntries (caps : Json) : Option (List (String × Json)) :=
  let listed := match caps.get "parameter_keys" with
    | some (.array items) => items
    | _ => []
  let entries := listed.filterMap fun entry =>
    (((entry.get "device").bind Json.asStr).filter fun device => device != "").map fun device =>
      (device, pick entry)
  if entries.any fun e => inherited.contains e.1 then none else some entries

/-- `ot-parameter-declared` is written for a protocol. -/
def Work.recordDeclared (w : Work) (protocol : String) (declared : List Json) : Work :=
  { w with device := { w.device with
      declared := Function.update w.device.declared protocol declared } }

/-- The body of `onCapabilities` for one device: what is declared for it now. -/
def declare (defaultSet protocol : String) (declared : List Json) (w : Work) : Work :=
  let before := w.device.declared protocol
  let released := before.filter fun entry =>
    (entryPoint entry).any fun point =>
      declared.all fun e => (e.get "point").bind Json.asStr != some point
  let w := (released.foldl releaseDeclaration w).recordDeclared protocol declared
  applyDeclarations w (naming defaultSet w.device.deviceType protocol) protocol

def textOf (payload : Json) (name : String) : Option String :=
  ((payload.get name).bind Json.asStr).filter fun s => s != ""

/-- What a sample or a status says of the device's type. -/
def recordType (s : Device) (kind : String) (payload : Json) : Device :=
  if kind = "sample" ∨ kind = "status" then
    match textOf payload "type" with
    | some type => { s with deviceType := type }
    | none => if kind = "status" then { s with deviceType := "" } else s
  else s

def listedPoints (payload : Json) : Option (List String) :=
  match payload.get "points" with
  | some (.array items) => some (items.filterMap Json.asStr)
  | _ => none

/-- `ot-parameter-points` is written for a protocol. -/
def Device.recordPoints (s : Device) (protocol : String) (listed : Option (List String)) : Device :=
  { s with points := Function.update s.points protocol listed }

/-- A store before anything is changed. -/
def Device.work (s : Device) : Work := { device := s, changed := [] }

def onStatus (defaultSet protocol : String) (payload : Json) (s : Device) : Work :=
  let w := pruneRemovedPoints (s.recordPoints protocol (listedPoints payload)).work
  applyDeclarations w (naming defaultSet w.device.deviceType protocol) protocol

/-- `payload.point || parts[6]` -/
def samplePoint (text : Json → String) (name : String) (payload : Json) : String :=
  match (payload.get "point").filter truthy with
  | some (.string point) => point
  | some v => text v
  | none => name

/-- Whether a sample says where its point belongs. -/
def isDescribed (payload : Json) : Bool :=
  (payload.get "access").isSome || (payload.get "meta").isSome

def onSample (stringify : Json → String) (names : Names) (point : String) (payload : Json)
    (s : Device) : Work :=
  let sets := setsFromSample payload names
  let w := if isDescribed payload then placePoint s.work point sets (keyFromSample payload point)
    else s.work
  match sets, payload.get "value" with
  | some sets, some value =>
    if (payload.get "quality").bind Json.asStr = some "good" then
      applyValues stringify [(point, value)] (fun _ => some sets) w
    else w
  | _, _ => w

/-- `a ?? b`, of members. -/
def orElse (a b : Option Json) : Option Json := (a.filter fun v => !v.isNull).or b

/-- `writtenPoints`; none where the flow fails. -/
def writtenPoints (verb : String) (payload : Json) : Option (List String) :=
  if verb = "write" then some ((payload.get "point").bind Json.asStr).toList
  else if verb = "write-batch" then
    match (orElse (payload.get "writes") (payload.get "results")).filter fun v => !v.isNull with
    | none => some []
    | some (.array items) => some (items.filterMap fun w => textOf w "point")
    | some _ => none
  else some []

/-- The set a command says it edits is recorded for the points nothing is known of. -/
def recordSets (points : List String) (set : String) (s : Device) : Device :=
  points.foldl (fun s point =>
    if s.placed point = none then
      { s with placed := Function.update s.placed point (some (some [set])) }
    else s) s

/-- The values a successful command gives; none where the flow fails. -/
def writtenValues (verb : String) (payload : Json) : Option JsonMap :=
  if verb = "write" then
    match (payload.get "point").bind Json.asStr, payload.get "value" with
    | some point, some value => some (setMember [] point value)
    | _, _ => some []
  else if verb = "write-batch" then
    match (payload.get "results").filter fun v => !v.isNull with
    | none | some (.string _) => some []
    | some (.array results) =>
      some (results.foldl (fun updates r =>
        match (r.get "status").bind Json.asStr, (r.get "point").bind Json.asStr, r.get "value" with
        | some "successful", some point, some value => setMember updates point value
        | _, _, _ => updates) [])
    | some _ => none
  else some []

def writtenSets (names : Names) (protocol : String) (s : Device) (point : String) :
    Option (List String) :=
  if (s.points protocol).any fun configured => !configured.contains point then none
  else
    match s.placed point with
    | none => some [setFor names ""]
    | some sets => sets

def originSet (payload : Json) : Option String :=
  (((payload.get "origin").bind (·.get "set")).bind Json.asStr).filter isValidSet

def onCommand (stringify : Json → String) (names : Names) (protocol verb : String) (payload : Json)
    (s : Device) : Work :=
  let points := match originSet payload with
    | some _ => writtenPoints verb payload
    | none => some []
  match points with
  | none => s.work
  | some points =>
    let s := recordSets points ((originSet payload).getD "") s
    if (payload.get "status").bind Json.asStr = some "successful" then
      match writtenValues verb payload with
      | some updates =>
        applyValues stringify updates (writtenSets names protocol s) s.work
      | none => s.work
    else s.work

/-- A message for the device: one on its topics, `te/device/<device>/ot/<protocol>/<kind>/<name>`,
or the capability descriptor of a service. -/
inductive Event where
  | message (protocol kind name : String) (payload : Json)
  | capabilities (service : String) (caps : Json)

/-- What stays the same: the flow's `default_set`, `JSON.stringify`, and `String(value)` of what is
no string. -/
structure Config where
  defaultSet : String
  stringify : Json → String
  text : Json → String

def recordMessage (s : Device) (protocol kind : String) (payload : Json) : Device :=
  recordType { s with
    protocol := some protocol
    protocols := if kind = "sample" ∨ kind = "status" then addTo s.protocols protocol
      else s.protocols } kind payload

/-- `onMessage` of a message on the topics of the device. -/
def onTopic (cfg : Config) (s : Device) (protocol kind name : String) (payload : Json) : Work :=
  if isObject payload then
    let s := recordMessage s protocol kind payload
    let names := naming cfg.defaultSet s.deviceType protocol
    if kind = "status" then onStatus cfg.defaultSet protocol payload s
    else if kind = "sample" then
      onSample cfg.stringify names (samplePoint cfg.text name payload) payload s
    else if kind = "cmd" then onCommand cfg.stringify names protocol name payload s
    else s.work
  else s.work

/-- `onCapabilities`, of what concerns the device. -/
def onCapabilities (cfg : Config) (device : String) (s : Device) (service : String) (caps : Json) :
    Work :=
  match textOf caps "protocol", descriptorEntries caps with
  | some protocol, some entries =>
    let declared := (entries.filter fun e => e.1 = device).map (·.2)
    if service ∈ s.declaring ∨ declared ≠ [] then
      let w := declare cfg.defaultSet protocol declared s.work
      { w with device := { w.device with
        declaring := if declared = [] then w.device.declaring.filter fun d => d ≠ service
          else addTo w.device.declaring service } }
    else s.work
  | _, _ => s.work

/-- `onMessage`: the store after a message, and what is published, by its set. -/
def step (cfg : Config) (device : String) (s : Device) (event : Event) :
    Device × List (String × Option Json) :=
  let w := match event with
    | .message protocol kind name payload => onTopic cfg s protocol kind name payload
    | .capabilities service caps => onCapabilities cfg device s service caps
  (w.device, twinMessages w)

end TedgeDot.Flows.ParameterState
