import TedgeDot.Lib.Traced
import TedgeDot.Library.Checks
import TedgeDot.Sdk.Config

/-!
# Resolving a configuration

`resolve` of `library.rs`, from the parsed document on: the checks of the document, the search path
of point libraries, where a reference is looked up (`locate`), what a library must hold
(`read_library`), and the points every device ends up with (`expand`). The files it tests and
opens are its trace.
-/

namespace TedgeDot.Library

/-! ## Paths -/

def isAbsolute (path : String) : Bool := path.toList.head? == some '/'

def join (base path : String) : String :=
  if isAbsolute path then path
  else if base.isEmpty || base.toList.getLast? == some '/' then base ++ path
  else base ++ "/" ++ path

def absolutise (dir baseDir : String) : String := if isAbsolute dir then dir else join baseDir dir

/-- `Path::components`, as two paths are compared: empty parts and `.` do not count, but for a `.`
that comes first. -/
def components (path : String) : List String :=
  let parts := (path.toList.splitOn '/').map String.ofList
  let start := if isAbsolute path then ["/"] else if parts.head? == some "." then ["."] else []
  start ++ parts.filter fun part => part != "" && part != "."

/-- The file of a library name in a directory. -/
def libraryFile (dir protocol reference : String) : String :=
  join (join dir protocol) (reference ++ ".toml")

/-! ## What the resolver reads -/

/-- One parsed point library: the device type it describes, and its points. -/
structure PointLibrary where
  deviceType : Option String
  points : List Toml

/-- Where a configuration is resolved: the environment, the directory of the configuration file,
the files there are, and the typed parses of a point and of a resolved document, with what is
checked on the result. -/
structure Site where
  /-- `TEDGE_DOT_POINT_LIBRARY_PATH`. -/
  env : Option String := none
  baseDir : String
  /-- `Path::is_file`. -/
  isFile : String → Bool
  /-- The document a file holds, or why it cannot be read or parsed. -/
  read : String → Except String Toml
  pointConfig : Toml → Except String Unit
  typed : Toml → Except String ConnectorConfig

/-- Site-local point libraries; shadow packaged ones of the same name. -/
def SITE_LIBRARY_DIR : String := "/etc/tedge/plugins/ot/points.d"

/-- Point libraries shipped by packages. -/
def PACKAGED_LIBRARY_DIR : String := "/usr/share/tedge-dot/points.d"

/-- Keys a point library must not carry. -/
def CONNECTOR_ONLY_KEYS : List String := ["connector", "mqtt", "connection", "device"]

/-- `[connector] protocol`. -/
def protocolOf (doc : Toml) : Option String :=
  ((doc.get "connector").bind fun c => c.get "protocol").bind Toml.asStr

/-- The directories of an environment variable. -/
def envDirs (site : Site) : List String :=
  ((((site.env.getD "").toList.splitOn ':').map String.ofList).filter fun s => !s.isEmpty).map
    fun dir => absolutise dir site.baseDir

/-- One entry of `point_library_path`. -/
def configuredDir (site : Site) (dir : Toml) : Except String String :=
  match dir.asStr with
  | some dir => .ok (absolutise dir site.baseDir)
  | none => .error "[connector] point_library_path entries must be directory strings"

/-- `search_path`: the directories a bare library name is looked up in. -/
def searchPath (site : Site) (doc : Toml) : Except String (List String) :=
  match (doc.get "connector").bind fun c => c.get "point_library_path" with
  | some configured =>
    match configured.asArray with
    | none => .error "[connector] point_library_path must be an array of directories"
    | some dirs =>
      if dirs.isEmpty then .error
        "[connector] point_library_path is empty; name at least one directory or remove it to use the default path"
      else dirs.mapM (configuredDir site)
  | none =>
    if (envDirs site).isEmpty then .ok [SITE_LIBRARY_DIR, PACKAGED_LIBRARY_DIR]
    else .ok (envDirs site)

/-- `char::is_whitespace`: Unicode's `White_Space`. -/
def isWhitespace (c : Char) : Bool :=
  (0x09 ≤ c.toNat && c.toNat ≤ 0x0d) || (0x2000 ≤ c.toNat && c.toNat ≤ 0x200a) ||
    [0x20, 0x85, 0xa0, 0x1680, 0x2028, 0x2029, 0x202f, 0x205f, 0x3000].contains c.toNat

/-- One entry of `points_from`, which is not blank. -/
def referenceOf (name : String) (entry : Toml) : Except String String :=
  match entry.asStr.filter fun s => !(s.toList.all isWhitespace) with
  | some s => .ok s
  | none => .error
      s!"device '{name}': points_from entries must be non-empty strings (point-library names or paths)"

def deviceRefs (device : Toml) (name : String) : Except String (List String) :=
  match device.get "points_from" with
  | none => .ok []
  | some value =>
    match value.asArray with
    | none => .error
        s!"device '{name}': points_from must be an array of point-library names or paths"
    | some array => array.mapM (referenceOf name)

/-! ## Looking up a library -/

/-- The lookup of a name, from a directory of the search path on. -/
def locateName (site : Site) (reference protocol : String) :
    List String → List String → Traced String String String
  | [], tried =>
    if tried.isEmpty then
      .fail s!"cannot resolve point library '{reference}': the library search path is empty"
    else
      let listed := String.intercalate ", " tried
      .fail s!"unknown point library '{reference}' for protocol '{protocol}' (looked for {listed})"
  | dir :: dirs, tried => do
    let candidate := libraryFile dir protocol reference
    .touch candidate
    if site.isFile candidate then return candidate
    else locateName site reference protocol dirs (tried ++ [candidate])

/-- `locate`: the file one `points_from` entry names. -/
def locate (site : Site) (reference protocol : String) (searchPath : List String) :
    Traced String String String :=
  if isPathReference reference then do
    let path := absolutise reference site.baseDir
    .touch path
    if site.isFile path then return path
    else .fail s!"point library '{reference}' not found at {path}"
  else locateName site reference protocol searchPath []

/-- The `[library] type` of a library. -/
def libraryType (doc : Toml) (path : String) : Except String (Option String) :=
  match (doc.get "library").bind fun l => l.get "type" with
  | none => .ok none
  | some t =>
    match (t.asStr.map fun s => String.ofList (trimC s.toList)).filter fun s => !s.isEmpty with
    | some s => .ok (some s)
    | none => .error s!"point library '{path}': [library] type must be a non-empty string"

/-- The `[library] protocol` of a library, which must be the connector's. -/
def checkProtocol (doc : Toml) (path protocol : String) : Except String Unit :=
  match ((doc.get "library").bind fun l => l.get "protocol").bind Toml.asStr with
  | none => .error s!"point library '{path}' is missing [library] protocol = \"<protocol>\""
  | some declared =>
    if declared != protocol then
      .error s!"point library '{path}' is for protocol '{declared}', not '{protocol}'"
    else .ok ()

/-- The `[[point]]` entries of a library, at least one. -/
def libraryPoints (doc : Toml) (path : String) : Except String (List Toml) :=
  match doc.get "point" with
  | none => .error s!"point library '{path}' declares no [[point]] entries"
  | some points =>
    match points.asArray with
    | none => .error s!"point library '{path}': [[point]] must be an array of tables"
    | some points =>
      if points.isEmpty then .error s!"point library '{path}' declares no [[point]] entries"
      else .ok points

/-- The points of one library, from one on: each checked, with an id that has not been seen. -/
def checkLibraryPoints (path : String) : List Toml → List String → Except String Unit
  | [], _ => .ok ()
  | point :: points, seen => do
    (checkPointKeys point).mapError fun e => s!"point library '{path}': {e}"
    (checkPointFields point).mapError fun e => s!"point library '{path}': {e}"
    match pointId point with
    | none => .error s!"point library '{path}': a point is missing its id"
    | some id =>
      if seen.contains id then .error s!"point library '{path}' declares point '{id}' twice"
      else checkLibraryPoints path points (id :: seen)

/-- A point with the `[library]` table its address belongs to. -/
def withOrigin (library : Option Toml) (point : Toml) : Toml :=
  match library, point with
  | some library, .table point =>
    if TomlTable.containsKey point "address" then
      .table (TomlTable.insert point ADDRESS_ORIGIN library)
    else .table point
  | _, _ => point

/-- `read_library`, on what the file holds. -/
def parseLibrary (doc : Toml) (path protocol : String) : Except String PointLibrary :=
  match doc.asTable with
  | none => .error s!"point library '{path}' is not a TOML table"
  | some table =>
    match CONNECTOR_ONLY_KEYS.find? fun key => table.containsKey key with
    | some key => .error
        s!"'{path}' is a connector configuration, not a point library (it has a [{key}] section); a point library holds only [library] and [[point]]"
    | none => do
      checkKeys doc LIBRARY_TOP_KEYS s!"point library '{path}'"
      checkKeysUnder doc "library" LIBRARY_KEYS s!"[library] of point library '{path}'"
      let deviceType ← libraryType doc path
      checkProtocol doc path protocol
      let points ← libraryPoints doc path
      checkLibraryPoints path points []
      return { deviceType, points := points.map (withOrigin (doc.get "library")) }

def readLibrary (site : Site) (path protocol : String) : Traced String String PointLibrary := do
  .touch path
  let doc ← .lift (site.read path)
  .lift (parseLibrary doc path protocol)

/-! ## Expanding the devices -/

/-- `Value::as_table_mut` and `Table::insert`. -/
def setKey (v : Toml) (key : String) (value : Toml) : Toml :=
  match v with
  | .table entries => .table (TomlTable.insert entries key value)
  | v => v

/-- `drop_disabled_points`, from a point on: the points that are not switched off. A point that is
must still parse, but for its address. -/
def keptPoints (site : Site) (name : String) : List Toml → Except String (List Toml)
  | [] => .ok []
  | point :: points =>
    match point.get "enabled" with
    | some (.boolean false) => do
      let id := pointLabel point
      let probe := if (point.get "address").isSome then point else setKey point "address" (.table [])
      (site.pointConfig probe).mapError fun e => s!"device '{name}': point '{id}': {e}"
      keptPoints site name points
    | _ => do
      let kept ← keptPoints site name points
      return point :: kept

def dropDisabledPoints (site : Site) (device : Toml) (name : String) : Except String Toml :=
  match (device.get "point").bind Toml.asArray with
  | none => .ok device
  | some points => (keptPoints site name points).map fun kept => setKey device "point" (.array kept)

def normaliseType (device : Toml) (name : String) : Except String Toml :=
  match device.get "type" with
  | none => .ok device
  | some declared =>
    match (declared.asStr.map fun s => String.ofList (trimC s.toList)).filter fun s => !s.isEmpty with
    | some trimmed => .ok (setKey device "type" (.string trimmed))
    | none => .error s!"device '{name}': type must be a non-empty string"

/-- The first pass of `expand` over one device: nothing is left of one that is switched off. A
device without a name is the typed parse's error to report. -/
def screenDevice (device : Toml) (seen : List String) : Except String (Option Toml) :=
  match deviceName device with
  | none => .ok (some device)
  | some name =>
    if seen.contains name then .error s!"device '{name}' is defined more than once"
    else
      match device.get "enabled" with
      | some (.boolean false) => .ok none
      | some (.boolean true) => do
        checkDevice device name
        let device ← normaliseType device name
        return some device
      | some _ => .error s!"device '{name}': enabled must be true or false"
      | none => do
        checkDevice device name
        let device ← normaliseType device name
        return some device

/-- The first pass of `expand`, from a device on. -/
def screenDevices : List Toml → List String → Except String (List Toml)
  | [], _ => .ok []
  | device :: rest, seen => do
    let screened ← screenDevice device seen
    let rest ← screenDevices rest ((deviceName device).toList ++ seen)
    return screened.toList ++ rest

/-- The libraries read so far, by their path. -/
abbrev Cache := List (String × PointLibrary)

def Cache.get (cache : Cache) (path : String) : Option PointLibrary :=
  (cache.find? fun e => components e.1 == components path).map Prod.snd

/-- What the references of a device have given so far. -/
structure Gathered where
  cache : Cache
  merged : Merged := {}
  deviceType : Option String := none

/-- The library in a file, read the first time. -/
def cachedLibrary (site : Site) (protocol path : String) (cache : Cache) :
    Traced String String (Cache × PointLibrary) :=
  match cache.get path with
  | some library => return (cache, library)
  | none => do
    let library ← readLibrary site path protocol
    return ((path, library) :: cache, library)

def gather (site : Site) (protocol name : String) (searchPath : List String) (g : Gathered)
    (reference : String) : Traced String String Gathered := do
  let path ← (locate site reference protocol searchPath).relabel id fun e => s!"device '{name}': {e}"
  let (cache, library) ← cachedLibrary site protocol path g.cache
  let merged := library.points.foldl mergePoint g.merged
  let deviceType := g.deviceType.or library.deviceType
  return { cache, merged, deviceType }

/-- The device's own points, which come last. -/
def inlinePoints (device : Toml) (name : String) : Except String (List Toml) :=
  match device.get "point" with
  | none => .ok []
  | some points =>
    match points.asArray with
    | some points => .ok points
    | none => .error
        s!"device '{name}': point must be an array of tables ([[device.point]])"

/-- The device with its resolved points, and with the type of its libraries unless it declares one
itself. -/
def withResolved (site : Site) (device : Toml) (name : String) (points : List Toml)
    (deviceType : Option String) : Except String Toml :=
  match device.asTable with
  | none => .error s!"device '{name}' is not a table"
  | some _ =>
    let device :=
      match deviceType with
      | some t => if (device.get "type").isSome then device else setKey device "type" (.string t)
      | none => device
    dropDisabledPoints site (setKey device "point" (.array points)) name

/-- The second pass of `expand` over one device. -/
def expandDevice (site : Site) (protocol : String) (searchPath : List String) (device : Toml)
    (cache : Cache) : Traced String String (Cache × Toml) := do
  let name := deviceLabel device
  .lift ((elements device "point").forM fun point =>
    (checkPointFields point).mapError fun e => s!"device '{name}': {e}")
  let refs ← .lift (deviceRefs device name)
  if refs.isEmpty then
    let device ← .lift (dropDisabledPoints site device name)
    return (cache, device)
  else
    let g ← refs.foldlM (gather site protocol name searchPath) { cache }
    let inline ← .lift (inlinePoints device name)
    let device ←
      .lift (withResolved site device name (inline.foldl mergePoint g.merged).points g.deviceType)
    return (g.cache, device)

/-- A file that is tested or opened for a device. -/
structure Touch where
  device : Option String
  path : String

/-- The second pass of `expand`, from a device on. -/
def expandDevices (site : Site) (protocol : String) (searchPath : List String) :
    List Toml → Cache → Traced Touch String (List Toml)
  | [], _ => return []
  | device :: rest, cache => do
    let (cache, expanded) ← (expandDevice site protocol searchPath device cache).relabel
      (Touch.mk (deviceName device)) id
    let rest ← expandDevices site protocol searchPath rest cache
    return expanded :: rest

/-- `expand`: every device's `points_from` references, expanded in place. -/
def expand (site : Site) (doc : Toml) : Traced Touch String Toml :=
  match protocolOf doc with
  | none => return doc
  | some protocol => do
    let searchPath ← .lift (searchPath site doc)
    match (doc.get "device").bind Toml.asArray with
    | none => return doc
    | some devices =>
      let devices ← .lift (screenDevices devices [])
      let expanded ← expandDevices site protocol searchPath devices []
      return setKey doc "device" (.array expanded)

/-- `resolve`, with what it touches for each device. -/
def resolve (site : Site) (doc : Toml) : Traced Touch String ConnectorConfig := do
  .lift (checkDocument doc)
  match doc.get "connector" with
  | none => pure ()
  | some connector => .lift (checkConnector connector)
  let doc ← expand site doc
  .lift (site.typed doc)

end TedgeDot.Library
