import TedgeDot.Lib.Machine
import TedgeDot.Flows.ParameterState

/-!
# What the messages said

Six entries of the store of a device record what its messages said, whatever the flow made of it:
the protocol and the type, who serves the device, what each connector lists and what each declares.
No operation on the sets of the device touches them, so after any run they are those of its
messages alone.

## Main results

- `step_sources`: a message changes them as `Sources.hear` says.
- `sources_final`: after a run they are what was heard.
-/

namespace TedgeDot.Flows.ParameterState

open TedgeDot.Machine

/-- What the messages said. -/
structure Sources where
  protocol : Option String
  deviceType : String
  protocols : List String
  points : String → Option (List String)
  declared : String → List Json
  declaring : List String

def Device.sources (s : Device) : Sources where
  protocol := s.protocol
  deviceType := s.deviceType
  protocols := s.protocols
  points := s.points
  declared := s.declared
  declaring := s.declaring

/-! ## Operations on the sets -/

@[simp] theorem claim_sources (s : Device) (set key point : String) :
    (claim s set key point).1.sources = s.sources := by
  unfold claim
  split
  · rfl
  · split <;> rfl

@[simp] theorem dropFrom_sources (point key : String) (w : Work) (set : String) :
    (dropFrom point key w set).device.sources = w.device.sources := by
  unfold dropFrom
  dsimp only
  split
  · rfl
  · split <;> rfl

@[simp] theorem recordSets_sources (w : Work) (point : String) (sets : Option (List String)) :
    (w.recordSets point sets).device.sources = w.device.sources := rfl

@[simp] theorem recordKey_sources (w : Work) (point key : String) :
    (w.recordKey point key).device.sources = w.device.sources := rfl

@[simp] theorem forgetPoint_sources (w : Work) (point : String) :
    (forgetPoint w point).device.sources = w.device.sources := rfl

theorem sources_foldl {α : Type} {f : Work → α → Work}
    (h : ∀ w a, (f w a).device.sources = w.device.sources) (l : List α) (w : Work) :
    (l.foldl f w).device.sources = w.device.sources := by
  induction l generalizing w with
  | nil => rfl
  | cons a l ih => exact (ih (f w a)).trans (h w a)

@[simp] theorem dropClaims_sources (point : String) (w : Work) (claims : List (String × String)) :
    (dropClaims point w claims).device.sources = w.device.sources := by
  unfold dropClaims
  apply sources_foldl
  simp

@[simp] theorem claimAll_sources (point key : String) (w : Work) (sets : List String) :
    (claimAll point key w sets).device.sources = w.device.sources := by
  unfold claimAll
  apply sources_foldl
  simp

@[simp] theorem placePoint_sources (w : Work) (point : String) (sets : Option (List String))
    (key : String) : (placePoint w point sets key).device.sources = w.device.sources := by
  simp [placePoint]

section Values

variable (stringify : Json → String)

@[simp] theorem applyValue_sources (point key : String) (value : Json) (w : Work) (set : String) :
    (applyValue stringify point key value w set).device.sources = w.device.sources := by
  unfold applyValue
  dsimp only
  split
  · split
    · exact claim_sources _ _ _ _
    · exact claim_sources w.device set key point
  · rfl

@[simp] theorem applyValues_sources (updates : JsonMap)
    (resolveSets : String → Option (List String)) (w : Work) :
    (applyValues stringify updates resolveSets w).device.sources = w.device.sources := by
  unfold applyValues
  apply sources_foldl
  intro w m
  unfold applyUpdate
  split
  · apply sources_foldl
    simp
  · rfl

end Values

@[simp] theorem applyDeclarations_sources (w : Work) (names : Names) (protocol : String) :
    (applyDeclarations w names protocol).device.sources = w.device.sources := by
  unfold applyDeclarations
  dsimp only
  rw [sources_foldl (by simp [placeDeclared]), sources_foldl (by simp [surrender])]

@[simp] theorem releaseDeclaration_sources (w : Work) (entry : Json) :
    (releaseDeclaration w entry).device.sources = w.device.sources := by
  unfold releaseDeclaration
  split
  · split <;> simp
  · rfl

@[simp] theorem pruneSet_sources (configured : List String) (w : Work) (set : String) :
    (pruneSet configured w set).device.sources = w.device.sources := by
  unfold pruneSet
  apply sources_foldl
  intro w m
  unfold pruneKey
  dsimp only
  split <;> simp

@[simp] theorem prunePoint_sources (w : Work) (point : String) :
    (prunePoint w point).device.sources = w.device.sources :=
  dropClaims_sources point w (w.device.claims point)

@[simp] theorem pruneRemovedPoints_sources (w : Work) :
    (pruneRemovedPoints w).device.sources = w.device.sources := by
  unfold pruneRemovedPoints
  split
  · rfl
  · next configured _ =>
    have hsets := sources_foldl (pruneSet_sources configured) w.device.sets w
    exact (sources_foldl prunePoint_sources _ _).trans hsets

@[simp] theorem recordSets_points_sources (points : List String) (set : String) (s : Device) :
    (recordSets points set s).sources = s.sources := by
  unfold recordSets
  induction points generalizing s with
  | nil => rfl
  | cons point points ih =>
    rw [List.foldl_cons, ih]
    split <;> rfl

/-! ## Messages -/

def typeAfter (deviceType kind : String) (payload : Json) : String :=
  if kind = "sample" ∨ kind = "status" then
    (textOf payload "type").getD (if kind = "status" then "" else deviceType)
  else deviceType

def Sources.hearMessage (src : Sources) (protocol kind : String) (payload : Json) : Sources :=
  { src with
    protocol := some protocol
    deviceType := typeAfter src.deviceType kind payload
    protocols := if kind = "sample" ∨ kind = "status" then addTo src.protocols protocol
      else src.protocols
    points := if kind = "status" then Function.update src.points protocol (listedPoints payload)
      else src.points }

/-- What a descriptor says of the device. -/
def Sources.hearDescriptor (src : Sources) (service protocol : String) (declared : List Json) :
    Sources :=
  if service ∈ src.declaring ∨ declared ≠ [] then
    { src with
      declared := Function.update src.declared protocol declared
      declaring := if declared = [] then src.declaring.filter fun d => d ≠ service
        else addTo src.declaring service }
  else src

def Sources.hear (device : String) (src : Sources) : Event → Sources
  | .message protocol kind _ payload =>
    if isObject payload then src.hearMessage protocol kind payload else src
  | .capabilities service caps =>
    match textOf caps "protocol", descriptorEntries caps with
    | some protocol, some entries =>
      src.hearDescriptor service protocol ((entries.filter fun e => e.1 = device).map (·.2))
    | _, _ => src

theorem recordType_sources (s : Device) (kind : String) (payload : Json) :
    (recordType s kind payload).sources =
      { s.sources with deviceType := typeAfter s.deviceType kind payload } := by
  unfold recordType typeAfter
  split
  · cases textOf payload "type" with
    | some type => rfl
    | none =>
      by_cases hstatus : kind = "status"
      · simp [hstatus, Device.sources]
      · simp [hstatus, Device.sources]
  · rfl

/-- A message records where it came from and changes nothing else of the sources. -/
theorem onTopic_sources (cfg : Config) (s : Device) (protocol kind name : String)
    (payload : Json) : (onTopic cfg s protocol kind name payload).device.sources =
      if isObject payload then s.sources.hearMessage protocol kind payload else s.sources := by
  unfold onTopic
  dsimp only
  split
  · have hrecorded : (recordMessage s protocol kind payload).sources = { s.sources with
        protocol := some protocol
        deviceType := typeAfter s.deviceType kind payload
        protocols := if kind = "sample" ∨ kind = "status" then addTo s.protocols protocol
          else s.protocols } := recordType_sources _ kind payload
    split
    · next hstatus =>
      unfold onStatus
      simp only [applyDeclarations_sources, pruneRemovedPoints_sources]
      have hlisted : ∀ s' : Device, (s'.recordPoints protocol (listedPoints payload)).sources =
          { s'.sources with
            points := Function.update s'.sources.points protocol (listedPoints payload) } :=
        fun _ => rfl
      simp only [Device.work, hlisted, hrecorded]
      simp [Sources.hearMessage, hstatus, Device.sources]
    · next hstatus =>
      -- no other message lists points
      have hsame : { s.sources with
          protocol := some protocol
          deviceType := typeAfter s.deviceType kind payload
          protocols := if kind = "sample" ∨ kind = "status" then addTo s.protocols protocol
            else s.protocols } = s.sources.hearMessage protocol kind payload := by
        simp [Sources.hearMessage, hstatus, Device.sources]
      rw [← hsame, ← hrecorded]
      generalize recordMessage s protocol kind payload = s'
      split
      · unfold onSample
        dsimp only
        have hplaced : (if isDescribed payload = true then
            placePoint s'.work (samplePoint cfg.text name payload)
              (setsFromSample payload (naming cfg.defaultSet s'.deviceType protocol))
              (keyFromSample payload (samplePoint cfg.text name payload))
            else s'.work).device.sources = s'.sources := by
          split
          · simp [Device.work]
          · rfl
        split
        · split
          · rw [applyValues_sources]
            exact hplaced
          · exact hplaced
        · exact hplaced
      · split
        · unfold onCommand
          dsimp only
          split
          · rfl
          · split
            · split <;> simp [Device.work]
            · simp [Device.work]
        · rfl
  · rfl

theorem declare_sources (defaultSet protocol : String) (declared : List Json) (w : Work) :
    (declare defaultSet protocol declared w).device.sources =
      { w.device.sources with
        declared := Function.update w.device.sources.declared protocol declared } := by
  unfold declare
  simp only [applyDeclarations_sources]
  generalize hgone : (w.device.declared protocol).filter _ = gone
  have hrecorded : ∀ w' : Work, (w'.recordDeclared protocol declared).device.sources =
      { w'.device.sources with
        declared := Function.update w'.device.sources.declared protocol declared } := fun _ => rfl
  rw [hrecorded, sources_foldl releaseDeclaration_sources]

/-- The sources after a descriptor. -/
theorem onCapabilities_sources (cfg : Config) (device : String) (s : Device) (service : String)
    (caps : Json) : (onCapabilities cfg device s service caps).device.sources =
      s.sources.hear device (.capabilities service caps) := by
  unfold onCapabilities Sources.hear
  dsimp only
  cases textOf caps "protocol" with
  | none => rfl
  | some protocol =>
    cases descriptorEntries caps with
    | none => rfl
    | some entries =>
      dsimp only
      generalize (entries.filter fun e => e.1 = device).map (·.2) = declared
      unfold Sources.hearDescriptor
      have hlists : s.sources.declaring = s.declaring := rfl
      rw [hlists]
      split
      · have hdeclare := declare_sources cfg.defaultSet protocol declared s.work
        have hdeclaring : (declare cfg.defaultSet protocol declared s.work).device.declaring =
            s.declaring := congrArg Sources.declaring hdeclare
        rw [hdeclaring]
        generalize declare cfg.defaultSet protocol declared s.work = w at hdeclare ⊢
        have hwith : ∀ d, ({ w.device with declaring := d } : Device).sources =
            { w.device.sources with declaring := d } := fun _ => rfl
        rw [hwith, hdeclare]
        rfl
      · rfl

theorem step_sources (cfg : Config) (device : String) (s : Device) (event : Event) :
    (step cfg device s event).1.sources = s.sources.hear device event := by
  cases event with
  | message protocol kind name payload => exact onTopic_sources cfg s protocol kind name payload
  | capabilities service caps => exact onCapabilities_sources cfg device s service caps

def heard (device : String) (events : List Event) : Sources :=
  events.foldl (Sources.hear device) Device.empty.sources

theorem sources_final (cfg : Config) (device : String) (s : Device) (events : List Event) :
    (final (step cfg device) s events).sources = events.foldl (Sources.hear device) s.sources := by
  induction events generalizing s with
  | nil => rfl
  | cons event events ih => rw [final_cons, ih, step_sources, List.foldl_cons]

end TedgeDot.Flows.ParameterState
