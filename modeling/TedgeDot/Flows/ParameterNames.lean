import Mathlib.Tactic.Common
import TedgeDot.Flows.Values

/-!
# Names of parameter sets

Which sets a point belongs to and the key it has there, as `ot-parameter-state` reads them from a
sample or from an entry of a capability descriptor. A set of a point is always a plain identifier,
or the configured `default_set` word for word.
-/

namespace TedgeDot.Flows

/-! ## Sets -/

/-- The text of an `access`, where that can be one: a string, or an array of one. -/
def accessText : Json → String
  | .string s => s
  | .array items => onlyText items
  | _ => ""
where
  onlyText : List Json → String
    | [v] => accessText v
    | _ => ""

/-- `toLowerCase`, of the letters an access has. -/
def lowerCase (s : String) : String := String.ofList (s.toList.map Char.toLower)

def canWrite (access : Option Json) : Bool :=
  let a := lowerCase ((access.filter truthy).elim "read" accessText)
  a == "write" || a == "read_write" || a == "readwrite"

def defaultGroup : String := "control"

/-- A character of `[A-Za-z0-9]`. -/
def isAlnum (c : Char) : Bool := c.isAlphanum

/-- Each run of other characters becomes one `_`; `inRun` says one has begun. -/
def collapse (inRun : Bool) : List Char → List Char
  | [] => []
  | c :: cs =>
    if isAlnum c then c :: collapse false cs
    else if inRun then collapse true cs
    else '_' :: collapse true cs

def sanitize (s : String) : String := String.ofList (collapse false s.toList)

/-- C's `isspace`. -/
def isSpaceC (c : Char) : Bool :=
  c == ' ' || c == '\t' || c == '\n' || c == '\x0b' || c == '\x0c' || c == '\r'

def trimC (s : String) : String :=
  String.ofList (((s.toList.dropWhile isSpaceC).reverse.dropWhile isSpaceC).reverse)

/-- How the sets of a device are named. -/
structure Names where
  forced : String
  qualifier : String

/-- `naming`, from the configured `default_set`, the recorded type (empty where there is none) and
the protocol. -/
def naming (defaultSet deviceType protocol : String) : Names where
  forced := trimC defaultSet
  qualifier := if deviceType = "" then protocol else deviceType

/-- The set of a point in `group`; an empty group is the default one. -/
def setFor (names : Names) (group : String) : String :=
  if names.forced ≠ "" then names.forced
  else sanitize (names.qualifier ++ "_" ++ (if group = "" then defaultGroup else group) ++
    "_parameters")

def isValidSet (name : String) : Bool :=
  name != "" && name.toList.all fun c => isAlnum c || c == '_'

/-- `namesOf`: the names of a `set` or `group` option. -/
def namesOf (value : Option Json) (validate : Bool) : List String :=
  let names := match value with
    | some (.array items) => items
    | some v => [v]
    | none => []
  names.foldl (fun out name =>
    match name with
    | .string s =>
      if s = "" ∨ s ∈ out ∨ (validate = true ∧ isValidSet s = false) then out else out ++ [s]
    | _ => out) []

/-- The fragment of a literal parameter. -/
def fragmentOf (options : Json) : Option String :=
  ((options.get "fragment").bind Json.asStr).filter isValidSet

/-- A key that names its set, split at its only dot. -/
def dottedKey (key : String) : Option (String × String) :=
  let chars := key.toList
  let set := chars.takeWhile (· != '.')
  match chars.dropWhile (· != '.') with
  | _ :: rest =>
    if set = [] ∨ rest = [] ∨ '.' ∈ rest then none
    else some (String.ofList set, String.ofList rest)
  | [] => none

/-- `keyName`: the key a `key` option publishes under, where it is usable. -/
def keyName (key : Option Json) : Option String :=
  (key.bind Json.asStr).bind fun key =>
    (some ((dottedKey key).elim key (·.2))).filter isValidSet

/-- The set a `key` option names, where it is usable. -/
def keySet (options : Json) : Option String :=
  ((((options.get "key").bind Json.asStr).bind dottedKey).map (·.1)).filter isValidSet

def setsOf (options : Json) (names : Names) : List String :=
  match fragmentOf options with
  | some fragment => [fragment]
  | none =>
    match keySet options with
    | some set => [set]
    | none =>
      match namesOf (options.get "set") true with
      | set :: rest => set :: rest
      | [] =>
        if names.forced ≠ "" then [names.forced]
        else
          match namesOf (options.get "group") false with
          | [] => [setFor names ""]
          | groups => groups.foldl (fun sets group =>
              if setFor names group ∈ sets then sets else sets ++ [setFor names group]) []

/-- `sample.meta?.parameter` -/
def parameterMeta (sample : Json) : Option Json := (sample.get "meta").bind (·.get "parameter")

/-- The sets a sampled point belongs to; none when it is not a parameter. -/
def setsFromSample (sample : Json) (names : Names) : Option (List String) :=
  match parameterMeta sample with
  | some (.bool false) => none
  | some (.string s) => if s ≠ "" ∧ isValidSet s then some [s] else some [setFor names ""]
  | some (.object members) => some (setsOf (.object members) names)
  | none | some .null => if canWrite (sample.get "access") then some [setFor names ""] else none
  | some _ => some [setFor names ""]

/-- The key a literal parameter holds in the set named after its fragment. -/
def literalKey : String := ""

/-- The key a sampled point is published under. -/
def keyFromSample (sample : Json) (point : String) : String :=
  match parameterMeta sample with
  | some (.object members) =>
    if (fragmentOf (.object members)).isSome then literalKey
    else (keyName (Json.get (.object members) "key")).getD point
  | _ => point

/-- The key an entry of a descriptor declares. -/
def declaredKey (entry : Json) : Option String :=
  if (fragmentOf entry).isSome then some literalKey else keyName (entry.get "key")

/-! ## No colon

The names are put together to keys of the store with a colon between them, so it matters that a set
has none of its own. -/

def ColonFree (s : String) : Prop := ':' ∉ s.toList

theorem colonFree_of_valid {name : String} (h : isValidSet name = true) : ColonFree name := by
  intro hcolon
  have hall := (Bool.and_eq_true_iff.1 h).2
  exact absurd (List.all_eq_true.1 hall ':' hcolon) (by decide)

theorem collapse_colonFree (inRun : Bool) (cs : List Char) : ':' ∉ collapse inRun cs := by
  induction cs generalizing inRun with
  | nil => simp [collapse]
  | cons c cs ih =>
    unfold collapse
    split
    · next halnum =>
      have hne : ':' ≠ c := by
        rintro rfl
        exact absurd halnum (by decide)
      simp [hne, ih]
    · split <;> simp [ih]

variable {names : Names}

theorem colonFree_setFor (h : ColonFree names.forced) (group : String) :
    ColonFree (setFor names group) := by
  unfold setFor
  split
  · exact h
  · simpa [ColonFree, sanitize] using collapse_colonFree false _

/-- A name read from a sample is a valid set name. -/
theorem valid_of_mem_namesOf {value : Option Json} {name : String}
    (h : name ∈ namesOf value true) : isValidSet name = true := by
  have hfold : ∀ (items : List Json) (out : List String), (∀ s ∈ out, isValidSet s = true) →
      ∀ s ∈ items.foldl (fun out name =>
        match name with
        | .string s =>
          if s = "" ∨ s ∈ out ∨ (true = true ∧ isValidSet s = false) then out else out ++ [s]
        | _ => out) out, isValidSet s = true := by
    intro items
    induction items with
    | nil => exact fun _ hout => hout
    | cons item items ih =>
      intro out hout
      rw [List.foldl_cons]
      apply ih
      split
      · next text =>
        split
        · exact hout
        · next hnew =>
          intro s hs
          rcases List.mem_append.1 hs with hs | hs
          · exact hout s hs
          · rw [List.mem_singleton.1 hs]
            simp only [true_and, not_or, Bool.not_eq_false] at hnew
            exact hnew.2.2
      · exact hout
  exact hfold _ [] (by simp) name h

/-- No set that the options name has a colon, as the key of a value needs it. -/
theorem colonFree_setsOf (h : ColonFree names.forced) (options : Json) :
    ∀ set ∈ setsOf options names, ColonFree set := by
  -- a group is a valid name, and valid names have no colon
  have hgroups : ∀ (groups : List String) (sets : List String), (∀ s ∈ sets, ColonFree s) →
      ∀ s ∈ groups.foldl (fun sets group =>
        if setFor names group ∈ sets then sets else sets ++ [setFor names group]) sets,
        ColonFree s := by
    intro groups
    induction groups with
    | nil => exact fun _ hsets => hsets
    | cons group groups ih =>
      intro sets hsets
      rw [List.foldl_cons]
      apply ih
      split
      · exact hsets
      · intro s hs
        rcases List.mem_append.1 hs with hs | hs
        · exact hsets s hs
        · rw [List.mem_singleton.1 hs]
          exact colonFree_setFor h group
  intro set hset
  unfold setsOf at hset
  split at hset
  · next fragment hfragment =>
    rw [List.mem_singleton.1 hset]
    exact colonFree_of_valid (Option.filter_eq_some_iff.1 hfragment).2
  · split at hset
    · next hkey =>
      rw [List.mem_singleton.1 hset]
      exact colonFree_of_valid (Option.filter_eq_some_iff.1 hkey).2
    · split at hset
      · next hnames => exact colonFree_of_valid (valid_of_mem_namesOf (hnames ▸ hset))
      · split at hset
        · rw [List.mem_singleton.1 hset]
          exact h
        · split at hset
          · rw [List.mem_singleton.1 hset]
            exact colonFree_setFor h ""
          · exact hgroups _ [] (by simp) set hset

/-- Nor has any set that a sample names. -/
theorem colonFree_setsFromSample (h : ColonFree names.forced) {sample : Json} {sets : List String}
    (hsets : setsFromSample sample names = some sets) : ∀ set ∈ sets, ColonFree set := by
  have hdefault : ∀ set ∈ [setFor names ""], ColonFree set := by
    intro set hset
    rw [List.mem_singleton.1 hset]
    exact colonFree_setFor h ""
  unfold setsFromSample at hsets
  split at hsets
  · cases hsets
  · split at hsets
    · next hvalid =>
      obtain rfl := Option.some.inj hsets
      intro set hset
      rw [List.mem_singleton.1 hset]
      exact colonFree_of_valid hvalid.2
    · exact Option.some.inj hsets ▸ hdefault
  · exact Option.some.inj hsets ▸ colonFree_setsOf h _
  · split at hsets
    · exact Option.some.inj hsets ▸ hdefault
    · cases hsets
  · split at hsets
    · exact Option.some.inj hsets ▸ hdefault
    · cases hsets
  · exact Option.some.inj hsets ▸ hdefault

end TedgeDot.Flows
