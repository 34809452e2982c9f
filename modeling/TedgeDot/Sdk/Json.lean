import TedgeDot.Lib.Members

/-!
# JSON values

`serde_json::Value` as the configuration tables and the point metadata carry it. A map is the
list of its members; `insert` replaces a key that is there, so keys stay distinct.
-/

namespace TedgeDot

/-- `serde_json::Number`: an unsigned, a negative or a floating-point number. -/
inductive Number where
  | posInt (n : UInt64)
  | negInt (n : Int64)
  | float (f : Float)
deriving DecidableEq

/-- `Number::as_f64`. A negative integer converts as its magnitude does, with the sign put
back: rounding to nearest is symmetric. -/
def Number.asF64 : Number → Float
  | .posInt n => n.toFloat
  | .negInt n => -(UInt64.ofNat n.toInt.natAbs).toFloat
  | .float f => f

/-- `serde_json::Value`. -/
inductive Json where
  | null
  | bool (b : Bool)
  | number (n : Number)
  | string (s : String)
  | array (items : List Json)
  | object (members : List (String × Json))

/-- `serde_json::Map<String, Value>`. -/
abbrev JsonMap := List (String × Json)

namespace JsonMap

def get (map : JsonMap) (key : String) : Option Json :=
  (map.find? (fun m => m.1 == key)).map Prod.snd

def containsKey (map : JsonMap) (key : String) : Bool := (map.get key).isSome

def insert (map : JsonMap) (key : String) (value : Json) : JsonMap :=
  (key, value) :: map.filter (fun m => m.1 != key)

/-- The members of `patch` inserted into `base`, one after the other. -/
def insertAll (base patch : JsonMap) : JsonMap :=
  patch.foldl (fun acc m => acc.insert m.1 m.2) base

theorem get_cons (m : String × Json) (rest : JsonMap) (key : String) :
    get (m :: rest) key = if m.1 = key then some m.2 else get rest key :=
  Members.get_cons m rest key

theorem get_insert (map : JsonMap) (key key' : String) (value : Json) :
    (map.insert key value).get key' = if key = key' then some value else map.get key' := by
  unfold insert
  rw [get_cons]
  split
  · rfl
  · rename_i h
    exact (Members.get_remove map key key').trans (if_neg h)

theorem mem_of_get {map : JsonMap} {key : String} {value : Json} (h : map.get key = some value) :
    (key, value) ∈ map := Members.mem_of_get h

theorem get_of_mem {map : JsonMap} (h : (map.map Prod.fst).Nodup) {m : String × Json} (hm : m ∈ map) :
    map.get m.1 = some m.2 := Members.get_of_mem h hm

theorem get_insertAll (base : JsonMap) {patch : JsonMap} (h : (patch.map Prod.fst).Nodup)
    (key : String) : (base.insertAll patch).get key = (patch.get key).or (base.get key) := by
  induction patch generalizing base with
  | nil => rfl
  | cons m rest ih =>
    rw [List.map_cons, List.nodup_cons] at h
    show ((base.insert m.1 m.2).insertAll rest).get key = _
    rw [ih _ h.2, get_insert, get_cons]
    by_cases hm : m.1 = key
    · have hrest : get rest key = none := by
        cases hget : get rest key with
        | none => rfl
        | some v => exact absurd (List.mem_map.mpr ⟨_, mem_of_get hget, hm.symm⟩) h.1
      simp [hm, hrest]
    · simp [hm]

end JsonMap

namespace Json

@[elab_as_elim] theorem induction {P : Json → Prop} (null : P .null) (bool : ∀ b, P (.bool b))
    (number : ∀ n, P (.number n)) (string : ∀ s, P (.string s))
    (array : ∀ items, (∀ v ∈ items, P v) → P (.array items))
    (object : ∀ members, (∀ m ∈ members, P (Prod.snd m)) → P (.object members)) (v : Json) : P v :=
  @Json.rec P (fun items => ∀ v ∈ items, P v) (fun members => ∀ m ∈ members, P m.2) (fun m => P m.2)
    null bool number string (fun items ih => array items ih) (fun members ih => object members ih)
    (fun _ h => absurd h List.not_mem_nil)
    (fun _ _ ihhead ihtail => List.forall_mem_cons.mpr ⟨ihhead, ihtail⟩)
    (fun _ h => absurd h List.not_mem_nil)
    (fun _ _ ihhead ihtail => List.forall_mem_cons.mpr ⟨ihhead, ihtail⟩)
    (fun _ _ ih => ih) v

def asBool : Json → Option Bool
  | .bool b => some b
  | _ => none

def asStr : Json → Option String
  | .string s => some s
  | _ => none

def asObject : Json → Option JsonMap
  | .object members => some members
  | _ => none

/-- `Value::get` with a key: a member of an object, nothing of any other value. -/
def get (v : Json) (key : String) : Option Json :=
  match v with
  | .object members => JsonMap.get members key
  | _ => none

/-- `*v == Value::Bool(false)`. -/
def isFalse : Json → Bool
  | .bool false => true
  | _ => false

def isNull : Json → Bool
  | .null => true
  | _ => false

end Json

end TedgeDot
