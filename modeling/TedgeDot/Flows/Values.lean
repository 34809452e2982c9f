import Mathlib.Algebra.Group.Nat.Defs
import Mathlib.Data.List.Sort
import TedgeDot.Lib.Members
import TedgeDot.Sdk.Json

/-!
# JSON values in the flows

What the mapper's scripts do with a parsed message: JavaScript's `Object.entries`, its truth of a
value, and the parts of a topic. A topic is the list of its levels.
-/

namespace TedgeDot.Flows

/-- An MQTT topic, split at `/`. -/
abbrev Topic := List String

/-- A retained message a flow publishes. -/
structure Message where
  topic : Topic
  payload : JsonMap

/-- `Object.entries`, and what `...` spreads. -/
def entries : Json → JsonMap
  | .object members => members
  | .array items => items.zipIdx.map fun x => (toString x.2, x.1)
  | _ => []

/-- The index an own key is, if it is one: such keys come first, in their order. -/
def arrayIndex (key : String) : Option Nat :=
  let digits := key.toList
  let n := digits.foldl (fun n c => n * 10 + (c.toNat - 48)) 0
  if key ≠ "" ∧ digits.all Char.isDigit ∧ (digits.head? = some '0' → key = "0") ∧ n < 2 ^ 32 - 1
  then some n else none

/-- The order in which the members of an object are gone through. -/
def ownOrder (members : JsonMap) : JsonMap :=
  (members.filter fun m => (arrayIndex m.1).isSome).insertionSort
      (fun m n => (arrayIndex m.1).getD 0 ≤ (arrayIndex n.1).getD 0) ++
    members.filter fun m => (arrayIndex m.1).isNone

/-- `object[key]`, of what can be used as a value: functions of the prototype aside, `__proto__` is
the empty prototype where the object has no member of that name. -/
def property (object : JsonMap) (key : String) : Option Json :=
  (object.get key).or (if key = "__proto__" then some (.object []) else none)

/-- `object[key] = value`, of a value that is no object: `__proto__` never becomes a member. -/
def setMember (object : JsonMap) (key : String) (value : Json) : JsonMap :=
  if key = "__proto__" then object else Members.set object key value

def truthy : Json → Bool
  | .null => false
  | .bool b => b
  | .number n => n.asF64 != 0
  | .string s => s != ""
  | .array _ | .object _ => true

/-- `typeof value === "object"`, of a value that is not `null`. -/
def isObject : Json → Bool
  | .array _ | .object _ => true
  | _ => false

/-- `isScalar`: a number, string or bool. -/
def isScalar : Json → Bool
  | .number _ | .string _ | .bool _ => true
  | _ => false

/-- `isTopicSegment`: usable as one topic level. -/
def isTopicSegment (level : String) : Bool :=
  level != "" && level.toList.all fun c => c != '/' && c != '+' && c != '#'

def startsWith (start s : String) : Bool := start.toList.isPrefixOf s.toList

/-- `slice` from a place on. -/
def slice (n : Nat) (s : String) : String := String.ofList (s.toList.drop n)

/-- `split(old).join(new)`, of single characters. -/
def splitJoin (old new : Char) (s : String) : String :=
  String.ofList (s.toList.map fun c => if c = old then new else c)

@[simp] theorem startsWith_append (start s : String) : startsWith start (start ++ s) = true := by
  simp [startsWith]

@[simp] theorem slice_append (start s : String) : slice start.length (start ++ s) = s := by
  simp [slice, ← String.length_toList]

theorem ownOrder_perm (members : JsonMap) : (ownOrder members).Perm members := by
  have hsplit := List.filter_append_perm (fun m : String × Json => (arrayIndex m.1).isSome) members
  unfold ownOrder
  refine List.Perm.trans (List.Perm.append (List.perm_insertionSort _ _) (List.Perm.of_eq ?_)) hsplit
  congr 1
  funext m
  simp

theorem mem_ownOrder {members : JsonMap} {m : String × Json} :
    m ∈ ownOrder members ↔ m ∈ members := by
  simp only [ownOrder, List.mem_append, List.mem_insertionSort, List.mem_filter,
    Option.isNone_iff_eq_none, Option.isSome_iff_ne_none]
  tauto

theorem get_erase (map : JsonMap) (key other : String) :
    JsonMap.get (map.filter fun m => m.1 != other) key =
      if key = other then none else map.get key := by
  induction map with
  | nil => simp [JsonMap.get]
  | cons m map ih =>
    by_cases hm : m.1 = other
    · rw [List.filter_cons_of_neg (by simp [hm]), ih, JsonMap.get_cons]
      by_cases hkey : key = other
      · simp [hkey]
      · simp [hkey, hm, Ne.symm hkey]
    · rw [List.filter_cons_of_pos (by simp [hm]), JsonMap.get_cons, JsonMap.get_cons, ih]
      by_cases hkey : key = other
      · simp [hkey, hm]
      · simp [hkey]

theorem get_setMember (map : JsonMap) (key key' : String) (value : Json) :
    JsonMap.get (setMember map key value) key' =
      if key = key' ∧ key ≠ "__proto__" then some value else map.get key' := by
  unfold setMember
  split
  · next hproto => rw [if_neg fun h => h.2 hproto]
  · next hproto =>
    have hset := Members.get_set map key key' value
    by_cases hkey : key = key'
    · rw [if_pos ⟨hkey, hproto⟩]
      rw [if_pos hkey] at hset
      exact hset
    · rw [if_neg fun h => hkey h.1]
      rw [if_neg hkey] at hset
      exact hset

theorem splitJoin_splitJoin {old new : Char} {s : String} (h : new ∉ s.toList) :
    splitJoin new old (splitJoin old new s) = s := by
  have hchars : s.toList.map ((fun c => if c = new then old else c) ∘
      fun c => if c = old then new else c) = s.toList := by
    refine (List.map_congr_left fun c hc => ?_).trans (List.map_id _)
    have hne : c ≠ new := fun heq => h (heq ▸ hc)
    by_cases hold : c = old <;> simp [hold, hne]
  simp [splitJoin, hchars]

end TedgeDot.Flows
