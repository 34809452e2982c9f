import Mathlib.Data.List.Nodup
import Mathlib.Logic.Function.Basic
import TedgeDot.Lib.Machine
import TedgeDot.Opcua.Reader

/-!
# Namespace tables

`namespaces.rs`, and what `lib.rs` of the OPC UA connector does with it: the node ids of the points
with a table are translated when a session is connected, those that could not be are tried again,
and what was translated is used for every request of the session.

The client library may put another session in the place of the one that it lost. Its
`NamespaceArray` is read by nobody, and the monitored items are created again as they were.

- `addressed`: in which runs every node id that is sent names the namespace of the table.
- `renumbered`: a server that lists its namespaces in another order after a restart.
-/

namespace TedgeDot.Opcua.Namespaces

open Machine

/-! ## Translation -/

abbrev Table := List String

structure Mapped where
  point : String
  node : NodeId
  table : Table

/-- The URI that the table of a point lists for its index. -/
def Mapped.uri (m : Mapped) : String := m.table.getD m.node.ns.toNat ""

/-- `translate`, of one point, against the array of the server or why there is none. -/
def translateOne (m : Mapped) (server : Except String (List String)) : Except String NodeId :=
  match server with
  | .error e => .error s!"namespace array unavailable: {e}"
  | .ok array =>
    match array.findIdx? (· == m.uri) with
    | none => .error s!"namespace not found: {m.uri}"
    | some index => .ok { ns := UInt16.ofNat index, id := m.node.id }

/-- `Translation`, as far as nodes go. -/
abbrev Translation := String → Option (Except String NodeId)

def Translation.apply (nodes : Translation) (points : List Mapped)
    (server : Except String (List String)) : Translation :=
  points.foldl (fun nodes m => Function.update nodes m.point (some (translateOne m server))) nodes

/-! ## Points -/

/-- `OpcuaPoint`, as far as its nodes go. -/
structure Point where
  nodeId : NodeId
  table : Option Table
  /-- The object of a method. -/
  method : Option NodeId
  canWrite : Bool
  /-- The point reads a field of a structure, or raw. -/
  typed : Bool

def objectKey (point : String) : String := point ++ "\x00object"

/-- The points of a device as `configure` accepts them. -/
structure Config where
  points : List (String × Point)
  nodup : (points.map Prod.fst).Nodup
  /-- `check_index`. -/
  checked : ∀ p ∈ points, ∀ table, p.2.table = some table →
    p.2.nodeId.ns.toNat < table.length ∧
      ∀ object, p.2.method = some object → object.ns.toNat < table.length

namespace Config

variable (cfg : Config)

def find (id : String) : Option Point := cfg.points.lookup id

/-- The nodes of a point that are translated. -/
def mappedOf (id : String) (p : Point) : List Mapped :=
  match p.table with
  | none => []
  | some table =>
    { point := id, node := p.nodeId, table } ::
      (p.method.map fun object => { point := objectKey id, node := object, table }).toList

/-- A point that could not be translated. -/
def failed (nodes : Translation) (id : String) (p : Point) : Bool :=
  let failed (key : String) := match nodes key with
    | some (.error _) => true
    | _ => false
  failed id || p.method.isSome && failed (objectKey id)

def translationKeys (nodes : Translation) (retry : Bool) : List Mapped :=
  (cfg.points.filter fun (id, p) => !retry || failed nodes id p).flatMap fun (id, p) =>
    mappedOf id p

def mapped : List Mapped := cfg.points.flatMap fun (id, p) => mappedOf id p

end Config

/-! ## Requests -/

/-- A node id of a request, under the key of its translation. -/
structure Addressed where
  key : String
  node : NodeId

def nodeOf (nodes : Translation) (key : String) : Except String NodeId :=
  match nodes key with
  | some result => result
  | none => .error "namespace not translated"

/-- `effective`: the node that a session uses for a point. -/
def effective (id : String) (p : Point) (nodes : Translation) : Except String NodeId :=
  if p.table.isNone then .ok p.nodeId else nodeOf nodes id

/-- `effective_method`: the object and the method. -/
def effectiveMethod (id : String) (p : Point) (object : NodeId) (nodes : Translation) :
    Except String (NodeId × NodeId) :=
  if p.table.isNone then .ok (object, p.nodeId)
  else do return (← nodeOf nodes (objectKey id), ← nodeOf nodes id)

section

variable (cfg : Config) (nodes : Translation)

/-- The nodes of points, for those that have one. -/
def nodesOf (ids : List String) (wanted : Point → Bool) : List Addressed :=
  ids.filterMap fun id => (cfg.find id).bind fun p =>
    if wanted p then (effective id p nodes).toOption.map ({ key := id, node := · }) else none

/-- The Read of `read_models`; points on one node share an entry there. -/
def readNodes (ids : List String) : List Addressed := nodesOf cfg nodes ids (·.method.isNone)

/-- The nodes that `resolve_types` asks for. -/
def typeNodes : List Addressed := nodesOf cfg nodes (cfg.points.map Prod.fst) (·.typed)

/-- The Write of `execute`. -/
def writeNodes (id : String) : List Addressed := nodesOf cfg nodes [id] (·.canWrite)

/-- The Call of `call_method`. -/
def callNodes (id : String) : List Addressed :=
  match cfg.find id with
  | none => []
  | some p =>
    match p.method with
    | none => []
    | some object =>
      match effectiveMethod id p object nodes with
      | .error _ => []
      | .ok (object, method) =>
        [{ key := objectKey id, node := object }, { key := id, node := method }]

/-- The CreateMonitoredItems of `subscribe`, and of the retry task for the points that wait; points
on one node share an item there. -/
def monitorNodes (ids : List String) : List Addressed := nodesOf cfg nodes ids fun _ => true

end

/-! ## Sessions -/

/-- A request that waits to be sent. -/
structure Request where
  nodes : List Addressed
  monitors : Bool

/-- `SessionHandle`, with the session that the library has for it. -/
structure Opened where
  /-- Its `NamespaceArray`. -/
  array : List String
  translation : Translation
  queue : List Request
  /-- The monitored items of the subscription. -/
  items : List Addressed

/-- What happens to the sessions that were ever connected for a device, each by its number: a reader
may hold one that has been replaced. -/
inductive Event where
  /-- A session with this array is activated, and `connect_one` reads the array, or cannot. -/
  | connect (array : List String) (error : Option String)
  /-- The server adds namespaces. -/
  | grow (k : Nat) (more : List String)
  /-- `translate` of what could not be translated, by a read or by the retry task. -/
  | retry (k : Nat) (error : Option String)
  | read (k : Nat) (ids : List String)
  | resolve (k : Nat)
  | write (k : Nat) (id : String)
  | call (k : Nat) (id : String)
  | subscribe (k : Nat) (ids : List String)
  /-- A request is sent; of the monitored items it asks for, the server creates the accepted. -/
  | send (k : Nat) (j : Nat) (accepted : Addressed → Bool)
  /-- A request is given up before it is sent. -/
  | giveUp (k : Nat) (j : Nat)
  /-- The library establishes a session again, and creates the monitored items that it still
  knows. -/
  | reestablish (k : Nat) (array : List String) (known : Addressed → Bool)

/-- The node ids that are sent, if any, with the array of the session that they are sent in. -/
abbrev Output := Option (List String × List Addressed)

def answer (array : List String) (error : Option String) : Except String (List String) :=
  match error with
  | some e => .error e
  | none => .ok array

/-- A request is prepared, unless there is nothing in it. -/
def Opened.prepare (s : Opened) (nodes : List Addressed) (monitors : Bool) : Opened :=
  if nodes.isEmpty then s else { s with queue := s.queue ++ [{ nodes, monitors }] }

section

variable (cfg : Config)

def translated (array : List String) (error : Option String) : Opened :=
  { array, queue := [], items := []
    translation := Translation.apply (fun _ => none) (cfg.translationKeys (fun _ => none) false)
      (answer array error) }

/-- What an event does to the session that it is about. -/
def Opened.step (s : Opened) : Event → Opened × Output
  | .connect .. => (s, none)
  | .grow _ more => ({ s with array := s.array ++ more }, none)
  | .retry _ error =>
    let keyed := cfg.translationKeys s.translation true
    ({ s with translation := s.translation.apply keyed (answer s.array error) }, none)
  | .read _ ids => (s.prepare (readNodes cfg s.translation ids) false, none)
  | .resolve _ => (s.prepare (typeNodes cfg s.translation) false, none)
  | .write _ id => (s.prepare (writeNodes cfg s.translation id) false, none)
  | .call _ id => (s.prepare (callNodes cfg s.translation id) false, none)
  | .subscribe _ ids => (s.prepare (monitorNodes cfg s.translation ids) true, none)
  | .send _ j accepted =>
    match s.queue[j]? with
    | none => (s, none)
    | some r =>
      let items := if r.monitors then s.items ++ r.nodes.filter accepted else s.items
      ({ s with queue := s.queue.eraseIdx j, items }, some (s.array, r.nodes))
  | .giveUp _ j => ({ s with queue := s.queue.eraseIdx j }, none)
  | .reestablish _ array known =>
    let items := s.items.filter known
    ({ s with array, items }, some (array, items))

/-- The session that an event is about. -/
def Event.session : Event → Option Nat
  | .connect .. => none
  | .grow k _ | .retry k _ | .read k _ | .resolve k | .write k _ | .call k _ | .subscribe k _
  | .send k .. | .giveUp k _ | .reestablish k .. => some k

def step (st : List Opened) (event : Event) : List Opened × Output :=
  match event, event.session with
  | .connect array error, _ => (st ++ [translated cfg array error], none)
  | _, none => (st, none)
  | event, some k =>
    match st[k]? with
    | none => (st, none)
    | some s =>
      let (s, output) := s.step cfg event
      (st.set k s, output)

/-! ## The law -/

/-- A node id that is sent for a node with a table is the configured identifier, in the namespace
whose URI the table lists, by this array. -/
def Addresses (array : List String) (a : Addressed) : Prop :=
  ∀ m ∈ cfg.mapped, m.point = a.key →
    a.node.id = m.node.id ∧
      ∃ uri, m.table[m.node.ns.toNat]? = some uri ∧ array[a.node.ns.toNat]? = some uri

/-- What a step sends addresses the nodes of the tables, in the session that it is sent in. -/
def SendsRight (st : List Opened) (event : Event) : Prop :=
  ∀ array nodes, (step cfg st event).2 = some (array, nodes) → ∀ a ∈ nodes, Addresses cfg array a

/-- A session still has a use for a node id: it is what a node was translated to, or waits in a
request, or is monitored. -/
def Held (s : Opened) (a : Addressed) : Prop :=
  s.translation a.key = some (.ok a.node) ∨ (∃ r ∈ s.queue, a ∈ r.nodes) ∨ a ∈ s.items

/-- The namespaces of the tables are within the indices that a node id can carry. -/
def InRange (array : List String) : Prop :=
  ∀ m ∈ cfg.mapped, ∀ i, array.findIdx? (· == m.uri) = some i → i < 2 ^ 16

/-- A session that is established again has, at the index of every node id that is still held, the
namespace of the one before; and where an array is read, its namespaces are in range. -/
def Steady (st : List Opened) : Event → Prop
  | .connect array none => InRange cfg array
  | .retry k none => ∀ s, st[k]? = some s → InRange cfg s.array
  | .reestablish k array _ => ∀ s, st[k]? = some s → ∀ a, Held s a →
      (∃ m ∈ cfg.mapped, m.point = a.key) →
        array[a.node.ns.toNat]? = s.array[a.node.ns.toNat]?
  | _ => True

/-- No point is named like the object of a method. -/
def Distinct : Prop :=
  ∀ p ∈ cfg.points, ∀ q ∈ cfg.points, q.2.method.isSome → p.1 ≠ objectKey q.1

/-! ## Keys -/

variable {cfg}

theorem objectKey_injective : Function.Injective objectKey := by
  intro a b h
  have hlist : a.toList ++ "\x00object".toList = b.toList ++ "\x00object".toList := by
    simpa only [objectKey, String.toList_append] using congrArg String.toList h
  exact String.toList_injective (List.append_cancel_right hlist)

variable {m : Mapped} {id : String} {p : Point} {array : List String} {node : NodeId} {s : Opened}
  {a : Addressed}

theorem mem_mapped : m ∈ cfg.mapped ↔ ∃ p ∈ cfg.points, m ∈ Config.mappedOf p.1 p.2 := by
  simp [Config.mapped]

theorem mem_mappedOf :
    m ∈ Config.mappedOf id p ↔ ∃ table, p.table = some table ∧
      (m = { point := id, node := p.nodeId, table } ∨
        ∃ object, p.method = some object ∧ m = { point := objectKey id, node := object, table }) := by
  unfold Config.mappedOf
  cases p.table with
  | none => simp
  | some table => cases p.method <;> simp

theorem point_unique {p q : String × Point} (hp : p ∈ cfg.points) (hq : q ∈ cfg.points)
    (h : p.1 = q.1) : p = q :=
  List.inj_on_of_nodup_map cfg.nodup hp hq h

theorem mapped_unique (hdistinct : Distinct cfg) {m m' : Mapped} (hm : m ∈ cfg.mapped)
    (hm' : m' ∈ cfg.mapped) (h : m.point = m'.point) : m = m' := by
  obtain ⟨p, hp, hmp⟩ := mem_mapped.1 hm
  obtain ⟨q, hq, hmq⟩ := mem_mapped.1 hm'
  obtain ⟨table, htable, hmp⟩ := mem_mappedOf.1 hmp
  obtain ⟨table', htable', hmq⟩ := mem_mappedOf.1 hmq
  rcases hmp with rfl | ⟨object, hobject, rfl⟩ <;> rcases hmq with rfl | ⟨object', hobject', rfl⟩
  · obtain rfl := point_unique hp hq h
    simp_all
  · exact absurd h (hdistinct p hp q hq (by simp [hobject']))
  · exact absurd h.symm (hdistinct q hq p hp (by simp [hobject]))
  · obtain rfl := point_unique hp hq (objectKey_injective h)
    simp_all

theorem mapped_listed (hm : m ∈ cfg.mapped) : m.table[m.node.ns.toNat]? = some m.uri := by
  obtain ⟨p, hp, hmp⟩ := mem_mapped.1 hm
  obtain ⟨table, htable, hmp⟩ := mem_mappedOf.1 hmp
  obtain ⟨hnode, hobject⟩ := cfg.checked p hp table htable
  have hlt : m.node.ns.toNat < m.table.length := by
    rcases hmp with rfl | ⟨object, hmethod, rfl⟩
    · exact hnode
    · exact hobject object hmethod
  simp [Mapped.uri, hlt]

theorem translationKeys_subset (nodes : Translation) (retry : Bool)
    (hm : m ∈ cfg.translationKeys nodes retry) : m ∈ cfg.mapped := by
  obtain ⟨p, hp, hmp⟩ := List.mem_flatMap.1 hm
  exact mem_mapped.2 ⟨p, List.mem_of_mem_filter hp, hmp⟩

theorem find_mem (h : cfg.find id = some p) : (id, p) ∈ cfg.points := by
  obtain ⟨l, l', hpoints, -⟩ := List.lookup_eq_some_iff.1 h
  simp [hpoints]

/-! ## What is translated -/

theorem apply_cases (nodes : Translation) (points : List Mapped)
    (server : Except String (List String)) (key : String) :
    nodes.apply points server key = nodes key ∨
      ∃ m ∈ points, m.point = key ∧ nodes.apply points server key = some (translateOne m server) := by
  induction points generalizing nodes with
  | nil => exact .inl rfl
  | cons m rest ih =>
    rcases ih (Function.update nodes m.point (some (translateOne m server))) with h | ⟨m', hm',
      hkey, h⟩
    · by_cases hkey : m.point = key
      · refine .inr ⟨m, List.mem_cons_self, hkey, ?_⟩
        subst hkey
        simpa [Translation.apply] using h
      · left
        simpa [Translation.apply, Ne.symm hkey] using h
    · exact .inr ⟨m', List.mem_cons_of_mem _ hm', hkey, h⟩

theorem translateOne_ok (hrange : ∀ i, array.findIdx? (· == m.uri) = some i → i < 2 ^ 16)
    (h : translateOne m (.ok array) = .ok node) :
    node.id = m.node.id ∧ array[node.ns.toNat]? = some m.uri := by
  unfold translateOne at h
  dsimp only at h
  split at h
  · cases h
  · rename_i i hi
    cases h
    obtain ⟨hlt, huri, -⟩ := List.findIdx?_eq_some_iff_getElem.1 hi
    refine ⟨rfl, ?_⟩
    dsimp only
    rw [UInt16.toNat_ofNat_of_lt' (hrange i hi), List.getElem?_eq_getElem hlt, eq_of_beq huri]

theorem addresses_of_translated (hdistinct : Distinct cfg) (hrange : InRange cfg array)
    (hm : m ∈ cfg.mapped) (h : translateOne m (.ok array) = .ok node) :
    Addresses cfg array { key := m.point, node } := by
  intro m' hm' hkey
  obtain rfl := mapped_unique hdistinct hm' hm hkey
  obtain ⟨hid, huri⟩ := translateOne_ok (hrange m' hm') h
  exact ⟨hid, m'.uri, mapped_listed hm', huri⟩

/-! ## What is held -/

variable (cfg) in
/-- The invariant of a session: what it still has a use for addresses the nodes of the tables. -/
def Right (s : Opened) : Prop := ∀ a, Held s a → Addresses cfg s.array a

theorem addresses_of_untranslated (hdistinct : Distinct cfg) (hp : (id, p) ∈ cfg.points)
    (htable : p.table = none) (array : List String) (node : NodeId) :
    Addresses cfg array { key := id, node } := by
  intro m hm hkey
  obtain ⟨q, hq, hmq⟩ := mem_mapped.1 hm
  obtain ⟨table, hqtable, hmq⟩ := mem_mappedOf.1 hmq
  rcases hmq with rfl | ⟨object, hobject, rfl⟩
  · obtain rfl := point_unique hq hp hkey
    simp [htable] at hqtable
  · exact absurd hkey.symm (hdistinct (id, p) hp q hq (by simp [hobject]))

theorem addresses_objectKey (hdistinct : Distinct cfg) (hp : (id, p) ∈ cfg.points)
    (htable : p.table = none) (hmethod : p.method.isSome) (array : List String) (node : NodeId) :
    Addresses cfg array { key := objectKey id, node } := by
  intro m hm hkey
  obtain ⟨q, hq, hmq⟩ := mem_mapped.1 hm
  obtain ⟨table, hqtable, hmq⟩ := mem_mappedOf.1 hmq
  rcases hmq with rfl | ⟨object, -, rfl⟩
  · exact absurd hkey (hdistinct q hq (id, p) hp hmethod)
  · obtain rfl := point_unique hq hp (objectKey_injective hkey)
    simp [htable] at hqtable

theorem nodeOf_ok {nodes : Translation} {key : String} (h : nodeOf nodes key = .ok node) :
    nodes key = some (.ok node) := by
  unfold nodeOf at h
  split at h
  · rename_i result hresult
    rw [hresult, h]
  · cases h

theorem addresses_nodesOf (hdistinct : Distinct cfg) (hs : Right cfg s) (ids : List String)
    (wanted : Point → Bool) :
    ∀ a ∈ nodesOf cfg s.translation ids wanted, Addresses cfg s.array a := by
  intro a ha
  obtain ⟨id, -, ha⟩ := List.mem_filterMap.1 ha
  obtain ⟨p, hp, ha⟩ := Option.bind_eq_some_iff.1 ha
  split at ha
  · obtain ⟨node, hnode, rfl⟩ := Option.map_eq_some_iff.1 ha
    cases htable : p.table with
    | none => exact addresses_of_untranslated hdistinct (find_mem hp) htable _ _
    | some table =>
      have hok : effective id p s.translation = .ok node := by
        cases heff : effective id p s.translation with
        | error e => simp [heff, Except.toOption] at hnode
        | ok node' => simpa [heff, Except.toOption] using hnode
      simp only [effective, htable, Option.isNone_some, Bool.false_eq_true, if_false] at hok
      exact hs _ (.inl (nodeOf_ok hok))
  · cases ha

/-- A call addresses the nodes configured. -/
theorem addresses_callNodes (hdistinct : Distinct cfg) (hs : Right cfg s) (id : String) :
    ∀ a ∈ callNodes cfg s.translation id, Addresses cfg s.array a := by
  unfold callNodes
  split
  · simp
  · rename_i p hp
    split
    · simp
    · rename_i object hobject
      split
      · simp
      · rename_i object' method hboth
        have hpair : Addresses cfg s.array { key := objectKey id, node := object' } ∧
            Addresses cfg s.array { key := id, node := method } := by
          cases htable : p.table with
          | none => exact ⟨addresses_objectKey hdistinct (find_mem hp) htable (by simp [hobject]) _ _,
              addresses_of_untranslated hdistinct (find_mem hp) htable _ _⟩
          | some table =>
            simp only [effectiveMethod, htable, Option.isNone_some, Bool.false_eq_true, if_false]
              at hboth
            obtain ⟨o, ho, hboth⟩ := bind_ok hboth
            obtain ⟨m, hm, hboth⟩ := bind_ok hboth
            cases hboth
            exact ⟨hs _ (.inl (nodeOf_ok ho)), hs _ (.inl (nodeOf_ok hm))⟩
        simpa using hpair

theorem right_prepare (hs : Right cfg s) {nodes : List Addressed}
    (hnodes : ∀ a ∈ nodes, Addresses cfg s.array a) (monitors : Bool) :
    Right cfg (s.prepare nodes monitors) := by
  unfold Opened.prepare
  split
  · exact hs
  · rintro a (ha | ⟨r, hr, ha⟩ | ha)
    · exact hs a (.inl ha)
    · rcases List.mem_append.1 hr with hr | hr
      · exact hs a (.inr (.inl ⟨r, hr, ha⟩))
      · obtain rfl := List.mem_singleton.1 hr
        exact hnodes a ha
    · exact hs a (.inr (.inr ha))

theorem right_apply (hdistinct : Distinct cfg) (hs : Right cfg s) {points : List Mapped}
    (hpoints : ∀ m ∈ points, m ∈ cfg.mapped) {error : Option String}
    (hrange : error = none → InRange cfg s.array) :
    Right cfg { s with translation := s.translation.apply points (answer s.array error) } := by
  rintro a (ha | ha)
  · rcases apply_cases s.translation points (answer s.array error) a.key with h | ⟨m, hm, hkey, h⟩
    · exact hs a (.inl (h ▸ ha))
    · dsimp only at ha
      rw [h] at ha
      cases error with
      | some e => cases ha
      | none =>
        have hright := addresses_of_translated hdistinct (hrange rfl) (hpoints m hm)
          (Option.some.inj ha)
        rwa [hkey] at hright
  · exact hs a (.inr ha)

theorem Addresses.append (h : Addresses cfg array a) (more : List String) :
    Addresses cfg (array ++ more) a := by
  intro m hm hkey
  obtain ⟨hid, uri, hlisted, huri⟩ := h m hm hkey
  obtain ⟨hlt, -⟩ := List.getElem?_eq_some_iff.1 huri
  exact ⟨hid, uri, hlisted, by rwa [List.getElem?_append_left hlt]⟩

theorem Addresses.congr {array array' : List String} (h : Addresses cfg array a)
    (hsame : (∃ m ∈ cfg.mapped, m.point = a.key) → array'[a.node.ns.toNat]? =
      array[a.node.ns.toNat]?) :
    Addresses cfg array' a := by
  intro m hm hkey
  obtain ⟨hid, uri, hlisted, huri⟩ := h m hm hkey
  exact ⟨hid, uri, hlisted, (hsame ⟨m, hm, hkey⟩).trans huri⟩

theorem right_translated (hdistinct : Distinct cfg) {error : Option String}
    (hrange : error = none → InRange cfg array) : Right cfg (translated cfg array error) :=
  right_apply (s := { array, translation := fun _ => none, queue := [], items := [] }) hdistinct
    (by rintro a (ha | ⟨r, hr, -⟩ | ha) <;> simp at *) 
    (fun _ hm => translationKeys_subset _ _ hm) hrange

/-! ## Every step -/

theorem mem_of_send {j : Nat} {r : Request} (hr : s.queue[j]? = some r) (ha : a ∈ r.nodes) :
    Held s a := .inr (.inl ⟨r, List.mem_of_getElem? hr, ha⟩)

/-- Every event leaves each session's translation right for its server. -/
theorem step_right (hdistinct : Distinct cfg) (hs : Right cfg s) (event : Event)
    (hsteady : ∀ k array known, event = .reestablish k array known → ∀ a, Held s a →
      (∃ m ∈ cfg.mapped, m.point = a.key) → array[a.node.ns.toNat]? = s.array[a.node.ns.toNat]?)
    (hrange : ∀ k, event = .retry k none → InRange cfg s.array) :
    Right cfg (s.step cfg event).1 ∧ ∀ array nodes, (s.step cfg event).2 = some (array, nodes) →
      ∀ a ∈ nodes, Addresses cfg array a := by
  cases event with
  | connect => exact ⟨hs, by simp [Opened.step]⟩
  | grow k more => exact ⟨fun a ha => (hs a ha).append more, by simp [Opened.step]⟩
  | retry k error =>
    refine ⟨right_apply hdistinct hs (fun m hm => translationKeys_subset _ _ hm) ?_,
      by simp [Opened.step]⟩
    rintro rfl
    exact hrange k rfl
  | read k ids => exact ⟨right_prepare hs (addresses_nodesOf hdistinct hs _ _)
    _, by simp [Opened.step]⟩
  | resolve k => exact ⟨right_prepare hs (addresses_nodesOf hdistinct hs _ _) _, by simp [Opened.step]⟩
  | write k id => exact ⟨right_prepare hs (addresses_nodesOf hdistinct hs _ _)
    _, by simp [Opened.step]⟩
  | call k id => exact ⟨right_prepare hs (addresses_callNodes hdistinct hs id)
    _, by simp [Opened.step]⟩
  | subscribe k ids =>
    exact ⟨right_prepare hs (addresses_nodesOf hdistinct hs _ _) _, by simp [Opened.step]⟩
  -- what is sent was prepared before; a renumbering in between is what the condition leaves out
  | send k j accepted =>
    simp only [Opened.step]
    cases hr : s.queue[j]? with
    | none => exact ⟨hs, by simp⟩
    | some r =>
      refine ⟨?_, by rintro array nodes ⟨⟩ a ha; exact hs a (mem_of_send hr ha)⟩
      rintro a (ha | ⟨r', hr', ha⟩ | ha)
      · exact hs a (.inl ha)
      · exact hs a (.inr (.inl ⟨r', List.mem_of_mem_eraseIdx hr', ha⟩))
      · -- an item is one of before, or one that this request created
        dsimp only at ha
        split at ha
        · rcases List.mem_append.1 ha with ha | ha
          · exact hs a (.inr (.inr ha))
          · exact hs a (mem_of_send hr (List.mem_of_mem_filter ha))
        · exact hs a (.inr (.inr ha))
  | giveUp k j =>
    refine ⟨?_, by simp [Opened.step]⟩
    rintro a (ha | ⟨r', hr', ha⟩ | ha)
    · exact hs a (.inl ha)
    · exact hs a (.inr (.inl ⟨r', List.mem_of_mem_eraseIdx hr', ha⟩))
    · exact hs a (.inr (.inr ha))
  | reestablish k array known =>
    have hsame (a : Addressed) (ha : Held s a) : Addresses cfg array a :=
      (hs a ha).congr (hsteady k array known rfl a ha)
    refine ⟨?_, ?_⟩
    · rintro a (ha | ha | ha)
      · exact hsame a (.inl ha)
      · exact hsame a (.inr (.inl ha))
      · exact hsame a (.inr (.inr (List.mem_of_mem_filter ha)))
    · rintro _ _ ⟨⟩ a ha
      exact hsame a (.inr (.inr (List.mem_of_mem_filter ha)))

theorem step_session {st : List Opened} {event : Event} {k : Nat} (hk : event.session = some k) :
    step cfg st event = match st[k]? with
      | none => (st, none)
      | some s => (st.set k (s.step cfg event).1, (s.step cfg event).2) := by
  cases event <;> cases hk <;> rfl

/-- In every state nodes are addressed as configured. -/
theorem step_spec (hdistinct : Distinct cfg) {st : List Opened} (h : ∀ s ∈ st, Right cfg s)
    (event : Event) (hsteady : Steady cfg st event) :
    (∀ s ∈ (step cfg st event).1, Right cfg s) ∧ SendsRight cfg st event := by
  cases hk : event.session with
  | none =>
    cases event <;> try cases hk
    rename_i array error
    have hnew : Right cfg (translated cfg array error) :=
      right_translated hdistinct (by rintro rfl; exact hsteady)
    exact ⟨List.forall_mem_append.2 ⟨h, by simpa using hnew⟩, by simp [SendsRight, step]⟩
  | some k =>
    unfold SendsRight
    rw [step_session hk]
    cases hs : st[k]? with
    | none => exact ⟨h, by simp⟩
    | some s =>
      obtain ⟨hright, hsends⟩ := step_right hdistinct (h s (List.mem_of_getElem? hs)) event
        (by rintro k' array known rfl; cases hk; exact hsteady s hs)
        (by rintro k' rfl; cases hk; exact hsteady s hs)
      refine ⟨fun t ht => ?_, hsends⟩
      rcases List.mem_or_eq_of_mem_set ht with ht | rfl
      · exact h t ht
      · exact hright

end

/-- Where a session that is established again keeps the namespaces in use at their indices, every
node id that is sent for a point with a table is the configured identifier in the namespace of the
table. -/
theorem addressed (cfg : Config) (hdistinct : Distinct cfg) (events : List Event)
    (h : AllSteps (step cfg) (Steady cfg) [] events) :
    AllSteps (step cfg) (SendsRight cfg) [] events :=
  allSteps_of_allSteps (P := fun st => ∀ s ∈ st, Right cfg s)
    (fun _ event hsteady hst => (step_spec hdistinct hst event hsteady).1)
    (fun _ event hsteady hst => (step_spec hdistinct hst event hsteady).2) h (by simp)

/-- A point of the namespace `urn:plc`. -/
def plc : Config where
  points := [("level",
    { nodeId := { ns := 2, id := .numeric 1234 }
      table := some ["http://opcfoundation.org/UA/", "urn:server", "urn:plc"]
      method := none, canWrite := true, typed := false })]
  nodup := by decide
  checked := by
    intro p hp table htable
    obtain rfl := List.mem_singleton.1 hp
    cases htable
    exact ⟨by decide, by simp⟩

def plcServer : List String := ["http://opcfoundation.org/UA/", "urn:server", "urn:plc"]

/-- The server after a restart with another module. -/
def renumberedServer : List String :=
  ["http://opcfoundation.org/UA/", "urn:server", "urn:drive", "urn:plc"]

/-- One server whose namespaces move. -/
theorem addressed_plc :
    AllSteps (step plc) (SendsRight plc) []
      [.connect renumberedServer none, .read 0 ["level"], .send 0 0 fun _ => true] := by
  refine addressed plc ?_ _ ⟨?_, trivial, trivial, trivial⟩
  · intro p hp q hq hmethod
    obtain rfl := List.mem_singleton.1 hq
    cases hmethod
  · intro m hm i hi
    obtain ⟨hlt, -⟩ := List.findIdx?_eq_some_iff_getElem.1 hi
    exact Nat.lt_trans hlt (by decide)

/-- The library establishes the session again after the server has restarted, and a write goes to
the node of another namespace. -/
theorem renumbered :
    ¬ AllSteps (step plc) (SendsRight plc) []
      [.connect plcServer none, .reestablish 0 renumberedServer fun _ => true, .write 0 "level",
        .send 0 0 fun _ => true] := by
  intro h
  obtain ⟨-, uri, hlisted, huri⟩ := h.2.2.2.1 renumberedServer
    [{ key := "level", node := { ns := 2, id := .numeric 1234 } }] (by rfl) _
    (List.mem_singleton_self _) _ (List.mem_singleton_self _) rfl
  rw [← hlisted] at huri
  exact absurd huri (by decide)

end TedgeDot.Opcua.Namespaces
