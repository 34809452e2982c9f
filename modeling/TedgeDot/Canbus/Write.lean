import TedgeDot.Canbus.Signal
import TedgeDot.Lib.Machine

/-!
# Writing a signal of a message

A write of a signal is a read-modify-write of the payload of its message: `platform_execute` of the
Rust connector and `write_point` of the C connector take it from a cache of the frames last seen, by
the identifier of the message. The cache of the Rust connector holds the frames received
(`subscribe_loop`), that of the C connector the frames received and sent. A frame that is received
waits in the socket of its device until the connector takes it: `subscribe_loop` takes one in each
turn, and `drain_frames` all that there are, but only where a point is read.

A ledger tells the latest frame of each message, received or sent. What a write should carry outside
its signal is the ledger's payload (`Carries`).
-/

namespace TedgeDot.Canbus

/-- A frame, of at most eight bytes. -/
structure Frame where
  /-- Without the flags: 11 or 29 bits. -/
  canId : UInt32
  data : List UInt8
deriving DecidableEq

/-- The payload of a frame, filled up with zeros. -/
def Frame.payload (f : Frame) : Payload := Vector.ofFn fun i => (f.data[i.val]?).getD 0

/-- What happens on a device. -/
inductive Event where
  /-- A frame comes to the socket. -/
  | receive (f : Frame)
  /-- The connector takes from the socket: a turn of the Rust loop, a read of a point in C. -/
  | take
  /-- A typed write of the bits of a value; the frame is sent, or sending it fails. -/
  | write (s : Signal) (value : UInt64) (sent : Bool)

/-! ## The Rust connector -/

namespace Rust

/-- `last_frame`, and the frames that wait in the socket. -/
structure State where
  socket : List Frame
  lastFrame : UInt32 → Option Payload

def State.init : State := { socket := [], lastFrame := fun _ => none }

/-- The payload of a frame becomes the last one of its identifier. -/
def insert (lastFrame : UInt32 → Option Payload) (f : Frame) : UInt32 → Option Payload :=
  Function.update lastFrame f.canId (some f.payload)

/-- A turn of `subscribe_loop`. -/
def subscribe (st : State) : State :=
  match st.socket with
  | [] => st
  | f :: socket => { socket, lastFrame := insert st.lastFrame f }

/-- `platform_execute`, from the bits of the value on. The cache is only read. -/
def execute (st : State) (s : Signal) (value : UInt64) : Frame :=
  let payload := (st.lastFrame s.canId).getD Payload.zero
  { canId := s.canId, data := (encodeCanSignal payload s value).toList }

def step (st : State) : Event → State × Option Frame
  | .receive f => ({ st with socket := st.socket ++ [f] }, none)
  | .take => (subscribe st, none)
  | .write s value sent => (st, if sent then some (execute st s value) else none)

end Rust

/-! ## The C connector -/

namespace C

/-- `cb_frame_t`, as writing uses it: `seen` is that there is data. -/
structure Slot where
  canId : UInt32
  data : Option Payload

def cacheFind (cache : List Slot) (canId : UInt32) : Option Slot :=
  cache.find? fun slot => slot.canId == canId

/-- A slot that `cache_find` found is given other data. -/
def cacheStore (canId : UInt32) (data : Payload) : List Slot → List Slot
  | [] => []
  | slot :: cache =>
    if slot.canId = canId then { slot with data := some data } :: cache
    else slot :: cacheStore canId data cache

def CB_MAX_IDS : Nat := 32

/-- `configure`: a slot for each identifier of the points. -/
def configure : List Signal → List Slot → Option (List Slot)
  | [], cache => some cache
  | s :: signals, cache =>
    if (cacheFind cache s.canId).isSome then configure signals cache
    else if cache.length ≥ CB_MAX_IDS then none
    else configure signals (cache ++ [{ canId := s.canId, data := none }])

section Step

-- the length of each message, as the DBC file gives it
variable (dlc : UInt32 → Nat)

/-- What `drain_frames` does with a frame. -/
def drain (cache : List Slot) (f : Frame) : List Slot := cacheStore f.canId f.payload cache

/-- The payload that `write_point` writes into. -/
def lastSeen (cache : List Slot) (canId : UInt32) : Payload :=
  (((cacheFind cache canId).map Slot.data).join).getD Payload.zero

/-- `write_point`, from the bits of the value on: the frame has the length of its message. -/
def writePoint (cache : List Slot) (s : Signal) (value : UInt64) : Payload × Frame :=
  let data := encodeSignal (lastSeen cache s.canId) s value
  (data, { canId := s.canId, data := data.toList.take (min (dlc s.canId) 8) })

/-- The cache of a device, and the frames that wait in its socket. -/
structure State where
  socket : List Frame
  cache : List Slot

def State.init (cache : List Slot) : State := { socket := [], cache }

/-- `drain_frames`, which `read_point` begins with. -/
def drainFrames (st : State) : State := { socket := [], cache := st.socket.foldl drain st.cache }

def step (st : State) : Event → State × Option Frame
  | .receive f => ({ st with socket := st.socket ++ [f] }, none)
  | .take => (drainFrames st, none)
  | .write s value sent =>
    let (data, frame) := writePoint dlc st.cache s value
    if sent then ({ st with cache := cacheStore s.canId data st.cache }, some frame) else (st, none)

end Step

end C

/-! ## The bus -/

/-- How the latest frame of a message came there. -/
inductive Origin where
  | received
  | sent
deriving DecidableEq

/-- The latest frame of each message on the bus, received or sent. -/
abbrev Ledger := UInt32 → Option (Origin × Payload)

def Ledger.init : Ledger := fun _ => none

/-- The ledger after an event, and the frame that was sent for it. -/
def Ledger.note (ledger : Ledger) (e : Event) (sent : Option Frame) : Ledger :=
  match e, sent with
  | .receive f, _ => Function.update ledger f.canId (some (.received, f.payload))
  | .take, _ => ledger
  | .write _ _ _, some f => Function.update ledger f.canId (some (.sent, f.payload))
  | .write _ _ _, none => ledger

section Bus

variable {σ : Type} (step : σ → Event → σ × Option Frame)

/-- A connector, with the ledger of its bus. -/
def onBus (st : σ × Ledger) (e : Event) : (σ × Ledger) × Option Frame :=
  let (next, sent) := step st.1 e
  ((next, st.2.note e sent), sent)

/-- A frame that is sent carries the value at the bits of its signal, and everywhere else the latest
payload of its message. -/
def Carries (st : σ × Ledger) (e : Event) : Prop :=
  match e with
  | .receive _ | .take => True
  | .write s value _ => ∀ f, (step st.1 e).2 = some f → f.canId = s.canId ∧
      (∀ i < s.count, bit f.payload (s.position i) = value.toBitVec.getLsbD i) ∧
      ∀ origin latest, st.2 s.canId = some (origin, latest) →
        ∀ n, ¬ s.Has n → bit f.payload n = bit latest n

end Bus

/-- No frame of the message that a write is for waits in the socket. -/
def Taken (socket : List Frame) (s : Signal) : Prop := ∀ f ∈ socket, f.canId ≠ s.canId

/-! ## Rust -/

namespace Rust

/-- A write of a signal of the payload, where the latest frame of its message was not sent by the
connector and has been taken. -/
def Fresh (st : State × Ledger) : Event → Prop
  | .receive _ | .take => True
  | .write s _ _ => s.InPayload ∧ Taken st.1.socket s ∧ ∀ latest, st.2 s.canId ≠ some (.sent, latest)

/-- What the cache comes to when every frame is taken. -/
def State.drained (st : State) : UInt32 → Option Payload := st.socket.foldl insert st.lastFrame

/-- It then holds the latest frame of every message whose latest frame was received. -/
def Cached (st : State × Ledger) : Prop :=
  ∀ canId latest, st.2 canId = some (.received, latest) → st.1.drained canId = some latest

theorem drained_of_taken {st : State} {s : Signal} (h : Taken st.socket s) :
    st.drained s.canId = st.lastFrame s.canId := by
  unfold State.drained
  generalize st.lastFrame = lastFrame
  generalize st.socket = socket at h
  induction socket generalizing lastFrame with
  | nil => rfl
  | cons f socket ih =>
    obtain ⟨hf, hsocket⟩ := List.forall_mem_cons.mp h
    rw [List.foldl_cons, ih _ hsocket]
    exact Function.update_of_ne hf.symm _ _

theorem drained_receive (st : State) (f : Frame) :
    State.drained { st with socket := st.socket ++ [f] } = insert st.drained f := by
  unfold State.drained
  rw [List.foldl_append]
  rfl

theorem drained_subscribe (st : State) : (subscribe st).drained = st.drained := by
  obtain ⟨socket, lastFrame⟩ := st
  cases socket <;> rfl

theorem payload_toList (p : Payload) (canId : UInt32) :
    Frame.payload { canId, data := p.toList } = p := by
  ext i hi
  simp [Frame.payload]

/-- Rust: the frame kept is the latest one while the connector's own writes are not yet the latest.
-/
theorem cached_step (st : State × Ledger) (e : Event) (h : Cached st) :
    Cached (onBus step st e).1 := by
  cases e with
  | receive f =>
    intro canId latest hlatest
    show State.drained { st.1 with socket := st.1.socket ++ [f] } canId = some latest
    rw [drained_receive, insert]
    have hlatest : Function.update st.2 f.canId (some (.received, f.payload)) canId =
        some (.received, latest) := hlatest
    by_cases hid : canId = f.canId
    · subst hid
      rw [Function.update_self] at hlatest ⊢
      cases hlatest
      rfl
    · rw [Function.update_of_ne hid] at hlatest ⊢
      exact h canId latest hlatest
  | take =>
    intro canId latest hlatest
    show (subscribe st.1).drained canId = some latest
    rw [drained_subscribe]
    exact h canId latest hlatest
  | write s value sent =>
    intro canId latest hlatest
    cases sent with
    | false => exact h canId latest hlatest
    -- the latest frame of the message is now the connector's own: nothing is claimed of it
    | true =>
      have hlatest : Function.update st.2 s.canId
          (some (.sent, (execute st.1 s value).payload)) canId = some (.received, latest) := hlatest
      by_cases hid : canId = s.canId
      · subst hid
        rw [Function.update_self] at hlatest
        cases hlatest
      · rw [Function.update_of_ne hid] at hlatest
        exact h canId latest hlatest

/-- Rust: what is written keeps the payload received last. -/
theorem carries_step (st : State × Ledger) (e : Event) (hfresh : Fresh st e) (h : Cached st) :
    Carries step st e := by
  cases e with
  | receive | take => trivial
  | write s value sent =>
    obtain ⟨hin, htaken, hlatest⟩ := hfresh
    intro f hf
    cases sent with
    | false => cases hf
    | true =>
      obtain rfl : execute st.1 s value = f := Option.some.inj hf
      have hwrites := @Rust.writes s value ((st.1.lastFrame s.canId).getD Payload.zero) hin
      refine ⟨rfl, ?_, ?_⟩
      · intro i hi
        rw [execute, payload_toList]
        exact hwrites.written i hi
      · intro origin latest heq n hn
        cases origin with
        | sent => exact absurd heq (hlatest latest)
        | received =>
          have hcached := (drained_of_taken htaken).symm.trans (h _ _ heq)
          rw [execute, payload_toList, hwrites.kept n hn, hcached]
          rfl

end Rust

/-! ## C -/

namespace C

section Cache

variable {cache : List Slot} {canId : UInt32}

/-- Storing a payload changes the slot of its message only. -/
theorem cacheFind_store (data : Payload) (canId' : UInt32) :
    cacheFind (cacheStore canId data cache) canId' =
      if canId' = canId then (cacheFind cache canId').map fun slot => { slot with data := some data }
      else cacheFind cache canId' := by
  induction cache with
  | nil => simp [cacheFind, cacheStore]
  | cons slot cache ih =>
    unfold cacheFind at ih ⊢
    rw [cacheStore]
    by_cases hid : slot.canId = canId
    · rw [if_pos hid]
      by_cases hid' : canId' = canId
      · simp [hid, hid']
      · have hne : slot.canId ≠ canId' := fun h => hid' (h.symm.trans hid)
        simp [hid', hne]
    · rw [if_neg hid]
      by_cases hid' : slot.canId = canId'
      · have hne : canId' ≠ canId := fun h => hid (hid'.trans h)
        simp [hid', hne]
      · simp only [List.find?_cons, beq_eq_false_iff_ne.mpr hid', ih]

/-- Every configured signal has a slot. -/
theorem configure_spec {signals : List Signal} {cache cache' : List Slot}
    (h : configure signals cache = some cache') :
    (∀ slot ∈ cache, (cacheFind cache' slot.canId).isSome) ∧
      ∀ s ∈ signals, (cacheFind cache' s.canId).isSome := by
  induction signals generalizing cache with
  | nil =>
    cases h
    refine ⟨fun slot hslot => ?_, fun s hs => by cases hs⟩
    rw [cacheFind, List.find?_isSome]
    exact ⟨slot, hslot, beq_self_eq_true _⟩
  | cons s signals ih =>
    rw [configure] at h
    split at h
    · rename_i hfound
      obtain ⟨hcache, hsignals⟩ := ih h
      refine ⟨hcache, fun s' hs' => ?_⟩
      rcases List.mem_cons.mp hs' with rfl | hs'
      · rw [cacheFind, List.find?_isSome] at hfound
        obtain ⟨slot, hslot, hid⟩ := hfound
        rw [← eq_of_beq hid]
        exact hcache slot hslot
      · exact hsignals s' hs'
    · split at h
      · cases h
      · obtain ⟨hcache, hsignals⟩ := ih h
        refine ⟨fun slot hslot => hcache slot (List.mem_append_left _ hslot), fun s' hs' => ?_⟩
        rcases List.mem_cons.mp hs' with rfl | hs'
        · exact hcache _ (List.mem_append_right _ (List.mem_singleton_self _))
        · exact hsignals s' hs'

end Cache

section Step

variable {dlc : UInt32 → Nat} {signals : List Signal}

/-- A write of a configured signal that lies within its message, whose latest frame has been taken
and is not longer than the message. -/
structure Fits (dlc : UInt32 → Nat) (signals : List Signal) (st : State × Ledger) (s : Signal) :
    Prop where
  configured : s ∈ signals
  inPayload : s.InPayload
  inMessage : ∀ n, s.Has n → n < 8 * dlc s.canId
  taken : Taken st.1.socket s
  short : ∀ origin latest, st.2 s.canId = some (origin, latest) →
    ∀ n, 8 * dlc s.canId ≤ n → bit latest n = false

def Fitting (dlc : UInt32 → Nat) (signals : List Signal) (st : State × Ledger) : Event → Prop
  | .receive _ | .take => True
  | .write s _ _ => Fits dlc signals st s

/-- The configured identifiers have slots, and a slot holds the latest frame of its message, as far
as the message goes. -/
structure Holds (dlc : UInt32 → Nat) (signals : List Signal) (cache : List Slot) (ledger : Ledger) :
    Prop where
  found : ∀ s ∈ signals, (cacheFind cache s.canId).isSome
  latest : ∀ canId origin latest, ledger canId = some (origin, latest) →
    (cacheFind cache canId).isSome →
    ∀ n < 8 * dlc canId, bit latest n = bit (lastSeen cache canId) n

/-- So it is when every frame is taken. -/
def Cached (dlc : UInt32 → Nat) (signals : List Signal) (st : State × Ledger) : Prop :=
  Holds dlc signals (st.1.socket.foldl drain st.1.cache) st.2

variable {cache : List Slot} {canId canId' : UInt32} {data : Payload}

theorem isSome_store (h : (cacheFind cache canId').isSome) :
    (cacheFind (cacheStore canId data cache) canId').isSome := by
  rw [cacheFind_store]
  split
  · rwa [Option.isSome_map]
  · exact h

theorem isSome_of_store (h : (cacheFind (cacheStore canId data cache) canId').isSome) :
    (cacheFind cache canId').isSome := by
  rw [cacheFind_store] at h
  split at h
  · rwa [Option.isSome_map] at h
  · exact h

theorem lastSeen_store {canId : UInt32} (h : (cacheFind cache canId).isSome) :
    lastSeen (cacheStore canId data cache) canId = data := by
  obtain ⟨slot, hslot⟩ := Option.isSome_iff_exists.mp h
  rw [lastSeen, cacheFind_store, if_pos rfl, hslot]
  rfl

theorem lastSeen_store_of_ne (h : canId' ≠ canId) :
    lastSeen (cacheStore canId data cache) canId' = lastSeen cache canId' := by
  rw [lastSeen, cacheFind_store, if_neg h]
  rfl

/-- The bits of a frame that is sent with a given length. -/
theorem bit_payload_take (data : Payload) (canId : UInt32) (len n : Nat) :
    bit (Frame.payload { canId, data := data.toList.take (min len 8) }) n =
      if n < 8 * len then bit data n else false := by
  have hget : (Frame.payload { canId, data := data.toList.take (min len 8) })[n / 8]? =
      if n / 8 < 8 then some (if n / 8 < len then (data[n / 8]?).getD 0 else 0) else none := by
    by_cases hbyte : n / 8 < 8
    · rw [if_pos hbyte, Vector.getElem?_eq_getElem hbyte]
      congr 1
      simp only [Frame.payload, Vector.getElem_ofFn, List.getElem?_take]
      by_cases hlen : n / 8 < len
      · rw [if_pos (by omega), if_pos hlen]
        simp
      · rw [if_neg (by omega), if_neg hlen]
        rfl
    · rw [if_neg hbyte, Vector.getElem?_eq_none (by omega)]
  unfold bit
  rw [hget]
  by_cases hbyte : n / 8 < 8
  · rw [if_pos hbyte, Option.getD_some]
    by_cases hlen : n < 8 * len
    · rw [if_pos hlen, if_pos (by omega)]
    · rw [if_neg hlen, if_neg (by omega)]
      simp
  · have hnone : data[n / 8]? = none := Vector.getElem?_eq_none (by omega)
    rw [if_neg hbyte, hnone]
    simp

/-- Other messages leave a slot as it is. -/
theorem cacheFind_foldl {socket : List Frame} (h : ∀ f ∈ socket, f.canId ≠ canId) :
    cacheFind (socket.foldl drain cache) canId = cacheFind cache canId := by
  induction socket generalizing cache with
  | nil => rfl
  | cons f socket ih =>
    obtain ⟨hf, hsocket⟩ := List.forall_mem_cons.mp h
    rw [List.foldl_cons, ih hsocket, drain, cacheFind_store, if_neg hf.symm]

/-- What is in a slot once the socket is drained depends on no other slot. -/
theorem cacheFind_foldl_congr {cache' : List Slot} {socket : List Frame}
    (h : cacheFind cache canId = cacheFind cache' canId) :
    cacheFind (socket.foldl drain cache) canId = cacheFind (socket.foldl drain cache') canId := by
  induction socket generalizing cache cache' with
  | nil => exact h
  | cons f socket ih =>
    rw [List.foldl_cons, List.foldl_cons]
    apply ih
    rw [drain, drain, cacheFind_store, cacheFind_store, h]

theorem Holds.store {ledger : Ledger} {latest data : Payload} {origin : Origin}
    (h : Holds dlc signals cache ledger)
    (hdata : ∀ n < 8 * dlc canId, bit latest n = bit data n) :
    Holds dlc signals (cacheStore canId data cache)
      (Function.update ledger canId (some (origin, latest))) := by
  constructor
  · intro s hs
    exact isSome_store (h.found s hs)
  · intro canId' origin' latest' hlatest hfound n hn
    replace hfound := isSome_of_store hfound
    by_cases hid : canId' = canId
    · subst hid
      rw [Function.update_self] at hlatest
      cases hlatest
      rw [lastSeen_store hfound]
      exact hdata n hn
    · rw [Function.update_of_ne hid] at hlatest
      rw [lastSeen_store_of_ne hid]
      exact h.latest canId' origin' latest' hlatest hfound n hn

theorem Holds.congr {ledger : Ledger} {cache' : List Slot} (h : Holds dlc signals cache ledger)
    (hfind : ∀ canId, cacheFind cache canId = cacheFind cache' canId) :
    Holds dlc signals cache' ledger where
  found s hs := hfind s.canId ▸ h.found s hs
  latest canId origin latest hlatest hfound n hn := by
    rw [← hfind] at hfound
    rw [h.latest canId origin latest hlatest hfound n hn, lastSeen, lastSeen, hfind]

/-- A slot that no waiting frame is for is written before or after the others are taken. -/
theorem cacheFind_foldl_store {socket : List Frame} (h : ∀ f ∈ socket, f.canId ≠ canId)
    (canId' : UInt32) :
    cacheFind (cacheStore canId data (socket.foldl drain cache)) canId' =
      cacheFind (socket.foldl drain (cacheStore canId data cache)) canId' := by
  by_cases hid : canId' = canId
  · subst hid
    rw [cacheFind_foldl h, cacheFind_store, cacheFind_store, cacheFind_foldl h]
  · rw [cacheFind_store, if_neg hid]
    apply cacheFind_foldl_congr
    rw [cacheFind_store, if_neg hid]

/-- C: the slots and the socket hold what was received last. -/
theorem cached_step (st : State × Ledger) (e : Event) (hfit : Fitting dlc signals st e)
    (h : Cached dlc signals st) : Cached dlc signals (onBus (step dlc) st e).1 := by
  cases e with
  | receive f =>
    show Holds dlc signals ((st.1.socket ++ [f]).foldl drain st.1.cache) _
    rw [List.foldl_append]
    exact h.store fun n _ => rfl
  | take => exact h
  | write s value sent =>
    cases sent with
    | false => exact h
    | true =>
      have hbits : ∀ n < 8 * dlc s.canId, bit (writePoint dlc st.1.cache s value).2.payload n =
          bit (writePoint dlc st.1.cache s value).1 n := by
        intro n hn
        simp only [writePoint]
        rw [bit_payload_take, if_pos hn]
      exact (h.store hbits).congr (cacheFind_foldl_store hfit.taken)

/-- C: what is written keeps it. -/
theorem carries_step (st : State × Ledger) (e : Event) (hfit : Fitting dlc signals st e)
    (h : Cached dlc signals st) : Carries (step dlc) st e := by
  cases e with
  | receive | take => trivial
  | write s value sent =>
    intro f hf
    cases sent with
    | false => cases hf
    | true =>
      obtain rfl : (writePoint dlc st.1.cache s value).2 = f := Option.some.inj hf
      have hwrites := @C.writes s value (lastSeen st.1.cache s.canId) hfit.inPayload
      refine ⟨rfl, ?_, ?_⟩
      · intro i hi
        rw [writePoint, bit_payload_take, if_pos (hfit.inMessage _ ⟨i, hi, rfl⟩)]
        exact hwrites.written i hi
      · intro origin latest heq n hn
        rw [writePoint, bit_payload_take]
        by_cases hlt : n < 8 * dlc s.canId
        · have hlatest := h.latest s.canId origin latest heq (h.found s hfit.configured) n hlt
          rw [lastSeen, cacheFind_foldl hfit.taken] at hlatest
          rw [if_pos hlt, hwrites.kept n hn]
          exact hlatest.symm
        · rw [if_neg hlt]
          exact (hfit.short origin latest heq n (Nat.not_lt.mp hlt)).symm

end Step

end C

/-! ## Runs -/

/-- Two signals of a message, in its first and its second byte. -/
def speed : Signal := { canId := 416, start := 0, count := 8, order := .intel }

def torque : Signal := { canId := 416, start := 8, count := 8, order := .intel }

/-- A frame is received, a signal of its message written, and again so with the other signal. -/
def received : List Event :=
  [.receive { canId := 416, data := [1, 2] }, .take, .write speed 5 true,
    .receive { canId := 416, data := [6, 2] }, .take, .write torque 7 true]

/-- The two signals of the example fit with nothing in the socket. -/
theorem fits_of_bytes {st : C.State × Ledger} {s : Signal} {origin : Origin} {a b : UInt8}
    (hs : s = speed ∨ s = torque) (hsocket : st.1.socket = [])
    (hlatest : st.2 416 = some (origin, #v[a, b, 0, 0, 0, 0, 0, 0])) :
    C.Fits (fun _ => 2) [speed, torque] st s where
  configured := by rcases hs with rfl | rfl <;> simp
  inPayload := by rcases hs with rfl | rfl <;> decide
  inMessage := by
    rintro n ⟨i, hi, rfl⟩
    rcases hs with rfl | rfl
    · have hi : i < 8 := hi
      show 0 + i < 16
      omega
    · have hi : i < 8 := hi
      show 8 + i < 16
      omega
  taken f hf := by
    rw [hsocket] at hf
    cases hf
  short origin' latest h n hn := by
    have hid : s.canId = 416 := by rcases hs with rfl | rfl <;> rfl
    rw [hid, hlatest] at h
    cases h
    have hn : ¬ n < 8 * 2 := Nat.not_lt.mpr hn
    have hbit := C.bit_payload_take #v[a, b, 0, 0, 0, 0, 0, 0] 416 2 n
    rw [if_neg hn] at hbit
    exact hbit

end TedgeDot.Canbus
