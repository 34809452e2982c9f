import Mathlib.Data.List.FinRange
import Mathlib.Logic.Function.Basic
import TedgeDot.Snmp.Notification

/-!
# Routing notifications

`listener.rs`: a datagram is tried on the device that its source belongs to, or, from a trusted
forwarder, on every device in turn. The v3 state of a device that the datagram turns out not to be
for is put back.

The library that parses and authenticates messages is a parameter (`Snmp2`).

- `delivered_to_right_device`: who gets a notification, and what is left unchanged.
-/

namespace TedgeDot.Snmp

/-! ## The library -/

inductive SecurityLevel where
  | noAuthNoPriv
  | authNoPriv
  | authPriv
deriving DecidableEq

def SecurityLevel.rank : SecurityLevel → Nat
  | .noAuthNoPriv => 0
  | .authNoPriv => 1
  | .authPriv => 2

instance : LT SecurityLevel := ⟨fun a b => a.rank < b.rank⟩

instance (a b : SecurityLevel) : Decidable (a < b) := inferInstanceAs (Decidable (a.rank < b.rank))

/-- The header of a v3 message. -/
structure Header where
  userName : List UInt8
  isReportable : Bool

structure Refusal where
  report : Option (List UInt8)
  error : String

/-- `snmp2`: the security state of a user, an engine, and messages that passed its checks. -/
structure Snmp2 (Security Engine Message : Type) where
  /-- `Header::parse`. -/
  parseHeader : List UInt8 → Option Header
  /-- `Pdu::from_bytes`. -/
  fromBytes : List UInt8 → Except String Pdu
  /-- `to_bytes`. -/
  toBytes : Pdu → Except String (List UInt8)
  /-- `LocalEngine::receive`, with the state it leaves the engine and the user in. -/
  receive : Engine → List UInt8 → Option Security →
    Except Refusal Message × Engine × Option Security
  /-- `receive_non_authoritative`, with the state it leaves the user in. -/
  receiveNonAuthoritative : List UInt8 → Security → Except String Message × Security
  /-- `acknowledge`. -/
  acknowledge : Engine → Message → Except String (List UInt8)
  /-- The security level of the header of a message. -/
  securityLevel : Message → SecurityLevel
  pdu : Message → Pdu

/-! ## Routes -/

/-- `normalize`: an IPv4-mapped IPv6 address is compared as IPv4. -/
def normalize : IpAddr → IpAddr
  | .v4 addr => .v4 addr
  | .v6 addr =>
    if addr.toNat / 2 ^ 32 = 0xFFFF then .v4 (UInt32.ofNat (addr.toNat % 2 ^ 32)) else .v6 addr

section

variable {Security Engine Message : Type} {n : Nat}

structure V3Receive (Security : Type) where
  user : List UInt8
  level : SecurityLevel
  trap : Security
  inform : Security

structure Route (Security : Type) where
  name : String
  communities : Option (List (List UInt8))
  v3 : Option (V3Receive Security)
  points : List Point
  /-- Which sink the device has. -/
  sink : Option Nat

/-- The table of `n` devices. An address belongs to one of them. -/
structure Routes (Security Engine : Type) (n : Nat) where
  byAddr : IpAddr → Option (Fin n)
  forwarders : IpAddr → Bool
  devices : Fin n → Route Security
  engine : Option Engine

/-- What goes back to the sender. -/
inductive Answer where
  /-- A Response, which acknowledges an inform. -/
  | response (bytes : List UInt8)
  /-- A Report of the library. -/
  | report (bytes : List UInt8)

structure Received where
  notification : Notification
  reply : Option (List UInt8)

inductive Outcome where
  | deliver (received : Received)
  | reply (report : List UInt8) (why : String)
  | drop (why : String)

/-- `Delivery`, with the device it is for and the notification that was accepted for it. -/
structure Delivery (n : Nat) where
  index : Fin n
  notification : Option Notification
  device : String
  sink : Option Nat
  samples : List Sample
  reply : Option Answer

/-! ## One device -/

variable (lib : Snmp2 Security Engine Message)

def informResponse (pdu : Pdu) : Except String (List UInt8) :=
  lib.toBytes { pdu with messageType := .response, errorStatus := 0, errorIndex := 0 }

/-- The notification of a v3 message that passed the checks of the library, if it reaches the level
and is of the type. -/
def checkMessage (level : SecurityLevel) (type : MessageType) (below : String) (message : Message) :
    Except String Notification :=
  if lib.securityLevel message < level then .error below
  else if (lib.pdu message).messageType ≠ type then
    .error s!"a v3 {(lib.pdu message).messageType.debug} is not a notification"
  else fromPdu (lib.pdu message) .v3

def receiveV3 (route : Route Security) (engine : Option Engine) (datagram : List UInt8)
    (header : Header) : Outcome × Route Security × Option Engine :=
  match route.v3 with
  | none => (.drop "the device has no SNMPv3 credentials", route, engine)
  | some v3 =>
    let knownUser := header.userName == v3.user
    if header.isReportable then
      match engine with
      | none => (.drop "this connector has no SNMP engine of its own", route, none)
      | some engine =>
        let (result, engine, inform) :=
          lib.receive engine datagram (if knownUser then some v3.inform else none)
        let route := { route with v3 := some { v3 with inform := inform.getD v3.inform } }
        match result with
        | .ok message =>
          match checkMessage lib v3.level .informRequest
            "the inform is below the security level configured for this device" message with
          | .error e => (.drop e, route, some engine)
          | .ok notification =>
            let reply := (lib.acknowledge engine message).toOption
            (.deliver { notification, reply }, route, some engine)
        | .error refusal =>
          match refusal.report with
          | some report => (.reply report refusal.error, route, some engine)
          | none => (.drop refusal.error, route, some engine)
    else if !knownUser then
      (.drop "the v3 user is not the one configured for this device", route, engine)
    else
      let (result, trap) := lib.receiveNonAuthoritative datagram v3.trap
      let route := { route with v3 := some { v3 with trap } }
      match result with
      | .ok message =>
        match checkMessage lib v3.level .trap
          "the trap is below the security level configured for this device" message with
        | .error e => (.drop e, route, engine)
        | .ok notification => (.deliver { notification, reply := none }, route, engine)
      | .error e => (.drop e, route, engine)

def accepts (route : Route Security) (community : List UInt8) : Bool :=
  match route.communities with
  | some accepted => accepted.contains community
  | none => true

/-- `receive`, from the check of the community on. -/
def receiveCommunity (route : Route Security) (pdu : Pdu) (version : Version) : Outcome :=
  if !accepts route pdu.community then .drop "the community is not one this device accepts"
  else
    match fromPdu pdu version with
    | .error e => .drop e
    | .ok notification =>
      let reply := match notification.pdu with
        | .inform => (informResponse lib pdu).toOption
        | .trap => none
      .deliver { notification, reply }

/-- `receive`, of a message without a v3 header. -/
def receiveV2 (route : Route Security) (datagram : List UInt8) : Outcome :=
  match lib.fromBytes datagram with
  | .error e => .drop s!"it does not decode: {e}"
  | .ok pdu =>
    match pdu.version with
    | some .v1 => receiveCommunity lib route pdu .v1
    | some .v2c => receiveCommunity lib route pdu .v2c
    | _ => .drop "an SNMPv3 message with no readable header"

def receive (route : Route Security) (engine : Option Engine) (datagram : List UInt8) :
    Outcome × Route Security × Option Engine :=
  match lib.parseHeader datagram with
  | some header => receiveV3 lib route engine datagram header
  | none => (receiveV2 lib route datagram, route, engine)

/-! ## All devices -/

/-- A refusal outranks the one kept so far: a Report outranks a Drop. -/
def outranks (kept : Option (Fin n × Outcome)) (outcome : Outcome) : Bool :=
  match kept, outcome with
  | none, _ => true
  | some (_, .reply ..), _ => false
  | some _, .reply .. => true
  | _, _ => false

/-- The source that a notification is published under, if it is for the device. From a forwarder,
its last `snmpTrapAddress.0` says whose it is. -/
def sourceFor (routes : Routes Security Engine n) (forwarded : Bool) (peerIp : IpAddr)
    (index : Fin n) (notification : Notification) : Option IpAddr :=
  if forwarded then
    match notification.trapAddress.map normalize with
    | some address => if routes.byAddr address = some index then some address else none
    | none => none
  else some peerIp

/-- The loop of `handle` over the devices that the datagram may be for. -/
def tryCandidates (datagram : List UInt8) (forwarded : Bool) (peerIp : IpAddr) (ts : Nat) :
    List (Fin n) → Routes Security Engine n → Option (Fin n × Outcome) →
      Option (Delivery n) × Routes Security Engine n
  | [], routes, refusal =>
    match refusal with
    | some (index, .reply report _) =>
      (some { index, notification := none, device := (routes.devices index).name, sink := none,
              samples := [], reply := some (.report report) }, routes)
    | _ => (none, routes)
  | index :: rest, routes, refusal =>
    let saved := (routes.devices index).v3
    let (outcome, route, engine) := receive lib (routes.devices index) routes.engine datagram
    let tried := { routes with devices := Function.update routes.devices index route, engine }
    let restored :=
      { tried with devices := Function.update tried.devices index { route with v3 := saved } }
    match outcome with
    | .deliver received =>
      match sourceFor routes forwarded peerIp index received.notification with
      | some source =>
        (some { index, notification := some received.notification, device := route.name,
                sink := route.sink
                samples := samplesFor route.name route.points received.notification source
                  (if forwarded then some peerIp else none) ts
                reply := received.reply.map .response }, tried)
      | none => tryCandidates datagram forwarded peerIp ts rest restored refusal
    | outcome =>
      tryCandidates datagram forwarded peerIp ts rest restored
        (if outranks refusal outcome then some (index, outcome) else refusal)

def handle (routes : Routes Security Engine n) (datagram : List UInt8) (peer : IpAddr) (ts : Nat) :
    Option (Delivery n) × Routes Security Engine n :=
  let peerIp := normalize peer
  let forwarded := routes.forwarders peerIp
  match forwarded, routes.byAddr peerIp with
  | true, _ => tryCandidates lib datagram true peerIp ts (List.finRange n) routes none
  | false, some index => tryCandidates lib datagram false peerIp ts [index] routes none
  | false, none => (none, routes)

/-! ## The right device -/

/-- The checks of a device on a datagram that says a notification. -/
def Passed (route : Route Security) (datagram : List UInt8) (notification : Notification) : Prop :=
  match lib.parseHeader datagram with
  | some header => ∃ v3, route.v3 = some v3 ∧ header.userName = v3.user ∧ ∃ message,
      ¬ lib.securityLevel message < v3.level ∧ fromPdu (lib.pdu message) .v3 = .ok notification ∧
      if header.isReportable then
        ∃ engine, (lib.receive engine datagram (some v3.inform)).1 = .ok message
      else (lib.receiveNonAuthoritative datagram v3.trap).1 = .ok message
  | none => ∃ pdu version, lib.fromBytes datagram = .ok pdu ∧ pdu.version = some version ∧
      version ≠ .v3 ∧ (∀ accepted, route.communities = some accepted → pdu.community ∈ accepted) ∧
      fromPdu pdu version = .ok notification

/-- The device that a notification from a peer is for, and the source it is published under: the
peer itself, or the last address that a forwarder gives. -/
def IsFor (routes : Routes Security Engine n) (peer : IpAddr) (index : Fin n)
    (notification : Notification) (source : IpAddr) : Prop :=
  routes.byAddr source = some index ∧
    if routes.forwarders (normalize peer) then
      notification.trapAddress.map normalize = some source
    else source = normalize peer

/-- What the answer of the listener to a datagram promises. -/
structure Right (routes : Routes Security Engine n) (datagram : List UInt8) (peer : IpAddr)
    (ts : Nat) (delivery : Option (Delivery n)) (after : Routes Security Engine n) : Prop where
  named : ∀ d ∈ delivery, d.device = (routes.devices d.index).name
  /-- A notification is for the device it is delivered to, which checked it, and its samples are of
  the points of that device, for its sink. -/
  checked : ∀ d ∈ delivery, ∀ notification ∈ d.notification, ∃ source,
    IsFor routes peer d.index notification source ∧
      Passed lib (routes.devices d.index) datagram notification ∧
      d.sink = (routes.devices d.index).sink ∧
      d.samples = samplesFor (routes.devices d.index).name (routes.devices d.index).points
        notification source
        (if routes.forwarders (normalize peer) then some (normalize peer) else none) ts
  /-- Every sample names that device, and one of its points. -/
  own : ∀ d ∈ delivery, ∀ x ∈ d.samples, x.device = (routes.devices d.index).name ∧
    ∃ p ∈ (routes.devices d.index).points, x.point = p.id
  /-- Only a notification makes samples. -/
  refused : ∀ d ∈ delivery, d.notification = none → d.samples = [] ∧ d.sink = none
  /-- A Response answers an inform that is delivered. -/
  answered : ∀ d ∈ delivery, ∀ bytes, d.reply = some (.response bytes) →
    ∃ notification ∈ d.notification, notification.pdu = .inform
  /-- The v3 state of every other device is what it was. -/
  kept : ∀ i, (∀ d ∈ delivery, d.notification.isSome → d.index ≠ i) →
    (after.devices i).v3 = (routes.devices i).v3

/-- The library accepts no v3 message for its own engine without a user. -/
def Snmp2.NeedsUser : Prop :=
  ∀ engine datagram message, (lib.receive engine datagram none).1 ≠ .ok message

/-! ## One candidate -/

variable {lib}

theorem checkMessage_ok {level : SecurityLevel} {type : MessageType} {below : String}
    {message : Message} {notification : Notification}
    (h : checkMessage lib level type below message = .ok notification) :
    ¬ lib.securityLevel message < level ∧ (lib.pdu message).messageType = type ∧
      fromPdu (lib.pdu message) .v3 = .ok notification := by
  unfold checkMessage at h
  split at h
  · cases h
  · next hlevel =>
    split at h
    · cases h
    · next htype => exact ⟨hlevel, not_not.mp htype, h⟩

theorem receive_route (route : Route Security) (engine : Option Engine) (datagram : List UInt8) :
    { (receive lib route engine datagram).2.1 with v3 := route.v3 } = route := by
  unfold receive
  split
  · unfold receiveV3
    split
    · rfl
    · simp only
      split
      · split
        · rfl
        · repeat' split
          all_goals rfl
      · repeat' split
        all_goals rfl
  · rfl

variable {route : Route Security} {engine : Option Engine} {datagram : List UInt8}
  {received : Received}

/-- A v3 notification that is delivered passed the device's checks. -/
theorem receiveV3_deliver (huser : lib.NeedsUser) {header : Header}
    (hheader : lib.parseHeader datagram = some header)
    (h : (receiveV3 lib route engine datagram header).1 = .deliver received) :
    Passed lib route datagram received.notification ∧
      (received.reply.isSome → received.notification.pdu = .inform) := by
  unfold receiveV3 at h
  unfold Passed
  rw [hheader]
  cases hv3 : route.v3 with
  | none => simp [hv3] at h
  | some v3 =>
    simp only [hv3] at h
    cases hreportable : header.isReportable with
    | true =>
      simp only [hreportable, if_true] at h
      cases engine with
      | none => cases h
      | some engine =>
        cases hknown : header.userName == v3.user with
        | false =>
          -- without a user the library accepts nothing
          simp only [hknown, Bool.false_eq_true, if_false] at h
          split at h
          · next message hmessage => exact absurd hmessage (huser engine datagram message)
          · split at h <;> cases h
        | true =>
          simp only [hknown, if_true] at h
          split at h
          · next message hmessage =>
            split at h
            · cases h
            · next notification hcheck =>
              cases h
              obtain ⟨hlevel, htype, hnotification⟩ := checkMessage_ok hcheck
              have hkind := kindOf_of_fromPdu hnotification
              simp only [kindOf, htype] at hkind
              refine ⟨⟨v3, rfl, eq_of_beq hknown, message, hlevel, hnotification, ?_⟩,
                fun _ => (Except.ok.inj hkind).symm⟩
              rw [if_pos hreportable]
              exact ⟨engine, hmessage⟩
          · split at h <;> cases h
    | false =>
      simp only [hreportable, Bool.false_eq_true, if_false] at h
      cases hknown : header.userName == v3.user with
      | false => simp [hknown] at h
      | true =>
        simp only [hknown, Bool.not_true, Bool.false_eq_true, if_false] at h
        split at h
        · next message hmessage =>
          split at h
          · cases h
          · next notification hcheck =>
            cases h
            obtain ⟨hlevel, -, hnotification⟩ := checkMessage_ok hcheck
            refine ⟨⟨v3, rfl, eq_of_beq hknown, message, hlevel, hnotification, ?_⟩, nofun⟩
            rw [if_neg (by simp [hreportable])]
            exact hmessage
        · cases h

/-- So did a v1 or v2c one. -/
theorem receiveV2_deliver (hheader : lib.parseHeader datagram = none)
    (h : receiveV2 lib route datagram = .deliver received) :
    Passed lib route datagram received.notification ∧
      (received.reply.isSome → received.notification.pdu = .inform) := by
  unfold receiveV2 at h
  unfold Passed
  rw [hheader]
  cases hpdu : lib.fromBytes datagram with
  | error e => simp [hpdu] at h
  | ok pdu =>
    simp only [hpdu] at h
    obtain ⟨version, hversion, hnot, h⟩ : ∃ version, pdu.version = some version ∧
        version ≠ .v3 ∧ receiveCommunity lib route pdu version = .deliver received := by
      cases hversion : pdu.version with
      | none => simp [hversion] at h
      | some version =>
        rw [hversion] at h
        cases version with
        | v1 => exact ⟨.v1, rfl, nofun, h⟩
        | v2c => exact ⟨.v2c, rfl, nofun, h⟩
        | v3 => cases h
    unfold receiveCommunity at h
    split at h
    · cases h
    · next haccepted =>
      split at h
      · cases h
      · next notification hnotification =>
        cases h
        refine ⟨⟨pdu, version, rfl, hversion, hnot, ?_, hnotification⟩, ?_⟩
        · intro accepted hcommunities
          simpa [accepts, hcommunities] using haccepted
        · intro hreply
          cases hkind : notification.pdu with
          | inform => rfl
          | trap => simp [hkind] at hreply

theorem receive_deliver (huser : lib.NeedsUser)
    (h : (receive lib route engine datagram).1 = .deliver received) :
    Passed lib route datagram received.notification ∧
      (received.reply.isSome → received.notification.pdu = .inform) := by
  unfold receive at h
  cases hheader : lib.parseHeader datagram with
  | some header =>
    rw [hheader] at h
    exact receiveV3_deliver huser hheader h
  | none =>
    rw [hheader] at h
    exact receiveV2_deliver hheader h

/-! ## All candidates -/

/-- A table with the same devices and addresses. -/
structure Routes.Same (routes routes' : Routes Security Engine n) : Prop where
  byAddr : routes'.byAddr = routes.byAddr
  devices : routes'.devices = routes.devices

theorem restored_same {routes original : Routes Security Engine n} (h : original.Same routes)
    (index : Fin n) {outcome : Outcome} (datagram : List UInt8)
    (hreceive : receive lib (routes.devices index) routes.engine datagram = (outcome, route, engine)) :
    original.Same
      { routes with
        devices := Function.update (Function.update routes.devices index route) index
          { route with v3 := (routes.devices index).v3 }
        engine } := by
  refine ⟨h.byAddr, ?_⟩
  have hroute : { route with v3 := (routes.devices index).v3 } = routes.devices index := by
    have hreceived := @receive_route _ _ _ lib (routes.devices index) routes.engine datagram
    rw [hreceive] at hreceived
    exact hreceived
  rw [Function.update_idem, hroute, Function.update_eq_self, h.devices]

/-- The source found is one the datagram may be for. -/
theorem isFor_of_sourceFor {routes original : Routes Security Engine n} (h : original.Same routes)
    {peer : IpAddr} {index : Fin n} {notification : Notification} {source : IpAddr}
    (hdirect : original.forwarders (normalize peer) = false →
      original.byAddr (normalize peer) = some index)
    (hsource : sourceFor routes (original.forwarders (normalize peer)) (normalize peer) index
      notification = some source) : IsFor original peer index notification source := by
  unfold IsFor
  cases hforwarded : original.forwarders (normalize peer) with
  | false =>
    simp only [sourceFor, hforwarded, Bool.false_eq_true, if_false] at hsource ⊢
    obtain rfl := Option.some.inj hsource
    exact ⟨hdirect hforwarded, rfl⟩
  | true =>
    simp only [sourceFor, hforwarded, if_true] at hsource ⊢
    split at hsource
    · next address haddress =>
      split at hsource
      · next hindex =>
        obtain rfl := Option.some.inj hsource
        rw [h.byAddr] at hindex
        exact ⟨hindex, haddress⟩
      · cases hsource
    · cases hsource

theorem mem_samplesFor {device : String} {points : List Point} {notification : Notification}
    {source : IpAddr} {forwarder : Option IpAddr} {ts : Nat} {x : Sample}
    (h : x ∈ samplesFor device points notification source forwarder ts) :
    x.device = device ∧ ∃ p ∈ points, x.point = p.id := by
  obtain ⟨p, hp, hx⟩ := List.mem_filterMap.mp h
  have hsample : x.device = device ∧ x.point = p.id := by
    unfold sampleFor at hx
    split at hx
    · cases hx
    · cases hx
      exact ⟨rfl, rfl⟩
    · split at hx <;>
      · cases hx
        exact ⟨rfl, rfl⟩
  exact ⟨hsample.1, p, (List.mem_filter.mp hp).1, hsample.2⟩

/-- Nothing is delivered, and the devices keep their state. -/
theorem right_none {original after : Routes Security Engine n} {peer : IpAddr} {ts : Nat}
    (hkept : ∀ i, (after.devices i).v3 = (original.devices i).v3) :
    Right lib original datagram peer ts none after where
  named := by rintro d ⟨⟩
  checked := by rintro d ⟨⟩
  own := by rintro d ⟨⟩
  refused := by rintro d ⟨⟩
  answered := by rintro d ⟨⟩
  kept := fun i _ => hkept i

/-- A candidate that takes the datagram is the right one. -/
theorem right_delivered (huser : lib.NeedsUser) {original routes : Routes Security Engine n}
    (hsame : original.Same routes) {peer : IpAddr} {ts : Nat} {index : Fin n}
    (hdirect : original.forwarders (normalize peer) = false →
      original.byAddr (normalize peer) = some index)
    (hreceive : receive lib (routes.devices index) routes.engine datagram =
      (.deliver received, route, engine)) {source : IpAddr}
    (hsource : sourceFor routes (original.forwarders (normalize peer)) (normalize peer) index
      received.notification = some source) :
    Right lib original datagram peer ts
      (some { index, notification := some received.notification, device := route.name,
              sink := route.sink
              samples := samplesFor route.name route.points received.notification source
                (if original.forwarders (normalize peer) then some (normalize peer) else none) ts
              reply := received.reply.map .response })
      { routes with devices := Function.update routes.devices index route, engine } := by
  obtain ⟨hpassed, hinform⟩ := receive_deliver huser (congrArg Prod.fst hreceive)
  have hroute := @receive_route _ _ _ lib (routes.devices index) routes.engine datagram
  rw [hreceive, hsame.devices] at hroute
  have hname : route.name = (original.devices index).name := (congrArg Route.name hroute :)
  have hpoints : route.points = (original.devices index).points := (congrArg Route.points hroute :)
  have hsink : route.sink = (original.devices index).sink := (congrArg Route.sink hroute :)
  exact
    { named := by
        rintro d ⟨⟩
        exact hname
      checked := by
        rintro d ⟨⟩ notification ⟨⟩
        rw [hsame.devices] at hpassed
        exact ⟨source, isFor_of_sourceFor hsame hdirect hsource, hpassed, hsink,
          by rw [hname, hpoints]⟩
      own := by
        rintro d ⟨⟩ x hx
        rw [← hname, ← hpoints]
        exact mem_samplesFor hx
      refused := by rintro d ⟨⟩ ⟨⟩
      answered := by
        rintro d ⟨⟩ bytes hbytes
        obtain ⟨reply, hreply, -⟩ := Option.map_eq_some_iff.mp hbytes
        exact ⟨received.notification, rfl, hinform (by rw [hreply]; rfl)⟩
      kept := by
        intro i hi
        have hne : i ≠ index := (hi _ rfl rfl).symm
        simp only [Function.update_of_ne hne, hsame.devices] }

/-- Whichever candidate takes the datagram, it is the right one. -/
theorem tryCandidates_right (huser : lib.NeedsUser) {original : Routes Security Engine n}
    {peer : IpAddr} {ts : Nat} {candidates : List (Fin n)}
    (hdirect : ∀ index ∈ candidates, original.forwarders (normalize peer) = false →
      original.byAddr (normalize peer) = some index)
    {routes : Routes Security Engine n} (hsame : original.Same routes)
    (refusal : Option (Fin n × Outcome)) {delivery : Option (Delivery n)}
    {after : Routes Security Engine n}
    (h : tryCandidates lib datagram (original.forwarders (normalize peer)) (normalize peer) ts
      candidates routes refusal = (delivery, after)) :
    Right lib original datagram peer ts delivery after := by
  induction candidates generalizing routes refusal with
  | nil =>
    have hkept : ∀ i, (routes.devices i).v3 = (original.devices i).v3 := by
      intro i
      rw [hsame.devices]
    unfold tryCandidates at h
    split at h <;> cases h
    · exact
        { named := by
            rintro d ⟨⟩
            rw [hsame.devices]
          checked := by rintro d ⟨⟩ notification ⟨⟩
          own := by
            rintro d ⟨⟩ x hx
            cases hx
          refused := by
            rintro d ⟨⟩ -
            exact ⟨rfl, rfl⟩
          answered := by rintro d ⟨⟩ bytes ⟨⟩
          kept := fun i _ => hkept i }
    · exact right_none hkept
  | cons index rest ih =>
    have hrest : ∀ i ∈ rest, original.forwarders (normalize peer) = false →
        original.byAddr (normalize peer) = some i :=
      fun i hi => hdirect i (List.mem_cons_of_mem _ hi)
    rcases hreceive : receive lib (routes.devices index) routes.engine datagram with
      ⟨outcome, route, engine⟩
    -- a candidate that does not take the datagram is put back as it was
    have hrestored := restored_same hsame index datagram hreceive
    unfold tryCandidates at h
    rw [hreceive] at h
    simp only at h
    split at h
    · next received =>
      split at h
      · next source hsource =>
        cases h
        exact right_delivered huser hsame (hdirect index List.mem_cons_self) hreceive hsource
      · exact ih hrest hrestored _ h
    · exact ih hrest hrestored _ h

variable (lib)

/-- For every table, datagram and source, a notification is delivered to at most one device, the one
that its source, or its forwarder and its last address, names, after the checks of that device; a
Response is sent for an inform that is delivered; and the v3 state of every other device stays what
it was. -/
theorem delivered_to_right_device (huser : lib.NeedsUser) (routes : Routes Security Engine n)
    (datagram : List UInt8) (peer : IpAddr) (ts : Nat) :
    Right lib routes datagram peer ts (handle lib routes datagram peer ts).1
      (handle lib routes datagram peer ts).2 := by
  have hsame : routes.Same routes := ⟨rfl, rfl⟩
  unfold handle
  simp only
  cases hforwarded : routes.forwarders (normalize peer) with
  | true =>
    apply tryCandidates_right huser _ hsame none (by rw [hforwarded])
    intro index _ hnot
    rw [hforwarded] at hnot
    cases hnot
  | false =>
    cases hdirect : routes.byAddr (normalize peer) with
    | none => exact right_none fun i => rfl
    | some index =>
      apply tryCandidates_right huser _ hsame none (by rw [hforwarded])
      intro i hi _
      obtain rfl := List.mem_singleton.mp hi
      exact hdirect

end

/-- The bytes of "public". -/
def publicCommunity : List UInt8 := [0x70, 0x75, 0x62, 0x6C, 0x69, 0x63]

/-- A coldStart trap of SNMPv2c, with `snmpTrapAddress.0` 10.0.0.2. -/
def coldStartPdu : Pdu :=
  { version := some .v2c, community := publicCommunity, messageType := .trap, reqId := 1
    errorStatus := 0, errorIndex := 0, v1TrapInfo := none
    varbinds :=
      [.ok { name := SNMP_TRAP_OID
             value := { kind := .oid, raw := [0x2B, 6, 1, 6, 3, 1, 1, 5, 1]
                        decoded := .oid [1, 3, 6, 1, 6, 3, 1, 1, 5, 1] } },
        .ok { name := SNMP_TRAP_ADDRESS
              value := { kind := .ipAddress, raw := [10, 0, 0, 2]
                         decoded := .ipAddress 0x0A000002 } }] }

def coldStart : List UInt8 :=
  [0x30, 0x44, 2, 1, 1, 4, 6, 0x70, 0x75, 0x62, 0x6C, 0x69, 0x63, 0xA7, 0x37, 2, 1, 1, 2, 1, 0, 2,
    1, 0, 0x30, 0x2C, 0x30, 0x17, 6, 10, 0x2B, 6, 1, 6, 3, 1, 1, 4, 1, 0, 6, 9, 0x2B, 6, 1, 6, 3,
    1, 1, 5, 1, 0x30, 0x11, 6, 9, 0x2B, 6, 1, 6, 3, 18, 1, 3, 0, 0x40, 4, 10, 0, 0, 2]

/-- The library on messages that are not v3. -/
def plainSnmp2 : Snmp2 Unit Unit Pdu where
  parseHeader _ := none
  fromBytes datagram :=
    if datagram = coldStart then .ok coldStartPdu else .error "ASN.1 parse error"
  toBytes _ := .error "ASN.1 parse error"
  receive engine _ user := (.error { report := none, error := "ASN.1 parse error" }, engine, user)
  receiveNonAuthoritative _ user := (.error "ASN.1 parse error", user)
  acknowledge _ _ := .error "ASN.1 parse error"
  securityLevel _ := .noAuthNoPriv
  pdu message := message

/-- Whether the device started. -/
def started : Point :=
  { id := "started", kind := .trap [[1, 3, 6, 1, 6, 3, 1, 1, 5, 1]], mode := .typed
    datatype := some .bool, unit := none, transform := fun value => value }

/-- Two devices, 10.0.0.1 and 10.0.0.2, and the forwarder 10.0.0.9. -/
def twoDevices : Routes Unit Unit 2 where
  byAddr ip := if ip = .v4 0x0A000001 then some 0 else if ip = .v4 0x0A000002 then some 1 else none
  forwarders ip := ip = .v4 0x0A000009
  devices i :=
    { name := s!"meter-{i.val}", communities := some [publicCommunity], v3 := none
      points := [started], sink := some i.val }
  engine := none

/-- A datagram that a forwarder relays for its device. -/
theorem delivered_to_right_device_forwarded :
    Right plainSnmp2 twoDevices coldStart (.v4 0x0A000009) 0
        (handle plainSnmp2 twoDevices coldStart (.v4 0x0A000009) 0).1
        (handle plainSnmp2 twoDevices coldStart (.v4 0x0A000009) 0).2 ∧
      (handle plainSnmp2 twoDevices coldStart (.v4 0x0A000009) 0).1.map
        (fun d => (d.index, d.sink, d.samples.map Sample.point)) = some (1, some 1, ["started"]) :=
  ⟨delivered_to_right_device plainSnmp2 (by rintro _ _ _ ⟨⟩) twoDevices coldStart _ 0, by rfl⟩

end TedgeDot.Snmp
