import TedgeDot.Lib.Except
import TedgeDot.Lib.Machine
import TedgeDot.Sdk.TdotCodec

/-!
# SDO transfers of the CANopen connector

`connector_canopen.c`. The devices share one socket, which stays open while one of them is
connected. A transfer sends a request and takes the first frame of the node's COB-ID that the socket
gives it.

A frame carries, beside what the bus transports, the number of the request that it answers.

- `answered_iff`: in which runs each answer that is taken belongs to its question.
- `answered_of_prompt`: it does where the nodes answer while the transfer lasts, or not at all.
-/

namespace TedgeDot.Canopen

open Machine

/-! ## Frames -/

/-- `struct can_frame`. -/
structure Frame where
  /-- With the flags of the frame. -/
  canId : UInt32
  dlc : UInt8
  data : Vector UInt8 8
  /-- The request that a node sent the frame for, as the position in the requests that were sent. -/
  answers : Option Nat

def CO_SDO_REQ_BASE : UInt32 := 0x600

def CO_SDO_RESP_BASE : UInt32 := 0x580

def CO_SDO_TIMEOUT_MS : Nat := 1000

def CO_IDENTITY_INDEX : UInt16 := 0x1018

/-- The low and the high byte of an index, and the subindex. -/
def multiplexer (index : UInt16) (subindex : UInt8) : List UInt8 :=
  [index.toUInt8, (index >>> 8).toUInt8, subindex]

def sdoUploadRequest (index : UInt16) (subindex : UInt8) : List UInt8 :=
  0x40 :: (multiplexer index subindex ++ [0, 0, 0, 0])

/-- `sdo_download_request`, of one to four bytes. -/
def sdoDownloadRequest (index : UInt16) (subindex : UInt8) (data : List UInt8) :
    Option (List UInt8) :=
  if data.length < 1 ∨ data.length > 4 then none
  else
    let unused := 4 - data.length
    let command := (0x23 : UInt8) ||| (UInt8.ofNat unused <<< (2 : UInt8))
    some (command :: (multiplexer index subindex ++ (data ++ List.replicate unused 0)))

/-- `"%0*x"` of `printf`. -/
def hex (width n : Nat) : String :=
  let digits := Nat.toDigits 16 n
  String.ofList (List.replicate (width - digits.length) '0' ++ digits)

def sdoAbortCode (resp : Vector UInt8 8) : UInt32 :=
  resp[4].toUInt32 ||| (resp[5].toUInt32 <<< 8) ||| (resp[6].toUInt32 <<< 16) |||
    (resp[7].toUInt32 <<< 24)

def abortText (resp : Vector UInt8 8) : String := s!"SDO abort 0x{hex 8 (sdoAbortCode resp).toNat}"

def unexpectedText (resp : Vector UInt8 8) : String :=
  s!"unexpected SDO response 0x{hex 2 resp[0].toNat}"

/-- `sdo_parse_upload`: the bytes of an expedited upload. -/
def sdoParseUpload (resp : Vector UInt8 8) : Except String (List UInt8) :=
  if resp[0] = 0x80 then .error (abortText resp)
  else if resp[0] &&& 0xE0 ≠ 0x40 then .error (unexpectedText resp)
  else if resp[0] &&& 0x02 = 0 then .error "segmented SDO not supported"
  else
    let n := if resp[0] &&& 0x01 ≠ 0 then 4 - ((resp[0] >>> 2) &&& 0x03).toNat else 4
    .ok ((resp.toList.drop 4).take n)

/-- The checks of `write_point` on the response to a download. -/
def checkDownload (resp : Vector UInt8 8) : Except String Unit :=
  if resp[0] = 0x80 then .error (abortText resp)
  else if resp[0] &&& 0xE0 ≠ 0x60 then .error (unexpectedText resp)
  else .ok ()

/-! ## The connector -/

/-- `co_point_t`, with what reading uses of the point. -/
structure Point where
  index : UInt16
  subindex : UInt8
  datatype : Option DataType
  /-- `tdot_transform_apply`, where the point has a transform. -/
  transform : Option (Float → Float)

/-- A request as it was sent, with the COB-ID. -/
structure Request where
  canId : UInt32
  data : List UInt8
deriving DecidableEq

/-- `co_state_t` with the `connected` of each device, and the requests sent so far. -/
structure State where
  /-- What the socket has queued, where it is open. -/
  fd : Option (List Frame)
  nconnected : Nat
  connected : Nat → Bool
  requests : List Request

def State.init : State :=
  { fd := none, nconnected := 0, connected := fun _ => false, requests := [] }

/-- What the loop of a transfer fails with, before its deadline. -/
inductive LoopError where
  | poll (text : String)
  | recv (text : String)

def LoopError.reason : LoopError → String
  | .poll text => s!"CAN poll: {text}"
  | .recv text => s!"CAN recv: {text}"

/-- What the bus does during a transfer. -/
structure Io where
  /-- The text of the error that sending ends with. -/
  sendError : Option String
  /-- The frames that arrive during the transfer. -/
  arriving : List Frame
  /-- How many frames can be read before the loop ends, by its deadline or by an error. -/
  reads : Nat
  /-- The error that the loop ends with, unless it ends by its deadline. -/
  readError : Option LoopError

def Frame.isResponse (f : Frame) (nodeId : Nat) : Bool :=
  f.canId == CO_SDO_RESP_BASE + UInt32.ofNat nodeId && 8 ≤ f.dlc

/-- The loop of `co_sdo_transfer`: the first response of the node among the frames it reads, and the
frames it leaves. -/
def receive (nodeId : Nat) : Nat → List Frame → Option Frame × List Frame
  | 0, queue => (none, queue)
  | _, [] => (none, [])
  | reads + 1, f :: queue =>
    if f.isResponse nodeId then (some f, queue) else receive nodeId reads queue

/-- The return codes of `co_sdo_transfer` that are not zero. -/
inductive Failure where
  | timeout (reason : String)
  | down (reason : String)

def Failure.reason : Failure → String
  | .timeout reason | .down reason => reason

/-- `co_sdo_transfer`, on the open socket. -/
def coSdoTransfer (st : State) (queue : List Frame) (nodeId : Nat) (req : List UInt8) (io : Io) :
    Except Failure Frame × State :=
  match io.sendError with
  | some e => (.error (.down s!"CAN send: {e}"), { st with fd := some (queue ++ io.arriving) })
  | none =>
    let sent : Request := { canId := CO_SDO_REQ_BASE + UInt32.ofNat nodeId, data := req }
    let (response, rest) := receive nodeId io.reads (queue ++ io.arriving)
    let st := { st with fd := some rest, requests := st.requests ++ [sent] }
    match response with
    | some f => (.ok f, st)
    | none =>
      match io.readError with
      | some e => (.error (.down e.reason), st)
      | none => (.error (.timeout
          s!"SDO timeout (node {nodeId}, no response in {CO_SDO_TIMEOUT_MS} ms)"), st)

def disconnectDevice (st : State) (dev : Nat) : State :=
  if st.connected dev then
    let n := st.nconnected - 1
    { st with
      connected := Function.update st.connected dev false
      nconnected := n
      fd := if n = 0 then none else st.fd }
  else st

/-- The socket is closed where no device uses it. -/
def closeUnused (st : State) : State := if st.nconnected = 0 then { st with fd := none } else st

/-- `connect_device`. Opening the bus ends with an error, or the socket has nothing queued. -/
def connectDevice (interface : String) (nodeId : Nat) (st : State) (dev : Nat)
    (openError : Option String) (io : Io) : Except String Unit × State :=
  let st := disconnectDevice st dev
  match st.fd, openError with
  | none, some e => (.error e, st)
  | fd, _ =>
    let probe := s!"probe node {nodeId} on {interface}: "
    let (response, st) := coSdoTransfer { st with fd := some (fd.getD []) } (fd.getD []) nodeId
      (sdoUploadRequest CO_IDENTITY_INDEX 0) io
    match response with
    | .error e => (.error (probe ++ e.reason), closeUnused st)
    | .ok f =>
      match sdoParseUpload f.data with
      | .error e => (.error (probe ++ e), closeUnused st)
      | .ok _ =>
        (.ok (), { st with
          connected := Function.update st.connected dev true
          nconnected := st.nconnected + 1 })

/-- What a read fills of a sample: `bad` is the error of a sample whose quality is bad. -/
structure Sample where
  raw : List UInt8 := []
  value : Option TdotValue := none
  bad : Option String := none

/-- `tdot_sample_bad`. -/
def sampleBad (sample : Sample) (error : String) : Sample :=
  { sample with value := none, bad := some error }

/-- The value of a point from its bytes on the wire, as `read_point` decodes it. -/
def decodePoint (pt : Point) (data : List UInt8) : Except String (Option TdotValue) :=
  match pt.datatype with
  | none => .ok none
  | some datatype => do
    let value ← TdotCodec.decode datatype data .little .little
    match value, pt.transform with
    | .num num, some transform => .ok (some (.num (transform num)))
    | value, _ => .ok (some value)

/-- The sample that `read_point` makes of a response. -/
def sampleOf (pt : Point) (resp : Vector UInt8 8) : Sample :=
  match sdoParseUpload resp with
  | .error e => sampleBad {} e
  | .ok data =>
    match decodePoint pt data with
    | .error e => sampleBad { raw := data } s!"decode error: {e}"
    | .ok value => { raw := data, value }

/-- `read_point`: the return code is whether the transport works. The frame that was taken stands
beside the sample. -/
def readPoint (nodeId : Nat) (st : State) (dev : Nat) (pt : Point) (io : Io) :
    (Bool × Sample × Option Frame) × State :=
  match st.connected dev, st.fd with
  | true, some queue =>
    let (response, st) := coSdoTransfer st queue nodeId (sdoUploadRequest pt.index pt.subindex) io
    match response with
    | .error e => ((false, sampleBad {} e.reason, none), st)
    | .ok f => ((true, sampleOf pt f.data, some f), st)
  | _, _ => ((false, sampleBad {} "device not connected", none), st)

/-- The request of `write_point`. -/
def writeRequest (undefined : TdotCodec.Undefined) (pt : Point) (value : TdotValue) :
    Except String (List UInt8) :=
  match pt.datatype with
  | none => .error "unsupported datatype for encode"
  | some datatype => do
    let bytes ← TdotCodec.encode undefined datatype value .little .little 16
    match sdoDownloadRequest pt.index pt.subindex bytes with
    | some req => .ok req
    | none => .error (s!"expedited SDO supports 1-4 bytes, {TdotCodec.datatypeStr datatype} is " ++
        s!"{bytes.length} bytes")

/-- `write_point`. The frame that was taken stands beside the result. -/
def writePoint (undefined : TdotCodec.Undefined) (nodeId : Nat) (st : State) (dev : Nat)
    (pt : Point) (value : TdotValue) (io : Io) : (Except String Unit × Option Frame) × State :=
  match st.connected dev, st.fd with
  | true, some queue =>
    match writeRequest undefined pt value with
    | .error e => ((.error e, none), st)
    | .ok req =>
      let (response, st) := coSdoTransfer st queue nodeId req io
      match response with
      | .error e => ((.error e.reason, none), st)
      | .ok f => ((checkDownload f.data, some f), st)
  | _, _ => ((.error "device not connected", none), st)

/-! ## Runs -/

/-- What happens to the connector. -/
inductive Event where
  | connect (dev : Nat) (openError : Option String) (io : Io)
  | disconnect (dev : Nat)
  | read (dev : Nat) (pt : Point) (io : Io)
  | write (dev : Nat) (pt : Point) (value : TdotValue) (io : Io)
  /-- Frames arrive between two calls. -/
  | arrive (frames : List Frame)

/-- What a call gives back, with the frame that it took. -/
inductive Output where
  | nothing
  | connected (result : Except String Unit)
  | sampled (works : Bool) (sample : Sample) (response : Option Frame)
  | written (result : Except String Unit) (response : Option Frame)

section

variable (undefined : TdotCodec.Undefined) (interface : String) (nodeId : Nat → Nat)

def step (st : State) : Event → State × Output
  | .connect dev openError io =>
    let (result, st) := connectDevice interface (nodeId dev) st dev openError io
    (st, .connected result)
  | .disconnect dev => (disconnectDevice st dev, .nothing)
  | .read dev pt io =>
    let ((works, sample, response), st) := readPoint (nodeId dev) st dev pt io
    (st, .sampled works sample response)
  | .write dev pt value io =>
    let ((result, response), st) := writePoint undefined (nodeId dev) st dev pt value io
    (st, .written result response)
  | .arrive frames => ({ st with fd := st.fd.map (· ++ frames) }, .nothing)

/-- A frame is the answer of a node to a request, one of those sent. -/
def Frame.IsAnswer (f : Frame) (node : Nat) (requests : List Request) (req : List UInt8) : Prop :=
  ∃ k, f.answers = some k ∧
    requests[k]? = some { canId := CO_SDO_REQ_BASE + UInt32.ofNat node, data := req }

/-- A sample that is good has the bytes of the node's answer to an upload request of the point, one
that this read sent; a write that succeeds took the node's answer to a download request of the
point. -/
def Answered (st : State) (event : Event) : Prop :=
  let (st', output) := step undefined interface nodeId st event
  match event, output with
  | .read dev pt _, .sampled _ sample response =>
    sample.bad = none → ∃ f, response = some f ∧ sdoParseUpload f.data = .ok sample.raw ∧
      (∀ k, f.answers = some k → st.requests.length ≤ k) ∧
      f.IsAnswer (nodeId dev) st'.requests (sdoUploadRequest pt.index pt.subindex)
  | .write dev pt _ _, .written result response =>
    result = .ok () → ∃ f data req, response = some f ∧
      sdoDownloadRequest pt.index pt.subindex data = some req ∧
      f.IsAnswer (nodeId dev) st'.requests req
  | _, _ => True

/-- The first response of a node that a transfer can read, of those queued and those that arrive. -/
def firstResponse (node : Nat) (queue : List Frame) (io : Io) : Option Frame :=
  ((queue ++ io.arriving).take io.reads).find? (·.isResponse node)

/-- No late response comes before the answer: where the point takes the first response of the node
for an answer, it answers the request that is being sent. For a write it may answer another
download request of the point. -/
def InTime (st : State) : Event → Prop
  | .read dev pt io => ∀ queue f, st.connected dev = true → st.fd = some queue →
      io.sendError = none → firstResponse (nodeId dev) queue io = some f →
      (sampleOf pt f.data).bad = none → f.answers = some st.requests.length
  | .write dev pt value io => ∀ queue f req, st.connected dev = true → st.fd = some queue →
      io.sendError = none → writeRequest undefined pt value = .ok req →
      firstResponse (nodeId dev) queue io = some f → checkDownload f.data = .ok () →
      f.answers = some st.requests.length ∨ ∃ data other,
        sdoDownloadRequest pt.index pt.subindex data = some other ∧
          f.IsAnswer (nodeId dev) st.requests other
  | _ => True

end

/-! ## Transfers -/

theorem receive_eq (node reads : Nat) (queue : List Frame) :
    (receive node reads queue).1 = (queue.take reads).find? (·.isResponse node) := by
  induction reads generalizing queue with
  | zero => rfl
  | succ reads ih =>
    cases queue with
    | nil => rfl
    | cons f queue =>
      rw [receive, List.take_succ_cons, List.find?_cons]
      cases hresponse : f.isResponse node with
      | true => rfl
      | false => exact ih queue

theorem transfer_ok {st st' : State} {queue : List Frame} {node : Nat} {req : List UInt8} {io : Io}
    {f : Frame} : coSdoTransfer st queue node req io = (.ok f, st') ↔
      io.sendError = none ∧ firstResponse node queue io = some f ∧
        st' = { st with
          fd := some (receive node io.reads (queue ++ io.arriving)).2
          requests := st.requests ++
            [{ canId := CO_SDO_REQ_BASE + UInt32.ofNat node, data := req }] } := by
  unfold coSdoTransfer firstResponse
  rw [← receive_eq]
  rcases hsend : io.sendError with _ | e
  · rcases hresponse : (receive node io.reads (queue ++ io.arriving)).1 with _ | g
    · rcases hread : io.readError with _ | e <;> simp [hresponse]
    · simp [hresponse, eq_comm]
  · simp

theorem transfer_error {st st' : State} {queue : List Frame} {node : Nat} {req : List UInt8}
    {io : Io} {e : Failure} (h : coSdoTransfer st queue node req io = (.error e, st'))
    (hsend : io.sendError = none) (f : Frame) : firstResponse node queue io ≠ some f := by
  intro hfirst
  have hok := (@transfer_ok st _ queue node req io f).mpr ⟨hsend, hfirst, rfl⟩
  rw [h] at hok
  cases hok

theorem isAnswer_last {f : Frame} {node : Nat} {requests : List Request} {req : List UInt8}
    (h : f.answers = some requests.length) :
    f.IsAnswer node (requests ++ [{ canId := CO_SDO_REQ_BASE + UInt32.ofNat node, data := req }])
      req :=
  ⟨requests.length, h, by simp⟩

theorem isAnswer_append {f : Frame} {node : Nat} {requests : List Request}
    {req other : List UInt8} :
    f.IsAnswer node (requests ++ [{ canId := CO_SDO_REQ_BASE + UInt32.ofNat node, data := req }])
        other ↔
      f.IsAnswer node requests other ∨ (f.answers = some requests.length ∧ other = req) := by
  unfold Frame.IsAnswer
  constructor
  · rintro ⟨k, hk, hget⟩
    rcases Nat.lt_trichotomy k requests.length with hlt | heq | hgt
    · rw [List.getElem?_append_left hlt] at hget
      exact Or.inl ⟨k, hk, hget⟩
    · subst heq
      simp only [List.getElem?_concat_length, Option.some.injEq, Request.mk.injEq] at hget
      exact Or.inr ⟨hk, hget.2.symm⟩
    · rw [List.getElem?_eq_none (by simp; omega)] at hget
      cases hget
  · rintro (⟨k, hk, hget⟩ | ⟨hk, rfl⟩)
    · exact ⟨k, hk, by rw [List.getElem?_append_left (List.getElem?_eq_some_iff.mp hget).1, hget]⟩
    · exact isAnswer_last hk

theorem sampleOf_good {pt : Point} {resp : Vector UInt8 8} (h : (sampleOf pt resp).bad = none) :
    sdoParseUpload resp = .ok (sampleOf pt resp).raw := by
  unfold sampleOf at h ⊢
  cases hparse : sdoParseUpload resp with
  | error e => simp [hparse, sampleBad] at h
  | ok data =>
    cases hdecode : decodePoint pt data with
    | error e => simp [hparse, hdecode, sampleBad] at h
    | ok value => simp [hdecode]

section

variable {undefined : TdotCodec.Undefined} {interface : String} {nodeId : Nat → Nat}

variable {st : State}

theorem readPoint_eq {dev : Nat} {pt : Point} {io : Io} :
    (∃ queue f st', st.connected dev = true ∧ st.fd = some queue ∧
      coSdoTransfer st queue (nodeId dev) (sdoUploadRequest pt.index pt.subindex) io =
        (.ok f, st') ∧
      readPoint (nodeId dev) st dev pt io = ((true, sampleOf pt f.data, some f), st')) ∨
    ((∀ queue f, st.connected dev = true → st.fd = some queue → io.sendError = none →
        firstResponse (nodeId dev) queue io ≠ some f) ∧
      (readPoint (nodeId dev) st dev pt io).1.2.1.bad ≠ none) := by
  unfold readPoint
  cases hconnected : st.connected dev with
  | false => exact Or.inr ⟨by simp, by simp [sampleBad]⟩
  | true =>
    cases hfd : st.fd with
    | none => exact Or.inr ⟨by simp, by simp [sampleBad]⟩
    | some queue =>
      rcases htransfer : coSdoTransfer st queue (nodeId dev)
        (sdoUploadRequest pt.index pt.subindex) io with ⟨e | f, st'⟩
      · refine Or.inr ⟨?_, by simp [htransfer, sampleBad]⟩
        rintro _ f - ⟨⟩ hsend
        exact transfer_error htransfer hsend f
      · exact Or.inl ⟨queue, f, st', rfl, rfl, htransfer, by simp [htransfer]⟩

theorem step_read {dev : Nat} {pt : Point} {io : Io} :
    step undefined interface nodeId st (.read dev pt io) =
      ((readPoint (nodeId dev) st dev pt io).2, .sampled (readPoint (nodeId dev) st dev pt io).1.1
        (readPoint (nodeId dev) st dev pt io).1.2.1
        (readPoint (nodeId dev) st dev pt io).1.2.2) := rfl

theorem step_write {dev : Nat} {pt : Point} {value : TdotValue} {io : Io} :
    step undefined interface nodeId st (.write dev pt value io) =
      ((writePoint undefined (nodeId dev) st dev pt value io).2,
        .written (writePoint undefined (nodeId dev) st dev pt value io).1.1
          (writePoint undefined (nodeId dev) st dev pt value io).1.2) := rfl

/-- A read is answered exactly when the awaited response is its own and arrives in time. -/
theorem read_answered_iff {dev : Nat} {pt : Point} {io : Io} :
    Answered undefined interface nodeId st (.read dev pt io) ↔
      InTime undefined nodeId st (.read dev pt io) := by
  unfold Answered
  rw [step_read]
  simp only [InTime]
  obtain ⟨queue, f, st', hconnected, hfd, htransfer, hread⟩ | ⟨hnone, hbad⟩ :=
    @readPoint_eq nodeId st dev pt io
  · rw [hread]
    obtain ⟨hsend, hfirst, rfl⟩ := transfer_ok.mp htransfer
    constructor
    · intro h queue' f' _ hfd' _ hfirst' hgood
      obtain rfl : queue = queue' := Option.some.inj (hfd.symm.trans hfd')
      obtain rfl : f = f' := Option.some.inj (hfirst.symm.trans hfirst')
      obtain ⟨g, hg, -, hlate, hanswer⟩ := h hgood
      obtain rfl := Option.some.inj hg
      rcases isAnswer_append.mp hanswer with ⟨k, hk, hget⟩ | ⟨hlast, -⟩
      · -- the requests before the read are not its own
        have hlt := (List.getElem?_eq_some_iff.mp hget).1
        exact absurd (hlate k hk) (Nat.not_le.mpr hlt)
      · exact hlast
    · intro h hgood
      have hanswers := h queue f hconnected hfd hsend hfirst hgood
      refine ⟨f, rfl, sampleOf_good hgood, ?_, isAnswer_last hanswers⟩
      intro k hk
      exact (Option.some.inj (hanswers.symm.trans hk)).le
  · constructor
    · intro _ queue f hconnected hfd hsend hfirst _
      exact absurd hfirst (hnone queue f hconnected hfd hsend)
    · intro _ hgood
      exact absurd hgood hbad

theorem writePoint_eq {dev : Nat} {pt : Point} {value : TdotValue} {io : Io} :
    (∃ queue f req st', st.connected dev = true ∧ st.fd = some queue ∧
      writeRequest undefined pt value = .ok req ∧
      coSdoTransfer st queue (nodeId dev) req io = (.ok f, st') ∧
      writePoint undefined (nodeId dev) st dev pt value io =
        ((checkDownload f.data, some f), st')) ∨
    ((∀ queue f req, st.connected dev = true → st.fd = some queue → io.sendError = none →
        writeRequest undefined pt value = .ok req →
        firstResponse (nodeId dev) queue io ≠ some f) ∧
      (writePoint undefined (nodeId dev) st dev pt value io).1.1 ≠ .ok ()) := by
  unfold writePoint
  cases hconnected : st.connected dev with
  | false => exact Or.inr ⟨by simp, by simp⟩
  | true =>
    cases hfd : st.fd with
    | none => exact Or.inr ⟨by simp, by simp⟩
    | some queue =>
      cases hrequest : writeRequest undefined pt value with
      | error e => exact Or.inr ⟨by simp, by simp⟩
      | ok req =>
        rcases htransfer : coSdoTransfer st queue (nodeId dev) req io with ⟨e | f, st'⟩
        · refine Or.inr ⟨?_, by simp [htransfer]⟩
          rintro _ f _ - ⟨⟩ hsend ⟨⟩
          exact transfer_error htransfer hsend f
        · exact Or.inl ⟨queue, f, req, st', rfl, rfl, rfl, htransfer, by simp [htransfer]⟩

theorem writeRequest_ok {pt : Point} {value : TdotValue} {req : List UInt8}
    (h : writeRequest undefined pt value = .ok req) :
    ∃ data, sdoDownloadRequest pt.index pt.subindex data = some req := by
  unfold writeRequest at h
  cases hdatatype : pt.datatype with
  | none => simp [hdatatype] at h
  | some datatype =>
    rw [hdatatype] at h
    obtain ⟨bytes, -, h⟩ := bind_ok h
    cases hrequest : sdoDownloadRequest pt.index pt.subindex bytes with
    | none => simp [hrequest] at h
    | some other =>
      simp only [hrequest, Except.ok.injEq] at h
      exact ⟨bytes, h ▸ hrequest⟩

/-- A write likewise. -/
theorem write_answered_iff {dev : Nat} {pt : Point} {value : TdotValue} {io : Io} :
    Answered undefined interface nodeId st (.write dev pt value io) ↔
      InTime undefined nodeId st (.write dev pt value io) := by
  unfold Answered
  rw [step_write]
  simp only [InTime]
  obtain ⟨queue, f, req, st', hconnected, hfd, hrequest, htransfer, hwrite⟩ | ⟨hnone, hbad⟩ :=
    @writePoint_eq undefined nodeId st dev pt value io
  · rw [hwrite]
    obtain ⟨hsend, hfirst, rfl⟩ := transfer_ok.mp htransfer
    constructor
    · intro h queue' f' _ _ hfd' _ _ hfirst' hgood
      obtain rfl : queue = queue' := Option.some.inj (hfd.symm.trans hfd')
      obtain rfl : f = f' := Option.some.inj (hfirst.symm.trans hfirst')
      obtain ⟨g, data, other, hg, hother, hanswer⟩ := h hgood
      obtain rfl := Option.some.inj hg
      rcases isAnswer_append.mp hanswer with hearlier | ⟨hlast, -⟩
      · exact Or.inr ⟨data, other, hother, hearlier⟩
      · exact Or.inl hlast
    · intro h hgood
      rcases h queue f req hconnected hfd hsend hrequest hfirst hgood with
        hlast | ⟨data, other, hother, hearlier⟩
      · obtain ⟨data, hdata⟩ := writeRequest_ok hrequest
        exact ⟨f, data, req, rfl, hdata, isAnswer_last hlast⟩
      · exact ⟨f, data, other, rfl, hother, isAnswer_append.mpr (Or.inl hearlier)⟩
  · constructor
    · intro _ queue f req hconnected hfd hsend hrequest hfirst _
      exact absurd hfirst (hnone queue f req hconnected hfd hsend hrequest)
    · intro _ hgood
      exact absurd hgood hbad

theorem step_answered_iff (st : State) (event : Event) :
    Answered undefined interface nodeId st event ↔ InTime undefined nodeId st event := by
  cases event with
  | read dev pt io => exact read_answered_iff
  | write dev pt value io => exact write_answered_iff
  | connect dev openError io => exact Iff.rfl
  | disconnect dev => exact Iff.rfl
  | arrive frames => exact Iff.rfl

theorem answered_eq : Answered undefined interface nodeId = InTime undefined nodeId := by
  funext st event
  exact propext (step_answered_iff st event)

/-- In every run, every good read and every successful write took an answer to its own question
exactly if no late response came before one. -/
theorem answered_iff (undefined : TdotCodec.Undefined) (interface : String) (nodeId : Nat → Nat)
    (events : List Event) :
    AllSteps (step undefined interface nodeId) (Answered undefined interface nodeId) State.init
        events ↔
      AllSteps (step undefined interface nodeId) (InTime undefined nodeId) State.init events := by
  rw [answered_eq]

/-! ## Nodes that answer in time or not at all -/

def Quiet (nodeId : Nat → Nat) (frames : List Frame) : Prop :=
  ∀ f ∈ frames, ∀ dev, f.isResponse (nodeId dev) = false

/-- During a transfer nothing arrives that is a response, or the one that is answers the request
that is sent and can be read. -/
def PromptIo (nodeId : Nat → Nat) (st : State) (dev : Nat) (io : Io) : Prop :=
  Quiet nodeId io.arriving ∨ (io.sendError = none ∧ ∃ before f after,
    io.arriving = before ++ f :: after ∧ Quiet nodeId before ∧ Quiet nodeId after ∧
      f.isResponse (nodeId dev) = true ∧ f.answers = some st.requests.length ∧
      (st.fd.getD []).length + before.length < io.reads)

/-- Nodes answer while the transfer lasts, or not at all. -/
def Prompt (nodeId : Nat → Nat) (st : State) : Event → Prop
  | .connect dev _ io | .read dev _ io | .write dev _ _ io => PromptIo nodeId st dev io
  | .arrive frames => Quiet nodeId frames
  | .disconnect _ => True

def State.Settled (nodeId : Nat → Nat) (st : State) : Prop :=
  ∀ queue, st.fd = some queue → Quiet nodeId queue

theorem Quiet.append {frames others : List Frame} (h : Quiet nodeId frames)
    (h' : Quiet nodeId others) : Quiet nodeId (frames ++ others) := by
  intro f hf
  rcases List.mem_append.mp hf with hf | hf
  · exact h f hf
  · exact h' f hf

theorem mem_receive {node reads : Nat} {queue : List Frame} {f : Frame}
    (h : f ∈ (receive node reads queue).2) : f ∈ queue := by
  induction reads generalizing queue with
  | zero => exact h
  | succ reads ih =>
    cases queue with
    | nil => exact h
    | cons g queue =>
      rw [receive] at h
      split at h
      · exact List.mem_cons_of_mem _ h
      · exact List.mem_cons_of_mem _ (ih h)

theorem receive_quiet {dev reads : Nat} {frames queue : List Frame} (h : Quiet nodeId frames)
    (hreads : frames.length ≤ reads) :
    receive (nodeId dev) reads (frames ++ queue) =
      receive (nodeId dev) (reads - frames.length) queue := by
  induction frames generalizing reads with
  | nil => rfl
  | cons f frames ih =>
    obtain ⟨reads, rfl⟩ := Nat.exists_eq_add_of_lt hreads
    have hfirst := h f List.mem_cons_self dev
    have hrest : Quiet nodeId frames := fun g hg => h g (List.mem_cons_of_mem _ hg)
    rw [List.cons_append, receive, hfirst, if_neg Bool.false_ne_true, ih hrest (by omega)]
    simp

/-- Where responses are prompt, the first one read is for the request just sent. -/
theorem receive_prompt {dev : Nat} {io : Io} {queue : List Frame}
    (hprompt : PromptIo nodeId st dev io) (hqueue : Quiet nodeId queue)
    (hlength : queue.length ≤ (st.fd.getD []).length) :
    (∀ f, firstResponse (nodeId dev) queue io = some f → f.answers = some st.requests.length) ∧
      Quiet nodeId (receive (nodeId dev) io.reads (queue ++ io.arriving)).2 := by
  unfold firstResponse
  rw [← receive_eq]
  rcases hprompt with
    hquiet | ⟨-, before, f, after, harriving, hbefore, hafter, hf, hanswers, hread⟩
  · have hall := hqueue.append hquiet
    refine ⟨fun f hf => ?_, fun f hf => hall f (mem_receive hf)⟩
    rw [receive_eq] at hf
    have hno := hall f (List.mem_of_mem_take (List.mem_of_find?_eq_some hf)) dev
    rw [List.find?_some hf] at hno
    cases hno
  · have hskip : (queue ++ before).length < io.reads := by
      rw [List.length_append]
      omega
    obtain ⟨left, hleft⟩ := Nat.exists_eq_add_of_lt hskip
    have hreceive : receive (nodeId dev) io.reads (queue ++ io.arriving) = (some f, after) := by
      rw [harriving, ← List.append_assoc, receive_quiet (hqueue.append hbefore) hskip.le,
        show io.reads - (queue ++ before).length = left + 1 by omega, receive, if_pos hf]
    rw [hreceive]
    refine ⟨fun g hg => ?_, hafter⟩
    obtain rfl := Option.some.inj hg
    exact hanswers

theorem coSdoTransfer_settled {queue : List Frame} {dev : Nat} {req : List UInt8} {io : Io}
    (hprompt : Quiet nodeId (receive (nodeId dev) io.reads (queue ++ io.arriving)).2)
    (harriving : io.sendError ≠ none → Quiet nodeId (queue ++ io.arriving)) :
    (coSdoTransfer st queue (nodeId dev) req io).2.Settled nodeId := by
  intro rest hrest
  unfold coSdoTransfer at hrest
  rcases hsend : io.sendError with _ | e
  · rw [hsend] at hrest
    simp only at hrest
    split at hrest
    · exact Option.some.inj hrest ▸ hprompt
    · split at hrest <;> exact Option.some.inj hrest ▸ hprompt
  · rw [hsend] at hrest
    exact Option.some.inj hrest ▸ harriving (by simp [hsend])

theorem transfer_settled {st st' : State} {queue : List Frame} {dev : Nat} {req : List UInt8}
    {io : Io} (hprompt : PromptIo nodeId st dev io) (hqueue : Quiet nodeId queue)
    (hlength : queue.length ≤ (st.fd.getD []).length) :
    (coSdoTransfer st' queue (nodeId dev) req io).2.Settled nodeId := by
  apply coSdoTransfer_settled (receive_prompt hprompt hqueue hlength).2
  intro hsend
  rcases hprompt with hquiet | ⟨hsent, -⟩
  · exact hqueue.append hquiet
  · exact absurd hsent hsend

theorem disconnectDevice_fd (st : State) (dev : Nat) :
    (disconnectDevice st dev).fd = none ∨ (disconnectDevice st dev).fd = st.fd := by
  unfold disconnectDevice
  split
  · dsimp only
    split
    · exact Or.inl rfl
    · exact Or.inr rfl
  · exact Or.inr rfl

theorem closeUnused_settled (h : st.Settled nodeId) : (closeUnused st).Settled nodeId := by
  unfold closeUnused
  split
  · rintro queue ⟨⟩
  · exact h

/-- Connecting leaves no response under way. -/
theorem connectDevice_settled {dev : Nat} {openError : Option String} {io : Io}
    (hsettled : st.Settled nodeId) (hprompt : PromptIo nodeId st dev io) :
    (connectDevice interface (nodeId dev) st dev openError io).2.Settled nodeId := by
  have htransfer : ∀ st' queue req, ((disconnectDevice st dev).fd = none ∧ queue = [] ∨
      (disconnectDevice st dev).fd = some queue) →
      (coSdoTransfer st' queue (nodeId dev) req io).2.Settled nodeId := by
    rintro st' queue req (⟨-, rfl⟩ | hfd)
    · exact transfer_settled hprompt (fun f hf => absurd hf List.not_mem_nil) (Nat.zero_le _)
    · rcases disconnectDevice_fd st dev with hnone | hsame
      · rw [hnone] at hfd
        cases hfd
      · rw [hsame] at hfd
        exact transfer_settled hprompt (hsettled queue hfd) (by rw [hfd]; exact le_rfl)
  unfold connectDevice
  simp only
  split
  · next hfd =>
    intro queue hqueue
    rw [hfd] at hqueue
    cases hqueue
  · have hleft := htransfer { disconnectDevice st dev with
        fd := some ((disconnectDevice st dev).fd.getD []) }
      ((disconnectDevice st dev).fd.getD []) (sdoUploadRequest CO_IDENTITY_INDEX 0) (by
        cases (disconnectDevice st dev).fd <;> simp)
    split
    · exact closeUnused_settled hleft
    · split
      · exact closeUnused_settled hleft
      · exact hleft

/-- No event does, where responses are prompt. -/
theorem step_settled {event : Event} (hsettled : st.Settled nodeId)
    (hprompt : Prompt nodeId st event) :
    (step undefined interface nodeId st event).1.Settled nodeId := by
  cases event with
  | connect dev openError io => exact connectDevice_settled hsettled hprompt
  | disconnect dev =>
    intro queue hqueue
    rcases disconnectDevice_fd st dev with hnone | hsame
    · exact absurd (hnone.symm.trans hqueue) (by simp)
    · exact hsettled queue (hsame ▸ hqueue)
  | read dev pt io =>
    simp only [step, readPoint]
    split
    · next queue _ hfd =>
      have hleft := @transfer_settled nodeId st st queue dev
        (sdoUploadRequest pt.index pt.subindex) io hprompt (hsettled queue hfd)
        (by rw [hfd]; exact le_rfl)
      split <;> exact hleft
    · exact hsettled
  | write dev pt value io =>
    simp only [step, writePoint]
    split
    · next queue _ hfd =>
      split
      · exact hsettled
      · next req _ =>
        have hleft := @transfer_settled nodeId st st queue dev req io hprompt (hsettled queue hfd)
          (by rw [hfd]; exact le_rfl)
        split <;> exact hleft
    · exact hsettled
  | arrive frames =>
    intro queue hqueue
    obtain ⟨earlier, hearlier, rfl⟩ := Option.map_eq_some_iff.mp hqueue
    exact (hsettled earlier hearlier).append hprompt

/-- The response that a call took answers the one request that the call sent. -/
def TookOwn (nodeId : Nat → Nat) (st st' : State) (dev : Nat) (f : Frame) (req : List UInt8) :
    Prop :=
  f.answers = some st.requests.length ∧
    st'.requests = st.requests ++
      [{ canId := CO_SDO_REQ_BASE + UInt32.ofNat (nodeId dev), data := req }]

/-- A good read publishes what the answer to its own upload request says, and a write succeeds on
the answer to its own download request. -/
def AnsweredOwn (undefined : TdotCodec.Undefined) (interface : String) (nodeId : Nat → Nat)
    (st : State) (event : Event) : Prop :=
  let (st', output) := step undefined interface nodeId st event
  match event, output with
  | .read dev pt _, .sampled _ sample response =>
    sample.bad = none → ∃ f, response = some f ∧ sample = sampleOf pt f.data ∧
      TookOwn nodeId st st' dev f (sdoUploadRequest pt.index pt.subindex)
  | .write dev pt value _, .written result response =>
    result = .ok () → ∃ f req, response = some f ∧ checkDownload f.data = .ok () ∧
      writeRequest undefined pt value = .ok req ∧ TookOwn nodeId st st' dev f req
  | _, _ => True

theorem transfer_own {st' : State} {queue : List Frame} {dev : Nat} {req : List UInt8} {io : Io}
    {f : Frame} (hsettled : st.Settled nodeId) (hprompt : PromptIo nodeId st dev io)
    (hfd : st.fd = some queue)
    (h : coSdoTransfer st queue (nodeId dev) req io = (.ok f, st')) :
    TookOwn nodeId st st' dev f req := by
  obtain ⟨-, hfirst, rfl⟩ := transfer_ok.mp h
  have hlength : queue.length ≤ (st.fd.getD []).length := by rw [hfd]; exact le_rfl
  exact ⟨(receive_prompt hprompt (hsettled queue hfd) hlength).1 f hfirst, rfl⟩

/-- So each answer is to its own request. -/
theorem step_answeredOwn {event : Event} (hsettled : st.Settled nodeId)
    (hprompt : Prompt nodeId st event) : AnsweredOwn undefined interface nodeId st event := by
  cases event with
  | read dev pt io =>
    unfold AnsweredOwn
    rw [step_read]
    intro hgood
    obtain ⟨queue, f, st', -, hfd, htransfer, hread⟩ | ⟨-, hbad⟩ :=
      @readPoint_eq nodeId st dev pt io
    · rw [hread] at hgood ⊢
      exact ⟨f, rfl, rfl, transfer_own hsettled hprompt hfd htransfer⟩
    · exact absurd hgood hbad
  | write dev pt value io =>
    unfold AnsweredOwn
    rw [step_write]
    intro hgood
    obtain ⟨queue, f, req, st', -, hfd, hrequest, htransfer, hwrite⟩ | ⟨-, hbad⟩ :=
      @writePoint_eq undefined nodeId st dev pt value io
    · rw [hwrite] at hgood ⊢
      exact ⟨f, req, rfl, hgood, hrequest, transfer_own hsettled hprompt hfd htransfer⟩
    · exact absurd hgood hbad
  | _ => trivial

/-- Where the nodes answer while a transfer lasts or not at all, every good read and every
successful write of a run takes the answer to the request that it sent. -/
theorem answered_of_prompt {events : List Event}
    (h : AllSteps (step undefined interface nodeId) (Prompt nodeId) State.init events) :
    AllSteps (step undefined interface nodeId) (AnsweredOwn undefined interface nodeId) State.init
      events := by
  apply allSteps_of_allSteps (P := State.Settled nodeId) _ _ h
  · rintro queue ⟨⟩
  · exact fun st event hprompt hsettled => step_settled hsettled hprompt
  · exact fun st event hprompt hsettled => step_answeredOwn hsettled hprompt

end

/-! ## A late answer -/

def noCasts : TdotCodec.Undefined := { toInt64 := fun _ => 0, toUInt64 := fun _ => 0 }

/-- The first four bytes of node 1's response to an upload, then four bytes of data. -/
def uploadOf (index : UInt16) (value : UInt8) (answers : Nat) : Frame :=
  { canId := CO_SDO_RESP_BASE + 1
    dlc := 8
    data := #v[0x43, index.toUInt8, (index >>> 8).toUInt8, 0, value, 0, 0, 0]
    answers := some answers }

def during (arriving : List Frame) (reads : Nat) : Io :=
  { sendError := none, arriving, reads, readError := none }

def levelPoint : Point :=
  { index := 0x2000, subindex := 0, datatype := some .uint32, transform := none }

/-- Two devices are connected. A read of the first one times out, and its answer comes while the
device is connected again, before the answer to the probe. -/
def lateAnswer : List Event :=
  [.connect 0 none (during [uploadOf CO_IDENTITY_INDEX 7 0] 1),
    .connect 1 none (during [{ uploadOf CO_IDENTITY_INDEX 8 1 with
      canId := CO_SDO_RESP_BASE + 2 }] 1),
    .read 0 levelPoint (during [] 0),
    .connect 0 none (during [uploadOf 0x2000 55 2, uploadOf CO_IDENTITY_INDEX 7 3] 1),
    .read 0 levelPoint (during [] 1)]

/-- The last read publishes the answer to the probe. -/
theorem late_answer_published :
    ¬ AllSteps (step noCasts "can0" (· + 1)) (Answered noCasts "can0" (· + 1)) State.init
      lateAnswer := by
  rw [answered_eq]
  rintro ⟨-, -, -, -, hlast, -⟩
  have hanswers := hlast [uploadOf CO_IDENTITY_INDEX 7 3] (uploadOf CO_IDENTITY_INDEX 7 3) rfl rfl
    rfl rfl rfl
  exact absurd hanswers (by decide)

/-- The response to a download. -/
def downloadAck (index : UInt16) (answers : Nat) : Frame :=
  { uploadOf index 0 answers with
    data := #v[0x60, index.toUInt8, (index >>> 8).toUInt8, 0, 0, 0, 0, 0] }

/-- A read and a write, with an empty frame before the second response. -/
def levelCalls : List Event :=
  [.connect 0 none (during [uploadOf CO_IDENTITY_INDEX 7 0] 1),
    .read 0 levelPoint (during [uploadOf 0x2000 55 1] 1),
    .write 0 levelPoint (.num 56)
      (during [{ uploadOf 0x2000 0 9 with canId := 0x80, dlc := 0 }, downloadAck 0x2000 2] 2)]

/-- One device whose responses are prompt. -/
theorem answered_of_prompt_level :
    AllSteps (step noCasts "can0" (· + 1)) (AnsweredOwn noCasts "can0" (· + 1)) State.init
      levelCalls := by
  have hquiet : Quiet (· + 1) [] := List.forall_mem_nil _
  refine answered_of_prompt ⟨?_, ?_, ?_, trivial⟩
  · exact .inr ⟨rfl, [], _, [], rfl, hquiet, hquiet, rfl, rfl, by decide⟩
  · exact .inr ⟨rfl, [], _, [], rfl, hquiet, hquiet, rfl, rfl, by decide⟩
  · refine .inr ⟨rfl, [_], _, [], rfl, ?_, hquiet, rfl, rfl, by decide⟩
    intro f hf dev
    rw [List.mem_singleton.mp hf]
    exact Bool.and_false _

end TedgeDot.Canopen
