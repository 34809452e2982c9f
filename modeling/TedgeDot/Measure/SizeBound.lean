import TedgeDot.Measure.Frames
import TedgeDot.Measure.Splits

/-!
# The size of a message

The estimate a message is split by counts 24 bytes for its time, which is what a time of the years
0 to 9999 takes. Such a message has a single series, or its payload and what the mapper adds for
each series are within `SIZE_BUDGET`; and the messages of a layer or a sample are its parts
(`messages_bounded`). The time of an earlier year has a sign, and a message of that time may be a
byte over the budget (`message_over_budget`).
-/

namespace TedgeDot.Measure

open Machine Desk Numbered DeviceTable

/-! ## The bytes of a message -/

theorem size_messageBody (fmt : OffsetDateTime → String) (groupJson : String)
    (time : OffsetDateTime) (series : String) :
    (messageBody fmt groupJson time series).utf8ByteSize + 24 =
      FRAME_BYTES + (fmt time).utf8ByteSize + groupJson.utf8ByteSize + series.utf8ByteSize := by
  simp only [messageBody, String.utf8ByteSize_append, FRAME_BYTES]
  have hopen : ("\x7b\"time\":\"" : String).utf8ByteSize = 9 := rfl
  have hgroup : ("\"," : String).utf8ByteSize = 2 := rfl
  have hseries : (":\x7b" : String).utf8ByteSize = 2 := rfl
  have hclose : ("\x7d\x7d" : String).utf8ByteSize = 2 := rfl
  omega

/-- `0000-01-01T00:00:00Z`, in Unix seconds. -/
def YEAR_ZERO : Int := -62167219200

/-- A time whose year has four digits and no sign. -/
def OffsetDateTime.FourDigits (time : OffsetDateTime) : Prop :=
  YEAR_ZERO ≤ time / 1000000000 ∧ time / 1000000000 ≤ OffsetDateTime.MAX_SECONDS

instance (time : OffsetDateTime) : Decidable time.FourDigits :=
  inferInstanceAs (Decidable (_ ∧ _))

/-- How `time` formats `format_rfc3339_ms`: such a time has the length of
`2026-01-01T00:00:00.000Z`. -/
def FormatsYears (fmt : OffsetDateTime → String) : Prop :=
  ∀ time : OffsetDateTime, time.FourDigits → (fmt time).utf8ByteSize = 24

section Bound

variable [Ryu]

theorem size_of_fits {fmt : OffsetDateTime → String} (hfmt : FormatsYears fmt) {topic : Topic}
    {key : Key} {time : OffsetDateTime} {entries : List Entry} {ends : Bool}
    (h : (Emission.series topic key time entries ends).Fits) (htime : time.FourDigits) :
    entries.length = 1 ∨
      ((Emission.series topic key time entries ends).message fmt).payload.utf8ByteSize +
        SERIES_OVERHEAD * entries.length ≤ SIZE_BUDGET := by
  refine h.imp_right fun hestimate => ?_
  have hsize := size_messageBody fmt topic.groupJson time (bodyText entries)
  rw [hfmt time htime] at hsize
  simp only [estimate] at hestimate
  simp only [Emission.message]
  omega

/-- **Messages are bounded.** In every run:
1. A message of a year with four digits has one series, or it is within the budget with the
   overhead of its series.
2. The messages of a key that is not sampled are the parts of its layers.
3. The messages a sample puts out under a topic are the parts of the sample. -/
theorem messages_bounded (fmt : OffsetDateTime → String) (hfmt : FormatsYears fmt)
    (config : ConnectorConfig) (start : Nat) (previous : Option Batcher) (ops : List Op) :
    (∀ d topic key time entries ends,
      (d, Emission.series topic key time entries ends) ∈
          ((log step (Batcher.new config start previous) ops).flatMap fun e => e.2.emissions) →
        time.FourDigits → entries.length = 1 ∨
          ((Emission.series topic key time entries ends).message fmt).payload.utf8ByteSize +
            SERIES_OVERHEAD * entries.length ≤ SIZE_BUDGET) ∧
      (∀ (d : Nat) dev, (Batcher.new config start previous).devices[d]? = some dev →
        ∀ key : Key, key.2.isSample = false →
          ∃ rs ps : List (ℕ × _), rs.map Prod.snd = dev.readings key (Batcher.offeredTo d
              (ops.flatMap (Batcher.new config start previous).calls)) ∧
            ps.map Prod.snd = (Batcher.partsOf d ((log step (Batcher.new config start previous)
              ops).flatMap fun e => e.2.emissions)).filter (fun p => p.key = key) ∧
            ∀ n, Parted dev (numbered n rs) (numbered n ps)) ∧
      ∀ (desk : Desk) (every now : Nat) (wall : OffsetDateTime), ∀ t < desk.dev.topics.length,
        Parted desk.dev
          ((List.range desk.dev.points.length).flatMap (desk.dev.sampled every now t))
          ((parts (desk.sample every now wall).2).filter fun p => p.key = (t, .sample every)) := by
  refine ⟨fun d topic key time entries ends hx htime => ?_, fun d dev hdev key hkey => ?_,
    fun desk every now wall t ht => sample_parted every now wall desk ht⟩
  · exact size_of_fits hfmt (emissions_fit config start previous ops _ hx) htime
  · exact layers_parted config start previous ops hdev hkey

/-- A run of two frames, with their units and their times. -/
def frameRun : List Op :=
  [.offer ⟨"plc", "temp", 0, .typed, .good, some (.number 21.0)⟩ 0,
    .offer ⟨"plc", "speed", 0, .typed, .good, some (.number 3.0)⟩ 5,
    .flushAll fun _ => keepOrder]

omit [Ryu] in
/-- A frame of two points. -/
theorem messages_bounded_frame :
    letI := plainRyu
    (log step (Batcher.new frameConfig 0 none) frameRun).length = 3 ∧
      ∀ d topic key time entries ends,
        (d, Emission.series topic key time entries ends) ∈
            ((log step (Batcher.new frameConfig 0 none) frameRun).flatMap fun e => e.2.emissions) →
          time.FourDigits → entries.length = 1 ∨
            ((Emission.series topic key time entries ends).message
                fun _ => "1970-01-01T00:00:00.000Z").payload.utf8ByteSize +
              SERIES_OVERHEAD * entries.length ≤ SIZE_BUDGET :=
  letI := plainRyu
  ⟨rfl, (messages_bounded _ (fun _ _ => rfl) frameConfig 0 none _).1⟩

/-! ## A message over the budget -/

/-- A value for which there is no room publishes the layer as it is. -/
theorem add_split {desk : Desk} {k : Nat} {ts : OffsetDateTime} {v : Float} {now : Nat} {o : Open}
    (hstay : (mustClose desk.dev (desk.dev.keyOf k) (desk.dev.depth k) ts.unixMs now).1 = false)
    (ho : (desk.dev.layers (desk.dev.keyOf k))[desk.dev.depth k]? = some o)
    (hfull : desk.dev.splits k v o = true) :
    ∃ topic : Topic, topic.groupJson = (desk.dev.topic (desk.dev.keyOf k).1).groupJson ∧
      Emission.series topic (desk.dev.keyOf k) o.time o.entries false ∈
        (desk.add k ts v now).2 := by
  have hlt := (List.getElem?_eq_some_iff.mp ho).1
  have hadd : desk.add k ts v now = desk.fill (desk.dev.keyOf k) (desk.dev.entry k v) := by
    unfold keyOf at hstay hlt ⊢
    simp only [add, hstay, Bool.false_eq_true, ↓reduceIte, Nat.ne_of_lt hlt, List.nil_append]
    rfl
  have hfill : (desk.fill (desk.dev.keyOf k) (desk.dev.entry k v)).2 =
      (desk.publish (desk.dev.keyOf k) o.time o.entries false).2 := by
    have hfull' : overflows (desk.dev.topic (desk.dev.keyOf k).1).groupJson.utf8ByteSize o.entries
        (desk.dev.entry k v) = true := hfull
    have ho' : (desk.dev.layers (desk.dev.keyOf k))[desk.dev.depth (desk.dev.entry k v).point]? =
        some o := ho
    unfold fill
    simp only [ho', hfull', ↓reduceIte]
  have hbuilt := settleUnits_built (desk.dev.topic (desk.dev.keyOf k).1) desk.publishedUnits
  rw [hadd, hfill]
  refine ⟨_, congrArg (fun b => b.2.1) hbuilt, ?_⟩
  simp only [publish]
  exact List.mem_append_right _ (List.mem_singleton_self _)

theorem Added.fits {dev dev' : DeviceTable} {k : Nat} {ts : OffsetDateTime} {v : Float}
    {now : Nat} {new : List Part} {o : Open} (ha : Added dev k ts v now dev' new)
    (hstay : (mustClose dev (dev.keyOf k) (dev.depth k) ts.unixMs now).1 = false)
    (ho : (dev.layers (dev.keyOf k))[dev.depth k]? = some o) (hfits : dev.splits k v o = false) :
    Filled (dev.keyOf k) k
      { o with entries := o.entries ++ [dev.entry k v], points := o.points ++ [k] } dev dev' := by
  cases ha with
  | fill o' _ ho' hf =>
    obtain rfl : o = o' := Option.some.inj (ho.symm.trans ho')
    simpa only [hfits, Bool.false_eq_true, ↓reduceIte] using hf
  | start o _ hdepth hs => simp [hdepth] at ho
  | restart o hclose => simp [hstay] at hclose

/-- Three points of one frame, of which the first two fit one message and the third does not. -/
structure Brim (dev : DeviceTable) (key : Key) (window : Nat) (v : Float) : Prop where
  keyOf : ∀ k < 3, dev.keyOf k = key
  frame : key.2 = .frame window
  window_pos : 0 < window
  located : ∀ k < 3, dev.Located k
  fits : overflows (dev.groupLen key.1) [dev.entry 0 v] (dev.entry 1 v) = false
  full : overflows (dev.groupLen key.1) [dev.entry 0 v, dev.entry 1 v] (dev.entry 2 v) = true

section Brim

variable {dev₀ : DeviceTable} {desk : Desk} {key : Key} {window k : Nat} {ts : OffsetDateTime}
  {v : Float}

theorem Brim.added (hb : Brim dev₀ key window v) (ts : OffsetDateTime) (hf : Fixed dev₀ desk.dev)
    (hL : Layered desk.dev) (hk : k < 3) :
    desk.call (.value k ts v 0) = desk.add k ts v 0 ∧ desk.dev.keyOf k = key ∧
      Layered (desk.add k ts v 0).1.dev ∧
      Added desk.dev k ts v 0 (desk.add k ts v 0).1.dev (parts (desk.add k ts v 0).2) := by
  have hkey : desk.dev.keyOf k = key := by rw [hf.keyOf, hb.keyOf k hk]
  have hgroup : (desk.dev.plan k).groupBy = .frame window :=
    (congrArg Prod.snd hkey).trans hb.frame
  have ha := add_effect desk hL k ts v 0
  refine ⟨offerValue_add desk ts v 0 (by rw [hgroup]; rfl), hkey, hL.added ?_ ha, ha⟩
  obtain ⟨id, hid⟩ := hb.located k hk
  exact ⟨id, by rw [hf.index, hid]⟩

/-- Two readings that fill a message to the brim; the third has it published. -/
theorem Brim.two_in_one (hb : Brim desk.dev key window v) (hL : Layered desk.dev)
    (hnone : desk.dev.layers key = []) (hdepth : desk.dev.depth = fun _ => 0)
    (hlast : desk.dev.lastLayerMs key = none) :
    ∃ topic : Topic, topic.groupJson = (desk.dev.topic key.1).groupJson ∧
      Emission.series topic key ts [desk.dev.entry 0 v, desk.dev.entry 1 v] false ∈
        (exec Desk.call desk [.value 0 ts v 0, .value 1 ts v 0, .value 2 ts v 0]).2 := by
  have hentry {dev : DeviceTable} (hf : Fixed desk.dev dev) (k : Nat) :
      dev.entry k v = desk.dev.entry k v := by
    rw [entry, entry, hf.plan]
  have hsplits {dev : DeviceTable} {k : Nat} (hf : Fixed desk.dev dev) (hkey : dev.keyOf k = key)
      (o : Open) : dev.splits k v o = overflows (desk.dev.groupLen key.1) o.entries
        (desk.dev.entry k v) := by
    rw [splits, hkey, hentry hf, ← hf.groupLen]
    rfl
  -- the first starts a layer, of its time
  obtain ⟨hcall, hkey, hL₁, ha⟩ := hb.added ts (Fixed.refl desk.dev) hL (by decide : 0 < 3)
  obtain ⟨⟨o, hs⟩, -⟩ := ha.starts
    (by rw [hkey, hdepth]; exact mustClose_stay hb.frame hb.window_pos (by decide))
    (by rw [hkey, hdepth, hnone]; rfl)
  rw [hkey] at hs
  have htime : o.time = ts := by
    have htime := hs.time
    simp only [layerTime, hlast] at htime
    split at htime
    · cases ‹none = some _›
    · exact congrArg Prod.fst htime
  have hlayers := hs.layers key
  rw [if_pos rfl, hnone, List.nil_append] at hlayers
  -- the second fills it
  generalize hdesk₁ : (desk.add 0 ts v 0).1 = desk₁ at *
  obtain ⟨hcall₁, hkey₁, hL₂, ha₁⟩ := hb.added ts hs.toFixed hL₁ (by decide : 1 < 3)
  have hdepth₁ : desk₁.dev.depth 1 = 0 := by
    simp [hs.depth, hdepth, entry]
  have hf := ha₁.fits (o := o)
    (by rw [hkey₁, hdepth₁]; exact mustClose_stay hb.frame hb.window_pos (by decide))
    (by rw [hkey₁, hdepth₁, hlayers]; rfl)
    (by rw [hsplits hs.toFixed hkey₁, hs.entries]; exact hb.fits)
  rw [hkey₁] at hf
  have hlayers₂ := hf.layers key
  rw [if_pos rfl, hlayers, hdepth₁] at hlayers₂
  have hfixed := hs.toFixed.trans hf.toFixed
  -- the third splits it
  generalize hdesk₂ : (desk₁.add 1 ts v 0).1 = desk₂ at *
  obtain ⟨hcall₂, hkey₂, -, -⟩ := hb.added ts hfixed hL₂ (by decide : 2 < 3)
  have hdepth₂ : desk₂.dev.depth 2 = 0 := by
    simp [hf.depth, hs.depth, hdepth, entry]
  have hentries : o.entries ++ [desk₁.dev.entry 1 v] =
      [desk.dev.entry 0 v, desk.dev.entry 1 v] := by
    rw [hs.entries, hentry hs.toFixed]
    rfl
  obtain ⟨topic, hjson, hmem⟩ := @add_split _ desk₂ 2 ts v 0 _
    (by rw [hkey₂, hdepth₂]; exact mustClose_stay hb.frame hb.window_pos (by decide))
    (by rw [hkey₂, hdepth₂, hlayers₂]; rfl)
    (by rw [hsplits hfixed hkey₂, hentries]; exact hb.full)
  rw [hkey₂] at hjson hmem
  simp only [htime, hentries] at hmem
  refine ⟨topic, by rw [hjson, hfixed.topic_groupJson], ?_⟩
  simp only [exec_cons, hcall, hdesk₁, hcall₁, hdesk₂, hcall₂]
  exact List.mem_append_right _ (List.mem_append_right _ (List.mem_append_left _ hmem))

end Brim

omit [Ryu] in
/-- The length of a repeated plain character in quotes. -/
theorem size_quoted_replicate (n : Nat) {c : Char} (hplain : escapeChar c = [c])
    (hsize : c.utf8Size = 1) :
    (quoted (String.ofList (List.replicate n c))).utf8ByteSize = n + 2 := by
  have hsame : (List.replicate n c).flatMap escapeChar = List.replicate n c := by
    induction n with
    | zero => rfl
    | succ n ih => rw [List.replicate_succ, List.flatMap_cons, hplain, ih]; rfl
  have hreplicate : ∀ n (tail : List Char),
      (String.ofList (List.replicate n c ++ tail)).utf8ByteSize =
        n + (String.ofList tail).utf8ByteSize := by
    intro n tail
    induction n with
    | zero => simp
    | succ n ih =>
      rw [List.replicate_succ, List.cons_append, String.ofList_cons, String.utf8ByteSize_append,
        String.utf8ByteSize_singleton, hsize, ih]
      omega
  rw [quoted, String.toList_ofList, hsame, String.ofList_cons, String.utf8ByteSize_append,
    hreplicate]
  have hquote : ('"' : Char).utf8Size = 1 := rfl
  simp only [String.utf8ByteSize_singleton, hquote, String.ofList_cons, String.utf8ByteSize_append,
    String.ofList_nil, String.utf8ByteSize_empty]
  omega

/-- A point whose series has a name of 7460 characters. -/
def brimPoint (id : String) (c : Char) : PointConfig :=
  { id := id
    metadata := some (.object [("measurement", .object
      [("series", .string (String.ofList (List.replicate 7460 c)))])]) }

/-- A device whose first two series fill a message to the last byte of its budget. -/
def brimDevice : DeviceConfig :=
  { name := "plc", points := [brimPoint "a" 'a', brimPoint "b" 'b', { id := "c" }] }

def brimConfig : ConnectorConfig := { frameConfig with devices := [brimDevice] }

/-- The last millisecond before the year 0, in Unix nanoseconds. -/
def beforeYearZero : OffsetDateTime := -62167219200001000000

/-- The points of the device, read at that time. -/
def brimOps : List Op := ["a", "b", "c"].map fun point =>
  .offer ⟨"plc", point, beforeYearZero, .typed, .good, some (.number 1.0)⟩ 0

theorem pushNumber_one : pushNumber 1.0 = "1" := by
  have hinteger : ((1.0 : Float).abs < 1e15 &&
      (1.0 : Float).abs.toUInt64.toFloat == (1.0 : Float).abs) = true := by decide +kernel
  rw [pushNumber, if_pos hinteger]
  decide +kernel

omit [Ryu] in
theorem brim_groupLen : (new brimConfig brimDevice 0).groupLen 0 = 8 := by
  have hpoint : brimDevice.points[2]? = some { id := "c" } := rfl
  have htopic := (built_deviceTable brimConfig brimDevice 0).topic hpoint
  have hkey : (new brimConfig brimDevice 0).keyOf 2 = (0, .frame 1000000000) := by
    decide +kernel
  have hname : groupOf brimConfig { id := "c" } = "modbus" := by decide +kernel
  rw [hkey, hname] at htopic
  rw [groupLen, htopic.json]
  decide +kernel

theorem size_brim_piece {k : Nat} {id : String} {c : Char}
    (hpoint : brimDevice.points[k]? = some (brimPoint id c)) (hplain : escapeChar c = [c])
    (hone : c.utf8Size = 1) :
    ((new brimConfig brimDevice 0).entry k 1.0).piece.utf8ByteSize = 7464 := by
  rw [Entry.piece, entry, pushNumber_one,
    ((built_deviceTable brimConfig brimDevice 0).plan k _ hpoint).seriesKey, brimPoint, brimConfig,
    seriesOf_named _ id (isEmpty_replicate 7459 c), String.utf8ByteSize_append,
    String.utf8ByteSize_append, size_quoted_replicate _ hplain hone]
  rfl

theorem size_brim_body :
    (bodyText [(new brimConfig brimDevice 0).entry 0 1.0,
      (new brimConfig brimDevice 0).entry 1 1.0]).utf8ByteSize = 14929 := by
  have hbody := size_bodyText_append
    (List.cons_ne_nil ((new brimConfig brimDevice 0).entry 0 1.0) [])
    ((new brimConfig brimDevice 0).entry 1 1.0)
  rw [bodyText_singleton, size_brim_piece (c := 'a') rfl (by decide) (by decide),
    size_brim_piece (c := 'b') rfl (by decide) (by decide)] at hbody
  exact hbody

theorem brim_table : Brim (new brimConfig brimDevice 0) (0, .frame 1000000000)
    1000000000 1.0 := by
  refine ⟨by decide +kernel, rfl, by decide, ?_, ?_, ?_⟩
  · intro k hk
    match k, hk with
    | 0, _ => exact ⟨"a", by decide +kernel⟩
    | 1, _ => exact ⟨"b", by decide +kernel⟩
    | 2, _ => exact ⟨"c", by decide +kernel⟩
  · rw [brim_groupLen, overflows, bodyText_singleton,
      size_brim_piece (c := 'a') rfl (by decide) (by decide),
      size_brim_piece (c := 'b') rfl (by decide) (by decide)]
    decide
  · rw [brim_groupLen, overflows, size_brim_body]
    have hfull (piece : Nat) : SIZE_BUDGET < estimate 8 (14929 + 1 + piece) (2 + 1) := by
      rw [SIZE_BUDGET, estimate, FRAME_BYTES, SERIES_OVERHEAD]
      omega
    simpa using hfull _

omit [Ryu] in
theorem brim_calls : brimOps.flatMap (Batcher.new brimConfig 0 none).calls =
    [.value 0 beforeYearZero 1.0 0, .value 1 beforeYearZero 1.0 0,
      .value 2 beforeYearZero 1.0 0].map fun c => (0, c) := by
  have ha : (Batcher.new brimConfig 0 none).locate "plc" "a" = some (0, 0) := by decide +kernel
  have hb : (Batcher.new brimConfig 0 none).locate "plc" "b" = some (0, 1) := by decide +kernel
  have hc : (Batcher.new brimConfig 0 none).locate "plc" "c" = some (0, 2) := by decide +kernel
  have hfinite : (1.0 : Float).isFinite := by decide
  simp only [brimOps, List.map_cons, List.map_nil, List.flatMap_cons, List.flatMap_nil,
    calls_offer beforeYearZero 0 ha (by decide +kernel) hfinite,
    calls_offer beforeYearZero 0 hb (by decide +kernel) hfinite,
    calls_offer beforeYearZero 0 hc (by decide +kernel) hfinite]
  rfl

omit [Ryu] in
/-- **A message a byte over its budget.** -/
theorem message_over_budget :
    letI := plainRyu
    let fmt : OffsetDateTime → String := fun time =>
      if YEAR_ZERO ≤ time / 1000000000 then "1970-01-01T00:00:00.000Z"
      else "-0001-12-31T23:59:59.999Z"
    ∃ topic key entries ends,
      (0, Emission.series topic key beforeYearZero entries ends) ∈
          ((log step (Batcher.new brimConfig 0 none) brimOps).flatMap fun e => e.2.emissions) ∧
        entries.length = 2 ∧
          ((Emission.series topic key beforeYearZero entries ends).message
            fmt).payload.utf8ByteSize + SERIES_OVERHEAD * entries.length = SIZE_BUDGET + 1 := by
  let := plainRyu
  intro fmt
  have hdevice : (Batcher.new brimConfig 0 none).devices[0]? =
      some (new brimConfig brimDevice 0) := rfl
  have hrun : (exec Batcher.call (Batcher.new brimConfig 0 none)
      (brimOps.flatMap (Batcher.new brimConfig 0 none).calls)).2 =
      (log step (Batcher.new brimConfig 0 none) brimOps).flatMap fun e => e.2.emissions := by
    rw [Batcher.run_eq_calls]
  rw [brim_calls, Batcher.exec_call_device hdevice] at hrun
  obtain ⟨topic, hjson, hmem⟩ := @Brim.two_in_one _
    { dev := new brimConfig brimDevice 0, publishedUnits := fun _ => none } _ _
    beforeYearZero _ brim_table (Layered.empty rfl fun _ => rfl) rfl rfl rfl
  refine ⟨topic, _, _, _, hrun ▸ List.mem_map_of_mem hmem, rfl, ?_⟩
  have hgroup : topic.groupJson.utf8ByteSize = 8 := by
    rw [hjson]
    exact brim_groupLen
  have hfmt : (fmt beforeYearZero).utf8ByteSize = 25 := by decide +kernel
  have hsize := size_messageBody fmt topic.groupJson beforeYearZero
    (bodyText [(new brimConfig brimDevice 0).entry 0 1.0,
      (new brimConfig brimDevice 0).entry 1 1.0])
  rw [hgroup, size_brim_body, hfmt] at hsize
  simpa [FRAME_BYTES, SERIES_OVERHEAD, SIZE_BUDGET, Emission.message] using hsize

end Bound

end TedgeDot.Measure
