import Mathlib.Data.List.Induction
import Mathlib.Data.List.Sort
import Mathlib.Order.Lattice
import TedgeDot.Lib.FirstKept
import TedgeDot.Lib.Machine
import TedgeDot.Lib.Rfc3339

/-!
# Delivery cursors

`cursor.rs` of the AVEVA PI connector, and the deliveries of `push.rs`: for each pushed point, the
time of the last event that was handed to the runtime and the values that were at that time. An event
is handed over where it comes after the cursor. A cursor is kept in a file, from which it is loaded
when the connector starts again.

`instantOf` is `OffsetDateTime::parse`.

## Main results

- `handed_once`: what is handed over in any run, with restarts anywhere.
- `page_exact`: a read of the archive in pages hands over what is due, whatever the size of a page.
-/

namespace TedgeDot.AvevaPi.Delivery

open Machine

universe u v

section

variable {T : Type u} {V : Type v}

/-- `Stamp`: a PI timestamp as text, and its instant. -/
structure Stamp (instantOf : String → Option T) where
  text : String
  instant : T
  parsed : instantOf text = some instant

def Stamp.parse (instantOf : String → Option T) (text : String) : Option (Stamp instantOf) :=
  match h : instantOf text with
  | some instant => some { text, instant, parsed := h }
  | none => none

theorem Stamp.parse_text {instantOf : String → Option T} (ts : Stamp instantOf) :
    Stamp.parse instantOf ts.text = some ts := by
  obtain ⟨text, instant, parsed⟩ := ts
  unfold Stamp.parse
  split
  · next h =>
    obtain rfl := Option.some.inj (parsed.symm.trans h)
    rfl
  · next h => cases parsed.symm.trans h

/-- An event as PI sends it: its `Timestamp`, if that is a text, and its `Value`. -/
structure Event (V : Type v) where
  timestamp : Option String
  value : V

/-- An event with its instant. -/
abbrev Stamped (instantOf : String → Option T) (V : Type v) := Stamp instantOf × V

/-- An event without a valid `Timestamp` is skipped. -/
def Event.stamped (instantOf : String → Option T) (ev : Event V) : Option (Stamped instantOf V) :=
  (ev.timestamp.bind (Stamp.parse instantOf)).map fun ts => (ts, ev.value)

structure Cursor (instantOf : String → Option T) (V : Type v) where
  ts : Stamp instantOf
  /-- The values delivered at `ts`. -/
  values : List V

variable [LinearOrder T] [DecidableEq V] {instantOf : String → Option T}

def Cursor.admits (c : Cursor instantOf V) (instant : T) (value : V) : Bool :=
  decide (c.ts.instant < instant) || (decide (instant = c.ts.instant) && !c.values.contains value)

/-- Without a cursor every event is admitted. -/
def admits (c : Option (Cursor instantOf V)) (e : Stamped instantOf V) : Bool :=
  match c with
  | some c => c.admits e.1.instant e.2
  | none => true

def advance (c : Option (Cursor instantOf V)) (ts : Stamp instantOf) (value : V) :
    Option (Cursor instantOf V) :=
  match c with
  | some c =>
    if c.ts.instant = ts.instant then
      if c.values.contains value then some c else some { c with values := c.values ++ [value] }
    else if ts.instant < c.ts.instant then some c
    else some { ts, values := [value] }
  | none => some { ts, values := [value] }

/-- `Ctx::deliver`, of an event with an instant: the cursor, and what is handed over. -/
def deliver (c : Option (Cursor instantOf V)) (e : Stamped instantOf V) :
    Option (Cursor instantOf V) × List (Stamped instantOf V) :=
  if admits c e then (advance c e.1 e.2, [e]) else (c, [])

/-- `events.sort_by_key` -/
def sortEvents (es : List (Stamped instantOf V)) : List (Stamped instantOf V) :=
  es.mergeSort fun a b => decide (a.1.instant ≤ b.1.instant)

/-! ## What is due -/

/-- One value at one instant. -/
def same (a b : Stamped instantOf V) : Bool := decide (a.1.instant = b.1.instant ∧ a.2 = b.2)

/-- What a cursor leaves to be handed over: what it admits, each value of an instant once. -/
def due (c : Option (Cursor instantOf V)) (es : List (Stamped instantOf V)) :
    List (Stamped instantOf V) :=
  firstKept same (es.filter (admits c))

def InTime (es : List (Stamped instantOf V)) : Prop :=
  es.Pairwise fun a b => a.1.instant ≤ b.1.instant

variable {c : Option (Cursor instantOf V)} {e x : Stamped instantOf V}
  {es : List (Stamped instantOf V)}

/-- **A delivery** takes from what is admitted what is earlier, and what was delivered. -/
theorem admits_advance (h : admits c e = true) :
    admits (advance c e.1 e.2) x = true ↔
      admits c x = true ∧ e.1.instant ≤ x.1.instant ∧ same e x = false := by
  cases c with
  | none =>
    simp only [advance, admits, Cursor.admits, same, List.contains_cons, List.contains_nil]
    grind
  | some c =>
    simp only [admits, Cursor.admits, Bool.or_eq_true, Bool.and_eq_true, decide_eq_true_eq,
      Bool.not_eq_true', List.contains_eq_mem, decide_eq_false_iff_not] at h
    simp only [advance]
    split
    · next heq =>
      rw [if_neg (by grind)]
      simp only [admits, Cursor.admits, same, List.contains_eq_mem, List.mem_append, List.mem_singleton]
      grind
    · rw [if_neg (by grind)]
      simp only [admits, Cursor.admits, same, List.contains_cons, List.contains_nil]
      grind

theorem admits_exec : admits (exec deliver c es).1 x = true ↔
    admits c x = true ∧ ∀ e ∈ (exec deliver c es).2, e.1.instant ≤ x.1.instant ∧ same e x = false := by
  induction es generalizing c with
  | nil => simp
  | cons e es ih =>
    rw [exec_cons]
    simp only
    rw [ih, deliver]
    split
    · next hadmits =>
      rw [admits_advance hadmits, List.singleton_append, List.forall_mem_cons, and_assoc]
    · rw [List.nil_append]

theorem due_concat (c : Option (Cursor instantOf V)) (es : List (Stamped instantOf V))
    (e : Stamped instantOf V) :
    due c (es ++ [e]) = if admits c e then keepNew same (due c es) e else due c es := by
  unfold due firstKept
  rw [List.filter_append, List.foldl_append, List.filter_cons, List.filter_nil]
  split <;> rfl

/-- Of events in time order, those the cursor admits are handed over. -/
theorem exec_deliver (c : Option (Cursor instantOf V)) (h : InTime es) :
    (exec deliver c es).2 = due c es := by
  induction es using List.reverseRecOn with
  | nil => rfl
  | append_singleton es e ih =>
    obtain ⟨hes, -, hlast⟩ := List.pairwise_append.mp h
    have hin (o : Stamped instantOf V) (ho : o ∈ due c es) : o.1.instant ≤ e.1.instant :=
      hlast o (List.mem_of_mem_filter (mem_of_mem_firstKept ho)) e (List.mem_singleton_self e)
    have hadmits : admits (exec deliver c es).1 e = true ↔ _ := admits_exec
    rw [ih hes] at hadmits
    have hexec : (exec deliver c (es ++ [e])).2 =
        due c es ++ (deliver (exec deliver c es).1 e).2 := by
      rw [exec_append, ih hes, exec_cons, exec_nil, List.append_nil]
    rw [hexec, due_concat, deliver]
    by_cases hc : admits c e = true
    · rw [if_pos hc, keepNew]
      by_cases hany : (due c es).any (same · e) = true
      · obtain ⟨o, ho, hsame⟩ := List.any_eq_true.mp hany
        rw [if_pos hany, if_neg fun hc => by simp [((hadmits.mp hc).2 o ho).2] at hsame]
        exact List.append_nil _
      · rw [if_neg hany, if_pos (hadmits.mpr ⟨hc, fun o ho => ⟨hin o ho, ?_⟩⟩)]
        by_contra hsame
        exact hany (List.any_eq_true.mpr ⟨o, ho, by simpa using hsame⟩)
    · rw [if_neg hc, if_neg fun h => hc (hadmits.mp h).1]
      exact List.append_nil _

theorem not_admits_exec (h : e ∈ es) : admits (exec deliver c es).1 e = false := by
  obtain ⟨before, after, rfl⟩ := List.append_of_mem h
  rw [exec_append, exec_cons, Bool.eq_false_iff]
  intro hadmits
  obtain ⟨hadmits, -⟩ := admits_exec.mp hadmits
  rw [deliver] at hadmits
  split at hadmits
  · next hbefore =>
    have := (admits_advance hbefore).mp hadmits
    simp [same] at this
  · next hbefore => exact hbefore hadmits

theorem exec_deliver_again {es' : List (Stamped instantOf V)} (h : es' ⊆ es) :
    exec deliver (exec deliver c es).1 es' = ((exec deliver c es).1, []) :=
  exec_idle fun e he => by
    rw [deliver, not_admits_exec (h he)]
    rfl

omit [DecidableEq V] in
theorem sortEvents_of_inTime (h : InTime es) : sortEvents es = es :=
  List.mergeSort_of_pairwise (h.imp (by simp))

/-! ## Runs -/

/-- A point over the runs of the connector. -/
structure Point (instantOf : String → Option T) (V : Type v) where
  cursor : Option (Cursor instantOf V)
  /-- The cursor in the file. -/
  file : Option (Cursor instantOf V)
  /-- The cursor that the run began with. -/
  loaded : Option (Cursor instantOf V)
  /-- What the run handed over, and the runs before it. -/
  handed : List (Stamped instantOf V)
  earlier : List (Stamped instantOf V)

def Point.start : Point instantOf V where
  cursor := none
  file := none
  loaded := none
  handed := []
  earlier := []

inductive Op (V : Type v) where
  /-- An event of a channel or of the archive. -/
  | event (ev : Event V)
  /-- The file is written. -/
  | flush
  /-- The connector stops or fails, and starts again. A file of another WebId is not used, nor is one
  that cannot be read. -/
  | restart (used : Bool)

def step (p : Point instantOf V) : Op V → Point instantOf V × List (Stamped instantOf V)
  | .event ev =>
    match ev.stamped instantOf with
    | none => (p, [])
    | some e =>
      ({ p with cursor := (deliver p.cursor e).1, handed := p.handed ++ (deliver p.cursor e).2 },
        (deliver p.cursor e).2)
  | .flush => ({ p with file := p.cursor }, [])
  | .restart used =>
    let loaded := if used then p.file else none
    ({ p with cursor := loaded, loaded, handed := [], earlier := p.earlier ++ p.handed }, [])

/-- A cursor is of events that were handed over. -/
def Made (es : List (Stamped instantOf V)) (c : Option (Cursor instantOf V)) : Prop :=
  ∀ c', c = some c' → (∃ e ∈ es, e.1 = c'.ts) ∧
    ∀ v ∈ c'.values, ∃ e ∈ es, e.1.instant = c'.ts.instant ∧ e.2 = v

/-- An event that is passed over was handed over, or a later one was. -/
def Passed (p : Point instantOf V) : Op V → Prop
  | .event ev => ∀ e, ev.stamped instantOf = some e → (step p (.event ev)).2 = [] →
    ∃ a ∈ p.earlier ++ p.handed, e.1.instant < a.1.instant ∨ same a e = true
  | _ => True

/-- What a run has handed over. -/
structure Handed (p : Point instantOf V) : Prop where
  /-- In the order of the times, and no value of an instant twice. -/
  once : p.handed.Pairwise fun a b => a.1.instant ≤ b.1.instant ∧ same a b = false
  /-- Nothing that the cursor it began with has already. -/
  after : ∀ e ∈ p.handed, admits p.loaded e = true
  /-- The file is not ahead of what was handed over. -/
  file : Made (p.earlier ++ p.handed) p.file

structure Inv (p : Point instantOf V) : Prop extends Handed p where
  admits_iff : ∀ x, admits p.cursor x = true ↔
    admits p.loaded x = true ∧ ∀ e ∈ p.handed, e.1.instant ≤ x.1.instant ∧ same e x = false
  cursor : Made (p.earlier ++ p.handed) p.cursor

omit [LinearOrder T] [DecidableEq V] in
theorem Made.mono {es es' : List (Stamped instantOf V)} (h : Made es c) (hsub : es ⊆ es') :
    Made es' c := by
  intro c' hc'
  obtain ⟨⟨e, he, hts⟩, hvalues⟩ := h c' hc'
  refine ⟨⟨e, hsub he, hts⟩, fun v hv => ?_⟩
  obtain ⟨e, he, hv⟩ := hvalues v hv
  exact ⟨e, hsub he, hv⟩

/-- The cursor holds the latest time and the values handed over at it. -/
theorem Made.advance (h : Made es c) (e : Stamped instantOf V) :
    Made (es ++ [e]) (advance c e.1 e.2) := by
  have hnew : Made (es ++ [e]) (some { ts := e.1, values := [e.2] }) := by
    rintro c' ⟨⟩
    exact ⟨⟨e, by simp, rfl⟩, fun v hv => ⟨e, by simp, rfl, (List.mem_singleton.mp hv).symm⟩⟩
  have hold := h.mono (List.subset_append_left es [e])
  cases c with
  | none => exact hnew
  | some c =>
    simp only [Delivery.advance]
    split
    · next heq =>
      split
      · exact hold
      · rintro c' ⟨⟩
        obtain ⟨hts, hvalues⟩ := hold c rfl
        refine ⟨hts, fun v hv => ?_⟩
        rcases List.mem_append.mp hv with hv | hv
        · exact hvalues v hv
        · exact ⟨e, by simp, heq.symm, (List.mem_singleton.mp hv).symm⟩
    · split
      · exact hold
      · exact hnew

/-- Every operation keeps what was handed over in order, each value once. -/
theorem step_inv (p : Point instantOf V) (op : Op V) (h : Inv p) : Inv (step p op).1 := by
  cases op with
  | event ev =>
    simp only [step]
    cases hev : ev.stamped instantOf with
    | none => exact h
    | some e =>
      simp only [deliver]
      split
      · next hadmits =>
        obtain ⟨hloaded, hlast⟩ := (h.admits_iff e).mp hadmits
        refine ⟨⟨?_, ?_, ?_⟩, fun x => ?_, ?_⟩
        · refine List.pairwise_append.mpr ⟨h.once, List.pairwise_singleton .., fun a ha b hb => ?_⟩
          exact List.mem_singleton.mp hb ▸ hlast a ha
        · exact List.forall_mem_append.mpr ⟨h.after, List.forall_mem_singleton.mpr hloaded⟩
        · exact h.file.mono (by simp)
        · rw [admits_advance hadmits, h.admits_iff, List.forall_mem_append, List.forall_mem_singleton,
            and_assoc]
        · simpa using h.cursor.advance e
      · simpa using h
  | flush => exact ⟨⟨h.once, h.after, h.cursor⟩, h.admits_iff, h.cursor⟩
  | restart used =>
    have hfile : Made (p.earlier ++ p.handed ++ []) p.file := by simpa using h.file
    refine ⟨⟨List.Pairwise.nil, by simp [step], hfile⟩, by simp [step], ?_⟩
    simp only [step]
    split
    · exact hfile
    · rintro c' ⟨⟩

/-- A point that is sampled was not handed over before. -/
theorem inv_passed (p : Point instantOf V) (op : Op V) (h : Inv p) : Passed p op := by
  cases op with
  | event ev =>
    intro e hev hpassed
    simp only [step, hev, deliver] at hpassed
    split at hpassed
    · cases hpassed
    · next hadmits =>
      cases hcursor : p.cursor with
      | none => simp [hcursor, admits] at hadmits
      | some c =>
        obtain ⟨⟨a, ha, hts⟩, hvalues⟩ := h.cursor c hcursor
        rw [hcursor] at hadmits
        simp only [admits, Cursor.admits, Bool.or_eq_true, Bool.and_eq_true, decide_eq_true_eq,
          Bool.not_eq_true', List.contains_eq_mem, decide_eq_false_iff_not, not_or, not_and,
          not_not, not_lt] at hadmits
        rcases hadmits.1.lt_or_eq with hlt | heq
        · exact ⟨a, ha, .inl (hts ▸ hlt)⟩
        · obtain ⟨a, ha, hinstant, hvalue⟩ := hvalues e.2 (hadmits.2 heq)
          exact ⟨a, ha, .inr (by simp [same, hinstant, hvalue, heq])⟩
  | _ => trivial

theorem inv_start : Inv (Point.start : Point instantOf V) where
  once := List.Pairwise.nil
  after := fun _ he => absurd he List.not_mem_nil
  file := by rintro c' ⟨⟩
  admits_iff := fun x => by simp [Point.start]
  cursor := by rintro c' ⟨⟩

/-- **Every run** hands over each value of an instant once, in the order of the times, and passes
over what it handed over, or what is earlier. -/
theorem handed_once (ops : List (Op V)) :
    Handed (final step (Point.start : Point instantOf V) ops) ∧
      AllSteps step Passed (Point.start : Point instantOf V) ops :=
  ⟨(final_induction step_inv ops inv_start).toHanded,
    allSteps_of_invariant step_inv inv_passed ops inv_start⟩

/-! ## The archive in pages -/

/-- `MAX_COUNT`: the most events of one request. -/
def MAX_COUNT : Nat := 150000

/-- What a request for recorded events comes to. -/
inductive Answer (V : Type v) where
  | failed (e : String)
  /-- No item for the stream, or one with errors. -/
  | refused
  | events (events : List (Event V))

/-- What a read of the archive has done. -/
structure Paging (instantOf : String → Option T) (V : Type v) where
  cursor : Option (Cursor instantOf V)
  handed : List (Stamped instantOf V)
  /-- `startTime` and `maxCount` of each request. -/
  asked : List (String × Nat)
  failed : Option String

/-- The events of a page, up to `max_events`; whether that many were handed over. -/
def deliverUpTo (maxEvents : Option Nat) :
    List (Stamped instantOf V) → Paging instantOf V → Paging instantOf V × Bool
  | [], p => (p, false)
  | e :: es, p =>
    let (cursor, out) := deliver p.cursor e
    let p := { p with cursor, handed := p.handed ++ out }
    if !out.isEmpty && maxEvents.any (· ≤ p.handed.length) then (p, true)
    else deliverUpTo maxEvents es p

/-- `Ctx::page`, from one request on; nothing where `fuel` does not suffice. -/
def page (respond : String → Nat → Answer V) (size : Nat) (maxEvents : Option Nat) :
    Nat → Stamp instantOf → Nat → Paging instantOf V → Option (Paging instantOf V)
  | 0, _, _, _ => none
  | fuel + 1, start, maxCount, p =>
    let p := { p with asked := p.asked ++ [(start.text, maxCount)] }
    match respond start.text maxCount with
    | .failed e => some { p with failed := some e }
    | .refused => some p
    | .events events =>
      let stamped := sortEvents (events.filterMap (Event.stamped instantOf))
      match deliverUpTo maxEvents stamped p with
      | (p, true) => some p
      | (p, false) =>
        if events.length < maxCount then some p
        else
          match stamped.head?, stamped.getLast? with
          | some first, some last =>
            if first.1.instant = last.1.instant then
              -- a whole page at one timestamp
              if MAX_COUNT ≤ maxCount then some p
              else page respond size maxEvents fuel start (min (maxCount * 2) MAX_COUNT) p
            else page respond size maxEvents fuel last.1 size p
          | _, _ => some p

/-- The events from an instant on. -/
def since (archive : List (Stamped instantOf V)) (t : T) : List (Stamped instantOf V) :=
  archive.filter fun e => decide (t ≤ e.1.instant)

/-- The event as the archive sends it. -/
def sent (e : Stamped instantOf V) : Event V := { timestamp := some e.1.text, value := e.2 }

/-- The archive answers with the first events from the start on. -/
def Answers (archive : List (Stamped instantOf V)) (respond : String → Nat → Answer V) : Prop :=
  ∀ (start : Stamp instantOf) (n : Nat),
    respond start.text n = .events (((since archive start.instant).take n).map sent)

/-- The first `max_events` events, but at least one. -/
def limited (maxEvents : Option Nat) (es : List (Stamped instantOf V)) :
    List (Stamped instantOf V) :=
  match maxEvents with
  | some m => es.take (max m 1)
  | none => es

/-- `max_events` leaves more than so many. -/
def Below (maxEvents : Option Nat) (n : Nat) : Prop := ∀ m ∈ maxEvents, n < max m 1

variable {maxEvents : Option Nat} {p : Paging instantOf V}

omit [LinearOrder T] [DecidableEq V] in
theorem limited_of_below (h : Below maxEvents es.length) : limited maxEvents es = es := by
  cases maxEvents with
  | none => rfl
  | some m => exact List.take_of_length_le (Nat.le_of_lt (h m rfl))

omit [LinearOrder T] [DecidableEq V] in
theorem limited_append (h : ¬ Below maxEvents es.length) (es' : List (Stamped instantOf V)) :
    limited maxEvents (es ++ es') = limited maxEvents es := by
  cases maxEvents with
  | none => exact absurd (fun m hm => by cases hm) h
  | some m =>
    have hle : max m 1 ≤ es.length := not_lt.mp fun hlt => h fun _ hm => by cases hm; exact hlt
    exact List.take_append_of_le_length hle

/-- With a limit: all that is due, or as much as the limit leaves and a page cut short. -/
theorem deliverUpTo_spec (es : List (Stamped instantOf V)) (h : Below maxEvents p.handed.length) :
    deliverUpTo maxEvents es p =
        ({ p with cursor := (exec deliver p.cursor es).1
                  handed := p.handed ++ (exec deliver p.cursor es).2 }, false) ∧
      Below maxEvents (p.handed ++ (exec deliver p.cursor es).2).length ∨
    ∃ cursor, deliverUpTo maxEvents es p =
        ({ p with cursor, handed := limited maxEvents (p.handed ++ (exec deliver p.cursor es).2) },
          true) ∧
      ¬ Below maxEvents (p.handed ++ (exec deliver p.cursor es).2).length := by
  induction es generalizing p with
  | nil => exact .inl (by simpa [deliverUpTo] using h)
  | cons e es ih =>
    have hout : (deliver p.cursor e).2.length ≤ 1 := by
      rw [deliver]
      split <;> simp
    -- the limit is reached by the event itself, or the page goes on
    have hreached : (!(deliver p.cursor e).2.isEmpty &&
        maxEvents.any (· ≤ (p.handed ++ (deliver p.cursor e).2).length)) = true ↔
        ¬ Below maxEvents (p.handed ++ (deliver p.cursor e).2).length := by
      cases hd : (deliver p.cursor e).2 with
      | nil => simpa using h
      | cons d ds => cases maxEvents <;> simp [Below]
    rw [exec_cons, deliverUpTo, ← List.append_assoc]
    simp only
    by_cases hq : Below maxEvents (p.handed ++ (deliver p.cursor e).2).length
    · rw [if_neg fun hc => hreached.mp hc hq]
      exact ih (p := { p with
        cursor := (deliver p.cursor e).1, handed := p.handed ++ (deliver p.cursor e).2 }) hq
    · rw [if_pos (hreached.mpr hq), limited_append hq]
      refine .inr ⟨(deliver p.cursor e).1, ?_, fun hb => hq fun m hm => ?_⟩
      · -- the event that reaches the limit is the last one
        suffices hlimit : limited maxEvents (p.handed ++ (deliver p.cursor e).2) =
            p.handed ++ (deliver p.cursor e).2 by rw [hlimit]
        cases maxEvents with
        | none => rfl
        | some m =>
          have := h m rfl
          exact List.take_of_length_le (by rw [List.length_append]; omega)
      · have := hb m hm
        rw [List.length_append] at this
        omega

/-- A read is at a request: what it delivered, and what is left of the events that are asked for. -/
structure Along (archive : List (Stamped instantOf V)) (c : Option (Cursor instantOf V))
    (asked : List (Stamped instantOf V)) (maxEvents : Option Nat) (t : T)
    (p : Paging instantOf V) (done rest : List (Stamped instantOf V)) : Prop where
  asked : asked = done ++ rest
  seen : ∃ seen ⊆ done, since archive t = seen ++ rest
  cursor : p.cursor = (exec deliver c done).1
  handed : p.handed = (exec deliver c done).2
  below : Below maxEvents p.handed.length

section

variable {archive asked done rest : List (Stamped instantOf V)} {t t' : T} {n size : Nat}

omit [DecidableEq V] in
theorem inTime_since (h : InTime archive) (t : T) : InTime (since archive t) :=
  h.filter _

omit [DecidableEq V] in
theorem since_since (h : t ≤ t') : since (since archive t) t' = since archive t' := by
  rw [since, since, since, List.filter_filter]
  exact List.filter_congr fun e _ => by simpa using fun hle => h.trans hle

/-- What a page is, once the part that was seen is passed over. -/
theorem exec_page {seen : List (Stamped instantOf V)} (hseen : seen ⊆ done) :
    exec deliver (exec deliver c done).1 ((seen ++ rest).take n) =
      exec deliver (exec deliver c done).1 (rest.take (n - seen.length)) := by
  rw [List.take_append, exec_append,
    exec_deliver_again fun e he => hseen (List.mem_of_mem_take he)]
  rfl

omit [DecidableEq V] in
/-- After a page the read goes on at a time that nothing beyond the page is before. -/
theorem seen_next {seen : List (Stamped instantOf V)} (hseen : seen ⊆ done)
    (hsince : since archive t = seen ++ rest) (ht : t ≤ t')
    (hbeyond : ∀ e ∈ (since archive t).drop n, t' ≤ e.1.instant) :
    ∃ seen' ⊆ done ++ rest.take (n - seen.length),
      since archive t' = seen' ++ rest.drop (n - seen.length) := by
  refine ⟨since ((since archive t).take n) t' ++ seen.drop n, fun e he => ?_, ?_⟩
  · rcases List.mem_append.mp he with he | he
    · have he := List.mem_of_mem_filter he
      rw [hsince, List.take_append] at he
      rcases List.mem_append.mp he with he | he
      · exact List.mem_append_left _ (hseen (List.mem_of_mem_take he))
      · exact List.mem_append_right _ he
    · exact List.mem_append_left _ (hseen (List.mem_of_mem_drop he))
  · have hdrop : since ((since archive t).drop n) t' = seen.drop n ++ rest.drop (n - seen.length) := by
      rw [since, List.filter_eq_self.mpr fun e he => by simpa using hbeyond e he, hsince,
        List.drop_append]
    rw [List.append_assoc, ← hdrop, ← since_since ht]
    conv_lhs => rw [← List.take_append_drop n (since archive t)]
    exact List.filter_append ..

omit [DecidableEq V] in
theorem InTime.bounds (h : InTime es) {first last : Stamped instantOf V}
    (hfirst : es.head? = some first) (hlast : es.getLast? = some last) (he : e ∈ es) :
    first.1.instant ≤ e.1.instant ∧ e.1.instant ≤ last.1.instant := by
  constructor
  · obtain ⟨tail, rfl⟩ := List.head?_eq_some_iff.mp hfirst
    rcases List.mem_cons.mp he with rfl | he
    · exact le_rfl
    · exact (List.pairwise_cons.mp h).1 e he
  · obtain ⟨front, rfl⟩ := List.getLast?_eq_some_iff.mp hlast
    rcases List.mem_append.mp he with he | he
    · exact (List.pairwise_append.mp h).2.2 e he last (List.mem_singleton_self last)
    · rw [List.mem_singleton.mp he]

omit [DecidableEq V] in
theorem length_since_lt (ht : t ≤ t') (he : e ∈ since archive t) (hlt : e.1.instant < t') :
    (since archive t').length < (since archive t).length := by
  rw [← since_since ht]
  exact List.length_filter_lt_length_iff_exists.mpr ⟨e, he, by simpa using hlt⟩

/-- **A request**, and those after it: nothing that was asked for is skipped. -/
theorem page_along {respond : String → Nat → Answer V} (harchive : InTime archive)
    (hanswers : Answers archive respond)
    (hcount : ∀ t : T, (archive.countP fun e => decide (e.1.instant = t)) < MAX_COUNT)
    (hsize : 0 < size) {fuel : Nat} {start : Stamp instantOf} {maxCount : Nat}
    (h : Along archive c asked maxEvents start.instant p done rest) (hmax : 0 < maxCount)
    (hfuel : (since archive start.instant).length * (MAX_COUNT + 1) + (MAX_COUNT - maxCount) < fuel) :
    ∃ p', page respond size maxEvents fuel start maxCount p = some p' ∧ p'.failed = p.failed ∧
      p'.handed = limited maxEvents (exec deliver c asked).2 := by
  induction fuel generalizing start maxCount p done rest with
  | zero => exact absurd hfuel (Nat.not_lt_zero _)
  | succ fuel ih =>
    obtain ⟨hasked, ⟨seen, hseen, hsince⟩, hcursor, hhanded, hbelow⟩ := h
    generalize hevents : (since archive start.instant).take maxCount = events
    have hin : InTime events :=
      hevents ▸ (inTime_since harchive _).sublist (List.take_sublist ..)
    have hstamped : (events.map sent).filterMap (Event.stamped instantOf) = events := by
      rw [List.filterMap_map]
      exact (List.filterMap_congr fun e _ => by
        simp [Event.stamped, sent, Stamp.parse_text]).trans List.filterMap_some
    have hexec : exec deliver p.cursor events =
        exec deliver (exec deliver c done).1 (rest.take (maxCount - seen.length)) := by
      rw [hcursor, ← hevents, hsince, exec_page hseen]
    have hdone : (exec deliver p.cursor events).1 =
          (exec deliver c (done ++ rest.take (maxCount - seen.length))).1 ∧
        p.handed ++ (exec deliver p.cursor events).2 =
          (exec deliver c (done ++ rest.take (maxCount - seen.length))).2 := by
      rw [hexec, hhanded, exec_append]
      exact ⟨rfl, rfl⟩
    have hgoes {t' : T} (ht : start.instant ≤ t')
        (hbeyond : ∀ e ∈ (since archive start.instant).drop maxCount, t' ≤ e.1.instant)
        (hbelow : Below maxEvents (p.handed ++ (exec deliver p.cursor events).2).length) :
        Along archive c asked maxEvents t'
          { p with cursor := (exec deliver p.cursor events).1
                   handed := p.handed ++ (exec deliver p.cursor events).2
                   asked := p.asked ++ [(start.text, maxCount)] }
          (done ++ rest.take (maxCount - seen.length)) (rest.drop (maxCount - seen.length)) :=
      ⟨by rw [hasked, List.append_assoc, List.take_append_drop], seen_next hseen hsince ht hbeyond,
        hdone.1, hdone.2, hbelow⟩
    simp only [page, hanswers start maxCount, hevents, hstamped, sortEvents_of_inTime hin,
      List.length_map]
    rcases deliverUpTo_spec (p := { p with asked := p.asked ++ [(start.text, maxCount)] }) events
      hbelow with ⟨heq, hbelow'⟩ | ⟨cursor, heq, hlimit⟩
    · rw [heq]
      simp only
      split
      · next hshort =>
        -- the page is not full: it is the last one
        refine ⟨_, rfl, rfl, ?_⟩
        have hall : rest.take (maxCount - seen.length) = rest := by
          rw [← hevents, List.length_take, hsince, List.length_append] at hshort
          exact List.take_of_length_le (by omega)
        rw [hall, ← hasked] at hdone
        rw [← hdone.2, limited_of_below hbelow']
      · next hfull =>
        have hlength : events.length = maxCount := by
          rw [← hevents, List.length_take] at hfull ⊢
          omega
        obtain ⟨first, hfirst⟩ : ∃ first, events.head? = some first :=
          Option.ne_none_iff_exists'.mp fun hnone => by
            simp [List.head?_eq_none_iff.mp hnone] at hlength; omega
        obtain ⟨last, hlast⟩ : ∃ last, events.getLast? = some last :=
          Option.ne_none_iff_exists'.mp fun hnone => by
            simp [List.getLast?_eq_none_iff.mp hnone] at hlength; omega
        have hfrom (e : Stamped instantOf V) (he : e ∈ events) : e ∈ since archive start.instant :=
          List.mem_of_mem_take (hevents ▸ he)
        have hstart (e : Stamped instantOf V) (he : e ∈ since archive start.instant) :
            start.instant ≤ e.1.instant := by simpa [since] using (List.mem_filter.mp he).2
        rw [hfirst, hlast]
        simp only
        split
        · next hsame =>
          -- the whole page is at one time, so there is more to ask for
          have hle : events.length ≤
              archive.countP fun e => decide (e.1.instant = first.1.instant) := by
            rw [← List.countP_eq_length.mpr fun e he => decide_eq_true
              (le_antisymm (hsame ▸ (hin.bounds hfirst hlast he).2) (hin.bounds hfirst hlast he).1)]
            exact (hevents ▸ (List.take_sublist ..).trans List.filter_sublist :
              events.Sublist archive).countP_le
          have hless := hcount first.1.instant
          rw [if_neg (by omega)]
          exact ih (hgoes le_rfl (fun e he => hstart e (List.mem_of_mem_drop he)) hbelow')
            (by omega) (by omega)
        · next hdiffer =>
          have hmem := List.mem_of_getLast? hlast
          have hlt : first.1.instant < last.1.instant :=
            lt_of_le_of_ne (hin.bounds hfirst hlast hmem).1 hdiffer
          have hfewer := length_since_lt (hstart last (hfrom last hmem))
            (hfrom first (List.mem_of_head? hfirst)) hlt
          refine ih (hgoes (hstart last (hfrom last hmem)) (fun e he => ?_) hbelow') hsize ?_
          · have hsplit := inTime_since harchive start.instant
            rw [← List.take_append_drop maxCount (since archive start.instant), hevents] at hsplit
            exact (List.pairwise_append.mp hsplit).2.2 last hmem e he
          · have := Nat.mul_le_mul_right (MAX_COUNT + 1) (Nat.succ_le_of_lt hfewer)
            rw [Nat.succ_mul] at this
            omega
    · rw [heq]
      refine ⟨_, rfl, rfl, ?_⟩
      rw [hdone.2] at hlimit
      rw [hasked, ← List.take_append_drop (maxCount - seen.length) rest, ← List.append_assoc,
        exec_append c, limited_append hlimit, ← hdone.2]

/-- **A read of the archive** ends, and hands over what is due from its start on. -/
theorem page_exact {respond : String → Nat → Answer V} (harchive : InTime archive)
    (hanswers : Answers archive respond)
    (hcount : ∀ t : T, (archive.countP fun e => decide (e.1.instant = t)) < MAX_COUNT)
    (c : Option (Cursor instantOf V)) (start : Stamp instantOf) (hsize : 0 < size)
    (maxEvents : Option Nat) {fuel : Nat} (hfuel : (archive.length + 1) * (MAX_COUNT + 1) ≤ fuel) :
    ∃ p, page respond size maxEvents fuel start size
        { cursor := c, handed := [], asked := [], failed := none } = some p ∧ p.failed = none ∧
      p.handed = limited maxEvents (due c (since archive start.instant)) := by
  have hfrom : Along archive c (since archive start.instant) maxEvents start.instant
      { cursor := c, handed := [], asked := [], failed := none } [] (since archive start.instant) :=
    ⟨rfl, ⟨[], List.Subset.refl _, rfl⟩, rfl, rfl, fun m _ => by simp⟩
  have hrounds :
      (since archive start.instant).length * (MAX_COUNT + 1) + (MAX_COUNT - size) < fuel := by
    have := Nat.mul_le_mul_right (MAX_COUNT + 1)
      (List.length_filter_le (fun e => decide (start.instant ≤ e.1.instant)) archive)
    rw [Nat.succ_mul] at hfuel
    rw [since]
    omega
  obtain ⟨p, hpage, hfailed, hhanded⟩ :=
    page_along harchive hanswers hcount hsize hfrom hsize hrounds
  exact ⟨p, hpage, hfailed, by rw [hhanded, exec_deliver c (inTime_since harchive _)]⟩

end

end

/-! An archive of three events, two of them at one time, read one by one. -/

def eight : Stamp Rfc3339.instant where
  text := "2026-11-02T08:00:00Z"
  instant := 1793606400
  parsed := by decide +kernel

def nine : Stamp Rfc3339.instant where
  text := "2026-11-02T09:00:00Z"
  instant := 1793610000
  parsed := by decide +kernel

def recorded : List (Stamped Rfc3339.instant Nat) := [(eight, 1), (eight, 2), (nine, 1)]

def recordedSince (text : String) (n : Nat) : Answer Nat :=
  match Rfc3339.instant text with
  | some t => .events (((since recorded t).take n).map sent)
  | none => .refused

/-- An archive of several hours, read in pages. -/
theorem page_exact_hours :
    ∃ p, page recordedSince 1 none 600004 eight 1
        { cursor := some { ts := eight, values := [1] }, handed := [], asked := [], failed := none } =
          some p ∧
      p.failed = none ∧
      p.handed = limited none (due (some { ts := eight, values := [1] })
        (since recorded eight.instant)) :=
  page_exact (by unfold InTime; decide +kernel)
    (fun start n => by rw [recordedSince, start.parsed])
    (fun _ => Nat.lt_of_le_of_lt List.countP_le_length (by decide)) _ eight (by decide) none
    (by decide)

end TedgeDot.AvevaPi.Delivery
