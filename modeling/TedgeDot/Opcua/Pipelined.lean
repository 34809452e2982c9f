import Mathlib.Algebra.GroupWithZero.Nat
import Mathlib.Data.List.Nodup
import Mathlib.Data.List.Perm.Basic

/-!
# A pipelined OPC UA read

`read_in_blocks_pipelined`. The items of a poll are read in blocks, several of them in flight, whose
calls end in any order. Each round of the loop comes with a `Turn`: what the endpoint's budget allows
at each check, which running call ends and how. The loop keeps a log of what it did, and what it
returns is a function of the log.

## Main result

- `read_exact`: every read ends, with the results of its blocks at their items, whatever the turns.
-/

namespace TedgeDot.Opcua.Pipelined

universe u v

/-! ## The read -/

/-- `BlockFailure` -/
structure BlockFailure where
  reason : String
  linkLost : Bool
  busy : Bool
  timedOut : Bool

/-- `BUSY_RETRIES` -/
def BUSY_RETRIES : Nat := 8

/-- A block: its first item, its items and how often it was sent before. -/
structure Block (T : Type u) where
  start : Nat
  chunk : List T
  tries : Nat

/-- What the loop does: it sends a block, or takes the end of a call by one of its arms. -/
inductive Act (T : Type u) (R : Type v) where
  | sent (b : Block T)
  | answered (b : Block T) (values : List R)
  /-- The block is put back, to be sent again. -/
  | again (b : Block T) (f : BlockFailure)
  /-- The block found the link gone. -/
  | gone (b : Block T) (f : BlockFailure)
  | refused (b : Block T) (f : BlockFailure)

/-- The local variables, and what was done so far. -/
structure Loop (T : Type u) (R : Type v) where
  results : List (Option (Except String R))
  blocks : List (Block T)
  running : List (Block T)
  lost : Option String
  anyOk : Bool
  log : List (Act T R)

/-- What a round of the loop meets. -/
structure Turn (R : Type v) where
  /-- What the endpoint's budget allows, by the number of blocks behind the one that is checked. -/
  effective : Nat → Nat
  /-- The call that ends, among those that run. -/
  ends : Nat
  outcome : Except BlockFailure (List R)

variable {T : Type u} {R : Type v}

/-- `InFlight::current` -/
def current (held effective : Nat) : Nat := max (min held effective) 1

/-- The inner loop: blocks are sent while the budget allows it. -/
def fill (held : Nat) (effective : Nat → Nat) : List (Block T) → Loop T R → Loop T R
  | [], l => { l with blocks := [] }
  | b :: blocks, l =>
    if l.lost.isNone ∧ l.running.length < current held (effective blocks.length) then
      fill held effective blocks { l with running := l.running ++ [b], log := l.log ++ [.sent b] }
    else { l with blocks := b :: blocks }

def Block.Covers (b : Block T) (i : Nat) : Prop := b.start ≤ i ∧ i < b.start + b.chunk.length

instance (b : Block T) (i : Nat) : Decidable (b.Covers i) := inferInstanceAs (Decidable (_ ∧ _))

/-- `for slot in &mut results[start..start + asked]`; nothing where the slice is out of range. -/
def put (results : List (Option (Except String R))) (b : Block T) (slot : Nat → Except String R) :
    Option (List (Option (Except String R))) :=
  if b.start + b.chunk.length ≤ results.length then
    some (results.mapIdx fun i old => if b.Covers i then some (slot (i - b.start)) else old)
  else none

/-- What an item gets of an answer. -/
def value (values : List R) (j : Nat) : Except String R :=
  match values[j]? with
  | some r => .ok r
  | none => .error "no value returned"

/-- The arm that the end of a call takes, `l` being without the call. -/
def arm (l : Loop T R) (b : Block T) : Except BlockFailure (List R) → Act T R
  | .ok values => .answered b values
  | .error f =>
    if l.lost.isNone ∧ b.tries < BUSY_RETRIES ∧ (f.busy ∨ (f.timedOut ∧ l.running ≠ [])) then
      .again b f
    else if f.linkLost then .gone b f
    else .refused b f

/-- What an arm does. -/
def take (l : Loop T R) : Act T R → Option (Loop T R)
  | .answered b values =>
    (put l.results b (value values)).map fun results => { l with results, anyOk := true }
  | .again b _ => some { l with blocks := { b with tries := b.tries + 1 } :: l.blocks }
  | .gone _ f => some { l with lost := some (l.lost.getD f.reason) }
  | .refused b f =>
    (put l.results b fun _ => .error f.reason).map fun results => { l with results }
  | .sent _ => some l

/-- The loop, over its rounds; nothing where they are too few, or for a panic. -/
def run (held : Nat) : List (Turn R) → Loop T R → Option (Loop T R)
  | [], _ => none
  | turn :: turns, l₀ =>
    let l := fill held turn.effective l₀.blocks l₀
    match l.running[turn.ends % l.running.length]? with
    | none => some l
    | some b =>
      let rest := { l with running := l.running.eraseIdx (turn.ends % l.running.length) }
      let act := arm rest b turn.outcome
      (take { rest with log := rest.log ++ [act] } act).bind (run held turns)

/-- What is returned. -/
def finish (l : Loop T R) : List (Option (Except String R)) × Option String :=
  match l.lost with
  | some reason =>
    if l.anyOk then (l.results, some reason)
    else (l.results.map fun slot => slot.or (some (.error reason)), none)
  | none => (l.results, none)

/-- The blocks of the items, `items.chunks(size)`. -/
def blocksOf (items : List T) (size : Nat) : List (Block T) :=
  (List.range ((items.length + size - 1) / size)).map fun i =>
    { start := i * size, chunk := (items.drop (i * size)).take size, tries := 0 }

def init (items : List T) (block : Nat) : Loop T R where
  results := List.replicate items.length none
  blocks := blocksOf items (max block 1)
  running := []
  lost := none
  anyOk := false
  log := []

/-- `read_in_blocks_pipelined`, with what it did. -/
def readInBlocksPipelined (items : List T) (block held : Nat) (turns : List (Turn R)) :
    Option ((List (Option (Except String R)) × Option String) × List (Act T R)) :=
  (run held turns (init items block)).map fun l => (finish l, l.log)

/-! ## What a read is to be -/

/-- The block that an act is about. -/
def Act.block : Act T R → Block T
  | .sent b | .answered b _ | .again b _ | .gone b _ | .refused b _ => b

/-- The block that an act sends. -/
def Act.call : Act T R → Option (Block T)
  | .sent b => some b
  | _ => none

/-- The block whose call an act ends. -/
def Act.ended : Act T R → Option (Block T)
  | .sent _ => none
  | .answered b _ | .again b _ | .gone b _ | .refused b _ => some b

/-- How that call ended. -/
def Act.outcome : Act T R → Option (Except BlockFailure (List R))
  | .sent _ => none
  | .answered _ values => some (.ok values)
  | .again _ f | .gone _ f | .refused _ f => some (.error f)

/-- What the end of a call has to be for its act. -/
def Act.Due : Act T R → Prop
  | .sent _ | .answered _ _ => True
  | .again b f => b.tries < BUSY_RETRIES ∧ (f.busy ∨ f.timedOut)
  | .gone _ f => f.linkLost = true
  | .refused _ f => f.linkLost = false

def Act.sends (start : Nat) : Act T R → Bool
  | .sent b => b.start == start
  | _ => false

/-- How often the block that starts there was sent. -/
def timesSent (log : List (Act T R)) (start : Nat) : Nat := log.countP (Act.sends start)

/-- A block asks for the items from its start on. -/
structure Own (items : List T) (size : Nat) (b : Block T) : Prop where
  inside : b.start < items.length
  aligned : size ∣ b.start
  chunk : b.chunk = (items.drop b.start).take size

/-- A read as it is meant, where the rounds are `turns`. -/
structure Exact (items : List T) (size : Nat) (turns : List (Turn R))
    (results : List (Option (Except String R))) (lost : Option String) (log : List (Act T R)) :
    Prop where
  length : results.length = items.length
  own : ∀ act ∈ log, Own items size act.block
  /-- At any time the calls that have ended are among those that were sent, each once. -/
  calls : ∀ before, before <+: log →
    (before.filterMap Act.ended).Subperm (before.filterMap Act.call)
  /-- All of them are awaited. -/
  awaited : (log.filterMap Act.ended).Perm (log.filterMap Act.call)
  /-- A call ends as its round has it, so an answer has the values of the endpoint. -/
  outcomes : log.filterMap Act.outcome <+: turns.map Turn.outcome
  due : ∀ act ∈ log, act.Due
  sends : ∀ start, timesSent log start ≤ 9
  /-- A good result is the value at its item's offset in an answer to its block. -/
  good : ∀ (i : Nat) r, results[i]? = some (some (.ok r)) →
    ∃ b values, .answered b values ∈ log ∧ b.Covers i ∧ values[i - b.start]? = some r
  /-- An answer is what its items get; a short one fails the items that it misses. -/
  answered : ∀ b values, .answered b values ∈ log → ∀ i, b.Covers i →
    results[i]? = some (some (value values (i - b.start)))
  /-- A refused block fails its items. -/
  refused : ∀ b f, .refused b f ∈ log → ∀ i, b.Covers i →
    results[i]? = some (some (.error f.reason))
  /-- No other item fails, but where nothing was answered and the link is gone. -/
  failed : ∀ (i : Nat) e, results[i]? = some (some (.error e)) →
    (∃ b values, .answered b values ∈ log ∧ b.Covers i ∧ values.length ≤ i - b.start) ∨
    (∃ b f, .refused b f ∈ log ∧ b.Covers i ∧ f.reason = e) ∨
    (∃ b f, .gone b f ∈ log ∧ f.reason = e) ∧ ∀ b values, .answered b values ∉ log
  /-- Nothing is sent after a block that found the link gone. -/
  silent : log.Pairwise fun a a' => ∀ b f b', a = .gone b f → a' ≠ .sent b'
  /-- An item is left without a result only where the link was lost and a block was answered, and
  the loss is returned. -/
  unread : ∀ i : Nat, results[i]? = some none →
    (∃ b f, .gone b f ∈ log ∧ lost = some f.reason) ∧ ∃ b values, .answered b values ∈ log

/-! ## Blocks -/

section

variable {items : List T} {size : Nat} {b c : Block T}

theorem Own.le (h : Own items size b) : b.start + b.chunk.length ≤ items.length := by
  rw [h.chunk, List.length_take, List.length_drop]
  have := h.inside
  omega

/-- An item is in one block. -/
theorem Own.start_eq (hb : Own items size b) {i : Nat} (hi : b.Covers i) :
    b.start = i / size * size := by
  obtain ⟨x, hx⟩ := hb.aligned
  obtain ⟨hle, hlt⟩ := hi
  rw [hb.chunk, List.length_take] at hlt
  have hlt : i - b.start < size := by omega
  rw [show i = i - b.start + size * x by omega,
    Nat.add_mul_div_left _ _ (Nat.zero_lt_of_lt hlt), Nat.div_eq_of_lt hlt, Nat.zero_add, hx,
    Nat.mul_comm]

theorem Own.covers (hb : Own items size b) (hsize : 0 < size) {i : Nat} (hi : i < items.length)
    (hstart : b.start = i / size * size) : b.Covers i := by
  have hmod := Nat.div_add_mod' i size
  have hlt := Nat.mod_lt i hsize
  refine ⟨by omega, ?_⟩
  rw [hb.chunk, List.length_take, List.length_drop]
  omega

theorem starts_blocksOf (items : List T) (size : Nat) : (blocksOf items size).map Block.start =
    (List.range ((items.length + size - 1) / size)).map (· * size) := by
  simp [blocksOf]

theorem nodup_blocksOf (items : List T) (hsize : 0 < size) :
    ((blocksOf items size).map Block.start).Nodup := by
  rw [starts_blocksOf]
  exact List.nodup_range.map fun _ _ => Nat.eq_of_mul_eq_mul_right hsize

theorem start_mem_blocksOf (hsize : 0 < size) {i : Nat} (hi : i < items.length) :
    i / size * size ∈ (blocksOf items size).map Block.start := by
  rw [starts_blocksOf]
  refine List.mem_map_of_mem (List.mem_range.mpr ?_)
  rw [Nat.lt_iff_add_one_le, Nat.le_div_iff_mul_le hsize, Nat.add_mul]
  have := Nat.div_mul_le_self i size
  omega

theorem own_of_mem_blocksOf (hsize : 0 < size) (hb : b ∈ blocksOf items size) :
    Own items size b ∧ b.tries = 0 := by
  obtain ⟨i, hi, rfl⟩ := List.mem_map.mp hb
  rw [List.mem_range, Nat.lt_iff_add_one_le, Nat.le_div_iff_mul_le hsize, Nat.add_mul] at hi
  exact ⟨⟨by dsimp only; omega, Nat.dvd_mul_left .., rfl⟩, rfl⟩

end

/-! ## The loop and its log -/

/-- An act that ends with its block. -/
def Act.settles : Act T R → Bool
  | .sent _ | .again .. => false
  | _ => true

/-- What an act gives an item. -/
def Act.gives (i : Nat) : Act T R → Option (Except String R)
  | .answered b values => if b.Covers i then some (value values (i - b.start)) else none
  | .refused b f => if b.Covers i then some (.error f.reason) else none
  | _ => none

def Act.loss : Act T R → Option String
  | .gone _ f => some f.reason
  | _ => none

def Act.isAnswer : Act T R → Bool
  | .answered .. => true
  | _ => false

/-- What the log says of an item: its last result. -/
def shown (log : List (Act T R)) (i : Nat) : Option (Except String R) :=
  log.reverse.findSome? (Act.gives i)

theorem shown_concat (log : List (Act T R)) (act : Act T R) (i : Nat) :
    shown (log ++ [act]) i = (act.gives i).or (shown log i) := by
  rw [shown, List.reverse_append, List.reverse_singleton, List.singleton_append, List.findSome?_cons]
  cases act.gives i <;> rfl

/-- A block that is queued, or in flight, `sent` more times than it was put back. -/
structure Ready (items : List T) (size : Nat) (log : List (Act T R)) (sent : Nat) (b : Block T) : Prop
    extends Own items size b where
  tries : b.tries ≤ BUSY_RETRIES
  count : timesSent log b.start = b.tries + sent

/-- The loop is what its log says, and each block is queued, in flight or settled. -/
structure Inv (items : List T) (size : Nat) (l : Loop T R) : Prop where
  length : l.results.length = items.length
  results : ∀ i < items.length, l.results[i]? = some (shown l.log i)
  lost : l.lost = l.log.findSome? Act.loss
  anyOk : l.anyOk = l.log.any Act.isAnswer
  queued : ∀ b ∈ l.blocks, Ready items size l.log 0 b
  flying : ∀ b ∈ l.running, Ready items size l.log 1 b
  acts : ∀ act ∈ l.log, Own items size act.block
  parts : ((l.blocks ++ l.running ++ (l.log.filter Act.settles).map Act.block).map Block.start).Perm
    ((blocksOf items size).map Block.start)
  calls : (l.running ++ l.log.filterMap Act.ended).Perm (l.log.filterMap Act.call)
  earlier : ∀ before, before <+: l.log →
    (before.filterMap Act.ended).Subperm (before.filterMap Act.call)
  due : ∀ act ∈ l.log, act.Due
  sends : ∀ start, timesSent l.log start ≤ 9
  silent : l.log.Pairwise fun a a' => ∀ b f b', a = .gone b f → a' ≠ .sent b'

section

variable {items : List T} {size held k n : Nat} {l : Loop T R} {b : Block T}
  {blocks : List (Block T)} {log log' : List (Act T R)}

theorem Ready.keep (h : Ready items size log n b)
    (hlog : timesSent log' b.start = timesSent log b.start) : Ready items size log' n b :=
  ⟨h.toOwn, h.tries, hlog.trans h.count⟩

theorem inv_init (items : List T) {block size : Nat} (hsize : size = max block 1) :
    Inv (R := R) items size (init items block) where
  length := List.length_replicate
  results := fun i hi => List.getElem?_replicate_of_lt hi
  lost := rfl
  anyOk := rfl
  queued := fun b hb => by
    obtain ⟨hown, htries⟩ := own_of_mem_blocksOf (by omega) hb
    exact hsize ▸ ⟨hown, htries ▸ Nat.zero_le _, htries.symm⟩
  flying := fun b hb => absurd hb List.not_mem_nil
  acts := fun act hact => absurd hact List.not_mem_nil
  parts := by simp [init, hsize]
  calls := List.Perm.nil
  earlier := fun before hbefore => by
    rw [List.prefix_nil.mp hbefore]
    exact List.nil_subperm
  due := fun act hact => absurd hact List.not_mem_nil
  sends := fun _ => Nat.zero_le _
  silent := List.Pairwise.nil

/-- What holds of the calls before an act and after it held at any time before. -/
theorem calls_concat {running : List (Block T)} {act : Act T R}
    (hcalls : (running ++ (log ++ [act]).filterMap Act.ended).Perm
      ((log ++ [act]).filterMap Act.call))
    (hearlier : ∀ before, before <+: log →
      (before.filterMap Act.ended).Subperm (before.filterMap Act.call)) :
    ∀ before, before <+: log ++ [act] →
      (before.filterMap Act.ended).Subperm (before.filterMap Act.call) := by
  intro before hbefore
  rcases List.prefix_concat_iff.mp hbefore with rfl | hbefore
  · exact (List.sublist_append_right ..).subperm.trans hcalls.subperm
  · exact hearlier before hbefore

theorem Inv.apart (h : Inv items size l) (hsize : 0 < size) :
    ((l.blocks ++ l.running ++ (l.log.filter Act.settles).map Act.block).map Block.start).Nodup :=
  h.parts.nodup_iff.mpr (nodup_blocksOf items hsize)

theorem Inv.not_gone (h : Inv items size l) (hlost : l.lost = none) (c : Block T) (f : BlockFailure) :
    .gone c f ∉ l.log := by
  intro hgone
  rw [h.lost, List.findSome?_eq_none_iff] at hlost
  cases hlost _ hgone

/-- A block is sent. -/
theorem Inv.send (h : Inv items size { l with blocks := b :: blocks }) (hsize : 0 < size)
    (hlost : l.lost = none) :
    Inv items size { l with blocks, running := l.running ++ [b], log := l.log ++ [.sent b] } := by
  have hb := h.queued b List.mem_cons_self
  -- only the block's own count goes up
  have hcount (start : Nat) : timesSent (l.log ++ [.sent b]) start =
      timesSent l.log start + if b.start = start then 1 else 0 := by
    simp [timesSent, Act.sends]
  have hother {c : Block T} (hc : c ∈ blocks ++ l.running) :
      timesSent (l.log ++ [.sent b]) c.start = timesSent l.log c.start := by
    have hapart := h.apart hsize
    rw [List.map_append, List.cons_append, List.map_cons] at hapart
    have hne : b.start ≠ c.start := fun heq =>
      (List.nodup_cons.mp hapart.of_append_left).1 (heq ▸ List.mem_map_of_mem hc)
    rw [hcount, if_neg hne, Nat.add_zero]
  have hcalls : (l.running ++ [b] ++ (l.log ++ [Act.sent b]).filterMap Act.ended).Perm
      ((l.log ++ [Act.sent b]).filterMap Act.call) := by
    have hperm : (l.running ++ [b] ++ l.log.filterMap Act.ended).Perm
        (l.running ++ l.log.filterMap Act.ended ++ [b]) := by
      rw [List.append_assoc, List.append_assoc]
      exact List.perm_append_comm.append_left _
    simpa [List.filterMap_cons, Act.ended, Act.call] using hperm.trans (h.calls.append_right [b])
  exact {
    calls := hcalls
    earlier := calls_concat hcalls h.earlier
    due := List.forall_mem_append.mpr ⟨h.due, List.forall_mem_singleton.mpr trivial⟩
    length := h.length
    results := fun i hi => by simpa [shown_concat, Act.gives] using h.results i hi
    lost := by simpa [Act.loss] using h.lost
    anyOk := by simpa [Act.isAnswer] using h.anyOk
    queued := fun c hc => (h.queued c (List.mem_cons_of_mem _ hc)).keep
      (hother (List.mem_append_left _ hc))
    flying := List.forall_mem_append.mpr
      ⟨fun c hc => (h.flying c hc).keep (hother (List.mem_append_right _ hc)),
        List.forall_mem_singleton.mpr
          ⟨hb.toOwn, hb.tries, by rw [hcount, if_pos rfl, hb.count]⟩⟩
    acts := List.forall_mem_append.mpr ⟨h.acts, List.forall_mem_singleton.mpr hb.toOwn⟩
    parts := by
      refine List.Perm.trans (List.Perm.map _ ?_) h.parts
      have hperm : (blocks ++ (l.running ++ [b])).Perm (b :: blocks ++ l.running) := by
        rw [← List.append_assoc]
        exact List.perm_append_comm
      simpa [Act.settles] using hperm.append_right _
    sends := fun start => by
      rw [hcount]
      split
      · next heq =>
        rw [← heq, hb.count]
        exact Nat.succ_le_succ hb.tries
      · exact h.sends start
    silent := List.pairwise_append.mpr ⟨h.silent, List.pairwise_singleton _ _,
      fun a ha _ _ c f _ hgone => absurd (hgone ▸ ha) (h.not_gone hlost c f)⟩ }

/-- What is left of a loop's work: how often its blocks may still be sent. -/
def weight (l : Loop T R) : Nat := ((l.blocks ++ l.running).map fun b => 9 - b.tries).sum

/-- Filling up the calls keeps the invariant. -/
theorem fill_spec {effective : Nat → Nat} (hsize : 0 < size) (h : Inv items size { l with blocks }) :
    Inv items size (fill held effective blocks l) ∧
      weight (fill held effective blocks l) = weight { l with blocks } ∧
      ((fill held effective blocks l).running = [] → (fill held effective blocks l).lost = none →
        (fill held effective blocks l).blocks = []) := by
  induction blocks generalizing l with
  | nil => exact ⟨h, rfl, fun _ _ => rfl⟩
  | cons b blocks ih =>
    unfold fill
    split
    · next hroom =>
      have hlost : l.lost = none := Option.isNone_iff_eq_none.mp hroom.1
      obtain ⟨hinv, hweight, hnone⟩ := @ih
        { l with running := l.running ++ [b], log := l.log ++ [.sent b] } (h.send hsize hlost)
      refine ⟨hinv, hweight.trans ?_, hnone⟩
      simp only [weight, List.map_append, List.map_cons, List.map_nil, List.sum_append,
        List.sum_cons, List.sum_nil, List.cons_append]
      omega
    · next hroom =>
      refine ⟨h, rfl, fun hidle hlost => absurd ⟨Option.isNone_iff_eq_none.mpr hlost, ?_⟩ hroom⟩
      rw [show l.running = [] from hidle]
      exact Nat.lt_of_lt_of_le Nat.zero_lt_one (Nat.le_max_right ..)

/-- A call ends with an act that sends nothing: what it leaves, for any results. -/
theorem Inv.ended (h : Inv items size l) (hk : l.running[k]? = some b) {act : Act T R}
    (hact : ∀ b', act ≠ .sent b') (hblock : act.block = b) (hdue : act.Due)
    {results : List (Option (Except String R))} (hlength : results.length = items.length)
    (hresults : ∀ i < items.length, results[i]? = some ((act.gives i).or (shown l.log i)))
    (hqueued : ∀ c ∈ blocks, Ready items size l.log 0 c)
    (hblocks : (blocks.map Block.start ++ if act.settles then [b.start] else []).Perm
      (b.start :: l.blocks.map Block.start)) :
    Inv items size { l with
      results, blocks, running := l.running.eraseIdx k, log := l.log ++ [act]
      lost := l.lost.or act.loss, anyOk := l.anyOk || act.isAnswer } := by
  obtain ⟨hlt, hb⟩ := List.getElem?_eq_some_iff.mp hk
  -- an ending sends nothing
  have hcount (start : Nat) : timesSent (l.log ++ [act]) start = timesSent l.log start := by
    cases act with
    | sent b' => exact absurd rfl (hact b')
    | _ => simp [timesSent, Act.sends]
  have hcalls : (l.running.eraseIdx k ++ (l.log ++ [act]).filterMap Act.ended).Perm
      ((l.log ++ [act]).filterMap Act.call) := by
    have hends : act.ended = some b ∧ act.call = none := by
      cases act with
      | sent b' => exact absurd rfl (hact b')
      | _ => exact ⟨congrArg some hblock, rfl⟩
    have hback : (l.running.eraseIdx k ++ (l.log.filterMap Act.ended ++ [b])).Perm
        (l.running ++ l.log.filterMap Act.ended) := by
      rw [← List.append_assoc]
      refine (List.perm_append_singleton ..).trans ?_
      exact (hb ▸ List.getElem_cons_eraseIdx_perm hlt).append_right _
    simpa [hends] using hback.trans h.calls
  exact {
    calls := hcalls
    earlier := calls_concat hcalls h.earlier
    due := List.forall_mem_append.mpr ⟨h.due, List.forall_mem_singleton.mpr hdue⟩
    length := hlength
    results := fun i hi => by simpa [shown_concat] using hresults i hi
    lost := by simp [h.lost, List.findSome?_append]
    anyOk := by simp [h.anyOk]
    queued := fun c hc => (hqueued c hc).keep (hcount _)
    flying := fun c hc => (h.flying c (List.mem_of_mem_eraseIdx hc)).keep (hcount _)
    acts := List.forall_mem_append.mpr ⟨h.acts, List.forall_mem_singleton.mpr
      (hblock ▸ (h.flying b (hb ▸ List.getElem_mem hlt)).toOwn)⟩
    parts := by
      refine List.Perm.trans ?_ h.parts
      have hrest : (b.start :: (l.running.eraseIdx k).map Block.start).Perm
          (l.running.map Block.start) :=
        hb ▸ (List.getElem_cons_eraseIdx_perm hlt).map Block.start
      have hend : ((if act.settles then [act] else []).map Act.block).map Block.start =
          if act.settles then [b.start] else [] := by
        split <;> simp [hblock]
      simp only [List.filter_append, List.map_append, List.filter_cons, List.filter_nil, hend]
      refine List.perm_iff_count.mpr fun start => ?_
      have := hblocks.count_eq start
      have := hrest.count_eq start
      simp only [List.count_append, List.count_cons] at *
      omega
    sends := fun start => (hcount start) ▸ h.sends start
    silent := List.pairwise_append.mpr ⟨h.silent, List.pairwise_singleton _ _,
      fun _ _ _ ha _ _ b' _ hsent => hact b' ((List.mem_singleton.mp ha).symm.trans hsent)⟩ }

theorem weight_eraseIdx (hk : l.running[k]? = some b) :
    weight { l with running := l.running.eraseIdx k } + (9 - b.tries) = weight l := by
  obtain ⟨hlt, rfl⟩ := List.getElem?_eq_some_iff.mp hk
  rw [weight, weight, List.map_append, List.map_append, List.sum_append, List.sum_append,
    Nat.add_assoc, ← ((List.getElem_cons_eraseIdx_perm hlt).map _).sum_nat, List.map_cons,
    List.sum_cons, Nat.add_comm (9 - _)]

/-- A block is put back. -/
theorem Inv.again (h : Inv items size l) (hk : l.running[k]? = some b) (f : BlockFailure)
    (hdue : Act.Due (R := R) (.again b f)) :
    Inv items size { l with
      blocks := { b with tries := b.tries + 1 } :: l.blocks
      running := l.running.eraseIdx k
      log := l.log ++ [.again b f] } := by
  have hb := h.flying b (List.mem_of_getElem? hk)
  have hback : Ready items size l.log 0 { b with tries := b.tries + 1 } :=
    ⟨⟨hb.inside, hb.aligned, hb.chunk⟩, hdue.1, hb.count⟩
  have hact (b' : Block T) : (.again b f : Act T R) ≠ .sent b' := by rintro ⟨⟩
  simpa [Act.loss, Act.isAnswer] using h.ended hk hact rfl hdue h.length
    (fun i hi => (h.results i hi).trans rfl) (List.forall_mem_cons.mpr ⟨hback, h.queued⟩)
    (by simp [Act.settles])

/-- A block is settled. -/
theorem Inv.settle (h : Inv items size l) (hk : l.running[k]? = some b) {act : Act T R}
    (hsettles : act.settles = true) (hblock : act.block = b) (hdue : act.Due) :
    ∃ l', take { l with running := l.running.eraseIdx k, log := l.log ++ [act] } act = some l' ∧
      Inv items size l' ∧ weight l' = weight { l with running := l.running.eraseIdx k } := by
  have hown : Own items size b :=
    (h.flying b (List.mem_of_getElem? hk)).toOwn
  have hle : b.start + b.chunk.length ≤ l.results.length := h.length ▸ hown.le
  have hinv {results : List (Option (Except String R))} (hlength : results.length = items.length)
      (hresults : ∀ i < items.length, results[i]? = some ((act.gives i).or (shown l.log i))) :=
    h.ended hk (by rintro b' rfl; cases hsettles) hblock hdue hlength hresults h.queued
      (by rw [if_pos hsettles]; exact List.perm_append_singleton ..)
  have hslots (slot : Nat → Except String R) (i : Nat) (hi : i < items.length) :
      (l.results.mapIdx fun i old => if b.Covers i then some (slot (i - b.start)) else old)[i]? =
        some ((if b.Covers i then some (slot (i - b.start)) else none).or (shown l.log i)) := by
    rw [List.getElem?_mapIdx, h.results i hi, Option.map_some]
    split <;> rfl
  cases act with
  | sent | again => cases hsettles
  | answered c values =>
    obtain rfl : c = b := hblock
    refine ⟨_, congrArg (Option.map _) (if_pos hle), ?_, rfl⟩
    simpa [Act.loss, Act.isAnswer] using
      hinv (by rw [List.length_mapIdx, h.length]) (hslots (value values))
  | gone c f =>
    refine ⟨_, rfl, ?_, rfl⟩
    have hgone := hinv h.length fun i hi => (h.results i hi).trans rfl
    simp only [Act.loss, Act.isAnswer, Bool.or_false] at hgone
    rwa [show l.lost.or (some f.reason) = some (l.lost.getD f.reason) by cases l.lost <;> rfl] at hgone
  | refused c f =>
    obtain rfl : c = b := hblock
    refine ⟨_, congrArg (Option.map _) (if_pos hle), ?_, rfl⟩
    simpa [Act.loss, Act.isAnswer] using
      hinv (by rw [List.length_mapIdx, h.length]) (hslots fun _ => .error f.reason)

/-- The end of a call, by its arm. -/
theorem Inv.round (h : Inv items size l) (hk : l.running[k]? = some b)
    (outcome : Except BlockFailure (List R)) :
    let rest := { l with running := l.running.eraseIdx k }
    ∃ l', take { rest with log := rest.log ++ [arm rest b outcome] } (arm rest b outcome) = some l' ∧
      Inv items size l' ∧ weight l' < weight l := by
  intro rest
  have hweight := weight_eraseIdx hk
  have htries : b.tries ≤ 8 := (h.flying b (List.mem_of_getElem? hk)).tries
  have hsettle {act : Act T R} (hsettles : act.settles = true) (hblock : act.block = b)
      (hdue : act.Due) :
      ∃ l', take { rest with log := rest.log ++ [act] } act = some l' ∧
        Inv items size l' ∧ weight l' < weight l := by
    obtain ⟨l', htake, hinv, heq⟩ := h.settle hk hsettles hblock hdue
    exact ⟨l', htake, hinv, by omega⟩
  cases outcome with
  | ok values => exact hsettle rfl rfl trivial
  | error f =>
    simp only [arm]
    split
    · next hagain =>
      refine ⟨_, rfl, h.again hk f ⟨hagain.2.1, hagain.2.2.imp_right And.left⟩, ?_⟩
      have : weight rest + (9 - b.tries) = weight l := hweight
      simp only [weight, List.cons_append, List.map_cons, List.sum_cons] at this ⊢
      omega
    · split
      · next hlost => exact hsettle rfl rfl hlost
      · next hlost => exact hsettle rfl rfl (Bool.eq_false_iff.mpr hlost)

/-- With enough rounds the read ends. -/
theorem run_spec (hsize : 0 < size) (h : Inv items size l) {turns : List (Turn R)}
    (hturns : weight l < turns.length) :
    ∃ l', run held turns l = some l' ∧ Inv items size l' ∧ l'.running = [] ∧
      (l'.lost = none → l'.blocks = []) := by
  induction turns generalizing l with
  | nil => exact absurd hturns (Nat.not_lt_zero _)
  | cons turn turns ih =>
    obtain ⟨hinv, hweight, hnone⟩ := @fill_spec _ _ items size held l l.blocks turn.effective hsize h
    simp only [run]
    cases hk : (fill held turn.effective l.blocks l).running[
        turn.ends % (fill held turn.effective l.blocks l).running.length]? with
    | none =>
      have hidle : (fill held turn.effective l.blocks l).running = [] := by
        by_contra hne
        rw [List.getElem?_eq_none_iff] at hk
        exact absurd (Nat.mod_lt turn.ends (List.length_pos_iff.mpr hne)) (Nat.not_lt.mpr hk)
      exact ⟨_, rfl, hinv, hidle, hnone hidle⟩
    | some b =>
      obtain ⟨l', htake, hinv', hless⟩ := hinv.round hk turn.outcome
      simp only [htake, Option.bind_some]
      refine ih hinv' ?_
      rw [List.length_cons] at hturns
      exact Nat.lt_of_lt_of_le (hweight ▸ hless) (Nat.le_of_lt_succ hturns)

/-! ## The ends of the calls -/

theorem fill_outcomes {effective : Nat → Nat} :
    (fill held effective blocks l).log.filterMap Act.outcome = l.log.filterMap Act.outcome := by
  induction blocks generalizing l with
  | nil => rfl
  | cons b blocks ih =>
    unfold fill
    split
    · rw [ih, List.filterMap_append]
      exact List.append_nil _
    · rfl

theorem arm_outcome (l : Loop T R) (b : Block T) (outcome : Except BlockFailure (List R)) :
    (arm l b outcome).outcome = some outcome := by
  cases outcome with
  | ok values => rfl
  | error f =>
    unfold arm
    dsimp only
    split
    · rfl
    · split <;> rfl

theorem take_log {l' : Loop T R} {act : Act T R} (h : take l act = some l') : l'.log = l.log := by
  cases act with
  | answered | refused =>
    obtain ⟨results, -, rfl⟩ := Option.map_eq_some_iff.mp h
    rfl
  | sent | again | gone =>
    obtain rfl := Option.some.inj h
    rfl

/-- Each round ends one call, in the way of its turn. -/
theorem run_outcomes {turns : List (Turn R)} {l' : Loop T R} (h : run held turns l = some l') :
    ∃ ends, ends <+: turns.map Turn.outcome ∧
      l'.log.filterMap Act.outcome = l.log.filterMap Act.outcome ++ ends := by
  induction turns generalizing l with
  | nil => cases h
  | cons turn turns ih =>
    simp only [run] at h
    split at h
    · obtain rfl := Option.some.inj h
      exact ⟨[], List.nil_prefix, by rw [fill_outcomes, List.append_nil]⟩
    · next b _ =>
      obtain ⟨next, htake, hrun⟩ := Option.bind_eq_some_iff.mp h
      obtain ⟨ends, hends, hlog⟩ := ih hrun
      refine ⟨turn.outcome :: ends, List.prefix_cons_inj _ |>.mpr hends, ?_⟩
      rw [hlog, take_log htake, List.filterMap_append, fill_outcomes, List.append_assoc,
        List.filterMap_cons_some (arm_outcome _ b turn.outcome)]
      rfl

/-! ## What is returned -/

variable {i : Nat} {r : Except String R}

theorem Act.gives_eq_some {act : Act T R} : act.gives i = some r ↔
    (∃ b values, act = .answered b values ∧ b.Covers i ∧ value values (i - b.start) = r) ∨
    ∃ b f, act = .refused b f ∧ b.Covers i ∧ .error f.reason = r := by
  cases act <;> simp [Act.gives]

/-- An item has one block, so one result. -/
theorem Inv.shown_iff (h : Inv items size l) (hsize : 0 < size) :
    shown l.log i = some r ↔ ∃ act ∈ l.log, act.gives i = some r := by
  have hto {r : Except String R} (hr : shown l.log i = some r) :
      ∃ act ∈ l.log, act.gives i = some r := by
    obtain ⟨act, hact, hr⟩ := List.exists_of_findSome?_eq_some hr
    exact ⟨act, List.mem_reverse.mp hact, hr⟩
  refine ⟨hto, fun ⟨act, hact, hr⟩ => ?_⟩
  have hgives {act : Act T R} {r : Except String R} (hact : act ∈ l.log) (hr : act.gives i = some r) :
      act ∈ l.log.filter Act.settles ∧ act.block.start = i / size * size := by
    refine ⟨List.mem_filter.mpr ⟨hact, ?_⟩, (h.acts act hact).start_eq (i := i) ?_⟩ <;>
      obtain ⟨b, _, rfl, hi, -⟩ | ⟨b, _, rfl, hi, -⟩ := Act.gives_eq_some.mp hr
    · rfl
    · rfl
    · exact hi
    · exact hi
  cases hshown : shown l.log i with
  | none =>
    rw [shown, List.findSome?_eq_none_iff] at hshown
    cases (hshown act (List.mem_reverse.mpr hact)).symm.trans hr
  | some r' =>
    obtain ⟨act', hact', hr'⟩ := hto hshown
    have hnodup := (h.apart hsize)
    rw [List.map_append, List.map_map] at hnodup
    obtain rfl := List.inj_on_of_nodup_map hnodup.of_append_right (hgives hact hr).1
      (hgives hact' hr').1 ((hgives hact hr).2.trans (hgives hact' hr').2.symm)
    exact hr'.symm.trans hr

theorem Inv.gone_of_lost (h : Inv items size l) {reason : String} (hlost : l.lost = some reason) :
    ∃ b f, .gone b f ∈ l.log ∧ f.reason = reason := by
  obtain ⟨act, hact, hloss⟩ := List.exists_of_findSome?_eq_some (h.lost.symm.trans hlost)
  cases act <;> cases hloss
  exact ⟨_, _, hact, rfl⟩

/-- An item has no result only where the link is lost. -/
theorem Inv.lost_of_unread (h : Inv items size l) (hsize : 0 < size) (hidle : l.running = [])
    (hdone : l.lost = none → l.blocks = []) (hi : i < items.length) (hshown : shown l.log i = none) :
    ∃ reason, l.lost = some reason := by
  cases hlost : l.lost with
  | some reason => exact ⟨reason, rfl⟩
  | none =>
    have hmem := h.parts.symm.subset (start_mem_blocksOf hsize hi)
    rw [hdone hlost, hidle, List.append_nil, List.nil_append, List.map_map] at hmem
    obtain ⟨act, hact, hstart⟩ := List.mem_map.mp hmem
    obtain ⟨hact, hsettles⟩ := List.mem_filter.mp hact
    have hcovers : act.block.Covers i := (h.acts act hact).covers hsize hi hstart
    rw [shown, List.findSome?_eq_none_iff] at hshown
    have hgives := hshown act (List.mem_reverse.mpr hact)
    cases act with
    | sent | again => cases hsettles
    | gone b f => exact absurd hact (h.not_gone hlost b f)
    | answered | refused => cases (if_pos hcovers).symm.trans hgives

theorem finish_getElem? (h : Inv items size l) (hi : i < items.length) :
    (finish l).1[i]? = some ((shown l.log i).or (if l.anyOk then none else l.lost.map .error)) := by
  rw [finish]
  cases l.lost with
  | none => simp [h.results i hi]
  | some reason => cases l.anyOk <;> simp [h.results i hi]

theorem finish_lost (l : Loop T R) : (finish l).2 = if l.anyOk then l.lost else none := by
  rw [finish]
  cases l.lost with
  | none => simp
  | some reason => cases l.anyOk <;> rfl

theorem Inv.length_finish (h : Inv items size l) : (finish l).1.length = items.length := by
  rw [finish, ← h.length]
  split
  · split
    · rfl
    · exact List.length_map _
  · rfl

/-- Every result is that of an item. -/
theorem Inv.finish_slot (h : Inv items size l) {slot : Option (Except String R)}
    (hr : (finish l).1[i]? = some slot) : i < items.length ∧
      (shown l.log i).or (if l.anyOk then none else l.lost.map .error) = slot := by
  have hi : i < items.length := h.length_finish ▸ (List.getElem?_eq_some_iff.mp hr).1
  exact ⟨hi, Option.some.inj ((finish_getElem? h hi).symm.trans hr)⟩

theorem Inv.anyOk_iff (h : Inv items size l) :
    l.anyOk = true ↔ ∃ b values, .answered b values ∈ l.log := by
  rw [h.anyOk, List.any_eq_true]
  constructor
  · rintro ⟨act, hact, hanswer⟩
    cases act <;> cases hanswer
    exact ⟨_, _, hact⟩
  · rintro ⟨b, values, hact⟩
    exact ⟨_, hact, rfl⟩

/-- A result comes from an act, or from the loss of the link where nothing was answered. -/
theorem Inv.result_from (h : Inv items size l) (hsize : 0 < size) {r : Except String R}
    (hr : (finish l).1[i]? = some (some r)) :
    (∃ act ∈ l.log, act.gives i = some r) ∨
      l.anyOk = false ∧ ∃ reason, l.lost = some reason ∧ .error reason = r := by
  rcases Option.or_eq_some_iff.mp (h.finish_slot hr).2 with hshown | ⟨-, hrest⟩
  · exact .inl ((h.shown_iff hsize).mp hshown)
  · cases hok : l.anyOk with
    | true =>
      rw [hok] at hrest
      cases hrest
    | false =>
      rw [hok] at hrest
      exact .inr ⟨rfl, Option.map_eq_some_iff.mp hrest⟩

/-- At the end every item has the outcome of its own block. -/
theorem Inv.exact (h : Inv items size l) (hsize : 0 < size) (hidle : l.running = [])
    (hdone : l.lost = none → l.blocks = []) {turns : List (Turn R)}
    (hends : l.log.filterMap Act.outcome <+: turns.map Turn.outcome) :
    Exact items size turns (finish l).1 (finish l).2 l.log := by
  have hgiven {act : Act T R} {i : Nat} {r : Except String R} (hact : act ∈ l.log)
      (hi : act.block.Covers i) (hr : act.gives i = some r) : (finish l).1[i]? = some (some r) := by
    rw [finish_getElem? h (Nat.lt_of_lt_of_le hi.2 (h.acts act hact).le),
      (h.shown_iff hsize).mpr ⟨act, hact, hr⟩, Option.some_or]
  exact {
    length := h.length_finish
    own := h.acts
    calls := h.earlier
    awaited := by simpa [hidle] using h.calls
    outcomes := hends
    due := h.due
    sends := h.sends
    silent := h.silent
    good := fun i r hr => by
      rcases h.result_from hsize hr with ⟨act, hact, hgives⟩ | ⟨-, reason, -, hreason⟩
      · obtain ⟨b, values, rfl, hi, hvalue⟩ | ⟨b, f, rfl, hi, hreason⟩ := Act.gives_eq_some.mp hgives
        · rw [value] at hvalue
          split at hvalue <;> cases hvalue
          exact ⟨b, values, hact, hi, ‹_›⟩
        · cases hreason
      · cases hreason
    answered := fun b values hact i hi => hgiven hact hi (if_pos hi)
    refused := fun b f hact i hi => hgiven hact hi (if_pos hi)
    failed := fun i e hr => by
      rcases h.result_from hsize hr with ⟨act, hact, hgives⟩ | ⟨hok, reason, hlost, hreason⟩
      · obtain ⟨b, values, rfl, hi, hvalue⟩ | ⟨b, f, rfl, hi, hreason⟩ := Act.gives_eq_some.mp hgives
        · rw [value] at hvalue
          split at hvalue <;> cases hvalue
          exact .inl ⟨b, values, hact, hi, List.getElem?_eq_none_iff.mp ‹_›⟩
        · cases hreason
          exact .inr (.inl ⟨b, f, hact, hi, rfl⟩)
      · cases hreason
        refine .inr (.inr ⟨h.gone_of_lost hlost, fun b values hact => ?_⟩)
        rw [h.anyOk_iff.mpr ⟨b, values, hact⟩] at hok
        cases hok
    unread := fun i hr => by
      obtain ⟨hi, hslot⟩ := h.finish_slot hr
      obtain ⟨hshown, hrest⟩ := Option.or_eq_none_iff.mp hslot
      obtain ⟨reason, hlost⟩ := h.lost_of_unread hsize hidle hdone hi hshown
      have hok : l.anyOk = true := by
        by_contra hok
        rw [if_neg hok, hlost] at hrest
        cases hrest
      obtain ⟨b, f, hgone, rfl⟩ := h.gone_of_lost hlost
      exact ⟨⟨b, f, hgone, by rw [finish_lost, if_pos hok, hlost]⟩, h.anyOk_iff.mp hok⟩ }

end

/-- Every read ends, within as many rounds as its blocks may be sent. -/
theorem read_exact (items : List T) (block held : Nat) (turns : List (Turn R))
    (hturns : 9 * (blocksOf items (max block 1)).length < turns.length) :
    ∃ results lost log,
      readInBlocksPipelined items block held turns = some ((results, lost), log) ∧
        Exact items (max block 1) turns results lost log := by
  have hsize : 0 < max block 1 := Nat.lt_of_lt_of_le Nat.zero_lt_one (Nat.le_max_right ..)
  have hweight : weight (init (R := R) items block) = 9 * (blocksOf items (max block 1)).length := by
    simp [weight, init, blocksOf, Function.comp_def, Nat.mul_comm]
  obtain ⟨l, hrun, hinv, hidle, hdone⟩ :=
    @run_spec _ _ items _ held _ hsize (inv_init items rfl) turns (hweight ▸ hturns)
  obtain ⟨ends, hends, hlog⟩ := run_outcomes hrun
  exact ⟨_, _, _, congrArg (Option.map _) hrun,
    hinv.exact hsize hidle hdone (hlog.symm ▸ hends)⟩

/-- The second of two calls is refused as busy and sent again, then answered with the value of one
item; the first one finds the link gone. -/
def turnsOfTwo : List (Turn Bool) :=
  [{ effective := fun _ => 2, ends := 1, outcome := .error ⟨"too busy", false, true, false⟩ },
    { effective := fun _ => 2, ends := 1, outcome := .ok [true] },
    { effective := fun _ => 2, ends := 0, outcome := .error ⟨"closed", true, false, false⟩ }]

/-- Two blocks, answered in the other order. -/
theorem read_exact_two :
    ∃ results lost log,
      readInBlocksPipelined ["a", "b", "c", "d"] 2 2 (turnsOfTwo ++ List.replicate 16 turnsOfTwo[0]) =
          some ((results, lost), log) ∧
        Exact ["a", "b", "c", "d"] 2 (turnsOfTwo ++ List.replicate 16 turnsOfTwo[0]) results lost log :=
  read_exact ["a", "b", "c", "d"] 2 2 _ (by decide)

end TedgeDot.Opcua.Pipelined
