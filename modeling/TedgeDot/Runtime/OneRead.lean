import Mathlib.Data.List.Nodup
import TedgeDot.Lib.Machine
import TedgeDot.Runtime.MainLoop

/-!
# One read per device

What the main loop keeps of the reads, over every run.

- **The accounts**: `Custody` and `Placed`, which every step keeps. `Turned` says once what a step of
  the loop can do; every invariant is derived from it.
- **The conditions**: a heartbeat read does not look at `reading`, and `connect` in place of
  `reconnect` reaches the devices that are being read. `Unread` and `Whole` need that neither
  happens, and `Current` that the loop makes no read itself.
- **Runs**: `one_read_per_device`, and the runs that fail.
-/

namespace TedgeDot.MainLoop

open Concurrency (Budgets Phase Read Counter)

/-! ## The accounts -/

/-- No read is lost, and `reading` has the devices of those in tasks. -/
structure Custody (s : Main) : Prop where
  once : (s.handed ++ s.outstanding).Perm s.started
  ids : s.started.map Fetch.id = List.range s.started.length
  named : ∀ fetch ∈ s.outside, s.config.names[fetch.device]? = fetch.name
  reading : s.reading.Perm (s.outside.map Fetch.device)
  apart : s.reading.Nodup

/-- What the loop knows of `reading` where it is. -/
def Placed (s : Main) : Prop :=
  match s.loop with
  | .polling fetch _ => fetch.device ∉ s.reading
  | .recover due => ∀ device ∈ due, s.Free device
  | .reconnecting device due => s.Free device ∧ ∀ other ∈ due, s.Free other
  | .connecting device due => s.Free device ∧ ∀ other ∈ due, s.Free other
  | .subscribing device due => s.Free device ∧ ∀ other ∈ due, s.Free other
  | .handling _ => s.reading = []
  | .rearming => s.reading = []
  | .disconnecting => s.reading = []
  | .stopped => s.reading = []
  | _ => True

structure Inv (s : Main) : Prop where
  custody : Custody s
  placed : Placed s

variable {s s' : Main}

/-! ### Tasks -/

/-- What a step of a task leaves alone. -/
structure Main.Frame (s s' : Main) : Prop where
  config : s'.config = s.config
  built : s'.built = s.built
  reading : s'.reading = s.reading
  loop : s'.loop = s.loop
  started : s'.started = s.started
  handed : s'.handed = s.handed
  outside : s'.outside.Perm s.outside

/-- A task's own step leaves what the loop keeps. -/
theorem taskAct_frame {a : TaskAct} (h : s.taskAct a = some s') : s.Frame s' := by
  cases a with
  | pool act =>
    have hpool : ∃ pool, s' = { s with pool } := by
      cases act <;> simp only [Main.taskAct, Option.map_eq_some_iff, reduceCtorEq] at h
      all_goals
        obtain ⟨pool, -, rfl⟩ := h
        exact ⟨pool, rfl⟩
    obtain ⟨pool, rfl⟩ := hpool
    exact ⟨rfl, rfl, rfl, rfl, rfl, rfl, List.Perm.refl _⟩
  | send k =>
    obtain ⟨t, ht, h⟩ := Option.bind_eq_some_iff.mp h
    split at h
    · obtain rfl := Option.some.inj h
      refine ⟨rfl, rfl, rfl, rfl, rfl, rfl, ?_⟩
      -- the task that leaves is the read that comes
      have htasks : (s.tasks.eraseIdx k ++ [t]).Perm s.tasks := by
        obtain ⟨hlt, rfl⟩ := List.getElem?_eq_some_iff.mp ht
        exact (List.perm_append_singleton _ _).trans (List.getElem_cons_eraseIdx_perm hlt)
      have hfetch := htasks.map Task.fetch
      simp only [List.map_append, List.map_cons, List.map_nil] at hfetch
      calc (Main.outside { s with
              tasks := s.tasks.eraseIdx k, sent := s.sent ++ [t.fetch] }).Perm
            (((s.tasks.eraseIdx k).map Task.fetch ++ [t.fetch]) ++ s.sent) := by
            simp only [Main.outside, List.append_assoc]
            exact (List.perm_append_comm).append_left _
        _ |>.Perm s.outside := hfetch.append_right _
    · cases h

/-- The tasks keep the invariant. -/
theorem Inv.task (h : Inv s) {a : TaskAct} (hstep : s.taskAct a = some s') : Inv s' := by
  have hframe := taskAct_frame hstep
  obtain ⟨⟨honce, hids, hnamed, hreading, hapart⟩, hplaced⟩ := h
  refine ⟨⟨?_, ?_, ?_, ?_, ?_⟩, ?_⟩
  · rw [hframe.handed, hframe.started]
    refine List.Perm.trans ?_ honce
    simp only [Main.outstanding, hframe.loop]
    exact (hframe.outside.append_right _).append_left _
  · rw [hframe.started]
    exact hids
  · intro fetch hfetch
    rw [hframe.config]
    exact hnamed fetch (hframe.outside.mem_iff.mp hfetch)
  · rw [hframe.reading]
    exact hreading.trans (hframe.outside.map _).symm
  · rw [hframe.reading]
    exact hapart
  · simp only [Placed, Main.Free, hframe.loop, hframe.reading, hframe.config]
    exact hplaced

/-! ### The loop -/

variable {l : Loop} {fetch : Fetch} {name : String} {a : LoopAct}

theorem Custody.moved (h : Custody s) (hl : l.fetch = s.loop.fetch) :
    Custody { s with loop := l } := by
  refine ⟨?_, h.ids, h.named, h.reading, h.apart⟩
  simp only [Main.outstanding, hl]
  exact h.once

theorem start_ids {started : List Fetch} (h : started.map Fetch.id = List.range started.length)
    (hid : fetch.id = started.length) :
    (started ++ [fetch]).map Fetch.id = List.range (started ++ [fetch]).length := by
  simp [h, hid, List.range_succ]

theorem Custody.begun (h : Custody s) (hnone : s.loop.fetch = none) {d : Nat}
    (hl : l.fetch = some (s.next d name)) :
    Custody { s with loop := l, started := s.started ++ [s.next d name] } := by
  refine ⟨?_, start_ids h.ids rfl, h.named, h.reading, h.apart⟩
  have honce := h.once
  simp only [Main.outstanding, hnone, hl, Option.toList_none, Option.toList_some,
    List.append_nil] at honce ⊢
  rw [← List.append_assoc]
  exact honce.append_right _

theorem Custody.ended (h : Custody s) (hfetch : s.loop.fetch = some fetch) (hl : l.fetch = none) :
    Custody { s with loop := l, handed := s.handed ++ [fetch] } := by
  refine ⟨?_, h.ids, h.named, h.reading, h.apart⟩
  have honce := h.once
  simp only [Main.outstanding, hfetch, hl, Option.toList_none, Option.toList_some,
    List.append_nil] at honce ⊢
  refine List.Perm.trans ?_ honce
  rw [List.append_assoc]
  exact List.perm_append_comm.append_left _

theorem spawn_spec (s : Main) (d : Nat) (name : String) (wanted : Nat) :
    ∃ pool read, s.spawn d name wanted = { s with
      pool, tasks := s.tasks ++ [{ fetch := s.next d name, read }]
      reading := d :: s.reading, started := s.started ++ [s.next d name] } := by
  simp only [Main.spawn]
  split
  · exact ⟨_, _, rfl⟩
  · exact ⟨s.pool, none, rfl⟩

/-- A read that is spawned is of a device with none in flight. -/
theorem Custody.spawned (h : Custody s) {d : Nat} (hd : d ∉ s.reading)
    (hname : s.config.names[d]? = some name) (wanted : Nat) (hl : l.fetch = s.loop.fetch) :
    Custody { s.spawn d name wanted with loop := l } := by
  obtain ⟨pool, read, hspawn⟩ := spawn_spec s d name wanted
  simp only [hspawn]
  have houtside : (Main.outside { s with
      pool, tasks := s.tasks ++ [{ fetch := s.next d name, read }]
      reading := d :: s.reading, started := s.started ++ [s.next d name], loop := l }).Perm
      (s.outside ++ [s.next d name]) := by
    simp only [Main.outside, List.map_append, List.map_cons, List.map_nil, List.append_assoc]
    exact List.perm_append_comm.append_left _
  refine ⟨?_, start_ids h.ids rfl, ?_, ?_, List.nodup_cons.mpr ⟨hd, h.apart⟩⟩
  · simp only [Main.outstanding, hl]
    have houter := (houtside.append_right s.loop.fetch.toList).append_left s.handed
    refine houter.trans ?_
    have hlast : (s.outside ++ [s.next d name] ++ s.loop.fetch.toList).Perm
        (s.outstanding ++ [s.next d name]) := by
      simp only [Main.outstanding, List.append_assoc]
      exact List.perm_append_comm.append_left _
    refine (hlast.append_left _).trans ?_
    rw [← List.append_assoc]
    exact h.once.append_right _
  · intro fetch hfetch
    rcases List.mem_append.mp (houtside.mem_iff.mp hfetch) with hold | hnew
    · exact h.named fetch hold
    · obtain rfl := List.mem_singleton.mp hnew
      exact hname
  · refine List.Perm.trans ?_ (houtside.map Fetch.device).symm
    simp only [List.map_append, List.map_cons, List.map_nil]
    exact (h.reading.cons d).trans (List.perm_append_singleton d _).symm

/-- A result that is received ends its read. -/
theorem Custody.received (h : Custody s) {rest : List Fetch} (hsent : s.sent = fetch :: rest) :
    Custody (s.receive fetch rest) := by
  have houtside : s.outside.Perm (fetch :: (s.tasks.map Task.fetch ++ rest)) := by
    simp only [Main.outside, hsent]
    exact List.perm_middle
  -- the name is looked up again, and is still the one of the start
  have hname : { fetch with name := s.config.names[fetch.device]? } = fetch := by
    rw [h.named fetch (houtside.mem_iff.mpr List.mem_cons_self)]
  refine ⟨?_, h.ids, ?_, ?_, h.apart.erase _⟩
  · refine List.Perm.trans ?_ h.once
    simp only [Main.receive, hname, Main.outstanding]
    rw [List.append_assoc]
    exact ((houtside.append_right _).symm).append_left _
  · intro other hother
    exact h.named other (houtside.mem_iff.mpr (List.mem_cons_of_mem _ hother))
  · have hreading := h.reading.trans (houtside.map Fetch.device)
    simp only [List.map_cons] at hreading
    have herase := hreading.erase fetch.device
    rwa [List.erase_cons_head] at herase

theorem Custody.replaced (h : Custody s) (hnone : s.reading = []) (config built : Config)
    (pool : Concurrency.Pool) (hl : l.fetch = s.loop.fetch) :
    Custody { s with config, built, pool, loop := l } := by
  have hmoved := h.moved hl
  have houtside : s.outside = [] := by
    have hnil := h.reading
    rw [hnone] at hnil
    exact List.map_eq_nil_iff.mp hnil.nil_eq.symm
  refine ⟨hmoved.once, h.ids, ?_, h.reading, h.apart⟩
  intro fetch hfetch
  have hmem : fetch ∈ s.outside := hfetch
  rw [houtside] at hmem
  cases hmem

/-! ### What a step of the loop does -/

@[simp] theorem afterReconnect_fetch (device : String) (rest : List String) (again : Bool) :
    (Main.afterReconnect device rest again).fetch = none := by
  cases again <;> rfl

theorem placed_afterReconnect {device : String} {rest : List String} (hdevice : s.Free device)
    (hrest : ∀ other ∈ rest, s.Free other) (again : Bool) :
    Placed { s with loop := Main.afterReconnect device rest again } := by
  cases again with
  | false => exact hrest
  | true => exact ⟨hdevice, hrest⟩

/-- The ways in which a step of the loop can change the state. -/
inductive Turned (s : Main) (a : LoopAct) : Main → Prop where
  /-- Only where the loop is. -/
  | moved {l : Loop} (hfetch : s.loop.fetch = none) (hl : l.fetch = none)
      (hplaced : Placed s → Placed { s with loop := l })
      (hconnecting : ∀ device rest, l = .connecting device rest →
        s.loop = .reconnecting device rest ∧ ∃ again, a = .reconnected false again)
      (hrearming : l ≠ .rearming ∧ s.loop ≠ .rearming) : Turned s a { s with loop := l }
  | received {fetch : Fetch} {rest : List Fetch} (hsent : s.sent = fetch :: rest)
      (hloop : s.loop = .select ∨ ∃ next, s.loop = .draining next) :
      Turned s a (s.receive fetch rest)
  | spawned {d : Nat} {name : String} {rest : List Nat} (hloop : s.loop = .polls (d :: rest))
      (hd : d ∉ s.reading) (hname : s.config.names[d]? = some name) (wanted : Nat) :
      Turned s a { s.spawn d name wanted with loop := .polls rest }
  | polled {d : Nat} {name : String} {rest : List Nat} (hloop : s.loop = .polls (d :: rest))
      (ha : a = .poll .direct) (hd : d ∉ s.reading) :
      Turned s a { s with
        loop := .polling (s.next d name) rest, started := s.started ++ [s.next d name] }
  | beat {d : Nat} {name : String} {rest : List Nat} (hloop : s.loop = .beats (d :: rest))
      (ha : a = .beat) :
      Turned s a { s with
        loop := .beating (s.next d name) rest, started := s.started ++ [s.next d name] }
  | answered {fetch : Fetch} {l : Loop} (hfetch : s.loop.fetch = some fetch)
      (hl : ∃ rest, l = .polls rest ∨ l = .beats rest) :
      Turned s a { s with loop := l, handed := s.handed ++ [fetch] }
  | replaced {work : Work} {config : Config} {l : Loop} (hloop : s.loop = .handling work)
      (hl : l = .rearming ∨ (l = .select ∧ a = .handled (.unpublished config))) :
      Turned s a { s with config, loop := l }
  | rearmed (hloop : s.loop = .rearming) :
      Turned s a { s with
        built := s.config, pool := Concurrency.Pool.start s.config.budgets, loop := .select }

theorem Turned.to (hfetch : s.loop.fetch = none) (hl : l.fetch = none)
    (hplaced : Placed { s with loop := l })
    (hconnecting : ∀ device rest, l ≠ .connecting device rest)
    (hrearming : l ≠ .rearming ∧ s.loop ≠ .rearming) : Turned s a { s with loop := l } :=
  .moved hfetch hl (fun _ => hplaced) (fun device rest h => absurd h (hconnecting device rest))
    hrearming

theorem turned_afterReconnect {device : String} {rest : List String} {again : Bool}
    (hfetch : s.loop.fetch = none) (hrearming : s.loop ≠ .rearming)
    (hplaced : Placed s → s.Free device ∧ ∀ other ∈ rest, s.Free other) :
    Turned s a { s with loop := Main.afterReconnect device rest again } := by
  refine .moved hfetch (afterReconnect_fetch device rest again)
    (fun h => placed_afterReconnect (hplaced h).1 (hplaced h).2 again) ?_ ⟨?_, hrearming⟩
  · intro device' rest' h
    cases again <;> cases h
  · intro h
    cases again <;> cases h

theorem turned_poll {how : Poll} {d : Nat} {rest : List Nat} (hloop : s.loop = .polls (d :: rest))
    (hd : d ∉ s.reading) (hname : s.config.names[d]? = some name) :
    Turned s (.poll how) (s.poll d name rest how) := by
  cases how with
  | reader wanted => exact .spawned hloop hd hname wanted
  | left => exact .to (by rw [hloop]; rfl) rfl trivial (by simp) (by simp [hloop])
  | direct => exact .polled hloop rfl hd

theorem turned_handle {work : Work} {outcome : Outcome} (hloop : s.loop = .handling work)
    (hstep : s.handle work outcome = some s') : Turned s (.handled outcome) s' := by
  unfold Main.handle at hstep
  split at hstep
  · obtain rfl := Option.some.inj hstep
    exact .to (by rw [hloop]; rfl) rfl trivial (by simp) (by simp [hloop])
  · obtain rfl := Option.some.inj hstep
    exact .replaced hloop (Or.inl rfl)
  · obtain rfl := Option.some.inj hstep
    exact .replaced hloop (Or.inl rfl)
  · obtain rfl := Option.some.inj hstep
    exact .replaced hloop (Or.inr ⟨rfl, rfl⟩)
  · obtain rfl := Option.some.inj hstep
    exact .to (by rw [hloop]; rfl) rfl trivial (by simp) (by simp [hloop])
  · cases hstep

/-- **Inversion**: there is no other way. -/
theorem turned (hstep : s.turn a = some s') : Turned s a s' := by
  unfold Main.turn at hstep
  split at hstep
  -- a result is taken from the channel
  · next hloop =>
    split at hstep
    · next hsent =>
      obtain rfl := Option.some.inj hstep
      exact .received hsent (Or.inl hloop)
    · cases hstep
  · next hloop =>
    split at hstep
    · next hsent =>
      obtain rfl := Option.some.inj hstep
      exact .received hsent (Or.inr ⟨_, hloop⟩)
    · cases hstep
  -- the polls
  · next hloop =>
    obtain rfl := Option.some.inj hstep
    exact .to (by rw [hloop]; rfl) rfl trivial (by simp) (by simp [hloop])
  · next hloop =>
    split at hstep
    · obtain rfl := Option.some.inj hstep
      exact .to (by rw [hloop]; rfl) rfl trivial (by simp) (by simp [hloop])
    · next hd =>
      obtain ⟨name, hname, rfl⟩ := Option.map_eq_some_iff.mp hstep
      exact turned_poll hloop hd hname
  · next hloop =>
    obtain rfl := Option.some.inj hstep
    exact .answered (by rw [hloop]; rfl) ⟨_, Or.inl rfl⟩
  -- the heartbeat reads
  · next hloop =>
    obtain rfl := Option.some.inj hstep
    exact .to (by rw [hloop]; rfl) rfl trivial (by simp) (by simp [hloop])
  · next hloop =>
    obtain ⟨name, -, rfl⟩ := Option.map_eq_some_iff.mp hstep
    exact .beat hloop rfl
  · next hloop =>
    obtain rfl := Option.some.inj hstep
    exact .answered (by rw [hloop]; rfl) ⟨_, Or.inr rfl⟩
  -- the reconnects, of devices that the filter found free
  · next pending hloop =>
    obtain rfl := Option.some.inj hstep
    refine .to (by rw [hloop]; rfl) rfl ?_ (by simp) (by simp [hloop])
    intro device hdevice
    exact of_decide_eq_true (List.mem_filter.mp hdevice).2
  · next hloop =>
    obtain rfl := Option.some.inj hstep
    refine .moved (by rw [hloop]; rfl) rfl (fun hplaced => ?_) (by simp) (by simp [hloop])
    simp only [Placed, hloop, List.forall_mem_cons] at hplaced
    exact hplaced
  · next device rest supported again hloop =>
    obtain rfl := Option.some.inj hstep
    have hfree : Placed s → s.Free device ∧ ∀ other ∈ rest, s.Free other := by
      intro hplaced
      simpa only [Placed, hloop] using hplaced
    cases supported with
    | false =>
      refine .moved (by rw [hloop]; rfl) rfl hfree ?_ (by simp [hloop])
      intro device' rest' h
      obtain ⟨rfl, rfl⟩ := Loop.connecting.inj h
      exact ⟨hloop, again, rfl⟩
    | true => exact turned_afterReconnect (by rw [hloop]; rfl) (by simp [hloop]) hfree
  · next device rest again hloop =>
    obtain rfl := Option.some.inj hstep
    refine turned_afterReconnect (by rw [hloop]; rfl) (by simp [hloop]) (fun hplaced => ?_)
    simpa only [Placed, hloop] using hplaced
  · next hloop =>
    obtain rfl := Option.some.inj hstep
    refine .moved (by rw [hloop]; rfl) rfl (fun hplaced => ?_) (by simp) (by simp [hloop])
    simp only [Placed, hloop] at hplaced
    exact hplaced.2
  · next hloop =>
    obtain rfl := Option.some.inj hstep
    exact .to (by rw [hloop]; rfl) rfl trivial (by simp) (by simp [hloop])
  -- commands, reloads and the end
  · next hloop =>
    obtain rfl := Option.some.inj hstep
    exact .to (by rw [hloop]; rfl) rfl trivial (by simp) (by simp [hloop])
  · next hloop =>
    obtain rfl := Option.some.inj hstep
    exact .to (by rw [hloop]; rfl) rfl trivial (by simp) (by simp [hloop])
  · next following hloop =>
    split at hstep
    · next hnone =>
      obtain rfl := Option.some.inj hstep
      cases following with
      | handle work => exact .to (by rw [hloop]; rfl) rfl hnone (by simp) (by simp [hloop])
      | disconnect => exact .to (by rw [hloop]; rfl) rfl hnone (by simp) (by simp [hloop])
    · cases hstep
  · next hloop => exact turned_handle hloop hstep
  · next hloop =>
    obtain rfl := Option.some.inj hstep
    exact .rearmed hloop
  · next hloop =>
    obtain rfl := Option.some.inj hstep
    refine .moved (by rw [hloop]; rfl) rfl (fun hplaced => ?_) (by simp) (by simp [hloop])
    simpa only [Placed, hloop] using hplaced
  · cases hstep

/-- Every turn of the loop keeps the invariant. -/
theorem Inv.turn (h : Inv s) (hstep : s.turn a = some s') : Inv s' := by
  have hplaced := h.placed
  cases turned hstep with
  | moved hfetch hl hnext => exact ⟨h.custody.moved (by rw [hfetch, hl]), hnext hplaced⟩
  | received hsent hloop =>
    refine ⟨h.custody.received hsent, ?_⟩
    rcases hloop with hloop | ⟨next, hloop⟩ <;> simp only [Placed, Main.receive, hloop]
  | spawned hloop hd hname wanted =>
    exact ⟨h.custody.spawned hd hname wanted (by rw [hloop]; rfl), trivial⟩
  | polled hloop _ hd => exact ⟨h.custody.begun (by rw [hloop]; rfl) rfl, hd⟩
  | beat hloop => exact ⟨h.custody.begun (by rw [hloop]; rfl) rfl, trivial⟩
  | answered hfetch hl =>
    obtain ⟨rest, rfl | rfl⟩ := hl
    · exact ⟨h.custody.ended hfetch rfl, trivial⟩
    · exact ⟨h.custody.ended hfetch rfl, trivial⟩
  | replaced hloop hl =>
    have hnone : s.reading = [] := by rwa [Placed, hloop] at hplaced
    obtain rfl | ⟨rfl, -⟩ := hl
    · exact ⟨h.custody.replaced hnone _ _ _ (by rw [hloop]; rfl), hnone⟩
    · exact ⟨h.custody.replaced hnone _ _ _ (by rw [hloop]; rfl), trivial⟩
  | rearmed hloop =>
    have hnone : s.reading = [] := by rwa [Placed, hloop] at hplaced
    exact ⟨h.custody.replaced hnone _ _ _ (by rw [hloop]; rfl), trivial⟩

theorem inv_start (config : Config) : Inv (Main.start config) :=
  ⟨⟨List.Perm.refl _, rfl, by simp [Main.outside, Main.start], List.Perm.refl _,
    List.nodup_nil⟩, trivial⟩

theorem Inv.step (h : Inv s) (a : Act) : Inv (step s a).1 := by
  unfold MainLoop.step
  cases hact : s.act a with
  | none => exact h
  | some s' =>
    cases a with
    | task a => exact h.task hact
    | loop a => exact h.turn hact

/-! ## The conditions -/

/-- A heartbeat read finds no read of its device in flight. -/
def apart (s : Main) (a : Act) : Bool :=
  match s.loop, a with
  | .beats (d :: _), .loop .beat => d ∉ s.reading
  | _, _ => true

/-- Where `connect` stands in for `reconnect`, no read is in flight. -/
def alone (s : Main) (a : Act) : Bool :=
  match s.loop, a with
  | .reconnecting _ _, .loop (.reconnected false _) => s.reading = []
  | _, _ => true

/-- The answers to a command that replaces the configuration are published. -/
def rearmed (_ : Main) : Act → Bool
  | .loop (.handled (.unpublished _)) => false
  | _ => true

def lent (_ : Main) : Act → Bool
  | .loop (.poll .direct) => false
  | .loop .beat => false
  | _ => true

/-! ### One call for a device -/

/-- In a heartbeat read, its device has no other. -/
def Unread (s : Main) : Prop := ∀ fetch rest, s.loop = .beating fetch rest → fetch.device ∉ s.reading

/-- A heartbeat read that is apart stays so. -/
theorem Unread.act (h : Unread s) {a : Act} (ha : apart s a = true) (hstep : s.act a = some s') :
    Unread s' := by
  intro fetch rest hloop'
  cases a with
  | task a =>
    have hframe := taskAct_frame hstep
    rw [hframe.reading]
    exact h fetch rest (hframe.loop ▸ hloop')
  | loop a =>
    cases turned hstep with
    | moved _ hl =>
      simp only at hloop'
      rw [hloop'] at hl
      cases hl
    | received _ hloop =>
      simp only [Main.receive] at hloop'
      rcases hloop with hloop | ⟨next, hloop⟩ <;> cases hloop'.symm.trans hloop
    | spawned => cases hloop'
    | polled => cases hloop'
    | @beat d name rest' hloop hbeat =>
      obtain ⟨rfl, rfl⟩ := Loop.beating.inj hloop'
      subst hbeat
      have hd : d ∉ s.reading := by simpa only [apart, hloop, decide_eq_true_eq] using ha
      exact hd
    | answered _ hl =>
      obtain ⟨rest', rfl | rfl⟩ := hl <;> cases hloop'
    | replaced _ hl => obtain rfl | ⟨rfl, -⟩ := hl <;> cases hloop'
    | rearmed => cases hloop'

theorem Task.call_eq {pool : Concurrency.Pool} {t : Task} {c : Call} (h : t.call pool = some c) :
    ∃ i r, t.read = some i ∧ pool.reads[i]? = some r ∧ inCall r.phase = true ∧
      c = { device := t.fetch.device, read := some i } := by
  obtain ⟨i, hi, h⟩ := Option.bind_eq_some_iff.mp h
  obtain ⟨r, hr, h⟩ := Option.bind_eq_some_iff.mp h
  split at h
  · next hphase => exact ⟨i, r, hi, hr, hphase, (Option.some.inj h).symm⟩
  · cases h

theorem filterMap_device (pool : Concurrency.Pool) (tasks : List Task) :
    ((tasks.filterMap (Task.call pool)).map Call.device).Sublist
      ((tasks.map Task.fetch).map Fetch.device) := by
  induction tasks with
  | nil => exact List.Sublist.refl _
  | cons t tasks ih =>
    cases hcall : t.call pool with
    | none =>
      simp only [List.filterMap_cons, hcall, List.map_cons]
      exact ih.cons _
    | some c =>
      obtain ⟨i, r, -, -, -, rfl⟩ := Task.call_eq hcall
      simp only [List.filterMap_cons, hcall, List.map_cons]
      exact ih.cons_cons _

theorem Custody.calls (h : Custody s) :
    ((s.tasks.filterMap (Task.call s.pool)).map Call.device).Nodup ∧
      ∀ d ∈ (s.tasks.filterMap (Task.call s.pool)).map Call.device, d ∈ s.reading := by
  have hsub := filterMap_device s.pool s.tasks
  have hall : ((s.tasks.map Task.fetch).map Fetch.device).Sublist
      (s.outside.map Fetch.device) := by
    simp only [Main.outside, List.map_append]
    exact List.sublist_append_left _ _
  refine ⟨(h.reading.nodup_iff.mp h.apart).sublist (hsub.trans hall), ?_⟩
  intro d hd
  exact h.reading.mem_iff.mpr ((hsub.trans hall).subset hd)

/-- So no device has two reads at a time. -/
theorem Inv.oneRead (h : Inv s) (hunread : Unread s) : OneRead s := by
  obtain ⟨hnodup, hmem⟩ := h.custody.calls
  have hown : ∀ fetch, s.loop.fetch = some fetch → fetch.device ∉ s.reading := by
    intro fetch hfetch
    have hplaced := h.placed
    unfold Loop.fetch at hfetch
    split at hfetch
    · next hloop =>
      obtain rfl := Option.some.inj hfetch
      rwa [Placed, hloop] at hplaced
    · next hloop =>
      obtain rfl := Option.some.inj hfetch
      exact hunread _ _ hloop
    · cases hfetch
  unfold OneRead Main.calls
  cases hfetch : s.loop.fetch with
  | none => simpa using hnodup
  | some fetch =>
    simp only [Option.map_some, Option.toList_some, List.map_append, List.map_cons, List.map_nil]
    refine (List.perm_append_singleton _ _).nodup_iff.mpr ?_
    exact List.nodup_cons.mpr ⟨fun hd => hown fetch hfetch (hmem _ hd), hnodup⟩

/-! ### Nothing touched -/

/-- In a connect of the whole connector, no read is in flight. -/
def Whole (s : Main) : Prop := ∀ device rest, s.loop = .connecting device rest → s.reading = []

/-- A device the loop alone reads stays whole. -/
theorem Whole.act (h : Whole s) {a : Act} (ha : alone s a = true) (hstep : s.act a = some s') :
    Whole s' := by
  intro device rest hloop'
  cases a with
  | task a =>
    have hframe := taskAct_frame hstep
    rw [hframe.reading]
    exact h device rest (hframe.loop ▸ hloop')
  | loop a =>
    cases turned hstep with
    | moved _ _ _ hconnecting =>
      obtain ⟨hloop, again, rfl⟩ := hconnecting device rest hloop'
      simpa only [alone, hloop, decide_eq_true_eq] using ha
    | received _ hloop =>
      simp only [Main.receive] at hloop'
      rcases hloop with hloop | ⟨next, hloop⟩ <;> cases hloop'.symm.trans hloop
    | spawned => cases hloop'
    | polled => cases hloop'
    | beat => cases hloop'
    | answered _ hl =>
      obtain ⟨rest', rfl | rfl⟩ := hl <;> cases hloop'
    | replaced _ hl => obtain rfl | ⟨rfl, -⟩ := hl <;> cases hloop'
    | rearmed => cases hloop'

/-- What the loop touches nobody reads. -/
theorem Inv.untouched (h : Inv s) (hwhole : Whole s) : Untouched s := by
  have hplaced := h.placed
  have hfree : ∀ d, s.loop.Touches s.config d → s.loop.fetch = none ∧ d ∉ s.reading := by
    intro d htouches
    unfold Loop.Touches at htouches
    split at htouches
    · next hloop =>
      simp only [Placed, hloop] at hplaced
      exact ⟨by rw [hloop]; rfl, fun hd => hplaced.1 d hd htouches⟩
    · next hloop => exact ⟨by rw [hloop]; rfl, by simp [hwhole _ _ hloop]⟩
    · next hloop =>
      simp only [Placed, hloop] at hplaced
      exact ⟨by rw [hloop]; rfl, fun hd => hplaced.1 d hd htouches⟩
    · next hloop =>
      simp only [Placed, hloop] at hplaced
      exact ⟨by rw [hloop]; rfl, by simp [hplaced]⟩
    · next hloop =>
      simp only [Placed, hloop] at hplaced
      exact ⟨by rw [hloop]; rfl, by simp [hplaced]⟩
    · next hloop =>
      simp only [Placed, hloop] at hplaced
      exact ⟨by rw [hloop]; rfl, by simp [hplaced]⟩
    · cases htouches
  intro c hc htouches
  obtain ⟨hnone, hd⟩ := hfree c.device htouches
  simp only [Main.calls, hnone, Option.map_none, Option.toList_none, List.append_nil] at hc
  exact hd (h.custody.calls.2 _ (List.mem_map_of_mem hc))

/-! ### A request for every call -/

section Pool

variable {pool pool' : Concurrency.Pool}

/-- The endpoints of the devices, and those of the reads, which only grow. -/
structure Kept (pool pool' : Concurrency.Pool) : Prop where
  devices : pool'.devices = pool.devices
  endpoints : pool.reads.map Read.endpoint <+: pool'.reads.map Read.endpoint

theorem move_endpoints {i : Nat} {r : Read} (hr : pool.reads[i]? = some r) (phase : Phase)
    (budget : Counter → Concurrency.Budget) :
    Kept pool (Concurrency.Pool.move { pool with budget } i r phase) := by
  refine ⟨rfl, ?_⟩
  obtain ⟨hlt, rfl⟩ := List.getElem?_eq_some_iff.mp hr
  have hsame : (pool.reads.map Read.endpoint).set i (Read.endpoint pool.reads[i]) =
      pool.reads.map Read.endpoint := by
    rw [← List.map_set, List.set_getElem_self]
  simp only [Concurrency.Pool.move, List.map_set, hsame]
  exact List.prefix_refl _

theorem notify_endpoint (c : Counter) (r : Read) : (r.notify c).endpoint = r.endpoint := by
  unfold Read.notify
  split <;> rfl

theorem notify_endpoints (h : Kept pool pool') (c : Counter) :
    Kept pool (pool'.notifyWaiters c) := by
  refine ⟨h.devices, ?_⟩
  have hsame : (Read.endpoint ∘ Read.notify c) = Read.endpoint := funext (notify_endpoint c)
  simpa only [Concurrency.Pool.notifyWaiters, List.map_map, hsame] using h.endpoints

theorem advance_endpoints {i : Nat} {r : Read} (hr : pool.reads[i]? = some r)
    (hstep : pool.advance i r = some pool') : Kept pool pool' := by
  have hmove : ∀ phase budget, Kept pool (Concurrency.Pool.move { pool with budget } i r phase) :=
    move_endpoints hr
  unfold Concurrency.Pool.advance at hstep
  split at hstep
  case h_9 => exact Option.some.inj hstep ▸ notify_endpoints (hmove _ pool.budget) _
  all_goals
    repeat' split at hstep
    all_goals first
      | (obtain rfl := Option.some.inj hstep; exact hmove _ _)
      | cases hstep

theorem report_endpoints {i : Nat} {f : Concurrency.Budget → Concurrency.Budget × Bool}
    (hstep : pool.report i f = some pool') : Kept pool pool' := by
  unfold Concurrency.Pool.report at hstep
  split at hstep
  · next hr =>
    split at hstep
    · obtain rfl := Option.some.inj hstep
      exact move_endpoints hr _ _
    · cases hstep
  · cases hstep

/-- No step of the pool changes an endpoint. -/
theorem act_endpoints {a : Concurrency.Act} (hstep : pool.act a = some pool') :
    Kept pool pool' := by
  cases a with
  | start index wanted =>
    obtain ⟨e, -, rfl⟩ := Option.map_eq_some_iff.mp hstep
    exact ⟨rfl, by simp⟩
  | advance i =>
    obtain ⟨r, hr, hadvance⟩ := Option.bind_eq_some_iff.mp hstep
    exact advance_endpoints hr hadvance
  | ok i => exact report_endpoints (f := Concurrency.Budget.success) hstep
  | busy i => exact report_endpoints (f := fun b => (b.backOff, false)) hstep
  | timedOut i othersInFlight =>
    exact report_endpoints (f := fun b => (if othersInFlight then b.backOff else b, false)) hstep
  | drop i =>
    simp only [Concurrency.Pool.act, Concurrency.Pool.drop] at hstep
    split at hstep
    · next hr =>
      split at hstep
      · obtain rfl := Option.some.inj hstep
        exact move_endpoints hr _ _
      · cases hstep
    · cases hstep

theorem reachable_devices {b : Budgets} (h : Concurrency.Reachable b pool) :
    pool.devices = b.devices := by
  induction h with
  | start => rfl
  | act a _ hstep ih => rw [(act_endpoints hstep).devices, ih]

end Pool

/-- The endpoint of the read `i` is that of the device `d`. -/
def Lends (built : Config) (endpoints : List Nat) (d i : Nat) : Prop :=
  ∃ e, endpoints[i]? = some e ∧ built.budgets.devices[d]? = some e

/-- Every task has a read of its own, of its device's endpoint. -/
structure Account (s : Main) : Prop where
  reachable : Concurrency.Reachable s.built.budgets s.pool
  lends : ∀ t ∈ s.tasks, ∀ i, t.read = some i →
    Lends s.built (s.pool.reads.map Read.endpoint) t.fetch.device i
  own : (s.tasks.filterMap Task.read).Nodup

theorem Account.pool (h : Account s) {act : Concurrency.Act} {pool : Concurrency.Pool}
    (hstep : s.pool.act act = some pool) : Account { s with pool } := by
  refine ⟨h.reachable.act act hstep, ?_, h.own⟩
  intro t ht i hi
  obtain ⟨e, he, hd⟩ := h.lends t ht i hi
  obtain ⟨more, hmore⟩ := (act_endpoints hstep).endpoints
  have hlt := (List.getElem?_eq_some_iff.mp he).1
  exact ⟨e, by rw [← hmore, List.getElem?_append_left hlt, he], hd⟩

theorem Account.task (h : Account s) {a : TaskAct} (hstep : s.taskAct a = some s') :
    Account s' := by
  cases a with
  | pool act =>
    have hpool : ∃ pool, s.pool.act act = some pool ∧ s' = { s with pool } := by
      cases act <;> simp only [Main.taskAct, Option.map_eq_some_iff, reduceCtorEq] at hstep
      all_goals
        obtain ⟨pool, hact, rfl⟩ := hstep
        exact ⟨pool, hact, rfl⟩
    obtain ⟨pool, hact, rfl⟩ := hpool
    exact h.pool hact
  | send k =>
    obtain ⟨t, -, hstep⟩ := Option.bind_eq_some_iff.mp hstep
    split at hstep
    · obtain rfl := Option.some.inj hstep
      have hsub : (s.tasks.eraseIdx k).Sublist s.tasks := List.eraseIdx_sublist ..
      exact ⟨h.reachable, fun t ht => h.lends t (hsub.subset ht), h.own.sublist (hsub.filterMap _)⟩
    · cases hstep

/-- A spawned read is in the pool's account. -/
theorem Account.spawned (h : Account s) (d : Nat) (name : String) (wanted : Nat) (l : Loop) :
    Account { s.spawn d name wanted with loop := l } := by
  -- the new read's index is beyond all those in use
  have hfresh : ∀ i ∈ s.tasks.filterMap Task.read, i < s.pool.reads.length := by
    intro i hi
    obtain ⟨t, ht, hread⟩ := List.mem_filterMap.mp hi
    obtain ⟨e, he, -⟩ := h.lends t ht i hread
    simpa using (List.getElem?_eq_some_iff.mp he).1
  unfold Main.spawn
  cases hact : s.pool.act (.start d wanted) with
  | none =>
    refine ⟨h.reachable, ?_, ?_⟩
    · intro t ht i hi
      rcases List.mem_append.mp ht with ht | ht
      · exact h.lends t ht i hi
      · obtain rfl := List.mem_singleton.mp ht
        cases hi
    · simpa [List.filterMap_append] using h.own
  | some pool =>
    have hgrown := h.pool hact
    obtain ⟨e, he, rfl⟩ := Option.map_eq_some_iff.mp hact
    refine ⟨hgrown.reachable, ?_, ?_⟩
    · intro t ht i hi
      rcases List.mem_append.mp ht with ht | ht
      · exact hgrown.lends t ht i hi
      · obtain rfl := List.mem_singleton.mp ht
        obtain rfl := Option.some.inj hi
        exact ⟨e, by simp, (reachable_devices h.reachable) ▸ he⟩
    · simp only [List.filterMap_append, List.filterMap_cons, List.filterMap_nil]
      refine List.nodup_append.mpr ⟨h.own, by simp, ?_⟩
      intro i hi j hj hij
      obtain rfl := List.mem_singleton.mp hj
      exact absurd (hfresh i hi) (by omega)

/-- Every step keeps the account of the budgets. -/
theorem Account.act (h : Account s) (hinv : Inv s) {a : Act} (hstep : s.act a = some s') :
    Account s' := by
  cases a with
  | task a => exact h.task hstep
  | loop a =>
    cases turned hstep with
    | moved => exact ⟨h.reachable, h.lends, h.own⟩
    | received => exact ⟨h.reachable, h.lends, h.own⟩
    | spawned _ _ _ wanted => exact h.spawned _ _ wanted _
    | polled => exact ⟨h.reachable, h.lends, h.own⟩
    | beat => exact ⟨h.reachable, h.lends, h.own⟩
    | answered => exact ⟨h.reachable, h.lends, h.own⟩
    | replaced => exact ⟨h.reachable, h.lends, h.own⟩
    | rearmed hloop =>
      -- nothing is read while the budgets are made anew
      have hnone : s.reading = [] := by
        have hplaced := hinv.placed
        rwa [Placed, hloop] at hplaced
      have htasks : s.tasks = [] := by
        have hperm := hinv.custody.reading
        rw [hnone] at hperm
        have hnil := List.map_eq_nil_iff.mp hperm.nil_eq.symm
        exact List.map_eq_nil_iff.mp (List.append_eq_nil_iff.mp hnil).1
      refine ⟨.start, ?_, ?_⟩
      · simp [htasks]
      · simp [htasks]

/-- The budgets are those of the configuration, but for the moment that it takes to make them, and
the loop makes no call. -/
structure Current (s : Main) : Prop where
  built : s.built = s.config ∨ s.loop = .rearming
  fetch : s.loop.fetch = none

/-- While nothing is rearmed the reads are those of the current pool. -/
theorem Current.act (h : Current s) {a : Act} (hrearmed : rearmed s a = true)
    (hlent : lent s a = true) (hstep : s.act a = some s') : Current s' := by
  cases a with
  | task a =>
    have hframe := taskAct_frame hstep
    refine ⟨?_, ?_⟩
    · rw [hframe.built, hframe.config, hframe.loop]
      exact h.built
    · rw [hframe.loop]
      exact h.fetch
  | loop a =>
    cases turned hstep with
    | moved _ hl _ _ hrearming => exact ⟨Or.inl (h.built.resolve_right hrearming.2), hl⟩
    | received => exact ⟨h.built, h.fetch⟩
    | spawned hloop =>
      have hbuilt := h.built.resolve_right (by simp [hloop])
      refine ⟨Or.inl ?_, rfl⟩
      simp only [Main.spawn]
      split <;> exact hbuilt
    | polled _ ha =>
      subst ha
      cases hlent
    | beat _ ha =>
      subst ha
      cases hlent
    | answered hfetch => cases h.fetch.symm.trans hfetch
    | replaced _ hl =>
      obtain rfl | ⟨-, rfl⟩ := hl
      · exact ⟨Or.inr rfl, rfl⟩
      · cases hrearmed
    | rearmed => exact ⟨Or.inl rfl, rfl⟩

theorem filterMap_read (pool : Concurrency.Pool) (tasks : List Task) :
    ((tasks.filterMap (Task.call pool)).map Call.read).Sublist
      ((tasks.filterMap Task.read).map some) := by
  induction tasks with
  | nil => exact List.Sublist.refl _
  | cons t tasks ih =>
    cases hcall : t.call pool with
    | none =>
      cases hread : t.read with
      | none => simpa only [List.filterMap_cons, hcall, hread] using ih
      | some i =>
        simp only [List.filterMap_cons, hcall, hread, List.map_cons]
        exact ih.cons _
    | some c =>
      obtain ⟨i, r, hread, -, -, rfl⟩ := Task.call_eq hcall
      simp only [List.filterMap_cons, hcall, hread, List.map_cons]
      exact ih.cons_cons _

theorem inCall_held {phase : Phase} (h : inCall phase = true) (hsound : phase.Sound) :
    1 ≤ phase.onEndpoint := by
  unfold inCall at h
  split at h
  · exact hsound
  · exact hsound
  · cases h

/-- So every read in flight is paid for. -/
theorem Account.funded (h : Account s) (hinv : Inv s) (hcurrent : Current s) : Funded s := by
  have hpool := Concurrency.inv_reachable
    (Concurrency.start_fresh s.built.settings s.built.endpointOf) h.reachable
  have hcalls : s.calls = s.tasks.filterMap (Task.call s.pool) := by
    simp [Main.calls, hcurrent.fetch]
  refine ⟨?_, ?_, hpool.inUse_eq⟩
  · intro c hc
    rw [hcalls] at hc
    obtain ⟨t, ht, hcall⟩ := List.mem_filterMap.mp hc
    obtain ⟨i, r, hread, hr, hphase, rfl⟩ := Task.call_eq hcall
    obtain ⟨e, he, hd⟩ := h.lends t ht i hread
    have hendpoint : r.endpoint = e := by
      simpa [List.getElem?_map, hr] using he
    have hbuilt : s.built = s.config := by
      refine hcurrent.built.resolve_right fun hloop => ?_
      have hplaced := hinv.placed
      rw [Placed, hloop] at hplaced
      have hmem := hinv.custody.calls.2 _ (List.mem_map_of_mem hc)
      rw [hplaced] at hmem
      cases hmem
    refine ⟨i, r, e, rfl, hr, hbuilt ▸ hd, ?_⟩
    simp only [Read.held, hendpoint, if_true]
    exact inCall_held hphase (hpool.sound r (List.mem_of_getElem? hr))
  · rw [hcalls]
    have hown := List.Nodup.map (Option.some_injective _) h.own
    exact hown.sublist (filterMap_read s.pool s.tasks)

/-! ## Runs -/

/-- The state that a run from the beginning ends in. -/
def run (config : Config) (acts : List Act) : Main :=
  Machine.final step (Main.start config) acts

/-- Every step of a run from the beginning meets `C`. -/
def Throughout (C : Main → Act → Bool) (config : Config) (acts : List Act) : Prop :=
  Machine.AllSteps step (fun s a => C s a = true) (Main.start config) acts

theorem step_of_act {P : Main → Prop} {a : Act} (h : P s)
    (hact : ∀ s', s.act a = some s' → P s') : P (step s a).1 := by
  unfold step
  cases hstep : s.act a with
  | none => exact h
  | some s' => exact hact s' hstep

theorem inv_run (config : Config) (acts : List Act) : Inv (run config acts) :=
  Machine.final_induction (fun _ a h => h.step a) acts (inv_start config)

theorem account_run (config : Config) (acts : List Act) : Account (run config acts) := by
  have hstart : Account (Main.start config) := ⟨.start, by simp [Main.start], by simp [Main.start]⟩
  refine (Machine.final_induction (P := fun s => Inv s ∧ Account s) ?_ acts
    ⟨inv_start config, hstart⟩).2
  intro s a h
  exact ⟨h.1.step a, step_of_act h.2 fun _ hact => h.2.act h.1 hact⟩

variable {config : Config} {acts : List Act}

theorem unread_run (h : Throughout apart config acts) : Unread (run config acts) := by
  refine Machine.final_induction_of (fun s a ha hs => ?_) h (fun _ _ hloop => by cases hloop)
  exact step_of_act hs fun _ hact => hs.act ha hact

theorem whole_run (h : Throughout alone config acts) : Whole (run config acts) := by
  refine Machine.final_induction_of (fun s a ha hs => ?_) h (fun _ _ hloop => by cases hloop)
  exact step_of_act hs fun _ hact => hs.act ha hact

theorem current_run (h : Throughout (fun s a => rearmed s a && lent s a) config acts) :
    Current (run config acts) := by
  refine Machine.final_induction_of (fun s a ha hs => ?_) h ⟨Or.inl rfl, rfl⟩
  obtain ⟨hrearmed, hlent⟩ := Bool.and_eq_true_iff.mp ha
  exact step_of_act hs fun _ hact => hs.act hrearmed hlent hact

theorem Inv.drained (h : Inv s) (hloop : s.loop.Drained) : s.outstanding = [] := by
  have hplaced := h.placed
  have hnone : s.reading = [] ∧ s.loop.fetch = none := by
    unfold Loop.Drained at hloop
    split at hloop
    all_goals first
      | (next hl => rw [Placed, hl] at hplaced; exact ⟨hplaced, by rw [hl]; rfl⟩)
      | cases hloop
  have hreading := h.custody.reading
  rw [hnone.1] at hreading
  have houtside := List.map_eq_nil_iff.mp hreading.nil_eq.symm
  rw [Main.outstanding, houtside, hnone.2]
  rfl

theorem Inv.handedBack (h : Inv s) : HandedBack s := by
  refine ⟨h.custody.once, ?_, fun hloop => ?_⟩
  · rw [h.custody.ids]
    exact List.nodup_range
  · have honce := h.custody.once
    rwa [h.drained hloop, List.append_nil] at honce

/-- **One read per device**, in every state of every run. Each read is handed back once, under the
device that it was started for. No device has two calls in flight while the heartbeat reads find no
read of their device; none is touched while a call is in flight, where `connect` stands in for
`reconnect` only while nothing is read; and every call holds a request where the loop makes none
itself and new configurations are followed by new budgets. -/
theorem one_read_per_device (config : Config) (acts : List Act) :
    HandedBack (run config acts) ∧
      (Throughout apart config acts → OneRead (run config acts)) ∧
      (Throughout alone config acts → Untouched (run config acts)) ∧
      (Throughout (fun s a => rearmed s a && lent s a) config acts →
        Funded (run config acts)) :=
  ⟨(inv_run config acts).handedBack,
    fun h => (inv_run config acts).oneRead (unread_run h),
    fun h => (inv_run config acts).untouched (whole_run h),
    fun h => (account_run config acts).funded (inv_run config acts) (current_run h)⟩

/-! ### Runs that fail -/

/-- A configuration with these devices, each its own endpoint. -/
def ofNames (names : List String) : Config :=
  { settings :=
      { maxInflight := none, maxInflightTotal := none
        devices := names.map fun name => { name, maxInflight := none } }
    endpointOf := fun _ => none }

/-- The first device is polled through its reader, and its task is in `read_points`. -/
def readingFirst (due : List Nat) : List Act :=
  [.loop (.tick due), .loop (.poll (.reader 1))] ++
    List.replicate 5 (.task (.pool (.advance 0)))

/-- The device has pushed points too, and one of them is due a heartbeat. -/
def heartbeatMeanwhile : List Act :=
  readingFirst [0] ++ [.loop (.quiet [0]), .loop .beat]

/-- The second device is due to be reconnected, by a module that reconnects all or none. -/
def connectMeanwhile : List Act :=
  readingFirst [0, 1] ++ [.loop (.poll .left), .loop (.quiet []), .loop (.recover ["b"]),
    .loop .reconnect, .loop (.reconnected false false)]

def polledDirectly : List Act := [.loop (.tick [0]), .loop (.poll .direct)]

/-- Two reads in tasks, a heartbeat of neither, and a command, up to where the reads are drained. -/
def careful : List Act :=
  readingFirst [0, 1] ++ [.loop (.poll (.reader 1)), .loop (.quiet []), .loop (.recover ["b"]),
    .loop .ticked, .loop (.request (.command "a"))]

instance (C : Main → Act → Bool) (config : Config) (acts : List Act) :
    Decidable (Throughout C config acts) :=
  inferInstanceAs (Decidable (Machine.AllSteps _ _ _ _))

/-- A run in which the loop waits for its tasks. -/
theorem one_read_per_device_drained :
    OneRead (run (ofNames ["a", "b"]) careful) ∧ Untouched (run (ofNames ["a", "b"]) careful) ∧
      Funded (run (ofNames ["a", "b"]) careful) :=
  have h := one_read_per_device (ofNames ["a", "b"]) careful
  ⟨h.2.1 (by decide), h.2.2.1 (by decide), h.2.2.2 (by decide)⟩

/-- A heartbeat read beside a polled one. -/
theorem two_reads_in_flight :
    (¬ OneRead (run (ofNames ["a"]) heartbeatMeanwhile)) ∧
      (¬ Untouched (run (ofNames ["a", "b"]) connectMeanwhile)) ∧
      ¬ Funded (run (ofNames ["a"]) polledDirectly) := by
  refine ⟨?_, ?_, ?_⟩
  · have hcalls : (run (ofNames ["a"]) heartbeatMeanwhile).calls.map Call.device = [0, 0] := by
      decide
    rw [OneRead, hcalls]
    decide
  · intro h
    exact h { device := 0, read := some 0 } (by decide) trivial
  · intro h
    obtain ⟨i, _, _, hread, _⟩ := h.held { device := 0, read := none } (by decide)
    cases hread

end TedgeDot.MainLoop
