import Mathlib.Data.List.Nodup
import Mathlib.Logic.Function.Basic
import Mathlib.Logic.Relation
import TedgeDot.Lib.Table

/-!
# The read workers

`runtime.c` with `concurrent_reads`: the main loop hands the reads of devices to worker threads and
collects what they return. Everything under the lock of the pool is one step; the threads are
interleaved in every order, and a wait on a condition may end without a signal.

## Layers

- **The pool**: `pool_submit`, the two critical sections of `worker`, and the one of
  `collect_reads`.
- **The loop**: where the main loop is, and what it knows of the devices.
- **The accounts**: the invariant `Accounts`, which every step keeps.
- **The result**: `handed_back`.

What a job reads is left out; `due_at` and the points of a job are those of `DueAt`.
-/

namespace TedgeDot.ReadPool

/-! ## The pool -/

/-- `job_t`, known by the number of its submission. -/
structure Job where
  id : Nat
  index : Nat
deriving DecidableEq

/-- Where a worker thread is. -/
inductive Worker where
  /-- In `pthread_cond_wait` on `work`. -/
  | parked
  /-- Created or woken, on its way to the lock. -/
  | awake
  /-- In `run_job`. -/
  | running (job : Job)
  | exited
deriving DecidableEq

/-- `pool_t`. The counters are integers, so that they could go below zero. -/
structure Pool where
  todo : List Job
  finished : List Job
  /-- Submitted, not yet handed back to the loop. -/
  inflight : Int
  /-- Submitted, not yet taken by a worker. -/
  queued : Int
  threads : Nat
  idle : Int
  max : Nat
  tids : List Worker
  stop : Bool
deriving DecidableEq

def poolNew (max : Nat) : Pool :=
  { todo := [], finished := [], inflight := 0, queued := 0, threads := 0, idle := 0, max
    tids := [], stop := false }

/-- The part of `pool_submit` that starts a worker, where `pthread_create` succeeds. -/
def startWorker (p : Pool) (created : Bool) : Pool :=
  if p.idle ≤ p.queued ∧ p.threads < p.max ∧ created = true then
    { p with threads := p.threads + 1, idle := p.idle + 1, tids := p.tids ++ [.awake] }
  else p

/-- `pool_submit` up to its signal. -/
def poolSubmit (p : Pool) (job : Job) (created : Bool) : Option Pool :=
  let p := startWorker p created
  if p.threads = 0 then none
  else some { p with
    todo := p.todo ++ [job], queued := p.queued + 1, inflight := p.inflight + 1 }

/-- `worker` from where it has the lock to where it gives it up: it stops, waits, or takes the first
job. -/
def look (p : Pool) (w : Nat) : Pool :=
  if p.stop then { p with tids := p.tids.set w .exited }
  else
    match p.todo with
    | [] => { p with tids := p.tids.set w .parked }
    | job :: rest => { p with
        todo := rest, queued := p.queued - 1, idle := p.idle - 1
        tids := p.tids.set w (.running job) }

/-- `worker` has run a job and has the lock again. -/
def giveBack (p : Pool) (job : Job) : Pool :=
  { p with finished := p.finished ++ [job], idle := p.idle + 1 }

/-- The next time a worker has the lock. -/
def turn (p : Pool) (w : Nat) : Pool :=
  match p.tids[w]? with
  | some .awake => look p w
  | some (.running job) => look (giveBack p job) w
  | _ => p

/-- `collect_reads` takes what is finished off the queue. -/
def takeFinished (p : Pool) : Pool :=
  { p with finished := [], inflight := p.inflight - p.finished.length }

/-- `pthread_cond_signal` on `work`: it wakes some of the parked workers, one of them at least. -/
structure Signalled (ws ws' : List Worker) : Prop where
  each : List.Forall₂ (fun w w' => w' = w ∨ (w = .parked ∧ w' = .awake)) ws ws'
  one : .parked ∈ ws → .awake ∈ ws'

/-- `pthread_cond_broadcast` on `work`. -/
def wakeAll (ws : List Worker) : List Worker :=
  ws.map fun w => if w = .parked then .awake else w

/-! ## The loop -/

/-- Where the main loop is. -/
inductive Loop where
  | free
  /-- In `collect_reads`, on its way to the lock. -/
  | collecting (all : Bool)
  /-- In `pthread_cond_wait` on `done`, for all reads. -/
  | waiting
  /-- In `collect_reads`, with the jobs it still has to publish, and whether it collects again. -/
  | publishing (all more : Bool) (done : List Job)
  /-- Past a `wait_idle`: a command, a reload, or the end. -/
  | command
deriving DecidableEq

/-- The jobs that the loop has taken and not yet published. -/
def Loop.done : Loop → List Job
  | .publishing _ _ done => done
  | _ => []

/-- `pthread_cond_broadcast` on `done`. -/
def Loop.broadcast : Loop → Loop
  | .waiting => .collecting true
  | l => l

/-- `rt_t`, with what has happened so far. -/
structure Rt where
  pool : Pool
  busy : Nat → Bool
  loop : Loop
  /-- The jobs that were submitted, in order. -/
  submitted : List Job
  /-- The jobs that workers finished, in order. -/
  returned : List Job
  /-- The jobs that were handed back to the loop (`finish_job`), in order. -/
  published : List Job

def Rt.init (max : Nat) : Rt :=
  { pool := poolNew max, busy := fun _ => false, loop := .free
    submitted := [], returned := [], published := [] }

/-- The job that is submitted next for a device. -/
def Rt.nextJob (s : Rt) (index : Nat) : Job := { id := s.submitted.length, index }

/-- `collect_reads` has the lock: it waits, or takes what is finished. -/
def collect (s : Rt) (all : Bool) : Rt :=
  if all = true ∧ s.pool.finished = [] ∧ 0 < s.pool.inflight then { s with loop := .waiting }
  else
    let pool := takeFinished s.pool
    let more := all && decide (0 < pool.inflight)
    { s with pool, loop := .publishing all more s.pool.finished }

def finishJob (s : Rt) (all more : Bool) (job : Job) (rest : List Job) : Rt :=
  { s with
    busy := Function.update s.busy job.index false
    loop := .publishing all more rest
    published := s.published ++ [job] }

/-- One step of one of the threads. -/
inductive Step : Rt → Rt → Prop where
  /-- `submit_due`, of a device without a read in flight. Where `pool_submit` refuses the job,
  `busy` is put back and nothing has changed. -/
  | submit {s : Rt} {index : Nat} {created : Bool} {pool : Pool} {tids : List Worker}
      (hloop : s.loop = .free) (hbusy : s.busy index = false) (hstop : s.pool.stop = false)
      (hsubmit : poolSubmit s.pool (s.nextJob index) created = some pool)
      (hsignal : Signalled pool.tids tids) :
      Step s { s with
        pool := { pool with tids }
        busy := Function.update s.busy index true
        submitted := s.submitted ++ [s.nextJob index] }
  /-- The loop comes to `collect_reads`: with `all` from `wait_idle`, which a command, a reload or
  the end begins with. -/
  | enter {s : Rt} (all : Bool) (hloop : s.loop = .free) : Step s { s with loop := .collecting all }
  | collect {s : Rt} {all : Bool} (hloop : s.loop = .collecting all) : Step s (collect s all)
  /-- The wait on `done` ends without a signal. -/
  | spuriousDone {s : Rt} (hloop : s.loop = .waiting) : Step s { s with loop := .collecting true }
  | publish {s : Rt} {all more : Bool} {job : Job} {rest : List Job}
      (hloop : s.loop = .publishing all more (job :: rest)) :
      Step s (finishJob s all more job rest)
  | again {s : Rt} {all : Bool} (hloop : s.loop = .publishing all true []) :
      Step s { s with loop := .collecting all }
  | collected {s : Rt} {all : Bool} (hloop : s.loop = .publishing all false []) :
      Step s { s with loop := if all then .command else .free }
  | commandDone {s : Rt} (hloop : s.loop = .command) : Step s { s with loop := .free }
  /-- `pool_free`, which stops the workers. -/
  | free {s : Rt} (hloop : s.loop = .command) :
      Step s { s with pool := { s.pool with stop := true, tids := wakeAll s.pool.tids } }
  /-- A worker that is awake gets the lock. -/
  | turn {s : Rt} {w : Nat} (hw : s.pool.tids[w]? = some .awake) :
      Step s { s with pool := look s.pool w }
  /-- `run_job` returns, and the worker gets the lock. -/
  | giveBack {s : Rt} {w : Nat} {job : Job} (hw : s.pool.tids[w]? = some (.running job)) :
      Step s { s with
        pool := look (ReadPool.giveBack s.pool job) w
        loop := s.loop.broadcast
        returned := s.returned ++ [job] }
  /-- The wait of a worker on `work` ends without a signal. -/
  | spuriousWork {s : Rt} {w : Nat} (hw : s.pool.tids[w]? = some .parked) :
      Step s { s with pool := { s.pool with tids := s.pool.tids.set w .awake } }

/-! ## What is promised -/

def Worker.jobs : Worker → List Job
  | .running job => [job]
  | _ => []

def Pool.running (p : Pool) : List Job := p.tids.flatMap Worker.jobs

/-- The jobs in flight: waiting, read, or finished. -/
def Pool.jobs (p : Pool) : List Job := p.todo ++ p.running ++ p.finished

/-- The jobs that were submitted and not yet handed back. -/
def Rt.outstanding (s : Rt) : List Job := s.pool.jobs ++ s.loop.done

/-- A worker that will look at the queue again without being woken. -/
def Worker.Looks (w : Worker) : Prop := w = .awake ∨ ∃ job, w = .running job

/-- What holds of the pool and the loop at every moment. -/
structure Right (s : Rt) : Prop where
  /-- The jobs are distinct, and each that was submitted is in one place, once. -/
  once : s.submitted.Nodup ∧ (s.published ++ s.outstanding).Perm s.submitted
  /-- They are handed back in the order in which the workers finish them. -/
  order : s.returned = s.published ++ s.loop.done ++ s.pool.finished
  busy : ∀ i, s.busy i = true ↔ ∃ job ∈ s.outstanding, job.index = i
  /-- No device has two jobs. -/
  apart : (s.outstanding.map Job.index).Nodup
  /-- Past `wait_idle` no job is in flight, and every one has been published. -/
  collected : s.loop = .command →
    s.pool.inflight = 0 ∧ s.outstanding = [] ∧ s.published.Perm s.submitted
  counters : 0 ≤ s.pool.idle ∧ 0 ≤ s.pool.queued ∧ 0 ≤ s.pool.inflight ∧
    s.pool.threads = s.pool.tids.length
  /-- While a job waits there is a worker that will look at the queue, and a worker that does takes
  the first job. -/
  taken : ∀ job rest, s.pool.todo = job :: rest →
    (∃ (w : Nat) (worker : Worker), s.pool.tids[w]? = some worker ∧ worker.Looks) ∧
      ∀ (w : Nat) (worker : Worker), s.pool.tids[w]? = some worker → worker.Looks →
        (turn s.pool w).tids[w]? = some (.running job) ∧ (turn s.pool w).todo = rest

/-! ## The accounts -/

structure Pool.Counts (p : Pool) : Prop where
  queued : p.queued = p.todo.length
  inflight : p.inflight = p.jobs.length
  idle : p.idle + p.running.length = p.tids.length
  threads : p.threads = p.tids.length
  exited : .exited ∈ p.tids → p.stop = true

/-- No job is lost or taken twice. -/
structure Custody (s : Rt) : Prop where
  once : (s.published ++ s.outstanding).Perm s.submitted
  ids : s.submitted.map Job.id = List.range s.submitted.length
  busy : ∀ i, s.busy i = true ↔ i ∈ s.outstanding.map Job.index
  apart : (s.outstanding.map Job.index).Nodup

/-- The invariant. -/
structure Accounts (s : Rt) : Prop where
  counts : s.pool.Counts
  custody : Custody s
  order : s.returned = s.published ++ s.loop.done ++ s.pool.finished
  looked : s.pool.todo ≠ [] → ∃ worker ∈ s.pool.tids, worker.Looks
  stopped : s.pool.stop = true → s.outstanding = []
  /-- A loop that does not collect again has taken everything. -/
  last : ∀ done, s.loop = .publishing true false done → s.pool.jobs = []
  command : s.loop = .command → s.outstanding = []

@[simp] theorem jobs_parked : Worker.parked.jobs = [] := rfl

@[simp] theorem jobs_awake : Worker.awake.jobs = [] := rfl

@[simp] theorem jobs_exited : Worker.exited.jobs = [] := rfl

@[simp] theorem jobs_running (job : Job) : (Worker.running job).jobs = [job] := rfl

theorem jobs_length_le (w : Worker) : w.jobs.length ≤ 1 := by
  cases w <;> simp

theorem running_length_le (ws : List Worker) : (ws.flatMap Worker.jobs).length ≤ ws.length := by
  induction ws with
  | nil => simp
  | cons w ws ih =>
    have hw := jobs_length_le w
    simp only [List.flatMap_cons, List.length_append, List.length_cons]
    omega

theorem running_set {ws : List Worker} {i : Nat} {w : Worker} (w' : Worker) (x y : List Job)
    (h : ws[i]? = some w) (hjobs : (w'.jobs ++ x).Perm (w.jobs ++ y)) :
    ((ws.set i w').flatMap Worker.jobs ++ x).Perm (ws.flatMap Worker.jobs ++ y) :=
  Table.flatMap_set_perm Worker.jobs h hjobs

/-! ### Waking up -/

variable {ws ws' : List Worker} {job : Job} {p : Pool} {w : Nat} {worker : Worker} {s : Rt}

theorem Signalled.length (h : Signalled ws ws') : ws'.length = ws.length :=
  h.each.length_eq.symm

theorem Signalled.running (h : Signalled ws ws') :
    ws'.flatMap Worker.jobs = ws.flatMap Worker.jobs := by
  obtain ⟨heach, -⟩ := h
  induction heach with
  | nil => rfl
  | cons hw _ ih =>
    rw [List.flatMap_cons, List.flatMap_cons, ih]
    rcases hw with rfl | ⟨rfl, rfl⟩ <;> rfl

theorem Signalled.exited (h : Signalled ws ws') (he : .exited ∈ ws') : .exited ∈ ws := by
  obtain ⟨heach, -⟩ := h
  induction heach with
  | nil => exact he
  | cons hw _ ih =>
    rcases List.mem_cons.mp he with rfl | he
    · rcases hw with rfl | ⟨-, ⟨⟩⟩
      exact List.mem_cons_self
    · exact List.mem_cons_of_mem _ (ih he)

/-- After a signal some worker looks at the queue. -/
theorem Signalled.looks (h : Signalled ws ws') (hne : ws ≠ []) (hexited : .exited ∉ ws) :
    ∃ w ∈ ws', w.Looks := by
  by_cases hparked : .parked ∈ ws
  · exact ⟨.awake, h.one hparked, Or.inl rfl⟩
  · obtain ⟨w, hw⟩ := List.exists_mem_of_ne_nil ws hne
    obtain ⟨i, hi⟩ := List.getElem?_of_mem hw
    obtain ⟨w', hi', hww⟩ : ∃ w', ws'[i]? = some w' ∧ (w' = w ∨ (w = .parked ∧ w' = .awake)) := by
      have hlt := (List.getElem?_eq_some_iff.mp hi).1
      have hlt' : i < ws'.length := h.length ▸ hlt
      refine ⟨ws'[i], List.getElem?_eq_getElem hlt', ?_⟩
      have := (List.forall₂_iff_get.mp h.each).2 i hlt hlt'
      rw [List.get_eq_getElem, List.get_eq_getElem, (List.getElem?_eq_some_iff.mp hi).2] at this
      exact this
    obtain rfl : w' = w := hww.resolve_right fun hp => hparked (hp.1 ▸ hw)
    refine ⟨w', List.mem_of_getElem? hi', ?_⟩
    cases w' with
    | parked => exact absurd hw hparked
    | awake => exact Or.inl rfl
    | running job => exact Or.inr ⟨job, rfl⟩
    | exited => exact absurd hw hexited

/-! ### The pool -/

/-- What submitting a job does. -/
theorem poolSubmit_spec {p p' : Pool} {created : Bool} (h : poolSubmit p job created = some p')
    (hcounts : p.Counts) :
    p'.tids ≠ [] ∧ p'.todo = p.todo ++ [job] ∧ p'.running = p.running ∧
      p'.finished = p.finished ∧ p'.stop = p.stop ∧ p'.Counts := by
  obtain ⟨p₁, hp₁⟩ : ∃ p₁, p₁ = startWorker p created := ⟨_, rfl⟩
  -- the worker that is started has no job and counts as idle
  have hstart : p₁.todo = p.todo ∧ p₁.running = p.running ∧ p₁.finished = p.finished ∧
      p₁.stop = p.stop ∧ p₁.Counts := by
    unfold startWorker at hp₁
    split at hp₁
    · subst hp₁
      have hrunning : Pool.running { p with
          threads := p.threads + 1, idle := p.idle + 1, tids := p.tids ++ [.awake] } =
          p.running := by
        simp [Pool.running]
      refine ⟨rfl, hrunning, rfl, rfl, hcounts.queued, ?_, ?_, ?_, ?_⟩
      · rw [Pool.jobs, hrunning]
        exact hcounts.inflight
      · rw [hrunning]
        have hidle := hcounts.idle
        simp only [List.length_append, List.length_singleton]
        push_cast
        omega
      · simpa using hcounts.threads
      · intro hexited
        exact hcounts.exited (by simpa using hexited)
    · subst hp₁
      exact ⟨rfl, rfl, rfl, rfl, hcounts⟩
  obtain ⟨htodo, hrunning, hfinished, hstop, hcounts₁⟩ := hstart
  unfold poolSubmit at h
  rw [← hp₁] at h
  simp only at h
  split at h
  · cases h
  · next hthreads =>
    obtain rfl := Option.some.inj h
    refine ⟨?_, by rw [htodo], hrunning, hfinished, hstop, ?_⟩
    · intro hnil
      rw [hcounts₁.threads, hnil] at hthreads
      exact hthreads rfl
    · refine ⟨?_, ?_, hcounts₁.idle, hcounts₁.threads, hcounts₁.exited⟩
      · have hqueued := hcounts₁.queued
        simp only [List.length_append, List.length_singleton]
        push_cast
        omega
      · have hinflight := hcounts₁.inflight
        simp only [Pool.jobs, Pool.running, List.length_append, List.length_singleton] at hinflight ⊢
        push_cast at hinflight ⊢
        omega

/-- A worker that looks takes a job or parks; no job is lost. -/
theorem look_jobs (h : p.tids[w]? = some worker) :
    ((look p w).jobs ++ worker.jobs).Perm p.jobs := by
  -- a worker without a job takes one over, or none
  have hset : ∀ w' : Worker, w'.jobs = [] →
      ((p.tids.set w w').flatMap Worker.jobs ++ worker.jobs).Perm p.running := by
    intro w' hw'
    have hperm := running_set w' worker.jobs [] h (by simp [hw'])
    simpa [Pool.running] using hperm
  have hidle : ∀ w' : Worker, w'.jobs = [] →
      (p.todo ++ (p.tids.set w w').flatMap Worker.jobs ++ p.finished ++ worker.jobs).Perm
        p.jobs := by
    intro w' hw'
    calc (p.todo ++ (p.tids.set w w').flatMap Worker.jobs ++ p.finished ++ worker.jobs).Perm
          (p.todo ++ ((p.tids.set w w').flatMap Worker.jobs ++ worker.jobs) ++ p.finished) := by
          simp only [List.append_assoc]
          exact ((List.perm_append_comm).append_left _).append_left _
      List.Perm _ p.jobs := ((hset w' hw').append_left _).append_right _
  unfold look
  split
  · exact hidle .exited rfl
  · split
    · next htodo => simpa [htodo, Pool.jobs, Pool.running] using hidle .parked rfl
    · next job rest htodo =>
      have hperm := running_set (.running job) worker.jobs [job] h
        List.perm_append_comm
      calc (rest ++ (p.tids.set w (.running job)).flatMap Worker.jobs ++ p.finished ++
            worker.jobs).Perm
            (rest ++ ((p.tids.set w (.running job)).flatMap Worker.jobs ++ worker.jobs) ++
              p.finished) := by
            simp only [List.append_assoc]
            exact ((List.perm_append_comm).append_left _).append_left _
        List.Perm _ (rest ++ (p.running ++ [job]) ++ p.finished) :=
          (hperm.append_left _).append_right _
        List.Perm _ (job :: rest ++ p.running ++ p.finished) := by
          refine List.Perm.append_right _ ?_
          rw [← List.append_assoc]
          exact List.perm_append_singleton job _
        _ = p.jobs := by rw [Pool.jobs, htodo]

@[simp] theorem look_finished (p : Pool) (w : Nat) : (look p w).finished = p.finished := by
  unfold look
  split
  · rfl
  · split <;> rfl

@[simp] theorem look_stop (p : Pool) (w : Nat) : (look p w).stop = p.stop := by
  unfold look
  split
  · rfl
  · split <;> rfl

/-- The counters stay right. -/
theorem look_counts (h : p.tids[w]? = some worker) (hqueued : p.queued = p.todo.length)
    (hinflight : p.inflight + worker.jobs.length = p.jobs.length)
    (hidle : p.idle + p.running.length = p.tids.length + worker.jobs.length)
    (hthreads : p.threads = p.tids.length) (hexited : .exited ∈ p.tids → p.stop = true) :
    (look p w).Counts := by
  have hjobs := (look_jobs h).length_eq
  have hrunning : ∀ w' : Worker, ((p.tids.set w w').flatMap Worker.jobs).length +
      worker.jobs.length = p.running.length + w'.jobs.length := by
    intro w'
    have hperm := running_set w' worker.jobs w'.jobs h List.perm_append_comm
    simpa [Pool.running] using hperm.length_eq
  have hparked := hrunning .parked
  have hgone := hrunning .exited
  rw [List.length_append] at hjobs
  unfold look at hjobs ⊢
  split
  · next hstop =>
    rw [if_pos hstop] at hjobs
    refine ⟨hqueued, ?_, ?_, by simpa using hthreads, fun _ => hstop⟩
    · simp only at hjobs ⊢
      omega
    · simp only [Pool.running, jobs_exited, List.length_nil, List.length_set] at hgone hidle ⊢
      omega
  · next hstop =>
    rw [if_neg hstop] at hjobs
    -- exited workers are left only once the pool stops
    have hold : ∀ w' : Worker, w' ≠ .exited → .exited ∉ p.tids.set w w' := by
      intro w' hw' hmem
      rcases List.mem_or_eq_of_mem_set hmem with hmem | rfl
      · exact hstop (hexited hmem)
      · exact hw' rfl
    split
    · next htodo =>
      refine ⟨hqueued, ?_, ?_, by simpa using hthreads, ?_⟩
      · rw [htodo] at hjobs
        simp only [Pool.jobs, Pool.running, htodo] at hjobs hinflight ⊢
        omega
      · simp only [Pool.running, jobs_parked, List.length_nil, List.length_set] at hparked hidle ⊢
        omega
      · exact fun hmem => absurd hmem (hold .parked (by simp))
    · next job rest htodo =>
      have htaken := hrunning (.running job)
      refine ⟨?_, ?_, ?_, by simpa using hthreads, ?_⟩
      · rw [hqueued, htodo]
        simp
      · rw [htodo] at hjobs
        simp only at hjobs ⊢
        omega
      · simp only [Pool.running, jobs_running, List.length_singleton, List.length_set]
          at htaken hidle ⊢
        omega
      · exact fun hmem => absurd hmem (hold (.running job) (by simp))

theorem look_looked (h : p.tids[w]? = some worker) (hstop : p.stop = true → p.todo = [])
    (hne : (look p w).todo ≠ []) : ∃ worker ∈ (look p w).tids, worker.Looks := by
  have hlt := (List.getElem?_eq_some_iff.mp h).1
  unfold look at hne ⊢
  split
  · next hs =>
    rw [if_pos hs] at hne
    exact absurd (hstop hs) hne
  · next hs =>
    rw [if_neg hs] at hne
    split
    · next htodo => simp [htodo] at hne
    · next job rest htodo =>
      exact ⟨.running job, List.mem_set hlt _, Or.inr ⟨job, rfl⟩⟩

theorem turn_takes {rest : List Job} (h : p.tids[w]? = some worker) (hlooks : worker.Looks)
    (hstop : p.stop = false) (htodo : p.todo = job :: rest) :
    (turn p w).tids[w]? = some (.running job) ∧ (turn p w).todo = rest := by
  have hlt := (List.getElem?_eq_some_iff.mp h).1
  unfold turn
  rw [h]
  rcases hlooks with rfl | ⟨other, rfl⟩
  · simp [look, hstop, htodo, hlt]
  · simp [look, giveBack, hstop, htodo, hlt]

/-! ### The steps -/

theorem Custody.moved {s s' : Rt} (h : Custody s) (hsubmitted : s'.submitted = s.submitted)
    (hpublished : s'.published = s.published) (hbusy : s'.busy = s.busy)
    (hjobs : s'.outstanding.Perm s.outstanding) : Custody s' where
  once := by
    rw [hsubmitted, hpublished]
    exact (hjobs.append_left _).trans h.once
  ids := by
    rw [hsubmitted]
    exact h.ids
  busy i := by
    rw [hbusy, (hjobs.map Job.index).mem_iff]
    exact h.busy i
  apart := (hjobs.map Job.index).nodup_iff.mpr h.apart

theorem accounts_init (max : Nat) : Accounts (Rt.init max) where
  counts := ⟨rfl, rfl, rfl, rfl, by simp [Rt.init, poolNew]⟩
  custody :=
    { once := List.Perm.refl _
      ids := rfl
      busy := by simp [Rt.init, Rt.outstanding, Pool.jobs, Pool.running, poolNew, Loop.done]
      apart := List.nodup_nil }
  order := rfl
  looked := fun h => absurd rfl h
  stopped := fun h => Bool.noConfusion h
  last := fun _ h => Loop.noConfusion h
  command := fun h => Loop.noConfusion h

theorem Accounts.goes {l : Loop} (h : Accounts s) (hdone : l.done = s.loop.done)
    (hlast : ∀ done, l = .publishing true false done → s.pool.jobs = [])
    (hcommand : l = .command → s.outstanding = []) : Accounts { s with loop := l } := by
  have hsame : ({ s with loop := l } : Rt).outstanding = s.outstanding := by
    simp only [Rt.outstanding, hdone]
  exact {
    counts := h.counts
    custody := h.custody.moved rfl rfl rfl (by rw [hsame])
    order := by simpa only [hdone] using h.order
    looked := h.looked
    stopped := fun hstop => hsame.trans (h.stopped hstop)
    last := hlast
    command := fun hloop => hsame.trans (hcommand hloop) }

/-- A job submitted is outstanding once. -/
theorem Accounts.submit {index : Nat} {created : Bool} {pool : Pool} {tids : List Worker}
    (h : Accounts s) (hloop : s.loop = .free) (hbusy : s.busy index = false)
    (hstop : s.pool.stop = false)
    (hsubmit : poolSubmit s.pool (s.nextJob index) created = some pool)
    (hsignal : Signalled pool.tids tids) :
    Accounts { s with
      pool := { pool with tids }
      busy := Function.update s.busy index true
      submitted := s.submitted ++ [s.nextJob index] } := by
  obtain ⟨hne, htodo, hrunning, hfinished, hstop', hcounts⟩ := poolSubmit_spec hsubmit h.counts
  have hdone : s.loop.done = [] := by rw [hloop]; rfl
  have hjobs : ({ pool with tids } : Pool).jobs =
      s.pool.todo ++ [s.nextJob index] ++ s.pool.running ++ s.pool.finished := by
    simp only [Pool.jobs, Pool.running, hsignal.running, htodo, hfinished] at hrunning ⊢
    rw [hrunning]
  have hperm : (({ pool with tids } : Pool).jobs ++ s.loop.done).Perm
      (s.nextJob index :: s.outstanding) := by
    rw [hjobs, hdone, List.append_nil, Rt.outstanding, hdone, List.append_nil, Pool.jobs]
    simp only [List.append_assoc, List.singleton_append]
    exact List.perm_middle
  -- the device is not busy, so none of its jobs is outstanding
  have hnew : index ∉ s.outstanding.map Job.index := by
    intro hmem
    rw [(h.custody.busy index).mpr hmem] at hbusy
    cases hbusy
  have hexited : .exited ∉ pool.tids := by
    intro hmem
    rw [hcounts.exited hmem] at hstop'
    rw [← hstop'] at hstop
    cases hstop
  refine {
    counts := ⟨hcounts.queued, ?_, ?_, ?_, ?_⟩
    custody := ⟨?_, ?_, ?_, ?_⟩
    order := ?_
    looked := fun _ => hsignal.looks hne hexited
    stopped := ?_
    last := ?_
    command := ?_ }
  · have hinflight := hcounts.inflight
    simp only [Pool.jobs, Pool.running, hsignal.running] at hinflight ⊢
    exact hinflight
  · have hidle := hcounts.idle
    simp only [Pool.running, hsignal.running, hsignal.length] at hidle ⊢
    exact hidle
  · rw [hsignal.length]
    exact hcounts.threads
  · exact fun hmem => hcounts.exited (hsignal.exited hmem)
  · calc (s.published ++ (({ pool with tids } : Pool).jobs ++ s.loop.done)).Perm
          (s.published ++ s.nextJob index :: s.outstanding) := hperm.append_left _
      List.Perm _ (s.nextJob index :: (s.published ++ s.outstanding)) := List.perm_middle
      List.Perm _ (s.nextJob index :: s.submitted) := h.custody.once.cons _
      List.Perm _ (s.submitted ++ [s.nextJob index]) := (List.perm_append_singleton _ _).symm
  · simp [h.custody.ids, Rt.nextJob, List.range_succ]
  · intro i
    show Function.update s.busy index true i = true ↔
      i ∈ (({ pool with tids } : Pool).jobs ++ s.loop.done).map Job.index
    rw [(hperm.map Job.index).mem_iff, List.map_cons, List.mem_cons]
    by_cases hi : i = index
    · simp [hi, Rt.nextJob]
    · rw [Function.update_of_ne hi, h.custody.busy i]
      exact ⟨Or.inr, fun hmem => hmem.resolve_left hi⟩
  · refine (hperm.map Job.index).nodup_iff.mpr ?_
    rw [List.map_cons]
    exact List.nodup_cons.mpr ⟨hnew, h.custody.apart⟩
  · simpa only [hfinished] using h.order
  · intro hstopped
    rw [← hstop'] at hstop
    exact absurd (hstopped.symm.trans hstop) (by simp)
  · intro done hlast
    exact Loop.noConfusion (hloop.symm.trans hlast)
  · intro hcommand
    exact Loop.noConfusion (hloop.symm.trans hcommand)

/-- Collecting takes what is finished. -/
theorem Accounts.collect {all : Bool} (h : Accounts s) (hloop : s.loop = .collecting all) :
    Accounts (collect s all) := by
  have hdone : s.loop.done = [] := by rw [hloop]; rfl
  unfold ReadPool.collect
  split
  · exact h.goes hdone.symm (fun _ hl => Loop.noConfusion hl) (fun hl => Loop.noConfusion hl)
  · obtain ⟨hqueued, hinflight, hidle, hthreads, hexited⟩ := h.counts
    have hleft : (takeFinished s.pool).inflight = (takeFinished s.pool).jobs.length := by
      simp only [takeFinished, Pool.jobs, Pool.running, List.length_append, List.append_nil]
        at hinflight ⊢
      push_cast at hinflight
      omega
    have hsame : (takeFinished s.pool).jobs ++ s.pool.finished = s.outstanding := by
      rw [Rt.outstanding, hdone, List.append_nil]
      simp [takeFinished, Pool.jobs, Pool.running]
    refine {
      counts := ⟨hqueued, hleft, hidle, hthreads, hexited⟩
      custody := h.custody.moved rfl rfl rfl (List.Perm.of_eq hsame)
      order := ?_
      looked := h.looked
      stopped := fun hstop => hsame.trans (h.stopped hstop)
      last := ?_
      command := fun hl => Loop.noConfusion hl }
    · have horder := h.order
      rw [hdone, List.append_nil] at horder
      simpa [Loop.done, takeFinished] using horder
    · intro done hl
      obtain ⟨rfl, hmore, -⟩ := Loop.publishing.inj hl
      have hnone : ¬ 0 < (takeFinished s.pool).inflight := by simpa using hmore
      rw [hleft] at hnone
      have hzero : (takeFinished s.pool).jobs.length = 0 := by omega
      exact List.length_eq_zero_iff.mp hzero

/-- Publishing frees the device. -/
theorem Accounts.publish {all more : Bool} {rest : List Job} (h : Accounts s)
    (hloop : s.loop = .publishing all more (job :: rest)) :
    Accounts (finishJob s all more job rest) := by
  have hout : s.outstanding = s.pool.jobs ++ job :: rest := by rw [Rt.outstanding, hloop]; rfl
  have hperm : s.outstanding.Perm (job :: (s.pool.jobs ++ rest)) := by
    rw [hout]
    exact List.perm_middle
  -- a device has one job outstanding, so publishing it leaves none
  have hapart := (hperm.map Job.index).nodup_iff.mp h.custody.apart
  rw [List.map_cons, List.nodup_cons] at hapart
  obtain ⟨hnot, hapart⟩ := hapart
  refine {
    counts := h.counts
    custody := ⟨?_, h.custody.ids, ?_, hapart⟩
    order := ?_
    looked := h.looked
    stopped := ?_
    last := ?_
    command := fun hl => Loop.noConfusion hl }
  · calc (s.published ++ [job] ++ (s.pool.jobs ++ rest)).Perm
          (s.published ++ (job :: (s.pool.jobs ++ rest))) := by simp
      List.Perm _ (s.published ++ s.outstanding) := hperm.symm.append_left _
      List.Perm _ s.submitted := h.custody.once
  · intro i
    show Function.update s.busy job.index false i = true ↔ i ∈ (s.pool.jobs ++ rest).map Job.index
    by_cases hi : i = job.index
    · subst hi
      simpa using hnot
    · rw [Function.update_of_ne hi, h.custody.busy i, (hperm.map Job.index).mem_iff, List.map_cons,
        List.mem_cons]
      exact ⟨fun hmem => hmem.resolve_left hi, Or.inr⟩
  · have horder := h.order
    rw [hloop] at horder
    simpa [finishJob, Loop.done] using horder
  · intro hstop
    have hnil := h.stopped hstop
    rw [hout] at hnil
    simp at hnil
  · intro done hl
    obtain ⟨rfl, rfl, -⟩ := Loop.publishing.inj hl
    exact h.last _ hloop

/-- What a worker does to a job leaves it outstanding. -/
theorem Accounts.worked {s s' : Rt} (h : Accounts s) (hcounts : s'.pool.Counts)
    (hjobs : s'.pool.jobs.Perm s.pool.jobs) (hstop : s'.pool.stop = s.pool.stop)
    (hbusy : s'.busy = s.busy) (hsubmitted : s'.submitted = s.submitted)
    (hpublished : s'.published = s.published)
    (hloop : s'.loop = s.loop ∨ s'.loop = s.loop.broadcast)
    (horder : s'.returned = s.published ++ s.loop.done ++ s'.pool.finished)
    (hlooked : s'.pool.todo ≠ [] → ∃ worker ∈ s'.pool.tids, worker.Looks) : Accounts s' := by
  have hdone : s'.loop.done = s.loop.done := by
    rcases hloop with hl | hl
    · rw [hl]
    · rw [hl]
      cases s.loop <;> rfl
  have hout : s'.outstanding.Perm s.outstanding := by
    rw [Rt.outstanding, Rt.outstanding, hdone]
    exact hjobs.append_right _
  -- a worker at most wakes the loop
  have hwhere : ∀ l, s'.loop = l → (∀ all, l ≠ .collecting all) → s.loop = l := by
    intro l hl hne
    rcases hloop with hsame | hsame
    · exact hsame.symm.trans hl
    · rw [hsame] at hl
      cases hs : s.loop with
      | waiting => exact absurd (hl.symm.trans (by rw [hs]; rfl)) (hne true)
      | _ => rw [hs] at hl; exact hl
  exact {
    counts := hcounts
    custody := h.custody.moved hsubmitted hpublished hbusy hout
    order := by rw [hpublished, hdone]; exact horder
    looked := hlooked
    stopped := fun hs => by
      have hnil := h.stopped (hstop ▸ hs)
      rw [hnil] at hout
      exact hout.eq_nil
    last := fun done hl => by
      have hnil := h.last done (hwhere _ hl (by simp))
      rw [hnil] at hjobs
      exact hjobs.eq_nil
    command := fun hl => by
      have hnil := h.command (hwhere _ hl (by simp))
      rw [hnil] at hout
      exact hout.eq_nil }

theorem Accounts.todo_of_stop (h : Accounts s) (hstop : s.pool.stop = true) : s.pool.todo = [] := by
  have hnil := h.stopped hstop
  simp only [Rt.outstanding, Pool.jobs, List.append_eq_nil_iff] at hnil
  exact hnil.1.1.1

theorem Accounts.turn (h : Accounts s) (hw : s.pool.tids[w]? = some .awake) :
    Accounts { s with pool := look s.pool w } := by
  have hjobs : (look s.pool w).jobs.Perm s.pool.jobs := by simpa using look_jobs hw
  obtain ⟨hqueued, hinflight, hidle, hthreads, hexited⟩ := h.counts
  refine h.worked ?_ hjobs (look_stop _ _) rfl rfl rfl (Or.inl rfl) ?_
    (look_looked hw h.todo_of_stop)
  · exact look_counts hw hqueued (by simpa using hinflight) (by simpa using hidle) hthreads hexited
  · simpa using h.order

theorem Accounts.giveBack (h : Accounts s) (hw : s.pool.tids[w]? = some (.running job)) :
    Accounts { s with
      pool := look (ReadPool.giveBack s.pool job) w
      loop := s.loop.broadcast
      returned := s.returned ++ [job] } := by
  have hgiven : (ReadPool.giveBack s.pool job).jobs = s.pool.jobs ++ [job] := by
    simp [Pool.jobs, ReadPool.giveBack, Pool.running]
  have hjobs : (look (ReadPool.giveBack s.pool job) w).jobs.Perm s.pool.jobs := by
    have hperm := look_jobs (p := ReadPool.giveBack s.pool job) hw
    rw [hgiven, jobs_running] at hperm
    exact (List.perm_append_right_iff _).mp hperm
  obtain ⟨hqueued, hinflight, hidle, hthreads, hexited⟩ := h.counts
  refine h.worked ?_ hjobs (look_stop _ _) rfl rfl rfl (Or.inr rfl) ?_
    (look_looked hw h.todo_of_stop)
  · refine look_counts hw hqueued ?_ ?_ hthreads hexited
    · rw [hgiven]
      simp [ReadPool.giveBack, hinflight]
    · simp only [ReadPool.giveBack, Pool.running, jobs_running, List.length_singleton] at hidle ⊢
      push_cast
      omega
  · simp [ReadPool.giveBack, h.order]

/-- Freeing the pool wakes all workers. -/
theorem Accounts.free (h : Accounts s) (hloop : s.loop = .command) :
    Accounts { s with pool := { s.pool with stop := true, tids := wakeAll s.pool.tids } } := by
  have hrunning : (wakeAll s.pool.tids).flatMap Worker.jobs = s.pool.tids.flatMap Worker.jobs := by
    rw [wakeAll, List.flatMap_map]
    refine List.flatMap_congr fun w _ => ?_
    split
    · next hparked => rw [hparked]; rfl
    · rfl
  have hsame : ({ s.pool with stop := true, tids := wakeAll s.pool.tids } : Pool).jobs =
      s.pool.jobs := by
    simp only [Pool.jobs, Pool.running, hrunning]
  have hnil := h.command hloop
  obtain ⟨hqueued, hinflight, hidle, hthreads, -⟩ := h.counts
  refine {
    counts := ⟨hqueued, by rw [hsame]; exact hinflight, ?_, ?_, fun _ => rfl⟩
    custody := h.custody.moved rfl rfl rfl (by rw [Rt.outstanding, hsame, Rt.outstanding])
    order := h.order
    looked := ?_
    stopped := fun _ => by rw [Rt.outstanding, hsame]; exact hnil
    last := fun done hl => Loop.noConfusion (hloop.symm.trans hl)
    command := fun _ => by rw [Rt.outstanding, hsame]; exact hnil }
  · simp only [Pool.running, hrunning] at hidle ⊢
    simpa [wakeAll] using hidle
  · simpa [wakeAll] using hthreads
  · intro hne
    simp only [Rt.outstanding, Pool.jobs, List.append_eq_nil_iff] at hnil
    exact absurd hnil.1.1.1 hne

/-- A worker may wake without a signal. -/
theorem Accounts.spuriousWork (h : Accounts s) (hw : s.pool.tids[w]? = some .parked) :
    Accounts { s with pool := { s.pool with tids := s.pool.tids.set w .awake } } := by
  have hlt := (List.getElem?_eq_some_iff.mp hw).1
  have hperm : ((s.pool.tids.set w .awake).flatMap Worker.jobs).Perm s.pool.running := by
    have := running_set .awake [] [] hw (by simp)
    simpa [Pool.running] using this
  have hjobs : ({ s.pool with tids := s.pool.tids.set w .awake } : Pool).jobs.Perm s.pool.jobs :=
    (hperm.append_left _).append_right _
  obtain ⟨hqueued, hinflight, hidle, hthreads, hexited⟩ := h.counts
  refine h.worked ⟨hqueued, ?_, ?_, ?_, ?_⟩ hjobs rfl rfl rfl rfl (Or.inl rfl) h.order ?_
  · rw [hjobs.length_eq]
    exact hinflight
  · simp only [Pool.running] at hidle hperm ⊢
    rw [hperm.length_eq, List.length_set]
    exact hidle
  · simpa using hthreads
  · intro hmem
    rcases List.mem_or_eq_of_mem_set hmem with hmem | hmem
    · exact hexited hmem
    · cases hmem
  · exact fun _ => ⟨.awake, List.mem_set hlt _, Or.inl rfl⟩

/-- Every step of any thread keeps the accounts. -/
theorem Accounts.step {s s' : Rt} (h : Accounts s) (hstep : Step s s') : Accounts s' := by
  cases hstep with
  | submit hloop hbusy hstop hsubmit hsignal => exact h.submit hloop hbusy hstop hsubmit hsignal
  | enter all hloop =>
    exact h.goes (by rw [hloop]; rfl) (fun _ hl => Loop.noConfusion hl)
      (fun hl => Loop.noConfusion hl)
  | collect hloop => exact h.collect hloop
  | spuriousDone hloop =>
    exact h.goes (by rw [hloop]; rfl) (fun _ hl => Loop.noConfusion hl)
      (fun hl => Loop.noConfusion hl)
  | publish hloop => exact h.publish hloop
  | again hloop =>
    exact h.goes (by rw [hloop]; rfl) (fun _ hl => Loop.noConfusion hl)
      (fun hl => Loop.noConfusion hl)
  | @collected all hloop =>
    refine h.goes (by rw [hloop]; cases all <;> rfl) (fun done hl => ?_) (fun hl => ?_)
    · cases all <;> cases hl
    · cases all with
      | false => cases hl
      | true => rw [Rt.outstanding, h.last [] hloop, hloop]; rfl
  | commandDone hloop =>
    exact h.goes (by rw [hloop]; rfl) (fun _ hl => Loop.noConfusion hl)
      (fun hl => Loop.noConfusion hl)
  | free hloop => exact h.free hloop
  | turn hw => exact h.turn hw
  | giveBack hw => exact h.giveBack hw
  | spuriousWork hw => exact h.spuriousWork hw

theorem accounts_reachable {max : Nat} (h : Relation.ReflTransGen Step (Rt.init max) s) :
    Accounts s := by
  induction h with
  | refl => exact accounts_init max
  | tail _ hstep ih => exact ih.step hstep

/-! ## The result -/

/-- In a state with right accounts each job is handed back once, to its own device. -/
theorem Accounts.right (h : Accounts s) : Right s where
  once := by
    refine ⟨List.Nodup.of_map Job.id ?_, h.custody.once⟩
    rw [h.custody.ids]
    exact List.nodup_range
  order := h.order
  busy i := by
    rw [h.custody.busy i, List.mem_map]
  apart := h.custody.apart
  collected hloop := by
    have hnil := h.command hloop
    refine ⟨?_, hnil, ?_⟩
    · rw [h.counts.inflight, (List.append_eq_nil_iff.mp hnil).1]
      rfl
    · have honce := h.custody.once
      rwa [hnil, List.append_nil] at honce
  counters := by
    obtain ⟨hqueued, hinflight, hidle, hthreads, -⟩ := h.counts
    have hle := running_length_le s.pool.tids
    simp only [Pool.running] at hidle
    refine ⟨by omega, by omega, by omega, hthreads⟩
  taken job rest htodo := by
    have hstop : s.pool.stop = false := by
      rcases Bool.eq_false_or_eq_true s.pool.stop with hs | hs
      · exact absurd (h.todo_of_stop hs) (by simp [htodo])
      · exact hs
    refine ⟨?_, fun w worker hw hlooks => turn_takes hw hlooks hstop htodo⟩
    obtain ⟨worker, hmem, hlooks⟩ := h.looked (by simp [htodo])
    obtain ⟨w, hw⟩ := List.getElem?_of_mem hmem
    exact ⟨w, worker, hw, hlooks⟩

/-- **The read pool**: in every interleaving of submits, workers, collecting and commands, every job
that is submitted is handed back once, in the order in which the workers finish, no device has two
jobs, a `wait_idle` leaves none in flight, and a job that waits is taken. -/
theorem handed_back (max : Nat) (s : Rt) (h : Relation.ReflTransGen Step (Rt.init max) s) :
    Right s :=
  (accounts_reachable h).right

/-- A device is read while a command waits for it. -/
theorem handed_back_waiting : ∃ s, Relation.ReflTransGen Step (Rt.init 2) s ∧ Right s ∧
    s.loop = .command ∧ s.published = [{ id := 0, index := 3 }] := by
  have hsignal : Signalled [.awake] [.awake] := ⟨.cons (Or.inl rfl) .nil, by simp⟩
  have hrun : Relation.ReflTransGen Step (Rt.init 2) _ :=
    ((((((((Relation.ReflTransGen.refl.tail
      (@Step.submit _ 3 true _ _ rfl rfl rfl rfl hsignal)).tail
      (.turn (w := 0) rfl)).tail
      (.enter true rfl)).tail
      (.collect rfl)).tail
      (.giveBack (w := 0) rfl)).tail
      (.collect rfl)).tail
      (.publish rfl)).tail
      (.collected rfl))
  exact ⟨_, hrun, handed_back 2 _ hrun, rfl, rfl⟩

end TedgeDot.ReadPool
