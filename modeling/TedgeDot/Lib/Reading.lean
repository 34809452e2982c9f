import Mathlib
import TedgeDot.Lib.Traced

/-!
# Readers of bytes

A reading takes values from a buffer, one after the other, and may fail on the way. What it reads is
given by languages: for each value the byte strings that it takes for it (`reads`), and the byte
strings that lead to a panic. A chain of readings reads the concatenations (`Meets.bind`).

A reading also tells how many rounds its loops begin. A loop that stops after a round that took
nothing begins at most one round more than there are bytes left (`Loop.Bounded`).
-/

namespace TedgeDot

/-- What ends a reading early. -/
inductive Fault (ε : Type) where
  | error (e : ε)
  /-- An index, a slice, a shift or an operation on integers is out of range. -/
  | panic
  /-- A call is nested deeper than there are frames. -/
  | stack
deriving DecidableEq

/-- A loop that was run: the rounds it began, and the bytes that were left before it. -/
structure Loop where
  rounds : Nat
  left : Nat

def Loop.Bounded (l : Loop) : Prop := l.rounds ≤ l.left + 1

/-- A reading, at a position of a buffer. -/
def Reading (ε α : Type) : Type := List UInt8 → Nat → Traced Loop (Fault ε) (α × Nat)

namespace Reading

variable {ε α β : Type}

instance instMonad : Monad (Reading ε) where
  pure a := fun _ pos => pure (a, pos)
  bind x f := fun buf pos => x buf pos >>= fun r => f r.1 buf r.2

def fault (e : Fault ε) : Reading ε α := fun _ _ => Traced.fail e

def throw (e : ε) : Reading ε α := fault (.error e)

/-- What does not depend on the buffer. -/
def lift : Except (Fault ε) α → Reading ε α
  | .ok a => pure a
  | .error e => fault e

def ofExcept : Except ε α → Reading ε α
  | .ok a => pure a
  | .error e => throw e

def position : Reading ε Nat := fun _ pos => pure (pos, pos)

def drop (x : Reading ε α) : Reading ε Unit := x >>= fun _ => pure ()

/-- `items[i]`. -/
def index (items : List α) (i : Nat) : Reading ε α :=
  match items[i]? with
  | some item => pure item
  | none => fault .panic

/-- `&items[..n]`. -/
def upTo (items : List α) (n : Nat) : Reading ε (List α) :=
  if n ≤ items.length then pure (items.take n) else fault .panic

/-- `&buf[pos..end]`, and on to the end. -/
def slice (stop : Nat) : Reading ε (List UInt8) := fun buf pos =>
  if pos ≤ stop ∧ stop ≤ buf.length then pure ((buf.drop pos).take (stop - pos), stop)
  else Traced.fail .panic

/-- The next bytes, or the error where there are fewer. -/
def take (e : ε) (n : Nat) : Reading ε (List UInt8) := fun buf pos =>
  if pos + n ≤ buf.length then slice (pos + n) buf pos else throw e buf pos

/-- An array of bytes, copied from the next ones. -/
def array (e : ε) (n : Nat) : Reading ε (List UInt8) := do
  let bytes ← take e n
  if bytes.length = n then pure bytes else fault .panic

def byte (e : ε) : Reading ε UInt8 := do
  let bytes ← take e 1
  index bytes 0

/-- `for _ in 0..count`, where a round tells whether to go on; with the rounds that were begun. -/
def repeated (round : Reading ε Bool) :
    Nat → List UInt8 → Nat → Nat × Traced Loop (Fault ε) (Unit × Nat)
  | 0, _, pos => (0, pure ((), pos))
  | count + 1, buf, pos =>
    match (round buf pos).result with
    | .error e => (1, { events := (round buf pos).events, result := .error e })
    | .ok (false, pos') => (1, { events := (round buf pos).events, result := .ok ((), pos') })
    | .ok (true, pos') =>
      let rest := repeated round count buf pos'
      (rest.1 + 1, { events := (round buf pos).events ++ rest.2.events, result := rest.2.result })

def loop (count : Nat) (round : Reading ε Bool) : Reading ε Unit := fun buf pos =>
  let run := repeated round count buf pos
  { events := { rounds := run.1, left := buf.length - pos } :: run.2.events, result := run.2.result }

/-! ## Languages -/

def choice (c : Prop) [Decidable c] (L M : Language UInt8) : Language UInt8 :=
  {w | if c then w ∈ L else w ∈ M}

variable {c : Prop} {L : Language UInt8}

theorem choice_pos [Decidable c] {L M : Language UInt8} (hc : c) : choice c L M = L := by
  ext w
  exact iff_of_eq (if_pos hc)

theorem choice_neg [Decidable c] {L M : Language UInt8} (hc : ¬ c) : choice c L M = M := by
  ext w
  exact iff_of_eq (if_neg hc)

theorem choice_self [Decidable c] : choice c L L = L := by
  by_cases hc : c
  · exact choice_pos hc
  · exact choice_neg hc

def only (c : Prop) (L : Language UInt8) : Language UInt8 := {w | c ∧ w ∈ L}

theorem only_pos (hc : c) : only c L = L := by
  ext w
  exact ⟨fun hw => hw.2, fun hw => ⟨hc, hw⟩⟩

theorem only_neg (hc : ¬ c) : only c L = 0 := by
  ext w
  exact ⟨fun hw => absurd hw.1 hc, fun hw => absurd hw (Language.notMem_zero w)⟩

theorem mul_only {L M : Language UInt8} : L * only c M = only c (L * M) := by
  by_cases hc : c
  · rw [only_pos hc, only_pos hc]
  · rw [only_neg hc, only_neg hc, mul_zero]

theorem iSup_only_some {a : α} {L : α → Language UInt8} :
    ⨆ b, only (some a = some b) (L b) = L a := by
  ext w
  rw [Language.mem_iSup]
  constructor
  · rintro ⟨b, heq, hw⟩
    obtain rfl := Option.some.inj heq
    exact hw
  · intro hw
    exact ⟨a, rfl, hw⟩

theorem iSup_only_none {L : α → Language UInt8} :
    ⨆ b, only ((none : Option α) = some b) (L b) = 0 := by
  ext w
  rw [Language.mem_iSup]
  exact ⟨fun ⟨_, heq, _⟩ => (nomatch heq), fun hw => absurd hw (Language.notMem_zero w)⟩

theorem iSup_only_value {a : α} : ⨆ b, only (b = a) L = L := by
  ext w
  rw [Language.mem_iSup]
  exact ⟨fun ⟨_, _, hw⟩ => hw, fun hw => ⟨a, rfl, hw⟩⟩

theorem iSup_zero : ⨆ _ : α, (0 : Language UInt8) = 0 := by
  ext w
  rw [Language.mem_iSup]
  exact ⟨fun ⟨_, hw⟩ => hw, fun hw => absurd hw (Language.notMem_zero w)⟩

theorem only_zero : only c 0 = 0 := by
  ext w
  exact ⟨fun hw => hw.2, fun hw => absurd hw (Language.notMem_zero w)⟩

theorem iSup_only_mul {a : α} {G : α → Language UInt8} : ⨆ b, only (b = a) L * G b = L * G a := by
  ext w
  rw [Language.mem_iSup]
  constructor
  · rintro ⟨b, hw⟩
    obtain ⟨u, ⟨rfl, hu⟩, v, hv, rfl⟩ := Language.mem_mul.mp hw
    exact Language.append_mem_mul hu hv
  · intro hw
    refine ⟨a, ?_⟩
    rwa [only_pos rfl]

theorem only_only {c d : Prop} : only c (only d L) = only (c ∧ d) L := by
  ext w
  exact and_assoc.symm

theorem only_congr {c d : Prop} (h : c ↔ d) : only c L = only d L := by
  ext w
  exact and_congr_left' h

def fixed (n : Nat) : Language UInt8 := {w | w.length = n}

def ofLength (n : Nat) (bytes : List UInt8) : Language UInt8 := {w | w = bytes ∧ w.length = n}

/-- The values of a reading under another name. -/
def mapped (f : α → β) (G : α → Language UInt8) : β → Language UInt8 :=
  fun b => {w | ∃ a, f a = b ∧ w ∈ G a}

def pair {γ : Type} (f : α → β → γ) (G : α → Language UInt8) (H : β → Language UInt8) :
    γ → Language UInt8 :=
  fun c => {w | ∃ a b, f a b = c ∧ w ∈ G a * H b}

/-! ## What is read -/

/-- A reading takes a byte string of `reads a` for `a`, and panics after one of `panics`. Its calls
are within the frames, and its loops bounded. -/
structure Meets (x : Reading ε α) (reads : α → Language UInt8) (panics : Language UInt8) :
    Prop where
  ok_iff {buf pos} (h : pos ≤ buf.length) (a pos') : (x buf pos).result = .ok (a, pos') ↔
    ∃ w ∈ reads a, w <+: buf.drop pos ∧ pos' = pos + w.length
  panic_iff {buf pos} (h : pos ≤ buf.length) : (x buf pos).result = .error .panic ↔
    ∃ w ∈ panics, w <+: buf.drop pos
  frames {buf pos} (h : pos ≤ buf.length) : (x buf pos).result ≠ .error .stack
  bounded {buf pos} (h : pos ≤ buf.length) : ∀ l ∈ (x buf pos).events, l.Bounded

theorem bind_eq (x : Reading ε α) (f : α → Reading ε β) (buf : List UInt8) (pos : Nat) :
    (x >>= f) buf pos = x buf pos >>= fun r => f r.1 buf r.2 := rfl

theorem pure_bind (a : α) (f : α → Reading ε β) : (Pure.pure a >>= f : Reading ε β) = f a := by
  funext buf pos
  rfl

theorem fault_bind (e : Fault ε) (f : α → Reading ε β) : (fault e >>= f) = fault e := by
  funext buf pos
  rfl

theorem ofExcept_ok (a : α) : (Reading.ofExcept (.ok a) : Reading ε α) = Pure.pure a := rfl

theorem ofExcept_error (e : ε) : (Reading.ofExcept (.error e) : Reading ε α) = throw e := rfl

theorem throw_bind (e : ε) (f : α → Reading ε β) : (throw e >>= f) = throw e := fault_bind _ f

theorem result_bind {x : Reading ε α} {f : α → Reading ε β} {buf : List UInt8} {pos pos' : Nat}
    {a : α} (hx : (x buf pos).result = .ok (a, pos')) :
    ((x >>= f) buf pos).result = (f a buf pos').result := by
  rw [bind_eq, Traced.result_bind, hx]
  rfl

theorem result_bind_error {x : Reading ε α} {f : α → Reading ε β} {buf : List UInt8} {pos : Nat}
    {e : Fault ε} (hx : (x buf pos).result = .error e) :
    ((x >>= f) buf pos).result = .error e := by
  rw [bind_eq, Traced.result_bind, hx]
  rfl

theorem prefix_of_append {u v w : List UInt8} : u ++ v <+: w ↔ u <+: w ∧ v <+: w.drop u.length := by
  constructor
  · intro h
    obtain ⟨t, rfl⟩ := h
    rw [List.append_assoc, List.drop_left]
    exact ⟨List.prefix_append u _, List.prefix_append v t⟩
  · rintro ⟨⟨t, rfl⟩, h⟩
    rw [List.drop_left] at h
    exact (List.prefix_append_right_inj u).mpr h

theorem prefix_length_le {buf w : List UInt8} {pos : Nat} (h : w <+: buf.drop pos)
    (hpos : pos ≤ buf.length) : pos + w.length ≤ buf.length := by
  have hlen := h.length_le
  rw [List.length_drop] at hlen
  omega

namespace Meets

variable {x : Reading ε α} {G G' : α → Language UInt8} {P P' : Language UInt8}

theorem le_length (hx : Meets x G P) {buf pos a pos'} (h : pos ≤ buf.length)
    (hok : (x buf pos).result = .ok (a, pos')) : pos ≤ pos' ∧ pos' ≤ buf.length := by
  obtain ⟨w, -, hstart, rfl⟩ := (hx.ok_iff h a pos').mp hok
  exact ⟨by omega, prefix_length_le hstart h⟩

/-- What is read where a byte string of a value comes next. -/
theorem result (hx : Meets x G P) {buf pos a w} (h : pos ≤ buf.length) (hw : w ∈ G a)
    (hstart : w <+: buf.drop pos) : (x buf pos).result = .ok (a, pos + w.length) :=
  (hx.ok_iff h a _).mpr ⟨w, hw, hstart, rfl⟩

theorem congr (hx : Meets x G P) (hG : ∀ a w, w ∈ G a ↔ w ∈ G' a) (hP : ∀ w, w ∈ P ↔ w ∈ P') :
    Meets x G' P' where
  ok_iff h a pos' := by
    rw [hx.ok_iff h]
    simp only [hG]
  panic_iff h := by
    rw [hx.panic_iff h]
    simp only [hP]
  frames h := hx.frames h
  bounded h := hx.bounded h

theorem pure (a : α) : Meets (Pure.pure a : Reading ε α) (fun b => only (b = a) 1) 0 where
  ok_iff {buf pos} h b pos' := by
    show Except.ok (a, pos) = Except.ok (b, pos') ↔ _
    constructor
    · intro heq
      cases heq
      exact ⟨[], ⟨rfl, rfl⟩, List.nil_prefix, rfl⟩
    · rintro ⟨w, ⟨rfl, rfl⟩, -, rfl⟩
      rfl
  panic_iff h := by
    constructor
    · intro heq
      cases heq
    · rintro ⟨w, hw, -⟩
      cases hw
  frames h heq := by cases heq
  bounded h l hl := by cases hl

theorem throw (e : ε) : Meets (Reading.throw e : Reading ε α) (fun _ => 0) 0 where
  ok_iff h a pos' := by
    constructor
    · intro heq
      cases heq
    · rintro ⟨w, hw, -⟩
      cases hw
  panic_iff h := by
    constructor
    · intro heq
      cases heq
    · rintro ⟨w, hw, -⟩
      cases hw
  frames h heq := by cases heq
  bounded h l hl := by cases hl

theorem panic : Meets (Reading.fault .panic : Reading ε α) (fun _ => 0) 1 where
  ok_iff h a pos' := by
    constructor
    · intro heq
      cases heq
    · rintro ⟨w, hw, -⟩
      cases hw
  panic_iff h := by
    constructor
    · intro _
      exact ⟨[], rfl, List.nil_prefix⟩
    · intro _
      rfl
  frames h heq := by cases heq
  bounded h l hl := by cases hl

/-- A chain reads what its steps read one after the other, and panics where a step does. -/
theorem bind {f : α → Reading ε β} {H : α → β → Language UInt8} {Q : α → Language UInt8}
    (hx : Meets x G P) (hf : ∀ a, Meets (f a) (H a) (Q a)) :
    Meets (x >>= f) (fun c => ⨆ a, G a * H a c) (P + ⨆ a, G a * Q a) where
  -- what both steps read is what the first reads and then the second
  ok_iff {buf pos} h c pos' := by
    rw [bind_eq, Traced.result_bind]
    constructor
    · intro hok
      cases hres : (x buf pos).result with
      | error e =>
        rw [hres] at hok
        cases hok
      | ok r =>
        obtain ⟨a, p⟩ := r
        rw [hres] at hok
        obtain ⟨u, hu, hustart, rfl⟩ := (hx.ok_iff h a p).mp hres
        obtain ⟨v, hv, hvprefix, rfl⟩ :=
          ((hf a).ok_iff (prefix_length_le hustart h) c pos').mp hok
        refine ⟨u ++ v, Language.mem_iSup.mpr ⟨a, Language.append_mem_mul hu hv⟩, ?_, ?_⟩
        · rw [prefix_of_append, List.drop_drop]
          exact ⟨hustart, hvprefix⟩
        · rw [List.length_append]
          omega
    · rintro ⟨w, hw, hstart, rfl⟩
      obtain ⟨a, hw⟩ := Language.mem_iSup.mp hw
      obtain ⟨u, hu, v, hv, rfl⟩ := Language.mem_mul.mp hw
      rw [prefix_of_append, List.drop_drop] at hstart
      have hres := (hx.ok_iff h a _).mpr ⟨u, hu, hstart.1, rfl⟩
      rw [hres]
      apply ((hf a).ok_iff (prefix_length_le hstart.1 h) c _).mpr
      refine ⟨v, hv, hstart.2, ?_⟩
      rw [List.length_append]
      omega
  -- the first step panics, or the second after what the first read
  panic_iff {buf pos} h := by
    rw [bind_eq, Traced.result_bind]
    constructor
    · intro hpanic
      cases hres : (x buf pos).result with
      | error e =>
        rw [hres] at hpanic
        cases hpanic
        obtain ⟨w, hw, hstart⟩ := (hx.panic_iff h).mp hres
        exact ⟨w, (Language.mem_add _ _ _).mpr (.inl hw), hstart⟩
      | ok r =>
        obtain ⟨a, p⟩ := r
        rw [hres] at hpanic
        obtain ⟨u, hu, hustart, rfl⟩ := (hx.ok_iff h a p).mp hres
        obtain ⟨v, hv, hvprefix⟩ :=
          ((hf a).panic_iff (prefix_length_le hustart h)).mp hpanic
        refine ⟨u ++ v, (Language.mem_add _ _ _).mpr (.inr ?_), ?_⟩
        · exact Language.mem_iSup.mpr ⟨a, Language.append_mem_mul hu hv⟩
        · rw [prefix_of_append, List.drop_drop]
          exact ⟨hustart, hvprefix⟩
    · rintro ⟨w, hw, hstart⟩
      rcases (Language.mem_add _ _ _).mp hw with hw | hw
      · rw [(hx.panic_iff h).mpr ⟨w, hw, hstart⟩]
        rfl
      · obtain ⟨a, hw⟩ := Language.mem_iSup.mp hw
        obtain ⟨u, hu, v, hv, rfl⟩ := Language.mem_mul.mp hw
        rw [prefix_of_append, List.drop_drop] at hstart
        have hres := (hx.ok_iff h a _).mpr ⟨u, hu, hstart.1, rfl⟩
        rw [hres]
        exact ((hf a).panic_iff (prefix_length_le hstart.1 h)).mpr ⟨v, hv, hstart.2⟩
  frames {buf pos} h hstack := by
    rw [bind_eq, Traced.result_bind] at hstack
    cases hres : (x buf pos).result with
    | error e =>
      rw [hres] at hstack
      cases hstack
      exact hx.frames h hres
    | ok r =>
      rw [hres] at hstack
      exact (hf r.1).frames (hx.le_length h hres).2 hstack
  bounded {buf pos} h l hl := by
    rw [bind_eq] at hl
    rcases Traced.mem_events_bind.mp hl with hl | ⟨r, hres, hl⟩
    · exact hx.bounded h l hl
    · exact (hf r.1).bounded (hx.le_length h hres).2 l hl

end Meets

abbrev Reads (x : Reading ε α) (reads : α → Language UInt8) : Prop := Meets x reads 0

theorem Reads.error {x : Reading ε α} {G : α → Language UInt8} (hx : Reads x G)
    (hG : ∀ a, G a = 0) {buf : List UInt8} {pos : Nat} (h : pos ≤ buf.length) :
    ∃ e, (x buf pos).result = .error (.error e) := by
  cases hres : (x buf pos).result with
  | ok r =>
    obtain ⟨w, hw, -⟩ := (hx.ok_iff h r.1 r.2).mp hres
    rw [hG] at hw
    exact absurd hw (Language.notMem_zero w)
  | error e =>
    cases e with
    | error e => exact ⟨e, rfl⟩
    | panic =>
      obtain ⟨w, hw, -⟩ := (hx.panic_iff h).mp hres
      exact absurd hw (Language.notMem_zero w)
    | stack => exact absurd hres (hx.frames h)

theorem Reads.value (a : α) : Reads (Pure.pure a : Reading ε α) (fun b => only (b = a) 1) :=
  Meets.pure a

theorem Reads.failure (e : ε) : Reads (Reading.throw e : Reading ε α) (fun _ => 0) := Meets.throw e

theorem Reads.of_eq {x : Reading ε α} {G G' : α → Language UInt8} (hx : Reads x G)
    (h : ∀ a, G a = G' a) : Reads x G' := by
  obtain rfl : G = G' := funext h
  exact hx

/-! ## Chains -/

section Chains

variable {x : Reading ε Unit} {y : Reading ε β} {L P Q : Language UInt8} {H : β → Language UInt8}

theorem mem_iSup_unit {f : Unit → Language UInt8} {w : List UInt8} : w ∈ ⨆ a, f a ↔ w ∈ f () := by
  rw [Language.mem_iSup]
  exact ⟨fun ⟨_, h⟩ => h, fun h => ⟨(), h⟩⟩

theorem Meets.seq (hx : Meets x (fun _ => L) P) (hy : Meets y H Q) :
    Meets (x >>= fun _ => y) (fun c => L * H c) (P + L * Q) := by
  apply (hx.bind fun _ => hy).congr
  · intro c w
    exact mem_iSup_unit
  · intro w
    rw [Language.mem_add, Language.mem_add, mem_iSup_unit]

theorem Reads.seq (hx : Reads x (fun _ => L)) (hy : Reads y H) :
    Reads (x >>= fun _ => y) (fun c => L * H c) := by
  apply (Meets.seq hx hy).congr (fun _ _ => Iff.rfl)
  intro w
  rw [mul_zero, add_zero]

theorem Reads.bind {x : Reading ε α} {G : α → Language UInt8} {f : α → Reading ε β}
    {F : α → β → Language UInt8} (hx : Reads x G) (hf : ∀ a, Reads (f a) (F a)) :
    Reads (x >>= f) (fun c => ⨆ a, G a * F a c) := by
  apply (Meets.bind hx hf).congr (fun _ _ => Iff.rfl)
  intro w
  simp [Language.mem_iSup]

theorem Meets.of_eq {x : Reading ε α} {G G' : α → Language UInt8} {P P' : Language UInt8}
    (hx : Meets x G P) (hG : ∀ a, G a = G' a) (hP : P = P') : Meets x G' P' := by
  obtain rfl : G = G' := funext hG
  exact hP ▸ hx

theorem Meets.ite {x y : Reading ε α} {F G : α → Language UInt8} {c : Prop} [Decidable c]
    (hx : c → Meets x F P) (hy : ¬ c → Meets y G Q) :
    Meets (if c then x else y) (fun a => choice c (F a) (G a)) (choice c P Q) := by
  by_cases hc : c
  · rw [if_pos hc, choice_pos hc]
    apply (hx hc).congr
    · intro a w
      rw [choice_pos hc]
    · intro w
      exact Iff.rfl
  · rw [if_neg hc, choice_neg hc]
    apply (hy hc).congr
    · intro a w
      rw [choice_neg hc]
    · intro w
      exact Iff.rfl

theorem Reads.ite {x y : Reading ε α} {F G : α → Language UInt8} {c : Prop} [Decidable c]
    (hx : c → Reads x F) (hy : ¬ c → Reads y G) :
    Reads (if c then x else y) (fun a => choice c (F a) (G a)) := by
  by_cases hc : c
  · simp only [if_pos hc, choice_pos hc]
    exact hx hc
  · simp only [if_neg hc, choice_neg hc]
    exact hy hc

theorem ite_seq {c : Prop} [Decidable c] (x : Reading ε Unit) (y : Reading ε β) :
    (if c then x >>= fun _ => y else y) = ((if c then x else pure ()) >>= fun _ => y) := by
  by_cases hc : c
  · rw [if_pos hc, if_pos hc]
  · rw [if_neg hc, if_neg hc, pure_bind]

theorem Reads.done : Reads (pure () : Reading ε Unit) (fun _ => 1) := by
  apply (Meets.pure ()).congr
  · intro a w
    exact ⟨fun h => h.2, fun h => ⟨rfl, h⟩⟩
  · intro w
    exact Iff.rfl

end Chains

variable {x : Reading ε α} {G : α → Language UInt8}

theorem Reads.map (hx : Reads x G) (f : α → β) :
    Reads (x >>= fun a => pure (f a)) (mapped f G) := by
  apply (hx.bind fun a => Meets.pure (f a)).congr
  · intro b w
    rw [Language.mem_iSup]
    constructor
    · rintro ⟨a, hw⟩
      obtain ⟨u, hu, v, ⟨rfl, rfl⟩, rfl⟩ := Language.mem_mul.mp hw
      rw [List.append_nil]
      exact ⟨a, rfl, hu⟩
    · rintro ⟨a, rfl, hw⟩
      exact ⟨a, Language.mem_mul.mpr ⟨w, hw, [], ⟨rfl, rfl⟩, List.append_nil w⟩⟩
  · intro w
    exact Iff.rfl

theorem Reads.pair {γ : Type} {y : Reading ε β} {H : β → Language UInt8} (hx : Reads x G)
    (hy : Reads y H) (f : α → β → γ) :
    Reads (x >>= fun a => y >>= fun b => pure (f a b)) (pair f G H) := by
  apply (hx.bind fun a => hy.map (f a)).congr
  · intro c w
    rw [Language.mem_iSup]
    constructor
    · rintro ⟨a, hw⟩
      obtain ⟨u, hu, v, ⟨b, rfl, hv⟩, rfl⟩ := Language.mem_mul.mp hw
      exact ⟨a, b, rfl, Language.append_mem_mul hu hv⟩
    · rintro ⟨a, b, rfl, hw⟩
      obtain ⟨u, hu, v, hv, rfl⟩ := Language.mem_mul.mp hw
      exact ⟨a, Language.append_mem_mul hu ⟨b, rfl, hv⟩⟩
  · intro w
    exact Iff.rfl

theorem Meets.drop {P : Language UInt8} (hx : Meets x G P) :
    Meets x.drop (fun _ => ⨆ a, G a) P := by
  apply (hx.bind fun _ => Reads.done).congr
  · intro _ w
    simp only [mul_one]
  · intro w
    simp [Language.mem_iSup, Language.mem_add]

theorem Reads.drop (hx : Reads x G) :
    Reads x.drop (fun _ => ⨆ a, G a) := Meets.drop hx

/-! ## Bytes -/

/-- Taking bytes reads any of that length. -/
theorem Reads.take (e : ε) (n : Nat) :
    Reads (Reading.take e n) (ofLength n) where
  ok_iff {buf pos} h bytes pos' := by
    unfold Reading.take
    split
    · rename_i hle
      show (slice (pos + n) buf pos).result = _ ↔ _
      rw [slice, if_pos ⟨by omega, hle⟩, Nat.add_sub_cancel_left]
      show Except.ok ((buf.drop pos).take n, pos + n) = Except.ok (bytes, pos') ↔ _
      have hlen : ((buf.drop pos).take n).length = n := by
        rw [List.length_take, List.length_drop]
        omega
      constructor
      · intro heq
        cases heq
        exact ⟨_, ⟨rfl, hlen⟩, List.take_prefix _ _, by rw [hlen]⟩
      · rintro ⟨w, ⟨rfl, hw⟩, hstart, rfl⟩
        have htake : w = (buf.drop pos).take n := by rw [← hw, ← List.prefix_iff_eq_take.mp hstart]
        rw [hw, ← htake]
    · rename_i hgt
      constructor
      · intro heq
        cases heq
      · rintro ⟨w, ⟨rfl, rfl⟩, hstart, -⟩
        exact absurd (prefix_length_le hstart h) hgt
  panic_iff {buf pos} h := by
    unfold Reading.take
    split
    · rename_i hle
      show (slice (pos + n) buf pos).result = _ ↔ _
      rw [slice, if_pos ⟨by omega, hle⟩]
      constructor
      · intro heq
        cases heq
      · rintro ⟨w, hw, -⟩
        cases hw
    · constructor
      · intro heq
        cases heq
      · rintro ⟨w, hw, -⟩
        cases hw
  frames {buf pos} h heq := by
    unfold Reading.take slice at heq
    split at heq
    · split at heq <;> cases heq
    · cases heq
  bounded {buf pos} h l hl := by
    unfold Reading.take slice at hl
    split at hl
    · split at hl <;> cases hl
    · cases hl

/-- So does reading an array. -/
theorem Reads.array (e : ε) (n : Nat) :
    Reads (Reading.array e n) (ofLength n) := by
  -- as many bytes were taken as the array has, so copying them cannot fail
  have hcopy : ∀ bytes : List UInt8, Meets
      (if bytes.length = n then pure bytes else fault .panic : Reading ε (List UInt8))
      (fun b => only (bytes.length = n ∧ b = bytes) 1) (only (bytes.length ≠ n) 1) := by
    intro bytes
    split
    · rename_i hlen
      apply (Meets.pure bytes).congr
      · intro b w
        exact ⟨fun hw => ⟨⟨hlen, hw.1⟩, hw.2⟩, fun hw => ⟨hw.1.2, hw.2⟩⟩
      · intro w
        exact ⟨fun hw => False.elim hw, fun hw => hw.1 hlen⟩
    · rename_i hlen
      apply Meets.panic.congr
      · intro b w
        exact ⟨fun hw => False.elim hw, fun hw => hlen hw.1.1⟩
      · intro w
        exact ⟨fun hw => ⟨hlen, hw⟩, fun hw => hw.2⟩
  unfold Reading.array
  apply (Meets.bind (Reads.take e n) hcopy).congr
  · intro bytes w
    rw [Language.mem_iSup]
    constructor
    · rintro ⟨bytes', hw⟩
      obtain ⟨u, ⟨rfl, hu⟩, v, ⟨⟨-, rfl⟩, rfl⟩, rfl⟩ := Language.mem_mul.mp hw
      rw [List.append_nil]
      exact ⟨rfl, hu⟩
    · rintro ⟨rfl, hw⟩
      exact ⟨w, Language.mem_mul.mpr ⟨w, ⟨rfl, hw⟩, [], ⟨⟨hw, rfl⟩, rfl⟩, List.append_nil w⟩⟩
  · intro w
    rw [zero_add, Language.mem_iSup]
    constructor
    · rintro ⟨bytes, hw⟩
      obtain ⟨u, ⟨rfl, hu⟩, v, ⟨hlen, -⟩, -⟩ := Language.mem_mul.mp hw
      exact absurd hu hlen
    · intro hw
      cases hw

/-- One byte. -/
theorem Reads.byte (e : ε) : Reads (Reading.byte e) (fun b => {[b]}) := by
  -- one byte was taken, so the index is in range
  have hindex : ∀ bytes : List UInt8, Meets (Reading.index bytes 0 : Reading ε UInt8)
      (fun b => only (bytes.head? = some b) 1) (if bytes = [] then 1 else 0) := by
    intro bytes
    cases bytes with
    | nil =>
      apply Meets.panic.congr
      · intro b w
        constructor
        · intro hw
          cases hw
        · rintro ⟨hb, -⟩
          cases hb
      · intro w
        rfl
    | cons b bytes =>
      apply (Meets.pure b).congr
      · intro b' w
        show b' = b ∧ w = [] ↔ some b = some b' ∧ w = []
        rw [Option.some_inj, eq_comm]
      · intro w
        rfl
  unfold Reading.byte
  apply (Meets.bind (Reads.take e 1) hindex).congr
  · intro b w
    rw [Language.mem_iSup]
    constructor
    · rintro ⟨bytes, hw⟩
      obtain ⟨u, ⟨rfl, hu⟩, v, ⟨hhead, rfl⟩, rfl⟩ := Language.mem_mul.mp hw
      obtain ⟨c, rfl⟩ := List.length_eq_one_iff.mp hu
      obtain rfl := Option.some.inj hhead
      rfl
    · intro hw
      obtain rfl : w = [b] := hw
      exact ⟨[b], Language.mem_mul.mpr ⟨[b], ⟨rfl, rfl⟩, [], ⟨rfl, rfl⟩, rfl⟩⟩
  · intro w
    rw [zero_add, Language.mem_iSup]
    constructor
    · rintro ⟨bytes, hw⟩
      obtain ⟨u, ⟨rfl, hu⟩, v, hv, -⟩ := Language.mem_mul.mp hw
      obtain ⟨c, rfl⟩ := List.length_eq_one_iff.mp hu
      cases hv
    · intro hw
      cases hw

/-! ## Loops -/

section Loops

variable {round : Reading ε Bool} {G : Bool → Language UInt8} {P : Language UInt8}

def rounds (round : Reading ε Bool) : Nat → Reading ε Unit
  | 0 => pure ()
  | count + 1 => do
    let more ← round
    if more then rounds round count else pure ()

theorem repeated_snd (count : Nat) (buf : List UInt8) (pos : Nat) :
    (repeated round count buf pos).2 = rounds round count buf pos := by
  induction count generalizing pos with
  | zero => rfl
  | succ count ih =>
    rw [repeated, rounds, bind_eq, Traced.bind_eq, Traced.bind]
    cases (round buf pos).result with
    | error e => rfl
    | ok r =>
      obtain ⟨more, pos'⟩ := r
      cases more with
      | true => simp [ih]
      | false =>
        show Traced.mk _ _ = Traced.mk _ _
        congr 1
        exact (List.append_nil _).symm

/-- What a number of rounds read: the last one may have stopped the loop. -/
def roundsRead (G : Bool → Language UInt8) : Nat → Language UInt8
  | 0 => 1
  | count + 1 => G false + G true * roundsRead G count

/-- What leads to a panic in one of a number of rounds. -/
def roundsPanic (more P : Language UInt8) : Nat → Language UInt8
  | 0 => 0
  | count + 1 => P + more * roundsPanic more P count

theorem meets_rounds (hround : Meets round G P) (count : Nat) :
    Meets (rounds round count) (fun _ => roundsRead G count) (roundsPanic (G true) P count) := by
  induction count with
  | zero => exact Reads.done
  | succ count ih =>
    have hrest : ∀ more : Bool, Meets (if more = true then rounds round count else pure ())
        (fun _ => choice (more = true) (roundsRead G count) 1)
        (choice (more = true) (roundsPanic (G true) P count) 0) :=
      fun more => Meets.ite (fun _ => ih) fun _ => Reads.done
    apply (hround.bind hrest).congr
    · intro _ w
      rw [Language.mem_iSup, Bool.exists_bool, roundsRead, Language.mem_add,
        choice_neg Bool.false_ne_true, choice_pos rfl, mul_one]
    · intro w
      rw [Language.mem_add, Language.mem_iSup, Bool.exists_bool, roundsPanic, Language.mem_add,
        choice_neg Bool.false_ne_true, choice_pos rfl, mul_zero]
      apply or_congr_right
      exact ⟨fun hw => hw.resolve_left (Language.notMem_zero w), .inr⟩

/-- Where a round that goes on takes something, the rounds are bounded by what is left. -/
theorem repeated_bounded (hround : Meets round G P) (hprogress : [] ∉ G true) (count : Nat)
    {buf : List UInt8} {pos : Nat} (h : pos ≤ buf.length) :
    (repeated round count buf pos).1 ≤ buf.length - pos + 1 := by
  induction count generalizing pos with
  | zero => exact Nat.zero_le _
  | succ count ih =>
    rw [repeated]
    split
    · exact Nat.le_add_left 1 _
    · exact Nat.le_add_left 1 _
    · rename_i pos' hres
      obtain ⟨w, hw, hstart, rfl⟩ := (hround.ok_iff h true pos').mp hres
      have hle := prefix_length_le hstart h
      have hpos : w.length ≠ 0 := by
        intro hzero
        apply hprogress
        rwa [← List.eq_nil_of_length_eq_zero hzero]
      have := ih hle
      simp only
      omega

/-- **Loops**: a loop reads and panics as its rounds do, and is bounded where a round that goes on
takes something. -/
theorem Meets.loop (hround : Meets round G P) (hprogress : [] ∉ G true) (count : Nat) :
    Meets (loop count round) (fun _ => roundsRead G count) (roundsPanic (G true) P count) := by
  have hrounds := meets_rounds hround count
  have hresult : ∀ buf pos, (Reading.loop count round buf pos).result =
      (rounds round count buf pos).result := by
    intro buf pos
    rw [← repeated_snd]
    rfl
  constructor
  · intro buf pos h a pos'
    rw [hresult]
    exact hrounds.ok_iff h a pos'
  · intro buf pos h
    rw [hresult]
    exact hrounds.panic_iff h
  · intro buf pos h
    rw [hresult]
    exact hrounds.frames h
  · intro buf pos h l hl
    rcases List.mem_cons.mp hl with rfl | hl
    · exact repeated_bounded hround hprogress count h
    · rw [repeated_snd] at hl
      exact hrounds.bounded h l hl

theorem roundsRead_of_all (hstop : G false = 0) (count : Nat) :
    roundsRead G count = G true ^ count := by
  induction count with
  | zero => exact (pow_zero _).symm
  | succ count ih => rw [roundsRead, hstop, zero_add, ih, pow_succ']

theorem roundsPanic_zero (more : Language UInt8) (count : Nat) : roundsPanic more 0 count = 0 := by
  induction count with
  | zero => rfl
  | succ count ih => rw [roundsPanic, ih, mul_zero, add_zero]

end Loops

end Reading

end TedgeDot
