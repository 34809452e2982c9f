import Mathlib.Algebra.GroupWithZero.Nat
import Mathlib.Data.List.Perm.Basic

/-!
# The channels of a device

`client.rs` and `open_channels` of `push.rs`: the WebIds of a device are divided into requests, by
their number and by the length of the URL. A request that the server still finds too long is halved.

- `channels_exact`: whatever the server answers, every WebId gets one channel, or none is returned.
-/

namespace TedgeDot.AvevaPi

/-! ## The requests -/

/-- The loop of `chunks`, with the chunk that is being filled and the length of its URL. -/
def chunksFrom (chunk maxUrlBytes fixed : Nat) :
    List String → List String → Nat → List (List String)
  | [], current, _ => if current.isEmpty then [] else [current]
  | id :: ids, current, len =>
    let add := 7 + id.utf8ByteSize
    if !current.isEmpty && (max chunk 1 ≤ current.length || maxUrlBytes < len + add) then
      current :: chunksFrom chunk maxUrlBytes fixed ids [id] (fixed + add)
    else chunksFrom chunk maxUrlBytes fixed ids (current ++ [id]) (len + add)

def chunks (webIds : List String) (chunk maxUrlBytes fixed : Nat) : List (List String) :=
  chunksFrom chunk maxUrlBytes fixed webIds [] fixed

/-- `ChunkSize::halve`: the size that is left, if a request of so many ids can be halved. -/
def halve (size tried : Nat) : Option Nat :=
  if tried ≤ 1 then none else some (min size (max (tried / 2) 1))

/-- What a request for a channel comes to. -/
inductive Reply where
  | opened
  | tooLong (code : Nat)
  | status (code : Nat) (errors : String)
  | other (e : String)

inductive StartError where
  | refused (code : Nat) (errors : String)
  | tooLong (code : Nat)
  | http (e : String)

/-- The loop of `open_channels`, the requests that are pending with the next one first: the channels
by their WebIds, and the size that is left. Nothing where the replies do not suffice. -/
def openPending : List Reply → List (List String) → Nat → List (List String) →
    Option (Except StartError (List (List String)) × Nat)
  | _, [], size, out => some (.ok out, size)
  | [], _ :: _, _, _ => none
  | reply :: replies, chunk :: pending, size, out =>
    match reply with
    | .opened => openPending replies pending size (out ++ [chunk])
    | .tooLong code =>
      match halve size chunk.length with
      | some size =>
        let half := (chunk.length + 1) / 2
        openPending replies (chunk.take half :: chunk.drop half :: pending) size out
      | none => some (.error (.tooLong code), size)
    | .status code errors => some (.error (.refused code errors), size)
    | .other e => some (.error (.http e), size)

/-- `Ctx::open_channels`: the last request of `chunks` is sent first. -/
def openChannels (replies : List Reply) (webIds : List String) (size maxUrlBytes : Nat) :
    Option (Except StartError (List (List String)) × Nat) :=
  openPending replies (chunks webIds size maxUrlBytes 200).reverse size []

/-! ## What they come to -/

/-- The length of a URL with these WebIds. -/
def urlBytes (fixed : Nat) (chunk : List String) : Nat :=
  fixed + (chunk.map fun id => 7 + id.utf8ByteSize).sum

/-- A request is not empty, has as many WebIds as it may, and its URL is not too long, unless for a
single WebId. -/
structure Fits (size maxUrlBytes fixed : Nat) (chunk : List String) : Prop where
  ne_nil : chunk ≠ []
  length : chunk.length ≤ max size 1
  url : chunk.length = 1 ∨ urlBytes fixed chunk ≤ maxUrlBytes

variable {size maxUrlBytes fixed : Nat} {ids current : List String}

theorem flatten_chunksFrom (len : Nat) :
    (chunksFrom size maxUrlBytes fixed ids current len).flatten = current ++ ids := by
  induction ids generalizing current len with
  | nil =>
    unfold chunksFrom
    split <;> simp_all
  | cons id ids ih =>
    unfold chunksFrom
    dsimp only
    split
    · rw [List.flatten_cons, ih]
      rfl
    · rw [ih, List.append_assoc]
      rfl

/-- Every chunk fits in its address. -/
theorem fits_chunksFrom (hcurrent : current = [] ∨ Fits size maxUrlBytes fixed current) :
    ∀ c ∈ chunksFrom size maxUrlBytes fixed ids current (urlBytes fixed current),
      Fits size maxUrlBytes fixed c := by
  -- an id that would overfill the current chunk starts the next one
  induction ids generalizing current with
  | nil =>
    unfold chunksFrom
    split
    · exact fun c hc => absurd hc List.not_mem_nil
    · next hne => simpa using hcurrent.resolve_left (by simpa using hne)
  | cons id ids ih =>
    have hsingle : Fits size maxUrlBytes fixed [id] :=
      ⟨List.cons_ne_nil _ _, Nat.le_max_right .., .inl rfl⟩
    have hurl (c : List String) :
        urlBytes fixed c + (7 + id.utf8ByteSize) = urlBytes fixed (c ++ [id]) := by
      simp [urlBytes, Nat.add_assoc]
    unfold chunksFrom
    dsimp only
    split
    · next hfull =>
      have hne : current ≠ [] := by
        rintro rfl
        simp at hfull
      exact List.forall_mem_cons.mpr ⟨hcurrent.resolve_left hne, ih (.inr hsingle)⟩
    · next hroom =>
      rw [hurl]
      refine ih (.inr ?_)
      rcases hcurrent with rfl | hfits
      · exact hsingle
      · have hne := hfits.ne_nil
        have hempty : current.isEmpty = false := by simpa using hne
        simp only [hempty, Bool.not_false, Bool.true_and, Bool.or_eq_true, decide_eq_true_eq, not_or,
          Nat.not_le, Nat.not_lt, hurl] at hroom
        exact ⟨by simp, by rw [List.length_append]; exact hroom.1, .inr hroom.2⟩

theorem Fits.halves {chunk front back : List String} (h : Fits size maxUrlBytes fixed chunk)
    (hchunk : chunk = front ++ back) (hfront : front ≠ []) (hback : back ≠ []) :
    Fits size maxUrlBytes fixed front ∧ Fits size maxUrlBytes fixed back := by
  subst hchunk
  have hf := List.length_pos_iff.mpr hfront
  have hb := List.length_pos_iff.mpr hback
  have hlength := h.length
  have hurl := h.url
  simp only [urlBytes, List.map_append, List.sum_append, List.length_append] at hlength hurl
  have hless : urlBytes fixed front ≤ maxUrlBytes ∧ urlBytes fixed back ≤ maxUrlBytes := by
    unfold urlBytes
    omega
  exact ⟨⟨hfront, by omega, .inr hless.1⟩, ⟨hback, by omega, .inr hless.2⟩⟩

/-- How many requests may be sent for what is pending. -/
def weight (pending : List (List String)) : Nat := (pending.map fun c => 2 * c.length - 1).sum

/-- Halving ends in time, and the channels opened are those asked for. -/
theorem openPending_spec {replies : List Reply} {pending out : List (List String)} {now : Nat}
    (hpending : ∀ c ∈ pending, Fits size maxUrlBytes fixed c)
    (hout : ∀ c ∈ out, Fits size maxUrlBytes fixed c) (hreplies : weight pending ≤ replies.length)
    (hnow : 0 < now) :
    ∃ result left, openPending replies pending now out = some (result, left) ∧
      0 < left ∧ left ≤ now ∧ ∀ channels, result = .ok channels →
        channels.flatten.Perm (out.flatten ++ pending.flatten) ∧
          ∀ c ∈ channels, Fits size maxUrlBytes fixed c := by
  -- each reply takes one request away or splits it, and the weight goes down
  induction replies generalizing pending out now with
  | nil =>
    cases pending with
    | nil => exact ⟨_, _, rfl, hnow, Nat.le_refl _, fun _ h => by cases h; simpa using hout⟩
    | cons chunk pending =>
      have hfits := hpending chunk List.mem_cons_self
      have := List.length_pos_iff.mpr hfits.ne_nil
      simp only [weight, List.map_cons, List.sum_cons, List.length_nil] at hreplies
      omega
  | cons reply replies ih =>
    cases pending with
    | nil => exact ⟨_, _, rfl, hnow, Nat.le_refl _, fun _ h => by cases h; simpa using hout⟩
    | cons chunk pending =>
      obtain ⟨hchunk, hpending⟩ := List.forall_mem_cons.mp hpending
      have hpos := List.length_pos_iff.mpr hchunk.ne_nil
      simp only [weight, List.map_cons, List.sum_cons, List.length_cons] at hreplies
      cases reply with
      | opened =>
        obtain ⟨result, left, heq, hleft, hle, hok⟩ := ih hpending
          (List.forall_mem_append.mpr ⟨hout, List.forall_mem_singleton.mpr hchunk⟩)
          (by rw [weight]; omega) hnow
        exact ⟨result, left, heq, hleft, hle, fun channels h => by simpa using hok channels h⟩
      | tooLong code =>
        simp only [openPending]
        split
        · next now' hhalve =>
          have htwo : 1 < chunk.length := by
            by_contra hle
            rw [halve, if_pos (by omega)] at hhalve
            cases hhalve
          rw [halve, if_neg (by omega)] at hhalve
          obtain rfl := Option.some.inj hhalve
          have hcut := List.take_append_drop ((chunk.length + 1) / 2) chunk
          have hfront : chunk.take ((chunk.length + 1) / 2) ≠ [] := by
            rw [← List.length_pos_iff, List.length_take]
            omega
          have hback : chunk.drop ((chunk.length + 1) / 2) ≠ [] := by
            rw [← List.length_pos_iff, List.length_drop]
            omega
          obtain ⟨hfront, hback⟩ := hchunk.halves hcut.symm hfront hback
          have hless : 0 < min now (max (chunk.length / 2) 1) := by omega
          obtain ⟨result, left, heq, hleft, hle, hok⟩ := ih
            (List.forall_mem_cons.mpr ⟨hfront, List.forall_mem_cons.mpr ⟨hback, hpending⟩⟩) hout
            (by
              simp only [weight, List.map_cons, List.sum_cons, List.length_take, List.length_drop]
              omega)
            hless
          refine ⟨result, left, heq, hleft, by omega, fun channels h => ?_⟩
          have hchannels := hok channels h
          rwa [List.flatten_cons, List.flatten_cons, ← List.append_assoc (chunk.take _), hcut,
            ← List.flatten_cons] at hchannels
        · exact ⟨_, _, rfl, hnow, Nat.le_refl _, fun _ h => by cases h⟩
      | status | other => exact ⟨_, _, rfl, hnow, Nat.le_refl _, fun _ h => by cases h⟩

/-- **Opening the channels** ends within two requests for each WebId; the size that is left is one
that later requests can have. -/
theorem channels_exact (replies : List Reply) (webIds : List String) (size maxUrlBytes : Nat)
    (hsize : 0 < size) (hreplies : 2 * webIds.length ≤ replies.length) :
    ∃ result left, openChannels replies webIds size maxUrlBytes = some (result, left) ∧
      0 < left ∧ left ≤ size ∧ ∀ channels, result = .ok channels →
        channels.flatten.Perm webIds ∧ ∀ c ∈ channels, Fits size maxUrlBytes 200 c := by
  have hfits : ∀ c ∈ chunks webIds size maxUrlBytes 200, Fits size maxUrlBytes 200 c :=
    fits_chunksFrom (.inl rfl)
  have hflatten : (chunks webIds size maxUrlBytes 200).flatten = webIds := flatten_chunksFrom _
  have hweight (pending : List (List String)) : weight pending ≤ 2 * pending.flatten.length := by
    induction pending with
    | nil => exact Nat.zero_le _
    | cons c pending ih =>
      simp only [weight, List.map_cons, List.sum_cons, List.flatten_cons, List.length_append] at ih ⊢
      omega
  have hperm : (chunks webIds size maxUrlBytes 200).reverse.flatten.Perm webIds :=
    (List.reverse_perm _).flatten.trans (.of_eq hflatten)
  obtain ⟨result, left, heq, hleft, hle, hok⟩ := openPending_spec
    (fun c hc => hfits c (List.mem_reverse.mp hc)) (List.forall_mem_nil _)
    (Nat.le_trans (hweight _) (by rw [hperm.length_eq]; exact hreplies)) hsize
  refine ⟨result, left, heq, hleft, hle, fun channels h => ?_⟩
  obtain ⟨hchannels, hall⟩ := hok channels h
  exact ⟨hchannels.trans hperm, hall⟩

/-- A request that the server refuses until it is halved. -/
theorem channels_exact_halved :
    ∃ result left, openChannels [.tooLong 414, .opened, .opened, .opened, .opened, .opened]
        ["F1DPa", "F1DPb", "F1DPc"] 2 2000 = some (result, left) ∧
      0 < left ∧ left ≤ 2 ∧ ∀ channels, result = .ok channels →
        channels.flatten.Perm ["F1DPa", "F1DPb", "F1DPc"] ∧ ∀ c ∈ channels, Fits 2 2000 200 c :=
  channels_exact _ _ 2 2000 (by decide) (by decide)

end TedgeDot.AvevaPi
