import TedgeDot.Runtime.Supervisor

/-!
# What the scans of the supervisor look at

For each scan of `Supervisor`: the paths it visits where the files stand still, and what can be told
of its answer from its looks where they do not.
-/

namespace TedgeDot.Supervisor

open Scan

variable {π σ δ γ : Type} {srv : Service π σ δ γ}
variable {see : π → Option σ} {looks : Looks π σ}

/-! ## Listing -/

variable {p : π} {args : List (Arg π)} {found : List π} {looks' : Looks π σ} {files : List π}
  {candidates : List π}

@[simp] theorem mem_run_entries {entries : List π} :
    p ∈ (each entryFile entries).run see ↔ p ∈ entries ∧ (see p).isSome := by
  simp only [run_each, List.mem_flatMap, entryFile, run_look, run_done]
  constructor
  · rintro ⟨q, hq, hp⟩
    split at hp
    · simp only [List.mem_singleton] at hp
      subst hp
      exact ⟨hq, ‹_›⟩
    · simp at hp
  · rintro ⟨hp, hsome⟩
    exact ⟨p, hp, by simp [hsome]⟩

@[simp] theorem visits_entries (entries : List π) :
    (each entryFile entries).visits see = entries := by
  simp only [visits_each, entryFile, visits_look, visits_done]
  induction entries with
  | nil => rfl
  | cons p rest ih => simp [ih]

/-- Discovery looks only at the paths of its arguments. -/
theorem visits_discover (args : List (Arg π)) :
    (discover args).visits see ⊆ args.flatMap Arg.paths := by
  induction args with
  | nil => simp [discover]
  | cons arg rest ih =>
    cases arg with
    | directory entries =>
      intro p hp
      simp only [discover, visits_bind, visits_entries, visits_done, List.append_nil,
        List.mem_append] at hp
      simp only [List.flatMap_cons, Arg.paths, List.mem_append]
      exact hp.imp_right fun h => ih h
    | file q =>
      intro p hp
      simp only [discover, visits_look, List.mem_cons] at hp
      simp only [List.flatMap_cons, Arg.paths, List.mem_append, List.mem_singleton]
      refine hp.imp_right fun h => ih ?_
      split at h
      · simpa using h
      · simp at h

theorem visits_configFiles (args : List (Arg π)) :
    (configFiles args).visits see ⊆ args.flatMap Arg.paths := by
  intro p hp
  simp only [configFiles, visits_each, List.mem_flatMap] at hp
  obtain ⟨arg, harg, hp⟩ := hp
  apply List.mem_flatMap.2 ⟨arg, harg, ?_⟩
  cases arg with
  | directory entries => simpa only [Arg.paths, visits_entries] using hp
  | file q => simp at hp

/-- It finds those of them that are there. -/
theorem mem_of_run_discover (h : (discover args).run see = some found) (p : π) :
    p ∈ found ↔ p ∈ args.flatMap Arg.paths ∧ (see p).isSome := by
  induction args generalizing found with
  | nil =>
    simp only [discover, run_done, Option.some.injEq] at h
    simp [← h]
  | cons arg rest ih =>
    cases arg with
    | directory entries =>
      simp only [discover, run_bind, run_done, Option.map_eq_some_iff] at h
      obtain ⟨more, hmore, rfl⟩ := h
      simp only [List.mem_append, mem_run_entries, ih hmore, List.flatMap_cons, Arg.paths]
      tauto
    | file q =>
      simp only [discover, run_look] at h
      split at h
      · simp only [run_bind, run_done, Option.map_eq_some_iff] at h
        obtain ⟨more, hmore, rfl⟩ := h
        simp only [List.mem_cons, ih hmore, List.flatMap_cons, Arg.paths, List.mem_append,
          List.not_mem_nil, or_false]
        constructor
        · rintro (rfl | h)
          · exact ⟨.inl rfl, ‹_›⟩
          · exact ⟨.inr h.1, h.2⟩
        · tauto
      · simp at h

/-- What the looks of a listing tell of its answer. -/
structure Listing (args : List (Arg π)) (looks : Looks π σ) (files : List π) : Prop where
  found : ∀ l ∈ looks, l.2.stamp.isSome → l.1 ∈ files
  named : ∀ p, Arg.file p ∈ args → p ∈ files
  entries : ∀ entries, Arg.directory entries ∈ args → ∀ p ∈ entries, ∃ l ∈ looks, l.1 = p

/-- Looking through a directory. -/
theorem follows_entries {entries files : List π}
    (h : Follows Cell.stamp (each entryFile entries) looks (.done files)) :
    (∀ l ∈ looks, l.2.stamp.isSome → l.1 ∈ files) ∧ ∀ p ∈ entries, ∃ l ∈ looks, l.1 = p := by
  induction entries generalizing looks files with
  | nil =>
    simp only [each, follows_done] at h
    simp [h.1]
  | cons q rest ih =>
    obtain ⟨ls₁, lsr, fs₁, rfl, h₁, hr⟩ := follows_bind h
    obtain ⟨ls₂, ls₃, fs₂, rfl, h₂, h₃⟩ := follows_bind hr
    simp only [follows_done, done.injEq] at h₃
    obtain ⟨rfl, rfl⟩ := h₃
    obtain ⟨ihfound, ihentries⟩ := ih h₂
    cases ls₁ with
    | nil => simp [entryFile] at h₁
    | cons l ls₁ =>
      simp only [entryFile, follows_look, follows_done, done.injEq] at h₁
      obtain ⟨rfl, rfl, rfl⟩ := h₁
      constructor
      · intro l' hl' hsome
        simp only [List.append_nil, List.cons_append, List.nil_append, List.mem_cons] at hl'
        rcases hl' with rfl | hl'
        · simp [hsome]
        · exact List.mem_append_right _ (ihfound l' hl' hsome)
      · intro p hp
        rcases List.mem_cons.1 hp with rfl | hp
        · exact ⟨l, by simp, rfl⟩
        · obtain ⟨l', hl', rfl⟩ := ihentries p hp
          exact ⟨l', by simp [hl'], rfl⟩

theorem Listing.directory {rest : List (Arg π)} {entries files files' : List π}
    (h : Follows Cell.stamp (each entryFile entries) looks (.done files))
    (hrest : Listing rest looks' files') :
    Listing (.directory entries :: rest) (looks ++ looks') (files ++ files') := by
  obtain ⟨hfound, hentries⟩ := follows_entries h
  constructor
  · intro l hl hsome
    simp only [List.mem_append] at hl ⊢
    exact hl.imp (fun hl => hfound l hl hsome) fun hl => hrest.found l hl hsome
  · intro p hp
    simp only [List.mem_cons, reduceCtorEq, false_or] at hp
    exact List.mem_append_right _ (hrest.named p hp)
  · intro es hes p hp
    rcases List.mem_cons.1 hes with heq | hes
    · obtain rfl : es = entries := by simpa using heq
      obtain ⟨l, hl, rfl⟩ := hentries p hp
      exact ⟨l, by simp [hl], rfl⟩
    · obtain ⟨l, hl, rfl⟩ := hrest.entries es hes p hp
      exact ⟨l, by simp [hl], rfl⟩

theorem Listing.file {rest : List (Arg π)} {q : π} (hlooks : ∀ l ∈ looks, l.1 = q)
    (hrest : Listing rest looks' files) :
    Listing (.file q :: rest) (looks ++ looks') (q :: files) := by
  constructor
  · intro l hl hsome
    simp only [List.mem_append, List.mem_cons] at hl ⊢
    exact hl.imp (hlooks l) fun hl => hrest.found l hl hsome
  · intro p hp
    simp only [List.mem_cons, Arg.file.injEq] at hp ⊢
    exact hp.imp_right (hrest.named p)
  · intro es hes p hp
    simp only [List.mem_cons, reduceCtorEq, false_or] at hes
    obtain ⟨l, hl, rfl⟩ := hrest.entries es hes p hp
    exact ⟨l, by simp [hl], rfl⟩

theorem follows_configFiles (h : Follows Cell.stamp (configFiles args) looks (.done files)) :
    Listing args looks files := by
  induction args generalizing looks files with
  | nil =>
    simp only [configFiles, each, follows_done] at h
    constructor <;> simp [h.1]
  | cons arg rest ih =>
    obtain ⟨ls₁, lsr, fs₁, rfl, h₁, hr⟩ := follows_bind h
    obtain ⟨ls₂, ls₃, fs₂, rfl, h₂, h₃⟩ := follows_bind hr
    simp only [follows_done, done.injEq] at h₃
    obtain ⟨rfl, rfl⟩ := h₃
    rw [List.append_nil]
    cases arg with
    | directory entries => exact .directory h₁ (ih h₂)
    | file q =>
      simp only [follows_done, done.injEq] at h₁
      obtain ⟨rfl, rfl⟩ := h₁
      exact .file (by simp) (ih h₂)

/-- Discovery, whatever changes between the looks. -/
theorem follows_discover {Named : π → Prop} {found : Option (List π)}
    (hargs : ∀ p, Arg.file p ∈ args → Named p) (hnamed : ∀ l ∈ looks, Named l.1 → l.2.stamp.isSome)
    (h : Follows Cell.stamp (discover args) looks (.done found)) :
    ∃ files, found = some files ∧ Listing args looks files := by
  induction args generalizing looks found with
  | nil =>
    simp only [discover, follows_done, done.injEq] at h
    exact ⟨[], h.2, by constructor <;> simp [h.1]⟩
  | cons arg rest ih =>
    -- the looks of the first argument come before those of the rest
    have hrest : ∀ p, Arg.file p ∈ rest → Named p := fun p hp =>
      hargs p (List.mem_cons_of_mem arg hp)
    cases arg with
    | directory entries =>
      obtain ⟨ls₁, lsr, fs₁, rfl, h₁, hr⟩ := follows_bind h
      obtain ⟨ls₂, ls₃, fs₂, rfl, h₂, h₃⟩ := follows_bind hr
      simp only [follows_done, done.injEq] at h₃
      obtain ⟨rfl, rfl⟩ := h₃
      obtain ⟨more, rfl, hmore⟩ := ih hrest (fun l hl => hnamed l (by simp [hl])) h₂
      rw [List.append_nil]
      exact ⟨fs₁ ++ more, rfl, .directory h₁ hmore⟩
    | file q =>
      cases looks with
      | nil => simp [discover] at h
      | cons l looks =>
        simp only [discover, follows_look] at h
        obtain ⟨rfl, h⟩ := h
        rw [if_pos (hnamed l List.mem_cons_self (hargs _ List.mem_cons_self))] at h
        obtain ⟨ls₂, ls₃, fs₂, rfl, h₂, h₃⟩ := follows_bind h
        simp only [follows_done, done.injEq] at h₃
        obtain ⟨rfl, rfl⟩ := h₃
        obtain ⟨more, rfl, hmore⟩ := ih hrest (fun l' hl => hnamed l' (by simp [hl])) h₂
        rw [List.append_nil]
        have hlooks : ∀ l' ∈ [l], l'.1 = l.1 := by simp
        exact ⟨l.1 :: more, rfl, Listing.file hlooks hmore⟩

/-! ## Stamps -/

theorem follows_stamps {paths : List π} {snapshot : Snapshot π σ}
    (h : Follows Cell.stamp (each stampOf paths) looks (.done snapshot)) :
    Members.keys looks = paths ∧ snapshot = looks.map fun l => (l.1, l.2.stamp) := by
  induction paths generalizing looks snapshot with
  | nil =>
    simp only [each, follows_done, done.injEq] at h
    simp [h.1, h.2]
  | cons p rest ih =>
    obtain ⟨ls₁, lsr, fs₁, rfl, h₁, hr⟩ := follows_bind h
    obtain ⟨ls₂, ls₃, fs₂, rfl, h₂, h₃⟩ := follows_bind hr
    simp only [follows_done, done.injEq] at h₃
    obtain ⟨rfl, rfl⟩ := h₃
    obtain ⟨ihkeys, ihsnap⟩ := ih h₂
    cases ls₁ with
    | nil => simp [stampOf] at h₁
    | cons l ls₁ =>
      simp only [stampOf, follows_look, follows_done, done.injEq] at h₁
      obtain ⟨rfl, rfl, rfl⟩ := h₁
      simp [ihkeys, ihsnap]

/-! ## Point libraries -/

theorem visits_locate_subset {pre post : List π} {y : π} (hy : (see y).isSome) :
    (locate (pre ++ y :: post)).visits see ⊆ pre ++ [y] := by
  induction pre with
  | nil => simp [locate, hy]
  | cons p rest ih =>
    intro a ha
    simp only [List.cons_append, locate, visits_look, List.mem_cons] at ha ⊢
    refine ha.imp_right fun ha => ?_
    split at ha
    · simp at ha
    · exact ih ha

theorem visits_locate_mem (candidates : List π) :
    (locate candidates).visits see ⊆ candidates := by
  induction candidates with
  | nil => simp [locate]
  | cons p rest ih =>
    intro a ha
    simp only [locate, visits_look, List.mem_cons] at ha ⊢
    refine ha.imp_right fun ha => ?_
    split at ha
    · simp at ha
    · exact ih ha

theorem run_locate_mem (h : (locate candidates).run see = some p) :
    p ∈ (locate candidates).visits see := by
  induction candidates with
  | nil => simp [locate] at h
  | cons q rest ih =>
    simp only [locate, run_look, visits_look, List.mem_cons] at h ⊢
    split at h
    · left
      simpa using h.symm
    · rename_i hnone
      right
      rw [if_neg hnone]
      exact ih h

/-- A library is found in the first place that has it. -/
theorem follows_locate {y : π}
    (h : Follows Cell.stamp (locate candidates) looks (.done (some y))) :
    ∃ pre post, candidates = pre ++ y :: post ∧
      (∀ a ∈ pre, ∃ l ∈ looks, l.1 = a ∧ l.2.stamp = none) ∧
      ∃ l ∈ looks, l.1 = y ∧ l.2.stamp.isSome := by
  induction candidates generalizing looks with
  | nil => simp [locate] at h
  | cons q rest ih =>
    cases looks with
    | nil => simp [locate] at h
    | cons l looks =>
      simp only [locate, follows_look] at h
      obtain ⟨rfl, h⟩ := h
      split at h
      · simp only [follows_done, done.injEq, Option.some.injEq] at h
        obtain ⟨rfl, rfl⟩ := h
        exact ⟨[], rest, rfl, by simp, l, by simp, rfl, ‹_›⟩
      · rename_i hnone
        obtain ⟨pre, post, rfl, hpre, l', hl', rfl, hsome⟩ := ih h
        refine ⟨l.1 :: pre, post, rfl, ?_, l', by simp [hl'], rfl, hsome⟩
        intro a ha
        rcases List.mem_cons.1 ha with rfl | ha
        · exact ⟨l, by simp, rfl, by simpa using hnone⟩
        · obtain ⟨l'', hl'', rfl, habs⟩ := hpre a ha
          exact ⟨l'', by simp [hl''], rfl, habs⟩

/-- What the watcher watches for a reference, and what it saw. -/
inductive Watching (looks : Looks π σ) (libraries candidates : List π) : Prop
  /-- The file where the library was found. -/
  | one (pre post : List π) (y : π) (split : candidates = pre ++ y :: post)
      (before : ∀ a ∈ pre, ∃ l ∈ looks, l.1 = a ∧ l.2.stamp = none)
      (there : ∃ l ∈ looks, l.1 = y ∧ l.2.stamp.isSome) (watched : y ∈ libraries)
  /-- Every candidate. -/
  | all (watched : candidates ⊆ libraries)

theorem follows_watched {candidates libraries : List π}
    (h : Follows Cell.stamp (watched candidates) looks (.done libraries)) :
    Watching looks libraries candidates := by
  obtain ⟨ls₁, ls₂, found, rfl, h₁, h₂⟩ := follows_bind h
  cases found with
  | none =>
    simp only [follows_done, done.injEq] at h₂
    exact .all (by simp [h₂.2])
  | some y =>
    simp only [follows_done, done.injEq] at h₂
    obtain ⟨rfl, rfl⟩ := h₂
    obtain ⟨pre, post, hsplit, hpre, hy⟩ := follows_locate h₁
    rw [List.append_nil]
    exact .one pre post y hsplit hpre hy (by simp)

theorem Watching.mono {libraries libraries' candidates : List π}
    (h : Watching looks libraries candidates) (hlooks : looks ⊆ looks')
    (hlib : libraries ⊆ libraries') : Watching looks' libraries' candidates := by
  cases h with
  | one pre post y hsplit hpre hy hmem =>
    refine .one pre post y hsplit (fun a ha => ?_) ?_ (hlib hmem)
    · obtain ⟨l, hl, h⟩ := hpre a ha
      exact ⟨l, hlooks hl, h⟩
    · obtain ⟨l, hl, h⟩ := hy
      exact ⟨l, hlooks hl, h⟩
  | all hsub => exact .all fun a ha => hlib (hsub ha)

/-! ## Loading -/

theorem Service.visits_readLibrary (hp : p ∈ (srv.readLibrary candidates).visits see) :
    p ∈ (locate candidates).visits see := by
  simp only [Service.readLibrary, visits_bind, List.mem_append] at hp
  rcases hp with hp | hp
  · exact hp
  · cases hrun : (locate candidates).run see with
    | none => simp [hrun] at hp
    | some y =>
      simp only [hrun, visits_look, List.mem_cons] at hp
      rcases hp with rfl | hp
      · exact run_locate_mem hrun
      · cases hy : see y <;> simp [hy] at hp

theorem Service.visits_readLibraries {refs : List (List π)}
    (hp : p ∈ (srv.readLibraries refs).visits see) :
    ∃ candidates ∈ refs, p ∈ (locate candidates).visits see := by
  induction refs with
  | nil => simp [Service.readLibraries] at hp
  | cons candidates rest ih =>
    simp only [Service.readLibraries, visits_bind, List.mem_append] at hp
    rcases hp with hp | hp
    · exact ⟨candidates, by simp, srv.visits_readLibrary hp⟩
    · cases hrun : (srv.readLibrary candidates).run see with
      | none => simp [hrun] at hp
      | some library =>
        simp only [hrun, visits_bind, visits_done, List.append_nil] at hp
        obtain ⟨cs, hcs, hv⟩ := ih hp
        exact ⟨cs, List.mem_cons_of_mem _ hcs, hv⟩

theorem Service.visits_load {q p : π} (hp : p ∈ (srv.load q).visits see) :
    p = q ∨ ∃ stamp candidates, see q = some stamp ∧
      candidates ∈ srv.references q (srv.document q stamp) ∧
      p ∈ (locate candidates).visits see := by
  simp only [Service.load, visits_look, List.mem_cons] at hp
  refine hp.imp_right fun hp => ?_
  cases hstamp : see q with
  | none => simp [hstamp] at hp
  | some stamp =>
    simp only [hstamp, visits_bind, List.mem_append] at hp
    rcases hp with hp | hp
    · obtain ⟨candidates, hmem, hv⟩ := srv.visits_readLibraries hp
      exact ⟨stamp, candidates, rfl, hmem, hv⟩
    · split at hp <;> simp at hp

/-! ## The listings of a service -/

variable [DecidableEq π]

theorem Service.visits_discover : srv.discover.visits see ⊆ srv.paths := by
  simp only [Service.discover, visits_bind, visits_done, List.append_nil]
  exact Supervisor.visits_discover srv.args

theorem Service.visits_listed : srv.listed.visits see ⊆ srv.paths := by
  unfold Service.listed
  split
  · exact visits_configFiles srv.args
  · simp only [visits_bind, visits_done, List.append_nil]
    exact srv.visits_discover

theorem Service.mem_of_run_discover (h : srv.discover.run see = some found) (p : π) :
    p ∈ found ↔ p ∈ srv.paths ∧ (see p).isSome := by
  simp only [Service.discover, run_bind, run_done, Option.map_eq_some_iff] at h
  obtain ⟨all, hall, rfl⟩ := h
  simp [Supervisor.mem_of_run_discover hall, Service.paths]

theorem Service.mem_run_listed (h : srv.discover.run see = some found) (hp : p ∈ found) :
    p ∈ srv.listed.run see := by
  unfold Service.listed
  split
  · rw [srv.mem_of_run_discover h] at hp
    obtain ⟨arg, harg, hpath⟩ := List.mem_flatMap.1 hp.1
    simp only [configFiles, run_each, List.mem_flatMap]
    refine ⟨arg, harg, ?_⟩
    cases arg with
    | directory entries => exact mem_run_entries.2 ⟨hpath, hp.2⟩
    | file q => simpa [Arg.paths] using hpath
  · simpa [h] using hp

/-- The looks at files that the command line names found them. -/
def Service.NamedThere (srv : Service π σ δ γ) (looks : Looks π σ) : Prop :=
  ∀ l ∈ looks, Arg.file l.1 ∈ srv.args → l.2.stamp.isSome

theorem Service.follows_discover {found : Option (List π)} (hnamed : srv.NamedThere looks)
    (h : Follows Cell.stamp srv.discover looks (.done found)) :
    ∃ files, found = some files ∧ Listing srv.args looks files := by
  obtain ⟨ls₁, ls₂, all, rfl, h₁, h₂⟩ := follows_bind h
  simp only [follows_done, done.injEq] at h₂
  obtain ⟨rfl, rfl⟩ := h₂
  obtain ⟨files, rfl, hfiles⟩ := Supervisor.follows_discover
    (fun _ (hp : Arg.file _ ∈ srv.args) => hp) (by simpa [Service.NamedThere] using hnamed) h₁
  refine ⟨files.dedup, rfl, ?_, ?_, ?_⟩
  · simpa using hfiles.found
  · simpa using hfiles.named
  · simpa using hfiles.entries

theorem Service.follows_listed (hnamed : srv.NamedThere looks)
    (h : Follows Cell.stamp srv.listed looks (.done files)) :
    Listing srv.args looks files := by
  unfold Service.listed at h
  split at h
  · exact follows_configFiles h
  · obtain ⟨ls₁, ls₂, found, rfl, h₁, h₂⟩ := follows_bind h
    simp only [follows_done, done.injEq] at h₂
    obtain ⟨rfl, rfl⟩ := h₂
    rw [List.append_nil] at hnamed ⊢
    obtain ⟨files, rfl, hfiles⟩ := srv.follows_discover hnamed h₁
    exact hfiles

/-! ## Snapshots -/

theorem same_iff [DecidableEq σ] {a b : Snapshot π σ} :
    same a b = true ↔ ∀ p, Members.get a p = Members.get b p := by
  simp only [same, List.all_eq_true, List.mem_append, beq_iff_eq]
  constructor
  · intro h p
    by_cases hp : p ∈ Members.keys a ∨ p ∈ Members.keys b
    · exact h p hp
    · rw [not_or] at hp
      rw [(Members.get_eq_none_iff a p).2 hp.1, (Members.get_eq_none_iff b p).2 hp.2]
  · intro h p _
    exact h p

theorem same_refl [DecidableEq σ] (a : Snapshot π σ) : same a a = true := same_iff.2 fun _ => rfl

theorem keys_of_same [DecidableEq σ] {a b : Snapshot π σ} (h : same a b = true) (p : π) :
    p ∈ Members.keys a ↔ p ∈ Members.keys b := by
  rw [← Members.isSome_get_iff, ← Members.isSome_get_iff, same_iff.1 h p]

theorem lastLook_append (looks looks' : Looks π σ) (p : π) :
    lastLook (looks ++ looks') p = (lastLook looks' p).or (lastLook looks p) := by
  simp only [lastLook, List.reverse_append, Members.get_append]

theorem mem_of_lastLook {c : Cell σ} (h : lastLook looks p = some c) : (p, c) ∈ looks := by
  simpa using Members.mem_of_get h

theorem lastLook_isSome : (lastLook looks p).isSome ↔ ∃ l ∈ looks, l.1 = p := by
  simp only [lastLook, Members.isSome_get_iff, Members.keys, List.map_reverse, List.mem_reverse,
    List.mem_map]

/-- What the last looks of a snapshot tell of it. -/
structure Stamped (srv : Service π σ δ γ) (libraries : List π) (looks : Looks π σ)
    (snapshot : Snapshot π σ) : Prop where
  /-- A watched path has the stamp that was seen last. -/
  seen : ∀ p ∈ Members.keys snapshot, ∃ c, lastLook looks p = some c ∧
    Members.get snapshot p = some c.stamp
  /-- A path that may be a configuration and is not watched was seen not to exist. -/
  absent : ∀ p ∈ srv.paths, p ∉ Members.keys snapshot → ∃ c, lastLook looks p = some c ∧
    c.stamp = none
  libraries : libraries ⊆ Members.keys snapshot

/-- A snapshot has the stamp of every path it looked at. -/
theorem Service.follows_snapshot {libraries : List π} {snapshot : Snapshot π σ}
    (hnamed : srv.NamedThere looks)
    (h : Follows Cell.stamp (srv.snapshot libraries) looks (.done snapshot)) :
    Stamped srv libraries looks snapshot := by
  obtain ⟨ls₁, ls₂, files, rfl, h₁, h₂⟩ := follows_bind h
  have hlist := srv.follows_listed (fun l hl => hnamed l (List.mem_append_left _ hl)) h₁
  obtain ⟨hkeys, hsnap⟩ := follows_stamps h₂
  have hsnapkeys : Members.keys snapshot = (files ++ libraries).dedup := by
    rw [← hkeys, hsnap]
    simp [Members.keys]
  have hnodup : (Members.keys ls₂).Nodup := hkeys ▸ List.nodup_dedup _
  refine ⟨?_, ?_, ?_⟩
  · intro p hp
    have hlast : lastLook ls₂ p = Members.get ls₂ p :=
      Members.get_perm (List.reverse_perm ls₂) (by simpa [Members.keys] using hnodup) p
    rw [hsnapkeys, ← hkeys, ← Members.isSome_get_iff] at hp
    obtain ⟨c, hc⟩ := Option.isSome_iff_exists.1 hp
    refine ⟨c, by simp [lastLook_append, hlast, hc], ?_⟩
    rw [hsnap, Members.get_map, hc]
    rfl
  · intro p hp hkey
    have hfiles : p ∉ files := fun hmem => hkey (by simp [hsnapkeys, hmem])
    -- it is an entry of a directory, and no look of the listing found it
    obtain ⟨arg, harg, hpath⟩ := List.mem_flatMap.1 hp
    have hlooked : ∃ l ∈ ls₁, l.1 = p := by
      cases arg with
      | directory entries => exact hlist.entries entries harg p hpath
      | file q =>
        obtain rfl : p = q := by simpa [Arg.paths] using hpath
        exact absurd (hlist.named p harg) hfiles
    obtain ⟨c, hc⟩ := Option.isSome_iff_exists.1 (lastLook_isSome.2 hlooked)
    refine ⟨c, ?_, ?_⟩
    · have hnone : lastLook ls₂ p = none := by
        rw [← Option.not_isSome_iff_eq_none, lastLook_isSome]
        rintro ⟨l, hl, rfl⟩
        exact hkey (hsnapkeys ▸ hkeys ▸ Members.mem_keys_of_mem hl)
      simp [lastLook_append, hnone, hc]
    · rw [← Option.not_isSome_iff_eq_none]
      exact fun hsome => hfiles (hlist.found _ (mem_of_lastLook hc) hsome)
  · intro p hp
    simp [hsnapkeys, hp]

/-! ## What is read, and what is watched -/

/-- The list of libraries is watched at the places they were found. -/
theorem Service.follows_rebuild {libraries found candidates : List π} {q : π} {stamp : σ}
    (h : Follows Cell.stamp srv.rebuild looks (.done libraries))
    (hlooks : ∀ l ∈ looks, l.1 ∈ srv.paths → l.2.stamp = see l.1)
    (hfound : srv.discover.run see = some found) (hq : q ∈ found) (hstamp : see q = some stamp)
    (hmem : candidates ∈ srv.references q (srv.document q stamp)) :
    Watching looks libraries candidates := by
  obtain ⟨ls₁, lsr, files, rfl, h₁, hr⟩ := follows_bind h
  obtain ⟨ls₂, ls₃, libs, rfl, h₂, h₃⟩ := follows_bind hr
  simp only [follows_done, done.injEq] at h₃
  obtain ⟨rfl, rfl⟩ := h₃
  -- the listing is the one of the files as they are
  have hfiles : files = srv.listed.run see := by
    have hagree := agrees_of_follows h₁ fun l hl hv =>
      hlooks l (by simp [hl]) (srv.visits_listed hv)
    simpa using run_of_follows h₁ hagree
  have hqfiles : q ∈ files := hfiles ▸ srv.mem_run_listed hfound hq
  obtain ⟨lsq, libsq, hlsq, hlibsq, h₄⟩ := follows_each h₂ hqfiles
  have hpath : q ∈ srv.paths := ((srv.mem_of_run_discover hfound q).1 hq).1
  cases lsq with
  | nil => simp [Service.referencedLibraryFiles] at h₄
  | cons l lsq =>
    simp only [Service.referencedLibraryFiles, follows_look] at h₄
    obtain ⟨rfl, h₄⟩ := h₄
    have hl : l.2.stamp = some stamp := by
      rw [hlooks l (by simp [hlsq List.mem_cons_self]) hpath, hstamp]
    rw [hl] at h₄
    obtain ⟨lsc, libsc, hlsc, hlibsc, h₅⟩ := follows_each h₄ hmem
    refine (follows_watched h₅).mono (fun a ha => ?_) fun a ha => ?_
    · simp [hlsq (List.mem_cons_of_mem l (hlsc ha))]
    · simp [hlibsq (hlibsc ha)]

end TedgeDot.Supervisor
