import TedgeDot.Lib.Machine
import TedgeDot.Runtime.Lifecycle
import TedgeDot.Runtime.Reach

/-!
# Edits of the file and management commands

A management command patches the document the runtime holds and writes it over the file, whatever
the file says by then. What it writes is its patch of the file when the file still is what the runtime
holds: when nobody wrote it since the runtime took it (at its start, or by a reload that applied it
or found it unchanged) or wrote it itself. The Rust runtime keeps the comments and the formatting of
the file in its document, so there the file is its text; the C runtime writes a file without any, so
there it is what the text says.
-/

namespace TedgeDot

open Machine (AllSteps)

/-! ## The Rust runtime -/

namespace Management

variable {T D M : Type}

/-- `toml_edit`: the texts of files, and its documents, which keep the comments and the formatting
of the text beside the tables and values. `apply_management` is the code's, on such a document; what
becomes of the comments next to what it changes is up to the library. -/
structure TomlEdit (T D : Type) where
  parse : T → Except String D
  /-- A document is written as a text. -/
  text : D → T
  /-- The document of no text. -/
  empty : D
  /-- The tables and values. -/
  doc : D → Document
  applyManagement : String → Json → D → Except String D
  /-- Comments and formatting are kept. -/
  text_parse : ∀ {t d}, parse t = .ok d → text d = t
  doc_parse_text : ∀ d, (parse (text d)).map doc = .ok (doc d)
  doc_empty : doc empty = []
  doc_applyManagement : ∀ verb json d,
    (applyManagement verb json d).map doc = Management.applyManagement verb json (doc d)

/-- A connector's file as a text, and the connector while it runs, with the document it holds. -/
structure TextProcess (T D M : Type) where
  file : Except String T
  running : Option (Connector M × D)

/-- A `Happening` where files are texts. -/
inductive TextHappening (T M : Type) where
  | command (around : Surroundings) (verb : String) (json : Json)
  | reload (around : Surroundings)
  | edited (file : Except String T)
  | started (around : Surroundings) (built : M) (meanwhile : Option (Except String T))
      (online : Bool)
  | ended

variable (lib : TomlEdit T D) (h : Host M)

/-- The tables and values of a file. -/
def TomlEdit.contents (file : Except String T) : Except String Document :=
  (file.bind lib.parse).map lib.doc

/-- The process without comments and formatting. -/
def TextProcess.said (p : TextProcess T D M) : Process M where
  file := lib.contents p.file
  running := p.running.map fun c => { c.1 with doc := lib.doc c.2 }

def TextHappening.said : TextHappening T M → Happening M
  | .command around verb json => .command around verb json
  | .reload around => .reload around
  | .edited file => .edited (lib.contents file)
  | .started around built meanwhile online =>
    .started around built (meanwhile.map lib.contents) online
  | .ended => .ended

/-- The runtime takes the document of the file: it applied it or found its configuration
unchanged. -/
def takesDocument (p : Process M) (c : Connector M) (around : Surroundings) : Bool :=
  match (reloadFromFile (c.host h p.file) (withSettings around) (c.state p.file)).2 with
  | .applied => true
  | .unchanged => true
  | _ => false

/-- What one happening makes of them, and the text a command wrote into the file. All decisions are
made from the tables and values. -/
def TextProcess.step (p : TextProcess T D M) (e : TextHappening T M) :
    TextProcess T D M × Option T :=
  let running := ((p.said lib).step h (e.said lib)).1.running
  match e with
  | .command around verb json =>
    match p.running with
    | none => (p, none)
    | some (c, held) =>
      if ({ c with doc := lib.doc held }).accepts h (lib.contents p.file) around verb json then
        match lib.applyManagement verb json held with
        | .error _ => (p, none)
        | .ok candidate =>
          ({ file := if around.persisted then .ok (lib.text candidate) else p.file,
             running := running.map (·, candidate) },
            if around.persisted then some (lib.text candidate) else none)
      else ({ p with running := running.map (·, held) }, none)
  | .reload around =>
    match p.running with
    | none => (p, none)
    | some (c, held) =>
      let taken := takesDocument h (p.said lib) { c with doc := lib.doc held } around
      let doc := if taken then (p.file.bind lib.parse).toOption.getD held else held
      ({ p with running := running.map (·, doc) }, none)
  | .edited file => ({ p with file }, none)
  | .started _ _ meanwhile _ =>
    match p.running with
    | some _ => (p, none)
    | none =>
      let file' := meanwhile.getD p.file
      ({ file := file',
         running := running.map (·, (file'.bind lib.parse).toOption.getD lib.empty) }, none)
  | .ended => ({ p with running := none }, none)

/-- The text of the file is the document the runtime holds, comments and formatting included. -/
def TextProcess.Current (p : TextProcess T D M) : Prop :=
  ∀ c held, p.running = some (c, held) → p.file = .ok (lib.text held)

/-- A command that is accepted and written comes while the text of the file is what the runtime
holds. -/
def WritesCurrent (p : TextProcess T D M) : TextHappening T M → Prop
  | .command around verb json =>
    ∀ c held, p.running = some (c, held) →
      ({ c with doc := lib.doc held }).accepts h (lib.contents p.file) around verb json = true →
        around.persisted = true → p.file = .ok (lib.text held)
  | _ => True

/-- What a command writes into the file is its patch of the text the file had, comments and
formatting included. Nothing else writes. -/
def PatchesFile (p : TextProcess T D M) (e : TextHappening T M) : Prop :=
  ∀ text, (p.step lib h e).2 = some text → ∃ around verb json before after,
    e = .command around verb json ∧ p.file = .ok (lib.text before) ∧
      lib.applyManagement verb json before = .ok after ∧ text = lib.text after ∧
        (p.step lib h e).1.file = .ok text

variable {lib h} {p : TextProcess T D M} {e : TextHappening T M} {c : Connector M} {held : D}

/-! ### What a step does -/

theorem said_some {file : Except String T} :
    ({ file, running := some (c, held) } : TextProcess T D M).said lib =
      { file := lib.contents file, running := some { c with doc := lib.doc held } } := rfl

theorem said_running (hc : p.running = some (c, held)) :
    (p.said lib).running = some { c with doc := lib.doc held } := by
  simp [TextProcess.said, hc]

/-- An accepted command patches the document the runtime holds. -/
theorem step_accepted_text (hc : p.running = some (c, held)) {around : Surroundings} {verb : String}
    {json : Json}
    (haccepts :
      ({ c with doc := lib.doc held }).accepts h (lib.contents p.file) around verb json = true) :
    ∃ candidate c', lib.applyManagement verb json held = .ok candidate ∧
      c'.doc = lib.doc candidate ∧
      ((p.said lib).step h (.command around verb json)).1.running = some c' ∧
      p.step lib h (.command around verb json) =
        ({ file := if around.persisted then .ok (lib.text candidate) else p.file,
           running := some (c', candidate) },
          if around.persisted then some (lib.text candidate) else none) := by
  obtain ⟨doc, settings, config, m, hpatched, hstep⟩ :=
    step_accepted (said_running hc) (p := p.said lib) haccepts
  have happlied : (lib.applyManagement verb json held).map lib.doc = .ok doc :=
    (lib.doc_applyManagement verb json held).trans hpatched.applied
  cases hcandidate : lib.applyManagement verb json held with
  | error e =>
    rw [hcandidate] at happlied
    cases happlied
  | ok candidate =>
    rw [hcandidate] at happlied
    obtain rfl : lib.doc candidate = doc := Except.ok.inj happlied
    refine ⟨candidate, _, rfl, rfl, by rw [hstep], ?_⟩
    simp only [TextProcess.step, TextHappening.said, hc, haccepts, if_true, hcandidate, hstep,
      Option.map_some]

/-- A refused command leaves the document and the file. -/
theorem step_refused_text (hc : p.running = some (c, held)) {around : Surroundings} {verb : String}
    {json : Json}
    (haccepts :
      ({ c with doc := lib.doc held }).accepts h (lib.contents p.file) around verb json = false) :
    ∃ m, p.step lib h (.command around verb json) =
      ({ p with running := some ({ c with doc := lib.doc held, built := m }, held) }, none) := by
  obtain ⟨m, hstep⟩ := step_refused (said_running hc) (p := p.said lib) haccepts
  refine ⟨m, ?_⟩
  simp only [TextProcess.step, TextHappening.said, hc, haccepts, hstep, Option.map_some]
  rfl

/-- What the Rust runtime writes is an accepted command's patch of the text it holds. -/
theorem step_writes {text : T} (hwrites : (p.step lib h e).2 = some text) :
    ∃ around verb json c held, e = .command around verb json ∧ p.running = some (c, held) ∧
      ({ c with doc := lib.doc held }).accepts h (lib.contents p.file) around verb json = true ∧
        around.persisted = true := by
  cases e with
  | command around verb json =>
    cases hc : p.running with
    | none => simp [TextProcess.step, hc] at hwrites
    | some c =>
      obtain ⟨c, held⟩ := c
      cases haccepts :
          ({ c with doc := lib.doc held }).accepts h (lib.contents p.file) around verb json with
      | false =>
        obtain ⟨m, hstep⟩ := step_refused_text hc haccepts
        rw [hstep] at hwrites
        cases hwrites
      | true =>
        obtain ⟨candidate, c', -, -, -, hstep⟩ := step_accepted_text hc haccepts
        rw [hstep] at hwrites
        cases hpersisted : around.persisted with
        | false => simp [hpersisted] at hwrites
        | true => exact ⟨around, verb, json, c, held, rfl, rfl, haccepts, hpersisted⟩
  | reload around => cases hc : p.running <;> simp [TextProcess.step, hc] at hwrites
  | edited file => cases hwrites
  | started around built meanwhile online =>
    cases hc : p.running <;> simp [TextProcess.step, hc] at hwrites
  | ended => cases hwrites

theorem patchesFile_of_writesCurrent (hcurrent : WritesCurrent lib h p e) : PatchesFile lib h p e := by
  intro text hwrites
  obtain ⟨around, verb, json, c, held, rfl, hc, haccepts, hpersisted⟩ := step_writes hwrites
  have hfile := hcurrent c held hc haccepts hpersisted
  obtain ⟨candidate, c', happlied, -, -, hstep⟩ := step_accepted_text hc haccepts
  rw [hstep, hpersisted] at hwrites
  obtain rfl : lib.text candidate = text := by simpa using hwrites
  refine ⟨around, verb, json, held, candidate, rfl, hfile, happlied, rfl, ?_⟩
  rw [hstep, hpersisted]
  rfl

/-! ### The document after a reload or a start -/

theorem start_doc {around : Surroundings} {built : M} {file file' : Except String Document}
    {online : Bool} (hc : start h around built file file' online = some c) :
    c.doc = file'.toOption.getD [] := by
  unfold start at hc
  split at hc
  · cases hc
  · split at hc
    · split at hc
      · cases hc
      · split at hc
        · obtain rfl := Option.some.inj hc
          rfl
        · cases hc
    · cases hc

/-- The document a reload leaves: the file's where the runtime took it, else the one it held. -/
theorem reload_doc {p : Process M} (hc : p.running = some c) {around : Surroundings}
    {c' : Connector M} (hc' : (p.step h (.reload around)).1.running = some c') :
    takesDocument h p c around = true ∧ p.file = .ok c'.doc ∨
      takesDocument h p c around = false ∧ c'.doc = c.doc := by
  simp only [Process.step, hc] at hc'
  unfold takesDocument
  rw [reloadFromFile_eq] at hc' ⊢
  cases hloaded : loaded (withSettings around) (c.state p.file) with
  | error e =>
    rw [hloaded] at hc'
    obtain rfl := Option.some.inj hc'
    exact .inr ⟨rfl, rfl⟩
  | ok new =>
    obtain ⟨doc, config⟩ := new
    have hfile : p.file = .ok doc := (settings_of_loaded hloaded).1
    rw [hloaded] at hc'
    dsimp only at hc' ⊢
    -- a change that needs a restart is not taken
    by_cases hrestart : (c.host h p.file).needsRestart (c.state p.file).config config = true
    · rw [if_pos hrestart] at hc'
      cases hc'
    · rw [if_neg hrestart] at hc' ⊢
      by_cases hunchanged : (c.host h p.file).same config (c.state p.file).config = true
      · rw [if_pos hunchanged] at hc' ⊢
        obtain rfl := Option.some.inj hc'
        exact .inl ⟨rfl, hfile⟩
      · rw [if_neg hunchanged] at hc' ⊢
        revert hc'
        rcases configure (c.host h p.file) (c.state p.file).connector config with ⟨m, verdict⟩
        cases verdict with
        | error e =>
          intro hc'
          obtain rfl := Option.some.inj hc'
          exact .inr ⟨rfl, rfl⟩
        | ok u =>
          intro hc'
          obtain rfl := Option.some.inj hc'
          exact .inl ⟨rfl, hfile⟩

theorem TomlEdit.parse_of_contents {file : Except String T} {doc : Document}
    (hcontents : lib.contents file = .ok doc) : ∃ d, file.bind lib.parse = .ok d ∧ lib.doc d = doc := by
  cases hparse : file.bind lib.parse with
  | error e =>
    rw [TomlEdit.contents, hparse] at hcontents
    cases hcontents
  | ok d =>
    rw [TomlEdit.contents, hparse] at hcontents
    exact ⟨d, rfl, Except.ok.inj hcontents⟩

theorem TomlEdit.text_of_bind {file : Except String T} {d : D} (hparse : file.bind lib.parse = .ok d) :
    file = .ok (lib.text d) := by
  cases file with
  | error e => cases hparse
  | ok t => rw [lib.text_parse hparse]

/-- A reload takes the text where it takes the document. -/
theorem said_reload (p : TextProcess T D M) (around : Surroundings) :
    (p.step lib h (.reload around)).1.said lib = ((p.said lib).step h (.reload around)).1 := by
  cases hc : p.running with
  | none => simp [TextProcess.step, TextProcess.said, Process.step, hc]
  | some c =>
    obtain ⟨c, held⟩ := c
    obtain ⟨p', hto, hsaid⟩ := step_reloaded (h := h) (said_running hc) (p := p.said lib) around
    have hfile : p'.file = lib.contents p.file := by cases hto <;> rfl
    simp only [TextProcess.step, TextHappening.said, hc]
    rw [hsaid]
    cases hc' : p'.running with
    | none =>
      obtain ⟨file', running'⟩ := p'
      obtain rfl : running' = none := hc'
      obtain rfl : file' = lib.contents p.file := hfile
      rfl
    | some c' =>
      have hrun : ((p.said lib).step h (.reload around)).1.running = some c' := by rw [hsaid, hc']
      have hdoc := reload_doc (said_running hc) hrun
      obtain ⟨file', running'⟩ := p'
      obtain rfl : running' = some c' := hc'
      obtain rfl : file' = lib.contents p.file := hfile
      rw [Option.map_some, said_some]
      congr 2
      rcases hdoc with ⟨htakes, hfile⟩ | ⟨hkept, hdoc⟩
      · obtain ⟨d, hparse, hd⟩ := TomlEdit.parse_of_contents hfile
        rw [htakes, if_pos rfl, hparse]
        show { c' with doc := lib.doc d } = c'
        rw [hd]
      · rw [hkept, if_neg Bool.false_ne_true, ← show c'.doc = lib.doc held from hdoc]

/-- A start holds the text that is there when it loads. -/
theorem said_started (p : TextProcess T D M) (around : Surroundings) (built : M)
    (meanwhile : Option (Except String T)) (online : Bool) :
    (p.step lib h (.started around built meanwhile online)).1.said lib =
      ((p.said lib).step h
        ((TextHappening.started around built meanwhile online).said lib)).1 := by
  cases hc : p.running with
  | some c => simp [TextProcess.step, TextHappening.said, TextProcess.said, Process.step, hc]
  | none =>
    have hnone : (p.said lib).running = none := by simp [TextProcess.said, hc]
    have hmeanwhile : (meanwhile.map lib.contents).getD (lib.contents p.file) =
        lib.contents (meanwhile.getD p.file) := by cases meanwhile <;> rfl
    simp only [TextProcess.step, TextHappening.said, hc]
    simp only [Process.step, hnone]
    rw [show (p.said lib).file = lib.contents p.file from rfl, hmeanwhile]
    cases hstart : start h around built (lib.contents p.file)
        (lib.contents (meanwhile.getD p.file)) online with
    | none => rfl
    | some c =>
      have hdoc := start_doc hstart
      rw [Option.map_some, said_some]
      congr 2
      cases hparse : (meanwhile.getD p.file).bind lib.parse with
      | error e =>
        rw [TomlEdit.contents, hparse] at hdoc
        show { c with doc := lib.doc lib.empty } = c
        rw [lib.doc_empty, ← show c.doc = [] from hdoc]
      | ok d =>
        rw [TomlEdit.contents, hparse] at hdoc
        show { c with doc := lib.doc d } = c
        rw [← show c.doc = lib.doc d from hdoc]

/-- The connector over the text of the file does what it does over its tables and values. -/
theorem said_step (p : TextProcess T D M) (e : TextHappening T M) :
    (p.step lib h e).1.said lib = ((p.said lib).step h (e.said lib)).1 := by
  -- text and document change alike, event by event
  cases e with
  | command around verb json =>
    cases hc : p.running with
    | none => simp [TextProcess.step, TextHappening.said, TextProcess.said, Process.step, hc]
    | some c =>
      obtain ⟨c, held⟩ := c
      cases haccepts :
          ({ c with doc := lib.doc held }).accepts h (lib.contents p.file) around verb json with
      | false =>
        obtain ⟨m, hsaid⟩ := step_refused (said_running hc) (p := p.said lib) haccepts
        simp only [TextProcess.step, TextHappening.said, hc, haccepts, hsaid]
        rfl
      | true =>
        obtain ⟨doc, settings, config, m, hpatched, hsaid⟩ :=
          step_accepted (said_running hc) (p := p.said lib) haccepts
        obtain ⟨candidate, c', -, hdoc, hrunning, hstep⟩ := step_accepted_text hc haccepts
        rw [hsaid] at hrunning
        obtain rfl := Option.some.inj hrunning
        obtain rfl : doc = lib.doc candidate := hdoc
        rw [hstep, TextHappening.said, hsaid]
        cases around.persisted
        · rfl
        · exact congrArg (Process.mk · _) (lib.doc_parse_text candidate)
  | reload around => exact said_reload p around
  | edited file => rfl
  | started around built meanwhile online => exact said_started p around built meanwhile online
  | ended => rfl

/-! ### Who wrote the file last -/

/-- Whether the runtime has taken or written the file since somebody else last wrote it. -/
def taken (lib : TomlEdit T D) (h : Host M) (p : TextProcess T D M) (before : Bool) :
    TextHappening T M → Bool
  | .command around verb json =>
    match p.running with
    | none => before
    | some (c, held) =>
      if ({ c with doc := lib.doc held }).accepts h (lib.contents p.file) around verb json then
        around.persisted
      else before
  | .reload around =>
    match p.running with
    | none => before
    | some (c, held) => takesDocument h (p.said lib) { c with doc := lib.doc held } around || before
  | .edited _ => false
  | .started _ _ meanwhile _ =>
    match p.running with
    | none => ((meanwhile.getD p.file).bind lib.parse).isOk
    | some _ => before
  | .ended => before

def Writes (lib : TomlEdit T D) (h : Host M) (p : TextProcess T D M) (e : TextHappening T M) : Prop :=
  (p.step lib h e).2.isSome = true

instance (p : TextProcess T D M) (e : TextHappening T M) : Decidable (Writes lib h p e) :=
  inferInstanceAs (Decidable (_ = true))

theorem current_some {file : Except String T} :
    TextProcess.Current lib { file, running := some (c, held) } ↔ file = .ok (lib.text held) := by
  simp [TextProcess.Current]

theorem current_of_not_running (hp : p.running = none) : p.Current lib := by
  intro c held hc
  rw [hp] at hc
  cases hc

/-- Where the file's text is taken the runtime holds it. -/
theorem step_taken {before : Bool} (hp : before = true → p.Current lib) (e : TextHappening T M)
    (htaken : taken lib h p before e = true) : (p.step lib h e).1.Current lib := by
  cases e with
  | command around verb json =>
    cases hc : p.running with
    | none => exact current_of_not_running (by simp [TextProcess.step, hc])
    | some c =>
      obtain ⟨c, held⟩ := c
      simp only [taken, hc] at htaken
      cases haccepts :
          ({ c with doc := lib.doc held }).accepts h (lib.contents p.file) around verb json with
      | false =>
        rw [haccepts] at htaken
        obtain ⟨m, hstep⟩ := step_refused_text hc haccepts
        rw [hstep]
        exact current_some.mpr (hp htaken c held hc)
      | true =>
        rw [haccepts, if_pos rfl] at htaken
        obtain ⟨candidate, c', -, -, -, hstep⟩ := step_accepted_text hc haccepts
        rw [hstep, htaken]
        exact current_some.mpr rfl
  | reload around =>
    cases hc : p.running with
    | none => exact current_of_not_running (by simp [TextProcess.step, hc])
    | some c =>
      obtain ⟨c, held⟩ := c
      simp only [taken, hc, Bool.or_eq_true] at htaken
      simp only [TextProcess.step, hc]
      intro c' held' hc'
      obtain ⟨c₁, hc₁, heq⟩ := Option.map_eq_some_iff.mp hc'
      obtain ⟨rfl, rfl⟩ := Prod.mk.inj heq
      rcases reload_doc (said_running hc) (p := p.said lib) hc₁ with ⟨htakes, hfile⟩ | ⟨hkept, -⟩
      · obtain ⟨d, hparse, -⟩ := TomlEdit.parse_of_contents hfile
        rw [htakes, if_pos rfl, hparse]
        exact TomlEdit.text_of_bind hparse
      · rw [hkept] at htaken ⊢
        exact hp (htaken.resolve_left Bool.false_ne_true) c held hc
  | edited file => exact absurd htaken (by simp [taken])
  -- the text that is loaded is the one the process keeps
  | started around built meanwhile online =>
    cases hc : p.running with
    | some c =>
      simp only [taken, hc] at htaken
      simp only [TextProcess.step, hc]
      exact hp htaken
    | none =>
      simp only [taken, hc] at htaken
      simp only [TextProcess.step, hc]
      intro c held hstart
      obtain ⟨c₁, -, heq⟩ := Option.map_eq_some_iff.mp hstart
      obtain ⟨rfl, rfl⟩ := Prod.mk.inj heq
      obtain ⟨d, hparse⟩ := isOk_iff.mp htaken
      rw [hparse]
      exact TomlEdit.text_of_bind hparse
  | ended => exact current_of_not_running rfl

theorem writesCurrent_of_writes (hwrites : Writes lib h p e → p.Current lib) :
    WritesCurrent lib h p e := by
  cases e with
  | command around verb json =>
    intro c held hc haccepts hpersisted
    obtain ⟨candidate, c', -, -, -, hstep⟩ := step_accepted_text hc haccepts
    refine hwrites ?_ c held hc
    rw [Writes, hstep, hpersisted]
    rfl
  | _ => trivial

end Management

/-! ## The C runtime -/

namespace TdotManagement

variable {M : Type} {h : TdotHost M}

def Says (h : TdotHost M) (file : Option String) (doc : CMembers) : Prop :=
  ∃ text, file = some text ∧ h.parse text = .ok doc

/-- The file says the document of the running configuration. -/
def Process.Current (h : TdotHost M) (p : Process M) : Prop :=
  ∀ c, p.running = some c → Says h p.file c.config.root

/-- A command that is accepted and written comes while the file says what the runtime holds. -/
def WritesCurrent (h : TdotHost M) (p : Process M) : Happening M → Prop
  | .command around verb req =>
    ∀ c, p.running = some c → c.accepts h p.file around verb req = true →
      around.renamed = true → Says h p.file c.config.root
  | _ => True

/-- What a command writes into the file is its patch of the content the file had. Nothing else
writes. -/
def PatchesFile (h : TdotHost M) (p : Process M) (e : Happening M) : Prop :=
  ∀ text, (p.step h e).2 = some text → ∃ around verb req before doc,
    e = .command around verb req ∧ Says h p.file before ∧
      applyManagement before verb req = .ok doc ∧ text = h.emit doc ∧
        (p.step h e).1.file = some text

variable {around : TdotAround} {file : Option String} {p : Process M} {e : Happening M}
  {c : Connector M}

theorem says_of_load {config : TdotConfig} (hload : load h around file = .ok config) :
    Says h file config.root := by
  unfold load at hload
  split at hload
  · cases hload
  · rename_i text
    split at hload
    · cases hload
    · rename_i root hparse
      split at hload
      · cases hload
      · obtain rfl := Except.ok.inj hload
        exact ⟨text, rfl, hparse⟩

/-- The C runtime writes an accepted command's document. -/
theorem step_writes {text : String} (hwrites : (p.step h e).2 = some text) :
    ∃ around verb req c, e = .command around verb req ∧ p.running = some c ∧
      c.accepts h p.file around verb req = true ∧ around.renamed = true := by
  cases e with
  | command around verb req =>
    cases hc : p.running with
    | none => simp [Process.step, hc] at hwrites
    | some c =>
      cases haccepts : c.accepts h p.file around verb req with
      | false =>
        obtain ⟨m, hstep⟩ := step_refused hc haccepts
        rw [hstep] at hwrites
        cases hwrites
      | true =>
        obtain ⟨doc, candidate, m, -, hstep⟩ := step_accepted hc haccepts
        rw [hstep] at hwrites
        cases hrenamed : around.renamed with
        | false => simp [hrenamed] at hwrites
        | true => exact ⟨around, verb, req, c, rfl, rfl, haccepts, hrenamed⟩
  | reload around canRestart =>
    cases hc : p.running with
    | none => simp [Process.step, hc] at hwrites
    | some c =>
      obtain ⟨p', -, hstep⟩ := step_reloaded (h := h) hc around canRestart
      rw [hstep] at hwrites
      cases hwrites
  | edited file => cases hwrites
  | started around built online =>
    cases hc : p.running <;> simp [Process.step, hc] at hwrites
  | ended => cases hwrites

theorem patchesFile_of_writesCurrent (hcurrent : WritesCurrent h p e) : PatchesFile h p e := by
  intro text hwrites
  obtain ⟨around, verb, req, c, rfl, hc, haccepts, hrenamed⟩ := step_writes hwrites
  have hfile := hcurrent c hc haccepts hrenamed
  obtain ⟨doc, candidate, m, hpatched, hstep⟩ := step_accepted hc haccepts
  rw [hstep, hrenamed] at hwrites
  obtain rfl : h.emit doc = text := by simpa using hwrites
  refine ⟨around, verb, req, c.config.root, doc, rfl, hfile, hpatched.applied, rfl, ?_⟩
  rw [hstep, hrenamed]
  rfl

/-! ### Who wrote the file last -/

/-- Whether the runtime has taken or written the file since somebody else last wrote it. A reload
that finds it unchanged keeps the document it holds. -/
def taken (h : TdotHost M) (p : Process M) (before : Bool) : Happening M → Bool
  | .command around verb req =>
    match p.running with
    | none => before
    | some c => if c.accepts h p.file around verb req then around.renamed else before
  | .reload around canRestart =>
    match p.running with
    | none => before
    | some c => (reloadFromFile h around canRestart (c.state p.file)).2 == .applied || before
  | .edited _ => false
  | .started _ _ _ =>
    match p.running with
    | none => true
    | some _ => before
  | .ended => before

def Writes (h : TdotHost M) (p : Process M) (e : Happening M) : Prop := (p.step h e).2.isSome = true

instance (p : Process M) (e : Happening M) : Decidable (Writes h p e) :=
  inferInstanceAs (Decidable (_ = true))

theorem current_some :
    Process.Current h { file, running := some c } ↔ Says h file c.config.root := by
  simp [Process.Current]

theorem current_of_not_running (hp : p.running = none) : p.Current h := by
  intro c hc
  rw [hp] at hc
  cases hc

theorem start_says {built : M} {online : Bool} (hc : start h around built file online = some c) :
    Says h file c.config.root := by
  unfold start at hc
  split at hc
  · cases hc
  · rename_i config hload
    split at hc
    · cases hc
    · split at hc
      · obtain rfl := Option.some.inj hc
        exact says_of_load hload
      · cases hc

theorem step_reload_kept (hc : p.running = some c) (around : TdotAround) (canRestart : Bool)
    (hcurrent : p.Current h) : (p.step h (.reload around canRestart)).1.Current h := by
  obtain ⟨p', hto, hstep⟩ := step_reloaded (h := h) hc around canRestart
  rw [hstep]
  cases hto with
  | kept m => exact current_some.mpr (hcurrent c hc)
  | applied candidate m hload => exact current_some.mpr (says_of_load hload)
  | restart => exact current_of_not_running rfl

/-- A reload that is applied holds the file. -/
theorem step_reload_applied (hc : p.running = some c) {canRestart : Bool}
    (happlied : (reloadFromFile h around canRestart (c.state p.file)).2 = .applied) :
    (p.step h (.reload around canRestart)).1.Current h := by
  simp only [Process.step, hc]
  unfold reloadFromFile at happlied ⊢
  rw [show (c.state p.file).hasPath = true from rfl] at happlied ⊢
  simp only [Bool.not_true, Bool.false_eq_true, if_false] at happlied ⊢
  cases hload : load h around (c.state p.file).file with
  | error e =>
    rw [hload] at happlied
    cases happlied
  | ok candidate =>
    rw [hload] at happlied
    dsimp only at happlied ⊢
    by_cases hrestart : needsRestart (c.state p.file).config candidate = true
    · rw [if_pos hrestart] at happlied
      cases canRestart <;> cases happlied
    · rw [if_neg hrestart] at happlied ⊢
      by_cases hunchanged :
          (fingerprint h (c.state p.file).config == fingerprint h candidate) = true
      · rw [if_pos hunchanged] at happlied
        cases happlied
      · rw [if_neg hunchanged] at happlied ⊢
        revert happlied
        rcases tryConfigure h (c.state p.file) candidate with ⟨m, verdict⟩
        cases verdict with
        | error e => simp
        | ok u => exact fun _ => current_some.mpr (says_of_load hload)

/-- Where the file is taken the C runtime holds it. -/
theorem step_taken {before : Bool} (hp : before = true → p.Current h) (e : Happening M)
    (htaken : taken h p before e = true) : (p.step h e).1.Current h := by
  cases e with
  | command around verb req =>
    cases hc : p.running with
    | none => exact current_of_not_running (by simp [Process.step, hc])
    | some c =>
      simp only [taken, hc] at htaken
      cases haccepts : c.accepts h p.file around verb req with
      | false =>
        rw [haccepts] at htaken
        obtain ⟨m, hstep⟩ := step_refused hc haccepts
        rw [hstep]
        exact current_some.mpr (hp htaken c hc)
      | true =>
        rw [haccepts, if_pos rfl] at htaken
        obtain ⟨doc, candidate, m, hpatched, hstep⟩ := step_accepted hc haccepts
        rw [hstep, htaken]
        -- the configuration was loaded from the text that replaced the file
        exact current_some.mpr (says_of_load hpatched.loaded)
  | reload around canRestart =>
    cases hc : p.running with
    | none => exact current_of_not_running (by simp [Process.step, hc])
    | some c =>
      simp only [taken, hc, Bool.or_eq_true, beq_iff_eq] at htaken
      rcases htaken with happlied | hbefore
      · exact step_reload_applied hc happlied
      · exact step_reload_kept hc around canRestart (hp hbefore)
  | edited file => exact absurd htaken (by simp [taken])
  | started around built online =>
    cases hc : p.running with
    | some c =>
      simp only [taken, hc] at htaken
      simp only [Process.step, hc]
      exact hp htaken
    | none =>
      simp only [Process.step, hc]
      exact fun c hstart => start_says hstart
  | ended => exact current_of_not_running rfl

theorem writesCurrent_of_writes (hwrites : Writes h p e → p.Current h) : WritesCurrent h p e := by
  cases e with
  | command around verb req =>
    intro c hc haccepts hrenamed
    obtain ⟨doc, candidate, m, -, hstep⟩ := step_accepted hc haccepts
    refine hwrites ?_ c hc
    rw [Writes, hstep, hrenamed]
    rfl
  | _ => trivial

end TdotManagement

/-! ## Whole runs -/

/-- **A management command never destroys an edit**, in any run of either runtime whose commands
write while the file is what the runtime holds: what each of them writes is its patch of the content
the file had, in the Rust runtime with its comments and formatting. They do so wherever the runtime
has taken or written the file since somebody else last wrote it. -/
theorem commands_patch_the_file {T D M : Type} (lib : Management.TomlEdit T D)
    (h : Management.Host M) (p : Management.TextProcess T D M)
    (run : List (Management.TextHappening T M)) (h' : TdotManagement.TdotHost M)
    (p' : TdotManagement.Process M) (run' : List (TdotManagement.Happening M)) :
    ((AllSteps (Management.TextProcess.step lib h) (Management.WritesCurrent lib h) p run →
        AllSteps (Management.TextProcess.step lib h) (Management.PatchesFile lib h) p run) ∧
      (Machine.Flagged (Management.TextProcess.step lib h) (Management.taken lib h)
          (Management.Writes lib h) p false run →
        AllSteps (Management.TextProcess.step lib h) (Management.WritesCurrent lib h) p run)) ∧
    ((AllSteps (TdotManagement.Process.step h') (TdotManagement.WritesCurrent h') p' run' →
        AllSteps (TdotManagement.Process.step h') (TdotManagement.PatchesFile h') p' run') ∧
      (Machine.Flagged (TdotManagement.Process.step h') (TdotManagement.taken h')
          (TdotManagement.Writes h') p' false run' →
        AllSteps (TdotManagement.Process.step h') (TdotManagement.WritesCurrent h') p' run')) := by
  refine ⟨⟨fun hrun => ?_, fun hrun => ?_⟩, fun hrun => ?_, fun hrun => ?_⟩
  · exact Machine.allSteps_of_allSteps (P := fun _ => True) (fun _ _ _ _ => trivial)
      (fun p e hwrites _ => Management.patchesFile_of_writesCurrent hwrites) hrun trivial
  · exact Machine.allSteps_of_flagged (P := Management.TextProcess.Current lib)
      (fun p up e hp => Management.step_taken hp e)
      (fun p e => Management.writesCurrent_of_writes) hrun (by simp)
  · exact Machine.allSteps_of_allSteps (P := fun _ => True) (fun _ _ _ _ => trivial)
      (fun p e hwrites _ => TdotManagement.patchesFile_of_writesCurrent hwrites) hrun trivial
  · exact Machine.allSteps_of_flagged (P := TdotManagement.Process.Current h')
      (fun p up e hp => TdotManagement.step_taken hp e)
      (fun p e => TdotManagement.writesCurrent_of_writes) hrun (by simp)

/-! ### A file and a command -/

namespace Management

/-- A file as its comment lines and what the other lines say. -/
structure Sheet where
  comments : List String
  doc : Document

/-- A library that keeps the comments. A text is a sheet, or none where it is not TOML. -/
def sheets : TomlEdit (Option Sheet) Sheet where
  parse
    | none => .error "syntax error"
    | some sheet => .ok sheet
  text := some
  empty := { comments := [], doc := [] }
  doc := Sheet.doc
  applyManagement verb json sheet :=
    (applyManagement verb json sheet.doc).map fun doc => { sheet with doc }
  text_parse {t d} hparse := by
    cases t with
    | none => cases hparse
    | some sheet => rw [Except.ok.inj hparse]
  doc_parse_text sheet := rfl
  doc_empty := rfl
  doc_applyManagement verb json sheet := by
    cases applyManagement verb json sheet.doc <;> rfl

def anyAround : Surroundings where
  resolve _ := .ok { protocol := "modbus" }

/-- `set-config` of `[connector]`. -/
def intervalPatch : Json :=
  .object [("target", .string "connector"), ("config", .object [("poll_interval", .string "5s")])]

def intervalCommand : TextHappening (Option Sheet) Unit := .command anyAround "set-config" intervalPatch

def meterSheet : Sheet where
  comments := ["# Meters of hall 2"]
  doc := meterDocument

def editedSheet : Sheet where
  comments := ["# Meters of hall 2", "# Moved to the new broker"]
  doc := meterDocument ++ [("mqtt", .table [("host", .value (.string "10.0.0.9"))])]

/-- A connector that is to be started from the file. -/
def meterProcess : TextProcess (Option Sheet) Sheet Unit where
  file := .ok (some meterSheet)
  running := none

/-- Somebody edits the file between the start of the connector and a command. -/
def editedRun : List (TextHappening (Option Sheet) Unit) :=
  [.started anyAround () none true, .edited (.ok (some editedSheet)), intervalCommand]

end Management

namespace TdotManagement

def protocolRoot : CMembers := [("connector", .object [("protocol", .string "modbus")])]

def protocolText : String := "[connector]\nprotocol = \"modbus\"\n"

def pollRoot : CMembers :=
  [("device", .array []),
    ("connector", .object [("protocol", .string "modbus"), ("poll_interval", .string "5s")])]

def pollText : String :=
  "# Written by tedge-dot (management command); comments are not preserved.\n" ++
    "device = []\n\n[connector]\nprotocol = \"modbus\"\npoll_interval = \"5s\"\n"

/-- A runtime that reads and writes these two files. -/
def pollHost : TdotHost Unit where
  configure _ _ := ((), .ok ())
  localOnlySettings := []
  compare _ _ := false
  print _ := ""
  emit doc := if doc.length = 1 then protocolText else pollText
  parse text :=
    if text = protocolText then .ok protocolRoot
    else if text = pollText then .ok pollRoot else .error "syntax error"

def pollAround : TdotAround where
  resolve _ := .ok { protocol := "modbus", serviceName := "tedge-dot-modbus" }

def pollCommand : Happening Unit :=
  .command pollAround "set-config"
    (.object [("target", .string "connector"), ("config", .object [("poll_interval", .string "5s")])])

end TdotManagement

/-- Two commands after a start, in both runtimes. -/
theorem commands_patch_the_file_poll :
    AllSteps (Management.TextProcess.step Management.sheets Management.anyHost)
        (Management.PatchesFile Management.sheets Management.anyHost) Management.meterProcess
        [.started Management.anyAround () none true, Management.intervalCommand,
          Management.intervalCommand] ∧
      AllSteps (TdotManagement.Process.step TdotManagement.pollHost)
        (TdotManagement.PatchesFile TdotManagement.pollHost)
        { file := some TdotManagement.protocolText, running := none }
        [.started TdotManagement.pollAround () true, TdotManagement.pollCommand,
          TdotManagement.pollCommand] := by
  have hboth := commands_patch_the_file Management.sheets Management.anyHost
    Management.meterProcess
    [.started Management.anyAround () none true, Management.intervalCommand,
      Management.intervalCommand]
    TdotManagement.pollHost { file := some TdotManagement.protocolText, running := none }
    [.started TdotManagement.pollAround () true, TdotManagement.pollCommand,
      TdotManagement.pollCommand]
  exact ⟨hboth.1.1 (hboth.1.2 (by decide +kernel)), hboth.2.1 (hboth.2.2 (by decide +kernel))⟩

namespace Management

/-- The command writes the document the connector was started with over the edited file: the new
broker is gone, and the comment with it. -/
theorem edit_undone :
    ¬ AllSteps (TextProcess.step sheets anyHost) (PatchesFile sheets anyHost) meterProcess editedRun ∧
      ((Machine.final (TextProcess.step sheets anyHost) meterProcess editedRun).file.toOption.map
        fun text => text.map fun sheet => (sheet.comments, (sheet.doc.get "mqtt").isSome)) =
          some (some (["# Meters of hall 2"], false)) := by
  refine ⟨?_, by decide +kernel⟩
  rintro ⟨-, -, hlast, -⟩
  have hwritten : (TextProcess.step sheets anyHost (Machine.final (TextProcess.step sheets anyHost)
      meterProcess (editedRun.take 2)) intervalCommand).2.map (fun text => text.map Sheet.comments) =
        some (some ["# Meters of hall 2"]) := by decide +kernel
  obtain ⟨text, htext, hgone⟩ := Option.map_eq_some_iff.mp hwritten
  obtain ⟨around, verb, json, before, after, he, hfile, happly, rfl, -⟩ := hlast text htext
  obtain ⟨rfl, rfl, rfl⟩ := TextHappening.command.inj he
  obtain rfl : editedSheet = before := Option.some.inj (Except.ok.inj hfile)
  -- the patch of the edited file keeps its comments
  have hkept : (sheets.applyManagement "set-config" intervalPatch editedSheet).toOption.map
      Sheet.comments = some editedSheet.comments := by decide +kernel
  rw [happly] at hkept
  exact absurd ((Option.some.inj hgone).symm.trans (Option.some.inj hkept)) (by decide)

end Management

end TedgeDot
