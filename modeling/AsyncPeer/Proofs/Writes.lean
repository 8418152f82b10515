/-
# What commands write

Commands look at many files, but they write at most one: `expand` the file that it was given for the
expanded source, and `init` the settings file.  This file follows the content of a place through runs of
commands.

A file system enters by what can be relied on (`Files.Host.IsFileSystem`): looking changes nothing, and
writing either fails and changes nothing or stores the whole text at the place that the path leads to.
`Writes` says which writes were asked for and were possible.  A single command either makes one such
write or leaves everything as it was (`Call.writesOrSame`), and so after any number of commands a place
has the content of the last write to it, or else the content that it had in the beginning
(`content_runAll`).
-/
import AsyncPeer.Command
import AsyncPeer.Proofs.Discovery
import AsyncPeer.Proofs.Placement

namespace AsyncPeer

open Files (Host Store Place Entry FileError)
open Settings (run_bind_of_run)

/-! ### Computations that change nothing -/

section Quiet

variable {σ α β : Type}

/-- The computation gives an answer and changes nothing. -/
def Quiet (x : StateM σ α) : Prop :=
  ∀ s, ∃ a, x.run s = (a, s)

namespace Quiet

lemma pure (a : α) : Quiet (Pure.pure a : StateM σ α) :=
  fun _ => ⟨a, rfl⟩

lemma bind {x : StateM σ α} {f : α → StateM σ β} (hx : Quiet x) (hf : ∀ a, Quiet (f a)) :
    Quiet (x >>= f) := by
  intro s
  obtain ⟨a, ha⟩ := hx s
  obtain ⟨b, hb⟩ := hf a s
  exact ⟨b, (run_bind_of_run ha f).trans hb⟩

lemma findSomeM? {f : α → StateM σ (Option β)} (hf : ∀ a, Quiet (f a)) (l : List α) :
    Quiet (l.findSomeM? f) := by
  induction l with
  | nil => exact .pure none
  | cons a l ih =>
    refine (hf a).bind fun found => ?_
    cases found with
    | none => exact ih
    | some b => exact .pure (some b)

end Quiet

end Quiet

/-! ### File systems -/

section FileSystem

variable {σ : Type}

/-- Between the two states, the text was stored at the place and nothing else happened. -/
def Files.Stored (content : σ → Place → Option Entry) (p : Place) (t : Text) (s s' : σ) : Prop :=
  ∀ q, content s' q = if q = p then some (.file t) else content s q

/-- What commands rely on.  Here `content` is what is at the places of a state, and `place?` is where a
path leads. -/
structure Files.Host.IsFileSystem (host : Host (StateM σ)) (content : σ → Place → Option Entry)
    (place? : σ → Text → Option Place) : Prop where
  read (path : Text) : Quiet (host.read path)
  contains (path : Text) : Quiet (host.contains path)
  workingDirectory : Quiet host.workingDirectory
  tree (path source : Text) : Quiet (host.tree path source)
  surroundings : Quiet host.surroundings
  /-- A path that does not ask for a directory contains what is at its place. -/
  contains_eq {s : σ} {path : Text} {p : Place} (hpath : meansDirectory path = false)
      (hplace : place? s path = some p) :
    (host.contains path).run s = ((content s p).isSome, s)
  /-- A write fails without effect or stores the whole text. -/
  write (s : σ) (path t : Text) :
    (∃ e, (host.write path t).run s = (.error e, s)) ∨
      ∃ s' p, (host.write path t).run s = (.ok (), s') ∧ place? s path = some p ∧
        Stored content p t s s'

/-- A write to a store is turned down or puts the text where the path leads, which is not the root. -/
lemma Files.Store.write_cases (s : Store) (directory : Place) (path t : Text) :
    (∃ e, s.write directory path t = .error e) ∨
      ∃ p, s.locate directory path = .ok p ∧ p ≠ [] ∧
        s.write directory path t = .ok (s.put p (.file t)) := by
  rw [write]
  cases hlocate : s.locate directory path with
  | error e => exact Or.inl ⟨e, rfl⟩
  | ok p =>
    by_cases hroot : p = []
    · exact Or.inl ⟨.isADirectory, by simp [hroot, get?]⟩
    · simp only
      split
      · exact Or.inl ⟨.isADirectory, rfl⟩
      · split
        · exact Or.inl ⟨.isADirectory, rfl⟩
        · exact Or.inr ⟨p, rfl, hroot, rfl⟩

lemma Files.Store.contains_of_locate {s : Store} {directory p : Place} {path : Text}
    (hpath : meansDirectory path = false) (h : s.locate directory path = .ok p) :
    s.contains directory path = (s.get? p).isSome := by
  rw [contains, h]
  cases hget : s.get? p with
  | none => simp [hget]
  | some e => cases e <;> simp [hget, hpath]

/-- A store is a file system. -/
lemma Files.Host.isFileSystem_ofStore (directory : Place) (tree : Option Source.Node) :
    (ofStore directory tree).IsFileSystem Store.get?
      (fun s path => (s.locate directory path).toOption) where
  read path s := ⟨s.read directory path, rfl⟩
  contains path s := ⟨s.contains directory path, rfl⟩
  workingDirectory s := ⟨some directory.path, rfl⟩
  tree _ _ s := ⟨tree, rfl⟩
  surroundings s := ⟨{}, rfl⟩
  contains_eq {s path p} hpath hplace := by
    have hlocate : s.locate directory path = .ok p := by
      cases h : s.locate directory path with
      | error e => simp [h, Except.toOption] at hplace
      | ok p' => simpa [h, Except.toOption] using hplace
    rw [← Store.contains_of_locate hpath hlocate]
    rfl
  write s path t := by
    rcases s.write_cases directory path t with ⟨e, he⟩ | ⟨p, hlocate, hp, hwrite⟩
    · have hrun : ((ofStore directory tree).write path t).run s = (.error e, s) := by
        simp [ofStore, he]
        rfl
      exact Or.inl ⟨e, hrun⟩
    · have hrun : ((ofStore directory tree).write path t).run s = (.ok (), s.put p (.file t)) := by
        simp [ofStore, hwrite]
        rfl
      refine Or.inr ⟨s.put p (.file t), p, hrun, by rw [hlocate]; rfl, fun q => ?_⟩
      exact s.get?_put hp q (.file t)

end FileSystem

/-! ### Looking for settings -/

namespace Command

open CommandLine (ExpandRequest GenerateRequest Invocation)

section Looking

variable {σ : Type} {host : Host (StateM σ)} {content : σ → Place → Option Entry}
  {place? : σ → Text → Option Place} (h : host.IsFileSystem content place?)

include h

lemma quiet_near (directory : Text) : Quiet (Settings.near host directory) := by
  have hload (path : Text) : Quiet (Settings.load? host path) := by
    refine (h.read path).bind fun answer => ?_
    cases answer with
    | ok t => exact .pure _
    | error e => exact .pure _
  exact (Quiet.findSomeM? hload _).bind fun _ => .pure _

lemma quiet_here : Quiet (Settings.here host) := by
  refine h.workingDirectory.bind fun found => ?_
  cases found with
  | none => exact .pure _
  | some directory => exact quiet_near h directory

lemma quiet_nearFile (path : Text) : Quiet (Settings.nearFile host path) := by
  rw [Settings.nearFile]
  split
  · exact quiet_near h _
  · exact quiet_here h

lemma quiet_namedSettings (path : Text) : Quiet (namedSettings host path) := by
  refine (h.read path).bind fun answer => ?_
  cases answer with
  | error e => exact .pure _
  | ok t =>
    cases hparse : Settings.parse t with
    | ok settings => simpa only [hparse] using Quiet.pure _
    | error e => simpa only [hparse] using Quiet.pure _

lemma quiet_resolveSettings (named about : Option Text) :
    Quiet (resolveSettings host named about) := by
  cases named with
  | some path => exact quiet_namedSettings h path
  | none =>
    cases about with
    | some path => exact (quiet_nearFile h path).bind fun _ => .pure _
    | none => exact (quiet_here h).bind fun _ => .pure _

/-- The command `generate` only looks. -/
lemma quiet_generate (request : GenerateRequest) : Quiet (generate host request) := by
  refine (quiet_resolveSettings h _ _).bind fun resolved => ?_
  cases resolved with
  | error e => exact .pure _
  | ok settings =>
    refine (h.read _).bind fun answer => ?_
    cases answer with
    | error e => exact .pure _
    | ok json =>
      cases hpeer : Exchange.renderPeer json request.generator request.format settings.style with
      | error e => simpa only [hpeer] using Quiet.pure _
      | ok t => simpa only [hpeer] using Quiet.pure _

end Looking

/-! ### Expanding -/

section Expanding

variable {σ : Type}

/-- The settings of the request are resolved, its source is read and parsed, and this is the report on its
expansion. -/
inductive Reports (host : Host (StateM σ)) (s : σ) (request : ExpandRequest) : Source.Report → Prop
  | intro {settings : Settings} {source : Text} {tree : Source.Node} {report : Source.Report}
      (hsettings : (resolveSettings host request.config (some request.path)).run s = (.ok settings, s))
      (hsource : (host.read request.path).run s = (.ok source, s))
      (htree : (host.tree request.path source).run s = (some tree, s))
      (hreport : Source.expand source tree settings.style
        (request.keepAttributes || settings.outputOrDefault.keepAttributes) = .ok report) :
    Reports host s request report

lemma Reports.unique {host : Host (StateM σ)} {s : σ} {request : ExpandRequest} {r r' : Source.Report}
    (h : Reports host s request r) (h' : Reports host s request r') : r = r' := by
  obtain ⟨hsettings, hsource, htree, hreport⟩ := h
  obtain ⟨hsettings', hsource', htree', hreport'⟩ := h'
  cases hsettings.symm.trans hsettings'
  cases hsource.symm.trans hsource'
  cases htree.symm.trans htree'
  exact Except.ok.inj (hreport.symm.trans hreport')

/-- The write that the request asks for, if it asks for one, is possible. -/
def CanWrite (host : Host (StateM σ)) (s : σ) (request : ExpandRequest) (output : Text) : Prop :=
  ∀ path, request.check = false → request.output = some path →
    ∃ s', (host.write path output).run s = (.ok (), s')

variable {host : Host (StateM σ)} {content : σ → Place → Option Entry}
  {place? : σ → Text → Option Place}

/-- Either there is a report and the run goes on with it, or the run ends with an error and nothing has
changed. -/
lemma expand_run (h : host.IsFileSystem content place?) (s : σ) (request : ExpandRequest) :
    (∃ report, Reports host s request report ∧
      (expand host request).run s = (finish host request report).run s) ∨
    (∀ report, ¬ Reports host s request report) ∧
      ∃ e, (expand host request).run s = ({ error := some e }, s) := by
  obtain ⟨resolved, hresolved⟩ := quiet_resolveSettings h request.config (some request.path) s
  obtain ⟨answer, hanswer⟩ := h.read request.path s
  rw [expand, run_bind_of_run hresolved]
  cases resolved with
  | error e =>
    refine Or.inr ⟨?_, e, rfl⟩
    rintro report ⟨hsettings, -, -, -⟩
    cases hresolved.symm.trans hsettings
  | ok settings =>
    simp only
    rw [run_bind_of_run hanswer]
    cases answer with
    | error e =>
      refine Or.inr ⟨?_, .unreadable request.path e, rfl⟩
      rintro report ⟨-, hsource, -, -⟩
      cases hanswer.symm.trans hsource
    | ok source =>
      obtain ⟨parsed, hparsed⟩ := h.tree request.path source s
      simp only
      rw [run_bind_of_run hparsed]
      cases parsed with
      | none =>
        refine Or.inr ⟨?_, .unparsed request.path, rfl⟩
        rintro report ⟨-, hsource, htree, -⟩
        cases hanswer.symm.trans hsource
        cases hparsed.symm.trans htree
      | some tree =>
        simp only
        cases hexpand : Source.expand source tree settings.style
            (request.keepAttributes || settings.outputOrDefault.keepAttributes) with
        | error e =>
          refine Or.inr ⟨?_, .misfit e, rfl⟩
          rintro report ⟨hsettings, hsource, htree, hreport⟩
          cases hresolved.symm.trans hsettings
          cases hanswer.symm.trans hsource
          cases hparsed.symm.trans htree
          cases hexpand.symm.trans hreport
        | ok report => exact Or.inl ⟨report, ⟨hresolved, hanswer, hparsed, hexpand⟩, rfl⟩

/-- The expanded source is delivered without a write, or by the one write that was asked for. -/
lemma deliver_run (h : host.IsFileSystem content place?) (s : σ) (request : ExpandRequest)
    (output : Text) :
    (∃ t, (deliver host request output).run s = (.ok t, s) ∧
      ∀ path, request.check = false → request.output ≠ some path) ∨
    ∃ path, request.check = false ∧ request.output = some path ∧
      ((∃ e e', (host.write path output).run s = (.error e, s) ∧
        (deliver host request output).run s = (.error e', s)) ∨
      ∃ s' p, (host.write path output).run s = (.ok (), s') ∧ place? s path = some p ∧
        Files.Stored content p output s s' ∧ (deliver host request output).run s = (.ok [], s')) := by
  rw [deliver]
  by_cases hcheck : request.check = true
  · rw [if_pos hcheck]
    exact Or.inl ⟨[], rfl, fun path hcheck' => absurd (hcheck.symm.trans hcheck') (by decide)⟩
  · rw [if_neg hcheck]
    cases houtput : request.output with
    | none => exact Or.inl ⟨output, rfl, by simp⟩
    | some path =>
      refine Or.inr ⟨path, by simpa using hcheck, rfl, ?_⟩
      rcases h.write s path output with ⟨e, hwrite⟩ | ⟨s', p, hwrite, hplace, hstored⟩
      · refine Or.inl ⟨e, .unwritable path e, hwrite, ?_⟩
        exact run_bind_of_run hwrite _
      · refine Or.inr ⟨s', p, hwrite, hplace, hstored, ?_⟩
        simp only [StateT.run_bind, hwrite]
        rfl

lemma canWrite_iff (h : host.IsFileSystem content place?) {s s' : σ} {request : ExpandRequest}
    {output : Text} {delivered : Except Error Text}
    (hdelivered : (deliver host request output).run s = (delivered, s')) :
    (∃ t, delivered = .ok t) ↔ CanWrite host s request output := by
  rcases deliver_run h s request output with ⟨t, hdeliver, hno⟩ |
    ⟨path, hcheck, houtput, ⟨e, e', hwrite, hdeliver⟩ | ⟨s', p, hwrite, -, -, hdeliver⟩⟩
  · cases hdeliver.symm.trans hdelivered
    exact iff_of_true ⟨t, rfl⟩ fun path hcheck houtput => absurd houtput (hno path hcheck)
  · cases hdeliver.symm.trans hdelivered
    refine iff_of_false (by simp) fun hcan => ?_
    obtain ⟨s', hwrite'⟩ := hcan path hcheck houtput
    cases hwrite.symm.trans hwrite'
  · cases hdeliver.symm.trans hdelivered
    refine iff_of_true ⟨[], rfl⟩ fun path' _ houtput' => ?_
    cases houtput.symm.trans houtput'
    exact ⟨_, hwrite⟩

/-- The rest of a run only adds reports to the delivery. -/
lemma finish_run (h : host.IsFileSystem content place?) {s s' : σ} {request : ExpandRequest}
    {report : Source.Report} {delivered : Except Error Text}
    (hdelivered : (deliver host request report.output).run s = (delivered, s')) :
    ∃ outcome, (finish host request report).run s = (outcome, s') ∧
      (outcome.error = none ↔ (∃ t, delivered = .ok t) ∧ report.failures = []) := by
  obtain ⟨e, he⟩ := h.surroundings s
  rw [finish, run_bind_of_run he]
  simp only [StateT.run_bind, hdelivered]
  cases delivered with
  | error e => exact ⟨_, rfl, by simp⟩
  | ok t =>
    refine ⟨_, rfl, ?_⟩
    by_cases hfailed : report.failures = [] <;> simp [hfailed]

/-- The run succeeds if there is a report without failures and its output can be written. -/
lemma expand_error_iff (h : host.IsFileSystem content place?) {s s' : σ} {request : ExpandRequest}
    {outcome : Outcome} (hrun : (expand host request).run s = (outcome, s')) :
    outcome.error = none ↔ ∃ report, Reports host s request report ∧
      CanWrite host s request report.output ∧ report.failures = [] := by
  rcases expand_run h s request with ⟨report, hreport, hexpand⟩ | ⟨hnone, e, hexpand⟩
  · obtain ⟨delivered, s'', hdeliver⟩ :
        ∃ delivered s'', (deliver host request report.output).run s = (delivered, s'') :=
      ⟨_, _, rfl⟩
    obtain ⟨outcome', hfinish, herror⟩ := finish_run h hdeliver
    cases hrun.symm.trans (hexpand.trans hfinish)
    rw [herror, canWrite_iff h hdeliver]
    constructor
    · exact fun hcan => ⟨report, hreport, hcan⟩
    · rintro ⟨report', hreport', hcan⟩
      rwa [hreport.unique hreport']
  · cases hrun.symm.trans hexpand
    refine iff_of_false (by simp) ?_
    rintro ⟨report, hreport, -⟩
    exact hnone report hreport

/-- The named settings cannot be read or are turned down, or the source cannot be read. -/
def Blocked (host : Host (StateM σ)) (s : σ) (request : ExpandRequest) : Prop :=
  (∃ path, request.config = some path ∧
    ((∃ e, (host.read path).run s = (.error e, s)) ∨
      ∃ t e, (host.read path).run s = (.ok t, s) ∧ Settings.parse t = .error e)) ∨
  ∃ e, (host.read request.path).run s = (.error e, s)

lemma Blocked.not_reports {s : σ} {request : ExpandRequest} (hblocked : Blocked host s request)
    (report : Source.Report) : ¬ Reports host s request report := by
  rintro ⟨hsettings, hsource, -, -⟩
  rcases hblocked with ⟨path, hconfig, hnamed⟩ | ⟨e, he⟩
  · rw [hconfig] at hsettings
    have hsettings' : (namedSettings host path).run s = _ := hsettings
    rcases hnamed with ⟨e, he⟩ | ⟨t, e, ht, hparse⟩
    · rw [namedSettings, run_bind_of_run he] at hsettings'
      cases hsettings'
    · rw [namedSettings, run_bind_of_run ht] at hsettings'
      simp only [hparse] at hsettings'
      cases hsettings'
  · cases he.symm.trans hsource

/-- The parser does its part: if there are settings and a source, it gives a tree that fits the source,
so that the expansion comes to a report. -/
def Parses (host : Host (StateM σ)) (s : σ) (request : ExpandRequest) : Prop :=
  ∀ settings source,
    (resolveSettings host request.config (some request.path)).run s = (.ok settings, s) →
    (host.read request.path).run s = (.ok source, s) →
    ∃ tree report, (host.tree request.path source).run s = (some tree, s) ∧
      Source.expand source tree settings.style
        (request.keepAttributes || settings.outputOrDefault.keepAttributes) = .ok report

end Expanding

/-! ### Writing a settings file -/

section Init

variable {σ : Type} {host : Host (StateM σ)} {content : σ → Place → Option Entry}
  {place? : σ → Text → Option Place}

/-- The path of the settings file that `init` writes. -/
def settingsPath : Text :=
  Files.join ['.'] Settings.fileName

lemma initIn_run_of_stop {s : σ} {directory : Text}
    (hthere : (host.contains (Files.join directory Settings.fileName)).run s = (true, s)) :
    (initIn host directory false).run s = (.error .settingsExist, s) := by
  rw [initIn]
  exact run_bind_of_run hthere _

lemma initIn_run_of_write {s s' : σ} {directory : Text} {there force : Bool}
    (hthere : (host.contains (Files.join directory Settings.fileName)).run s = (there, s))
    (hgo : (there && !force) = false) {answer : Except FileError Unit}
    (hwrite : (host.write (Files.join directory Settings.fileName) Settings.template).run s =
      (answer, s')) :
    ∃ written, (initIn host directory force).run s = (written, s') := by
  rw [initIn, run_bind_of_run hthere, hgo, if_neg (by decide), StateT.run_bind, hwrite]
  cases answer with
  | ok done => exact ⟨_, rfl⟩
  | error e => exact ⟨_, rfl⟩

/-- The command `init` has only its report to add. -/
lemma init_run {s s' : σ} {force : Bool} {written : Except Error Text}
    (h : (initIn host ['.'] force).run s = (written, s')) :
    ∃ outcome, (init host force).run s = (outcome, s') := by
  rw [init, StateT.run_bind, h]
  cases written with
  | ok path => exact ⟨_, rfl⟩
  | error e => exact ⟨_, rfl⟩

end Init

/-! ### Runs of commands -/

section Calls

variable {σ : Type} {content : σ → Place → Option Entry}

/-- A command and the surroundings in which it is called.  The working directory can be another one for
each call, but all calls share the files. -/
structure Call (content : σ → Place → Option Entry) where
  /-- The surroundings. -/
  host : Host (StateM σ)
  /-- Where the paths of the command lead. -/
  place? : σ → Text → Option Place
  isFileSystem : host.IsFileSystem content place?
  /-- The command. -/
  invocation : Invocation

namespace Call

/-- What the call gives, and the state behind it. -/
def run (c : Call content) (s : σ) : Outcome × σ :=
  StateT.run (Command.run c.host c.invocation) s

/-- In the state, the call asks for a write of the text to the place, and the write is possible. -/
inductive Writes (c : Call content) (s : σ) : Place → Text → Prop
  /-- Without a check, `expand` writes the output of its report to the file that is named for it. -/
  | expand {request : ExpandRequest} {report : Source.Report} {path : Text} {p : Place} {s' : σ}
      (hcommand : c.invocation.command = .expand request) (hcheck : request.check = false)
      (houtput : request.output = some path) (hreport : Reports c.host s request report)
      (hplace : c.place? s path = some p)
      (hwrite : (c.host.write path report.output).run s = (.ok (), s')) :
    Writes c s p report.output
  /-- The command `init` writes the template to the settings file, if there is nothing or by force. -/
  | init {force : Bool} {p : Place} {s' : σ} (hcommand : c.invocation.command = .init force)
      (hfree : content s p = none ∨ force = true) (hplace : c.place? s settingsPath = some p)
      (hwrite : (c.host.write settingsPath Settings.template).run s = (.ok (), s')) :
    Writes c s p Settings.template

lemma Writes.unique {c : Call content} {s : σ} {p q : Place} {t u : Text} (h : c.Writes s p t)
    (h' : c.Writes s q u) : p = q := by
  cases h with
  | expand hcommand _ houtput _ hplace _ =>
    cases h' with
    | expand hcommand' _ houtput' _ hplace' _ =>
      cases hcommand.symm.trans hcommand'
      cases houtput.symm.trans houtput'
      exact Option.some.inj (hplace.symm.trans hplace')
    | init hcommand' => cases hcommand.symm.trans hcommand'
  | init hcommand _ hplace _ =>
    cases h' with
    | expand hcommand' => cases hcommand.symm.trans hcommand'
    | init _ _ hplace' _ => exact Option.some.inj (hplace.symm.trans hplace')

/-- What a step can do: it makes the write that it was asked for and nothing else, or it changes
nothing. -/
def WritesOrSame (c : Call content) (s s' : σ) : Prop :=
  (∃ p t, c.Writes s p t ∧ Files.Stored content p t s s') ∨ (∀ p t, ¬ c.Writes s p t) ∧ s' = s

lemma run_expand {c : Call content} {request : ExpandRequest}
    (hcommand : c.invocation.command = .expand request) (s : σ) :
    c.run s = (Command.expand c.host request).run s := by
  rw [run, Command.run, hcommand]

/-- Looking back from a write of `expand`. -/
lemma Writes.of_expand {c : Call content} {s : σ} {p : Place} {t : Text} (h : c.Writes s p t)
    {request : ExpandRequest} (hcommand : c.invocation.command = .expand request) :
    ∃ path report s', request.check = false ∧ request.output = some path ∧
      Reports c.host s request report ∧ (c.host.write path report.output).run s = (.ok (), s') := by
  cases h with
  | expand hcommand' hcheck houtput hreport _ hwrite =>
    cases hcommand.symm.trans hcommand'
    exact ⟨_, _, _, hcheck, houtput, hreport, hwrite⟩
  | init hcommand' => cases hcommand.symm.trans hcommand'

lemma writesOrSame_expand (c : Call content) (s : σ) {request : ExpandRequest}
    (hcommand : c.invocation.command = .expand request) : c.WritesOrSame s (c.run s).2 := by
  have h := c.isFileSystem
  rw [run_expand hcommand]
  rcases expand_run h s request with ⟨report, hreport, hexpand⟩ | ⟨hnone, e, hexpand⟩
  · rw [hexpand]
    rcases deliver_run h s request report.output with ⟨t, hdeliver, hno⟩ |
      ⟨path, hcheck, houtput, ⟨e, e', hwrite, hdeliver⟩ | ⟨s', p, hwrite, hplace, hstored, hdeliver⟩⟩
    · obtain ⟨outcome, hfinish, -⟩ := finish_run h hdeliver
      rw [hfinish]
      refine Or.inr ⟨fun p t hw => ?_, rfl⟩
      obtain ⟨path, -, -, hcheck, houtput, -⟩ := hw.of_expand hcommand
      exact hno path hcheck houtput
    · obtain ⟨outcome, hfinish, -⟩ := finish_run h hdeliver
      rw [hfinish]
      refine Or.inr ⟨fun p t hw => ?_, rfl⟩
      obtain ⟨path', report', s', -, houtput', hreport', hwrite'⟩ := hw.of_expand hcommand
      cases houtput.symm.trans houtput'
      cases hreport.unique hreport'
      cases hwrite.symm.trans hwrite'
    · obtain ⟨outcome, hfinish, -⟩ := finish_run h hdeliver
      rw [hfinish]
      exact Or.inl ⟨p, _, .expand hcommand hcheck houtput hreport hplace hwrite, hstored⟩
  · rw [hexpand]
    refine Or.inr ⟨fun p t hw => ?_, rfl⟩
    obtain ⟨-, report, -, -, -, hreport, -⟩ := hw.of_expand hcommand
    exact hnone report hreport

lemma Writes.of_init {c : Call content} {s : σ} {p : Place} {t : Text} (h : c.Writes s p t)
    {force : Bool} (hcommand : c.invocation.command = .init force) :
    (content s p = none ∨ force = true) ∧ c.place? s settingsPath = some p ∧
      ∃ s', (c.host.write settingsPath Settings.template).run s = (.ok (), s') := by
  cases h with
  | expand hcommand' => cases hcommand.symm.trans hcommand'
  | init hcommand' hfree hplace hwrite =>
    cases hcommand.symm.trans hcommand'
    exact ⟨hfree, hplace, _, hwrite⟩

lemma writesOrSame_init (c : Call content) (s : σ) {force : Bool}
    (hcommand : c.invocation.command = .init force) : c.WritesOrSame s (c.run s).2 := by
  have h := c.isFileSystem
  have hrun : c.run s = (Command.init c.host force).run s := by rw [run, Command.run, hcommand]
  have hpath : Files.meansDirectory settingsPath = false := by decide +kernel
  obtain ⟨there, hthere⟩ := h.contains settingsPath s
  rw [hrun]
  by_cases hstop : there = true ∧ force = false
  · obtain ⟨rfl, rfl⟩ := hstop
    obtain ⟨outcome, hinit⟩ := init_run (initIn_run_of_stop hthere)
    rw [hinit]
    refine Or.inr ⟨fun p t hw => ?_, rfl⟩
    -- a write would need an empty place, but there is something
    obtain ⟨hfree, hplace, -⟩ := hw.of_init hcommand
    have hnone : content s p = none := by simpa using hfree
    have hcontains := hthere.symm.trans (h.contains_eq hpath hplace)
    rw [hnone] at hcontains
    cases hcontains
  · have hgo : (there && !force) = false := by simpa using hstop
    rcases h.write s settingsPath Settings.template with
      ⟨e, hwrite⟩ | ⟨s', p, hwrite, hplace, hstored⟩
    · obtain ⟨written, hin⟩ := initIn_run_of_write hthere hgo hwrite
      obtain ⟨outcome, hinit⟩ := init_run hin
      rw [hinit]
      refine Or.inr ⟨fun p t hw => ?_, rfl⟩
      obtain ⟨-, -, s', hwrite'⟩ := hw.of_init hcommand
      cases hwrite.symm.trans hwrite'
    · obtain ⟨written, hin⟩ := initIn_run_of_write hthere hgo hwrite
      obtain ⟨outcome, hinit⟩ := init_run hin
      rw [hinit]
      have hcontains := hthere.symm.trans (h.contains_eq hpath hplace)
      have hfree : content s p = none ∨ force = true := by
        cases force with
        | true => exact Or.inr rfl
        | false =>
          rw [Prod.mk.injEq] at hcontains
          rw [hcontains.1] at hgo
          exact Or.inl (by simpa using hgo)
      exact Or.inl ⟨p, _, .init hcommand hfree hplace hwrite, hstored⟩

/-- Every call makes the one write that it was asked for, or changes nothing. -/
lemma writesOrSame (c : Call content) (s : σ) : c.WritesOrSame s (c.run s).2 := by
  cases hcommand : c.invocation.command with
  | expand request => exact c.writesOrSame_expand s hcommand
  | init force => exact c.writesOrSame_init s hcommand
  | generate request =>
    have hrun : c.run s = (generate c.host request).run s := by rw [run, Command.run, hcommand]
    obtain ⟨outcome, hgenerate⟩ := quiet_generate c.isFileSystem request s
    rw [hrun, hgenerate]
    refine Or.inr ⟨fun p t hw => ?_, rfl⟩
    cases hw with
    | expand hcommand' => cases hcommand.symm.trans hcommand'
    | init hcommand' => cases hcommand.symm.trans hcommand'

/-- The content of a place behind a call is what the call wrote there, or what it was. -/
lemma content_run (c : Call content) (s : σ) (p : Place) :
    (∃ t, c.Writes s p t ∧ content (c.run s).2 p = some (.file t)) ∨
      (∀ t, ¬ c.Writes s p t) ∧ content (c.run s).2 p = content s p := by
  rcases c.writesOrSame s with ⟨q, t, hwrites, hstored⟩ | ⟨hnone, hsame⟩
  · by_cases hp : p = q
    · subst hp
      exact Or.inl ⟨t, hwrites, (hstored p).trans (if_pos rfl)⟩
    · exact Or.inr ⟨fun u hu => hp (hu.unique hwrites), (hstored p).trans (if_neg hp)⟩
  · exact Or.inr ⟨hnone p, by rw [hsame]⟩

end Call

/-- The state behind some calls, one after the other. -/
def runAll : List (Call content) → σ → σ
  | [], s => s
  | c :: calls, s => runAll calls (c.run s).2

/-- No call of the run writes to the place. -/
def Untouched (calls : List (Call content)) (s : σ) (p : Place) : Prop :=
  ∀ before c after t, calls = before ++ c :: after → ¬ c.Writes (runAll before s) p t

/-- A call of the run writes the text to the place, and no call behind it writes there. -/
def LastWrite (calls : List (Call content)) (s : σ) (p : Place) (t : Text) : Prop :=
  ∃ before c after, calls = before ++ c :: after ∧ c.Writes (runAll before s) p t ∧
    Untouched after (runAll (before ++ [c]) s) p

lemma Untouched.cons {c : Call content} {calls : List (Call content)} {s : σ} {p : Place}
    (hc : ∀ t, ¬ c.Writes s p t) (h : Untouched calls (c.run s).2 p) : Untouched (c :: calls) s p := by
  intro before d after t hcalls
  cases before with
  | nil =>
    obtain ⟨rfl, -⟩ := List.cons.inj hcalls
    exact hc t
  | cons b before =>
    obtain ⟨rfl, hrest⟩ := List.cons.inj hcalls
    exact h before d after t hrest

lemma LastWrite.cons (c : Call content) {calls : List (Call content)} {s : σ} {p : Place} {t : Text}
    (h : LastWrite calls (c.run s).2 p t) : LastWrite (c :: calls) s p t := by
  obtain ⟨before, d, after, rfl, hwrites, hlast⟩ := h
  exact ⟨c :: before, d, after, rfl, hwrites, hlast⟩

/-- Behind a run, a place has the content of the last write to it, or it is as it was. -/
lemma content_runAll (calls : List (Call content)) (s : σ) (p : Place) :
    (∃ t, LastWrite calls s p t ∧ content (runAll calls s) p = some (.file t)) ∨
      Untouched calls s p ∧ content (runAll calls s) p = content s p := by
  induction calls generalizing s with
  | nil => exact Or.inr ⟨fun before c after t h => by simp at h, rfl⟩
  | cons c calls ih =>
    rcases ih (c.run s).2 with ⟨t, hlast, hcontent⟩ | ⟨huntouched, hcontent⟩
    · exact Or.inl ⟨t, hlast.cons, hcontent⟩
    · rcases c.content_run s p with ⟨t, hwrites, hwritten⟩ | ⟨hnone, hsame⟩
      · exact Or.inl ⟨t, ⟨[], c, calls, rfl, hwrites, huntouched⟩, hcontent.trans hwritten⟩
      · exact Or.inr ⟨.cons hnone huntouched, hcontent.trans hsame⟩

/-- **Commands change only what they are asked to write.**  For every file system and every run of
commands, a place has the content of the last write to it, or no call wrote to it and it is as it was.
A run of `expand` without its settings or its source changes nothing.  It succeeds if and only if its
settings are found, its source is read, the write is possible and no site has failed. -/
theorem writes_as_asked (content : σ → Place → Option Entry) :
    (∀ (calls : List (Call content)) (s : σ) (p : Place),
      (∃ t, LastWrite calls s p t ∧ content (runAll calls s) p = some (.file t)) ∨
        Untouched calls s p ∧ content (runAll calls s) p = content s p) ∧
    ∀ (c : Call content) (s : σ) (request : ExpandRequest),
      c.invocation.command = .expand request →
      (Blocked c.host s request → (c.run s).2 = s) ∧
      ((c.run s).1.error = none ↔ ∃ report, Reports c.host s request report ∧
        CanWrite c.host s request report.output ∧ report.failures = []) ∧
      (Parses c.host s request → ((c.run s).1.error = none ↔
        (∃ settings, (resolveSettings c.host request.config (some request.path)).run s =
          (.ok settings, s)) ∧
        (∃ source, (c.host.read request.path).run s = (.ok source, s)) ∧
        ∀ report, Reports c.host s request report →
          CanWrite c.host s request report.output ∧ report.failures = [])) := by
  refine ⟨content_runAll, fun c s request hcommand => ?_⟩
  have hrun := Call.run_expand hcommand s
  have herror := expand_error_iff c.isFileSystem hrun.symm
  refine ⟨fun hblocked => ?_, herror, fun hparses => herror.trans ?_⟩
  · rcases expand_run c.isFileSystem s request with ⟨report, hreport, -⟩ | ⟨-, e, hexpand⟩
    · exact absurd hreport (hblocked.not_reports report)
    · rw [hrun, hexpand]
  · constructor
    · rintro ⟨report, hreport, hcan⟩
      obtain ⟨hsettings, hsource, -, -⟩ := id hreport
      refine ⟨⟨_, hsettings⟩, ⟨_, hsource⟩, fun report' hreport' => ?_⟩
      rwa [hreport'.unique hreport]
    · rintro ⟨⟨settings, hsettings⟩, ⟨source, hsource⟩, hall⟩
      obtain ⟨tree, report, htree, hreport⟩ := hparses settings source hsettings hsource
      have hreports : Reports c.host s request report := ⟨hsettings, hsource, htree, hreport⟩
      exact ⟨report, hreports, hall report hreports⟩

end Calls

/-! ### A project -/

/-- A source with one site. -/
def oneMark : Text :=
  "@Asyncify\nfunc f(c: (Int) -> Void) \x7b\x7d\n".toList

/-- Its tree. -/
def oneMarkTree : Source.Node :=
  Source.rule "source_file" 0 38
    [Source.rule "function_declaration" 0 37
      [Source.rule "modifiers" 0 9 [Source.rule "attribute" 0 9 []],
        Source.token "func" 10 14, Source.rule "simple_identifier" 15 16 [], Source.token "(" 16 17,
        Source.rule "parameter" 17 33
          [Source.rule "simple_identifier" 17 18 [], Source.token ":" 18 19,
            Source.rule "function_type" 20 33 []],
        Source.token ")" 33 34, Source.rule "function_body" 35 37 []]]

/-- A call in the root of a store. -/
def callInRoot (command : CommandLine.Command) : Call Store.get? where
  host := Host.ofStore [] (some oneMarkTree)
  place? := fun s path => (s.locate [] path).toOption
  isFileSystem := Host.isFileSystem_ofStore [] (some oneMarkTree)
  invocation := { command }

/-- A store with one source. -/
def oneSource : Store :=
  ({} : Store).add ["A".toList] (.file oneMark)

/-- An expansion of the source. -/
def expansionOfA : ExpandRequest :=
  { path := "A".toList, output := some "B".toList, keepAttributes := true }

/-- An expansion over the source itself, with settings that are not there. -/
def expansionOverA : ExpandRequest :=
  { path := "A".toList, output := some "A".toList, config := some "C".toList }

/-- The source is expanded, a settings file is written, and an expansion comes to nothing. -/
def threeCalls : List (Call Store.get?) :=
  [callInRoot (.expand expansionOfA), callInRoot (.init false), callInRoot (.expand expansionOverA)]

theorem writes_as_asked_threeCalls :
    ((∃ t, LastWrite threeCalls oneSource ["B".toList] t ∧
      (runAll threeCalls oneSource).get? ["B".toList] = some (.file t)) ∧
    (∃ t, LastWrite threeCalls oneSource [Settings.fileName] t ∧
      (runAll threeCalls oneSource).get? [Settings.fileName] = some (.file t)) ∧
    (runAll threeCalls oneSource).get? ["A".toList] = oneSource.get? ["A".toList]) ∧
    ((callInRoot (.expand expansionOverA)).run oneSource).2 = oneSource ∧
    ((callInRoot (.expand expansionOfA)).run oneSource).1.error = none ∧
    ∀ report, Reports (callInRoot (.expand expansionOfA)).host oneSource expansionOfA report →
      report.failures = [] := by
  obtain ⟨hcontent, hexpand⟩ := writes_as_asked Store.get?
  refine ⟨⟨?_, ?_, by decide +kernel⟩, ?_, ?_⟩
  · have houtput : (runAll threeCalls oneSource).get? ["B".toList] ≠ oneSource.get? ["B".toList] := by
      decide +kernel
    exact (hcontent threeCalls oneSource _).resolve_right fun hsame => houtput hsame.2
  · have hsettings : (runAll threeCalls oneSource).get? [Settings.fileName] ≠
        oneSource.get? [Settings.fileName] := by
      decide +kernel
    exact (hcontent threeCalls oneSource _).resolve_right fun hsame => hsettings hsame.2
  · refine (hexpand (callInRoot (.expand expansionOverA)) oneSource expansionOverA rfl).1 ?_
    exact Or.inl ⟨"C".toList, rfl, Or.inl ⟨.notFound, by rfl⟩⟩
  · have herror : ((callInRoot (.expand expansionOfA)).run oneSource).1.error = none := by
      decide +kernel
    obtain ⟨-, hsucceeds, hsucceeds'⟩ := hexpand (callInRoot (.expand expansionOfA)) oneSource _ rfl
    obtain ⟨report, ⟨hsettings, hsource, htree, hreport⟩, -⟩ := hsucceeds.1 herror
    have hparses : Parses (callInRoot (.expand expansionOfA)).host oneSource expansionOfA := by
      intro settings source hsettings' hsource'
      cases hsettings.symm.trans hsettings'
      cases hsource.symm.trans hsource'
      exact ⟨_, report, htree, hreport⟩
    have hall := ((hsucceeds' hparses).1 herror).2.2
    exact ⟨herror, fun report hreport => (hall report hreport).2⟩

end Command

end AsyncPeer
