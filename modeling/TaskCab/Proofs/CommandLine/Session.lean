import TaskCab.CommandLine.Run
import TaskCab.Proofs.Files.Writes

/-!
# What a run does

A run first reads its configuration and its task file, and changes nothing when that fails. From what it
has read follows a script: the texts that it writes and prints, in order. On a file tree, a run makes its
directory and performs the script up to the first write that fails.
-/

namespace TaskCab

namespace Options

def configIn (options : Options) (parseConfig : ByteArray → Except String Config) (files : FileTree) :
    Except Failure Config :=
  match options.configFile with
  | none => .ok (Config.standard.override options)
  | some path =>
      match files.read path with
      | .error cause => .error (.config path (.file cause))
      | .ok content =>
          match parseConfig content with
          | .ok config => .ok (config.override options)
          | .error cause => .error (.config path (.content cause))

def sourceIn (options : Options) (files : FileTree) : Except Failure CabDocument :=
  match files.read options.file with
  | .error cause => .error (.source options.file cause)
  | .ok content =>
      match Extraction.ofFile options.file content with
      | .ok document => .ok document
      | .error cause => .error (.source options.file cause)

/-- What a run reads before it writes, unless that fails. -/
def readIn (options : Options) (parseConfig : ByteArray → Except String Config) (files : FileTree) :
    Except Failure (Config × CabDocument) :=
  if files.isFile options.file then
    match options.configIn parseConfig files, options.sourceIn files with
    | .error failure, _ => .error failure
    | .ok _, .error failure => .error failure
    | .ok config, .ok document => .ok (config, document)
  else .error (.missingFile options.file)

end Options

/-! ## Scripts -/

/-- What a run does once it has read its files. -/
inductive Step where
  | print (text : String)
  | save (path text : String)
deriving DecidableEq, Repr

namespace Step

def saves : List Step → List (String × String)
  | [] => []
  | print _ :: rest => saves rest
  | save path text :: rest => (path, text) :: saves rest

def printed : List Step → String
  | [] => ""
  | print text :: rest => text ++ printed rest
  | save _ _ :: rest => printed rest

theorem saves_append (first rest : List Step) : saves (first ++ rest) = saves first ++ saves rest := by
  induction first with
  | nil => rfl
  | cons step more ih => cases step <;> simp [saves, ih]

theorem printed_append (first rest : List Step) :
    printed (first ++ rest) = printed first ++ printed rest := by
  induction first with
  | nil => simp [printed]
  | cons step more ih => cases step <;> simp [printed, ih, String.append_assoc]

end Step

/-- What a run works with once it has read its files: among them, the published table of the task and the
time. -/
structure Session where
  options : Options
  config : Config
  extracted : CabDocument
  table : ReferenceTable
  time : String

namespace Session

def documentPath (session : Session) : String :=
  session.config.output.documentPath session.extracted.name session.options.format.extension

def fixedPath (session : Session) : String :=
  session.config.output.fixedPath session.extracted.name session.options.format.extension

def reportPath (session : Session) : String := session.config.output.reportPath session.extracted.name

def fixed? (session : Session) : Option (CabDocument × List String) :=
  if session.options.fixDescription then session.extracted.fix? session.table else none

/-- The document that is summarized and reported on: the fixed one if there is one. -/
def current (session : Session) : CabDocument :=
  match session.fixed? with
  | some (fixed, _) => fixed
  | none => session.extracted

theorem current_cases (session : Session) :
    session.current = session.extracted ∨
      session.current = session.extracted.filled session.table := by
  simp only [current, fixed?]
  cases session.options.fixDescription with
  | false => exact .inl rfl
  | true =>
      simp only [if_true, CabDocument.fix?]
      cases (session.extracted.fillable session.table).isEmpty with
      | false => exact .inr rfl
      | true => exact .inl rfl

theorem name_current (session : Session) : session.extracted.name = session.current.name := by
  rcases session.current_cases with same | same
  · rw [same]
  · rw [same]
    rfl

def report (session : Session) : Report := .ofTable session.current session.table

/-- The text of the report, if one was asked for and it has rows. -/
def reportText? (session : Session) : Option String :=
  if session.options.validateOnline then session.report.file? session.time else none

def filledLine (name : String) : String :=
  "Filled missing info for '" ++ name ++ "' from the reference documentation." ++ "\n"

def fixSteps (session : Session) : List Step :=
  if session.options.fixDescription then
    match session.extracted.fix? session.table with
    | none => [.print ("No missing descriptions could be filled." ++ "\n")]
    | some (fixed, names) =>
        names.map (fun name => .print (filledLine name)) ++
          [.save session.fixedPath (session.options.format.render fixed),
            .print ("Cab with fixed descriptions written to: " ++ session.fixedPath ++ "\n")]
  else []

def reportSteps (session : Session) : List Step :=
  if session.options.validateOnline then
    match session.report.file? session.time with
    | none => [.print ("No matching parameters found." ++ "\n")]
    | some text =>
        [.print ("\n" ++ Report.heading ++ "\n" ++ session.report.table ++ "\n"),
          .save session.reportPath text, .print ("Report written to: " ++ session.reportPath ++ "\n")]
  else []

def summaryText (session : Session) : String :=
  "Cab written to: " ++ session.documentPath ++ "\n\n" ++ Table.summary session.current

def script (session : Session) : List Step :=
  .save session.documentPath (session.options.format.render session.extracted) ::
    (session.fixSteps ++ .print session.summaryText :: session.reportSteps)

/-- The texts that a run writes, with their paths, in order. -/
def writes (session : Session) : List (String × String) := Step.saves session.script

end Session

/-! ## Actions on a world -/

namespace World

def after {Result : Type} (world : World) (action : ExceptT Failure (StateM World) Result) :
    Except Failure Result × World := action.run.run world

/-- Performs steps up to the first write that fails. -/
def perform (world : World) : List Step → Except Failure Unit × World
  | [] => (.ok (), world)
  | .print text :: rest => perform { world with printed := world.printed ++ text } rest
  | .save path text :: rest =>
      match world.files.write path text.toUTF8 with
      | .ok files => perform { world with files := files } rest
      | .error cause => (.error (.output cause), world)

def goOn {Result : Type} (next : World → Except Failure Result × World) :
    Except Failure Unit × World → Except Failure Result × World
  | (.ok (), world) => next world
  | (.error failure, world) => (.error failure, world)

theorem perform_append (world : World) (first rest : List Step) :
    world.perform (first ++ rest) = goOn (fun between => between.perform rest)
      (world.perform first) := by
  induction first generalizing world with
  | nil => rfl
  | cons step more ih =>
      cases step with
      | print text => exact ih _
      | save path text =>
          rw [List.cons_append, perform, perform]
          cases world.files.write path text.toUTF8 with
          | error cause => rfl
          | ok files => exact ih _

/-- Steps succeed exactly if their texts can be written, and leave what was written and printed. -/
theorem perform_ok_iff (world final : World) (steps : List Step) :
    world.perform steps = (.ok (), final) ↔
      world.files.writeAll (Step.saves steps) = .ok final.files ∧
        final.printed = world.printed ++ Step.printed steps := by
  induction steps generalizing world with
  | nil =>
      obtain ⟨files, printed⟩ := world
      obtain ⟨filesAfter, printedAfter⟩ := final
      simp [perform, Step.saves, Step.printed, FileTree.writeAll, eq_comm]
  | cons step rest ih =>
      cases step with
      | print text =>
          rw [perform, ih]
          simp [Step.saves, Step.printed, String.append_assoc]
      | save path text =>
          rw [perform, Step.saves, Step.printed, FileTree.writeAll]
          cases world.files.write path text.toUTF8 with
          | error cause => simp
          | ok files => exact ih _

theorem perform_error {world final : World} {steps : List Step} {failure : Failure}
    (fails : world.perform steps = (.error failure, final)) : ∃ cause, failure = .output cause := by
  induction steps generalizing world with
  | nil => simp [perform] at fails
  | cons step rest ih =>
      cases step with
      | print text => exact ih fails
      | save path text =>
          rw [perform] at fails
          cases written : world.files.write path text.toUTF8 with
          | error cause =>
              rw [written] at fails
              obtain ⟨same, -⟩ := Prod.mk.inj fails
              exact ⟨cause, (Except.error.inj same).symm⟩
          | ok files =>
              rw [written] at fails
              exact ih fails

section

variable {First Result : Type} (world : World)

theorem after_bind (action : ExceptT Failure (StateM World) First)
    (next : First → ExceptT Failure (StateM World) Result) :
    world.after (action >>= next) =
      match world.after action with
      | (.ok first, between) => between.after (next first)
      | (.error failure, between) => (.error failure, between) := by
  have step : world.after (action >>= next) =
      ExceptT.bindCont next (action.run.run world).1 (action.run.run world).2 := rfl
  rw [step, after]
  cases action.run.run world with
  | mk result between =>
      cases result with
      | ok first => rfl
      | error failure => rfl

end

section

variable (world : World) (pages : String → Option String) (time : String)
  (parse : ByteArray → Except String Config)

theorem after_is_file (path : String) :
    world.after (liftM ((host pages time parse).isFile path) : ExceptT Failure (StateM World) Bool) =
      (.ok (world.files.isFile path), world) := rfl

theorem after_read (failure : FileError → Failure) (path : String) :
    world.after (Host.attempt failure ((host pages time parse).read path)) =
      ((world.files.read path).mapError failure, world) := rfl

theorem after_config (options : Options) :
    world.after ((host pages time parse).config options) = (options.configIn parse world.files, world) := by
  unfold Host.config Options.configIn
  cases options.configFile with
  | none => rfl
  | some path =>
      dsimp only
      rw [after_bind, after_read]
      cases world.files.read path with
      | error cause => rfl
      | ok content =>
          dsimp only [Except.mapError]
          rw [show (host pages time parse).parseConfig content = parse content from rfl]
          cases parse content <;> rfl

theorem after_source (options : Options) :
    world.after ((host pages time parse).source options.file) = (options.sourceIn world.files, world) := by
  unfold Host.source Options.sourceIn
  rw [after_bind, after_read]
  cases world.files.read options.file with
  | error cause => rfl
  | ok content =>
      dsimp only [Except.mapError]
      cases Extraction.ofFile options.file content <;> rfl

theorem after_save (path text : String) :
    world.after ((host pages time parse).save path text) = world.perform [.save path text] := by
  have changed : world.after ((host pages time parse).save path text) =
      ((change (fun files => files.write path text.toUTF8) world).1.mapError .output,
        (change (fun files => files.write path text.toUTF8) world).2) := rfl
  rw [changed, change, perform]
  cases world.files.write path text.toUTF8 <;> rfl

/-- The published table of a task, where some pages can be reached. -/
def tableOf (pages : String → Option String) (config : DocsConfig) (task : String) : ReferenceTable :=
  ReferenceTable.orEmpty (ReferenceTable.ofPage config task (pages (config.pageUrl task)))

theorem after_table (config : DocsConfig) (task : String) :
    world.after (liftM ((host pages time parse).table config task) :
      ExceptT Failure (StateM World) ReferenceTable) = (.ok (tableOf pages config task), world) := rfl

/-- An action that performs steps and has a result. -/
def Performs {Result : Type} (action : ExceptT Failure (StateM World) Result) (steps : List Step)
    (result : Result) : Prop :=
  ∀ world : World, world.after action =
    goOn (fun between => (.ok result, between)) (world.perform steps)

theorem performs_bind {First Result : Type} {action : ExceptT Failure (StateM World) First}
    {first : First} {steps rest : List Step} (performs : Performs action steps first)
    {next : First → ExceptT Failure (StateM World) Result} {result : Result}
    (performsNext : Performs (next first) rest result) :
    Performs (action >>= next) (steps ++ rest) result := by
  intro world
  rw [after_bind, performs world, perform_append]
  cases world.perform steps with
  | mk outcome between =>
      cases outcome with
      | ok => exact performsNext between
      | error failure => rfl

theorem performs_pure {Result : Type} (result : Result) : Performs (pure result) [] result :=
  fun _ => rfl

theorem performs_print (text : String) :
    Performs (liftM ((host pages time parse).print text)) [.print text] () := fun _ => rfl

theorem performs_save (path text : String) :
    Performs ((host pages time parse).save path text) [.save path text] () := by
  intro world
  rw [after_save]
  cases world.perform [.save path text] with
  | mk outcome between => cases outcome <;> rfl

/-- Performs a print in front of what follows it. -/
theorem performs_print_bind {Result : Type} (text : String)
    {next : Unit → ExceptT Failure (StateM World) Result} {steps : List Step} {result : Result}
    (performs : Performs (next ()) steps result) :
    Performs (liftM ((host pages time parse).print text) >>= next) (.print text :: steps) result :=
  performs_bind (performs_print pages time parse text) performs

theorem performs_lines (names : List String) (line : String → String) :
    Performs
      (forIn names PUnit.unit fun name _ => do
        liftM ((host pages time parse).printLine (line name))
        pure (ForInStep.yield PUnit.unit))
      (names.map fun name => .print (line name ++ "\n")) PUnit.unit := by
  induction names with
  | nil => exact performs_pure PUnit.unit
  | cons name rest ih =>
      rw [List.forIn_cons, List.map_cons, bind_assoc]
      apply performs_print_bind
      rw [pure_bind]
      exact ih

theorem performs_table (docs : DocsConfig) (name : String) :
    Performs (liftM ((host pages time parse).table docs name)) [] (tableOf pages docs name) := by
  intro world
  rw [after_table]
  rfl

theorem performs_fix (session : Session) (asked : session.options.fixDescription = true)
    (table : session.table = tableOf pages session.config.docs session.extracted.name) :
    Performs ((host pages time parse).fix session.config session.options session.extracted)
      session.fixSteps session.current := by
  have fetched := performs_table pages time parse session.config.docs session.extracted.name
  rw [← table] at fetched
  unfold Host.fix
  cases found : session.extracted.fix? session.table with
  | none =>
      have steps : session.fixSteps = [.print ("No missing descriptions could be filled." ++ "\n")] := by
        simp [Session.fixSteps, asked, found]
      have same : session.current = session.extracted := by
        simp [Session.current, Session.fixed?, asked, found]
      rw [steps, same, ← List.nil_append [_]]
      apply performs_bind fetched
      rw [found]
      apply performs_print_bind
      exact performs_pure session.extracted
  | some result =>
      obtain ⟨fixed, names⟩ := result
      have steps : session.fixSteps = [] ++
          (names.map (fun name => .print (Session.filledLine name)) ++
            ([.save session.fixedPath (session.options.format.render fixed)] ++
              [.print ("Cab with fixed descriptions written to: " ++ session.fixedPath ++ "\n")])) := by
        simp [Session.fixSteps, asked, found]
      have same : session.current = fixed := by
        simp [Session.current, Session.fixed?, asked, found]
      rw [steps, same]
      apply performs_bind fetched
      rw [found]
      apply performs_bind (performs_lines pages time parse names _)
      apply performs_bind (performs_save pages time parse _ _)
      apply performs_print_bind
      exact performs_pure fixed

theorem performs_validate (session : Session) (asked : session.options.validateOnline = true)
    (table : session.table = tableOf pages session.config.docs session.extracted.name)
    (timed : session.time = time) :
    Performs ((host pages time parse).validate session.config session.current) session.reportSteps () := by
  have fetched := performs_table pages time parse session.config.docs session.current.name
  rw [session.name_current] at table
  rw [← table] at fetched
  have clock : Performs (liftM (host pages time parse).time) [] session.time := by
    rw [timed]
    exact fun _ => rfl
  have report : Report.ofTable session.current session.table = session.report := rfl
  unfold Host.validate
  cases found : session.report.file? session.time with
  | none =>
      have steps : session.reportSteps = [] ++ ([] ++
          [.print ("No matching parameters found." ++ "\n")]) := by
        simp [Session.reportSteps, asked, found]
      rw [steps]
      apply performs_bind fetched
      dsimp only
      rw [report]
      apply performs_bind clock
      rw [found]
      exact performs_print pages time parse _
  | some text =>
      have steps : session.reportSteps = [] ++ ([] ++
          (.print ("\n" ++ Report.heading ++ "\n" ++ session.report.table ++ "\n") ::
            ([.save session.reportPath text] ++
              [.print ("Report written to: " ++ session.reportPath ++ "\n")]))) := by
        simp [Session.reportSteps, asked, found]
      have path : session.config.output.reportPath session.current.name = session.reportPath := by
        rw [← session.name_current]
        rfl
      rw [steps]
      apply performs_bind fetched
      dsimp only
      rw [report]
      apply performs_bind clock
      rw [found, path]
      apply performs_print_bind
      apply performs_bind (performs_save pages time parse _ _)
      exact performs_print pages time parse _

theorem performs_summary (session : Session)
    (table : session.table = tableOf pages session.config.docs session.extracted.name)
    (timed : session.time = time) :
    Performs (do
        liftM ((host pages time parse).print session.summaryText)
        if session.options.validateOnline then
          (host pages time parse).validate session.config session.current)
      (.print session.summaryText :: session.reportSteps) () := by
  apply performs_print_bind
  by_cases asked : session.options.validateOnline = true
  · rw [if_pos asked]
    exact performs_validate pages time parse session asked table timed
  · have steps : session.reportSteps = [] := by simp [Session.reportSteps, asked]
    rw [if_neg asked, steps]
    exact performs_pure ()

theorem performs_script (session : Session)
    (table : session.table = tableOf pages session.config.docs session.extracted.name)
    (timed : session.time = time) :
    Performs (do
        (host pages time parse).save session.documentPath (session.options.format.render session.extracted)
        let document ←
          if session.options.fixDescription then
            (host pages time parse).fix session.config session.options session.extracted
          else pure session.extracted
        liftM ((host pages time parse).print
          ("Cab written to: " ++ session.documentPath ++ "\n\n" ++ Table.summary document))
        if session.options.validateOnline then
          (host pages time parse).validate session.config document)
      session.script () := by
  apply performs_bind (performs_save pages time parse _ _)
  by_cases asked : session.options.fixDescription = true
  · rw [if_pos asked]
    apply performs_bind (performs_fix pages time parse session asked table)
    exact performs_summary pages time parse session table timed
  · have steps : session.fixSteps = [] := by simp [Session.fixSteps, asked]
    have same : session.extracted = session.current := by
      simp [Session.current, Session.fixed?, asked]
    rw [if_neg asked, steps, same, pure_bind]
    exact performs_summary pages time parse session table timed

theorem continue_ok (result : Except Failure Unit × World) :
    goOn (fun between => (.ok (), between)) result = result := by
  obtain ⟨outcome, between⟩ := result
  cases outcome <;> rfl

theorem after_create (world : World) (path : String) :
    world.after
        (Host.attempt (.outputDirectory path) ((host pages time parse).createDirectories path)) =
      match world.files.createDirectories path with
      | .ok made => (.ok (), { world with files := made })
      | .error cause => (.error (.outputDirectory path cause), world) := by
  have changed : world.after
      (Host.attempt (.outputDirectory path) ((host pages time parse).createDirectories path)) =
      ((change (fun files => files.createDirectories path) world).1.mapError (.outputDirectory path),
        (change (fun files => files.createDirectories path) world).2) := rfl
  rw [changed, change]
  cases world.files.createDirectories path <;> rfl

def session (world : World) (options : Options) : Except Failure Session :=
  (options.readIn parse world.files).map fun (config, extracted) =>
    ⟨options, config, extracted, tableOf pages config.docs extracted.name, time⟩

/-- What a run does: it reads its files, makes its directory and performs its script. -/
theorem after_run (world : World) (options : Options) :
    world.after ((host pages time parse).run options) =
      match world.session pages time parse options with
      | .error failure => (.error failure, world)
      | .ok session =>
          match world.files.createDirectories session.config.output.directory with
          | .error cause => (.error (.outputDirectory session.config.output.directory cause), world)
          | .ok made => perform { world with files := made } session.script := by
  unfold Host.run
  rw [after_bind, after_is_file]
  unfold session Options.readIn
  dsimp only
  by_cases isFile : world.files.isFile options.file = true
  · rw [if_pos isFile, if_pos isFile, after_bind, after_config]
    cases options.configIn parse world.files with
    | error failure => rfl
    | ok config =>
        dsimp only
        rw [after_bind, after_source]
        cases options.sourceIn world.files with
        | error failure => rfl
        | ok extracted =>
            dsimp only [Except.map]
            rw [after_bind, after_create]
            cases world.files.createDirectories config.output.directory with
            | error cause => rfl
            | ok made =>
                let current : Session :=
                  ⟨options, config, extracted, tableOf pages config.docs extracted.name, time⟩
                dsimp only
                rw [← continue_ok (perform _ _)]
                exact performs_script pages time parse current rfl rfl { world with files := made }
  · rw [if_neg isFile, if_neg isFile]
    rfl

end

end World

end TaskCab
