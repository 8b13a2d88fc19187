import TaskCab.Proofs.CommandLine.Session
import TaskCab.Proofs.Reference.Filled

/-!
# What a run leaves behind

A run that cannot read its files changes nothing. One that succeeds has written its texts in order, and a
place holds the last text whose path leads there. The paths come from the configuration and the name of the
task file, and nothing keeps them apart: where two lead to one file, or one leads to the task file, the
later text replaces what was there.
-/

namespace TaskCab

namespace Failure

/-- Whether a run ended before it changed anything, since its task file or configuration cannot be read. -/
def isReading : Failure → Bool
  | missingFile _ | config .. | source .. => true
  | outputDirectory .. | output _ => false

end Failure

/-! ## The texts of a session -/

namespace Session

theorem saves_map_print (names : List String) (line : String → String) :
    Step.saves (names.map fun name => .print (line name)) = [] := by
  induction names with
  | nil => rfl
  | cons name rest ih => exact ih

/-- The texts that a session writes after its document: the fixed document if there is one, and the report
if there is one. -/
def laterWrites (session : Session) : List (String × String) :=
  (session.fixed?.toList.map fun fixed =>
      (session.fixedPath, session.options.format.render fixed.1)) ++
    session.reportText?.toList.map fun text => (session.reportPath, text)

theorem writes_eq (session : Session) :
    session.writes = (session.documentPath, session.options.format.render session.extracted) ::
      session.laterWrites := by
  have fixes : Step.saves session.fixSteps = session.fixed?.toList.map fun fixed =>
      (session.fixedPath, session.options.format.render fixed.1) := by
    unfold fixSteps fixed?
    split
    · cases session.extracted.fix? session.table with
      | none => rfl
      | some result =>
          dsimp only
          rw [Step.saves_append, saves_map_print]
          rfl
    · rfl
  have reports : Step.saves session.reportSteps =
      session.reportText?.toList.map fun text => (session.reportPath, text) := by
    unfold reportSteps reportText?
    split
    · cases session.report.file? session.time <;> rfl
    · rfl
  rw [laterWrites, ← fixes, ← reports, writes, script, Step.saves, Step.saves_append, Step.saves]

theorem printed_script (session : Session) :
    Step.printed session.script = Step.printed session.fixSteps ++ session.summaryText ++
      Step.printed session.reportSteps := by
  rw [script, Step.printed, Step.printed_append, Step.printed, String.append_assoc]

/-- There is a fixed document exactly if that was asked for and an input without a description has one in
the table. -/
theorem fixed_iff (session : Session) :
    session.fixed?.isSome = true ↔ session.options.fixDescription = true ∧
      ∃ entry ∈ session.extracted.inputs, entry.2.info = "" ∧
        ∃ reference, Entries.get? entry.1 session.table = some reference ∧
          reference.description ≠ "" := by
  have fills : session.extracted.fillable session.table ≠ [] ↔
      ∃ entry ∈ session.extracted.inputs, entry.2.info = "" ∧
        ∃ reference, Entries.get? entry.1 session.table = some reference ∧
          reference.description ≠ "" := by
    rw [ne_eq, CabDocument.fillable, List.map_eq_nil_iff, List.filter_eq_nil_iff]
    push Not
    refine exists_congr fun entry => and_congr_right fun _ => ?_
    rw [Option.isSome_iff_exists]
    constructor
    · intro ⟨info, found⟩
      obtain ⟨noInfo, described, reference, known, rfl⟩ :=
        (CabDocument.missing_info_iff _ _ _ _).mp found
      exact ⟨noInfo, reference, known, described⟩
    · intro ⟨noInfo, reference, known, described⟩
      exact ⟨_, (CabDocument.missing_info_iff _ _ _ _).mpr
        ⟨noInfo, described, reference, known, rfl⟩⟩
  rw [← fills, fixed?]
  cases session.options.fixDescription with
  | false => simp
  | true => simp [CabDocument.fix?]

/-- There is a report exactly if one was asked for and the document has inputs. -/
theorem report_iff (session : Session) :
    session.reportText?.isSome = true ↔
      session.options.validateOnline = true ∧ session.extracted.inputs ≠ [] := by
  have rows : session.report.rows = [] ↔ session.extracted.inputs = [] := by
    rw [report, Report.ofTable, List.map_eq_nil_iff]
    rcases session.current_cases with same | same
    · rw [same]
    · rw [same, CabDocument.filled, List.map_eq_nil_iff]
  unfold reportText? Report.file?
  cases session.options.validateOnline with
  | false => simp
  | true => simp [rows]

theorem fixed_of_session {session : Session} {fixed : CabDocument × List String}
    (found : fixed ∈ session.fixed?) :
    fixed.1 = session.extracted.filled session.table ∧
      session.extracted.fillable session.table ≠ [] := by
  rw [Option.mem_def, fixed?] at found
  split at found
  next =>
    refine ⟨(CabDocument.fixed_of_fix found).1.symm, ?_⟩
    intro none
    simp [CabDocument.fix?, none] at found
  next => simp at found

theorem text_of_report {session : Session} {text : String} (found : text ∈ session.reportText?) :
    text = (Report.ofTable session.current session.table).markdown session.time := by
  rw [Option.mem_def, reportText?] at found
  split at found
  next =>
    unfold Report.file? at found
    split at found
    next => simp at found
    next => exact (Option.some.inj found).symm
  next => simp at found

theorem current_eq (session : Session) :
    session.current = (session.fixed?.map Prod.fst).getD session.extracted := by
  unfold current
  cases session.fixed? <;> rfl

theorem head_of_document (format : DocumentFormat) (document : CabDocument) :
    (format.render document).toList.head? ≠ some '#' := by
  cases format with
  | yaml => simp [DocumentFormat.render, Yaml.document, Yaml.documentLines, Yaml.unlines]
  | json =>
      simp [DocumentFormat.render, CabDocument.toJson, Json.indented, Package.toJson, Json.render,
        Json.enclose_eq]

theorem text_ne_document {session : Session} {write : String × String}
    (member : write ∈ session.laterWrites) :
    write.2 ≠ session.options.format.render session.extracted := by
  rcases List.mem_append.mp member with fixes | reports
  · obtain ⟨fixed, found, rfl⟩ := List.mem_map.mp fixes
    obtain ⟨same, fills⟩ := fixed_of_session (Option.mem_toList.mp found)
    have longer := CabDocument.length_render_lt session.options.format fills
    intro equal
    dsimp only at equal
    rw [← equal, same] at longer
    exact lt_irrefl _ longer
  · obtain ⟨text, found, rfl⟩ := List.mem_map.mp reports
    have head : text.toList.head? = some '#' := by
      rw [text_of_report (Option.mem_toList.mp found)]
      simp [Report.markdown, Report.heading]
    intro equal
    dsimp only at equal
    rw [equal] at head
    exact head_of_document session.options.format session.extracted head

end Session

/-! ## Runs and calls -/

namespace World

theorem is_reading_of_config {options : Options} {parse : ByteArray → Except String Config}
    {files : FileTree} {failure : Failure} (fails : options.configIn parse files = .error failure) :
    failure.isReading = true := by
  unfold Options.configIn at fails
  split at fails
  next => simp at fails
  next path _ =>
    have cause : ∃ error, failure = .config path error := by
      split at fails
      next => exact ⟨_, (Except.error.inj fails).symm⟩
      next =>
        split at fails
        next => simp at fails
        next => exact ⟨_, (Except.error.inj fails).symm⟩
    obtain ⟨error, rfl⟩ := cause
    rfl

theorem is_reading_of_source {options : Options} {files : FileTree} {failure : Failure}
    (fails : options.sourceIn files = .error failure) : failure.isReading = true := by
  have cause : ∃ error, failure = .source options.file error := by
    unfold Options.sourceIn at fails
    split at fails
    next => exact ⟨_, (Except.error.inj fails).symm⟩
    next =>
      split at fails
      next => simp at fails
      next => exact ⟨_, (Except.error.inj fails).symm⟩
  obtain ⟨error, rfl⟩ := cause
  rfl

theorem is_reading_of_read_in {options : Options} {parse : ByteArray → Except String Config}
    {files : FileTree} {failure : Failure} (fails : options.readIn parse files = .error failure) :
    failure.isReading = true := by
  unfold Options.readIn at fails
  split at fails
  next =>
    split at fails
    next config =>
      rw [Except.error.inj fails] at config
      exact is_reading_of_config config
    next source =>
      rw [Except.error.inj fails] at source
      exact is_reading_of_source source
    next => simp at fails
  next =>
    rw [← Except.error.inj fails]
    rfl

section

variable {pages : String → Option String} {time : String} {parse : ByteArray → Except String Config}
  {world final : World} {options : Options}

/-- A run whose files cannot be read ends with that, and changes nothing. -/
theorem fails_of_session {failure : Failure}
    (noSession : world.session pages time parse options = .error failure) :
    world.after ((host pages time parse).run options) = (.error failure, world) ∧
      failure.isReading = true := by
  refine ⟨by rw [after_run, noSession], ?_⟩
  cases read : options.readIn parse world.files with
  | error cause =>
      rw [session, read] at noSession
      obtain rfl : cause = failure := Except.error.inj noSession
      exact is_reading_of_read_in read
  | ok found =>
      rw [session, read] at noSession
      simp [Except.map] at noSession

/-- A run that fails over its files has no session. -/
theorem no_session_of_reading {failure : Failure}
    (fails : world.after ((host pages time parse).run options) = (.error failure, final))
    (reading : failure.isReading = true) :
    world.session pages time parse options = .error failure := by
  rw [after_run] at fails
  split at fails
  next cause noSession =>
    obtain ⟨same, -⟩ := Prod.mk.inj fails
    exact noSession.trans (congrArg Except.error (Except.error.inj same))
  next session found =>
    split at fails
    next =>
      obtain ⟨same, -⟩ := Prod.mk.inj fails
      rw [← Except.error.inj same] at reading
      simp [Failure.isReading] at reading
    next made _ =>
      obtain ⟨cause, rfl⟩ := perform_error fails
      simp [Failure.isReading] at reading

/-- The options and the time of a session are those of its run, and the task file is there. -/
theorem file_of_session {session : Session} (found : world.session pages time parse options = .ok session) :
    session.options = options ∧ session.time = time ∧
      ∃ target content, world.files.Holds options.file target content := by
  unfold World.session Options.readIn at found
  split at found
  next isFile =>
    have task : ∃ target content, world.files.Holds options.file target content := by
      obtain ⟨content, reads⟩ := FileTree.read_of_is_file isFile
      obtain ⟨target, holds⟩ := FileTree.holds_of_read reads
      exact ⟨target, content, holds⟩
    split at found
    next => simp [Except.map] at found
    next => simp [Except.map] at found
    next =>
      obtain rfl := Except.ok.inj found
      exact ⟨rfl, rfl, task⟩
  next => simp [Except.map] at found

/-- A run that succeeds has read its files, made its directory and written its texts. -/
theorem session_of_success (succeeds : world.after ((host pages time parse).run options) = (.ok (), final)) :
    ∃ session made, world.session pages time parse options = .ok session ∧
      world.files.createDirectories session.config.output.directory = .ok made ∧
      FileTree.WritesAll made final.files session.writes ∧
      final.printed = world.printed ++ Step.printed session.script := by
  rw [after_run] at succeeds
  split at succeeds
  next => simp at succeeds
  next session found =>
    split at succeeds
    next => simp at succeeds
    next made created =>
      obtain ⟨written, printed⟩ := (perform_ok_iff _ _ _).mp succeeds
      exact ⟨session, made, found, created, FileTree.write_all_cases written, printed⟩

theorem call_run {arguments : List String} (asks : Request.ofArguments arguments = .run options) :
    ((host pages time parse).call arguments).run world =
      match world.after ((host pages time parse).run options) with
      | (.ok (), final) => (.success, final)
      | (.error failure, final) => (.failed failure, final) := by
  unfold Host.call
  rw [asks]
  dsimp only
  have ran : ((host pages time parse).run options).run.run world =
      world.after ((host pages time parse).run options) := rfl
  rw [StateT.run_bind, ran]
  cases world.after ((host pages time parse).run options) with
  | mk result final => cases result <;> rfl

theorem call_other {arguments : List String}
    (asks : ∀ options, Request.ofArguments arguments ≠ .run options) :
    (((host pages time parse).call arguments).run world).2.files = world.files := by
  unfold Host.call
  cases request : Request.ofArguments arguments with
  | run options => exact absurd request (asks options)
  | help => rfl
  | version => rfl
  | misused => rfl

end

end World

namespace Session

/-- Whether the paths of a session are apart: no two lead to one place, and none to the task file. -/
structure Apart (session : Session) (tree : FileTree) : Prop where
  outputs : session.writes.Pairwise fun first second => tree.place first.1 ≠ tree.place second.1
  input : ∀ write ∈ session.writes, tree.place write.1 ≠ tree.place session.options.file

/-- What a session leaves behind once its directory has been made: every place holds the last text that was
written there, or what it held. Where the paths are apart, each text has its file, and the task file is as
it was. -/
structure Leaves (session : Session) (before : World) (made : FileTree) (after : World) : Prop where
  directory : before.files.createDirectories session.config.output.directory = .ok made
  added : FileTree.AddsDirectories before.files made
  node : ∀ place, after.files.node? place =
    match made.lastText? place session.writes with
    | some text => some (.file text.toUTF8)
    | none => made.node? place
  outputs : session.Apart made →
    ∀ write ∈ session.writes, after.files.read write.1 = .ok write.2.toUTF8
  input : session.Apart made →
    after.files.read session.options.file = before.files.read session.options.file
  printed : after.printed = before.printed ++
    (Step.printed session.fixSteps ++
      ("Cab written to: " ++ session.documentPath ++ "\n\n" ++ Table.summary session.current) ++
      Step.printed session.reportSteps)

/-- After the texts of a session have been written, the file of its document holds it exactly if no later
text was written there. -/
theorem document_read_iff (session : Session) {before after : FileTree}
    (written : FileTree.WritesAll before after session.writes) :
    after.read session.documentPath =
        .ok (session.options.format.render session.extracted).toUTF8 ↔
      ∀ write ∈ session.laterWrites, before.place write.1 ≠ before.place session.documentPath := by
  have first : (session.documentPath, session.options.format.render session.extracted) ∈
      session.writes := by
    rw [session.writes_eq]
    exact List.mem_cons_self
  obtain ⟨target, leads, noSlash⟩ := written.leads _ first
  have elsewhere (write : String × String) :
      before.place write.1 ≠ before.place session.documentPath ↔
        before.leads write.1 target = false := by
    rw [Bool.eq_false_iff, ne_eq, ne_eq, FileTree.leads_iff, leads]
  have reads {text : String} (last : before.lastText? target session.writes = some text) :=
    FileTree.read_written written leads noSlash last
  simp only [elsewhere, ← FileTree.last_text_none_iff]
  cases later : before.lastText? target session.laterWrites with
  | none =>
      have last : before.lastText? target session.writes =
          some (session.options.format.render session.extracted) := by
        rw [session.writes_eq, FileTree.lastText?, later]
        exact if_pos ((FileTree.leads_iff before session.documentPath target).mpr leads)
      simp [reads last]
  | some text =>
      have last : before.lastText? target session.writes = some text := by
        rw [session.writes_eq, FileTree.lastText?, later]
      obtain ⟨write, member, rfl, -⟩ := FileTree.mem_of_last_text later
      have different := text_ne_document member
      rw [reads last]
      simp [String.toByteArray_inj, different]

end Session

namespace World

section

variable (pages : String → Option String) (time : String) (parse : ByteArray → Except String Config)

theorem leaves_of_success {world final : World} {options : Options}
    (succeeds : world.after ((host pages time parse).run options) = (.ok (), final)) :
    ∃ session made, world.session pages time parse options = .ok session ∧
      session.Leaves world made final := by
  obtain ⟨session, made, found, directory, written, printed⟩ := session_of_success succeeds
  obtain ⟨rfl, -, target, content, task⟩ := file_of_session found
  have added := FileTree.adds_create_directories directory
  refine ⟨session, made, found, directory, added, written.node, ?_, ?_, ?_⟩
  · intro apart write member
    obtain ⟨place, leads, noSlash⟩ := written.leads write member
    apply FileTree.read_written written leads noSlash
    exact FileTree.last_text_of_apart apart.outputs member leads
  · intro apart
    have kept := FileTree.holds_of_adds added task
    have untouched : made.lastText? target session.writes = none := by
      rw [FileTree.last_text_none_iff]
      intro write member
      rw [Bool.eq_false_iff, ne_eq, FileTree.leads_iff, ← kept.leads]
      exact apart.input write member
    rw [FileTree.read_of_holds task]
    exact FileTree.read_unwritten written kept untouched
  · exact printed.trans (congrArg (world.printed ++ ·) session.printed_script)

/-- What a call leaves behind. A call that runs nothing changes no file. A run fails over its files exactly if
they cannot be read, and changes nothing at all then. A run that succeeds has written its document; a fixed document exactly if that was
asked for and an input without a description has one in the table; and a report exactly if that was asked for
and there are inputs. It summarizes and reports on the fixed document if there is one. -/
theorem call_leaves (arguments : List String) {world final : World} {exit : Exit}
    (ends : ((host pages time parse).call arguments).run world = (exit, final)) :
    ((∀ options, Request.ofArguments arguments ≠ .run options) → final.files = world.files) ∧
    ∀ options, Request.ofArguments arguments = .run options →
      (∀ failure, exit = .failed failure ∧ failure.isReading = true ↔
        world.session pages time parse options = .error failure) ∧
      (∀ failure, world.session pages time parse options = .error failure → final = world) ∧
      (exit = .success → ∃ session made, world.session pages time parse options = .ok session ∧
        session.Leaves world made final ∧
        session.writes = (session.documentPath, options.format.render session.extracted) ::
          ((session.fixed?.toList.map fun fixed =>
              (session.fixedPath, options.format.render fixed.1)) ++
            session.reportText?.toList.map fun text => (session.reportPath, text)) ∧
        (session.fixed?.isSome = true ↔ options.fixDescription = true ∧
          ∃ entry ∈ session.extracted.inputs, entry.2.info = "" ∧
            ∃ reference, Entries.get? entry.1 session.table = some reference ∧
              reference.description ≠ "") ∧
        (∀ fixed ∈ session.fixed?, fixed.1 = session.extracted.filled session.table) ∧
        (session.reportText?.isSome = true ↔
          options.validateOnline = true ∧ session.extracted.inputs ≠ []) ∧
        session.current = (session.fixed?.map Prod.fst).getD session.extracted ∧
        ∀ text ∈ session.reportText?,
          text = (Report.ofTable session.current session.table).markdown time) := by
  refine ⟨?_, ?_⟩
  · intro asks
    have unchanged : (((host pages time parse).call arguments).run world).2.files = world.files :=
      call_other asks
    rw [ends] at unchanged
    exact unchanged
  · intro options asks
    rw [call_run asks] at ends
    cases ran : world.after ((host pages time parse).run options) with
    | mk result after =>
        rw [ran] at ends
        cases result with
        | error failure =>
            obtain ⟨rfl, rfl⟩ := Prod.mk.inj ends
            refine ⟨fun other => ⟨?_, fun noSession => ?_⟩, fun other noSession => ?_, by simp⟩
            · rintro ⟨same, reading⟩
              obtain rfl := Exit.failed.inj same
              exact no_session_of_reading ran reading
            · obtain ⟨fails, reading⟩ := fails_of_session noSession
              rw [ran] at fails
              obtain rfl : failure = other := Except.error.inj (Prod.mk.inj fails).1
              exact ⟨rfl, reading⟩
            · have fails := (fails_of_session noSession).1
              rw [ran] at fails
              exact (Prod.mk.inj fails).2
        | ok =>
            obtain ⟨rfl, rfl⟩ := Prod.mk.inj ends
            obtain ⟨session, made, found, leaves⟩ := leaves_of_success pages time parse ran
            refine ⟨by simp [found], by simp [found], fun _ => ?_⟩
            obtain ⟨rfl, rfl, -⟩ := file_of_session found
            exact ⟨session, made, found, leaves, session.writes_eq, session.fixed_iff,
              fun fixed member => (Session.fixed_of_session member).1, session.report_iff,
              session.current_eq, fun text member => Session.text_of_report member⟩

end

def taskPage (_ : String) : Option String :=
  some "<table><tr><th>Name</th></tr><tr><td>x</td><td>1</td><td>A value</td></tr></table>"

def taskWorld : World :=
  ⟨⟨[(["t.py"], .file "class T:\n    def __call__(self, x=1):\n        pass\n".toUTF8),
      (["c.yml"], .file "output:\n  report_suffix: .yaml\n".toUTF8)], []⟩, ""⟩

/-- A call that asks for everything leaves three files, and one without a task file leaves none. -/
theorem call_leaves_of_filled :
    (∃ final, ∃ session : Session,
      ((host taskPage "noon" Config.ofFile).call ["--fix-description", "--validate-online", "t.py"]).run taskWorld =
        (.success, final) ∧
      session.writes.map Prod.fst =
        ["./t.yaml", "./t_fixed.yaml", "./t_online_validation_report.md"] ∧
      (∀ write ∈ session.writes, final.files.read write.1 = .ok write.2.toUTF8) ∧
      final.files.read "t.py" = taskWorld.files.read "t.py") ∧
    ((host taskPage "noon" Config.ofFile).call ["absent.py"]).run taskWorld =
      (.failed (.missingFile "absent.py"), taskWorld) := by
  have asks : Request.ofArguments ["--fix-description", "--validate-online", "t.py"] =
      .run ⟨"t.py", true, true, false, .yaml, none, none, none⟩ := by decide
  have succeeds : (((host taskPage "noon" Config.ofFile).call
      ["--fix-description", "--validate-online", "t.py"]).run taskWorld).1 = .success := by
    decide +kernel
  have paths : (taskWorld.session taskPage "noon" Config.ofFile
      ⟨"t.py", true, true, false, .yaml, none, none, none⟩).toOption.map (fun session =>
        session.writes.map Prod.fst) =
      some ["./t.yaml", "./t_fixed.yaml", "./t_online_validation_report.md"] := by
    decide +kernel
  refine ⟨?_, rfl⟩
  cases ends : ((host taskPage "noon" Config.ofFile).call
      ["--fix-description", "--validate-online", "t.py"]).run taskWorld with
  | mk exit final =>
      rw [ends] at succeeds
      obtain rfl : exit = .success := succeeds
      obtain ⟨session, made, found, leaves, -⟩ := ((call_leaves taskPage "noon" Config.ofFile _ ends).2 _ asks).2.2 rfl
      rw [found] at paths
      have paths : session.writes.map Prod.fst =
          ["./t.yaml", "./t_fixed.yaml", "./t_online_validation_report.md"] := Option.some.inj paths
      have task := (file_of_session found).1
      have place {path : String} {target : Place}
          (leads : taskWorld.files.leads path target = true) : made.place path = .ok target :=
        FileTree.place_of_keeps leaves.added.keeps ((FileTree.leads_iff _ _ _).mp leads)
      have document : made.place "./t.yaml" = .ok ["t.yaml"] := place (by decide +kernel)
      have fixed : made.place "./t_fixed.yaml" = .ok ["t_fixed.yaml"] := place (by decide +kernel)
      have report : made.place "./t_online_validation_report.md" =
          .ok ["t_online_validation_report.md"] := place (by decide +kernel)
      have input : made.place "t.py" = .ok ["t.py"] := place (by decide +kernel)
      have different : (session.writes.map Prod.fst).Pairwise fun first second =>
          made.place first ≠ made.place second := by
        rw [paths]
        simp [document, fixed, report]
      have elsewhere : ∀ path ∈ session.writes.map Prod.fst,
          made.place path ≠ made.place session.options.file := by
        rw [paths, task]
        simp [document, fixed, report, input]
      have apart : session.Apart made :=
        ⟨(List.pairwise_map (f := Prod.fst)).mp different,
          fun write member => elsewhere write.1 (List.mem_map_of_mem member)⟩
      refine ⟨final, session, rfl, paths, leaves.outputs apart, ?_⟩
      have kept := leaves.input apart
      rw [task] at kept
      exact kept

section

variable (pages : String → Option String) (time : String) (parse : ByteArray → Except String Config)

/-- After a call that succeeds, the file of the document holds it as it was extracted exactly if no later text
was written there, and the task file is as it was exactly if the last text written there, if any, is its own. -/
theorem document_kept_iff {arguments : List String} {options : Options}
    (asks : Request.ofArguments arguments = .run options) {world final : World}
    (ends : ((host pages time parse).call arguments).run world = (.success, final)) :
    ∃ session made, world.session pages time parse options = .ok session ∧
      world.files.createDirectories session.config.output.directory = .ok made ∧
      (final.files.read session.documentPath =
          .ok (options.format.render session.extracted).toUTF8 ↔
        ∀ write ∈ session.laterWrites, made.place write.1 ≠ made.place session.documentPath) ∧
      ∃ target content, made.place options.file = .ok target ∧
        world.files.read options.file = .ok content ∧
        (final.files.read options.file = .ok content ↔
          ∀ text ∈ made.lastText? target session.writes, text.toUTF8 = content) := by
  rw [call_run asks] at ends
  have succeeds : world.after ((host pages time parse).run options) = (.ok (), final) := by
    cases ran : world.after ((host pages time parse).run options) with
    | mk result after =>
        rw [ran] at ends
        cases result with
        | error failure => exact absurd (Prod.mk.inj ends).1 (by simp)
        | ok => exact Prod.ext rfl (Prod.mk.inj ends).2
  obtain ⟨session, made, found, directory, written, -⟩ := session_of_success succeeds
  obtain ⟨rfl, -, target, content, task⟩ := file_of_session found
  refine ⟨session, made, found, directory, ?_, target, content, ?_⟩
  · exact session.document_read_iff written
  · have kept := FileTree.holds_of_adds (FileTree.adds_create_directories directory) task
    refine ⟨kept.leads, FileTree.read_of_holds task, ?_⟩
    cases last : made.lastText? target session.writes with
    | none => simp [FileTree.read_unwritten written kept last]
    | some text =>
        have reads := FileTree.read_written written kept.leads kept.noSlash last
        rw [reads]
        simp

end

/-- With reports that end like documents, the report replaces the document, and the task file stays. -/
theorem document_kept_iff_of_report_suffix :
    ∃ final, ∃ session : Session,
      ((host taskPage "noon" Config.ofFile).call ["--config", "c.yml", "--validate-online", "t.py"]).run taskWorld =
        (.success, final) ∧
      session.writes.map Prod.fst = ["./t.yaml", "./t.yaml"] ∧
      final.files.read "./t.yaml" ≠ .ok (DocumentFormat.yaml.render session.extracted).toUTF8 ∧
      final.files.read "t.py" = taskWorld.files.read "t.py" := by
  have asks : Request.ofArguments ["--config", "c.yml", "--validate-online", "t.py"] =
      .run ⟨"t.py", true, false, false, .yaml, none, none, some "c.yml"⟩ := by decide
  have succeeds : (((host taskPage "noon" Config.ofFile).call
      ["--config", "c.yml", "--validate-online", "t.py"]).run taskWorld).1 = .success := by
    decide +kernel
  have paths : (taskWorld.session taskPage "noon" Config.ofFile
      ⟨"t.py", true, false, false, .yaml, none, none, some "c.yml"⟩).toOption.map (fun session =>
        (session.documentPath, session.laterWrites.map Prod.fst)) = some ("./t.yaml", ["./t.yaml"]) := by
    decide +kernel
  cases ends : ((host taskPage "noon" Config.ofFile).call
      ["--config", "c.yml", "--validate-online", "t.py"]).run taskWorld with
  | mk exit final =>
      rw [ends] at succeeds
      obtain rfl : exit = .success := succeeds
      obtain ⟨session, made, found, directory, kept, target, content, leads, reads, task⟩ :=
        document_kept_iff taskPage "noon" Config.ofFile asks ends
      rw [found] at paths
      obtain ⟨path, later⟩ := Prod.mk.inj (Option.some.inj paths)
      have place {path : String} {target : Place}
          (leads : taskWorld.files.leads path target = true) : made.place path = .ok target :=
        FileTree.place_of_keeps (FileTree.adds_create_directories directory).keeps
          ((FileTree.leads_iff _ _ _).mp leads)
      have output : made.place "./t.yaml" = .ok ["t.yaml"] := place (by decide +kernel)
      have input : made.place "t.py" = .ok ["t.py"] := place (by decide +kernel)
      have writes : session.writes.map Prod.fst = ["./t.yaml", "./t.yaml"] := by
        rw [session.writes_eq, List.map_cons, path, later]
      refine ⟨final, session, rfl, writes, ?_, ?_⟩
      · intro same
        rw [← path] at same
        have reported : "./t.yaml" ∈ session.laterWrites.map Prod.fst := by
          rw [later]
          exact List.mem_cons_self
        obtain ⟨write, member, there⟩ := List.mem_map.mp reported
        exact kept.mp same write member (by rw [there, path])
      · have untouched : made.lastText? target session.writes = none := by
          rw [FileTree.last_text_none_iff]
          intro write member
          have there : write.1 ∈ session.writes.map Prod.fst := List.mem_map_of_mem member
          rw [writes] at there
          have same : write.1 = "./t.yaml" := by simpa using there
          rw [Bool.eq_false_iff, ne_eq, FileTree.leads_iff, same, output, ← leads, input]
          simp
        rw [reads]
        apply task.mpr
        rw [untouched]
        simp

end World

end TaskCab
