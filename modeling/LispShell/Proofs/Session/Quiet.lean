import LispShell.Proofs.Evaluation.Lines
import LispShell.Proofs.Startup.Load
import LispShell.Proofs.World.Output
import Mathlib

/-! # Quiet evaluation
Only a line that is itself a command lets a program write to the output of the shell and leaves its
status. All other evaluation is quiet, whether it succeeds or fails. -/

namespace LispShell

/-- Whether nothing was done to the world since a course that would show in the output of the shell:
every program that was run had its output captured. -/
structure Course.QuietOutside (before : Course) (world : World) (past : List Effect) : Prop where
  /-- The output is the same. -/
  output : world.output = before.shell.world.output
  /-- The effects leave the output alone. -/
  effects : ∃ done, past = before.effects ++ done ∧ ∀ effect ∈ done, effect.sparesOutput = true

/-- Whether nothing happened on the way from one course to another that would show in the status of
the last command or in the output of the shell. -/
structure Course.Quiet (before after : Course) : Prop extends
    before.QuietOutside after.shell.world after.effects where
  /-- The status is the same. -/
  lastStatus : after.shell.session.lastStatus = before.shell.session.lastStatus

/-- Nothing at all is quiet. -/
theorem Course.Quiet.refl (course : Course) : course.Quiet course :=
  ⟨⟨rfl, [], by simp⟩, rfl⟩

/-- A report on the error output is quiet. -/
theorem Course.QuietOutside.report {before : Course} {world : World} {past : List Effect}
    (quiet : before.QuietOutside world past) (text : String) :
    before.QuietOutside (world.printError text) past :=
  ⟨quiet.output, quiet.effects⟩

variable [OperatingSystem]

/-- Whether all that happened on the way from one course to another is that a program was run with
the output of the shell for its own, and left its status. -/
structure Course.RunsLine (before after : Course) (path : String) (arguments : List String) :
    Prop where
  /-- The program was run once, and nothing else was done. -/
  effects : after.effects = before.effects ++
    [.launch path arguments false (before.shell.world.childStatus before.effects path arguments)]
  /-- Its status is left. -/
  lastStatus : after.shell.session.lastStatus =
    before.shell.world.childStatus before.effects path arguments

/-- What is asked of the ending of a line that is a command: if it fails then all was quiet, and
else all was quiet until the one program was run under its name, which is all that was left to do. -/
def Course.EndsCommand (start : Course) (path name : String) : Except Halt Expr × Course → Prop
  | (.error _, after) => start.Quiet after
  | (.ok value, after) => value = .empty ∧
    ∃ before texts, start.Quiet before ∧ before.RunsLine after path (name :: texts)

/-- An effect that leaves the output to the shell goes on being quiet. -/
theorem Course.QuietOutside.does {before : Course} {past : List Effect} {world after : World}
    {effect : Effect} (quiet : before.QuietOutside world past)
    (does : world.Does past effect after) (spares : effect.sparesOutput = true) :
    before.QuietOutside after (past ++ [effect]) := by
  obtain ⟨same, done, rfl, spared⟩ := quiet
  refine ⟨(does.output spares).trans same, done ++ [effect], ?_, fun other isIn => ?_⟩
  · rw [List.append_assoc]
  · obtain isIn | isIn := List.mem_append.mp isIn
    · exact spared other isIn
    · exact List.mem_singleton.mp isIn ▸ spares

namespace Discipline

/-- All has been quiet since a course. -/
def quiet (start : Course) : Discipline :=
  { unrestricted with
    session := fun s => s.lastStatus = start.shell.session.lastStatus
    outside := start.QuietOutside
    coversLines := False
    form_of_definition := fun _ _ => trivial
    form_of_function := fun _ _ => trivial
    session_define := fun same _ _ => same
    session_defineFunction := fun same _ _ => same
    session_freshNames := fun _ same => same
    session_defineAlias := fun _ same _ => same
    session_status := fun _ isLine _ => isLine.elim
    outside_does := fun so does spares => so.does does (spares.resolve_right id) }

/-- The discipline holds where all has been quiet. -/
theorem quiet_holds_iff {start course : Course} : (quiet start).Holds course ↔ start.Quiet course :=
  ⟨fun ⟨same, outside⟩ => ⟨outside, same⟩, fun ⟨outside, same⟩ => ⟨same, outside⟩⟩

/-- A run that keeps quiet is quiet. -/
theorem quiet_of_keeps {α : Type} {good : α → Prop} {run : Run α} {start course : Course}
    (keeps : (quiet start).Keeps good run) (soFar : start.Quiet course) :
    start.Quiet (run.exec course).2 :=
  quiet_holds_iff.mp (keeps course (quiet_holds_iff.mpr soFar)).1

end Discipline

namespace Evaluation

/-- The operands of a line keep quiet. -/
theorem refinesOperands_lineOperands (start : Course) (limits : Limits) :
    (Discipline.quiet start).RefinesOperands (lineOperands limits) (lineOperands limits) where
  room_le := Nat.le_refl _
  value _ := (Discipline.keeps_evaluate _ _ (by simp) trivial).map fun _ _ => trivial

/-! ## Lines -/

variable {limits : Limits} {course : Course} {e : Expr}

/-- The head of a command is evaluated quietly. -/
theorem CommandAt.quiet (command : CommandAt (lineOperands limits) course e) :
    course.Quiet command.named := by
  have keepsHead : (Discipline.quiet course).Keeps (fun _ => True)
      (headName (lineOperands limits) command.head) :=
    Discipline.refines_headName (refinesOperands_lineOperands course limits) trivial
  have quiet := Discipline.quiet_of_keeps keepsHead (.refl course)
  rwa [command.isNamed] at quiet

/-- A program that is run as a line has the output of the shell for its own and leaves its status;
it may also turn out that it cannot be asked for. -/
theorem exec_runProcess_line (path : String) (arguments : List String) (before : Course) :
    (∃ cause, (Command.runProcess path arguments false).exec before =
      (.error (.fault cause), before)) ∨
    ∃ result world,
      (Command.runProcess path arguments false).exec before =
        (.ok result,
          ⟨⟨before.shell.session, world⟩,
            before.effects ++ [.launch path arguments false result.status]⟩) ∧
      result.status = before.shell.world.childStatus before.effects path arguments := by
  have consulted := Run.exec_consult before (.argumentUnfit (arguments.headD ""))
    (·.runProcess before.effects path arguments false)
  rw [Command.runProcess, Run.exec_bind_ok before (Run.exec_effects before)]
  cases ended : before.shell.world.runProcess before.effects path arguments false with
  | error fault =>
    rw [ended] at consulted
    exact .inl ⟨_, Run.exec_bind_error before consulted⟩
  | ok ending =>
    obtain ⟨result, world⟩ := ending
    rw [ended] at consulted
    refine .inr ⟨result, world, ?_, World.status_of_runProcess ended⟩
    rw [Run.exec_bind_ok before consulted]
    rfl

/-- A program that is run as a line is all that is not quiet about the line, and if the line fails
then it is quiet. -/
theorem quiet_run_command (command : CommandAt (lineOperands limits) course e) :
    course.EndsCommand command.path command.name
      ((Command.run (lineOperands limits) true command.name command.es).exec command.named) := by
  have keepsTexts : (Discipline.quiet course).Keeps (fun texts => ∀ text ∈ texts, True)
      (command.es.mapM (lineOperands limits).text) :=
    Discipline.refines_mapM fun _ _ =>
      Discipline.refines_text (refinesOperands_lineOperands course limits) trivial
  have quiet := Discipline.quiet_of_keeps keepsTexts command.quiet
  have consulted := Run.exec_consult command.named .noWorkingDirectory (·.findProgram command.name)
  rw [command.isFound] at consulted
  rw [Command.run, Run.exec_bind_ok _ consulted]
  dsimp only
  rcases ended : (command.es.mapM (lineOperands limits).text).exec command.named with
    ⟨halt | texts, before⟩
  · rw [ended] at quiet
    rw [Run.exec_bind_error _ ended]
    exact quiet
  · rw [ended] at quiet
    rw [Run.exec_bind_ok _ ended]
    simp only [Bool.not_true, if_true]
    rcases exec_runProcess_line command.path (command.name :: texts) before with
      ⟨cause, failed⟩ | ⟨result, world, launched, isStatus⟩
    · rw [Run.exec_bind_error _ failed]
      exact quiet
    · rw [Run.exec_bind_ok _ launched]
      exact ⟨rfl, before, texts, quiet, by rw [← isStatus], isStatus⟩

/-- Only a line that is itself a command lets a program write to the output of the shell and leaves
its status. Evaluation of anything that is not a line is quiet, whether it succeeds or fails: of
operands, branches and bodies, of the forms of a program, of startup files and of the prompt. So is
a line that is not a command. A line that is one leaves the status of the one program that it runs,
and is quiet if it fails. -/
theorem only_command_lines_leave_status :
    (∀ steps room isTail e course,
      Course.Quiet course ((evaluate steps room false isTail e).exec course).2) ∧
    (∀ limits e course, Course.Quiet course ((run limits false e).exec course).2) ∧
    (∀ limits source course,
      Course.Quiet course ((Session.evalProgram limits source).exec course).2) ∧
    (∀ limits path course, Course.Quiet course ((Startup.loadPrelude limits path).exec course).2) ∧
    (∀ limits path course, Course.Quiet course ((Startup.loadFile limits path).exec course).2) ∧
    (∀ limits course, Course.Quiet course ((Session.prompt limits).exec course).2) ∧
    (∀ limits e course, (CommandAt (lineOperands limits) course e → False) →
      Course.Quiet course ((run limits true e).exec course).2) ∧
    (∀ limits e course (command : CommandAt (lineOperands limits) course e),
      course.EndsCommand command.path command.name ((run limits true e).exec course)) := by
  have notLine (limits : Limits) (e : Expr) (course : Course) :
      Course.Quiet course ((run limits false e).exec course).2 :=
    Discipline.quiet_of_keeps (Discipline.keeps_run limits (by simp) trivial) (.refl course)
  refine ⟨fun steps room isTail e course => ?_, notLine, fun limits source course => ?_,
    fun limits path course => ?_, fun limits path course => ?_, fun limits course => ?_,
    fun limits e course noCommand => ?_, fun limits e course command => ?_⟩
  · exact Discipline.quiet_of_keeps
      (Discipline.keeps_evaluate steps room (by simp) trivial) (.refl course)
  · exact Discipline.quiet_of_keeps
      (Discipline.keeps_evalProgram (fun _ => trivial) limits source) (.refl course)
  · exact Discipline.quiet_of_keeps
      (Discipline.keeps_loadPrelude (fun _ => trivial) limits path) (.refl course)
  · exact Discipline.quiet_of_keeps
      (Discipline.keeps_loadFile (fun _ => trivial)
        (fun text quiet => Course.QuietOutside.report quiet text) limits path)
      (.refl course)
  · exact Discipline.quiet_of_keeps
      (Discipline.keeps_prompt (fun _ => trivial) limits) (.refl course)
  · rw [exec_run_line noCommand]
    exact notLine limits e course
  · by_cases enough : limits.depth = 0
    · obtain ⟨depth, steps⟩ := limits
      obtain rfl : depth = 0 := enough
      exact .refl course
    · rw [exec_run_command command enough]
      exact quiet_run_command command

end Evaluation

omit [OperatingSystem]

/-- An operating system on which a signal kills every program at once. -/
abbrev OperatingSystem.killing (signal : Nat) : OperatingSystem where
  execute _ world _ _ := .ok ⟨world.files, world.workingDirectory, [], [], -signal⟩

/-- A fresh session where the one program there is kills itself. -/
def Course.besideKiller : Course :=
  let files := FileTree.empty.plant ["bin", "end"]
    (.file (Text.encode "#!/bin/sh\nkill -9 $$\n") true)
  ⟨⟨.fresh, { World.ofFiles files with environment := Table.empty.insert "PATH" "/bin" }⟩, []⟩

/-- The program that kills itself, run as a line, leaves the status of a killed program. -/
theorem Evaluation.killed_line_leaves_status :
    letI := OperatingSystem.killing 9
    ∃ before after texts,
      (run .standard true (.call [.atom "end"])).exec .besideKiller = (.ok .empty, after) ∧
        Course.besideKiller.Quiet before ∧ before.RunsLine after "/bin/end" ("end" :: texts) ∧
        after.shell.session.lastStatus = 137 := by
  let _ := OperatingSystem.killing 9
  have isFound : Course.besideKiller.shell.world.findProgram "end" = .ok (some "/bin/end") := by
    cbv
  let command : CommandAt (lineOperands .standard) .besideKiller (.call [.atom "end"]) :=
    ⟨.atom "end", [], "end", .besideKiller, "/bin/end", rfl, rfl, by decide, rfl, isFound⟩
  have consulted := Run.exec_consult .besideKiller .noWorkingDirectory (·.findProgram "end")
  rw [isFound] at consulted
  have ended : (run .standard true (.call [.atom "end"])).exec .besideKiller =
      (.ok .empty, ⟨⟨{ Session.fresh with lastStatus := 137 }, Course.besideKiller.shell.world⟩,
        [.launch "/bin/end" ["end"] false 137]⟩) := by
    rw [exec_run_command command (by decide)]
    change (Command.run (lineOperands .standard) true "end" []).exec .besideKiller = _
    rw [Command.run, Run.exec_bind_ok _ consulted]
    rfl
  have ends := only_command_lines_leave_status.2.2.2.2.2.2.2 .standard _ _ command
  rw [ended] at ends
  obtain ⟨-, before, texts, quiet, runs⟩ := ends
  have isKilled : before.shell.world.childStatus before.effects "/bin/end" ("end" :: texts) =
      128 + 9 :=
    World.exitStatus_of_killed (by decide)
  exact ⟨before, _, texts, ended, quiet, runs, runs.lastStatus.trans isKilled⟩

end LispShell
