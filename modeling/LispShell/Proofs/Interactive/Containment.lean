import LispShell.Proofs.Evaluation.Halts
import LispShell.Proofs.Interactive.Setting
import LispShell.Script.Run
import LispShell.Startup.Load

/-! # Faults at the boundary
What goes wrong in a line is reported, and so is what goes wrong in a startup file. What is let
through, besides being told to end, is `Halt.Escapes`: two faults of operands, which come in any
world, and four for which the world has to be at fault. -/

namespace LispShell

namespace Halt

/-- The halts in a world that are not reported as faults of a line. The session is told to end, or
evaluation goes on for more steps than there are, or it is one of six faults. -/
inductive Escapes (world : World) : Halt → Prop
  /-- The session is told to end. -/
  | exit (status : Int) : Escapes world (.exit status)
  /-- Evaluation does not come to an end. -/
  | outOfSteps : Escapes world .outOfSteps
  /-- A text looks like a number but is none. -/
  | lookalikeNumber {text : String} (isLookalike : Numeral.read text = .error .lookalike) :
    Escapes world (.fault (.lookalikeNumber text))
  /-- A variable cannot have the empty name. -/
  | emptyVariableName : Escapes world (.fault .emptyVariableName)
  /-- The operating system does not take the name of a variable. -/
  | uncodedVariableName {name report : String}
    (isRefused : world.names.check name = .error report) :
    Escapes world (.fault (.uncodedVariableName report))
  /-- The working directory was removed, and its path is asked for. -/
  | noWorkingDirectory {refusal : Refusal}
    (isRefused : world.workingDirectoryPath = .error refusal) :
    Escapes world (.fault (.noWorkingDirectory refusal))
  /-- The user has no home directory, and it is asked for. -/
  | noHomeDirectory (isUnknown : world.home? = none) : Escapes world (.fault .noHomeDirectory)
  /-- The standard output does not take the text of the value. -/
  | unprintable {text report : String} (isRefused : world.streams.check text = .error report) :
    Escapes world (.fault (.unprintable report))

/-- What evaluation comes to escapes or is reported, for a line and for a startup file alike. -/
theorem OfEvaluation.escapes {world : World} {halt : Halt}
    (ofEvaluation : halt.OfEvaluation world) :
    halt.Escapes world ∨ ∃ cause, halt = .fault cause ∧ cause.isReported = true ∧
      cause.isReportedAtStartup = true := by
  match halt with
  | .exit status => exact .inl (.exit status)
  | .outOfSteps => exact .inl .outOfSteps
  | .fault cause =>
    cases cause with
    | lookalikeNumber text => exact .inl (.lookalikeNumber ofEvaluation)
    | emptyVariableName => exact .inl .emptyVariableName
    | uncodedVariableName report =>
      obtain ⟨name, isRefused⟩ := ofEvaluation
      exact .inl (.uncodedVariableName isRefused)
    | noWorkingDirectory refusal => exact .inl (.noWorkingDirectory ofEvaluation)
    | noHomeDirectory => exact .inl (.noHomeDirectory ofEvaluation)
    | unprintable => exact ofEvaluation.elim
    | startupUnreadable => exact ofEvaluation.elim
    | noStartupPath => exact ofEvaluation.elim
    | _ => exact .inr ⟨_, rfl, rfl, rfl⟩

/-- Whether the halt comes of evaluation in the world or is a fault that is reported. -/
def OfSession (isReported : Fault → Bool) (world : World) (halt : Halt) : Prop :=
  halt.OfEvaluation world ∨ ∃ cause, halt = .fault cause ∧ isReported cause = true

/-- What is not reported comes of evaluation. -/
theorem OfSession.ofEvaluation {isReported : Fault → Bool} {world : World} {halt : Halt}
    (ofSession : OfSession isReported world halt)
    (notReported : ∀ cause, halt = .fault cause → isReported cause = false) :
    halt.OfEvaluation world := by
  obtain ofEvaluation | ⟨cause, rfl, isReported⟩ := ofSession
  · exact ofEvaluation
  · rw [notReported cause rfl] at isReported
    cases isReported

end Halt

/-! ## Lines and programs -/

namespace Session

variable [OperatingSystem]

/-- The evaluation of a line. -/
theorem haltsOnly_evalLine (limits : Limits) (line : String) :
    (evalLine limits line).HaltsOnly (Halt.OfSession Fault.isReported) := by
  refine Run.HaltsOnly.session.bind fun session => ?_
  refine (Run.HaltsOnly.ofExcept fun fault _ _ => .inr ⟨_, rfl, rfl⟩).bind fun e => ?_
  exact (Evaluation.evaluates_run limits true e).weaken fun _ _ => .inl

/-- To come only to halts that are allowed, as a relation between the actions of a program
reader. -/
def haltingOnly (allowed : World → Halt → Prop) : ProgramReader.Relation Run Run where
  relates good run _ := run.HaltsOnly allowed ∧
    ∀ course result after, run.exec course = (.ok result, after) → good result
  relates_pure isGood := ⟨.pure _, by rintro _ _ _ ⟨⟩; exact isGood⟩
  relates_bind {α β good better first other next otherNext} halts haltsNext := by
    refine ⟨fun course halt after halted => ?_, fun course result after ended => ?_⟩
    · obtain isFirst | ⟨result, middle, isFirst, isNext⟩ := Run.exec_bind_error_cases halted
      · exact halts.1 course halt after isFirst
      · have isGood := halts.2 course result middle isFirst
        exact (haltsNext result isGood).1 middle halt after isNext
    · obtain ⟨between, middle, isFirst, isNext⟩ := Run.exists_of_exec_bind_ok ended
      have isGood := halts.2 course between middle isFirst
      exact (haltsNext between isGood).2 middle result after isNext

/-- The evaluation of a program, where faults of reading are reported. -/
theorem haltsOnly_evalProgram {isReported : Fault → Bool}
    (areReported : ∀ fault, isReported (.unreadable fault) = true) (limits : Limits)
    (source : String) : (evalProgram limits source).HaltsOnly (Halt.OfSession isReported) := by
  have related : ProgramReader.Related (haltingOnly (Halt.OfSession isReported))
      (programReader limits) (programReader limits) := by
    refine ⟨rfl, ?aliases, ?accept, ?refuse⟩
    case aliases =>
      exact ⟨Run.HaltsOnly.session.bind fun _ => .pure _, fun _ _ _ _ => trivial⟩
    case accept =>
      intro form _
      have only : (Evaluation.run limits false form).HaltsOnly (Halt.OfSession isReported) :=
        (Evaluation.evaluates_run limits false form).weaken fun _ _ => .inl
      rw [programReader_accept]
      exact ⟨only.map _, fun _ _ _ _ => trivial⟩
    case refuse =>
      refine fun fault => ⟨.fail fun _ => .inr ⟨_, rfl, areReported fault⟩, ?_⟩
      rintro _ _ _ ⟨⟩
  exact (ProgramReader.relates_run related source).1

end Session

/-! ## Startup files -/

/-- A path that can be handed to the operating system is not refused for its text. -/
theorem World.readText_ne_unfit {world : World} {path : String}
    (isFit : world.textFault? path = none) (fault : TextFault) :
    world.readText path ≠ .error (.unfit fault) := by
  rw [readText, attempt, isFit]
  cases world.files.read world.workingDirectory path with
  | error refusal => rintro ⟨⟩
  | ok bytes =>
    change (Text.decode bytes).mapError FileFault.undecodable ≠ .error (.unfit fault)
    cases Text.decode bytes <;> rintro ⟨⟩

/-- A text that is not printed is refused by the standard output. -/
theorem World.check_of_print {world : World} {text report : String}
    (isRefused : world.print text = .error report) :
    world.streams.check text = .error report := by
  rw [print_eq] at isRefused
  cases checked : world.streams.check text with
  | ok _ =>
    rw [checked] at isRefused
    cases isRefused
  | error other =>
    rw [checked] at isRefused
    cases isRefused
    rfl

namespace Startup

/-- Looking for a startup file leaves the course as it is, and what is found has a path that can be
handed to the operating system. -/
theorem textFault?_of_isThere {path : String} {course after : Course}
    (found : (isThere path).exec course = (.ok true, after)) :
    after = course ∧ course.shell.world.textFault? path = none := by
  rw [isThere, Run.exec_bind_ok course (Run.exec_world course)] at found
  split at found
  · cases found
  · next noFault =>
    refine ⟨?_, by simpa using noFault⟩
    split at found <;> cases found
    rfl

variable [OperatingSystem]

/-- Evaluation of a startup file that is there. -/
theorem ofSession_of_evalFile {limits : Limits} {path : String} {course after : Course}
    {halt : Halt} (isFit : course.shell.world.textFault? path = none)
    (halted : (evalFile limits path).exec course = (.error halt, after)) :
    Halt.OfSession Fault.isReportedAtStartup after.shell.world halt := by
  obtain notRead | ⟨source, middle, -, isEvaluated⟩ := Run.exec_bind_error_cases halted
  · obtain isRefused | ⟨text, read, -, isRead⟩ := Run.exec_bind_error_cases notRead
    · rw [Run.exec_consult] at isRefused
      cases isText : course.shell.world.readText path with
      | ok text =>
        rw [isText] at isRefused
        cases isRefused
      | error fault =>
        rw [isText] at isRefused
        cases isRefused
        cases fault with
        | unfit fault => exact absurd isText (World.readText_ne_unfit isFit fault)
        | refused refusal path => exact .inr ⟨_, rfl, rfl⟩
        | undecodable piece => exact .inr ⟨_, rfl, rfl⟩
    · cases isRead
  · exact Session.haltsOnly_evalProgram (fun _ => rfl) limits source middle halt after isEvaluated

/-- Loading a startup file comes only to halts that a line could come to, without those that are
reported there, unless it is the location of the file that cannot be looked at. -/
theorem loadFile_error_cases {limits : Limits} {path : Option String} {course after : Course}
    {halt : Halt} (halted : (loadFile limits path).exec course = (.error halt, after)) :
    (halt.Escapes after.shell.world ∧
      ∀ cause, halt = .fault cause → cause.isReportedAtStartup = false) ∨
      (startupPath path >>= isThere).exec course = (.error halt, after) := by
  obtain noPath | ⟨place, located, isPath, notLoaded⟩ := Run.exec_bind_error_cases halted
  · exact .inr (Run.exec_bind_error course noPath)
  · rw [Run.exec_bind_ok course isPath]
    obtain notFound | ⟨found, looked, isFound, notTried⟩ := Run.exec_bind_error_cases notLoaded
    · exact .inr notFound
    · left
      cases found with
      | false => cases notTried
      | true =>
        rw [if_pos rfl] at notTried
        obtain ⟨rfl, isFit⟩ := textFault?_of_isThere isFound
        obtain isCaught | ⟨loaded, reported, -, notReported⟩ := Run.exec_bind_error_cases notTried
        · obtain ⟨isEvaluated, notReported⟩ := Run.exec_of_exec_caught_error isCaught
          have ofEvaluation := (ofSession_of_evalFile isFit isEvaluated).ofEvaluation notReported
          obtain escapes | ⟨cause, rfl, -, isReported⟩ := ofEvaluation.escapes
          · exact ⟨escapes, notReported⟩
          · rw [notReported cause rfl] at isReported
            cases isReported
        · cases loaded <;> cases notReported

end Startup

/-! ## Lines -/

namespace Interactive

/-- The printed form of a value; the empty atom prints as nothing. -/
def printed (value : Expr) : String :=
  if value == .empty then "" else value.render

section

variable [OperatingSystem]

/-- What is printed for a line. -/
theorem haltsOnly_answer (limits : Limits) (line : String) :
    (answer limits line).HaltsOnly (Halt.OfSession Fault.isReported) := by
  refine (Session.haltsOnly_evalLine limits line).bind fun value => ?_
  split
  · exact .pure _
  · refine .ofExcept fun cause isFault _ => ?_
    unfold Session.shown? at isFault
    split at isFault
    · cases isFault
    · cases isFault
      exact .inr ⟨_, rfl, rfl⟩

/-- What is printed for a line is its value. -/
theorem exists_of_answer_ok {limits : Limits} {line text : String} {course after : Course}
    (ended : (answer limits line).exec course = (.ok text, after)) :
    ∃ value, (Session.evalLine limits line).exec course = (.ok value, after) ∧
      text = printed value := by
  obtain ⟨value, middle, isValue, ended⟩ := Run.exists_of_exec_bind_ok ended
  refine ⟨value, ?_⟩
  unfold printed
  split at ended
  · cases ended
    exact ⟨isValue, (if_pos ‹_›).symm⟩
  · rw [if_neg ‹_›]
    unfold Session.shown? at ended
    split at ended
    · cases ended
      exact ⟨isValue, rfl⟩
    · cases ended

/-- A line that has a value prints it, unless the standard output does not take the text. -/
theorem exec_runLine_of_answer {limits : Limits} {line text : String} {course after : Course}
    (ended : (answer limits line).exec course = (.ok text, after)) :
    (∃ world, after.shell.world.print (text ++ "\n") = .ok world ∧
      (runLine limits line).exec course = (.ok (), { after with shell.world := world })) ∨
    ∃ halt, (runLine limits line).exec course = (.error halt, after) ∧
      halt.Escapes after.shell.world := by
  have isCaught := Run.exec_caught course Fault.isReported (answer limits line)
  rw [ended] at isCaught
  have prints := exec_print (text ++ "\n") after
  rw [runLine, Run.exec_bind_ok course isCaught]
  cases isPrinted : after.shell.world.print (text ++ "\n") with
  | ok world =>
    rw [isPrinted] at prints
    exact .inl ⟨world, rfl, prints⟩
  | error report =>
    rw [isPrinted] at prints
    exact .inr ⟨_, prints, .unprintable (World.check_of_print isPrinted)⟩

/-- How a line ends: it prints its value, or what went wrong is reported, or a halt escapes. -/
theorem exec_runLine_cases (limits : Limits) (line : String) (course : Course) :
    (∃ value after world, (Session.evalLine limits line).exec course = (.ok value, after) ∧
      after.shell.world.print (printed value ++ "\n") = .ok world ∧
      (runLine limits line).exec course = (.ok (), { after with shell.world := world })) ∨
    (∃ cause after, (answer limits line).exec course = (.error (.fault cause), after) ∧
      (runLine limits line).exec course = (.ok (), { after with
        shell.world := after.shell.world.printError ("Error: " ++ cause.message ++ "\n") })) ∨
    ∃ halt after, (runLine limits line).exec course = (.error halt, after) ∧
      halt.Escapes after.shell.world := by
  have isCaught := Run.exec_caught course Fault.isReported (answer limits line)
  match ended : (answer limits line).exec course with
  | (.ok text, after) =>
    obtain ⟨value, isValue, rfl⟩ := exists_of_answer_ok ended
    obtain ⟨world, isPrinted, ends⟩ | ⟨halt, halts, escapes⟩ := exec_runLine_of_answer ended
    · exact .inl ⟨value, after, world, isValue, isPrinted, ends⟩
    · exact .inr (.inr ⟨halt, after, halts, escapes⟩)
  | (.error halt, after) =>
    rw [ended] at isCaught
    by_cases reported : ∃ cause, halt = .fault cause ∧ cause.isReported = true
    · obtain ⟨cause, rfl, isReported⟩ := reported
      refine .inr (.inl ⟨cause, after, rfl, ?_⟩)
      exact Run.exec_bind_ok course (isCaught.trans (if_pos isReported))
    · have ofEvaluation : halt.OfEvaluation after.shell.world :=
        (haltsOnly_answer limits line course halt after ended).resolve_right reported
      obtain escapes | ⟨cause, isFault, isReported, -⟩ := ofEvaluation.escapes
      · refine .inr (.inr ⟨halt, after, ?_, escapes⟩)
        refine Run.exec_bind_error course (isCaught.trans ?_)
        cases escapes <;> rfl
      · exact absurd ⟨cause, isFault, isReported⟩ reported

/-- Faults are contained at the boundary. A line prints its value, or what went wrong is reported,
once, and if it ends the session then because it is told to, because evaluation does not come to an
end, or for one of the six faults that are let through: of these, four come only in a world that is
at fault itself. A startup file is loaded as far as it goes and ends the session only like a line,
if only its location can be looked at, and not for what is reported there. -/
theorem faults_are_contained (limits : Limits) :
    (∀ line course,
      (∃ value after world, (Session.evalLine limits line).exec course = (.ok value, after) ∧
        after.shell.world.print (printed value ++ "\n") = .ok world ∧
        (runLine limits line).exec course = (.ok (), { after with shell.world := world })) ∨
      (∃ cause after, (answer limits line).exec course = (.error (.fault cause), after) ∧
        (runLine limits line).exec course = (.ok (), { after with
          shell.world := after.shell.world.printError ("Error: " ++ cause.message ++ "\n") })) ∨
      ∃ halt after, (runLine limits line).exec course = (.error halt, after) ∧
        halt.Escapes after.shell.world) ∧
    ∀ path course halt after,
      (Startup.loadFile limits path).exec course = (.error halt, after) →
        (halt.Escapes after.shell.world ∧
          ∀ cause, halt = .fault cause → cause.isReportedAtStartup = false) ∨
          (Startup.startupPath path >>= Startup.isThere).exec course = (.error halt, after) := by
  exact ⟨exec_runLine_cases limits, fun _ _ _ _ => Startup.loadFile_error_cases⟩

end

/-- Not every fault is reported: a word with a dotless i has the form of a number but is none. -/
theorem lookalike_number_escapes :
    ¬ ∀ (limits : Limits) (course : Course) (line : String) (halt : Halt),
      course.shell.session.Reachable →
      ((runLine limits line).exec course).1 = .error halt →
      (∃ status, halt = .exit status) ∨ halt = .outOfSteps := by
  intro contained
  have escapes : ((runLine .standard "(+ ınf 1)").exec .fresh).1 =
      .error (.fault (.lookalikeNumber "ınf")) := rfl
  obtain ⟨status, isExit⟩ | isOutOfSteps := contained _ .fresh _ _ .fresh escapes
  · cases isExit
  · cases isOutOfSteps

/-- In a world where every character is taken and the user has a home, a line that ends the session
is told to, does not come to an end, or has a fault of its operands, or a directory was removed
under the shell. -/
theorem equipped_line_escapes [OperatingSystem] {limits : Limits} {line : String}
    {course after : Course} {halt : Halt} (isEquipped : course.shell.world.IsEquipped)
    (halted : (runLine limits line).exec course = (.error halt, after)) :
    (∃ status, halt = .exit status) ∨ halt = .outOfSteps ∨
      (∃ text, Numeral.read text = .error .lookalike ∧ halt = .fault (.lookalikeNumber text)) ∨
      halt = .fault .emptyVariableName ∨
      ∃ refusal, halt = .fault (.noWorkingDirectory refusal) ∧
        after.shell.world.workingDirectory.removed ≠ 0 := by
  have escapes : halt.Escapes after.shell.world := by
    obtain ⟨_, _, _, -, -, ends⟩ | ⟨_, _, -, ends⟩ | ⟨_, _, ends, escapes⟩ :=
      exec_runLine_cases limits line course
    · cases halted.symm.trans ends
    · cases halted.symm.trans ends
    · cases halted.symm.trans ends
      exact escapes
  have sameSetting :=
    (World.SameSetting.refl _).of_keeps (Discipline.keeps_runLine limits line) halted
  have afterEquipped := isEquipped.of_sameSetting sameSetting
  cases escapes with
  | exit status => exact .inl ⟨status, rfl⟩
  | outOfSteps => exact .inr (.inl rfl)
  | lookalikeNumber isLookalike => exact .inr (.inr (.inl ⟨_, isLookalike, rfl⟩))
  | emptyVariableName => exact .inr (.inr (.inr (.inl rfl)))
  | uncodedVariableName isRefused => exact absurd isRefused (afterEquipped.names.check_ne_error _ _)
  | noWorkingDirectory isRefused =>
    refine .inr (.inr (.inr (.inr ⟨_, rfl, fun isThere => ?_⟩)))
    rw [World.workingDirectoryPath, if_pos isThere] at isRefused
    cases isRefused
  | noHomeDirectory isUnknown => exact absurd isUnknown afterEquipped.home?_ne_none
  | unprintable isRefused => exact absurd isRefused (afterEquipped.streams.check_ne_error _ _)

-- a working directory that was removed can be entered, but has no path
example :
    ((runLine .standard "(cd .)").exec
      { Course.fresh with shell.world.workingDirectory := ⟨[], 1⟩ }).1 =
      .error (.fault (.noWorkingDirectory .notFound)) := rfl

end Interactive

end LispShell
