import LispShell.Interactive.Loop
import LispShell.Proofs.Run.Exec
import LispShell.Proofs.Session.Commands
import LispShell.Script.Run

/-! # Turns of the interactive loop
What the interactive loop does with its input, said without the loop: it takes turns, in each of
which it shows the prompts, reads the lines of one command and runs it, and it ends with the input,
or where a prompt or a command does. The loop is shown to do just that. -/

namespace LispShell

/-- The course after prompts are shown, which `display` does to the world. -/
def Course.showing (display : String → World → World) (prompts : List String)
    (course : Course) : Course :=
  { course with
    shell.world := prompts.foldl (fun world prompt => display prompt world) course.shell.world }

/-- Prompts are shown after those before them. -/
theorem Course.showing_append (display : String → World → World) (prompts others : List String)
    (course : Course) :
    course.showing display (prompts ++ others) =
      (course.showing display prompts).showing display others := by
  simp [showing]

/-- The world after a text is written to its standard output. -/
def World.writing (text : String) (world : World) : World :=
  { world with output := world.output ++ Text.encode text }

/-- A text is printed by writing it, unless the standard output refuses it. -/
theorem World.print_eq (world : World) (text : String) :
    world.print text = (world.streams.check text).map fun _ => world.writing text := by
  rw [print]
  cases world.streams.check text <;> rfl

namespace Interactive

/-! ## Printing -/

/-- A text is printed, or it is refused and nothing is. -/
theorem exec_print (text : String) (course : Course) :
    (print text).exec course =
      match course.shell.world.print text with
      | .ok printed => (.ok (), { course with shell.world := printed })
      | .error report => (.error (.fault (.unprintable report)), course) := by
  have consulted := Run.exec_consult course .unprintable (·.print text)
  rw [print]
  cases isPrinted : course.shell.world.print text with
  | ok printed =>
    rw [isPrinted] at consulted
    rw [Run.exec_bind_ok course consulted]
    rfl
  | error report =>
    rw [isPrinted] at consulted
    rw [Run.exec_bind_error course consulted]

/-- A text that the standard output takes is printed. -/
theorem exec_print_of_covers {text : String} {course : Course}
    (covers : course.shell.world.streams.covers text = true) :
    (print text).exec course = (.ok (), course.showing World.writing [text]) := by
  rw [exec_print, World.print_eq, CharacterSet.check, if_pos covers]
  rfl

/-- A line feed is printed, whatever the standard output takes. -/
theorem exec_print_newline (course : Course) :
    (print "\n").exec course = (.ok (), course.showing World.writing ["\n"]) := by
  refine exec_print_of_covers (CharacterSet.covers_of_ascii _ fun c isIn => ?_)
  obtain rfl : c = '\n' := List.mem_singleton.mp isIn
  decide

/-! ## Commands on several lines -/

/-- The text of several lines. -/
def joined (lines : List String) : String :=
  String.intercalate "\n" lines

/-- What is read of a command so far, if anything is. -/
def unfinished? (lines : List String) : Option String :=
  if lines.isEmpty then none else some (joined lines)

/-- A command with one more line is the text of all its lines. -/
theorem extend_unfinished? (lines : List String) (line : String) :
    extend (unfinished? lines) line = joined (lines ++ [line]) := by
  cases lines with
  | nil => exact String.intercalate_singleton.symm
  | cons first others =>
    have isLast : joined [line] = line := String.intercalate_singleton
    rw [joined, String.intercalate_append_of_ne_nil (by simp) (by simp), ← joined, ← joined, isLast]
    rfl

variable {depth : Nat} {aliases : AliasTable}

/-- Whether the lines are one command: they are complete, and no fewer of them are. -/
structure IsCommand (depth : Nat) (aliases : AliasTable) (lines : List String) : Prop where
  isNonempty : lines ≠ []
  isComplete : LispShell.isComplete depth aliases (joined lines) = true
  isShortest (before : List String) : before <+: lines → before ≠ [] →
    LispShell.isComplete depth aliases (joined before) = true → before = lines

/-- Whether the lines leave a command unfinished: neither they nor fewer of them are complete. -/
def IsUnfinished (depth : Nat) (aliases : AliasTable) (lines : List String) : Prop :=
  ∀ before, before <+: lines → before ≠ [] →
    LispShell.isComplete depth aliases (joined before) = false

/-- Before anything is read a command is unfinished. -/
theorem isUnfinished_nil : IsUnfinished depth aliases [] :=
  fun _ isPrefix isNonempty => absurd (List.prefix_nil.mp isPrefix) isNonempty

/-- A line that does not complete a command leaves it unfinished. -/
theorem IsUnfinished.append {lines : List String} {line : String}
    (isUnfinished : IsUnfinished depth aliases lines)
    (incomplete : LispShell.isComplete depth aliases (joined (lines ++ [line])) = false) :
    IsUnfinished depth aliases (lines ++ [line]) := by
  intro before isPrefix isNonempty
  obtain rfl | isPrefix := List.prefix_concat_iff.mp isPrefix
  · exact incomplete
  · exact isUnfinished before isPrefix isNonempty

/-- The line that completes a command is its last one. -/
theorem IsUnfinished.isCommand {lines : List String} {line : String}
    (isUnfinished : IsUnfinished depth aliases lines)
    (complete : LispShell.isComplete depth aliases (joined (lines ++ [line])) = true) :
    IsCommand depth aliases (lines ++ [line]) := by
  refine ⟨by simp, complete, fun before isPrefix isNonempty isComplete => ?_⟩
  obtain rfl | isPrefix := List.prefix_concat_iff.mp isPrefix
  · rfl
  · rw [isUnfinished before isPrefix isNonempty] at isComplete
    cases isComplete

/-! ## Turns -/

section

variable [OperatingSystem]

section

variable (limits : Limits) (display : String → World → World)

/-- To read a command: the prompt is evaluated, and for every further line one more is shown. The
lines are a command under the aliases that are in force by then. -/
inductive Reads (start : Course) (group : List String) : Course → Prop
  /-- After this the command is read. -/
  | intro {text : String} {prompted : Course}
    (isPrompt : (promptText limits).exec start = (.ok text, prompted))
    (isCommand : IsCommand limits.depth prompted.shell.session.aliases group) :
    Reads start group
      (prompted.showing display (text :: List.replicate (group.length - 1) continuationPrompt))

/-- A turn of the loop: a command is read, and run once unless it is blank. -/
inductive Turn (start : Course) (group : List String) : Course → Prop
  /-- A blank command is skipped. -/
  | skip {read : Course} (reads : Reads limits display start group read)
    (isBlank : Text.isBlankText (joined group) = true) : Turn start group read
  /-- Any other command is run. -/
  | run {read after : Course} (reads : Reads limits display start group read)
    (notBlank : Text.isBlankText (joined group) = false)
    (isRun : (runLine limits (joined group)).exec read = (.ok (), after)) :
    Turn start group after

/-- Turns, one after the other, each with the lines of its command. -/
inductive Turns : Course → List (List String) → Course → Prop
  /-- No turn. -/
  | nil {start : Course} : Turns start [] start
  /-- A turn and those after it. -/
  | cons {start middle last : Course} {group : List String} {groups : List (List String)}
    (first : Turn limits display start group middle) (others : Turns middle groups last) :
    Turns start (group :: groups) last

/-- What becomes of the input that is left after the last turn. -/
inductive Ends (last : Course) (rest : List String) : Except Halt Unit × Course → Prop
  /-- It is dropped, as it leaves a command unfinished where the input ends, and the line of the
  last prompt is ended. -/
  | endOfInput {text : String} {prompted : Course}
    (isPrompt : (promptText limits).exec last = (.ok text, prompted))
    (isUnfinished : IsUnfinished limits.depth prompted.shell.session.aliases rest) :
    Ends last rest (.ok (), (prompted.showing display
      (text :: List.replicate rest.length continuationPrompt)).showing World.writing ["\n"])
  /-- Nothing of it is read, as the prompt comes to a halt. -/
  | promptHalts {halt : Halt} {after : Course}
    (halts : (promptText limits).exec last = (.error halt, after)) :
    Ends last rest (.error halt, after)
  /-- Nothing of it is read after a command that comes to a halt. -/
  | commandHalts {group unread : List String} {read after : Course} {halt : Halt}
    (isRest : rest = group ++ unread) (reads : Reads limits display last group read)
    (notBlank : Text.isBlankText (joined group) = false)
    (halts : (runLine limits (joined group)).exec read = (.error halt, after)) :
    Ends last rest (.error halt, after)

/-- Whether the lines are taken in turns up to the given end. -/
def TakesTurns (start : Course) (lines : List String) (ending : Except Halt Unit × Course) :
    Prop :=
  ∃ groups last rest, lines = groups.flatten ++ rest ∧ Turns limits display start groups last ∧
    Ends limits display last rest ending

end

variable {limits : Limits} {display : String → World → World} {start read after : Course}
  {group lines : List String} {ending : Except Halt Unit × Course}

/-- A turn before others. -/
theorem TakesTurns.cons (first : Turn limits display start group after)
    (takes : TakesTurns limits display after lines ending) :
    TakesTurns limits display start (group ++ lines) ending := by
  obtain ⟨groups, last, rest, rfl, turns, ends⟩ := takes
  exact ⟨group :: groups, last, rest, by simp, .cons first turns, ends⟩

/-- Lines without a turn. -/
theorem TakesTurns.nil (ends : Ends limits display start lines ending) :
    TakesTurns limits display start lines ending :=
  ⟨[], start, lines, rfl, .nil, ends⟩

/-- A command that is read is run, and the rest is taken in turns if the command comes to its
end. -/
theorem takesTurns_of_reads (reads : Reads limits display start group read)
    {next : Run Unit} (goesOn : ∀ after, TakesTurns limits display after lines (next.exec after)) :
    TakesTurns limits display start (group ++ lines)
      ((runCommand limits (joined group) >>= fun _ => next).exec read) := by
  cases isBlank : Text.isBlankText (joined group) with
  | true =>
    rw [runCommand, if_pos isBlank, pure_bind]
    exact (goesOn read).cons (.skip reads isBlank)
  | false =>
    rw [runCommand, isBlank, if_neg Bool.false_ne_true]
    match isRun : (runLine limits (joined group)).exec read with
    | (.ok (), after) =>
      rw [Run.exec_bind_ok read isRun]
      exact (goesOn after).cons (.run reads isBlank isRun)
    | (.error halt, after) =>
      rw [Run.exec_bind_error read isRun]
      exact .nil (.commandHalts rfl reads isBlank isRun)

/-! ## The loop -/

/-- To ask for a line is to show a prompt. -/
def showing (display : String → World → World) (prompt : String) : Run Unit :=
  Run.changeWorld (display prompt)

/-- What the loop does once it has shown a prompt. -/
def afterPrompt (limits : Limits) (display : String → World → World)
    (unfinished : Option String) : List String → Run Unit
  | [] => print "\n"
  | line :: rest => do
    let command := extend unfinished line
    if ← isComplete limits command then
      runCommand limits command
      loop limits (showing display) none rest
    else loop limits (showing display) (some command) rest

/-- The loop shows a prompt and goes on. -/
theorem exec_loop_of_prompt {unfinished : Option String} {text : String}
    (isPrompt : (nextPrompt limits unfinished).exec start = (.ok text, read)) :
    (loop limits (showing display) unfinished lines).exec start =
      (afterPrompt limits display unfinished lines).exec (read.showing display [text]) := by
  cases lines with
  | nil => rw [loop, Run.exec_bind_ok start isPrompt]; rfl
  | cons line rest => rw [loop, Run.exec_bind_ok start isPrompt]; rfl

/-- The loop halts where its prompt does. -/
theorem exec_loop_of_halt {unfinished : Option String} {halt : Halt}
    (halts : (nextPrompt limits unfinished).exec start = (.error halt, after)) :
    (loop limits (showing display) unfinished lines).exec start = (.error halt, after) := by
  cases lines with
  | nil => rw [loop, Run.exec_bind_error start halts]
  | cons line rest => rw [loop, Run.exec_bind_error start halts]

/-- The loop takes turns if it does so once it has shown its first prompt. -/
theorem takesTurns_loop_of_afterPrompt
    (goesOn : ∀ {text prompted}, (promptText limits).exec start = (.ok text, prompted) →
      TakesTurns limits display start lines
        ((afterPrompt limits display none lines).exec (prompted.showing display [text]))) :
    TakesTurns limits display start lines
      ((loop limits (showing display) none lines).exec start) := by
  match isPrompt : (promptText limits).exec start with
  | (.ok text, prompted) =>
    have isNext : (nextPrompt limits none).exec start = (.ok text, prompted) := isPrompt
    rw [exec_loop_of_prompt isNext]
    exact goesOn isPrompt
  | (.error halt, after) =>
    have halts : (nextPrompt limits none).exec start = (.error halt, after) := isPrompt
    rw [exec_loop_of_halt halts]
    exact .nil (.promptHalts isPrompt)

/-- Once a prompt is shown, the lines read so far and those still to come are taken in turns. -/
theorem takesTurns_afterPrompt {text : String} {prompted : Course} {before : List String}
    (isPrompt : (promptText limits).exec start = (.ok text, prompted))
    (isUnfinished : IsUnfinished limits.depth prompted.shell.session.aliases before) :
    TakesTurns limits display start (before ++ lines)
      ((afterPrompt limits display (unfinished? before) lines).exec (prompted.showing display
        (text :: List.replicate before.length continuationPrompt))) := by
  -- `before` grows while a command is unfinished, and a new turn begins without it
  induction lines generalizing start text prompted before with
  | nil =>
    rw [List.append_nil, afterPrompt, exec_print_newline]
    exact .nil (.endOfInput isPrompt isUnfinished)
  | cons line rest inductionHypothesis =>
    rw [List.append_cons, afterPrompt, extend_unfinished?]
    generalize isRead : prompted.showing display
      (text :: List.replicate before.length continuationPrompt) = read
    have isChecked : (isComplete limits (joined (before ++ [line]))).exec read =
        (.ok (LispShell.isComplete limits.depth prompted.shell.session.aliases
          (joined (before ++ [line]))), read) := by
      rw [← isRead]
      rfl
    rw [Run.exec_bind_ok read isChecked]
    cases complete : LispShell.isComplete limits.depth prompted.shell.session.aliases
      (joined (before ++ [line])) with
    | true =>
      have reads : Reads limits display start (before ++ [line]) read := by
        have isLength : before.length = (before ++ [line]).length - 1 := by simp
        rw [← isRead, isLength]
        exact .intro isPrompt (isUnfinished.isCommand complete)
      exact takesTurns_of_reads reads fun after =>
        takesTurns_loop_of_afterPrompt fun isNext => inductionHypothesis isNext isUnfinished_nil
    | false =>
      have isNext : (nextPrompt limits (some (joined (before ++ [line])))).exec read =
          (.ok continuationPrompt, read) := rfl
      have goesOn := inductionHypothesis isPrompt (isUnfinished.append complete)
      rw [if_neg Bool.false_ne_true, exec_loop_of_prompt isNext, ← isRead, ← Course.showing_append]
      simpa [List.replicate_succ', unfinished?] using goesOn

/-- The loop loses and duplicates no input. Whatever the session and the lines, it cuts them into
consecutive groups and takes a turn for each: the group is the shortest that is a complete command
under the aliases in force when it is read, and it is run once, in order, unless it is blank. The
rest is unfinished where the input ends, or unread where the loop halts because a command or the
evaluation of the prompt does. -/
theorem loop_takes_turns (limits : Limits) (display : String → World → World) (start : Course)
    (lines : List String) :
    TakesTurns limits display start lines
      ((loop limits (showing display) none lines).exec start) :=
  takesTurns_loop_of_afterPrompt fun isPrompt => takesTurns_afterPrompt isPrompt isUnfinished_nil

end

/-- That no command halts is not enough for the input to be read to its end: a prompt defined as
`(exit)` ends the session before anything is read. -/
theorem prompt_ends_loop :
    ¬ ∀ (limits : Limits) (display : String → World → World) (start : Course)
      (lines : List String), start.shell.session.Reachable →
      (∀ groups last group read, Turns limits display start groups last →
        Reads limits display last group read →
        ((runLine limits (joined group)).exec read).1 = .ok ()) →
      ((loop limits (showing display) none lines).exec start).1 = .ok () := by
  intro readsAll
  obtain ⟨start, isReachable, promptHalts⟩ : ∃ start : Course,
      start.shell.session.Reachable ∧
        ((promptText .standard).exec start).1 = .error (.exit 0) := by
    have isReachable : Session.Reachable ((Session.evalLine .standard
        "(def lishp_prompt (exit))").exec .fresh).2.shell.session := .line _ _ .fresh
    exact ⟨_, isReachable, rfl⟩
  have noCommand {group : List String} {read : Course} :
      ¬ Reads .standard (fun _ world => world) start group read := by
    rintro ⟨isPrompt, -⟩
    rw [isPrompt] at promptHalts
    cases promptHalts
  have ended := readsAll .standard (fun _ world => world) start ["(list a)"] isReachable <| by
    intro groups last group read turns reads
    cases turns with
    | nil => exact (noCommand reads).elim
    | cons first others => cases first <;> exact (noCommand ‹_›).elim
  have halts : (nextPrompt .standard none).exec start =
      (.error (.exit 0), ((promptText .standard).exec start).2) := Prod.ext promptHalts rfl
  rw [exec_loop_of_halt halts] at ended
  cases ended

end Interactive

end LispShell
