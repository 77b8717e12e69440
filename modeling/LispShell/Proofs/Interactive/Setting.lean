import LispShell.CommandLine.Entry
import LispShell.Proofs.Interactive.Turns
import LispShell.Proofs.World.Output

/-! # The setting of a session
What characters the outputs and the operating system take, and the home directory that the account
has on record, are given to a session and stay as they are, whatever it evaluates. So where the
outputs take every character, the loop over the standard input, which prints its prompts with
`Interactive.print`, takes turns like a loop that only shows them. -/

namespace LispShell

/-- Whether one world has the setting of another. -/
structure World.SameSetting (world after : World) : Prop where
  /-- The outputs take the same characters. -/
  streams : after.streams = world.streams
  /-- The operating system takes the same characters. -/
  names : after.names = world.names
  /-- The account has the same home directory on record. -/
  accountHome : after.accountHome = world.accountHome

namespace World.SameSetting

variable {world middle after : World}

/-- A world has its own setting. -/
theorem refl (world : World) : world.SameSetting world :=
  ⟨rfl, rfl, rfl⟩

/-- What has the setting of a world has that of any other world with the setting. -/
theorem trans (first : world.SameSetting middle) (second : middle.SameSetting after) :
    world.SameSetting after :=
  ⟨second.streams.trans first.streams, second.names.trans first.names,
    second.accountHome.trans first.accountHome⟩

end World.SameSetting

/-- Whether every character is in a set. -/
def CharacterSet.IsFull (set : CharacterSet) : Prop :=
  ∀ c, set.holds c = true

namespace CharacterSet.IsFull

variable {set : CharacterSet} (isFull : set.IsFull)
include isFull

/-- A full set covers every text. -/
theorem covers (text : String) : set.covers text = true :=
  List.all_eq_true.mpr fun c _ => isFull c

/-- A full set refuses no text. -/
theorem check_ne_error (text report : String) : set.check text ≠ .error report := by
  rw [check, if_pos (isFull.covers text)]
  rintro ⟨⟩

end CharacterSet.IsFull

/-- Whether nothing is wanting in the setting of a world. -/
structure World.IsEquipped (world : World) : Prop where
  /-- The outputs take every character. -/
  streams : world.streams.IsFull
  /-- The operating system takes every character. -/
  names : world.names.IsFull
  /-- The account has a home directory on record. -/
  hasHome : world.accountHome.bind recordedHome? ≠ none

namespace World.IsEquipped

variable {world after : World} (isEquipped : world.IsEquipped)
include isEquipped

/-- What has the setting of an equipped world is equipped. -/
theorem of_sameSetting (same : world.SameSetting after) : after.IsEquipped := by
  obtain ⟨streams, names, hasHome⟩ := isEquipped
  refine ⟨?_, ?_, ?_⟩
  · rwa [same.streams]
  · rwa [same.names]
  · rwa [same.accountHome]

/-- The user of an equipped world has a home directory, whatever the variable for it is. -/
theorem home?_ne_none : world.home? ≠ none := by
  unfold home?
  split
  · exact isEquipped.hasHome
  · split <;> rintro ⟨⟩

end World.IsEquipped

variable [OperatingSystem]

/-- No effect changes the setting. -/
theorem World.Does.sameSetting {past : List Effect} {world after : World} {effect : Effect}
    (does : world.Does past effect after) : world.SameSetting after := by
  cases does with
  | enter entered =>
    obtain ⟨directory, rfl⟩ := exists_of_enter entered
    exact ⟨rfl, rfl, rfl⟩
  | setVariable => exact ⟨rfl, rfl, rfl⟩
  | store stored =>
    obtain ⟨files, rfl⟩ := exists_of_writeText stored
    exact ⟨rfl, rfl, rfl⟩
  | launch ended =>
    obtain ⟨finished, rfl⟩ | ⟨report, rfl⟩ := exists_of_runProcess ended
    · exact ⟨rfl, rfl, rfl⟩
    · exact ⟨rfl, rfl, rfl⟩

namespace Discipline

/-- The setting is that of a world. -/
def setting (world : World) : Discipline :=
  { unrestricted with
    outside := fun after _ => world.SameSetting after
    outside_does := fun same does _ => same.trans does.sameSetting }

variable {world : World}

/-- Printing a text keeps the setting. -/
theorem keeps_print (text : String) :
    (setting world).Keeps (fun _ => True) (Interactive.print text) := by
  refine keeps_of_exec fun course holds => ⟨?_, fun _ _ => trivial⟩
  rw [Interactive.exec_print, World.print_eq]
  cases course.shell.world.streams.check text with
  | ok _ => exact ⟨trivial, holds.2.trans ⟨rfl, rfl, rfl⟩⟩
  | error report => exact holds

/-- Reporting a fault keeps the setting. -/
theorem keeps_report (cause : Fault) :
    (setting world).Keeps (fun _ => True) (Interactive.report cause) :=
  keeps_of_exec fun _ holds => ⟨⟨trivial, holds.2.trans ⟨rfl, rfl, rfl⟩⟩, fun _ _ => trivial⟩

/-- What is printed for a line keeps the setting. -/
theorem keeps_answer (limits : Limits) (line : String) :
    (setting world).Keeps (fun _ => True) (Interactive.answer limits line) := by
  refine (keeps_evalLine (fun _ => trivial) trivial limits line).bind fun value _ => ?_
  split
  · exact keeps_pure trivial
  · exact keeps_ofExcept fun _ _ => trivial

/-- A line keeps the setting. -/
theorem keeps_runLine (limits : Limits) (line : String) :
    (setting world).Keeps (fun _ => True) (Interactive.runLine limits line) := by
  refine (keeps_caught _ (keeps_answer limits line)).bind fun answered _ => ?_
  cases answered with
  | ok text => exact keeps_print _
  | error cause => exact keeps_report cause

/-- A command keeps the setting. -/
theorem keeps_runCommand (limits : Limits) (command : String) :
    (setting world).Keeps (fun _ => True) (Interactive.runCommand limits command) := by
  unfold Interactive.runCommand
  split
  · exact keeps_pure trivial
  · exact keeps_runLine limits command

/-- The next prompt keeps the setting. -/
theorem keeps_nextPrompt (limits : Limits) (unfinished : Option String) :
    (setting world).Keeps (fun _ => True) (Interactive.nextPrompt limits unfinished) := by
  cases unfinished with
  | some _ => exact keeps_pure trivial
  | none =>
    refine (keeps_caught _ (keeps_prompt (fun _ => trivial) limits)).bind fun prompted _ => ?_
    cases prompted with
    | ok text => exact keeps_pure trivial
    | error cause => exact keeps_pure trivial

end Discipline

/-- What a run leaves has the setting, if the run keeps it. -/
theorem World.SameSetting.of_keeps {α : Type} {good : α → Prop} {run : Run α} {world : World}
    {course after : Course} {outcome : Except Halt α}
    (same : world.SameSetting course.shell.world)
    (keeps : (Discipline.setting world).Keeps good run)
    (ended : run.exec course = (outcome, after)) : world.SameSetting after.shell.world := by
  have kept := (keeps course ⟨trivial, same⟩).1.2
  rwa [ended] at kept

/-! ## The loop over the standard input -/

namespace Interactive

variable {limits : Limits} {world : World} {course : Course}

omit [OperatingSystem] in
/-- Where the outputs take every character, to print a prompt is to show it. -/
theorem exec_print_eq_showing (isFull : world.streams.IsFull)
    (same : world.SameSetting course.shell.world) (text : String) :
    (print text).exec course = (showing World.writing text).exec course := by
  rw [← same.streams] at isFull
  exact exec_print_of_covers (isFull.covers text)

/-- Where the outputs take every character, a loop that prints its prompts does what one does that
shows them. -/
theorem exec_loop_print {lines : List String} {unfinished : Option String}
    (isFull : world.streams.IsFull) (same : world.SameSetting course.shell.world) :
    (loop limits print unfinished lines).exec course =
      (loop limits (showing World.writing) unfinished lines).exec course := by
  induction lines generalizing unfinished course with
  | nil =>
    rw [loop, loop]
    refine Run.exec_bind_eq _ rfl fun text prompted isPrompt => ?_
    have samePrompted := same.of_keeps (Discipline.keeps_nextPrompt limits unfinished) isPrompt
    exact Run.exec_bind_eq _ (exec_print_eq_showing isFull samePrompted text) fun _ _ _ => rfl
  | cons line rest inductionHypothesis =>
    rw [loop, loop]
    refine Run.exec_bind_eq _ rfl fun text prompted isPrompt => ?_
    have samePrompted := same.of_keeps (Discipline.keeps_nextPrompt limits unfinished) isPrompt
    have isShown := exec_print_eq_showing isFull samePrompted text
    refine Run.exec_bind_eq _ isShown fun _ shown isPrinted => ?_
    have sameShown := samePrompted.of_keeps (Discipline.keeps_print text) isPrinted
    refine Run.exec_bind_eq _ rfl fun complete read isRead => ?_
    -- to look whether a command is complete leaves the course as it is
    obtain ⟨-, rfl⟩ : _ ∧ shown = read := Prod.ext_iff.mp isRead
    cases complete with
    | true =>
      refine Run.exec_bind_eq _ rfl fun _ after isRun => inductionHypothesis ?_
      exact sameShown.of_keeps (Discipline.keeps_runCommand limits _) isRun
    | false => exact inductionHypothesis sameShown

/-- The loop over the standard input takes turns, as long as the outputs take every character. -/
theorem input_is_taken_in_turns (limits : Limits) {start : Course} (lines : List String)
    (isFull : start.shell.world.streams.IsFull) :
    TakesTurns limits World.writing start lines ((loop limits print none lines).exec start) := by
  rw [exec_loop_print isFull (.refl _)]
  exact takesTurns_loop_of_afterPrompt fun isPrompt =>
    takesTurns_afterPrompt isPrompt isUnfinished_nil

end Interactive

end LispShell
