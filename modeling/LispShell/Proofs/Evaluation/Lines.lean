import LispShell.Evaluation.Evaluator
import LispShell.Proofs.Run.Exec

/-! # Lines
A line differs from any other expression only where it is a command. Whether it is one is settled
once its head is evaluated. -/

namespace LispShell.Evaluation

variable [OperatingSystem]

/-- What makes an expression a command: it is a call, and its head names a program and neither a
builtin nor a function. -/
structure CommandAt (operands : Operands) (course : Course) (e : Expr) where
  /-- The head. -/
  head : Expr
  /-- The operands. -/
  es : List Expr
  /-- The name that the head stands for. -/
  name : String
  /-- Where things stand once the head is evaluated. -/
  named : Course
  /-- The program. -/
  path : String
  isCall : e = .call (head :: es)
  isNamed : (headName operands head).exec course = (.ok name, named)
  notBuiltin : Builtin.ofName? name = none
  notFunction : named.shell.session.functions.find? name = none
  isFound : named.shell.world.findProgram name = .ok (some path)

variable {α : Type} {operands : Operands} {ending : Ending α} {course : Course} {e : Expr}

/-- The activation of a command runs it. -/
theorem exec_activate_command (command : CommandAt operands course e) (isLine : Bool) :
    (activate operands ending isLine e).exec course =
      (ending.value <$> Command.run operands isLine command.name command.es).exec
        command.named := by
  obtain ⟨head, es, name, named, path, rfl, isNamed, notBuiltin, notFunction, isFound⟩ := command
  rw [activate, Run.exec_bind_ok course isNamed]
  simp only [notBuiltin]
  rw [Run.exec_bind_ok named (Run.exec_session named), notFunction]

/-- The activation of an expression that is not a command does the same whether it is a line or
not. -/
theorem exec_activate_line (noCommand : CommandAt operands course e → False) :
    (activate operands ending true e).exec course =
      (activate operands ending false e).exec course := by
  match e, noCommand with
  | .list items, _ => rfl
  | .atom text, _ => rfl
  | .call [], _ => rfl
  | .call (head :: es), noCommand =>
    rw [activate, activate]
    rcases isNamed : (headName operands head).exec course with ⟨halt | name, named⟩
    · rw [Run.exec_bind_error course isNamed, Run.exec_bind_error course isNamed]
    · rw [Run.exec_bind_ok course isNamed, Run.exec_bind_ok course isNamed]
      cases notBuiltin : Builtin.ofName? name with
      | some builtin => rfl
      | none =>
        dsimp only
        rw [Run.exec_bind_ok named (Run.exec_session named),
          Run.exec_bind_ok named (Run.exec_session named)]
        cases notFunction : named.shell.session.functions.find? name with
        | some function => rfl
        | none =>
          have consulted := Run.exec_consult named .noWorkingDirectory (·.findProgram name)
          match isFound : named.shell.world.findProgram name with
          | .ok (some path) =>
            exact (noCommand
              ⟨head, es, name, named, path, rfl, isNamed, notBuiltin, notFunction, isFound⟩).elim
          | .ok none =>
            rw [isFound] at consulted
            have notFound (isLine : Bool) :
                (Command.run operands isLine name es).exec named =
                  (.error (.fault (.commandNotFound name)), named) := by
              rw [Command.run, Run.exec_bind_ok named consulted]
              rfl
            simp only [Run.exec_map, notFound]
          | .error refusal =>
            rw [isFound] at consulted
            have notLooked (isLine : Bool) :
                (Command.run operands isLine name es).exec named =
                  (.error (.fault (.noWorkingDirectory refusal)), named) :=
              Run.exec_bind_error named consulted
            simp only [Run.exec_map, notLooked]

/-! ## Lines as they are run -/

/-- How the operands of a line are evaluated. -/
def lineOperands (limits : Limits) : Operands where
  room := limits.depth - 1
  value operand := Step.result <$> evaluate limits.steps (limits.depth - 1) false false operand

variable {limits : Limits}

/-- A line that is not a command does the same as anywhere else. -/
theorem exec_run_line (noCommand : CommandAt (lineOperands limits) course e → False) :
    (run limits true e).exec course = (run limits false e).exec course := by
  have same : (evaluate limits.steps limits.depth true true e).exec course =
      (evaluate limits.steps limits.depth false true e).exec course := by
    obtain ⟨_ | room, steps⟩ := limits
    · rfl
    · exact exec_activate_line noCommand
  rw [run, run]
  rcases ended : (evaluate limits.steps limits.depth false true e).exec course with
    ⟨halt | taken, after⟩
  · rw [Run.exec_bind_error course ended, Run.exec_bind_error course (same.trans ended)]
  · rw [Run.exec_bind_ok course ended, Run.exec_bind_ok course (same.trans ended)]

/-- A line that is a command runs it. -/
theorem exec_run_command (command : CommandAt (lineOperands limits) course e)
    (enough : limits.depth ≠ 0) :
    (run limits true e).exec course =
      (Command.run (lineOperands limits) true command.name command.es).exec command.named := by
  obtain ⟨_ | room, steps⟩ := limits
  · exact absurd rfl enough
  · have activated :
        (evaluate steps (room + 1) true true e).exec course =
          (Step.value <$>
            Command.run (lineOperands ⟨room + 1, steps⟩) true command.name command.es).exec
              command.named :=
      exec_activate_command command true
    rw [Run.exec_map] at activated
    rw [run]
    rcases ended : (Command.run (lineOperands ⟨room + 1, steps⟩) true command.name
        command.es).exec command.named with ⟨halt | value, after⟩
    · rw [ended] at activated
      exact Run.exec_bind_error course activated
    · rw [ended] at activated
      exact Run.exec_bind_ok course activated

end LispShell.Evaluation
