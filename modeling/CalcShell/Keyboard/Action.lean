import CalcShell.Bytes

/-!
The editing actions that keys are bound to. A session sees actions and printable text only.
-/
namespace CalcShell

inductive Action where
  /-- Bound to nothing: the key has no effect of its own. -/
  | ignore
  | backspace | deleteForward | clearWord | clearLine | cutToBuffer | yank
  | cursorLeft | cursorRight | home | finish
  | historyBack | historyForward | historyFirst | historyLast
  | complete | completeBack | submit | clearScreen | undo | exit | interrupt | escape
  | saveTranscript
deriving DecidableEq, Repr, Inhabited

namespace Action

def all : List Action :=
  [.ignore, .backspace, .deleteForward, .clearWord, .clearLine, .cutToBuffer, .yank, .cursorLeft,
   .cursorRight, .home, .finish, .historyBack, .historyForward, .historyFirst, .historyLast,
   .complete, .completeBack, .submit, .clearScreen, .undo, .exit, .interrupt, .escape,
   .saveTranscript]

theorem mem_all (a : Action) : a ∈ all := by cases a <;> decide

/-- The name of an action in a configuration. -/
def label : Action → String
  | .ignore => "none"
  | .backspace => "backspace"
  | .deleteForward => "delete"
  | .clearWord => "clear_word"
  | .clearLine => "clear_line"
  | .cutToBuffer => "cut_to_buffer"
  | .yank => "yank_from_buffer"
  | .cursorLeft => "left"
  | .cursorRight => "right"
  | .home => "home"
  | .finish => "end"
  | .historyBack => "up_one_line"
  | .historyForward => "down_one_line"
  | .historyFirst => "first_history"
  | .historyLast => "last_history"
  | .complete => "complete"
  | .completeBack => "complete_back"
  | .submit => "submit"
  | .clearScreen => "clear_screen"
  | .undo => "undo"
  | .exit => "exit"
  | .interrupt => "interrupt"
  | .escape => "escape"
  | .saveTranscript => "save_transcript"

/-- The action that a configuration names; the name of the empty binding is none of them. -/
def ofLabel? (text : Bytes) : Option Action :=
  (all.erase .ignore).find? (bytes ·.label == text)

end Action
end CalcShell
