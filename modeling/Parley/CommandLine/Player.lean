import Parley.Session

/-!
# The line player

The player shows a dialogue line by line.  After a line it waits for any input,
after choices for the place of one.  Inputs that start with a colon are meant for
the player itself.  What has been printed is the host's state of the session, so
that commands of a script print in order with the player.

A stage is the player waiting for input, or the player when it has stopped.  One
input leads from stage to stage, so playing a list of inputs is a fold, and when
the inputs are exhausted the player simply stays where it is.
-/

namespace Parley.CommandLine

open Parley.Text

/-- Everything printed so far. -/
abbrev Transcript := String

/-- What the player waits for. -/
inductive Prompt where
  /-- Anything, to go on after a line. -/
  | advance
  /-- One of a number of choices. -/
  | choose (count : Nat)
  deriving DecidableEq, Repr

/-- How the player asks for input. -/
def Prompt.text : Prompt → String
  | advance => "... "
  | choose _ => "> "

/-- The player between two inputs. -/
inductive Stage where
  | waiting (session : Session Transcript) (prompt : Prompt)
  /-- The dialogue is over, the player was told to quit, or a fault came up. -/
  | stopped (session : Session Transcript) (fault : Option Fault)

namespace Player

/-- The commands of the host: `Print` prints a text. -/
def commands : Registry Transcript :=
  Registry.builtin.register "Print" [.exactly .text] none fun arguments transcript =>
    (.ok none,
      arguments.foldl (fun printed value => printed ++ "[print] " ++ value.render ++ "\n")
        transcript)

/-- Print a text. -/
def print (session : Session Transcript) (text : String) : Session Transcript :=
  { session with world := { session.world with host := session.world.host ++ text } }

/-- Print a text and end the line. -/
def printLine (session : Session Transcript) (text : String) : Session Transcript :=
  print session (text ++ "\n")

/-- The line that explains the inputs meant for the player. -/
def helpLine : String := "commands: :help :vars :restart :quit"

/-- A line as it is printed; a neutral expression is not mentioned. -/
def lineText (view : View) : String :=
  if view.expression = neutral then s!"{view.speaker}: {view.text}"
  else s!"{view.speaker} [{view.expression}]: {view.text}"

/-- A choice as it is printed. -/
def offerText (offer : Offer) : String :=
  let seen := if offer.selected then " (seen)" else ""
  s!"  [{offer.index}] {offer.text}{seen}"

/-- A variable as it is printed. -/
def variableText (entry : String × Value) : String :=
  "$" ++ entry.1 ++ " = " ++ entry.2.render

/-- The lines that list the variables. -/
def variableLines (store : Store) : List String :=
  if store.isEmpty then ["(no variables)"] else store.toList.map variableText

/-- Print the prompt and wait. -/
def await (session : Session Transcript) (prompt : Prompt) : Stage :=
  .waiting (print session prompt.text) prompt

/-- Show what the session shows next, and wait unless the dialogue is over. -/
def showNext (session : Session Transcript) : Stage :=
  match session.next with
  | (.error fault, session) => .stopped session (some fault)
  | (.ok (.line view), session) =>
      await (printLine (printLine session "") (lineText view)) .advance
  | (.ok (.choices view offers), session) =>
      await
        (offers.foldl (fun session offer => printLine session (offerText offer))
          (printLine (printLine session "") (lineText view)))
        (.choose offers.length)
  | (.ok .finished, session) =>
      .stopped (printLine (printLine session "") "[END]") none

/-- The first stage of a session that has been started. -/
def begin (session : Session Transcript) : Stage :=
  showNext (printLine (printLine session "Dialogue player") helpLine)

/-- Go on with an input that is not meant for the player itself. -/
def proceed (session : Session Transcript) (prompt : Prompt) (input : Chars) : Stage :=
  match prompt with
  | .advance => showNext session
  | .choose count =>
      match (Number.readIndex? input).filter (· < count) with
      | some index =>
          match session.choose index with
          | (.error fault, session) => .stopped session (some fault)
          | (.ok (), session) => showNext session
      | none => await (printLine session s!"choose 0-{count - 1}") prompt

/-- React to an input from which surrounding blanks have been removed. -/
def react (session : Session Transcript) (prompt : Prompt) (input : Chars) : Stage :=
  if input = ":help".toList then await (printLine session helpLine) prompt
  else if input = ":vars".toList then
    await ((variableLines session.world.store).foldl printLine session) prompt
  else if input = ":restart".toList then
    match session.restart with
    | (.error fault, session) => .stopped session (some fault)
    | (.ok (), session) => showNext (printLine session "restarted")
  else if input = ":quit".toList then .stopped (printLine session "bye") none
  else proceed session prompt input

end Player

namespace Stage

/-- React to one line of input; a player that has stopped ignores it. -/
def receive (stage : Stage) (line : Chars) : Stage :=
  match stage with
  | waiting session prompt => Player.react session prompt (trim line)
  | stopped session fault => .stopped session fault

/-- The session of a stage. -/
def session : Stage → Session Transcript
  | waiting session _ | stopped session _ => session

/-- The fault that stopped the player, if one did. -/
def fault? : Stage → Option Fault
  | waiting _ _ => none
  | stopped _ fault => fault

/-- Whether the player waits for input. -/
def isWaiting : Stage → Bool
  | waiting _ _ => true
  | stopped _ _ => false

/-- Everything printed so far. -/
def printed (stage : Stage) : Transcript :=
  stage.session.world.host

/-- Forget what has been printed so far, once it has been passed on. -/
def clear : Stage → Stage
  | waiting session prompt =>
      waiting { session with world := { session.world with host := "" } } prompt
  | stopped session fault =>
      stopped { session with world := { session.world with host := "" } } fault

/-- A player that has stopped stays as it is. -/
@[simp]
theorem receive_stopped (session : Session Transcript) (fault : Option Fault) (line : Chars) :
    (stopped session fault).receive line = .stopped session fault :=
  rfl

end Stage

/-- Play a session with all the input there is. -/
def Player.play (session : Session Transcript) (inputs : List Chars) : Stage :=
  inputs.foldl Stage.receive (Player.begin session)

end Parley.CommandLine
