import Trademgen.Batch
import Trademgen.KeyString

/-!
The shell: the commands that a user types, and what each of them does to the world.

What the shell prints is part of the model: a reply is the text that a command writes. Readline
splits a line into its tokens, and the event manager lists and describes its events: these are
parameters.
-/

set_option linter.unusedSectionVars false

namespace Trademgen

open EventQueue DemandManager

/-- How events are written. -/
class EventDisplay (K : outParam Type) (Q : Type) where
  describe : EventStruct K → String
  list : Q → String
  jsonHandler : String → Q → String

/-- Nothing is written of the events. -/
instance {K : Type} : EventDisplay K (SortedQueue K) where
  describe _ := ""
  list _ := ""
  jsonHandler _ _ := ""

namespace Shell

/-! ### Commands -/

inductive Command
  | NOP | QUIT | HELP | LIST_EVENT | LIST_DEMAND_STREAM | RESET | NEXT | GENERATE_NEXT_BR
  | GENERATE_FIRST_BR | GENERATE_ALL_BR | JSON_LIST | LAST_VALUE
  deriving DecidableEq

def toLower (lCommand : String) : String := .ofList (lCommand.toList.map Char.toLower)

/-- The command of the first token, in lower case, and the other tokens. -/
def extractCommand : List String → Command × List String
  | [] => (.NOP, [])
  | itTok :: oTokenList =>
    let lCommand := toLower itTok
    let oCommandType : Command :=
      if lCommand = "help" then .HELP
      else if lCommand = "list_event" then .LIST_EVENT
      else if lCommand = "list_demand_stream" then .LIST_DEMAND_STREAM
      else if lCommand = "reset" then .RESET
      else if lCommand = "delete_first" then .NEXT
      else if lCommand = "generate_first_br" then .GENERATE_FIRST_BR
      else if lCommand = "generate_next_br" then .GENERATE_NEXT_BR
      else if lCommand = "generate_all_br" then .GENERATE_ALL_BR
      else if lCommand = "json_list" then .JSON_LIST
      else if lCommand = "quit" then .QUIT
      else .LAST_VALUE
    (oCommandType, oTokenList)

/-- The tokens from a position on. The position is an unsigned short, and there is no blank before
a token whose position is zero. -/
def joinFrom : ℕ → List String → String
  | _, [] => ""
  | idx, itTok :: r => (if idx ≠ 0 then " " else "") ++ itTok ++ joinFrom ((idx + 1) % 65536) r

protected def toString (iTokenList : List String) : String := joinFrom 0 iTokenList

/-- A line as readline gives it. -/
structure Line where
  userInput : String
  tokenList : List String

/-! ### Replies -/

def helpText (lDefaultDemandStreamKey : String) : String :=
  "\nCommands: \n"
    ++ " help\t\t\tDisplay this help\n"
    ++ " quit\t\t\tQuit the application\n"
    ++ " list_event\t\tList all the events in the queue\n"
    ++ " list_demand_stream\tList the streams used to generate demand\n"
    ++ " reset\t\t\tReset the service (including the event queue)\n"
    ++ " generate_first_br\tGenerate the first booking request for each demand stream and add it"
    ++ " to the event queue\n"
    ++ " generate_next_br\tGenerate the next event for the specified demand stream and add it to"
    ++ " the event queue\n\t\t\tFor instance:\n\t\t\t  'generate_next_br "
    ++ lDefaultDemandStreamKey ++ "'\n"
    ++ " generate_all_br\tGenerate all the events for the specified demand stream and add it to"
    ++ " the event queue\n\t\t\tFor instance:\n\t\t\t  'generate_all_br "
    ++ lDefaultDemandStreamKey ++ "'\n"
    ++ " delete_first\t\tPop the next event from the queue\n"
    ++ " \nDebug Commands\n"
    ++ " json_list\t\tList events in the queue in a JSON format\n\n"

def noMoreEventToGenerate (lDemandStreamKey : String) : String :=
  "No more events to generate for the demand stream: '" ++ lDemandStreamKey ++ "'.\n"

def oneMoreEventGenerated (lDemandStreamKey : String) : String :=
  "One more event have been generated for the demand stream: '" ++ lDemandStreamKey ++ "'.\n"

def moreEventsGenerated (lNumberOfRequests : ℕ) (lDemandStreamKey : String) : String :=
  toString lNumberOfRequests ++ " more event(s) have been generated for the demand stream: '"
    ++ lDemandStreamKey ++ "'.\n"

/-- The tokens are written to the output before the rest of the sentence is. -/
def notUnderstood (lUserInput : String) (lTokenList : List String) : String :=
  String.join (lTokenList.map (· ++ " ")) ++ "That command is not yet understood: '" ++ lUserInput
    ++ "' => \n"

def lMyCommandJSON : String := "\x7b\"event_list\":\x7b \"event_type\":\"all\"\x7d\x7d"

def endOfSession : String := "End of the session. Exiting.\n"

section World

variable {K G Q : Type} [Field K] [LinearOrder K] [FloorRing K] [Libm K] [RandomGeneration K G]
  [EventQueue K Q] [EventManagerReset Q] [DateFormat] [EventDisplay K Q]

def displayDemandStream (w : World K G Q) : String :=
  String.join (w.demandStreamList.map fun key => key.toString ++ "\n")

def wrongDemandStreamKey (w : World K G Q) (lDemandStreamKey : String) : String :=
  "Wrong demand stream key: '" ++ lDemandStreamKey ++ "'.\nExisting demand streams are:\n"
    ++ displayDemandStream w ++ "\n"

/-! ### What a command does -/

/-- The loop of `generate_all_br`, with the number of requests so far, up to a number of turns. -/
def generateAll (iDemandGenerationMethod : DemandGenerationMethod) (key : DemandStreamKey) :
    ℕ → ℕ → EStateM Fault (World K G Q) ℕ
  | 0, _ => throw .cut
  | n + 1, lNumberOfRequests => do
    let w ← get
    if stillHavingRequestsToBeGenerated w key iDemandGenerationMethod then
      let _ ← generateNextRequest key iDemandGenerationMethod
      generateAll iDemandGenerationMethod key n (lNumberOfRequests + 1)
    else return lNumberOfRequests

def generateNextBR (iDemandGenerationMethod : DemandGenerationMethod) (lTokenList : List String) :
    EStateM Fault (World K G Q) String := do
  let lDemandStreamKey := Shell.toString lTokenList
  let w ← get
  match getEventGenerator w lDemandStreamKey with
  | none => return wrongDemandStreamKey w lDemandStreamKey
  | some key =>
    if stillHavingRequestsToBeGenerated w key iDemandGenerationMethod then
      let _ ← generateNextRequest key iDemandGenerationMethod
      return oneMoreEventGenerated lDemandStreamKey
    else return noMoreEventToGenerate lDemandStreamKey

def generateAllBR (iDemandGenerationMethod : DemandGenerationMethod) (n : ℕ)
    (lTokenList : List String) : EStateM Fault (World K G Q) String := do
  let lDemandStreamKey := Shell.toString lTokenList
  let w ← get
  match getEventGenerator w lDemandStreamKey with
  | none => return wrongDemandStreamKey w lDemandStreamKey
  | some key =>
    if stillHavingRequestsToBeGenerated w key iDemandGenerationMethod then
      let lNumberOfRequests ← generateAll iDemandGenerationMethod key n 0
      return moreEventsGenerated lNumberOfRequests lDemandStreamKey
    else return noMoreEventToGenerate lDemandStreamKey

def next : EStateM Fault (World K G Q) String := do
  let w ← get
  if isQueueDone w.queue then
    return "Next\nThe event queue is empty: no event can be popped out.\n"
  else match popEvent w.queue with
    | none => throw .assertion
    | some (lCurrentInteractiveEventStruct, q) =>
      set { w with queue := q }
      return "Next\nPoped event: '" ++ EventDisplay.describe Q lCurrentInteractiveEventStruct
        ++ "'.\n"

/-- A command, with the tokens behind it: what it does, and its reply. -/
def execute (iDemandGenerationMethod : DemandGenerationMethod) (n : ℕ)
    (lDefaultDemandStreamKey lUserInput : String) (lTokenList : List String) :
    Command → EStateM Fault (World K G Q) String
  | .HELP => return helpText lDefaultDemandStreamKey
  | .QUIT => return ""
  | .LIST_EVENT => do
    let w ← get
    return "List of events\n" ++ EventDisplay.list w.queue ++ "\n"
  | .LIST_DEMAND_STREAM => do
    let w ← get
    return "List of demand streams\n" ++ displayDemandStream w ++ "\n"
  | .RESET => do
    modify reset
    return "Reset\n"
  | .GENERATE_NEXT_BR => generateNextBR iDemandGenerationMethod lTokenList
  | .GENERATE_FIRST_BR => do
    let _ ← generateFirstRequests iDemandGenerationMethod
    return "Generate first requests\n"
  | .GENERATE_ALL_BR => generateAllBR iDemandGenerationMethod n lTokenList
  | .NEXT => next
  | .JSON_LIST => do
    let w ← get
    return "JSON Event List\n" ++ EventDisplay.jsonHandler lMyCommandJSON w.queue ++ "\n"
  | .NOP => return ""
  | .LAST_VALUE => return notUnderstood lUserInput lTokenList

/-- The session, up to `quit` or to the end of the input, with its replies. -/
def session (iDemandGenerationMethod : DemandGenerationMethod) (n : ℕ)
    (lDefaultDemandStreamKey : String) : List Line → EStateM Fault (World K G Q) (List String)
  | [] => return ["\n" ++ endOfSession]
  | line :: lines => do
    let (lCommandType, lTokenList) := extractCommand line.tokenList
    let reply ← execute iDemandGenerationMethod n lDefaultDemandStreamKey line.userInput lTokenList
      lCommandType
    if lCommandType = .QUIT then return [reply, endOfSession]
    else
      let replies ← session iDemandGenerationMethod n lDefaultDemandStreamKey lines
      return reply :: replies

end World

end Shell

end Trademgen
