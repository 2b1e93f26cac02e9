/-!
# Journals

Where messages of a running planner go. Every message has a sender, a dotted
name whose ancestors are its leading parts, and a severity. It is written if
its severity reaches the level of the nearest ancestor that has one, the
sender included and the root at last. What is written goes to the console and,
if there is one, to a file, in columns: the thread, the sender and the
severity each cut or filled to a fixed width, and then the words.

## Main definitions

* `Severity`: How serious a message is.
* `Journal`: Levels, and the lines written so far.
* `Journal.setUp`: A journal as it is set up.
* `Journal.record`: One more message.
-/

namespace JerkPlan

/-- How serious a message is. -/
inductive Severity
  | debug
  | info
  | warning
  | error
  | critical

namespace Severity

/-- The number of a severity. -/
def number : Severity → Nat
  | debug => 10
  | info => 20
  | warning => 30
  | error => 40
  | critical => 50

/-- The name of a severity. -/
def name : Severity → String
  | debug => "DEBUG"
  | info => "INFO"
  | warning => "WARNING"
  | error => "ERROR"
  | critical => "CRITICAL"

end Severity

/-- The senders that have a level of their own, the level of the root, whether
    there is a file, and the lines written. -/
structure Journal where
  rootLevel : Severity
  levels : List (String × Severity)
  hasFile : Bool
  lines : List String

/-- A text cut or filled with blanks to a width. -/
def column (width : Nat) (text : String) : String :=
  let cs := text.toList.take width
  String.ofList (cs ++ List.replicate (width - cs.length) ' ')

namespace Journal

/-- The name of the root. -/
def root : String := "root"

/-- A sender and its ancestors, nearest first, the root left out. -/
def lineage (sender : String) : List String :=
  let parts := sender.splitOn "."
  (List.range parts.length).map fun i => ".".intercalate (parts.take (parts.length - i))

/-- The level that counts for a sender. -/
def levelOf (j : Journal) (sender : String) : Severity :=
  ((lineage sender).findSome? fun n => j.levels.lookup n).getD j.rootLevel

/-- A message as it is written. -/
def format (severity : Severity) (sender words : String) : String :=
  "[" ++ column 10 "MainThread" ++ ":" ++ column 20 sender ++ "] [" ++ column 6 severity.name ++
    "]  " ++ words

/-- One more message. -/
def record (j : Journal) (severity : Severity) (sender words : String) : Journal :=
  let sender := if sender == "" then root else sender
  let level := if sender == root then j.rootLevel else j.levelOf sender
  if level.number ≤ severity.number then
    { j with lines := j.lines ++ (format severity sender words).splitOn "\n" }
  else j

/-- The release that a journal with a file names in its first line. -/
def release : String := "pwj_speed_v1"

/-- A journal for a main sender. With `debug` everything is written, otherwise
    nothing below `info`; the plotting library always keeps to `info` unless it
    is itself the main sender. A journal with a file begins with a header. -/
def setUp (debug hasFile : Bool) (main : Option String) : Journal :=
  let level : Severity := if debug then .debug else .info
  let j : Journal := ⟨level, [("matplotlib", .info)], hasFile, []⟩
  let j := if hasFile then j.record .info root ("Log - " ++ release) else j
  { j with levels := main.elim j.levels fun n => (n, level) :: j.levels }

/-- The main sender, or else the root, which a sender without a name is. -/
def mainSender : Option String → String
  | none | some "" => root
  | some n => n

end Journal

end JerkPlan
