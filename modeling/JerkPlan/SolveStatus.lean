/-!
# Statuses of nonlinear solves

The ways in which a nonlinear solve can end, each with the number and the name
by which a solver reports it. A report may be a number, a name, or already a
status; a number or a name that belongs to no status, and any other kind of
report, means no status and counts as an unknown failure.

## Main definitions

* `SolveStatus`: How a nonlinear solve ended.
* `SolveStatus.code`, `SolveStatus.name`: Its number and its name.
* `StatusReport`: What a solver reports.
* `StatusReport.status?`: The status that is meant, if any.
-/

namespace JerkPlan

/-- How a nonlinear solve ended. -/
inductive SolveStatus
  | succeeded
  | acceptable
  | infeasible
  | smallDirection
  | diverging
  | stoppedByUser
  | feasiblePoint
  | iterationLimit
  | restorationFailed
  | stepError
  | cpuTimeLimit
  | wallTimeLimit
  | fewDegrees
  | invalidProblem
  | invalidOption
  | invalidNumber
  | unrecoverable
  | foreignException
  | outOfMemory
  | internalError
deriving DecidableEq

namespace SolveStatus

/-- All statuses. -/
def all : List SolveStatus :=
  [succeeded, acceptable, infeasible, smallDirection, diverging, stoppedByUser, feasiblePoint,
    iterationLimit, restorationFailed, stepError, cpuTimeLimit, wallTimeLimit, fewDegrees,
    invalidProblem, invalidOption, invalidNumber, unrecoverable, foreignException, outOfMemory,
    internalError]

/-- The number of a status. -/
def code : SolveStatus → Int
  | succeeded => 0
  | acceptable => 1
  | infeasible => 2
  | smallDirection => 3
  | diverging => 4
  | stoppedByUser => 5
  | feasiblePoint => 6
  | iterationLimit => -1
  | restorationFailed => -2
  | stepError => -3
  | cpuTimeLimit => -4
  | wallTimeLimit => -5
  | fewDegrees => -10
  | invalidProblem => -11
  | invalidOption => -12
  | invalidNumber => -13
  | unrecoverable => -100
  | foreignException => -101
  | outOfMemory => -102
  | internalError => -199

/-- The name of a status. -/
def name : SolveStatus → String
  | succeeded => "Solve_Succeeded"
  | acceptable => "Solved_To_Acceptable_Level"
  | infeasible => "Infeasible_Problem_Detected"
  | smallDirection => "Search_Direction_Becomes_Too_Small"
  | diverging => "Diverging_Iterates"
  | stoppedByUser => "User_Requested_Stop"
  | feasiblePoint => "Feasible_Point_Found"
  | iterationLimit => "Maximum_Iterations_Exceeded"
  | restorationFailed => "Restoration_Failed"
  | stepError => "Error_In_Step_Computation"
  | cpuTimeLimit => "Maximum_CpuTime_Exceeded"
  | wallTimeLimit => "Maximum_WallTime_Exceeded"
  | fewDegrees => "Not_Enough_Degrees_Of_Freedom"
  | invalidProblem => "Invalid_Problem_Definition"
  | invalidOption => "Invalid_Option"
  | invalidNumber => "Invalid_Number_Detected"
  | unrecoverable => "Unrecoverable_Exception"
  | foreignException => "NonIpopt_Exception_Thrown"
  | outOfMemory => "Insufficient_Memory"
  | internalError => "Internal_Error"

/-- Whether the result of the solve is taken. -/
def success : SolveStatus → Bool
  | succeeded | acceptable => true
  | _ => false

end SolveStatus

/-- What a solver reports: a number, a name, a status, or nothing legible. -/
inductive StatusReport
  | code (n : Int)
  | name (s : String)
  | status (s : SolveStatus)
  | illegible

namespace StatusReport

/-- The status that is meant. -/
def status? : StatusReport → Option SolveStatus
  | code n => SolveStatus.all.find? fun s => s.code == n
  | name t => SolveStatus.all.find? fun s => s.name == t
  | status s => some s
  | illegible => none

/-- The name of a failure that no status stands for. -/
def unknown : String := "unknown failure"

/-- The name of the status that is meant. -/
def statusName (r : StatusReport) : String := r.status?.elim unknown (·.name)

/-- Whether the status that is meant is a success. -/
def success (r : StatusReport) : Bool := r.status?.elim false (·.success)

end StatusReport

end JerkPlan
