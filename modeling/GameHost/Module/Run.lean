import GameHost.Module.Perform

namespace GameHost.World

abbrev Executor := Context → Operation → World → Outcome × World

/-- Runs the steps of a script up to the first that fails and may not. -/
def runScript (execute : Executor) (c : Context) : Script → World → Except Error Unit × World
  | [], w => (.ok (), w)
  | step :: steps, w =>
    match execute c step.op w with
    | (.failed e, w) =>
      if step.soft then runScript execute c steps (w.note (.softError e)) else (.error e, w)
    | (outcome, w) => runScript execute c steps (w.noteAll (step.label.toList.flatMap outcome.notes))

/-- Runs an operation in which scripts may nest `depth` deep. -/
def execute : Nat → Executor
  | 0, _, _, w => (.unfinished, w)
  | depth + 1, c, op, w => perform (runScript (execute depth)) c w op

/-- No script that comes to an end nests so deep: each level takes memory. -/
def maxDepth : Nat := UInt32.size

/-- Runs an operation by itself. The lines are those of its own notes. -/
def step (op : Operation) (w : World) : Outcome × List String × World :=
  let (outcome, after) := execute maxDepth .outside op { w with notes := [] }
  (outcome, after.notes.reverse.filterMap Note.line?, after)

def steps (w : World) : List Operation → List (Outcome × List String)
  | [] => []
  | op :: ops =>
    let (outcome, lines, w) := w.step op
    (outcome, lines) :: steps w ops

end GameHost.World
