import EntityAtlas.CommandLine.Arguments
import EntityAtlas.CommandLine.Help
import EntityAtlas.Run

/-!
# A session at the command line

A session reads its command line, runs, and ends with an exit code and what it printed. The code is 0 when all went
well or help was asked for, 1 when the run failed and 2 when the command line was refused.
-/

namespace EntityAtlas.CommandLine

/-- What a session prints on its two channels, and its exit code. -/
structure Report where
  code : Nat
  output : String
  errors : String
  deriving DecidableEq, Repr

/-- The report of a session that ends before it runs. -/
def Stop.report : Stop → Report
  | .help => ⟨0, helpText, ""⟩
  | .refused r => ⟨2, "", refusalText r⟩

/-- What is shown of a log: all of it to a verbose session, or else what is not only for debugging. -/
def shownLog (verbose : Bool) (log : List LogEntry) : List LogEntry :=
  log.filter fun e => verbose || Severity.info.rank ≤ e.severity.rank

/-- The report of a run. What stops a run is shown as it is. -/
def runReport (log : List LogEntry) : Except Run.Failure Run.Result → Report
  | .error (.overflow o) => ⟨1, "", lines (log.map (·.line)) ++ o.message ++ "\n"⟩
  | .ok r => ⟨0, "Generated " ++ toString r.files.length ++ " file(s) into " ++ r.output.text ++ "\n",
      lines (log.map (·.line))⟩
  | .error f => ⟨1, "", lines (log.map (·.line)) ++ "Error: " ++ f.message ++ "\n"⟩

/-- The end of a session: its report, whether it came to run, and the store after it. -/
structure Ended where
  report : Report
  ran : Bool
  store : Store

/-- A session with the given words. -/
def session (words : List String) (date : String) (s : Store) : Logged Ended :=
  match Arguments.ofWords words with
  | .error stop => return ⟨stop.report, false, s⟩
  | .ok a =>
    let finished := Run.generate a.settings date s
    ⟨⟨runReport (shownLog a.choices.verbose finished.log) finished.value.outcome, true, finished.value.store⟩,
      finished.log, finished.stop⟩

end EntityAtlas.CommandLine
