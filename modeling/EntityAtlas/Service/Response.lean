import EntityAtlas.Run
import EntityAtlas.Service.Request

/-!
# Responses

A response has a status and a structured body. The status is 200 for what was asked for, 400 for a generator that cannot
be chosen, 404 and 405 for what no route takes, 422 for a body with faults and 500 for a scan or a run that failed.
-/

namespace EntityAtlas.Service

structure Response where
  status : Nat
  body : Json
  deriving Repr

namespace Response

/-- A response that only tells why. -/
def because (status : Nat) (why : Json) : Response :=
  ⟨status, .obj [("detail", why)]⟩

/-- What a response tells of a graph. -/
def graphFields (scan : Nesting.Scan) : List (String × Json) :=
  [("graph", scan.graph.describe (some scan.columnsOf)), ("hierarchy", .str scan.graph.hierarchy)]

/-- The response to a request for entities. -/
def ofScan : Except Nesting.Failure Nesting.Scan → Response
  | .ok scan => ⟨200, .obj (graphFields scan)⟩
  | .error f => because 500 (.str f.message)

/-- The status that tells of a failed run. -/
def failureStatus : Run.Failure → Nat
  | .selection _ => 400
  | _ => 500

/-- What a client gets where the work for a request was stopped. -/
def unserved : Response := ⟨500, .str "Internal Server Error"⟩

/-- The response to a request for a run. -/
def ofRun : Except Run.Failure Run.Result → Response
  | .ok r => ⟨200, .obj (graphFields r.scan ++ [("output_directory", .str r.output.text),
      ("generated_files", .texts (r.files.map (·.text)))])⟩
  | .error (.overflow _) => unserved
  | .error f => because (failureStatus f) (.str f.message)

end Response

/-- A response, and the store after the work for it. -/
structure Served where
  response : Response
  store : Store

/-- Do what a route stands for. -/
def Route.serve (route : Route) (settings : Settings) (date : String) (s : Store) : Logged Served := do
  match route with
  | .entities =>
    match ← (settings.scan s).outcome with
    | .error _ => return ⟨.unserved, s⟩
    | .ok scanned => return ⟨.ofScan scanned, s⟩
  | .generate =>
    let finished ← Run.generate settings date s
    return ⟨.ofRun finished.outcome, finished.store⟩

def Request.serve (r : Request) (date : String) (s : Store) : Logged Served :=
  match Route.ofPath? r.path with
  | none => return ⟨.because 404 (.str "Not Found"), s⟩
  | some route =>
    if r.method.toUpper != "POST" then return ⟨.because 405 (.str "Method Not Allowed"), s⟩
    else match r.body.settings route with
      | .error complaints => return ⟨.because 422 (.arr (complaints.map (·.describe))), s⟩
      | .ok settings => route.serve settings date s

end EntityAtlas.Service
