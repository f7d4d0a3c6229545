import EntityAtlas.Settings

/-!
# Requests

A request names a route and brings the options of a run as its body. All that is wrong with a body is told together, in
the order of the options.
-/

namespace EntityAtlas.Service

/-- What a request brings: nothing, a structured value, or a plain text. -/
inductive Body where
  | absent
  | structured (value : Json)
  | plain (text : String)
  deriving Repr

/-- The value of a body, if it has one. A plain text stands for itself; an empty one is nothing. -/
def Body.value? : Body → Option Json
  | .absent => none
  | .structured .null => none
  | .structured v => some v
  | .plain text => if text == "" then none else some (.str text)

structure Request where
  method : String
  path : String
  body : Body
  deriving Repr

/-- What can be asked for: the entities of a package, or a whole run. -/
inductive Route where
  | entities
  | generate
  deriving DecidableEq, Repr

namespace Route

/-- A path without its query and without the slashes around it. -/
def trimmed (path : String) : List Char :=
  let cs := (path.toList.takeWhile (· != '?')).dropWhile (· == '/')
  (cs.reverse.dropWhile (· == '/')).reverse

def ofPath? (path : String) : Option Route :=
  match String.ofList (trimmed path) with
  | "entities" => some .entities
  | "generate" => some .generate
  | _ => none

end Route

/-- What is wrong with a body. -/
inductive Complaint where
  | noBody
  | notAnObject (body : Json)
  | field (name : String) (fault : Settings.Fault) (input : Json)
  deriving Repr

namespace Complaint

/-- A complaint as a structured value. -/
def entry (type : String) (loc : List String) (message : String) (input : Json) : Json :=
  .obj [("type", .str type), ("loc", .texts loc), ("msg", .str message), ("input", input)]

def word : Settings.Fault → String
  | .required => "missing"
  | .notAPath => "path_type"
  | .notAText => "string_type"
  | .notALevel => "enum"

/-- The description of a complaint. A wrong level comes with the levels that there are. -/
def describe : Complaint → Json
  | .noBody => entry (word .required) ["body"] Settings.Fault.required.message .null
  | .notAnObject body =>
    entry "model_attributes_type" ["body"] "Input should be a valid dictionary or object to extract fields from" body
  | .field name .notALevel input =>
    .obj [("type", .str (word .notALevel)), ("loc", .texts ["body", name]),
      ("msg", .str Settings.Fault.notALevel.message), ("input", input),
      ("ctx", .obj [("expected", .str Java.Level.choices)])]
  | .field name f input => entry (word f) ["body", name] f.message input

end Complaint

/-- What is wrong with named values: a missing one is blamed on the whole body, others on themselves. -/
def complaints (fields : Settings.Options) (faults : Settings.Faults) : List Complaint :=
  faults.map fun (name, f) => .field name f ((fields.lookup name).getD (.obj fields))

/-- The settings that the fields of a body ask for. A request for entities alone needs no output directory and takes no
notice of the generator. -/
def readFields (route : Route) (fields : Settings.Options) : Except Settings.Faults Settings :=
  let isRun := route == .generate
  let base := fields.get "base_dir" none Settings.readText
  let package := fields.get "package_name" none Settings.readText
  let sources := fields.get "source_directory" (some Settings.standardSources) Settings.readText
  let level := fields.get "language_level" (some .standard) Settings.readLevel
  let output := if isRun then fields.get "output_directory" none Settings.readText else base
  let generator :=
    if isRun then fields.get "generator" (some Settings.standardGenerator) Settings.readText
    else .ok Settings.standardGenerator
  match base, package, sources, level, output, generator with
  | .ok b, .ok p, .ok s, .ok l, .ok o, .ok g =>
    .ok ⟨.ofString b, Package.normalize p, .ofString o, .ofString s, l, g⟩
  | _, _, _, _, _, _ =>
    .error (Settings.faultOf "base_dir" base ++ Settings.faultOf "package_name" package ++
      Settings.faultOf "source_directory" sources ++ Settings.faultOf "language_level" level ++
      (if isRun then Settings.faultOf "output_directory" output else []) ++ Settings.faultOf "generator" generator)

def Body.settings (body : Body) (route : Route) : Except (List Complaint) Settings :=
  match body.value? with
  | none => .error [.noBody]
  | some (.obj fields) => match readFields route fields with
    | .ok settings => .ok settings
    | .error faults => .error (complaints fields faults)
  | some value => .error [.notAnObject value]

end EntityAtlas.Service
