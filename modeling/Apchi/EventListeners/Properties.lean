import Apchi.Pipeline.Section

/-!
# Properties against a curated schema

A schema names the properties a plugin must be given and those it may be; a selector property decides
by its value what else is required.  Without a schema the properties pass through.
-/

namespace Apchi.EventListeners

open Lib Pipeline

/-- A selector property whose value decides what else is required. -/
structure Branch where
  selector : String
  values : List (String × List String) := []
  default : Option String := none
  allowed : List String := []

structure PropertySchema where
  required : List String := []
  optional : List String := []
  branches : List Branch := []
  openEnded : List String := []

/-! ### Plugins -/

/-- A character of a plugin's name, and one that a name starts with. -/
def isPluginStart (c : Char) : Bool := c.isLower

def isPluginChar (c : Char) : Bool := c.isLower || c.isDigit || c == '_' || c == '-'

/-- The name of a plugin, as a connector and the type of an event listener are named. -/
structure PluginName where
  text : String
  first : ∃ c ∈ text.toList.head?, isPluginStart c = true
  safe : ∀ c ∈ text.toList, isPluginChar c = true
  short : text.length ≤ 63

/-! ### Validation -/

/-- Names, each once and in order. -/
def sorted (names : List String) : List String := (Std.ExtTreeSet.ofList names).toList

/-- `known`. -/
def PropertySchema.known (schema : PropertySchema) : List String :=
  schema.required ++ schema.optional ++ schema.openEnded ++
    schema.branches.flatMap fun branch => branch.selector :: branch.values.flatMap Prod.snd

/-- `_required_for`: including what a selector property brings into play. -/
def requiredFor (schema : PropertySchema) (properties : Dict) : List String :=
  schema.required ++ schema.branches.flatMap fun branch =>
    match properties[branch.selector]? <|> branch.default with
    | none => []
    | some chosen => (branch.values.lookup chosen).getD []

/-- `_selector_problems`. -/
def selectorProblems (schema : PropertySchema) (properties : Dict) : List (String × String) :=
  schema.branches.filterMap fun branch =>
    match properties[branch.selector]? with
    | none => none
    | some value =>
        if branch.allowed.isEmpty || branch.allowed.contains value then none
        else some (branch.selector, "'" ++ value ++ "' is not a valid value; expected one of " ++
          ", ".intercalate (sorted branch.allowed))

/-- `validate`: the properties to store, or what is wrong with which.  `closest` is the name of those
known that a name was probably meant for. -/
def validate (closest : String → List String → Option String) (schema : Option PropertySchema)
    (properties : Dict) (subject kind : String) : Except (List (String × String)) Dict :=
  match schema with
  | none => .ok properties
  | some schema =>
      let unknown := (properties.keys.filter fun name => name ∉ schema.known).map fun name =>
        (name, "'" ++ name ++ "' is not a property of the '" ++ subject ++ "' " ++ kind ++
          match closest name schema.known with
          | some meant => "; did you mean '" ++ meant ++ "'?"
          | none => "")
      let missing := ((sorted (requiredFor schema properties)).filter (· ∉ properties)).map fun name =>
        (name, "'" ++ name ++ "' is required by the '" ++ subject ++ "' " ++ kind)
      match selectorProblems schema properties ++ unknown ++ missing with
      | [] => .ok properties
      | problems => .error problems

/-! ### The curated listeners -/

def HTTP : PropertySchema where
  required := ["http-event-listener.connect-ingest-uri"]
  optional := ["http-event-listener.log-created", "http-event-listener.log-completed",
    "http-event-listener.connect-http-headers", "http-event-listener.connect-retry-count",
    "http-event-listener.connect-retry-delay", "http-event-listener.connect-backoff-base",
    "http-event-listener.connect-max-delay"]
  branches := [{ selector := "http-event-listener.connect-http-method", allowed := ["POST", "PUT"] }]

def KAFKA : PropertySchema where
  required := ["kafka-event-listener.broker-endpoints", "kafka-event-listener.created-event.topic",
    "kafka-event-listener.completed-event.topic", "kafka-event-listener.client-id"]
  optional := ["kafka-event-listener.anonymization.enabled", "kafka-event-listener.max-request-size",
    "kafka-event-listener.batch-size", "kafka-event-listener.publish-created-event",
    "kafka-event-listener.publish-completed-event", "kafka-event-listener.excluded-fields",
    "kafka-event-listener.request-timeout",
    "kafka-event-listener.terminate-on-initialization-failure",
    "kafka-event-listener.env-var-prefix", "kafka-event-listener.config.resources"]

def CURATED_SCHEMAS : List (String × PropertySchema) := [("http", HTTP), ("kafka", KAFKA)]

/-- `validate_properties`. -/
def validateProperties (closest : String → List String → Option String) (listenerType : String)
    (properties : Dict) : Except (List (String × String)) Dict :=
  validate closest (CURATED_SCHEMAS.lookup listenerType) properties listenerType "event listener"

/-- Properties that are accepted are stored as they are given. -/
theorem validateProperties_eq_ok {closest : String → List String → Option String}
    {listenerType : String} {properties stored : Dict}
    (h : validateProperties closest listenerType properties = .ok stored) : stored = properties := by
  unfold validateProperties validate at h
  split at h
  · cases h
    rfl
  · dsimp only at h
    split at h
    · cases h
      rfl
    · cases h

end Apchi.EventListeners
