import Apchi.EventListeners.Properties
import Apchi.Lib.Codec

/-!
# The Event Listeners Section

Trino loads its event listeners once, when it starts, so a change is adopted only by a restart.  The
first listener of the Section is rendered to one file, which Apchi mounts, or which goes into a
directory the deployment mounts; with no listener there is no file.
-/

namespace Apchi.EventListeners

open Lib Pipeline

/-- The filename Trino expects, and where the file goes. -/
def FILE_KEY : String := "event-listener.properties"

def MOUNT_PATH : String := "/etc/trino/event-listener.properties"

def MOUNT_DIR : String := "/etc/trino/event-listener"

def PATH_IN_DIR : String := "/etc/trino/event-listener/event-listener.properties"

/-- `listener["type"]`. -/
def typeOf : Option Json → Except Error String
  | some (.str type) => .ok type
  | some _ => .error ⟨"TypeError", "type: expected a text"⟩
  | none => .error ⟨"KeyError", "'type'"⟩

/-- `render_properties`. -/
def renderProperties : Json → Except Error String
  | .obj fields => do
      let type ← typeOf (fields.lookup "type")
      let properties ← propertiesOf (fields.lookup "properties")
      return "\n".intercalate (("event-listener.name=" ++ type) ::
        properties.toList.map fun (key, value) => key ++ "=" ++ value) ++ "\n"
  | _ => .error ⟨"TypeError", "expected a mapping"⟩

/-- `render_secret`: the first listener's file, and nothing when there is none. -/
def renderSecret (listeners : Resources) : Except Error Dict :=
  match listeners.toList with
  | [] => .ok ∅
  | (_, listener) :: _ => do
      let content ← renderProperties listener
      return (∅ : Dict).insert FILE_KEY content

/-- Where Apchi writes the file, which depends on who mounts it. -/
def listenerPath (settings : Settings) : String :=
  if settings.eventListenerConfigFilesFromDeployment then PATH_IN_DIR else MOUNT_PATH

/-- `coordinator_files`: one file Apchi mounts, or one directory the Admin does. -/
def coordinatorFiles (settings : Settings) : List Delivery :=
  if settings.eventListenerConfigFilesFromDeployment then
    [.directory settings.eventListenerSecretName MOUNT_DIR]
  else
    [.file settings.eventListenerSecretName settings.eventListenerVolumeName MOUNT_PATH]

/-- `render_files`: no content is no file. -/
def renderFiles (desired : Resources) (settings : Settings) : Except Error Dict := do
  let files ← renderSecret desired
  match files[FILE_KEY]? with
  | none => return ∅
  | some content =>
      if content = "" then return ∅ else return (∅ : Dict).insert (listenerPath settings) content

/-- `plan`. -/
def plan (desired current : Resources) : SectionPlan where
  added := desired.keys.filter fun name => name ∉ current
  changed := desired.keys.filter fun name => name ∈ current ∧ desired[name]? ≠ current[name]?
  removed := current.keys.filter fun name => name ∉ desired

/-- The Event Listeners Section as the pipeline sees it: its file is all there is to it. -/
def eventListenersSection : Section :=
  .ofFiles .eventListeners true coordinatorFiles
    (fun desired settings _ => renderFiles desired settings) plan

/-! ### Staging -/

/-- A listener as it is stored; no reader of its properties looks at their order. -/
def storedListener (listenerType : String) (properties : Dict) : Json :=
  .obj [("type", .str listenerType),
    ("properties", .obj (properties.toList.map fun (key, value) => (key, .str value)))]

def MAX_LISTENERS : Nat := 1

/-- `_validated`. -/
def validated (closest : String → List String → Option String) (listenerType : String)
    (properties : Dict) : Except Refusal Dict :=
  match validateProperties closest listenerType properties with
  | .ok stored => .ok stored
  | .error problems => .error ⟨"UnprocessablePayload", "The properties are not valid for the '" ++
      listenerType ++ "' event listener.", problems⟩

/-- `create_event_listener`. -/
def createEventListener (closest : String → List String → Option String) (stored : Resources)
    (name listenerType : String) (properties : Dict) : Except Refusal Resources :=
  if name ∈ stored then
    .error ⟨"NameAlreadyTaken", "An Event Listener named '" ++ name ++ "' already exists.", []⟩
  else if MAX_LISTENERS ≤ stored.size then
    .error ⟨"TooManyEventListeners",
      "Only one Event Listener can be configured. Trino reads a single event listener file by " ++
      "default, and configuring more than one needs \x60event-listener.config-files\x60, which is " ++
      "Admin-owned Trino configuration Apchi does not write. Remove the existing Event Listener " ++
      "first.", []⟩
  else do
    let properties ← validated closest listenerType properties
    return stored.insert name (storedListener listenerType properties)

/-- `update_event_listener`: a field is omitted, or sent, and then perhaps as null. -/
def updateEventListener (closest : String → List String → Option String) (stored : Resources)
    (name : String) (listenerType : Option (Option String)) (properties : Option (Option Dict)) :
    Except Refusal Resources :=
  match stored[name]? with
  | none => .error ⟨"NotFound", "No Event Listener named '" ++ name ++
      "' in the Configuration Candidate.", []⟩
  | some (.obj current) =>
      match typeOf (current.lookup "type"), propertiesOf (current.lookup "properties") with
      | .ok currentType, .ok currentProperties =>
          match listenerType.getD (some currentType), properties.getD (some currentProperties) with
          | none, _ => .error ⟨"UnprocessablePayload",
              "An Event Listener cannot have its type removed. Send a type, or omit the field to " ++
              "keep the current one.", [("type", "cannot be cleared")]⟩
          | some _, none => .error ⟨"UnprocessablePayload",
              "An Event Listener cannot have its properties removed. Send the properties you " ++
              "want, or omit the field to keep the current ones.",
              [("properties", "cannot be cleared")]⟩
          | some listenerType, some properties => do
              let properties ← validated closest listenerType properties
              return stored.insert name (storedListener listenerType properties)
      | .error e, _ | _, .error e => .error ⟨e.kind, e.text, []⟩
  | some _ => .error ⟨"TypeError", "expected a mapping", []⟩

/-- `delete_event_listener`. -/
def deleteEventListener (stored : Resources) (name : String) : Except Refusal Resources :=
  if name ∈ stored then .ok (stored.erase name)
  else .error ⟨"NotFound", "No Event Listener named '" ++ name ++
    "' in the Configuration Candidate.", []⟩

/-- What any sequence of operations leads to. -/
inductive Staged (closest : String → List String → Option String) : Resources → Prop where
  | empty : Staged closest ∅
  | create {stored resources : Resources} {name listenerType : String} {properties : Dict}
      (h : Staged closest stored)
      (hcreate : createEventListener closest stored name listenerType properties = .ok resources) :
      Staged closest resources
  | update {stored resources : Resources} {name : String} {listenerType : Option (Option String)}
      {properties : Option (Option Dict)} (h : Staged closest stored)
      (hupdate : updateEventListener closest stored name listenerType properties = .ok resources) :
      Staged closest resources
  | delete {stored resources : Resources} {name : String} (h : Staged closest stored)
      (hdelete : deleteEventListener stored name = .ok resources) : Staged closest resources

/-! ### What is staged renders -/

/-- Under every name a listener is stored. -/
def Held (stored : Resources) : Prop :=
  ∀ (name : String) (value : Json), stored[name]? = some value →
    ∃ listenerType properties, value = storedListener listenerType properties

theorem Held.insert {stored : Resources} (h : Held stored) (name listenerType : String)
    (properties : Dict) : Held (stored.insert name (storedListener listenerType properties)) := by
  intro other value hvalue
  rw [Std.ExtTreeMap.getElem?_insert] at hvalue
  split at hvalue
  · cases hvalue
    exact ⟨listenerType, properties, rfl⟩
  · exact h other value hvalue

/-- What the operations lead to is held. -/
theorem Staged.held {closest : String → List String → Option String} {stored : Resources}
    (h : Staged closest stored) : Held stored := by
  induction h with
  | empty => intro name value hvalue; simp at hvalue
  | @create stored resources name listenerType properties _ hcreate ih =>
    unfold createEventListener at hcreate
    split at hcreate
    · cases hcreate
    · split at hcreate
      · cases hcreate
      · cases hvalid : validated closest listenerType properties with
        | error e =>
          rw [hvalid] at hcreate
          cases hcreate
        | ok kept =>
          rw [hvalid] at hcreate
          cases hcreate
          exact ih.insert _ _ _
  | @update stored resources name listenerType properties _ hupdate ih =>
    unfold updateEventListener at hupdate
    split at hupdate
    · cases hupdate
    · split at hupdate
      · split at hupdate
        · cases hupdate
        · cases hupdate
        · next newType newProperties _ _ =>
          cases hvalid : validated closest newType newProperties with
          | error e =>
            rw [hvalid] at hupdate
            cases hupdate
          | ok kept =>
            rw [hvalid] at hupdate
            cases hupdate
            exact ih.insert _ _ _
      · cases hupdate
      · cases hupdate
    · cases hupdate
  | @delete stored resources gone _ hdelete ih =>
    unfold deleteEventListener at hdelete
    split at hdelete
    · cases hdelete
      intro name value hvalue
      rw [Std.ExtTreeMap.getElem?_erase] at hvalue
      split at hvalue
      · cases hvalue
      · exact ih name value hvalue
    · cases hdelete

/-- Properties are read back as they were stored. -/
theorem propertiesOf_stored (properties : Dict) :
    propertiesOf (some (.obj (properties.toList.map fun (key, value) => (key, .str value)))) =
      .ok properties := by
  have hfields : ∀ fields : List (String × String),
      (fields.map fun (key, value) => (key, Json.str value)).mapM propertyOf = .ok fields := by
    intro fields
    induction fields with
    | nil => rfl
    | cons field rest ih =>
      rw [List.map_cons, List.mapM_cons, ih]
      rfl
  show ((properties.toList.map _).mapM propertyOf >>= _) = _
  rw [hfields]
  exact congrArg Except.ok (ofList_toList properties)

theorem renderProperties_stored (listenerType : String) (properties : Dict) :
    ∃ content, renderProperties (storedListener listenerType properties) = .ok content := by
  have hproperties := propertiesOf_stored properties
  unfold renderProperties storedListener
  have htype : typeOf (List.lookup "type" [("type", Json.str listenerType),
      ("properties", .obj (properties.toList.map fun (key, value) => (key, .str value)))]) =
      .ok listenerType := rfl
  have hlookup : List.lookup "properties" [("type", Json.str listenerType),
      ("properties", .obj (properties.toList.map fun (key, value) => (key, .str value)))] =
      some (.obj (properties.toList.map fun (key, value) => (key, .str value))) := rfl
  dsimp only
  rw [htype, hlookup, hproperties]
  exact ⟨_, rfl⟩

theorem Held.renderSecret {stored : Resources} (h : Held stored) :
    renderSecret stored = .ok ∅ ∨
      ∃ content, renderSecret stored = .ok ((∅ : Dict).insert FILE_KEY content) := by
  unfold EventListeners.renderSecret
  cases hlist : stored.toList with
  | nil => exact Or.inl rfl
  | cons entry rest =>
    obtain ⟨name, value⟩ := entry
    have hvalue : stored[name]? = some value :=
      Std.ExtTreeMap.mem_toList_iff_getElem?_eq_some.mp (hlist ▸ List.mem_cons_self)
    obtain ⟨listenerType, properties, rfl⟩ := h name value hvalue
    obtain ⟨content, hcontent⟩ := renderProperties_stored listenerType properties
    refine Or.inr ⟨content, ?_⟩
    dsimp only
    rw [hcontent]
    rfl

/-- What is held renders to no file, or to the one file where it goes. -/
theorem Held.renders {stored : Resources} (h : Held stored) (settings : Settings) :
    renderFiles stored settings = .ok ∅ ∨
      ∃ content, renderFiles stored settings =
        .ok ((∅ : Dict).insert (listenerPath settings) content) := by
  unfold renderFiles
  rcases h.renderSecret with hfiles | ⟨content, hfiles⟩
  · rw [hfiles]
    exact Or.inl rfl
  · have hfile : ((∅ : Dict).insert FILE_KEY content)[FILE_KEY]? = some content := by simp
    rw [hfiles]
    show (match ((∅ : Dict).insert FILE_KEY content)[FILE_KEY]? with
      | none => (.ok ∅ : Except Error Dict)
      | some content => _) = _ ∨ _
    rw [hfile]
    dsimp only
    by_cases hempty : content = ""
    · exact Or.inl (if_pos hempty)
    · exact Or.inr ⟨content, if_neg hempty⟩

/-- An empty plan is the same listeners. -/
theorem eq_of_plan_empty {desired current : Resources} (h : (plan desired current).empty) :
    desired = current := by
  simp only [plan, SectionPlan.empty, List.isEmpty_iff, Bool.and_eq_true, List.filter_eq_nil_iff,
    Std.ExtTreeMap.mem_keys, decide_eq_true_eq, not_not, ne_eq, not_and, Bool.not_false,
    and_true] at h
  obtain ⟨⟨hadded, hchanged⟩, hremoved⟩ := h
  refine Std.ExtTreeMap.ext_getElem? fun name => ?_
  by_cases hname : name ∈ desired
  · exact hchanged name hname (hadded name hname)
  · rw [Std.ExtTreeMap.getElem?_eq_none hname,
      Std.ExtTreeMap.getElem?_eq_none fun hcurrent => hname (hremoved name hcurrent)]

/-- With no listener there is no file, so the mount can be removed. -/
theorem renderFiles_empty (settings : Settings) : renderFiles ∅ settings = .ok ∅ := rfl

/-- A listener with nothing but its type. -/
def auditListener : Resources :=
  (∅ : Resources).insert "audit" (.obj [("type", .str "http")])

end Apchi.EventListeners
