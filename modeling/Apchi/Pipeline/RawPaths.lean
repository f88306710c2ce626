import Apchi.Lib.PyText
import Apchi.Pipeline.Coordinator
import Apchi.Pipeline.Registry

/-!
# Which paths an Admin may write a raw file at

A path outside Trino's configuration directory, a path Apchi generates and a path the deployment
cannot mount a single file at are refused, and so is a file too many.  Paths are compared as they
are written, name by name.
-/

namespace Apchi.Pipeline

open Lib

/-- Where Trino reads its configuration. -/
def CONFIG_DIR : String := "/etc/trino"

/-- As many raw files as there may be. -/
def MAX_FILES : Nat := 25

/-- `normalised`: a path in the one form everything else compares against. -/
def normalised (path : String) : String := (PosixPath.ofString (PyText.stripped path)).toText

/-- `within_config_dir`. -/
def withinConfigDir (path : String) : Bool :=
  let candidate := PosixPath.ofString (normalised path)
  candidate.isAbsolute && candidate ≠ PosixPath.ofString CONFIG_DIR &&
    candidate.isRelativeTo (PosixPath.ofString CONFIG_DIR)

/-- The path is the file declared, or at or inside the directory declared. -/
def Delivery.owns (spec : Delivery) (path : PosixPath) : Bool :=
  match spec with
  | .file _ _ declared => path = PosixPath.ofString declared
  | .directory _ declared => path.isRelativeTo (PosixPath.ofString declared)

/-- What the owner of a path is called by: the volume of a file, the Secret of a directory. -/
def Delivery.label : Delivery → String
  | .file _ volume _ => volume
  | .directory secret _ => secret

/-- `_owner_of`: what Apchi already generates at this path, if anything. -/
def ownerOf (path : String) (settings : Settings) : Option String :=
  REGISTERED.findSome? fun sect =>
    ((sect.coordinatorFiles settings).find? fun spec => spec.owns (PosixPath.ofString path)).map
      fun spec => sect.text ++ " (" ++ spec.label ++ ")"

/-- Why a path cannot be used. -/
inductive PathRefusal where
  | outside (candidate : String)
  | generated (candidate owner : String)
  | tooMany (existing : Nat)
  | unmountable (mount : VolumeMount) (parent : String)
  deriving DecidableEq, Repr

namespace PathRefusal

/-- What is said to the Admin; `repr` is how a text is quoted. -/
def message (repr : String → String) : PathRefusal → String
  | outside candidate =>
      repr candidate ++ " is not under " ++ CONFIG_DIR ++ ". Raw files are an escape hatch for " ++
        "Trino's configuration, not a way to write elsewhere in the container."
  | generated candidate owner =>
      "Apchi generates " ++ repr candidate ++ " itself, for the " ++ owner ++
        " Section, so a raw file " ++
        "there would replace configuration an Operator owns rather than add to it. Set " ++
        "the properties you need in a file Apchi does not write, or change the Section " ++
        "that owns this one."
  | tooMany existing =>
      "There are already " ++ toString existing ++ " raw files, which is the limit. An escape " ++
        "hatch with more than that in it has stopped being an escape hatch; fold what you can " ++
        "into fewer files, or ask for the Section that should own this."
  | unmountable mount parent =>
      "This deployment mounts " ++ repr mount.name ++ " as a whole directory at " ++
        mount.mountPath ++ ", which covers " ++ parent ++ ". Apchi delivers a raw file by " ++
        "mounting that one file, and a single-file mount inside a directory " ++
        "volume has nothing to bind onto -- the container would fail to start " ++
        "with \"not a directory\". Set what you need through the deployment " ++
        "instead: on the official trino/trino chart that is " ++
        "\x60additionalConfigProperties\x60 for a property, or a \x60secretMounts\x60 entry " ++
        "for a whole directory. See docs/official-trino-chart.md. Raw files work " ++
        "on a deployment that mounts " ++ mount.mountPath ++ " file by file."

/-- The property the refusal is about, and what is wrong with it. -/
def details : PathRefusal → List (String × String)
  | outside _ => [("path", "must be under " ++ CONFIG_DIR)]
  | generated _ owner => [("path", "generated by Apchi, for " ++ owner)]
  | tooMany _ => [("path", "at the limit of " ++ toString MAX_FILES ++ " raw files")]
  | unmountable mount parent =>
      [("path", parent ++ " is covered by the " ++ mount.name ++ " directory mount")]

/-- Every refusal names the path. -/
theorem details_path (refusal : PathRefusal) : ∀ d ∈ refusal.details, d.1 = "path" := by
  cases refusal <;> simp [details]

end PathRefusal

/-- The whole-directory mounts of Secrets and ConfigMaps, container by container. -/
def directoryMounts (spec : Coordinator.PodSpec) : List VolumeMount :=
  (spec.containers.flatMap Container.volumeMounts).filter fun mount =>
    mount.subPath.getD "" = "" &&
      ((spec.volumeNamed mount.name).map Coordinator.Volume.readOnlyByNature).getD false

/-- `_refuse_if_unmountable`: a template Apchi cannot read refuses nothing. -/
def refuseIfUnmountable (path : String) (spec : Except Error Coordinator.PodSpec) :
    Except PathRefusal Unit :=
  match spec with
  | .error _ => .ok ()
  | .ok spec =>
      let parent := (PosixPath.ofString path).parent.toText
      match (directoryMounts spec).find? fun mount => Coordinator.covers mount.mountPath parent with
      | some mount => .error (.unmountable mount parent)
      | none => .ok ()

/-- The checks on the path alone. -/
def refusePath (candidate : String) (settings : Settings) : Except PathRefusal Unit :=
  if withinConfigDir candidate then
    match ownerOf candidate settings with
    | some owner => .error (.generated candidate owner)
    | none => .ok ()
  else .error (.outside candidate)

/-- `refuse_unusable`: the normalised path, or why it cannot be used. -/
def refuseUnusable (path : String) (spec : Except Error Coordinator.PodSpec) (settings : Settings)
    (existing : Nat) : Except PathRefusal String := do
  refusePath (normalised path) settings
  if existing ≥ MAX_FILES then .error (.tooMany existing)
  else
    refuseIfUnmountable (normalised path) spec
    return normalised path

/-! ### What the checks compare -/

theorem ofString_normalised (path : String) :
    PosixPath.ofString (normalised path) = PosixPath.ofString (PyText.stripped path) :=
  PosixPath.ofString_toText (PosixPath.wellFormed_ofString _)

/-- An absolute path's text loses the blanks after its last name when it is read again. -/
theorem ofString_stripped_toText {root last : String} {init : List String}
    (h : PosixPath.WellFormed ⟨root, init ++ [last]⟩) (hroot : root ≠ "") :
    PosixPath.ofString (PyText.stripped (PosixPath.toText ⟨root, init ++ [last]⟩)) =
      ⟨root, init ++ PosixPath.kept (PyText.rstrip last.toList)⟩ := by
  obtain ⟨text, htext, front, hfront, hinit⟩ := h.toText_concat hroot
  have hlast : '/' ∉ last.toList := (h.names last (by simp)).1
  have hstripped : '/' ∉ PyText.rstrip last.toList := fun hmem =>
    hlast ((List.rdropWhile_prefix PyText.isBlank _).subset hmem)
  have hread : PyText.stripped (PosixPath.toText ⟨root, init ++ [last]⟩) =
      .ofList (front ++ '/' :: PyText.rstrip last.toList) := by
    rw [PyText.stripped, htext, PyText.strip_cons (by decide), hfront,
      PyText.rstrip_of_not_blank _ _ (by decide)]
  have hpath := congrArg PosixPath.root (PosixPath.ofString_toText h)
  rw [← String.ofList_toList (s := PosixPath.toText _), htext, hfront,
    PosixPath.root_slash front hlast hstripped] at hpath
  have hnames := PosixPath.parts_slash front hstripped
  rw [hinit] at hnames
  rw [hread]
  exact congrArg₂ PosixPath.mk hpath hnames

/-- A last name of which nothing is left once its blanks are taken off. -/
def blankName (name : String) : Bool := (PosixPath.kept (PyText.rstrip name.toList)).isEmpty

/-- The file is below Trino's configuration directory. -/
def Below (file : PosixPath) : Prop :=
  ∃ name rest, file = ⟨"/", "etc" :: "trino" :: name :: rest⟩

/-- Which absolute paths are taken to be in the configuration directory. -/
theorem withinConfigDir_toText {path : PosixPath} (h : path.WellFormed) (hroot : path.root ≠ "") :
    withinConfigDir path.toText = true ↔
      Below path ∧ ∀ name, path = ⟨"/", ["etc", "trino", name]⟩ → blankName name = false := by
  obtain ⟨root, parts⟩ := path
  have hconfig : PosixPath.ofString CONFIG_DIR = ⟨"/", ["etc", "trino"]⟩ := by decide
  unfold withinConfigDir
  rw [ofString_normalised, hconfig]
  rcases List.eq_nil_or_concat' parts with rfl | ⟨init, last, rfl⟩
  · rcases h.root.resolve_left hroot with rfl | rfl <;> simp [Below] <;> decide
  · rw [ofString_stripped_toText h hroot]
    have hblank : blankName last = (PosixPath.kept (PyText.rstrip last.toList)).isEmpty := rfl
    have hshort : (PosixPath.kept (PyText.rstrip last.toList)).length ≤ 1 := by
      unfold PosixPath.kept
      split <;> simp
    generalize PosixPath.kept (PyText.rstrip last.toList) = left at hblank hshort ⊢
    clear h
    -- with at most two names before it, the last one decides; with more it does not matter
    rcases init with _ | ⟨a, _ | ⟨b, _ | ⟨c, rest⟩⟩⟩ <;>
      rcases left with _ | ⟨k, _ | ⟨k', ks⟩⟩ <;>
      simp_all [PosixPath.isAbsolute, PosixPath.isRelativeTo, Below, List.isPrefixOf] <;> grind

theorem ownerOf_eq_none {path : String} {settings : Settings} :
    ownerOf path settings = none ↔ ∀ sect ∈ REGISTERED, ∀ spec ∈ sect.coordinatorFiles settings,
      spec.owns (PosixPath.ofString path) = false := by
  simp [ownerOf, List.findSome?_eq_none_iff]

theorem refusePath_eq_ok {candidate : String} {settings : Settings} :
    refusePath candidate settings = .ok () ↔
      withinConfigDir candidate = true ∧ ownerOf candidate settings = none := by
  unfold refusePath
  cases withinConfigDir candidate <;> cases ownerOf candidate settings <;> simp

/-! ### The files strings denote -/

/-- The file a string denotes, `.` and `..` resolved as they are written. -/
def fileAt (given : String) : PosixPath := (PosixPath.ofString (PyText.stripped given)).resolved

/-- A file below the configuration directory that no registered Section has declared, nor the
directory it is in. -/
structure Unowned (settings : Settings) (file : PosixPath) : Prop where
  below : Below file
  undeclared : ∀ sect ∈ REGISTERED, ∀ spec ∈ sect.coordinatorFiles settings, spec.owns file = false

/-- A string is admitted as a path, whatever the pod template and however many files there are. -/
def Admits (settings : Settings) (given path : String) : Prop :=
  ∃ spec existing, refuseUnusable given spec settings existing = .ok path

/-- An admitted path is a file of the Admin's own, and has one spelling in both strings. -/
structure OneSpelling (settings : Settings) (given other : String) : Prop where
  unowned : ∀ path, Admits settings given path → Unowned settings (PosixPath.ofString path).resolved
  same : fileAt given = fileAt other → ∀ path path', Admits settings given path →
    Admits settings other path' → path = path'

/-- An absolute path in which nothing leads upwards. -/
structure Plain (given : String) : Prop where
  absolute : (PosixPath.ofString (PyText.stripped given)).root ≠ ""
  noDots : ".." ∉ (PosixPath.ofString (PyText.stripped given)).parts

/-- A file directly in the configuration directory whose name is blank: it has no plain spelling
that the checks admit. -/
structure Blank (given : String) : Prop where
  absolute : (PosixPath.ofString (PyText.stripped given)).root ≠ ""
  blank : ∃ name, fileAt given = ⟨"/", ["etc", "trino", name]⟩ ∧ blankName name = true

theorem refuseUnusable_eq_ok {settings : Settings} {given path : String}
    {spec : Except Error Coordinator.PodSpec} {existing : Nat}
    (h : refuseUnusable given spec settings existing = .ok path) :
    path = normalised given ∧ refusePath (normalised given) settings = .ok () ∧
      existing < MAX_FILES := by
  unfold refuseUnusable at h
  cases hpath : refusePath (normalised given) settings with
  | error refusal =>
    rw [hpath] at h
    cases h
  | ok u =>
    rw [hpath] at h
    change (if existing ≥ MAX_FILES then _ else _) = _ at h
    split at h
    · cases h
    · next hfew =>
      cases hmount : refuseIfUnmountable (normalised given) spec with
      | error refusal =>
        rw [hmount] at h
        cases h
      | ok u =>
        rw [hmount] at h
        exact ⟨(Except.ok.inj h).symm, rfl, Nat.lt_of_not_le hfew⟩

theorem admits_iff {settings : Settings} {given path : String} :
    Admits settings given path ↔
      path = normalised given ∧ refusePath (normalised given) settings = .ok () := by
  constructor
  · rintro ⟨spec, existing, h⟩
    exact (refuseUnusable_eq_ok h).imp_right And.left
  · rintro ⟨hpath, h⟩
    refine ⟨.error ⟨"ApiException", ""⟩, 0, ?_⟩
    simp only [refuseUnusable, h, hpath, refuseIfUnmountable, bind, Except.bind]
    rfl

/-! ### One file, one spelling -/

/-- A plain path is the file it denotes. -/
theorem Plain.fileAt_eq {given : String} (h : Plain given) :
    fileAt given = PosixPath.ofString (PyText.stripped given) :=
  PosixPath.resolved_of_not_mem h.noDots

theorem plain_root : Plain "/" where
  absolute := by decide
  noDots := by decide

/-- Every declared file and directory is directly in the configuration directory. -/
theorem declared_path {settings : Settings} {sect : SectionName} {spec : Delivery}
    (h : spec ∈ sect.coordinatorFiles settings) :
    ∃ name, PosixPath.ofString spec.path = ⟨"/", ["etc", "trino", name]⟩ ∧
      blankName name = false := by
  have hdeclared : ∀ name, PosixPath.ofString ("/etc/trino/" ++ name) =
      ⟨"/", ["etc", "trino", name]⟩ ∧ blankName name = false → spec.path = "/etc/trino/" ++ name →
      ∃ name, PosixPath.ofString spec.path = ⟨"/", ["etc", "trino", name]⟩ ∧
        blankName name = false := fun name hname hpath => ⟨name, by rw [hpath]; exact hname⟩
  cases sect with
  | catalogs => cases h
  | clientCertificates =>
    obtain rfl := List.mem_singleton.mp h
    exact hdeclared "certs" (by decide +kernel) rfl
  | certificateMapping =>
    obtain rfl := List.mem_singleton.mp h
    exact hdeclared "user-mapping" (by decide +kernel) rfl
  | permissions =>
    obtain rfl := List.mem_singleton.mp h
    exact hdeclared "access-control" (by decide +kernel) rfl
  | resourceGroups =>
    simp only [SectionName.coordinatorFiles, ResourceGroups.coordinatorFiles] at h
    split at h
    · obtain rfl := List.mem_singleton.mp h
      exact hdeclared "resource-groups" (by decide +kernel) rfl
    · rcases List.mem_cons.mp h with rfl | h
      · exact hdeclared "resource-groups.json" (by decide +kernel) rfl
      · obtain rfl := List.mem_singleton.mp h
        exact hdeclared "resource-groups.properties" (by decide +kernel) rfl
  | eventListeners =>
    simp only [SectionName.coordinatorFiles, EventListeners.coordinatorFiles] at h
    split at h
    · obtain rfl := List.mem_singleton.mp h
      exact hdeclared "event-listener" (by decide +kernel) rfl
    · obtain rfl := List.mem_singleton.mp h
      exact hdeclared "event-listener.properties" (by decide +kernel) rfl

/-- No Section declares a file with a blank name. -/
theorem unowned_of_blank (settings : Settings) {name : String} (h : blankName name = true) :
    Unowned settings ⟨"/", ["etc", "trino", name]⟩ where
  below := ⟨name, [], rfl⟩
  undeclared sect _ spec hspec := by
    obtain ⟨declared, hpath, hdeclared⟩ := declared_path hspec
    have hne : name ≠ declared := fun heq => by simp [heq, hdeclared] at h
    cases spec with
    | file secret volume path =>
      change PosixPath.ofString path = _ at hpath
      simp [Delivery.owns, hpath, hne]
    | directory secret path =>
      change PosixPath.ofString path = _ at hpath
      simp [Delivery.owns, hpath, PosixPath.isRelativeTo, List.isPrefixOf, hne.symm]

theorem unowned_of_plain {settings : Settings} {given : String}
    (hroot : (PosixPath.ofString (PyText.stripped given)).root ≠ "")
    (h : refusePath (normalised given) settings = .ok ()) :
    Unowned settings (PosixPath.ofString (PyText.stripped given)) := by
  obtain ⟨hwithin, howner⟩ := refusePath_eq_ok.mp h
  rw [ownerOf_eq_none, ofString_normalised] at howner
  exact ⟨((withinConfigDir_toText (PosixPath.wellFormed_ofString _) hroot).mp hwithin).1, howner⟩

/-- A file below the configuration directory has a plain spelling, and unless its name is blank the
checks admit it. -/
theorem exists_plain {settings : Settings} {file : PosixPath} (hfile : file.WellFormed)
    (hdots : ".." ∉ file.parts) (hunowned : Unowned settings file)
    (hblank : ∀ name, file = ⟨"/", ["etc", "trino", name]⟩ → blankName name = false) :
    ∃ other, Plain other ∧ fileAt other = file ∧
      refusePath (normalised other) settings = .ok () := by
  obtain ⟨name, rest, rfl⟩ := hunowned.below
  have hstripped : PyText.stripped (PosixPath.toText ⟨"/", "etc" :: "trino" :: name :: rest⟩ ++ "/") =
      PosixPath.toText ⟨"/", "etc" :: "trino" :: name :: rest⟩ ++ "/" :=
    PyText.stripped_of_ends '/' '/' ("/".intercalate ("etc" :: "trino" :: name :: rest)).toList
      (by simp [PosixPath.toText]) (by decide) (by decide)
  have hpath := PosixPath.ofString_toText_slash hfile
  rw [← hstripped] at hpath
  have hplain : Plain (PosixPath.toText ⟨"/", "etc" :: "trino" :: name :: rest⟩ ++ "/") :=
    ⟨by simp [hpath], by rwa [hpath]⟩
  have hfileAt := hplain.fileAt_eq
  rw [hpath] at hfileAt
  refine ⟨_, hplain, hfileAt, refusePath_eq_ok.mpr ⟨?_, ?_⟩⟩
  · rw [normalised, hpath]
    exact (withinConfigDir_toText hfile (by simp)).mpr ⟨hunowned.below, hblank⟩
  · rw [ownerOf_eq_none, ofString_normalised, hpath]
    exact hunowned.undeclared

end Apchi.Pipeline
