import Apchi.Catalogs.Certificates
import Apchi.Catalogs.Reading
import Apchi.Catalogs.Validation
import Apchi.EventListeners.Durable

/-!
# The durable copy of a Catalog

Trino is told of a Catalog by a statement, and finds it again in a file when its pod starts.  The file is
written without any escaping, so it says what the statement said only where no property has anything in
it that a reader of properties files would take apart.
-/

namespace Apchi.Catalogs

open Lib Pipeline EventListeners Properties

/-! ### What is expanded -/

/-- A name between texts that have nothing to be taken apart. -/
theorem kept_around {before after name : List Char} (hname : ∀ c ∈ name, isNameChar c = true)
    (hsafe : (before ++ after).all fun c =>
      !PyText.isBlank c && !PyText.isLineBreak c && c != '\\') :
    Kept (before ++ (name ++ after)) := by
  have hsafe : ∀ c ∈ before ++ after, PyText.isBlank c = false ∧ PyText.isLineBreak c = false ∧
      c ≠ '\\' := by
    intro c hc
    have := List.all_eq_true.mp hsafe c hc
    simpa [and_assoc] using this
  have hall : ∀ c ∈ before ++ (name ++ after), PyText.isBlank c = false ∧
      PyText.isLineBreak c = false ∧ c ≠ '\\' := by
    intro c hc
    simp only [List.mem_append] at hc hsafe
    rcases hc with hc | hc | hc
    · exact hsafe c (Or.inl hc)
    · have htidy : Tidy c := tidy_of_isTidy (hname c hc)
      exact ⟨htidy.blank, htidy.line, fun heq => htidy.other (heq ▸ List.mem_cons_self)⟩
    · exact hsafe c (Or.inr hc)
  exact kept_of_forall (fun c hc => (hall c hc).1) (fun c hc => (hall c hc).2.1)
    fun hmem => (hall _ hmem).2.2 rfl

/-- Both readers take a token as they take the path it stands for. -/
theorem alike_token {reference : Reference} (h : reference.Valid) :
    Alike reference.token reference.path.toList := by
  obtain ⟨half, name⟩ := reference
  have htoken : Kept (Reference.token ⟨half, name⟩) := by
    have hkept : Kept (('$' :: '{' :: (half.word ++ [':'])) ++ (name ++ ['}'])) :=
      kept_around h.safe (by cases half <;> decide)
    have heq : Reference.token ⟨half, name⟩ =
        ('$' :: '{' :: (half.word ++ [':'])) ++ (name ++ ['}']) := by
      simp [Reference.token]
    rw [heq]
    exact hkept
  have hpath : Kept (Reference.path ⟨half, name⟩).toList := by
    cases half with
    | cert =>
      have hkept : Kept ((MOUNT_DIR ++ "/").toList ++ (name ++ ".crt".toList)) :=
        kept_around h.safe (by decide)
      simpa [Reference.path, certificatePath, List.append_assoc] using hkept
    | key =>
      have hkept : Kept ((MOUNT_DIR ++ "/").toList ++ (name ++ ".key".toList)) :=
        kept_around h.safe (by decide)
      simpa [Reference.path, keyPath, List.append_assoc] using hkept
  refine htoken.alike hpath (List.cons_ne_nil _ _) ?_
  cases half <;> simp [Reference.path, certificatePath, keyPath, MOUNT_DIR]

/-- What is expanded begins and ends as what was written, and has the same to be taken apart. -/
theorem alike_expandValue (value : String) : Alike value.toList (expandValue value).toList := by
  rw [expandValue_eq, String.toList_ofList]
  induction value.toList using scan_induction with
  | nil => exact Alike.refl []
  | @token text rest reference hat ih =>
    obtain ⟨hvalid, rfl⟩ := referenceAt_eq_some.mp hat
    rw [pieces_token hat, List.flatMap_cons]
    exact (alike_token hvalid).append ih
  | @char c text hat ih =>
    rw [pieces_char hat, List.flatMap_cons, ← List.singleton_append]
    exact (Alike.refl [c]).append ih

theorem faithful_expand {name key value : String} :
    Faithful name key (expandValue value) ↔ Faithful name key value :=
  (alike_expandValue value).faithful_iff.symm

/-- Expanding makes no difference to whether the properties are faithful. -/
theorem faithful_expand_iff {name : String} (properties : Dict) :
    (∀ key value, (expand properties)[key]? = some value → Faithful name key value) ↔
      ∀ key value, properties[key]? = some value → Faithful name key value := by
  unfold expand
  simp only [Std.ExtTreeMap.getElem?_map, Option.map_eq_some_iff, forall_exists_index, and_imp]
  exact ⟨fun h key value hvalue => faithful_expand.mp (h key _ value hvalue rfl),
    fun h key _ value hvalue heq => heq ▸ faithful_expand.mpr (h key value hvalue)⟩

/-! ### The file of a Catalog -/

theorem connector_faithful (name : PluginName) :
    Written (chars (CONNECTOR, name.text)) ∧ JavaProperties.Plain (chars (CONNECTOR, name.text)) :=
  named_of_tidy (List.all_eq_true.mp (by decide)) name.tidy

/-- Both readers find in a file the Catalog that Trino was told of. -/
structure Recovers (path content : String) (catalog : LiveCatalog) : Prop where
  read : parseProperties path content = .ok (catalog.connector, catalog.properties, [])
  loads : JavaProperties.Loads content
    (((CONNECTOR, catalog.connector) :: catalog.properties.toList).map chars)

theorem parseProperties_fileOf (path : String) {content connector : String} {properties : Dict} :
    parseProperties path content = .ok (connector, properties, []) ↔
      read CONNECTOR content = .ok (connector, { named := some connector, properties }) := by
  unfold parseProperties
  cases hread : read CONNECTOR content with
  | error refusal => exact iff_of_false (by simp) (by simp)
  | ok result =>
    obtain ⟨named, given, found, comments⟩ := result
    obtain ⟨-, hnamed⟩ := read_eq_ok.mp hread
    obtain rfl : given = some named := hnamed
    simp only [Except.ok.injEq, Prod.mk.injEq, List.map_eq_nil_iff, Contents.mk.injEq]
    tauto

theorem recovers_iff {path connector : String} {properties : Dict} (name : PluginName)
    (hname : name.text = connector) :
    Recovers path (renderProperties ⟨connector, properties⟩) ⟨connector, properties⟩ ↔
      ∀ key value, properties[key]? = some value → Faithful CONNECTOR key value := by
  subst hname
  obtain ⟨hwritten, hplain⟩ := connector_faithful name
  rw [← agree_iff hwritten hplain, ← parseProperties_fileOf path]
  exact ⟨fun h => ⟨h.read, h.loads⟩, fun h => ⟨h.1, h.2⟩⟩

/-! ### The durable copy -/

theorem effective_stored {catalog : Catalog} {written : Dict} (hsound : catalog.Sound)
    (hwired : catalog.wired = .ok written) :
    effective catalog.stored = .ok ⟨catalog.connector, expand written⟩ := by
  unfold effective
  rw [ofJson_stored hsound.certificate]
  unfold Catalog.wired at hwired
  cases hcertificate : catalog.certificate with
  | none =>
    rw [hcertificate] at hwired
    cases hwired
    simp only [bind, Except.bind, hcertificate]
    rfl
  | some certificate =>
    rw [hcertificate] at hwired
    dsimp only at hwired
    simp only [bind, Except.bind, hcertificate, hwired]
    rfl

theorem Held.renders {stored : Resources} (h : Held stored) :
    ∃ copy, renderSecret stored = .ok copy := by
  have hfile : ∀ entry ∈ stored.toList, ∃ file, renderFile entry = .ok file := by
    rintro ⟨name, value⟩ hentry
    obtain ⟨catalog, hsound, rfl⟩ :=
      h name value (Std.ExtTreeMap.mem_toList_iff_getElem?_eq_some.mp hentry)
    obtain ⟨written, hwired⟩ := hsound.wired
    unfold renderFile
    dsimp only
    rw [effective_stored hsound hwired]
    exact ⟨_, rfl⟩
  obtain ⟨files, hfiles⟩ := mapM_ok_iff.mpr hfile
  unfold renderSecret
  rw [hfiles]
  exact ⟨_, rfl⟩

variable {closest : String → List String → Option String}
variable {queryKeys : String → Except Error (List String)} {catalogs : Resources}

/-- Whatever was staged, the durable copy of a Catalog says what the statement that creates it says,
to Apchi and to Java, exactly where every property is faithful as it was written. -/
theorem durable_copy_iff (h : Staged closest queryKeys catalogs) :
    ∃ copy, renderSecret catalogs = .ok copy ∧ ∀ name stored, catalogs[name]? = some stored →
      ∃ catalog written content, Catalog.ofJson stored = .ok catalog ∧
        catalog.wired = .ok written ∧
        effective stored = .ok ⟨catalog.connector, expand written⟩ ∧
        copy[keyOf name]? = some content ∧
        ∀ path, Recovers path content ⟨catalog.connector, expand written⟩ ↔
          ∀ key value, written[key]? = some value → Faithful CONNECTOR key value := by
  obtain ⟨copy, hcopy⟩ := h.held.renders
  refine ⟨copy, hcopy, fun name stored hstored => ?_⟩
  obtain ⟨catalog, hsound, rfl⟩ := h.held name stored hstored
  obtain ⟨written, hwired⟩ := hsound.wired
  have heffective := effective_stored hsound hwired
  have hfile := renderSecret_file hcopy name
  rw [catalogOf, hstored, Option.bind_some, heffective] at hfile
  refine ⟨catalog, written, _, ofJson_stored hsound.certificate, hwired, heffective, hfile,
    fun path => ?_⟩
  obtain ⟨connector, hconnector⟩ := hsound.connector
  rw [← faithful_expand_iff]
  exact recovers_iff connector hconnector

/-- A connector Apchi has no schema for. -/
def memoryConnector : PluginName :=
  ⟨"memory", ⟨'m', by decide, by decide⟩, List.all_eq_true.mp (by decide), by decide⟩

def memoryProperties : Dict := (∅ : Dict).insert "memory.max-data-per-node" "128MB"

def memoryWritten : Catalog := ⟨"memory", memoryProperties, none⟩

theorem staged_memory : Staged (fun _ _ => none) (fun _ => .ok [])
    ((∅ : Resources).insert "scratch" memoryWritten.stored) :=
  @Staged.create _ _ ∅ _ "scratch" memoryConnector memoryProperties none .empty
    ((if_neg (by simp)).trans rfl)

theorem durable_copy_of_memory : ∃ copy content,
    renderSecret ((∅ : Resources).insert "scratch" memoryWritten.stored) = .ok copy ∧
      copy[keyOf "scratch"]? = some content ∧
      Recovers "scratch.properties" content ⟨"memory", expand memoryProperties⟩ := by
  obtain ⟨copy, hcopy, hall⟩ := durable_copy_iff staged_memory
  obtain ⟨catalog, written, content, hcatalog, hwired, -, hfile, hiff⟩ :=
    hall "scratch" memoryWritten.stored Std.ExtTreeMap.getElem?_insert_self
  cases (ofJson_stored (by decide)).symm.trans hcatalog
  cases hwired
  refine ⟨copy, content, hcopy, hfile, (hiff _).mpr fun key value hvalue => ?_⟩
  rw [memoryWritten, memoryProperties, Std.ExtTreeMap.getElem?_insert] at hvalue
  split at hvalue
  · next heq =>
    cases hvalue
    cases Std.LawfulEqCmp.compare_eq_iff_eq.mp heq
    exact (faithful_tidy_iff (List.all_eq_true.mp (by decide)) (by decide)).mpr
      (kept_of_tidy (List.all_eq_true.mp (by decide)))
  · simp at hvalue

end Apchi.Catalogs
