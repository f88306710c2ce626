import Apchi.Pipeline.Section

/-!
# Rendering Catalogs to the durable form the Secret holds

A Catalog is stored as an Operator wrote it.  What Trino receives of it (`effective`) has the
certificate put into the properties, where the connector's way of naming one is known, and every
reference to a certificate replaced by the path its file will be at.  The statements and the Secret
are both made from that.
-/

namespace Apchi.Catalogs

open Lib Pipeline

/-! ### Client certificates -/

/-- Where the Admin mounts the client certificates. -/
def MOUNT_DIR : String := "/etc/trino/certs"

def certificatePath (name : String) : String := MOUNT_DIR ++ "/" ++ name ++ ".crt"

def keyPath (name : String) : String := MOUNT_DIR ++ "/" ++ name ++ ".key"

/-- A character of a certificate's name, and one that a name starts with. -/
def isNameStart (c : Char) : Bool := c.isAlphanum

def isNameChar (c : Char) : Bool := c.isAlphanum || c == '.' || c == '_' || c == '-'

/-- The path a reference expands to: `cert:` or `key:` and a name. -/
def referencePath (kind name : List Char) : Option String :=
  if !(name.head?.any isNameStart) then none
  else if kind = "cert".toList then some (certificatePath (String.ofList name))
  else if kind = "key".toList then some (keyPath (String.ofList name))
  else none

/-- `TOKEN` at the head of a text, after its `$\x7b`: the path it expands to and the text after it. -/
def token (text : List Char) : Option (String × List Char) :=
  let kind := text.takeWhile fun c => c ≠ ':'
  match text.drop kind.length with
  | ':' :: text =>
      let name := text.takeWhile isNameChar
      match text.drop name.length with
      | '}' :: text => (referencePath kind name).map fun path => (path, text)
      | _ => none
  | _ => none

/-- Every reference of a text replaced, from left to right. -/
def expandFrom : (fuel : Nat) → List Char → List Char
  | 0, text => text
  | _ + 1, [] => []
  | fuel + 1, '$' :: '{' :: text =>
      match token text with
      | some (path, text) => path.toList ++ expandFrom fuel text
      | none => '$' :: expandFrom fuel ('{' :: text)
  | fuel + 1, c :: text => c :: expandFrom fuel text

/-- One value with its references replaced. -/
def expandValue (value : String) : String :=
  String.ofList (expandFrom value.length value.toList)

/-- `expand`. -/
def expand (properties : Dict) : Dict := properties.map fun _ => expandValue

/-- `wire`: the certificate in the properties, the way this connector expects it. -/
def wire (connector : String) (properties : Dict) (certificate : String) : Except Error Dict :=
  if connector ≠ "postgresql" then
    .error ⟨"ValueError", s!"Apchi does not know how '{connector}' names a client certificate"⟩
  else
    match properties["connection-url"]? with
    | none => .error ⟨"KeyError", "'connection-url'"⟩
    | some url =>
        let joiner := if url.toList.contains '?' then "&" else "?"
        .ok (properties.insert "connection-url" (url ++ joiner ++ "sslcert=" ++
          certificatePath certificate ++ "&sslkey=" ++ keyPath certificate))

/-! ### Catalogs as they are stored -/

/-- A Catalog as it is stored. -/
structure Catalog where
  connector : String
  properties : Dict
  certificate : Option String
  deriving DecidableEq

/-- `stored.get("certificate")`, an empty one being none. -/
def certificateOf : Option Json → Except Error (Option String)
  | none | some .null => .ok none
  | some (.str name) => .ok (if name = "" then none else some name)
  | some _ => .error ⟨"TypeError", "certificate: expected a text"⟩

/-- A stored Catalog taken apart. -/
def Catalog.ofJson : Json → Except Error Catalog
  | .obj fields => do
      let connector ← match fields.lookup "connector" with
        | some (.str connector) => .ok connector
        | some _ => .error ⟨"TypeError", "connector: expected a text"⟩
        | none => .error ⟨"KeyError", "'connector'"⟩
      let properties ← propertiesOf (fields.lookup "properties")
      let certificate ← certificateOf (fields.lookup "certificate")
      return ⟨connector, properties, certificate⟩
  | _ => .error ⟨"TypeError", "expected a mapping"⟩

/-- `effective`: what Trino is to receive of a stored Catalog. -/
def effective (stored : Json) : Except Error LiveCatalog := do
  let catalog ← Catalog.ofJson stored
  let properties ← match catalog.certificate with
    | none => .ok catalog.properties
    | some certificate => wire catalog.connector catalog.properties certificate
  return ⟨catalog.connector, expand properties⟩

/-! ### The Secret -/

/-- The Secret key of a Catalog. -/
def keyOf (name : String) : String := name ++ ".properties"

/-- `render_properties`. -/
def renderProperties (catalog : LiveCatalog) : String :=
  "\n".intercalate (("connector.name=" ++ catalog.connector) ::
    catalog.properties.toList.map fun (key, value) => key ++ "=" ++ value) ++ "\n"

/-- One file of the Secret. -/
def renderFile : String × Json → Except Error (String × String)
  | (name, stored) => do
      let catalog ← effective stored
      return (keyOf name, renderProperties catalog)

/-- `render_secret`: one key for each Catalog, and no other. -/
def renderSecret (catalogs : Resources) : Except Error Dict := do
  let files ← catalogs.toList.mapM renderFile
  return Std.ExtTreeMap.ofList files

/-- What Trino is to receive of one of a Section's Catalogs. -/
def catalogOf (catalogs : Resources) (name : String) : Option LiveCatalog :=
  catalogs[name]?.bind fun stored => (effective stored).toOption

theorem keyOf_injective : Function.Injective keyOf := by
  intro name other h
  have h := congrArg String.toList h
  simp only [keyOf, String.toList_append] at h
  exact String.toList_inj.mp (List.append_cancel_right h)

theorem mem_of_catalogOf {catalogs : Resources} {name : String} {catalog : LiveCatalog}
    (h : catalogOf catalogs name = some catalog) : name ∈ catalogs := by
  obtain ⟨stored, hstored, -⟩ := Option.bind_eq_some_iff.mp h
  exact Std.ExtTreeMap.mem_iff_isSome_getElem?.mpr (by rw [hstored]; rfl)

/-- Each element of a list made into one, or the first exception. -/
theorem forall₂_of_mapM {ι κ : Type} {f : ι → Except Error κ} {xs : List ι} {ys : List κ}
    (h : xs.mapM f = .ok ys) : List.Forall₂ (fun x y => f x = .ok y) xs ys := by
  induction xs generalizing ys with
  | nil =>
    cases h
    exact .nil
  | cons x xs ih =>
    rw [List.mapM_cons] at h
    cases hx : f x with
    | error e =>
      rw [hx] at h
      cases h
    | ok y =>
      cases hxs : xs.mapM f with
      | error e =>
        rw [hx, hxs] at h
        cases h
      | ok rest =>
        rw [hx, hxs] at h
        cases h
        exact .cons hx (ih hxs)

section rendered

variable {catalogs : Resources} {copy : Dict}

/-- The files of the Secret, in the order of the Catalogs. -/
theorem renderSecret_files (h : renderSecret catalogs = .ok copy) :
    ∃ files, copy = Std.ExtTreeMap.ofList files ∧
      List.Forall₂ (fun entry file => renderFile entry = .ok file) catalogs.toList files := by
  unfold renderSecret at h
  cases hfiles : catalogs.toList.mapM renderFile with
  | error e =>
    rw [hfiles] at h
    cases h
  | ok files =>
    rw [hfiles] at h
    cases h
    exact ⟨files, rfl, forall₂_of_mapM hfiles⟩

theorem renderFile_ok {name : String} {stored : Json} {file : String × String}
    (h : renderFile (name, stored) = .ok file) :
    ∃ catalog, effective stored = .ok catalog ∧ file = (keyOf name, renderProperties catalog) := by
  unfold renderFile at h
  dsimp only at h
  cases hstored : effective stored with
  | error e =>
    rw [hstored] at h
    cases h
  | ok catalog =>
    rw [hstored] at h
    cases h
    exact ⟨catalog, rfl, rfl⟩

/-- The files are filed under the names of the Catalogs. -/
theorem keys_of_rendered {entries : List (String × Json)} {files : List (String × String)}
    (h : List.Forall₂ (fun entry file => renderFile entry = .ok file) entries files) :
    files.map Prod.fst = entries.map fun entry => keyOf entry.1 := by
  induction h with
  | nil => rfl
  | cons hfile _ ih =>
    obtain ⟨_, -, rfl⟩ := renderFile_ok hfile
    rw [List.map_cons, List.map_cons, ih]

theorem mem_of_rendered {entries : List (String × Json)} {files : List (String × String)}
    (h : List.Forall₂ (fun entry file => renderFile entry = .ok file) entries files)
    {name : String} {stored : Json} (hmem : (name, stored) ∈ entries) :
    ∃ catalog, effective stored = .ok catalog ∧ (keyOf name, renderProperties catalog) ∈ files := by
  induction h with
  | nil => cases hmem
  | cons hfile _ ih =>
    rcases List.mem_cons.mp hmem with rfl | hmem
    · obtain ⟨catalog, hcatalog, rfl⟩ := renderFile_ok hfile
      exact ⟨catalog, hcatalog, List.mem_cons_self⟩
    · obtain ⟨catalog, hcatalog, hfile⟩ := ih hmem
      exact ⟨catalog, hcatalog, List.mem_cons_of_mem _ hfile⟩

/-- Where the Secret could be rendered, every Catalog has its file in it. -/
theorem renderSecret_of_mem (h : renderSecret catalogs = .ok copy) {name : String}
    (hname : name ∈ catalogs) : ∃ catalog, catalogOf catalogs name = some catalog ∧
      copy[keyOf name]? = some (renderProperties catalog) := by
  obtain ⟨files, rfl, hfiles⟩ := renderSecret_files h
  obtain ⟨stored, hstored⟩ := Option.isSome_iff_exists.mp
    (Std.ExtTreeMap.mem_iff_isSome_getElem?.mp hname)
  obtain ⟨catalog, hcatalog, hfile⟩ :=
    mem_of_rendered hfiles (Std.ExtTreeMap.mem_toList_iff_getElem?_eq_some.mpr hstored)
  have hdistinct : files.Pairwise fun a b => ¬ compare a.1 b.1 = .eq := by
    refine List.pairwise_map.mp (?_ : (files.map Prod.fst).Pairwise fun a b => ¬ compare a b = .eq)
    rw [keys_of_rendered hfiles, List.pairwise_map]
    refine (Std.ExtTreeMap.distinct_keys_toList (t := catalogs)).imp fun hne heq => hne ?_
    rw [Std.LawfulEqCmp.compare_eq_iff_eq] at heq ⊢
    exact keyOf_injective heq
  refine ⟨catalog, ?_, Std.ExtTreeMap.getElem?_ofList_of_mem
    (Std.LawfulEqCmp.compare_eq_iff_eq.mpr rfl) hdistinct hfile⟩
  rw [catalogOf, hstored, Option.bind_some, hcatalog]
  rfl

/-- The Secret holds nothing but the files of its Catalogs. -/
theorem renderSecret_keys (h : renderSecret catalogs = .ok copy) {key : String}
    (hkey : key ∈ copy) : ∃ name ∈ catalogs, key = keyOf name := by
  obtain ⟨files, rfl, hfiles⟩ := renderSecret_files h
  have hmem := Std.ExtTreeMap.mem_ofList.mp hkey
  rw [keys_of_rendered hfiles, List.contains_iff_mem, List.mem_map] at hmem
  obtain ⟨entry, hentry, rfl⟩ := hmem
  refine ⟨entry.1, Std.ExtTreeMap.mem_iff_isSome_getElem?.mpr ?_, rfl⟩
  rw [Std.ExtTreeMap.mem_toList_iff_getElem?_eq_some.mp hentry]
  rfl

/-- The Secret's file of a Catalog. -/
theorem renderSecret_file (h : renderSecret catalogs = .ok copy) (name : String) :
    copy[keyOf name]? = (catalogOf catalogs name).map renderProperties := by
  by_cases hname : name ∈ catalogs
  · obtain ⟨catalog, hcatalog, hfile⟩ := renderSecret_of_mem h hname
    rw [hcatalog, hfile]
    rfl
  · have hnone : catalogOf catalogs name = none := by
      rw [catalogOf, Std.ExtTreeMap.getElem?_eq_none hname]
      rfl
    rw [hnone]
    refine Std.ExtTreeMap.getElem?_eq_none fun hkey => ?_
    obtain ⟨other, hother, heq⟩ := renderSecret_keys h hkey
    exact hname (keyOf_injective heq ▸ hother)

end rendered

end Apchi.Catalogs
