import Apchi.Pipeline.AdminDocuments
import Apchi.Pipeline.Play
import Apchi.Pipeline.RawPaths

/-!
# The raw files an Admin document may hold

A raw file is written through the checks on its path.  Documents whose raw files obey those checks,
and are named so that Kubernetes takes the keys, can be delivered.
-/

namespace Apchi.Pipeline

open Lib Prog

/-! ### The Admin's edits -/

/-- `_leading_slash`. -/
def leadingSlash (path : String) : String :=
  match path.toList with
  | '/' :: _ => path
  | _ => "/" ++ path

/-- A refusal as the exception it is raised as. -/
def PathRefusal.asError (refusal : PathRefusal) : Error :=
  ⟨"UnprocessablePayload", refusal.message fun text => "'" ++ text ++ "'"⟩

/-- `PUT /admin/files/PATH`. -/
def writeRawFile (settings : Settings) (path content : String)
    (spec : Except Error Coordinator.PodSpec) (values : AdminValues) : Except Error AdminValues :=
  let existing := (values.rawFiles.keys.filter fun p => p ≠ leadingSlash path).length
  match refuseUnusable (leadingSlash path) spec settings existing with
  | .ok normalisedPath =>
      .ok { values with rawFiles := values.rawFiles.insert normalisedPath content }
  | .error refusal => .error refusal.asError

/-- `DELETE /admin/files/PATH`. -/
def deleteRawFile (path : String) (values : AdminValues) : Except Error AdminValues :=
  let wanted := normalised (leadingSlash path)
  if wanted ∈ values.rawFiles then
    .ok { values with rawFiles := values.rawFiles.erase wanted }
  else .error ⟨"NotFound", "No raw file at '" ++ wanted ++ "'."⟩

/-- The edits of single Admin values. -/
inductive AdminEdit where
  | writeRawFile (path content : String) (spec : Except Error Coordinator.PodSpec)
  | deleteRawFile (path : String)
  | setEnforcement (enforced : Bool)
  | setPreservedMappings (patterns : List CertificateMappingWrite)

/-- What an edit does to the values loaded; `validatePatterns` refuses what is no pattern. -/
def AdminEdit.change (settings : Settings)
    (validatePatterns : List CertificateMappingWrite → Except Error Unit) (edit : AdminEdit)
    (values : AdminValues) : Except Error AdminValues :=
  match edit with
  | writeRawFile path content spec => Pipeline.writeRawFile settings path content spec values
  | deleteRawFile path => Pipeline.deleteRawFile path values
  | setEnforcement enforced => .ok { values with enforcePermissions := enforced }
  | setPreservedMappings patterns => do
      validatePatterns patterns
      return { values with preservedCertificateMappings := patterns }

/-! ### The rules -/

/-- A character of a Secret's key, as Kubernetes takes it. -/
def isKeyChar (c : Char) : Bool := c.isAlphanum || c == '-' || c == '_' || c == '.'

/-- A Secret's key, as Kubernetes takes it. -/
def isSecretKey (key : String) : Bool := key ≠ "" && key.toList.all isKeyChar

/-- The last name of a path can stand in a Secret's key. -/
def keyName (path : String) : Bool := (PosixPath.ofString path).name.toList.all isKeyChar

/-- Raw files that obey the checks on their paths, and are named as keys can be. -/
structure RawFilesObey (settings : Settings) (files : Dict) : Prop where
  admitted : ∀ path ∈ files, refusePath path settings = .ok () ∧ normalised path = path
  few : files.size ≤ MAX_FILES
  named : ∀ path ∈ files, keyName path = true

/-- Raw files that obey the checks on their paths, and that the Secret holds one by one. -/
structure Deliverable (app : App) (files : Dict) : Prop where
  admitted : ∀ path ∈ files, refusePath path app.settings = .ok () ∧ normalised path = path
  few : files.size ≤ MAX_FILES
  apart : ∀ path ∈ files, ∀ other ∈ files, secretKey app path = secretKey app other → path = other
  entries : ∀ path content, files[path]? = some content →
    (rawContents app files)[secretKey app path]? = some content
  only : ∀ key ∈ rawContents app files, ∃ path ∈ files, key = secretKey app path
  keys : ∀ key ∈ rawContents app files, isSecretKey key = true

/-- What `hexdigest()[:12]` returns. -/
def HexDigest (digest : String → String) : Prop :=
  ∀ path, (digest path).toList.length = 12 ∧
    ∀ c ∈ (digest path).toList, c ∈ "0123456789abcdef".toList

/-- No two of these files have the same digest. -/
def NoCollision (digest : String → String) (files : Dict) : Prop :=
  ∀ path ∈ files, ∀ other ∈ files, digest path = digest other → path = other

theorem secretKey_injective {app : App} {path other : String} (hdigest : HexDigest app.digest)
    (h : secretKey app path = secretKey app other) : app.digest path = app.digest other := by
  have hchars := congrArg String.toList h
  simp only [secretKey, String.toList_append, List.append_assoc] at hchars
  exact String.toList_inj.mp (List.append_inj hchars
    ((hdigest path).1.trans (hdigest other).1.symm)).1

/-- The Secret holds nothing but the files' keys. -/
theorem mem_rawContents {app : App} {files : Dict} {key : String} (h : key ∈ rawContents app files) :
    ∃ path ∈ files, key = secretKey app path := by
  have hmem := Std.ExtTreeMap.mem_ofList.mp h
  rw [List.contains_iff_mem, List.map_map, List.mem_map] at hmem
  obtain ⟨entry, hentry, rfl⟩ := hmem
  refine ⟨entry.1, Std.ExtTreeMap.mem_iff_isSome_getElem?.mpr ?_, rfl⟩
  rw [Std.ExtTreeMap.mem_toList_iff_getElem?_eq_some.mp hentry]
  rfl

/-- Under keys of their own, the files are all there. -/
theorem rawContents_getElem? {app : App} {files : Dict}
    (hapart : ∀ path ∈ files, ∀ other ∈ files,
      secretKey app path = secretKey app other → path = other)
    {path content : String} (h : files[path]? = some content) :
    (rawContents app files)[secretKey app path]? = some content := by
  refine Std.ExtTreeMap.getElem?_ofList_of_mem (Std.LawfulEqCmp.compare_eq_iff_eq.mpr rfl)
    (List.pairwise_map.mpr ?_)
    (List.mem_map.mpr ⟨(path, content), Std.ExtTreeMap.mem_toList_iff_getElem?_eq_some.mpr h, rfl⟩)
  have hmem : ∀ entry ∈ files.toList, entry.1 ∈ files := fun entry hentry => by
    rw [Std.ExtTreeMap.mem_iff_isSome_getElem?,
      Std.ExtTreeMap.mem_toList_iff_getElem?_eq_some.mp hentry]
    rfl
  refine (Std.ExtTreeMap.distinct_keys_toList (t := files)).imp_of_mem fun ha hb hne heq => hne ?_
  rw [Std.LawfulEqCmp.compare_eq_iff_eq] at heq ⊢
  exact hapart _ (hmem _ ha) _ (hmem _ hb) heq

/-- A key is a digest and a name. -/
theorem isSecretKey_secretKey {app : App} {path : String} (hdigest : HexDigest app.digest)
    (hname : keyName path = true) : isSecretKey (secretKey app path) = true := by
  have hhex : ∀ c ∈ "0123456789abcdef".toList, isKeyChar c = true :=
    List.all_eq_true.mp (by decide)
  have hdigits : (app.digest path).toList.all isKeyChar = true :=
    List.all_eq_true.mpr fun c hc => hhex c ((hdigest path).2 c hc)
  have hne : secretKey app path ≠ "" := fun h => by
    have hlength := congrArg (fun text => text.toList.length) h
    simp [secretKey] at hlength
  simp only [isSecretKey, secretKey, String.toList_append, List.all_append, hdigits] at *
  simpa [hne] using ⟨by decide, by simpa [keyName] using hname⟩

theorem RawFilesObey.deliverable {app : App} {files : Dict} (hdigest : HexDigest app.digest)
    (hcollision : NoCollision app.digest files) (h : RawFilesObey app.settings files) :
    Deliverable app files := by
  have hapart : ∀ path ∈ files, ∀ other ∈ files,
      secretKey app path = secretKey app other → path = other := fun path hpath other hother heq =>
    hcollision path hpath other hother (secretKey_injective hdigest heq)
  refine ⟨h.admitted, h.few, hapart, fun path content => rawContents_getElem? hapart,
    fun key => mem_rawContents, fun key hkey => ?_⟩
  obtain ⟨path, hpath, rfl⟩ := mem_rawContents hkey
  exact isSecretKey_secretKey hdigest (h.named path hpath)

/-! ### What keeps the rules -/

theorem not_isBlank_of_isKeyChar {c : Char} (h : isKeyChar c = true) : PyText.isBlank c = false := by
  simp only [isKeyChar, Bool.or_eq_true, beq_iff_eq] at h
  rcases h with ((h | rfl) | rfl) | rfl
  · delta Char.isAlphanum Char.isAlpha Char.isUpper Char.isLower Char.isDigit at h
    simp only [Bool.or_eq_true, Bool.and_eq_true, decide_eq_true_eq, UInt32.le_iff_toNat_le] at h
    simp only [PyText.isBlank, Char.toNat, Bool.or_eq_false_iff, Bool.and_eq_false_iff,
      decide_eq_false_iff_not, beq_eq_false_iff_ne]
    simp at h ⊢
    omega
  all_goals decide

theorem leadingSlash_absolute (path : String) :
    (PosixPath.ofString (PyText.stripped (leadingSlash path))).root ≠ "" := by
  obtain ⟨text, htext⟩ : ∃ text, (leadingSlash path).toList = '/' :: text := by
    unfold leadingSlash
    split
    · exact ⟨_, by assumption⟩
    · exact ⟨path.toList, by simp⟩
  have hstripped : PyText.stripped (leadingSlash path) = .ofList ('/' :: PyText.rstrip text) := by
    rw [PyText.stripped, htext, PyText.strip_cons (by decide)]
    exact congrArg String.ofList (PyText.rstrip_of_not_blank [] text (by decide))
  rw [hstripped]
  simpa [PosixPath.ofString] using PosixPath.rootOf_slash _

/-- A path under the root whose last name can be a key is left as it is. -/
theorem ofString_stripped_of_keyName {path : PosixPath} (h : path.WellFormed)
    (hroot : path.root ≠ "") (hparts : path.parts ≠ [])
    (hname : path.name.toList.all isKeyChar = true) :
    PosixPath.ofString (PyText.stripped path.toText) = path := by
  obtain ⟨root, parts⟩ := path
  obtain ⟨init, last, rfl⟩ := (List.eq_nil_or_concat' parts).resolve_left hparts
  have hlast : last.toList.all isKeyChar = true := by simpa [PosixPath.name] using hname
  have hkept : PosixPath.kept (PyText.rstrip last.toList) = [last] := by
    obtain ⟨-, hempty, hdot⟩ := h.names last (by simp)
    have hself : PyText.rstrip last.toList = last.toList :=
      List.rdropWhile_eq_self_iff.mpr fun hne => by
        simp [not_isBlank_of_isKeyChar (List.all_eq_true.mp hlast _ (List.getLast_mem hne))]
    rw [hself, PosixPath.kept, if_neg, String.ofList_toList]
    rintro (heq | heq)
    · exact hempty (String.toList_eq_nil_iff.mp heq)
    · exact hdot (String.toList_inj.mp heq)
  rw [ofString_stripped_toText h hroot, hkept]

/-- A path that is admitted, with a name that can be a key, is in normal form. -/
theorem normalised_normalised {settings : Settings} {path : String}
    (habsolute : (PosixPath.ofString (PyText.stripped path)).root ≠ "")
    (hadmitted : refusePath (normalised path) settings = .ok ())
    (hname : keyName (normalised path) = true) : normalised (normalised path) = normalised path := by
  have hwell := PosixPath.wellFormed_ofString (PyText.stripped path)
  obtain ⟨name, rest, hbelow⟩ :=
    ((withinConfigDir_toText hwell habsolute).mp (refusePath_eq_ok.mp hadmitted).1).1
  rw [keyName, ofString_normalised] at hname
  have hsame := ofString_stripped_of_keyName hwell habsolute (by simp [hbelow]) hname
  exact congrArg PosixPath.toText hsame

/-- What a write that is not refused does. -/
theorem writeRawFile_eq_ok {settings : Settings} {path content : String}
    {spec : Except Error Coordinator.PodSpec} {values changed : AdminValues}
    (h : writeRawFile settings path content spec values = .ok changed) :
    refusePath (normalised (leadingSlash path)) settings = .ok () ∧
      (values.rawFiles.keys.filter fun p => p ≠ leadingSlash path).length < MAX_FILES ∧
      changed.rawFiles = values.rawFiles.insert (normalised (leadingSlash path)) content := by
  unfold writeRawFile at h
  dsimp only at h
  generalize hstored : refuseUnusable (leadingSlash path) spec settings
    (values.rawFiles.keys.filter fun p => p ≠ leadingSlash path).length = result at h
  cases result with
  | error refusal => cases h
  | ok stored =>
    obtain ⟨hpath, hadmitted, hfew⟩ := refuseUnusable_eq_ok hstored
    rw [← Except.ok.inj h, hpath]
    exact ⟨hadmitted, hfew, rfl⟩

/-- A file written through the checks leaves the rules obeyed. -/
theorem RawFilesObey.write {settings : Settings} {path content : String}
    {spec : Except Error Coordinator.PodSpec} {values changed : AdminValues}
    (h : RawFilesObey settings values.rawFiles)
    (hnamed : refusePath (normalised (leadingSlash path)) settings = .ok () →
      keyName (normalised (leadingSlash path)) = true)
    (hwrite : writeRawFile settings path content spec values = .ok changed) :
    RawFilesObey settings changed.rawFiles := by
  obtain ⟨hadmitted, hfew, hfiles⟩ := writeRawFile_eq_ok hwrite
  have hnormal := normalised_normalised (leadingSlash_absolute path) hadmitted (hnamed hadmitted)
  rw [hfiles]
  refine ⟨fun p hp => ?_, ?_, fun p hp => ?_⟩
  · rcases Std.ExtTreeMap.mem_insert.mp hp with heq | hp
    · rw [← Std.LawfulEqCmp.compare_eq_iff_eq.mp heq]
      exact ⟨hadmitted, hnormal⟩
    · exact h.admitted p hp
  · rw [Std.ExtTreeMap.size_insert]
    split
    · exact h.few
    · next hnew =>
      -- A path that is among the files is in normal form, so it would not be new.
      have habsent : leadingSlash path ∉ values.rawFiles := fun hmem => by
        rw [(h.admitted _ hmem).2] at hnew
        exact hnew hmem
      have hall : (values.rawFiles.keys.filter fun p => p ≠ leadingSlash path) =
          values.rawFiles.keys := List.filter_eq_self.mpr fun p hp => by
        have hne : p ≠ leadingSlash path := fun heq =>
          habsent (heq ▸ Std.ExtTreeMap.mem_keys.mp hp)
        simpa using hne
      rw [hall, Std.ExtTreeMap.length_keys] at hfew
      exact hfew
  · rcases Std.ExtTreeMap.mem_insert.mp hp with heq | hp
    · rw [← Std.LawfulEqCmp.compare_eq_iff_eq.mp heq]
      exact hnamed hadmitted
    · exact h.named p hp

/-- So does removing one. -/
theorem RawFilesObey.delete {settings : Settings} {path : String} {values changed : AdminValues}
    (h : RawFilesObey settings values.rawFiles) (hdelete : deleteRawFile path values = .ok changed) :
    RawFilesObey settings changed.rawFiles := by
  unfold deleteRawFile at hdelete
  generalize normalised (leadingSlash path) = wanted at hdelete
  by_cases hmem : wanted ∈ values.rawFiles
  · obtain rfl : _ = changed := by simpa [hmem] using hdelete
    have hkept : ∀ p ∈ values.rawFiles.erase wanted, p ∈ values.rawFiles :=
      fun p hp => (Std.ExtTreeMap.mem_erase.mp hp).2
    refine ⟨fun p hp => h.admitted p (hkept p hp), ?_, fun p hp => h.named p (hkept p hp)⟩
    exact le_trans Std.ExtTreeMap.size_erase_le h.few
  · simp [hmem] at hdelete

/-- No rule is broken where there are no files. -/
theorem rawFilesObey_empty (settings : Settings) : RawFilesObey settings ∅ where
  admitted _ hp := absurd hp (by simp)
  few := by simp
  named _ hp := absurd hp (by simp)

/-- A raw file is written only under a name that can be a key. -/
def AdminEdit.wellNamed (settings : Settings) : AdminEdit → Prop
  | writeRawFile path _ _ => refusePath (normalised (leadingSlash path)) settings = .ok () →
      keyName (normalised (leadingSlash path)) = true
  | _ => True

theorem RawFilesObey.edit {settings : Settings} {edit : AdminEdit}
    {validatePatterns : List CertificateMappingWrite → Except Error Unit}
    {values changed : AdminValues} (h : RawFilesObey settings values.rawFiles)
    (hnamed : edit.wellNamed settings)
    (hchange : edit.change settings validatePatterns values = .ok changed) :
    RawFilesObey settings changed.rawFiles := by
  cases edit with
  | writeRawFile path content spec =>
    simp only [AdminEdit.change] at hchange
    exact h.write hnamed hchange
  | deleteRawFile path =>
    simp only [AdminEdit.change] at hchange
    exact h.delete hchange
  | setEnforcement enforced =>
    obtain rfl := Except.ok.inj hchange
    exact h
  | setPreservedMappings patterns =>
    simp only [AdminEdit.change] at hchange
    cases hvalid : validatePatterns patterns with
    | error e =>
      rw [hvalid] at hchange
      cases hchange
    | ok u =>
      rw [hvalid] at hchange
      obtain rfl := Except.ok.inj hchange
      exact h

/-! ### Requests -/

/-- The requests the API serves: the Admin values are edited one by one. -/
def Request.served (settings : Settings)
    (validatePatterns : List CertificateMappingWrite → Except Error Unit) : Request → Prop
  | .editAdmin _ change => ∃ edit : AdminEdit, change = edit.change settings validatePatterns
  | _ => True

/-- A raw file is written only under a name that can be a key, and imported only with others that
obey the rules. -/
def Request.obeys (settings : Settings)
    (validatePatterns : List CertificateMappingWrite → Except Error Unit) : Request → Prop
  | .editAdmin _ change => ∃ edit : AdminEdit, change = edit.change settings validatePatterns ∧
      edit.wellNamed settings
  | .importConfiguration _ _ admin => RawFilesObey settings admin.rawFiles
  | _ => True

/-- The condition on a step: what arrives. -/
def Event.arriving (P : Request → Prop) : Event → Prop
  | .arrive request => P request
  | _ => True

theorem Request.obeys.keeps {settings : Settings}
    {validatePatterns : List CertificateMappingWrite → Except Error Unit} {request : Request}
    (h : request.obeys settings validatePatterns) :
    request.keeps fun values => RawFilesObey settings values.rawFiles := by
  cases request with
  | editAdmin actor change =>
    obtain ⟨edit, rfl, hnamed⟩ := h
    exact fun values changed hvalues hchange => hvalues.edit hnamed hchange
  | importConfiguration actor sections admin => exact h
  | _ => trivial

/-- Wherever requests lead that obey the rules, each Admin document obeys them and can be
delivered. -/
theorem admin_documents_deliverable {app : App} {outside : Outside}
    {validatePatterns : List CertificateMappingWrite → Except Error Unit} {world : World}
    {s : Service} (hdigest : HexDigest app.digest) (hadmin : world.admin = none)
    (hprevious : world.adminPrevious = none)
    (hdiscovery : ∀ stored ∈ world.discovery, stored.adminValues.rawFiles = ∅)
    (hrun : Run (Step app outside)
      (fun _ e _ => e.arriving fun request => request.obeys app.settings validatePatterns)
      (Service.boot app world) s) :
    ∀ values, s.world.admin = some values ∨ s.world.adminPrevious = some values →
      NoCollision app.digest values.rawFiles → Deliverable app values.rawFiles := by
  have hobey := documented_of_run (I := fun values => RawFilesObey app.settings values.rawFiles)
    (rawFilesObey_empty _)
    ⟨by simp [hadmin], by simp [hprevious], fun stored hstored =>
      hdiscovery stored hstored ▸ rawFilesObey_empty _⟩
    (hrun.mono fun _ e _ harriving => by
      cases e with
      | arrive request => exact harriving.keeps
      | _ => trivial)
  rintro values (hvalues | hvalues) hcollision
  · exact (hobey.world.admin values hvalues).deliverable hdigest hcollision
  · exact (hobey.world.previous values hvalues).deliverable hdigest hcollision

theorem hexDigest_smallApp : HexDigest smallApp.digest := by
  intro path
  have hdigits : "80f7fecfef81".toList.length = 12 ∧
    ∀ c ∈ "80f7fecfef81".toList, c ∈ "0123456789abcdef".toList :=
    ⟨by decide, fun c hc => List.contains_iff_mem.mp
      (List.all_eq_true.mp (by decide : "80f7fecfef81".toList.all "0123456789abcdef".toList.contains) c hc)⟩
  exact hdigits

/-- A raw file is written, and its document can be delivered. -/
theorem written_document_deliverable : ∃ s : Service, ∃ values, s.world.admin = some values ∧
    values.rawFiles.toList = [("/etc/trino/node.properties", "node.environment=test")] ∧
    Deliverable smallApp values.rawFiles := by
  let edit : AdminEdit :=
    .writeRawFile "/etc/trino/node.properties" "node.environment=test" (.error unreachable)
  obtain ⟨s, hrun, hplayed⟩ := plays_arrive smallApp quietOutside
    (fun e => e.arriving fun request => request.obeys smallApp.settings fun _ => .ok ())
    (fun e he => by
      cases e with
      | arrive request => exact absurd rfl (he request)
      | _ => trivial)
    (servingOne (.editAdmin "eve" (edit.change smallApp.settings fun _ => .ok ())) ++
      List.replicate 3 (.task 0))
    (Service.boot smallApp freshWorld)
    (fun request hrequest => by
      obtain rfl : request = .editAdmin "eve" (edit.change smallApp.settings fun _ => .ok ()) := by
        simpa [servingOne] using hrequest
      exact ⟨edit, rfl, fun _ => by decide +kernel⟩)
    (fun s => s.world.admin.any fun values =>
      values.rawFiles.toList == [("/etc/trino/node.properties", "node.environment=test")])
    (by decide +kernel)
  obtain ⟨values, hvalues, hfiles⟩ := (Option.any_eq_true ..).mp hplayed
  have hone : values.rawFiles.toList = [("/etc/trino/node.properties", "node.environment=test")] :=
    by simpa using hfiles
  refine ⟨s, values, hvalues, hone, admin_documents_deliverable hexDigest_smallApp rfl rfl
    (by simp [freshWorld]) hrun values (Or.inl hvalues) fun path hpath other hother _ => ?_⟩
  have hmem : ∀ p ∈ values.rawFiles, p = "/etc/trino/node.properties" := fun p hp => by
    simpa [← Std.ExtTreeMap.map_fst_toList_eq_keys, hone] using Std.ExtTreeMap.mem_keys.mpr hp
  rw [hmem path hpath, hmem other hother]

/-- An import replaces the raw files by whatever it brings, Apchi's own rules among them. -/
theorem not_admin_documents_deliverable :
    ¬ ∀ (app : App) (outside : Outside)
      (validatePatterns : List CertificateMappingWrite → Except Error Unit) (world : World)
      (s : Service), HexDigest app.digest → world.admin = none → world.adminPrevious = none →
      (∀ stored ∈ world.discovery, stored.adminValues.rawFiles = ∅) →
      Run (Step app outside)
        (fun _ e _ => e.arriving fun request => request.served app.settings validatePatterns)
        (Service.boot app world) s →
      ∀ values, s.world.admin = some values ∨ s.world.adminPrevious = some values →
        NoCollision app.digest values.rawFiles → Deliverable app values.rawFiles := by
  intro h
  let admin : AdminValues := { rawFiles := (∅ : Dict).insert Permissions.MOUNT_PATH "\x7b\x7d" }
  obtain ⟨s, hrun, hplayed⟩ := plays_arrive smallApp quietOutside
    (fun e => e.arriving fun request => request.served smallApp.settings fun _ => .ok ())
    (fun e he => by
      cases e with
      | arrive request => exact absurd rfl (he request)
      | _ => trivial)
    (servingOne (.importConfiguration "eve" (fun _ => ∅) admin) ++ List.replicate 5 (.task 0))
    (Service.boot smallApp freshWorld)
    (fun request hrequest => by
      obtain rfl : request = .importConfiguration "eve" (fun _ => ∅) admin := by
        simpa [servingOne] using hrequest
      trivial)
    (fun s => s.world.admin.any fun values => values.rawFiles.keys == [Permissions.MOUNT_PATH])
    (by decide +kernel)
  obtain ⟨values, hvalues, hfiles⟩ := (Option.any_eq_true ..).mp hplayed
  have hone : values.rawFiles.keys = [Permissions.MOUNT_PATH] := by simpa using hfiles
  have hmem : ∀ p ∈ values.rawFiles, p = Permissions.MOUNT_PATH := fun p hp => by
    simpa [hone] using Std.ExtTreeMap.mem_keys.mpr hp
  have hdeliverable := h smallApp quietOutside (fun _ => .ok ()) freshWorld s hexDigest_smallApp
    rfl rfl (by simp [freshWorld]) hrun values (Or.inl hvalues) fun path hpath other hother _ => by
      rw [hmem path hpath, hmem other hother]
  have hrefused := (hdeliverable.admitted Permissions.MOUNT_PATH
    (Std.ExtTreeMap.mem_keys.mp (by simp [hone]))).1
  exact absurd hrefused (by decide +kernel)

end Apchi.Pipeline
