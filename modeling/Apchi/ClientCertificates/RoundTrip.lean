import Apchi.ClientCertificates.Reading

/-!
# Every file of the directory is accounted for

A path says which certificate a file belongs to and which half of it the file is, so the files of a
directory fall apart by their names: what is read of a name are the contents at its two paths.  A name
with both halves is a certificate, and whatever else is there is reported once, by its path.
-/

namespace Apchi.ClientCertificates

open Lib Pipeline

/-! ### Paths -/

/-- Where a half of a certificate is. -/
def PairHalf.path : PairHalf → String → String
  | .certificate => certificatePath
  | .privateKey => keyPath

/-- How the file of a half ends. -/
def PairHalf.suffix : PairHalf → String
  | .certificate => CERTIFICATE_SUFFIX
  | .privateKey => KEY_SUFFIX

theorem toList_path (half : PairHalf) (name : String) : (half.path name).toList =
    (MOUNT_DIR ++ "/").toList ++ (name.toList ++ half.suffix.toList) := by
  cases half <;>
    simp only [PairHalf.path, PairHalf.suffix, certificatePath, keyPath, String.toList_append,
      List.append_assoc]

theorem dropLast_append (text : List Char) (suffix : String) :
    dropLast (text ++ suffix.toList) suffix = .ofList text := by
  unfold dropLast List.rdrop
  rw [List.length_append, String.length_toList, Nat.add_sub_cancel, List.take_left']
  rfl

/-- No key is taken for a certificate. -/
theorem not_certificate (text : List Char) :
    CERTIFICATE_SUFFIX.toList.isSuffixOf (text ++ KEY_SUFFIX.toList) = false := by
  rw [Bool.eq_false_iff, ne_eq, List.isSuffixOf_iff_suffix]
  rintro ⟨start, h⟩
  have hlast := congrArg List.getLast? h
  rw [List.getLast?_append_of_ne_nil _ (by decide), List.getLast?_append_of_ne_nil _ (by decide)]
    at hlast
  exact absurd hlast (by decide)

theorem nameOf_path (half : PairHalf) (name : String) :
    nameOf (half.path name) = some (name, half) := by
  have hprefix : (MOUNT_DIR ++ "/").toList.isPrefixOf (half.path name).toList = true := by
    rw [toList_path, List.isPrefixOf_iff_prefix]
    exact List.prefix_append _ _
  have hsuffix : half.suffix.toList.isSuffixOf (name.toList ++ half.suffix.toList) = true := by
    rw [List.isSuffixOf_iff_suffix]
    exact List.suffix_append _ _
  have hname : dropLast (name.toList ++ half.suffix.toList) half.suffix = name := by
    rw [dropLast_append, String.ofList_toList]
  unfold nameOf
  dsimp only
  rw [if_pos hprefix, toList_path, List.drop_left]
  cases half with
  | certificate => exact (if_pos hsuffix).trans (congrArg (fun text => some (text, _)) hname)
  | privateKey =>
    have hother := not_certificate name.toList
    refine (if_neg (by rw [Bool.not_eq_true]; exact hother)).trans ?_
    exact (if_pos hsuffix).trans (congrArg (fun text => some (text, _)) hname)

theorem path_of_nameOf {path name : String} {half : PairHalf}
    (h : nameOf path = some (name, half)) : path = half.path name := by
  have hends : ∀ (filename : List Char) (half : PairHalf),
      half.suffix.toList.isSuffixOf filename = true →
        filename = (dropLast filename half.suffix).toList ++ half.suffix.toList := by
    intro filename half hsuffix
    obtain ⟨start, rfl⟩ := List.isSuffixOf_iff_suffix.mp hsuffix
    rw [dropLast_append, String.toList_ofList]
  unfold nameOf at h
  dsimp only at h
  split at h
  · next hprefix =>
    obtain ⟨filename, hfilename⟩ := List.isPrefixOf_iff_prefix.mp hprefix
    rw [← hfilename, List.drop_left] at h
    apply String.toList_inj.mp
    rw [toList_path, ← hfilename, List.append_cancel_left_eq]
    split at h
    · next hcertificate =>
      cases h
      exact hends filename .certificate hcertificate
    · split at h
      · next hkey =>
        cases h
        exact hends filename .privateKey hkey
      · cases h
  · cases h

/-- A file belongs to one certificate, as one half of it. -/
theorem path_inj {half other : PairHalf} {name given : String}
    (h : half.path name = other.path given) : name = given ∧ half = other := by
  have hnameOf := nameOf_path half name
  rw [h, nameOf_path] at hnameOf
  cases hnameOf
  exact ⟨rfl, rfl⟩

/-- What the API accepts as a name is what a filename is looked at for. -/
theorem isName_text (given : CertificateName) : isName given.text = true := by
  unfold isName
  rw [Bool.and_eq_true, Bool.and_eq_true, decide_eq_true_iff, List.all_eq_true]
  refine ⟨⟨?_, given.short⟩, given.safe⟩
  cases htext : given.text.toList with
  | nil =>
    have hnonempty := given.nonempty
    rw [← String.length_toList, htext] at hnonempty
    cases hnonempty
  | cons c rest =>
    apply given.first c
    rw [htext]
    rfl

theorem text_of_isName {text : String} (h : isName text = true) :
    ∃ given : CertificateName, given.text = text := by
  unfold isName at h
  rw [Bool.and_eq_true, Bool.and_eq_true, decide_eq_true_iff, List.all_eq_true] at h
  obtain ⟨⟨hfirst, hshort⟩, hsafe⟩ := h
  cases htext : text.toList with
  | nil =>
    rw [htext] at hfirst
    cases hfirst
  | cons c rest =>
    rw [htext] at hfirst
    refine ⟨⟨text, fun d hd => ?_, hsafe, ?_, hshort⟩, rfl⟩
    · rw [htext] at hd
      cases hd
      exact hfirst
    · rw [← String.length_toList, htext]
      exact Nat.succ_pos _

/-! ### Reading the files -/

/-- Something of the certificate is there. -/
def Halves.any (halves : Halves) : Bool := halves.certificate.isSome || halves.privateKey.isSome

/-- The certificate that both halves make. -/
def Halves.whole (halves : Halves) : Option Bundle :=
  match halves.certificate, halves.privateKey with
  | some certificate, some privateKey => some ⟨certificate, privateKey⟩
  | _, _ => none

theorem Halves.eq_empty {halves : Halves} (h : halves.any = false) : halves = {} := by
  obtain ⟨certificate, privateKey⟩ := halves
  cases certificate with
  | some _ => cases h
  | none =>
    cases privateKey with
    | some _ => cases h
    | none => rfl

theorem Halves.any_put (halves : Halves) (content : String) (half : PairHalf) :
    (halves.put content half).any = true := by
  cases half with
  | certificate => rfl
  | privateKey => exact Bool.or_true _

/-- What the files hold of one certificate. -/
def foundIn (files : List (String × String)) (name : String) : Halves :=
  ⟨files.lookup (PairHalf.certificate.path name), files.lookup (PairHalf.privateKey.path name)⟩

/-- What is reported of a file that is no half of anything. -/
def stray (path : String) : Option Unaccounted :=
  match nameOf path with
  | none => some ⟨path, "a file in the certificate directory Apchi does not own", .null⟩
  | some (name, _) =>
      if isName name then none else some ⟨path, s!"'{name}' is not a name Apchi can hold", .null⟩

/-- What has been read of the files seen so far. -/
structure ReadUpTo (seen : List (String × String)) (reading : Reading) : Prop where
  halves : ∀ name, reading.halves[name]? =
    if isName name && (foundIn seen name).any then some (foundIn seen name) else none
  unaccounted : reading.unaccounted = seen.filterMap fun file => stray file.1

section step

variable {seen : List (String × String)} {file : String × String} {reading : Reading}

theorem lookup_append_of_ne {path : String} (h : path ≠ file.1) :
    (seen ++ [file]).lookup path = seen.lookup path := by
  rw [List.lookup_append, List.lookup_cons, beq_eq_false_iff_ne.mpr h]
  exact Option.or_none

/-- A file of another certificate changes nothing. -/
theorem foundIn_append_of_ne {name : String} (h : ∀ half : PairHalf, half.path name ≠ file.1) :
    foundIn (seen ++ [file]) name = foundIn seen name := by
  unfold foundIn
  rw [lookup_append_of_ne (h .certificate), lookup_append_of_ne (h .privateKey)]

/-- A file is put with the other half. -/
theorem foundIn_append {name content : String} {half : PairHalf}
    (hnew : seen.lookup (half.path name) = none) :
    foundIn (seen ++ [(half.path name, content)]) name = (foundIn seen name).put content half := by
  have hself : (seen ++ [(half.path name, content)]).lookup (half.path name) = some content := by
    rw [List.lookup_append, hnew, List.lookup_cons_self]
    rfl
  have hother : ∀ other : PairHalf, other ≠ half →
      (seen ++ [(half.path name, content)]).lookup (other.path name) =
        seen.lookup (other.path name) :=
    fun other hne => lookup_append_of_ne fun h => hne (path_inj h).2
  unfold foundIn
  cases half with
  | certificate =>
    rw [hself, hother .privateKey (by decide)]
    rfl
  | privateKey =>
    rw [hself, hother .certificate (by decide)]
    rfl

theorem ReadUpTo.step (h : ReadUpTo seen reading) (hnew : seen.lookup file.1 = none) :
    ReadUpTo (seen ++ [file]) (takeFile reading file) := by
  obtain ⟨path, content⟩ := file
  have hstray : (seen ++ [(path, content)]).filterMap (fun file => stray file.1) =
      reading.unaccounted ++ (stray path).toList := by
    rw [List.filterMap_append, h.unaccounted]
    refine congrArg _ ?_
    cases hpath : stray path with
    | none => exact List.filterMap_cons_none hpath
    | some entry => exact List.filterMap_cons_some hpath
  unfold takeFile
  cases hname : nameOf path with
  | none =>
    refine ⟨fun name => ?_, ?_⟩
    · have hother : ∀ half : PairHalf, half.path name ≠ path := by
        rintro half rfl
        rw [nameOf_path] at hname
        cases hname
      rw [foundIn_append_of_ne hother, ← h.halves name]
    · rw [hstray]
      unfold stray
      rw [hname]
      rfl
  | some owner =>
    obtain ⟨name, half⟩ := owner
    obtain rfl := path_of_nameOf hname
    have hothers : ∀ given, given ≠ name →
        foundIn (seen ++ [(half.path name, content)]) given = foundIn seen given :=
      fun given hne => foundIn_append_of_ne fun _ hpath => hne (path_inj hpath).1
    dsimp only
    cases hisName : isName name with
    | false =>
      rw [if_neg Bool.false_ne_true]
      refine ⟨fun given => ?_, ?_⟩
      · refine (h.halves given).trans ?_
        by_cases hgiven : given = name
        · rw [hgiven, hisName]
          rfl
        · rw [hothers given hgiven]
      · rw [hstray]
        unfold stray
        rw [hname]
        dsimp only
        rw [hisName]
        rfl
    | true =>
      rw [if_pos rfl]
      refine ⟨fun given => ?_, ?_⟩
      · by_cases hgiven : given = name
        · rw [hgiven, Std.ExtTreeMap.getElem?_insert_self, foundIn_append hnew, hisName,
            Halves.any_put, h.halves name, hisName]
          cases hany : (foundIn seen name).any with
          | true => rfl
          | false =>
            rw [Halves.eq_empty hany]
            rfl
        · rw [hothers given hgiven, ← h.halves given, Std.ExtTreeMap.getElem?_insert]
          exact if_neg fun hsame => hgiven (Std.LawfulEqCmp.eq_of_compare hsame).symm
      · rw [hstray]
        unfold stray
        rw [hname]
        dsimp only
        rw [hisName]
        exact (List.append_nil _).symm

/-- What has been read of all the files. -/
theorem ReadUpTo.run {files : List (String × String)} (hnodup : (files.map Prod.fst).Nodup) :
    ReadUpTo files (files.foldl takeFile {}) := by
  induction files using List.reverseRecOn with
  | nil => exact ⟨fun name => by simp [foundIn, Halves.any], rfl⟩
  | append_singleton seen file ih =>
    rw [List.map_append, List.nodup_append] at hnodup
    obtain ⟨hseen, -, hfresh⟩ := hnodup
    rw [List.foldl_append]
    refine (ih hseen).step (List.lookup_eq_none_iff.mpr fun other hother => ?_)
    rw [bne_iff_ne]
    exact (hfresh other.1 (List.mem_map_of_mem hother) file.1 List.mem_cons_self).symm

end step

/-! ### Looking at the pairs -/

/-- What is reported of half a pair. -/
def lone (name : String) (halves : Halves) : Option Unaccounted :=
  match halves.certificate, halves.privateKey with
  | none, _ => some ⟨keyPath name, s!"'{name}' has a private key and no certificate", .null⟩
  | some _, none =>
      some ⟨certificatePath name, s!"'{name}' has a certificate and no private key", .null⟩
  | some _, some _ => none

/-- What has been made of the certificates seen so far. -/
structure PairedUpTo (unaccounted : List Unaccounted) (seen : List (String × Halves))
    (parsed : Parsed) : Prop where
  resources : ∀ name,
    parsed.resources[name]? = (seen.lookup name).bind fun halves => halves.whole.map Bundle.stored
  unaccounted : parsed.unaccounted = unaccounted ++ seen.filterMap fun found => lone found.1 found.2
  admin : parsed.admin = none

theorem PairedUpTo.step {unaccounted : List Unaccounted} {seen : List (String × Halves)}
    {parsed : Parsed} {found : String × Halves} (h : PairedUpTo unaccounted seen parsed)
    (hnew : seen.lookup found.1 = none) :
    PairedUpTo unaccounted (seen ++ [found]) (takePair parsed found) := by
  obtain ⟨name, certificate, privateKey⟩ := found
  have hresources : ∀ given, (seen ++ [(name, Halves.mk certificate privateKey)]).lookup given =
      if given = name then some ⟨certificate, privateKey⟩ else seen.lookup given := by
    intro given
    rw [List.lookup_append]
    by_cases hgiven : given = name
    · rw [if_pos hgiven, hgiven, hnew, List.lookup_cons_self]
      rfl
    · rw [if_neg hgiven, List.lookup_cons, beq_eq_false_iff_ne.mpr hgiven]
      exact Option.or_none
  have halone : (Halves.mk certificate privateKey).whole = none →
      ∀ given, parsed.resources[given]? =
        ((seen ++ [(name, Halves.mk certificate privateKey)]).lookup given).bind
          fun halves => halves.whole.map Bundle.stored := by
    intro hnone given
    rw [hresources, h.resources]
    split
    · next hgiven =>
      rw [hgiven, hnew, Option.bind_some, hnone]
      rfl
    · rfl
  have hreported : unaccounted ++ (seen ++ [(name, Halves.mk certificate privateKey)]).filterMap
      (fun found => lone found.1 found.2) =
        parsed.unaccounted ++ (lone name ⟨certificate, privateKey⟩).toList := by
    rw [List.filterMap_append, h.unaccounted, List.append_assoc]
    refine congrArg (unaccounted ++ ·) (congrArg _ ?_)
    cases hlone : lone name ⟨certificate, privateKey⟩ with
    | none => exact List.filterMap_cons_none hlone
    | some entry => exact List.filterMap_cons_some hlone
  cases certificate with
  | none => exact ⟨halone rfl, hreported.symm, h.admin⟩
  | some certificate =>
    cases privateKey with
    | none => exact ⟨halone rfl, hreported.symm, h.admin⟩
    | some privateKey =>
      refine ⟨fun given => ?_, (hreported.trans (List.append_nil _)).symm, h.admin⟩
      rw [hresources]
      refine Std.ExtTreeMap.getElem?_insert.trans ?_
      by_cases hgiven : given = name
      · rw [if_pos hgiven, if_pos (Std.LawfulEqCmp.compare_eq_iff_eq.mpr hgiven.symm)]
        rfl
      · rw [if_neg hgiven, h.resources]
        exact if_neg fun hsame => hgiven (Std.LawfulEqCmp.eq_of_compare hsame).symm

theorem PairedUpTo.run {unaccounted : List Unaccounted} {found : List (String × Halves)}
    (hnodup : (found.map Prod.fst).Nodup) :
    PairedUpTo unaccounted found (found.foldl takePair { unaccounted := unaccounted }) := by
  induction found using List.reverseRecOn with
  | nil => exact ⟨fun name => Std.ExtTreeMap.getElem?_empty, (List.append_nil _).symm, rfl⟩
  | append_singleton seen entry ih =>
    rw [List.map_append, List.nodup_append] at hnodup
    obtain ⟨hseen, -, hfresh⟩ := hnodup
    rw [List.foldl_append]
    refine (ih hseen).step (List.lookup_eq_none_iff.mpr fun other hother => ?_)
    rw [bne_iff_ne]
    exact (hfresh other.1 (List.mem_map_of_mem hother) entry.1 List.mem_cons_self).symm

/-! ### What a directory is read as -/

/-- What a directory holds of one certificate. -/
def held (files : Dict) (name : String) : Halves :=
  ⟨files[PairHalf.certificate.path name]?, files[PairHalf.privateKey.path name]?⟩

/-- The certificates a directory holds something of. -/
def halvesOf (files : Dict) : Std.ExtTreeMap String Halves := (files.toList.foldl takeFile {}).halves

section parse

variable (files : Dict)

theorem halvesOf_eq (name : String) : (halvesOf files)[name]? =
    if isName name && (held files name).any then some (held files name) else none := by
  have hheld : foundIn files.toList name = held files name := by
    unfold foundIn held
    rw [lookup_toList, lookup_toList]
  rw [← hheld]
  exact (ReadUpTo.run (nodup_toList files)).halves name

theorem mem_halvesOf {name : String} :
    name ∈ halvesOf files ↔ isName name = true ∧ (held files name).any = true := by
  rw [Std.ExtTreeMap.mem_iff_isSome_getElem?, halvesOf_eq, ← Bool.and_eq_true]
  split
  · next h => simp [h]
  · next h => simp [h]

/-- A certificate is read where both halves are there under a name Apchi can hold. -/
theorem parse_resources (name : String) : (parse files).resources[name]? =
    if isName name then (held files name).whole.map Bundle.stored else none := by
  have hpaired : (parse files).resources[name]? =
      ((halvesOf files)[name]?).bind fun halves => halves.whole.map Bundle.stored := by
    rw [← lookup_toList (halvesOf files)]
    exact (PairedUpTo.run (nodup_toList (halvesOf files))).resources name
  rw [hpaired, halvesOf_eq]
  cases hisName : isName name with
  | false => rfl
  | true =>
    cases hany : (held files name).any with
    | true => rfl
    | false =>
      rw [Halves.eq_empty hany]
      rfl

/-- What is reported is about the paths that are there, whatever the files hold. -/
theorem parse_unaccounted : (parse files).unaccounted = files.keys.filterMap stray ++
    (halvesOf files).keys.filterMap fun name => lone name (held files name) := by
  refine (PairedUpTo.run (nodup_toList (halvesOf files))).unaccounted.trans ?_
  rw [(ReadUpTo.run (nodup_toList files)).unaccounted]
  rw [← Std.ExtTreeMap.map_fst_toList_eq_keys, ← Std.ExtTreeMap.map_fst_toList_eq_keys,
    List.filterMap_map, List.filterMap_map]
  congr 1
  refine List.filterMap_congr fun found hfound => ?_
  have hhalves := Std.ExtTreeMap.mem_toList_iff_getElem?_eq_some.mp hfound
  rw [halvesOf_eq] at hhalves
  split at hhalves
  · exact congrArg (lone found.1) (Option.some.inj hhalves).symm
  · cases hhalves

theorem parse_admin : (parse files).admin = none :=
  (PairedUpTo.run (nodup_toList (halvesOf files))).admin

end parse

/-! ### Every file is in one place -/

def Halves.get (halves : Halves) : PairHalf → Option String
  | .certificate => halves.certificate
  | .privateKey => halves.privateKey

/-- What a certificate holds as a half. -/
def Bundle.content (bundle : Bundle) : PairHalf → String
  | .certificate => bundle.certificatePem
  | .privateKey => bundle.privateKeyPem

/-- A file is one of the two of a certificate that was read. -/
def Holds (parsed : Parsed) (name path content : String) : Prop :=
  ∃ (bundle : Bundle) (half : PairHalf), parsed.resources[name]? = some bundle.stored ∧
    path = half.path name ∧ content = bundle.content half

/-- How many of the reports are about a path. -/
def reportsOf (parsed : Parsed) (path : String) : Nat :=
  (parsed.unaccounted.map Unaccounted.path).count path

theorem get_held (files : Dict) (name : String) (half : PairHalf) :
    (held files name).get half = files[half.path name]? := by
  cases half with
  | certificate => rfl
  | privateKey => rfl

theorem stored_injective : Function.Injective Bundle.stored := by
  rintro ⟨certificate, privateKey⟩ ⟨other, given⟩ h
  cases h
  rfl

theorem get_of_whole {halves : Halves} {bundle : Bundle} (h : halves.whole = some bundle)
    (half : PairHalf) : halves.get half = some (bundle.content half) := by
  obtain ⟨certificate, privateKey⟩ := halves
  cases certificate with
  | none => cases h
  | some certificate =>
    cases privateKey with
    | none => cases h
    | some privateKey =>
      cases h
      cases half with
      | certificate => rfl
      | privateKey => rfl

theorem any_of_get {halves : Halves} {half : PairHalf} (h : (halves.get half).isSome = true) :
    halves.any = true := by
  unfold Halves.any
  cases half with
  | certificate => exact Bool.or_eq_true_iff.mpr (Or.inl h)
  | privateKey => exact Bool.or_eq_true_iff.mpr (Or.inr h)

/-- A path is reported as it is, or it is where a half of a certificate is. -/
theorem stray_cases (path : String) :
    (∃ entry, stray path = some entry ∧ entry.path = path ∧ entry.content = .null ∧
      ∀ (half : PairHalf) (name : String), path = half.path name → isName name = false) ∨
    (stray path = none ∧ ∃ (half : PairHalf) (name : String), path = half.path name ∧
      isName name = true) := by
  unfold stray
  cases hname : nameOf path with
  | none =>
    refine Or.inl ⟨_, rfl, rfl, rfl, ?_⟩
    rintro half name rfl
    rw [nameOf_path] at hname
    cases hname
  | some owner =>
    obtain ⟨name, half⟩ := owner
    obtain rfl := path_of_nameOf hname
    dsimp only
    cases hisName : isName name with
    | false =>
      refine Or.inl ⟨_, if_neg Bool.false_ne_true, rfl, rfl, fun other given hpath => ?_⟩
      rw [← (path_inj hpath).1, hisName]
    | true => exact Or.inr ⟨if_pos rfl, half, name, rfl, hisName⟩

/-- A pair is kept, or the half that is there is reported. -/
theorem lone_cases (name : String) {halves : Halves} (hany : halves.any = true) :
    (lone name halves = none ∧ ∃ bundle, halves.whole = some bundle) ∨
    ∃ (entry : Unaccounted) (half : PairHalf), lone name halves = some entry ∧
      entry.path = half.path name ∧ entry.content = .null ∧ halves.whole = none ∧
      ∀ other, (halves.get other).isSome = true ↔ other = half := by
  obtain ⟨certificate, privateKey⟩ := halves
  cases certificate with
  | none =>
    cases privateKey with
    | none => cases hany
    | some privateKey =>
      refine Or.inr ⟨_, .privateKey, rfl, rfl, rfl, rfl, fun other => ?_⟩
      cases other <;> simp [Halves.get]
  | some certificate =>
    cases privateKey with
    | none =>
      refine Or.inr ⟨_, .certificate, rfl, rfl, rfl, rfl, fun other => ?_⟩
      cases other <;> simp [Halves.get]
    | some privateKey => exact Or.inl ⟨rfl, ⟨certificate, privateKey⟩, rfl⟩

section accounted

variable {files : Dict}

/-- What is kept of a directory are the contents of two of its files. -/
theorem Holds.file {name path content : String} (h : Holds (parse files) name path content) :
    files[path]? = some content := by
  obtain ⟨bundle, half, hresource, rfl, rfl⟩ := h
  rw [parse_resources] at hresource
  split at hresource
  · obtain ⟨whole, hwhole, hstored⟩ := Option.map_eq_some_iff.mp hresource
    cases stored_injective hstored
    rw [← get_held]
    exact get_of_whole hwhole half
  · cases hresource

theorem mem_resources {name : String} : name ∈ (parse files).resources ↔
    isName name = true ∧ ∃ bundle, (held files name).whole = some bundle := by
  rw [Std.ExtTreeMap.mem_iff_isSome_getElem?, parse_resources]
  split
  · next h => rw [Option.isSome_map, Option.isSome_iff_exists, h, eq_self, true_and]
  · next h =>
    refine iff_of_false Bool.false_ne_true fun hname => h hname.1

/-- What is reported is of a file that no certificate holds, and without what the file holds. -/
theorem of_mem_unaccounted {entry : Unaccounted} (h : entry ∈ (parse files).unaccounted) :
    entry.path ∈ files ∧ entry.content = .null ∧
      ∀ (half : PairHalf) (name : String), entry.path = half.path name →
        name ∉ (parse files).resources := by
  rw [parse_unaccounted, List.mem_append, List.mem_filterMap, List.mem_filterMap] at h
  rcases h with ⟨path, hpath, hstray⟩ | ⟨name, hname, hlone⟩
  · rcases stray_cases path with ⟨_, hentry, rfl, hnull, hforeign⟩ | ⟨hnone, -⟩
    · rw [hstray] at hentry
      cases hentry
      refine ⟨Std.ExtTreeMap.mem_keys.mp hpath, hnull, fun half name hhalf hname => ?_⟩
      exact Bool.false_ne_true ((hforeign half name hhalf).symm.trans (mem_resources.mp hname).1)
    · rw [hstray] at hnone
      cases hnone
  · have hmem := (mem_halvesOf files).mp (Std.ExtTreeMap.mem_keys.mp hname)
    rcases lone_cases name hmem.2 with ⟨hnone, -⟩ | ⟨_, half, hentry, hpath, hnull, hwhole, honly⟩
    · rw [hlone] at hnone
      cases hnone
    · rw [hlone] at hentry
      cases hentry
      refine ⟨?_, hnull, fun other given hother hgiven => ?_⟩
      · rw [hpath, Std.ExtTreeMap.mem_iff_isSome_getElem?, ← get_held]
        exact (honly half).mpr rfl
      · obtain ⟨-, bundle, hbundle⟩ := mem_resources.mp hgiven
        rw [hpath] at hother
        rw [← (path_inj hother).1, hwhole] at hbundle
        cases hbundle

/-- Each file is kept or reported. -/
theorem kept_or_reported {path content : String} (h : files[path]? = some content) :
    (∃ name, Holds (parse files) name path content) ∨
      ∃ entry ∈ (parse files).unaccounted, entry.path = path := by
  have hpath : path ∈ files := by
    rw [Std.ExtTreeMap.mem_iff_isSome_getElem?, h]
    rfl
  rw [parse_unaccounted]
  rcases stray_cases path with ⟨entry, hentry, hsame, -⟩ | ⟨-, half, name, rfl, hisName⟩
  · exact Or.inr ⟨entry, List.mem_append_left _
      (List.mem_filterMap.mpr ⟨path, Std.ExtTreeMap.mem_keys.mpr hpath, hentry⟩), hsame⟩
  · rw [← get_held] at h
    have hsome : ((held files name).get half).isSome = true := by
      rw [h]
      rfl
    have hany := any_of_get hsome
    rcases lone_cases name hany with
      ⟨-, bundle, hwhole⟩ | ⟨entry, other, hlone, hother, -, -, honly⟩
    · refine Or.inl ⟨name, bundle, half, ?_, rfl, ?_⟩
      · rw [parse_resources, if_pos hisName, hwhole]
        rfl
      · rw [get_of_whole hwhole] at h
        exact (Option.some.inj h).symm
    · refine Or.inr ⟨entry, List.mem_append_right _ (List.mem_filterMap.mpr ⟨name, ?_, hlone⟩), ?_⟩
      · exact Std.ExtTreeMap.mem_keys.mpr ((mem_halvesOf files).mpr ⟨hisName, hany⟩)
      · rw [hother, (honly half).mp hsome]

theorem nodup_unaccounted : ((parse files).unaccounted.map Unaccounted.path).Nodup := by
  have hstray : ∀ {path entry}, stray path = some entry → entry.path = path := by
    intro path entry hentry
    rcases stray_cases path with ⟨_, hsome, hpath, -⟩ | ⟨hnone, -⟩
    · rw [hentry] at hsome
      cases hsome
      exact hpath
    · rw [hentry] at hnone
      cases hnone
  have hlone : ∀ {name halves entry}, lone name halves = some entry →
      ∃ half : PairHalf, entry.path = half.path name := by
    rintro name ⟨certificate, privateKey⟩ entry hentry
    cases certificate with
    | none =>
      cases hentry
      exact ⟨.privateKey, rfl⟩
    | some certificate =>
      cases privateKey with
      | none =>
        cases hentry
        exact ⟨.certificate, rfl⟩
      | some privateKey => cases hentry
  rw [parse_unaccounted, List.map_append, List.nodup_append]
  refine ⟨?_, ?_, ?_⟩
  · refine List.pairwise_map.mpr (List.Pairwise.filterMap _ ?_ Std.ExtTreeMap.nodup_keys)
    intro path other hne entry hentry another hanother
    rw [hstray hentry, hstray hanother]
    exact hne
  · refine List.pairwise_map.mpr (List.Pairwise.filterMap _ ?_ Std.ExtTreeMap.nodup_keys)
    intro name other hne entry hentry another hanother hsame
    obtain ⟨half, hpath⟩ := hlone hentry
    obtain ⟨half', hpath'⟩ := hlone hanother
    rw [hpath, hpath'] at hsame
    exact hne (path_inj hsame).1
  · -- the one is under no name Apchi can hold, the other under one
    rintro _ hfirst _ hsecond rfl
    obtain ⟨entry, hentry, rfl⟩ := List.mem_map.mp hfirst
    obtain ⟨path, -, hpath⟩ := List.mem_filterMap.mp hentry
    obtain ⟨another, hanother, hsame⟩ := List.mem_map.mp hsecond
    obtain ⟨name, hname, hname'⟩ := List.mem_filterMap.mp hanother
    obtain ⟨half, hhalf⟩ := hlone hname'
    have hisName := ((mem_halvesOf files).mp (Std.ExtTreeMap.mem_keys.mp hname)).1
    rcases stray_cases path with ⟨-, -, -, -, hforeign⟩ | ⟨hnone, -⟩
    · rw [hforeign half name (by rw [← hstray hpath, ← hsame, hhalf])] at hisName
      cases hisName
    · rw [hpath] at hnone
      cases hnone

end accounted

theorem lone_congr (name : String) {halves others : Halves}
    (hcertificate : halves.certificate.isSome = others.certificate.isSome)
    (hkey : halves.privateKey.isSome = others.privateKey.isSome) :
    lone name halves = lone name others := by
  obtain ⟨certificate, privateKey⟩ := halves
  obtain ⟨certificate', privateKey'⟩ := others
  cases certificate with
  | none =>
    cases certificate' with
    | none => rfl
    | some _ => cases hcertificate
  | some _ =>
    cases certificate' with
    | none => cases hcertificate
    | some _ =>
      cases privateKey <;> cases privateKey' <;> first | rfl | cases hkey

/-- Reports are the same whatever the files hold. -/
theorem unaccounted_congr {files others : Dict} (h : others.keys = files.keys) :
    (parse others).unaccounted = (parse files).unaccounted := by
  have hisSome : ∀ path : String, (others[path]?).isSome = (files[path]?).isSome := by
    intro path
    rw [Bool.eq_iff_iff, ← Std.ExtTreeMap.mem_iff_isSome_getElem?,
      ← Std.ExtTreeMap.mem_iff_isSome_getElem?, ← Std.ExtTreeMap.mem_keys, h,
      Std.ExtTreeMap.mem_keys]
  have hany : ∀ name, (held others name).any = (held files name).any := fun name =>
    congrArg₂ (· || ·) (hisSome _) (hisSome _)
  have hkeys : (halvesOf others).keys = (halvesOf files).keys := by
    refine keys_congr fun name => ?_
    rw [mem_halvesOf, mem_halvesOf, hany]
  rw [parse_unaccounted, parse_unaccounted, h, hkeys]
  congr 1
  exact List.filterMap_congr fun name _ => lone_congr name (hisSome _) (hisSome _)

/-! ### Rendering and reading back -/

/-- Certificates under names the API accepts. -/
def Certificates (resources : Resources) : Prop :=
  ∀ (name : String) (value : Json), resources[name]? = some value →
    (∃ given : CertificateName, given.text = name) ∧ ∃ bundle : Bundle, value = bundle.stored

theorem Staged.certificates {settings : Settings} {stored : Resources} (h : Staged settings stored) :
    Certificates stored := h.pairs

theorem mem_files {name path content : String} {bundle : Bundle} : (path, content) ∈
    [(certificatePath name, bundle.certificatePem), (keyPath name, bundle.privateKeyPem)] ↔
      ∃ half : PairHalf, path = half.path name ∧ content = bundle.content half := by
  constructor
  · intro hmem
    rcases List.mem_pair.mp hmem with h | h
    · cases h
      exact ⟨.certificate, rfl, rfl⟩
    · cases h
      exact ⟨.privateKey, rfl, rfl⟩
  · rintro ⟨half, rfl, rfl⟩
    cases half with
    | certificate => exact List.mem_cons_self
    | privateKey => exact List.mem_cons_of_mem _ List.mem_cons_self

/-- The two files of each certificate are written, and no others. -/
theorem pairs_ok {entries : List (String × Json)} (hnodup : (entries.map Prod.fst).Nodup)
    (hstored : ∀ entry ∈ entries, ∃ bundle : Bundle, entry.2 = bundle.stored) :
    ∃ pairs, entries.mapM pair = .ok pairs ∧ (pairs.flatten.map Prod.fst).Nodup ∧
      ∀ path content, (path, content) ∈ pairs.flatten ↔
        ∃ (name : String) (bundle : Bundle) (half : PairHalf), (name, bundle.stored) ∈ entries ∧
          path = half.path name ∧ content = bundle.content half := by
  induction entries with
  | nil => exact ⟨[], rfl, List.nodup_nil, fun _ _ => iff_of_false List.not_mem_nil (by simp)⟩
  | cons entry entries ih =>
    obtain ⟨hfirst, hrest⟩ := List.forall_mem_cons.mp hstored
    rw [List.map_cons, List.nodup_cons] at hnodup
    obtain ⟨pairs, hpairs, hdistinct, hfiles⟩ := ih hnodup.2 hrest
    obtain ⟨name, _⟩ := entry
    obtain ⟨bundle, rfl⟩ := hfirst
    refine ⟨[(certificatePath name, bundle.certificatePem), (keyPath name, bundle.privateKeyPem)] ::
      pairs, ?_, ?_, fun path content => ?_⟩
    · rw [List.mapM_cons, hpairs]
      rfl
    · rw [List.flatten_cons, List.map_append, List.nodup_append]
      refine ⟨?_, hdistinct, ?_⟩
      · have hne : PairHalf.certificate.path name ≠ PairHalf.privateKey.path name :=
          fun hsame => nomatch (path_inj hsame).2
        exact List.nodup_cons.mpr ⟨fun hmem => hne (List.mem_singleton.mp hmem), by simp⟩
      · rintro _ hin _ hin' rfl
        obtain ⟨⟨path, content⟩, hmem, rfl⟩ := List.mem_map.mp hin
        obtain ⟨⟨path', content'⟩, hmem', hsame⟩ := List.mem_map.mp hin'
        obtain ⟨half, hpath, -⟩ := mem_files.mp hmem
        obtain ⟨given, other, half', hgiven, hpath', -⟩ := (hfiles _ _).mp hmem'
        have hpath' := (hpath.symm.trans hsame.symm).trans hpath'
        refine hnodup.1 ?_
        rw [(path_inj hpath').1]
        exact List.mem_map.mpr ⟨_, hgiven, rfl⟩
    · rw [List.flatten_cons, List.mem_append, mem_files, hfiles]
      constructor
      · rintro (⟨half, hpath, hcontent⟩ | ⟨given, other, half, hgiven, hpath, hcontent⟩)
        · exact ⟨name, bundle, half, List.mem_cons_self, hpath, hcontent⟩
        · exact ⟨given, other, half, List.mem_cons_of_mem _ hgiven, hpath, hcontent⟩
      · rintro ⟨given, other, half, hgiven, hpath, hcontent⟩
        rcases List.mem_cons.mp hgiven with h | hgiven
        · rw [Prod.mk.injEq] at h
          obtain ⟨rfl, hsame⟩ := h
          cases stored_injective hsame
          exact Or.inl ⟨half, hpath, hcontent⟩
        · exact Or.inr ⟨given, other, half, hgiven, hpath, hcontent⟩

theorem render_files {stored : Resources} (h : Certificates stored) :
    ∃ files, render stored = .ok files ∧ ∀ path content, files[path]? = some content ↔
      ∃ (name : String) (bundle : Bundle) (half : PairHalf), stored[name]? = some bundle.stored ∧
        path = half.path name ∧ content = bundle.content half := by
  obtain ⟨pairs, hpairs, hdistinct, hfiles⟩ := pairs_ok (nodup_toList stored) fun entry hentry =>
    (h entry.1 entry.2 (Std.ExtTreeMap.mem_toList_iff_getElem?_eq_some.mp hentry)).2
  refine ⟨.ofList pairs.flatten, ?_, fun path content => ?_⟩
  · unfold render
    rw [hpairs]
    rfl
  · rw [getElem?_ofList_eq_some hdistinct, hfiles]
    simp only [Std.ExtTreeMap.mem_toList_iff_getElem?_eq_some]

/-- What is written of certificates is read back. -/
theorem parse_render {stored : Resources} (h : Certificates stored) :
    ∃ files, render stored = .ok files ∧ parse files = { resources := stored } := by
  obtain ⟨files, hrender, hfiles⟩ := render_files h
  have hheld : ∀ (name : String) (bundle : Bundle), stored[name]? = some bundle.stored →
      held files name = ⟨some bundle.certificatePem, some bundle.privateKeyPem⟩ := by
    intro name bundle hname
    have hcertificate := (hfiles _ _).mpr ⟨name, bundle, .certificate, hname, rfl, rfl⟩
    have hkey := (hfiles _ _).mpr ⟨name, bundle, .privateKey, hname, rfl, rfl⟩
    exact congrArg₂ Halves.mk hcertificate hkey
  have hresources : (parse files).resources = stored := by
    refine Std.ExtTreeMap.ext_getElem? fun name => ?_
    rw [parse_resources]
    cases hname : stored[name]? with
    | some value =>
      obtain ⟨⟨given, rfl⟩, bundle, rfl⟩ := h name value hname
      rw [if_pos (isName_text given), hheld _ bundle hname]
      rfl
    | none =>
      have hnone : ∀ half : PairHalf, (held files name).get half = none := by
        intro half
        rw [get_held, Option.eq_none_iff_forall_not_mem]
        intro content hcontent
        obtain ⟨other, bundle, half', hother, hpath, -⟩ := (hfiles _ _).mp hcontent
        rw [← (path_inj hpath).1, hname] at hother
        cases hother
      have hwhole : (held files name).whole = none := by
        rw [Option.eq_none_iff_forall_not_mem]
        intro bundle hbundle
        have hget := get_of_whole hbundle .certificate
        rw [hnone] at hget
        cases hget
      rw [hwhole]
      exact ite_self _
  have hunaccounted : (parse files).unaccounted = [] := by
    refine List.eq_nil_iff_forall_not_mem.mpr fun entry hentry => ?_
    obtain ⟨hpath, -, hnot⟩ := of_mem_unaccounted hentry
    obtain ⟨content, hcontent⟩ :=
      Option.isSome_iff_exists.mp (Std.ExtTreeMap.mem_iff_isSome_getElem?.mp hpath)
    obtain ⟨name, bundle, half, hname, hhalf, -⟩ := (hfiles _ _).mp hcontent
    refine hnot half name hhalf ?_
    rw [hresources, Std.ExtTreeMap.mem_iff_isSome_getElem?, hname]
    rfl
  refine ⟨files, hrender, ?_⟩
  rw [← hresources, ← hunaccounted, ← parse_admin files]

/-- What is written of certificates is read back, and of any directory each file is either one half
of one certificate or what one report is about, which says nothing of what the files hold. -/
theorem files_accounted {stored : Resources} (h : Certificates stored) (files : Dict) :
    (∃ rendered, render stored = .ok rendered ∧ parse rendered = { resources := stored }) ∧
    (∀ path content, files[path]? = some content →
      ((∃! name, Holds (parse files) name path content) ∧ reportsOf (parse files) path = 0) ∨
      ((∀ name other, ¬ Holds (parse files) name path other) ∧
        reportsOf (parse files) path = 1)) ∧
    (∀ name path content, Holds (parse files) name path content →
      files[path]? = some content) ∧
    (∀ entry ∈ (parse files).unaccounted, entry.path ∈ files ∧ entry.content = .null) ∧
    ∀ others : Dict, others.keys = files.keys →
      (parse others).unaccounted = (parse files).unaccounted := by
  refine ⟨parse_render h, fun path content hcontent => ?_, fun _ _ _ => Holds.file,
    fun entry hentry => ?_, fun others => unaccounted_congr⟩
  · have hapart : ∀ entry ∈ (parse files).unaccounted, entry.path = path →
        ∀ name other, ¬ Holds (parse files) name path other := by
      rintro entry hentry rfl name other ⟨bundle, half, hname, hpath, -⟩
      refine (of_mem_unaccounted hentry).2.2 half name hpath ?_
      rw [Std.ExtTreeMap.mem_iff_isSome_getElem?, hname]
      rfl
    rcases kept_or_reported hcontent with ⟨name, hname⟩ | ⟨entry, hentry, hpath⟩
    · refine Or.inl ⟨⟨name, hname, ?_⟩, List.count_eq_zero.mpr fun hmem => ?_⟩
      · rintro other ⟨-, half', -, hother, -⟩
        obtain ⟨-, half, -, hhalf, -⟩ := hname
        rw [hhalf] at hother
        exact (path_inj hother).1.symm
      · obtain ⟨entry, hentry, hpath⟩ := List.mem_map.mp hmem
        exact hapart entry hentry hpath name content hname
    · refine Or.inr ⟨hapart entry hentry hpath, ?_⟩
      exact nodup_unaccounted.count.trans (if_pos (List.mem_map.mpr ⟨entry, hentry, hpath⟩))
  · obtain ⟨hpath, hnull, -⟩ := of_mem_unaccounted hentry
    exact ⟨hpath, hnull⟩

def readerBundle : Bundle := ⟨"CERTIFICATE", "KEY"⟩

/-- A directory with a key whose certificate is gone. -/
def loneKey : Dict := (∅ : Dict).insert "/etc/trino/certs/writer.key" "KEY"

/-- One certificate is read back, and a key that is alone is reported once, without the key. -/
theorem files_accounted_reader :
    (∃ rendered, render ((∅ : Resources).insert "reader" readerBundle.stored) = .ok rendered ∧
      parse rendered = { resources := (∅ : Resources).insert "reader" readerBundle.stored }) ∧
    reportsOf (parse loneKey) "/etc/trino/certs/writer.key" = 1 ∧
    ∀ entry ∈ (parse loneKey).unaccounted, entry.content = .null := by
  have hcertificates : Certificates ((∅ : Resources).insert "reader" readerBundle.stored) := by
    intro name value hvalue
    rw [Std.ExtTreeMap.getElem?_insert] at hvalue
    split at hvalue
    · next hname =>
      cases hvalue
      exact ⟨⟨⟨"reader", by rintro _ ⟨⟩; decide, List.all_eq_true.mp (by decide), by decide,
        by decide⟩, Std.LawfulEqCmp.eq_of_compare hname⟩, readerBundle, rfl⟩
    · cases hvalue
  obtain ⟨hread, hplaced, -, hnull, -⟩ := files_accounted hcertificates loneKey
  refine ⟨hread, ?_, fun entry hentry => (hnull entry hentry).2⟩
  rcases hplaced "/etc/trino/certs/writer.key" "KEY" (by decide) with ⟨⟨name, hname, -⟩, -⟩ | ⟨-, h⟩
  · obtain ⟨bundle, half, hresource, -, -⟩ := hname
    have hnone : (parse loneKey).resources = ∅ := by decide +kernel
    rw [hnone] at hresource
    cases hresource
  · exact h

end Apchi.ClientCertificates
