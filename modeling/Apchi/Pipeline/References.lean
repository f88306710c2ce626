import Apchi.Catalogs.Certificates
import Apchi.ClientCertificates.Section
import Apchi.Pipeline.Store

/-!
# One Section referring to another

A Catalog that presents a Client Certificate is a fact about two Sections, checked over the whole
Candidate: at Validate every certificate a Catalog refers to has to be staged, and a certificate is
only removed while no Catalog refers to it.  Both read the references where `effective` puts their
paths, so a Candidate without missing certificates has every one of those files rendered.
-/

namespace Apchi.Pipeline

open Lib Catalogs ClientCertificates

/-- Why a Catalog's reference cannot be followed. -/
def missingCertificate (name missing : String) : ValidationFailure :=
  { sect := some .catalogs
    resource := some name
    reason := s!"references the client certificate '{missing}', which is not " ++
      "configured. Upload it, or remove the reference." }

/-- The certificates a Catalog refers to that nobody has staged. -/
def missingOf (staged : Resources) (entry : String × Json) :
    Except Error (List ValidationFailure) := do
  let wanted ← referencedBy entry.2
  let missing := (Std.ExtTreeSet.ofList wanted).toList.filter fun name => name ∉ staged
  return missing.map (missingCertificate entry.1)

/-- The lists read off the elements, joined. -/
def gathered {ι κ : Type} (f : ι → Except Error (List κ)) (xs : List ι) :
    Except Error (List κ) := do
  let found ← xs.mapM f
  return found.flatten

/-- Nothing is found where every element was read and gave nothing. -/
theorem gathered_eq_nil {ι κ : Type} {f : ι → Except Error (List κ)} {xs : List ι} :
    gathered f xs = .ok [] ↔ ∀ x ∈ xs, f x = .ok [] := by
  induction xs with
  | nil => exact ⟨fun _ _ hx => (List.not_mem_nil hx).elim, fun _ => rfl⟩
  | cons x xs ih =>
    rw [List.forall_mem_cons, ← ih]
    unfold gathered
    rw [List.mapM_cons]
    cases f x with
    | error e => exact ⟨nofun, fun h => nomatch h.1⟩
    | ok found =>
      cases xs.mapM f with
      | error e => exact ⟨nofun, fun h => nomatch h.2⟩
      | ok rest =>
        constructor
        · intro h
          have hnil : found ++ rest.flatten = [] := Except.ok.inj h
          obtain ⟨hfound, hrest⟩ := List.append_eq_nil_iff.mp hnil
          exact ⟨congrArg Except.ok hfound, congrArg Except.ok hrest⟩
        · rintro ⟨hfound, hrest⟩
          have hnil : found ++ rest.flatten = [] :=
            List.append_eq_nil_iff.mpr ⟨Except.ok.inj hfound, Except.ok.inj hrest⟩
          exact congrArg Except.ok hnil

/-- `missing_certificates`: every Catalog that names a Client Certificate nobody has staged. -/
def missingCertificates (sections : Sections) : Except Error (List ValidationFailure) :=
  gathered (missingOf (sections .clientCertificates)) (sections .catalogs).toList

/-- The Catalog, if it refers to the certificate. -/
def userOf (certificate : String) (entry : String × Json) : Except Error (List String) := do
  let wanted ← referencedBy entry.2
  return if certificate ∈ wanted then [entry.1] else []

/-- `certificates_in_use`: which Catalogs would break if this certificate went away. -/
def certificatesInUse (sections : Sections) (certificate : String) :
    Except Error (List String) :=
  gathered (userOf certificate) (sections .catalogs).toList

/-- The Candidate with a certificate removed. -/
def withoutCertificate (sections : Sections) (certificate : String) : Sections :=
  fun sect => if sect = .clientCertificates then (sections sect).erase certificate
    else sections sect

/-- Every certificate is stored as a pair, and every certificate field names one the way Operators
name them. -/
structure Presentable (sections : Sections) : Prop where
  pairs : ∀ (name : String) (value : Json), (sections .clientCertificates)[name]? = some value →
    ∃ bundle : Bundle, value = bundle.stored
  named : ∀ (name : String) (stored : Json), (sections .catalogs)[name]? = some stored →
    ∀ catalog certificate, Catalog.ofJson stored = .ok catalog →
      catalog.certificate = some certificate → ∃ given : CertificateName, given.text = certificate

/-! ### Reading every Catalog -/

theorem missingOf_eq_nil {staged : Resources} {entry : String × Json} :
    missingOf staged entry = .ok [] ↔
      ∃ wanted, referencedBy entry.2 = .ok wanted ∧ ∀ name ∈ wanted, name ∈ staged := by
  unfold missingOf
  cases referencedBy entry.2 with
  | error e => exact ⟨nofun, fun ⟨_, h, _⟩ => nomatch h⟩
  | ok wanted =>
    constructor
    · intro h
      have hmissing := List.map_eq_nil_iff.mp (Except.ok.inj h)
      refine ⟨wanted, rfl, fun name hname => ?_⟩
      by_contra hnot
      have hin : name ∈ (Std.ExtTreeSet.ofList wanted).toList :=
        Std.ExtTreeSet.mem_toList.mpr
          (Std.ExtTreeSet.mem_ofList.mpr (List.contains_iff_mem.mpr hname))
      exact List.filter_eq_nil_iff.mp hmissing name hin (decide_eq_true hnot)
    · rintro ⟨_, hwanted, hall⟩
      cases hwanted
      refine congrArg Except.ok (List.map_eq_nil_iff.mpr (List.filter_eq_nil_iff.mpr ?_))
      intro name hname
      have hin := Std.ExtTreeSet.mem_ofList.mp (Std.ExtTreeSet.mem_toList.mp hname)
      rw [decide_eq_true_eq, not_not]
      exact hall name (List.contains_iff_mem.mp hin)

/-- Nothing is missing exactly where every Catalog can be read and refers to staged certificates
only. -/
theorem missingCertificates_eq_nil {sections : Sections} :
    missingCertificates sections = .ok [] ↔
      ∀ (name : String) (stored : Json), (sections .catalogs)[name]? = some stored →
        ∃ wanted, referencedBy stored = .ok wanted ∧
          ∀ other ∈ wanted, other ∈ sections .clientCertificates := by
  unfold missingCertificates
  rw [gathered_eq_nil]
  constructor
  · intro h name stored hstored
    exact missingOf_eq_nil.mp
      (h (name, stored) (Std.ExtTreeMap.mem_toList_iff_getElem?_eq_some.mpr hstored))
  · rintro h ⟨name, stored⟩ hentry
    exact missingOf_eq_nil.mpr
      (h name stored (Std.ExtTreeMap.mem_toList_iff_getElem?_eq_some.mp hentry))

/-- A certificate is in use by no Catalog exactly where every Catalog can be read and does not refer
to it. -/
theorem certificatesInUse_eq_nil {sections : Sections} {certificate : String} :
    certificatesInUse sections certificate = .ok [] ↔
      ∀ (name : String) (stored : Json), (sections .catalogs)[name]? = some stored →
        ∃ wanted, referencedBy stored = .ok wanted ∧ certificate ∉ wanted := by
  have hone : ∀ entry : String × Json, userOf certificate entry = .ok [] ↔
      ∃ wanted, referencedBy entry.2 = .ok wanted ∧ certificate ∉ wanted := by
    intro entry
    unfold userOf
    cases referencedBy entry.2 with
    | error e => exact ⟨nofun, fun ⟨_, h, _⟩ => nomatch h⟩
    | ok wanted =>
      constructor
      · intro h
        refine ⟨wanted, rfl, fun hmem => ?_⟩
        have h := Except.ok.inj h
        rw [if_pos hmem] at h
        cases h
      · rintro ⟨_, hwanted, hnot⟩
        cases hwanted
        exact congrArg Except.ok (if_neg hnot)
  unfold certificatesInUse
  rw [gathered_eq_nil]
  constructor
  · intro h name stored hstored
    exact (hone _).mp
      (h (name, stored) (Std.ExtTreeMap.mem_toList_iff_getElem?_eq_some.mpr hstored))
  · rintro h ⟨name, stored⟩ hentry
    exact (hone _).mpr
      (h name stored (Std.ExtTreeMap.mem_toList_iff_getElem?_eq_some.mp hentry))

/-! ### Two files for each certificate -/

theorem certificatePath_ne_keyPath (name other : String) :
    Catalogs.certificatePath name ≠ Catalogs.keyPath other := by
  intro h
  have h := congrArg String.toList h
  simp only [Catalogs.certificatePath, Catalogs.keyPath, String.toList_append] at h
  have hlast := congrArg List.getLast? h
  rw [List.getLast?_append_of_ne_nil _ (by decide), List.getLast?_append_of_ne_nil _ (by decide)]
    at hlast
  exact absurd hlast (by decide)

theorem certificatePath_injective : Function.Injective Catalogs.certificatePath := by
  intro name other h
  have h := congrArg String.toList h
  simp only [Catalogs.certificatePath, String.toList_append, List.append_assoc,
    List.append_cancel_left_eq] at h
  exact String.toList_inj.mp (List.append_cancel_right h)

theorem keyPath_injective : Function.Injective Catalogs.keyPath := by
  intro name other h
  have h := congrArg String.toList h
  simp only [Catalogs.keyPath, String.toList_append, List.append_assoc,
    List.append_cancel_left_eq] at h
  exact String.toList_inj.mp (List.append_cancel_right h)

/-- The two files of a certificate are no other certificate's. -/
theorem path_eq_iff {half other : Half} {name given : List Char} :
    Reference.path ⟨half, name⟩ = Reference.path ⟨other, given⟩ ↔ half = other ∧ name = given := by
  constructor
  · intro h
    cases half with
    | cert =>
      cases other with
      | cert => exact ⟨rfl, String.ofList_injective (certificatePath_injective h)⟩
      | key => exact (certificatePath_ne_keyPath _ _ h).elim
    | key =>
      cases other with
      | cert => exact (certificatePath_ne_keyPath _ _ h.symm).elim
      | key => exact ⟨rfl, String.ofList_injective (keyPath_injective h)⟩
  · rintro ⟨rfl, rfl⟩
    rfl

/-- The files of a certificate that is stored as a pair. -/
def filesOf (name : String) (bundle : Bundle) : List (String × String) :=
  [(ClientCertificates.certificatePath name, bundle.certificatePem),
    (ClientCertificates.keyPath name, bundle.privateKeyPem)]

theorem pair_stored (name : String) (bundle : Bundle) :
    pair (name, bundle.stored) = .ok (filesOf name bundle) := rfl

theorem pairs_of_stored {entries : List (String × Json)}
    (h : ∀ entry ∈ entries, ∃ bundle : Bundle, entry.2 = bundle.stored) :
    ∃ pairs, entries.mapM pair = .ok pairs ∧ ∀ entry ∈ entries, ∀ half,
      Reference.path ⟨half, entry.1.toList⟩ ∈ pairs.flatten.map Prod.fst := by
  induction entries with
  | nil => exact ⟨[], rfl, fun _ hentry => (List.not_mem_nil hentry).elim⟩
  | cons entry entries ih =>
    obtain ⟨hfirst, hrest⟩ := List.forall_mem_cons.mp h
    obtain ⟨bundle, hbundle⟩ := hfirst
    obtain ⟨pairs, hpairs, hin⟩ := ih hrest
    obtain ⟨name, _⟩ := entry
    obtain rfl := hbundle
    refine ⟨filesOf name bundle :: pairs, ?_, ?_⟩
    · rw [List.mapM_cons, pair_stored, hpairs]
      rfl
    · intro other hother half
      rw [List.flatten_cons, List.map_append]
      rcases List.mem_cons.mp hother with rfl | hother
      · refine List.mem_append_left _ ?_
        cases half with
        | cert =>
          simp only [Reference.path, String.ofList_toList]
          exact List.mem_cons_self
        | key =>
          simp only [Reference.path, String.ofList_toList]
          exact List.mem_cons_of_mem _ List.mem_cons_self
      · exact List.mem_append_right _ (hin other hother half)

/-- Both files of every staged certificate are rendered. -/
theorem Presentable.rendered {sections : Sections} (h : Presentable sections) :
    ∃ files, render (sections .clientCertificates) = .ok files ∧
      ∀ name ∈ sections .clientCertificates, ∀ half,
        Reference.path ⟨half, name.toList⟩ ∈ files := by
  obtain ⟨pairs, hpairs, hin⟩ := pairs_of_stored fun entry hentry =>
    h.pairs entry.1 entry.2 (Std.ExtTreeMap.mem_toList_iff_getElem?_eq_some.mp hentry)
  refine ⟨.ofList pairs.flatten, ?_, fun name hname half => ?_⟩
  · unfold render
    rw [hpairs]
    rfl
  · obtain ⟨value, hvalue⟩ := Option.isSome_iff_exists.mp
      (Std.ExtTreeMap.mem_iff_isSome_getElem?.mp hname)
    exact Std.ExtTreeMap.mem_ofList.mpr (List.contains_iff_mem.mpr
      (hin (name, value) (Std.ExtTreeMap.mem_toList_iff_getElem?_eq_some.mpr hvalue) half))

/-! ### References are closed -/

theorem notMem_dollar (given : CertificateName) : '$' ∉ given.text.toList := by
  intro hmem
  exact absurd (given.safe '$' hmem) (by decide)

/-- What is put into a Catalog is a file of a certificate the missing check and the in-use check
both read off it. -/
theorem Presentable.put {sections : Sections} (h : Presentable sections) {name path : String}
    {stored : Json} (hstored : (sections .catalogs)[name]? = some stored)
    (hput : Puts stored path) :
    ∃ wanted, referencedBy stored = .ok wanted ∧ ∃ half, ∃ other ∈ wanted,
      path = Reference.path ⟨half, other.toList⟩ := by
  refine hput.referenced fun catalog certificate hcatalog hcertificate => ?_
  obtain ⟨given, rfl⟩ := h.named name stored hstored catalog certificate hcatalog hcertificate
  exact notMem_dollar given

theorem mem_withoutCertificate {sections : Sections} {certificate name : String} :
    name ∈ withoutCertificate sections certificate .clientCertificates ↔
      name ≠ certificate ∧ name ∈ sections .clientCertificates := by
  unfold withoutCertificate
  rw [if_pos rfl, Std.ExtTreeMap.mem_erase]
  refine and_congr (not_congr ?_) Iff.rfl
  rw [Std.LawfulEqCmp.compare_eq_iff_eq]
  exact eq_comm

/-- A Catalog that is wired with one certificate and names another in a token. -/
def linkedCatalog : Json :=
  .obj [("connector", .str "postgresql"),
    ("properties", .obj [("connection-url", .str "jdbc:postgresql://pg/ledger?sslmode=require"),
      ("ssl.root", .str "$\x7bcert:root\x7d")]), ("certificate", .str "reader")]

def linkedSections : Sections
  | .catalogs => (∅ : Resources).insert "ledger" linkedCatalog
  | .clientCertificates => (((∅ : Resources).insert "reader" (Bundle.stored ⟨"c1", "k1"⟩)).insert
      "root" (Bundle.stored ⟨"c2", "k2"⟩)).insert "spare" (Bundle.stored ⟨"c3", "k3"⟩)
  | _ => ∅

theorem linkedSections_presentable : Presentable linkedSections where
  pairs name value hvalue := by
    simp only [linkedSections, Std.ExtTreeMap.getElem?_insert] at hvalue
    split at hvalue
    · exact ⟨_, (Option.some.inj hvalue).symm⟩
    · split at hvalue
      · exact ⟨_, (Option.some.inj hvalue).symm⟩
      · split at hvalue
        · exact ⟨_, (Option.some.inj hvalue).symm⟩
        · simp at hvalue
  named name stored hstored catalog certificate hcatalog hcertificate := by
    simp only [linkedSections, Std.ExtTreeMap.getElem?_insert] at hstored
    split at hstored
    · cases hstored
      cases hcatalog
      cases hcertificate
      exact ⟨⟨"reader", by rintro _ ⟨⟩; decide, List.all_eq_true.mp (by decide), by decide,
        by decide⟩, rfl⟩
    · simp at hstored

end Apchi.Pipeline
