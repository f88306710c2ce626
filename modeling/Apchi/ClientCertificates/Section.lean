import Apchi.Pipeline.Section
import Mathlib.Algebra.Ring.Nat

/-!
# The Client Certificates Section

Two files for each certificate, in one directory the Admin mounts, so adding a certificate adds a
file to a mount that is already there.
-/

namespace Apchi.ClientCertificates

open Lib Pipeline

def MOUNT_DIR : String := "/etc/trino/certs"

def CERTIFICATE_SUFFIX : String := ".crt"

def KEY_SUFFIX : String := ".key"

/-- A name an Operator chooses, and a filename Trino reads. -/
structure CertificateName where
  text : String
  first : ∀ c ∈ text.toList.head?, c.isAlphanum = true
  safe : ∀ c ∈ text.toList, (c.isAlphanum || c == '.' || c == '_' || c == '-') = true
  nonempty : 1 ≤ text.length
  short : text.length ≤ 63

/-- What an archive holds, in the form it is stored: a certificate and its private key. -/
structure Bundle where
  certificatePem : String
  privateKeyPem : String

/-! ### Rendering -/

/-- `certificate_path`. -/
def certificatePath (name : String) : String := MOUNT_DIR ++ "/" ++ name ++ CERTIFICATE_SUFFIX

/-- `key_path`. -/
def keyPath (name : String) : String := MOUNT_DIR ++ "/" ++ name ++ KEY_SUFFIX

/-- `stored[field]`. -/
def half (stored : Json) (field : String) : Except Error String :=
  match stored with
  | .obj fields =>
      match fields.lookup field with
      | some (.str content) => .ok content
      | some _ => .error ⟨"TypeError", field ++ ": expected a text"⟩
      | none => .error ⟨"KeyError", field⟩
  | _ => .error ⟨"TypeError", "expected a mapping"⟩

/-- The two files of one certificate. -/
def pair (entry : String × Json) : Except Error (List (String × String)) := do
  let certificate ← half entry.2 "certificate"
  let key ← half entry.2 "private_key"
  return [(certificatePath entry.1, certificate), (keyPath entry.1, key)]

/-- `render`: every staged certificate, as a pair of files. -/
def render (desired : Resources) : Except Error Dict := do
  let pairs ← desired.toList.mapM pair
  return .ofList pairs.flatten

/-- `rendered_size`. -/
def renderedSize (desired : Resources) : Except Error Nat := do
  let files ← render desired
  return (files.toList.map fun file => file.2.utf8ByteSize).sum

/-! ### Staging -/

/-- A certificate as it is stored. -/
def Bundle.stored (bundle : Bundle) : Json :=
  .obj [("certificate", .str bundle.certificatePem), ("private_key", .str bundle.privateKeyPem)]

/-- `store_certificate`: upload, or replace under the same name. -/
def storeCertificate (stored : Resources) (name : CertificateName) (bundle : Bundle)
    (settings : Settings) : Except Refusal Resources :=
  match renderedSize (stored.insert name.text bundle.stored) with
  | .error e => .error { kind := e.kind, message := e.text }
  | .ok size =>
      if settings.clientCertificateMaxBytes < size then
        .error ⟨"UnprocessablePayload", "Storing '" ++ name.text ++
            s!"' would take the client certificate Secret to {size} bytes, " ++
            s!"past the {settings.clientCertificateMaxBytes} a Kubernetes Secret may hold. " ++
            "Remove a certificate that is no longer used, or split this Cluster's certificates " ++
            "across Clusters.",
          [("archive", "the Secret would be too large")]⟩
      else .ok (stored.insert name.text bundle.stored)

/-- `delete_certificate`. -/
def deleteCertificate (stored : Resources) (name : String) : Except Refusal Resources :=
  if name ∈ stored then .ok (stored.erase name)
  else .error ⟨"NotFound", "No client certificate named '" ++ name ++
    "' in the Configuration Candidate.", []⟩

/-- What any sequence of operations leads to. -/
inductive Staged (settings : Settings) : Resources → Prop where
  | empty : Staged settings ∅
  | store {stored resources : Resources} {name : CertificateName} {bundle : Bundle}
      (h : Staged settings stored)
      (hstore : storeCertificate stored name bundle settings = .ok resources) :
      Staged settings resources
  | delete {stored resources : Resources} {name : String} (h : Staged settings stored)
      (hdelete : deleteCertificate stored name = .ok resources) : Staged settings resources

/-! ### The Section -/

/-- `coordinator_files`: one directory. -/
def coordinatorFiles (settings : Settings) : List Delivery :=
  [.directory settings.clientCertificateSecretName MOUNT_DIR]

/-- `plan`. -/
def plan (desired current : Resources) : SectionPlan where
  added := desired.keys.filter fun name => name ∉ current
  changed := desired.keys.filter fun name => name ∈ current ∧ desired[name]? ≠ current[name]?
  removed := current.keys.filter fun name => name ∉ desired

/-- The Client Certificates Section as the pipeline sees it. -/
def clientCertificatesSection : Section :=
  .ofFiles .clientCertificates false coordinatorFiles (fun desired _ _ => render desired) plan

/-! ### What is staged renders -/

/-- What the operations lead to: pairs under the names Operators may choose. -/
theorem Staged.pairs {settings : Settings} {stored : Resources} (h : Staged settings stored) :
    ∀ name value, stored[name]? = some value →
      (∃ given : CertificateName, given.text = name) ∧ ∃ bundle : Bundle, value = bundle.stored := by
  induction h with
  | empty => intro name value hvalue; simp at hvalue
  | @store stored resources given bundle _ hstore ih =>
    unfold storeCertificate at hstore
    split at hstore
    · cases hstore
    · split at hstore
      · cases hstore
      · cases hstore
        intro name value hvalue
        rw [Std.ExtTreeMap.getElem?_insert] at hvalue
        split at hvalue
        · next hname =>
          cases hvalue
          exact ⟨⟨given, Std.LawfulEqCmp.eq_of_compare hname⟩, bundle, rfl⟩
        · exact ih name value hvalue
  | @delete stored resources gone _ hdelete ih =>
    unfold deleteCertificate at hdelete
    split at hdelete
    · cases hdelete
      intro name value hvalue
      rw [Std.ExtTreeMap.getElem?_erase] at hvalue
      split at hvalue
      · cases hvalue
      · exact ih name value hvalue
    · cases hdelete

end Apchi.ClientCertificates
