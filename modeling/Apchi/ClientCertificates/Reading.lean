import Apchi.ClientCertificates.Section
import Apchi.Lib.Codec
import Apchi.Pipeline.Parsing
import Mathlib.Data.List.DropRight

/-!
# Reading client certificates back from their directory

A certificate is a pair of files.  PairHalf of a pair is reported, and a key that is alone is reported
without what it holds.
-/

namespace Apchi.ClientCertificates

open Lib Pipeline

/-- The two halves of a pair. -/
inductive PairHalf where
  | certificate
  | privateKey
  deriving DecidableEq, Repr

/-- A text without this many characters at its end. -/
def dropLast (text : List Char) (suffix : String) : String := .ofList (text.rdrop suffix.length)

/-- `name_of`: the certificate a path belongs to, and which half of the pair it is. -/
def nameOf (path : String) : Option (String × PairHalf) :=
  let above := (MOUNT_DIR ++ "/").toList
  if above.isPrefixOf path.toList then
    let filename := path.toList.drop above.length
    if CERTIFICATE_SUFFIX.toList.isSuffixOf filename then
      some (dropLast filename CERTIFICATE_SUFFIX, .certificate)
    else if KEY_SUFFIX.toList.isSuffixOf filename then
      some (dropLast filename KEY_SUFFIX, .privateKey)
    else none
  else none

/-- `CERTIFICATE_NAME`. -/
def isName (text : String) : Bool :=
  text.toList.head?.any Char.isAlphanum && text.length ≤ 63 &&
    text.toList.all fun c => c.isAlphanum || c == '.' || c == '_' || c == '-'

/-- What is there of one certificate. -/
structure Halves where
  certificate : Option String := none
  privateKey : Option String := none

def Halves.put (halves : Halves) (content : String) : PairHalf → Halves
  | .certificate => { halves with certificate := some content }
  | .privateKey => { halves with privateKey := some content }

/-- What has been read so far, before the pairs are looked at. -/
structure Reading where
  halves : Std.ExtTreeMap String Halves := ∅
  unaccounted : List Unaccounted := []

/-- Takes in one file. -/
def takeFile (reading : Reading) (file : String × String) : Reading :=
  match nameOf file.1 with
  | none => { reading with
      unaccounted := reading.unaccounted ++
        [⟨file.1, "a file in the certificate directory Apchi does not own", .null⟩] }
  | some (name, half) =>
      if isName name then
        { reading with
          halves := reading.halves.insert name
            ((reading.halves[name]?.getD {}).put file.2 half) }
      else { reading with
        unaccounted := reading.unaccounted ++
          [⟨file.1, s!"'{name}' is not a name Apchi can hold", .null⟩] }

/-- Takes in what there is of one certificate. -/
def takePair (parsed : Parsed) (found : String × Halves) : Parsed :=
  match found.2.certificate, found.2.privateKey with
  | none, _ => { parsed with
      unaccounted := parsed.unaccounted ++
        [⟨keyPath found.1, s!"'{found.1}' has a private key and no certificate", .null⟩] }
  | some _, none => { parsed with
      unaccounted := parsed.unaccounted ++
        [⟨certificatePath found.1, s!"'{found.1}' has a certificate and no private key", .null⟩] }
  | some certificate, some privateKey => { parsed with
      resources := parsed.resources.insert found.1 (Bundle.stored ⟨certificate, privateKey⟩) }

/-- `parse`, and `parse_files` with it. -/
def parse (files : Dict) : Parsed :=
  let reading := files.toList.foldl takeFile {}
  reading.halves.toList.foldl takePair { unaccounted := reading.unaccounted }

/-! ### What is read renders -/

/-- Everything that is read is a pair. -/
theorem parse_stored (files : Dict) : ∀ (name : String) (value : Json),
    (parse files).resources[name]? = some value →
      ∃ bundle : Bundle, value = bundle.stored := by
  unfold parse
  dsimp only
  generalize (files.toList.foldl takeFile {}).halves.toList = found
  have hnone : ∀ (name : String) (value : Json),
      (({ unaccounted := (files.toList.foldl takeFile {}).unaccounted } : Parsed).resources)[name]? =
        some value → ∃ bundle : Bundle, value = bundle.stored := by simp
  generalize ({ unaccounted := (files.toList.foldl takeFile {}).unaccounted } : Parsed) = parsed
    at hnone ⊢
  induction found generalizing parsed with
  | nil => exact hnone
  | cons entry rest ih =>
    refine ih _ fun name value hvalue => ?_
    unfold takePair at hvalue
    split at hvalue
    · exact hnone name value hvalue
    · exact hnone name value hvalue
    · next certificate privateKey _ _ =>
      rw [Std.ExtTreeMap.getElem?_insert] at hvalue
      split at hvalue
      · exact ⟨⟨certificate, privateKey⟩, (Option.some.inj hvalue).symm⟩
      · exact hnone name value hvalue

/-- Pairs can be written. -/
theorem render_ok {stored : Resources}
    (h : ∀ (name : String) (value : Json), stored[name]? = some value →
      ∃ bundle : Bundle, value = bundle.stored) : ∃ files, render stored = .ok files := by
  have hpairs : ∃ pairs, stored.toList.mapM pair = .ok pairs := by
    refine mapM_ok fun entry hentry => ?_
    obtain ⟨bundle, hbundle⟩ :=
      h entry.1 entry.2 (Std.ExtTreeMap.mem_toList_iff_getElem?_eq_some.mp hentry)
    unfold pair
    rw [hbundle]
    exact ⟨_, rfl⟩
  obtain ⟨pairs, hpairs⟩ := hpairs
  unfold render
  rw [hpairs]
  exact ⟨_, rfl⟩

end Apchi.ClientCertificates
