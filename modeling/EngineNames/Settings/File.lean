import EngineNames.Settings.Build
import EngineNames.Settings.SignatureSet

/-!
# Settings files

Settings are read from the bytes of a file, if there is one. The bytes have to be UTF-8.
-/

namespace EngineNames

/-- Why a file gives no text. -/
inductive FileError where
  | missing
  | notUtf8
deriving DecidableEq, Repr

/-- Why a file gives no settings; `ε` is what can be wrong with its text. -/
inductive LoadError (ε : Type) where
  | file (error : FileError)
  | content (error : ε)
deriving DecidableEq, Repr

/-- The text of a file. -/
def fileText (contents : Option ByteArray) : Except FileError String :=
  match contents with
  | none => .error .missing
  | some bytes =>
      match String.fromUTF8? bytes with
      | some text => .ok text
      | none => .error .notUtf8

/-- Reads the contents of a file by a reader of texts. -/
def load {ε α : Type} (parse : String → Except ε α) (contents : Option ByteArray) :
    Except (LoadError ε) α := do
  let text ← (fileText contents).mapError .file
  (parse text).mapError .content

/-- The build settings in a file. -/
def Build.load (contents : Option ByteArray) : Except (LoadError Json.Fault) Build :=
  EngineNames.load Build.ofJson contents

/-- The signatures in a file. -/
def SignatureSet.load (contents : Option ByteArray) :
    Except (LoadError SignatureFileError) SignatureSet :=
  EngineNames.load SignatureSet.ofJson contents

end EngineNames
