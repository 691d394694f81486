import SenderPolicy.Config.Setting
import SenderPolicy.Toml.Document

/-!
# Configuration files

A configuration is read from a TOML document. A file that is named has to be there; the files
that are looked for without being named may be missing, and then nothing is set. A file that is
there has to be read.

## Main definitions

* `Config.ofText`: the configuration of a document
* `Config.ofFile`: the configuration of a named file
* `Config.ofUsualFiles`: the configuration of the first file that is there
-/

namespace SenderPolicy.Config

/-- The configuration of a document. -/
def ofText (text : String) : Except ConfigError Config :=
  match Toml.read text >>= ofSetting .document with
  | some config => config.validate
  | none => .error .malformed

/-- The configuration of a named file with this content, if it can be read. -/
def ofFile : Except FileFault String → Except ConfigError Config
  | .ok text => ofText text
  | .error fault => .error (.unreadable fault)

/-- The name stands for something. -/
def isThere : Except FileFault String → Bool
  | .ok _ => true
  | .error fault => !fault.isAbsence

/-- The configuration of the first of some files that is there. -/
def ofUsualFiles (files : List (Except FileFault String)) : Except ConfigError Config :=
  match files.find? isThere with
  | some file => ofFile file
  | none => .ok standard

end SenderPolicy.Config
