import PocketCalculator.Document.Format
import PocketCalculator.Settings.Basic

/-!
# Settings files

A settings file is a document with two sections: `display` with the fields
`number_style` and `error_text`, and `input` with the field `max_length`. Whatever is
missing keeps its default. How a document is read is left to its format.

* `Settings.ofEntries?`: the settings of a document.
* `Settings.ofBytes`: the settings of a file with these bytes, checked.
* `Settings.ofFile`, `Settings.load`: the settings of a file that has to be there, and of one
  that is looked for.
-/

namespace PocketCalculator

open Document (Value Entries)

namespace Settings

/-! ### Documents -/

/-- The keys of the sections. -/
def sectionKeys : List String := ["display", "input"]

/-- The keys of the display section. -/
def displayKeys : List String := ["number_style", "error_text"]

/-- The keys of the entry section. -/
def entryKeys : List String := ["max_length"]

section

variable (F : Document.Format)

/-- A style, by its name. -/
def style? (v : Value) : Option Style :=
  (F.name? [Style.plain.name, Style.grouped.name] v).bind Style.ofName?

/-- The display settings of a section. -/
def displaySettings? (v : Value) : Option DisplaySettings := do
  let style ←
    F.field? displayKeys "number_style" ({} : DisplaySettings).style (style? F) v
  let errorText ←
    F.field? displayKeys "error_text" ({} : DisplaySettings).errorText F.text? v
  return { style, errorText }

/-- The entry settings of a section. -/
def entrySettings? (v : Value) : Option EntrySettings := do
  let maxLength ← F.field? entryKeys "max_length" ({} : EntrySettings).maxLength F.word? v
  return { maxLength }

/-- **The settings of a document**, whose table is a record of the two sections. -/
def ofEntries? (document : Entries) : Option Settings := do
  let display ← F.field? sectionKeys "display" {} (displaySettings? F) (.table .header document)
  let entry ← F.field? sectionKeys "input" {} (entrySettings? F) (.table .header document)
  return { display, entry }

/-- The settings of a document text, which are not checked yet. -/
def ofText? (text : String) : Option Settings := (F.parse? text).bind (ofEntries? F)

/-! ### Files -/

/-- Why bytes that are not UTF-8 cannot be read as text. -/
def notText : String := "stream did not contain valid UTF-8"

/-- **The settings of a file** with these bytes. The first thing wrong is reported: that
it is no text, that it is no settings document, then the rules of settings. -/
def ofBytes (path : String) (bytes : ByteArray) : Except SettingsError Settings :=
  match String.fromUTF8? bytes with
  | none => .error (.unreadable path notText)
  | some text =>
    match ofText? F text with
    | none => .error (.malformed path)
    | some s => s.check

/-- **The settings of a file that has to be there**, from what reading it gives: its bytes, or
the reason why it cannot be read. -/
def ofFile (path : String) (content : Except String ByteArray) : Except SettingsError Settings :=
  match content with
  | .error reason => .error (.unreadable path reason)
  | .ok bytes => ofBytes F path bytes

end

end Settings

/-- **What is seen of a file**: whether it is there, and what reading it gives. The one does not
tell the other, for a file that is there may not be readable. -/
structure FileView where
  isThere : Bool
  content : Except String ByteArray

namespace FileView

/-- A file that is not there. -/
def missing : FileView := ⟨false, .error "No such file or directory (os error 2)"⟩

/-- A file that can be read. -/
def holding (bytes : ByteArray) : FileView := ⟨true, .ok bytes⟩

end FileView

namespace Settings

/-- **The settings of a file that is looked for**: of the file at the given path, or else at the
usual one. If there is no path, or no file is there, the settings are the defaults. -/
def load (F : Document.Format) (disk : String → FileView) (given? usual? : Option String) :
    Except SettingsError Settings :=
  match given?.or usual? with
  | none => .ok {}
  | some path =>
    if (disk path).isThere then ofFile F path (disk path).content else .ok {}

end Settings

end PocketCalculator
