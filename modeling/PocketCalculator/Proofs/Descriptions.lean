import PocketCalculator.Proofs.Formats
import PocketCalculator.Settings.File
import Mathlib.Logic.Relation

/-!
# What a document describes

Every field of the settings is what the document gives it, by its key or by its place in the section, or
else its default. Nothing else in the document counts: not where the key stands, not what the other fields
are, not what other keys there are. Only, the sections have to be values with fields, and the numbers
outside the fields have to be such that they can be used. This holds in every lawful format.

* `Field`, `Given`: what a document gives a field.
* `IsSettings`, `Describes`: the settings that a document describes.
* `ofEntries?_eq_some_iff`: the settings of a document are those that it describes.
* `Reworded`, `describes_iff_of_reworded`: what does not count.
-/

namespace PocketCalculator.Settings

open Document (Value Entries Introduction Gives IsField IsName IsSection gives_table_iff isField_congr
  isField_of_given isField_of_missing isSection_table_iff)

/-! ### Fields of a document -/

/-- The fields of the settings. -/
inductive Field where
  | style
  | errorText
  | maxLength
  deriving DecidableEq, Repr

namespace Field

/-- The key of the section with the field. -/
def sectionKey : Field → String
  | style | errorText => "display"
  | maxLength => "input"

/-- The key of the field in its section. -/
def key : Field → String
  | style => "number_style"
  | errorText => "error_text"
  | maxLength => "max_length"

/-- The place of the field in a section that is an array. -/
def place : Field → Nat
  | style | maxLength => 0
  | errorText => 1

/-- The keys of all fields of the section. -/
def keys : Field → List String
  | style | errorText => displayKeys
  | maxLength => entryKeys

theorem sectionKey_mem (f : Field) : f.sectionKey ∈ sectionKeys := by cases f <;> decide

theorem key_mem (f : Field) : f.key ∈ f.keys := by cases f <;> decide

/-- Fields with one section are fields of the same keys. -/
theorem keys_eq {f g : Field} (h : f.sectionKey = g.sectionKey) : f.keys = g.keys := by
  have hall : ∀ f g : Field, f.sectionKey = g.sectionKey → f.keys = g.keys := by
    intro f g
    cases f <;> cases g <;> decide
  exact hall f g h

end Field

/-- **What a document gives a field**, in its section. -/
def Given (document : Entries) (f : Field) (v : Value) : Prop :=
  ∃ held, (f.sectionKey, held) ∈ document ∧ Gives f.key f.place held v

/-! ### What a document describes -/

/-- The values that mean a style: its name. -/
def MeansStyle (v : Value) (style : Style) : Prop := IsName v style.name

/-- The values that mean a text. -/
def MeansText (v : Value) (s : String) : Prop := v = .text s

/-- The values that mean a length. -/
def MeansLength (v : Value) (n : UInt64) : Prop := v = .integer n.toNat

/-- **Settings documents** are those whose sections, where they are given, are of the right type, which is
one with fields. What stands with other keys may be of any type, only that a number too large for every
type is a fault of the text itself. -/
structure IsSettings (document : Entries) : Prop where
  sections : IsSection sectionKeys (.table .header document)
  fields : ∀ (f : Field) held, (f.sectionKey, held) ∈ document → IsSection f.keys held

/-- **The settings that a document describes**, field by field. -/
structure Describes (document : Entries) (s : Settings) : Prop where
  isSettings : IsSettings document
  style : IsField (Given document .style) MeansStyle .plain s.display.style
  errorText : IsField (Given document .errorText) MeansText "Error" s.display.errorText
  maxLength : IsField (Given document .maxLength) MeansLength 256 s.entry.maxLength

/-! ### The settings of a document -/

section Documents

variable {F : Document.Format} {document : Entries} {held v : Value} {d : DisplaySettings}
  {e : EntrySettings} {s : Settings}

theorem style?_eq_some_iff (hF : F.Lawful) {style : Style} :
    style? F v = some style ↔ MeansStyle v style := by
  unfold style? MeansStyle
  rw [Option.bind_eq_some_iff]
  constructor
  · rintro ⟨name, hname, hstyle⟩
    rw [Style.name_of_ofName? hstyle]
    exact (hF.name.1 hname).2
  · intro h
    refine ⟨style.name, hF.name.2 ⟨?_, h⟩, Style.ofName?_name style⟩
    cases style <;> decide

/-- **The display settings** of a section, field by field. -/
theorem displaySettings?_eq_some_iff (hF : F.Lawful) (hheld : held.Distinct) :
    displaySettings? F held = some d ↔ IsSection displayKeys held ∧
      IsField (Gives Field.style.key Field.style.place held) MeansStyle .plain d.style ∧
      IsField (Gives Field.errorText.key Field.errorText.place held) MeansText "Error" d.errorText := by
  have hkeys : displayKeys.Nodup := by decide
  have hstyle : F.field? displayKeys "number_style" .plain (style? F) held = some d.style ↔
      IsSection displayKeys held ∧
        IsField (Gives Field.style.key Field.style.place held) MeansStyle .plain d.style :=
    hF.field?_eq_some_iff hkeys rfl (fun _ => style?_eq_some_iff hF) hheld
  have herrorText : F.field? displayKeys "error_text" "Error" F.text? held = some d.errorText ↔
      IsSection displayKeys held ∧
        IsField (Gives Field.errorText.key Field.errorText.place held) MeansText "Error" d.errorText :=
    hF.field?_eq_some_iff hkeys rfl (fun _ => hF.text) hheld
  rw [and_and_left, ← hstyle, ← herrorText]
  obtain ⟨style, errorText⟩ := d
  simp [displaySettings?, Option.bind_eq_some_iff]

/-- **The entry settings** of a section. -/
theorem entrySettings?_eq_some_iff (hF : F.Lawful) (hheld : held.Distinct) :
    entrySettings? F held = some e ↔ IsSection entryKeys held ∧
      IsField (Gives Field.maxLength.key Field.maxLength.place held) MeansLength 256 e.maxLength := by
  have hmaxLength : F.field? entryKeys "max_length" 256 F.word? held = some e.maxLength ↔
      IsSection entryKeys held ∧
        IsField (Gives Field.maxLength.key Field.maxLength.place held) MeansLength 256 e.maxLength :=
    hF.field?_eq_some_iff (by decide) rfl (fun _ => hF.word) hheld
  rw [← hmaxLength]
  obtain ⟨maxLength⟩ := e
  simp [entrySettings?, Option.bind_eq_some_iff]

/-- What a document gives a field is what its section gives it. -/
theorem given_iff_gives (hdocument : document.Distinct) (f : Field)
    (hheld : (f.sectionKey, held) ∈ document) (v : Value) :
    Given document f v ↔ Gives f.key f.place held v := by
  have honly := Document.Entries.mem_iff_eq hdocument.keys hheld
  simp [Given, honly]

theorem not_given {f : Field} (h : ∀ held, (f.sectionKey, held) ∉ document) (v : Value) :
    ¬ Given document f v :=
  fun ⟨held, hheld, _⟩ => h held hheld

/-- **A section that may be missing** has fields if it is given, and what it is read as has a property
that its default has too. -/
theorem isField_section_iff {α : Type} {key : String} {keys : List String} {read? : Value → Option α}
    {default x : α} {P : Prop} (hdocument : document.Distinct)
    (hgiven : ∀ held, (key, held) ∈ document → (read? held = some x ↔ IsSection keys held ∧ P))
    (hmissing : (∀ held, (key, held) ∉ document) → (x = default ↔ P)) :
    IsField (fun v => (key, v) ∈ document) (fun v x => read? v = some x) default x ↔
      (∀ held, (key, held) ∈ document → IsSection keys held) ∧ P := by
  by_cases hsection : ∃ held, (key, held) ∈ document
  · obtain ⟨held, hheld⟩ := hsection
    have honly := Document.Entries.mem_iff_eq hdocument.keys hheld
    rw [isField_of_given honly, hgiven held hheld]
    simp [honly]
  · rw [not_exists] at hsection
    rw [isField_of_missing hsection, hmissing hsection]
    simp [hsection]

/-- **The display settings** of a document. -/
theorem isField_display_iff (hF : F.Lawful) (hdocument : document.Distinct) :
    IsField (fun v => ("display", v) ∈ document) (fun v d => displaySettings? F v = some d) {} d ↔
      (∀ held, ("display", held) ∈ document → IsSection displayKeys held) ∧
      IsField (Given document .style) MeansStyle .plain d.style ∧
      IsField (Given document .errorText) MeansText "Error" d.errorText := by
  refine isField_section_iff hdocument (fun held hheld => ?_) fun hnone => ?_
  · rw [displaySettings?_eq_some_iff hF (hdocument.values _ hheld),
      isField_congr (given_iff_gives hdocument .style hheld),
      isField_congr (given_iff_gives hdocument .errorText hheld)]
  · -- none of the fields is given, and the default is made of theirs
    rw [isField_of_missing (not_given hnone), isField_of_missing (not_given hnone)]
    obtain ⟨style, errorText⟩ := d
    simp

/-- **The entry settings** of a document. -/
theorem isField_entry_iff (hF : F.Lawful) (hdocument : document.Distinct) :
    IsField (fun v => ("input", v) ∈ document) (fun v e => entrySettings? F v = some e) {} e ↔
      (∀ held, ("input", held) ∈ document → IsSection entryKeys held) ∧
      IsField (Given document .maxLength) MeansLength 256 e.maxLength := by
  refine isField_section_iff hdocument (fun held hheld => ?_) fun hnone => ?_
  · rw [entrySettings?_eq_some_iff hF (hdocument.values _ hheld),
      isField_congr (given_iff_gives hdocument .maxLength hheld)]
  · rw [isField_of_missing (not_given hnone)]
    obtain ⟨maxLength⟩ := e
    simp

/-- **The settings of a document** are those that it describes. -/
theorem ofEntries?_eq_some_iff (hF : F.Lawful) (hdocument : document.Distinct) :
    ofEntries? F document = some s ↔ Describes document s := by
  have hkeys : sectionKeys.Nodup := by decide
  have htable : (Value.table .header document).Distinct := Value.distinct_table_iff.2 hdocument
  have hdisplay : F.field? sectionKeys "display" {} (displaySettings? F) (.table .header document) =
        some s.display ↔
      IsSection sectionKeys (.table .header document) ∧
        IsField (Gives "display" 0 (.table .header document))
          (fun v d => displaySettings? F v = some d) {} s.display :=
    hF.field?_eq_some_iff hkeys rfl (fun _ => .rfl) htable
  have hentry : F.field? sectionKeys "input" {} (entrySettings? F) (.table .header document) =
        some s.entry ↔
      IsSection sectionKeys (.table .header document) ∧
        IsField (Gives "input" 1 (.table .header document))
          (fun v e => entrySettings? F v = some e) {} s.entry :=
    hF.field?_eq_some_iff hkeys rfl (fun _ => .rfl) htable
  rw [isField_congr fun _ => gives_table_iff, isField_display_iff hF hdocument] at hdisplay
  rw [isField_congr fun _ => gives_table_iff, isField_entry_iff hF hdocument] at hentry
  have hboth : ofEntries? F document = some s ↔
      F.field? sectionKeys "display" {} (displaySettings? F) (.table .header document) =
        some s.display ∧
      F.field? sectionKeys "input" {} (entrySettings? F) (.table .header document) = some s.entry := by
    obtain ⟨display, entry⟩ := s
    simp [ofEntries?, Option.bind_eq_some_iff]
  rw [hboth, hdisplay, hentry]
  constructor
  · rintro ⟨⟨hsections, hdisplay, hstyle, herrorText⟩, -, hentry, hmaxLength⟩
    refine ⟨⟨hsections, fun f held hheld => ?_⟩, hstyle, herrorText, hmaxLength⟩
    cases f with
    | style | errorText => exact hdisplay held hheld
    | maxLength => exact hentry held hheld
  · rintro ⟨⟨hsections, hfields⟩, hstyle, herrorText, hmaxLength⟩
    exact ⟨⟨hsections, hfields .style, hstyle, herrorText⟩, hsections, hfields .maxLength, hmaxLength⟩

end Documents

/-! ### What does not count -/

/-- **One change of a document that does not count**: another order of the sections, or of the keys in a
section, however the section is introduced, and a pair beside them whose value can be read. -/
inductive Reworded : Entries → Entries → Prop
  | order {document other : Entries} (h : document.Perm other) : Reworded document other
  | beside {document : Entries} {key : String} {v : Value} (hkey : key ∉ sectionKeys)
      (hv : v.isReadable = true) : Reworded document ((key, v) :: document)
  | sectionOrder (f : Field) {front back entries entries' : Entries} {introduced introduced' : Introduction}
      (h : entries.Perm entries') :
      Reworded (front ++ (f.sectionKey, .table introduced entries) :: back)
        (front ++ (f.sectionKey, .table introduced' entries') :: back)
  | sectionBeside (f : Field) {front back entries : Entries} {introduced : Introduction} {key : String}
      {v : Value} (hkey : key ∉ f.keys) (hv : v.isReadable = true) :
      Reworded (front ++ (f.sectionKey, .table introduced entries) :: back)
        (front ++ (f.sectionKey, .table introduced ((key, v) :: entries)) :: back)

/-- Documents that give every field the same values. -/
structure SameFields (document other : Entries) : Prop where
  isSettings : IsSettings document ↔ IsSettings other
  given : ∀ f v, Given document f v ↔ Given other f v

section Rewording

variable {document other front back : Entries} {f g : Field} {s : Settings} {v w x : Value}

theorem isSettings_iff : IsSettings document ↔ IsSection sectionKeys (.table .header document) ∧
    ∀ (f : Field) held, (f.sectionKey, held) ∈ document → IsSection f.keys held :=
  ⟨fun h => ⟨h.sections, h.fields⟩, fun h => ⟨h.1, h.2⟩⟩

/-- The other pairs of a document with a section. -/
theorem mem_section_iff {key : String} {held : Value} :
    (key, held) ∈ front ++ (f.sectionKey, v) :: back ↔
      (key, held) ∈ front ++ back ∨ key = f.sectionKey ∧ held = v := by
  simp only [List.mem_append, List.mem_cons, Prod.mk.injEq]
  tauto

/-- A section may be replaced by one that has fields too. -/
theorem isSettings_replace (hsection : IsSection f.keys v → IsSection f.keys w)
    (h : IsSettings (front ++ (f.sectionKey, v) :: back)) :
    IsSettings (front ++ (f.sectionKey, w) :: back) := by
  constructor
  · refine .table fun e he hkey => ?_
    rcases mem_section_iff.1 he with he | ⟨heq, -⟩
    · exact isSection_table_iff.1 h.sections e (mem_section_iff.2 (.inl he)) hkey
    · rw [heq] at hkey
      exact absurd f.sectionKey_mem hkey
  · intro g held hheld
    rcases mem_section_iff.1 hheld with hheld | ⟨heq, rfl⟩
    · exact h.fields g held (mem_section_iff.2 (.inl hheld))
    · rw [Field.keys_eq heq]
      exact hsection (h.fields f v (mem_section_iff.2 (.inr ⟨rfl, rfl⟩)))

/-- A section may be replaced by one that gives a field the same. -/
theorem given_replace
    (hgives : g.sectionKey = f.sectionKey → Gives g.key g.place v x → Gives g.key g.place w x)
    (h : Given (front ++ (f.sectionKey, v) :: back) g x) :
    Given (front ++ (f.sectionKey, w) :: back) g x := by
  obtain ⟨held, hheld, hx⟩ := h
  rcases mem_section_iff.1 hheld with hheld | ⟨heq, rfl⟩
  · exact ⟨held, mem_section_iff.2 (.inl hheld), hx⟩
  · exact ⟨w, mem_section_iff.2 (.inr ⟨heq, rfl⟩), hgives heq hx⟩

/-- A section in the place of one that gives its fields the same. -/
theorem sameFields_replace (hsection : IsSection f.keys v ↔ IsSection f.keys w)
    (hgives : ∀ g : Field, g.sectionKey = f.sectionKey →
      ∀ x, Gives g.key g.place v x ↔ Gives g.key g.place w x) :
    SameFields (front ++ (f.sectionKey, v) :: back) (front ++ (f.sectionKey, w) :: back) where
  isSettings := ⟨isSettings_replace hsection.1, isSettings_replace hsection.2⟩
  given g x := ⟨given_replace fun h => (hgives g h x).1, given_replace fun h => (hgives g h x).2⟩

/-- **A change that does not count** leaves the fields as they are. -/
theorem Reworded.sameFields (h : Reworded document other) : SameFields document other := by
  cases h with
  | order h =>
    constructor
    · simp only [isSettings_iff, isSection_table_iff, h.mem_iff]
    · simp only [Given, h.mem_iff, implies_true]
  | @beside _ key v hkey hv =>
    have hne (f : Field) : f.sectionKey ≠ key := fun heq => hkey (heq ▸ f.sectionKey_mem)
    constructor
    · simp [isSettings_iff, isSection_table_iff, hne, hv]
    · simp [Given, hne]
  | sectionOrder f h =>
    refine sameFields_replace ?_ fun g _ x => ?_
    · simp only [isSection_table_iff, h.mem_iff]
    · simp only [gives_table_iff, h.mem_iff]
  | @sectionBeside f _ _ _ _ key v hkey hv =>
    refine sameFields_replace ?_ fun g hg x => ?_
    · simp [isSection_table_iff, hv]
    · -- a field of this section has one of its keys
      have hne : g.key ≠ key := by
        rintro rfl
        exact hkey (Field.keys_eq hg ▸ g.key_mem)
      simp [gives_table_iff, hne]

theorem SameFields.describes_iff (h : SameFields document other) :
    Describes document s ↔ Describes other s := by
  constructor
  · intro hs
    exact ⟨h.isSettings.1 hs.isSettings, (isField_congr (h.given _)).1 hs.style,
      (isField_congr (h.given _)).1 hs.errorText, (isField_congr (h.given _)).1 hs.maxLength⟩
  · intro hs
    exact ⟨h.isSettings.2 hs.isSettings, (isField_congr (h.given _)).2 hs.style,
      (isField_congr (h.given _)).2 hs.errorText, (isField_congr (h.given _)).2 hs.maxLength⟩

/-- **Rewording**, change after change and back again, leaves the settings as they are. -/
theorem describes_iff_of_reworded (h : Relation.EqvGen Reworded document other) :
    Describes document s ↔ Describes other s := by
  induction h with
  | rel _ _ h => exact h.sameFields.describes_iff
  | refl _ => rfl
  | symm _ _ _ ih => exact ih.symm
  | trans _ _ _ _ _ ih ih' => exact ih.trans ih'

end Rewording

end PocketCalculator.Settings
