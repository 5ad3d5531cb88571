import PocketCalculator.Command.Run
import PocketCalculator.Proofs.Descriptions
import PocketCalculator.Proofs.Encoding
import PocketCalculator.Proofs.LawfulToml

/-!
# What a settings file gives

A settings file gives settings if it can be read, it is a text, the text is a settings document, and the
settings that the document describes keep the rules. Of what is wrong, the first is reported. No command
runs under settings that do not keep the rules. All of this holds in every lawful format.

* `DescribedBy`, `FileGives`: what a file gives.
* `ofFile_eq_iff`: every file gives just that.
* `ofFile_of_reworded`: what does not count in a file.
* `run_checked`: what commands run under.
* `files_checked`: settings files, and what runs under them.
-/

namespace PocketCalculator.Settings

open Document (Entries Format toml)

variable {F : Format} {path text : String} {bytes : ByteArray} {content : Except String ByteArray}
  {s : Settings}

/-- The settings that a text describes. -/
def DescribedBy (F : Format) (text : String) (s : Settings) : Prop :=
  ∃ document, F.parse? text = some document ∧ Describes document s

theorem ofText?_eq_some_iff (hF : F.Lawful) : ofText? F text = some s ↔ DescribedBy F text s := by
  unfold ofText?
  rw [Option.bind_eq_some_iff]
  constructor
  · rintro ⟨document, hdocument, hs⟩
    exact ⟨document, hdocument, (ofEntries?_eq_some_iff hF (hF.distinct hdocument)).1 hs⟩
  · rintro ⟨document, hdocument, hs⟩
    exact ⟨document, hdocument, (ofEntries?_eq_some_iff hF (hF.distinct hdocument)).2 hs⟩

/-- **What a file gives**: the first thing that is wrong with it, or else its settings. -/
inductive FileGives (F : Format) (path : String) (content : Except String ByteArray) :
    Except SettingsError Settings → Prop
  | unreadable {reason : String} (h : content = .error reason) :
      FileGives F path content (.error (.unreadable path reason))
  | noText {bytes : ByteArray} (hbytes : content = .ok bytes) (h : ∀ text : String, text.toUTF8 ≠ bytes) :
      FileGives F path content (.error (.unreadable path notText))
  | malformed {text : String} (htext : content = .ok text.toUTF8) (h : ∀ s, ¬ DescribedBy F text s) :
      FileGives F path content (.error (.malformed path))
  | noLength {text : String} {s : Settings} (htext : content = .ok text.toUTF8)
      (hs : DescribedBy F text s) (h : s.entry.maxLength = 0) :
      FileGives F path content (.error .noLength)
  | noErrorText {text : String} {s : Settings} (htext : content = .ok text.toUTF8)
      (hs : DescribedBy F text s) (hlength : 0 < s.entry.maxLength) (h : s.display.errorText = "") :
      FileGives F path content (.error .noErrorText)
  | settings {text : String} {s : Settings} (htext : content = .ok text.toUTF8)
      (hs : DescribedBy F text s) (hlength : 0 < s.entry.maxLength)
      (herrorText : s.display.errorText ≠ "") : FileGives F path content (.ok s)

theorem ofFile_of_text :
    ofFile F path (.ok text.toUTF8) = (ofText? F text).elim (.error (.malformed path)) check := by
  rw [ofFile, ofBytes, Command.fromUTF8?_eq_some_iff.2 rfl]
  cases hs : ofText? F text with
  | none => simp only [hs, Option.elim_none]
  | some s => simp only [hs, Option.elim_some]

theorem ofFile_of_describedBy (hF : F.Lawful) (hs : DescribedBy F text s) :
    ofFile F path (.ok text.toUTF8) = s.check := by
  rw [ofFile_of_text, (ofText?_eq_some_iff hF).2 hs, Option.elim_some]

/-- What is wrong with the described settings, if anything is. -/
theorem fileGives_check (htext : content = .ok text.toUTF8) (hs : DescribedBy F text s) :
    FileGives F path content s.check := by
  unfold check
  by_cases hlength : s.entry.maxLength = 0
  · rw [if_pos hlength]
    exact .noLength htext hs hlength
  rw [if_neg hlength]
  have hpos : 0 < s.entry.maxLength := UInt64.pos_iff_ne_zero.2 hlength
  by_cases herrorText : s.display.errorText.isEmpty = true
  · rw [if_pos herrorText]
    exact .noErrorText htext hs hpos (String.isEmpty_iff.1 herrorText)
  · rw [if_neg herrorText]
    exact .settings htext hs hpos fun h => herrorText (String.isEmpty_iff.2 h)

theorem fileGives_ofFile (hF : F.Lawful) : FileGives F path content (ofFile F path content) := by
  cases content with
  | error reason => exact .unreadable rfl
  | ok bytes =>
    cases hread : String.fromUTF8? bytes with
    | none =>
      rw [ofFile, ofBytes, hread]
      exact .noText rfl (Command.fromUTF8?_eq_none_iff.1 hread)
    | some text =>
      obtain rfl : text.toUTF8 = bytes := Command.fromUTF8?_eq_some_iff.1 hread
      cases hdescribed : ofText? F text with
      | none =>
        rw [ofFile_of_text, hdescribed, Option.elim_none]
        refine .malformed rfl fun s hs => ?_
        rw [(ofText?_eq_some_iff hF).2 hs] at hdescribed
        cases hdescribed
      | some s =>
        have hs := (ofText?_eq_some_iff hF).1 hdescribed
        rw [ofFile_of_describedBy hF hs]
        exact fileGives_check rfl hs

/-- **Every file** gives one result, which is the one that is described. -/
theorem ofFile_eq_iff (hF : F.Lawful) {result : Except SettingsError Settings} :
    ofFile F path content = result ↔ FileGives F path content result := by
  constructor
  · rintro rfl
    exact fileGives_ofFile hF
  · intro h
    cases h with
    | unreadable h => rw [h, ofFile]
    | noText hbytes h => rw [hbytes, ofFile, ofBytes, Command.fromUTF8?_eq_none_iff.2 h]
    | @malformed text htext h =>
      have hnone : ofText? F text = none :=
        Option.eq_none_iff_forall_ne_some.2 fun s hs => h s ((ofText?_eq_some_iff hF).1 hs)
      rw [htext, ofFile_of_text, hnone, Option.elim_none]
    | noLength htext hs h => rw [htext, ofFile_of_describedBy hF hs, check, if_pos h]
    | noErrorText htext hs hlength h =>
      rw [htext, ofFile_of_describedBy hF hs, check, if_neg (UInt64.pos_iff_ne_zero.1 hlength),
        if_pos (String.isEmpty_iff.2 h)]
    | settings htext hs hlength herrorText =>
      rw [htext, ofFile_of_describedBy hF hs, check_eq_ok_iff]
      exact ⟨rfl, UInt64.pos_iff_ne_zero.1 hlength, by simpa using herrorText⟩

/-- Settings of a file keep the rules. -/
theorem check_of_ofFile (hF : F.Lawful) (h : ofFile F path content = .ok s) : s.check = .ok s := by
  cases (ofFile_eq_iff hF).1 h with
  | settings htext hs hlength herrorText =>
    exact check_eq_ok_iff.2 ⟨rfl, UInt64.pos_iff_ne_zero.1 hlength, by simpa using herrorText⟩

/-- **What does not count in a file**: the order of its keys and sections, and what stands beside them. -/
theorem ofFile_of_reworded (hF : F.Lawful) {other : String} {document document' : Entries}
    (hdocument : F.parse? text = some document) (hdocument' : F.parse? other = some document')
    (h : Relation.EqvGen Reworded document document') :
    ofFile F path (.ok text.toUTF8) = ofFile F path (.ok other.toUTF8) := by
  have htexts : ofText? F text = ofText? F other := by
    ext s
    rw [ofText?, ofText?, hdocument, hdocument', Option.bind_some, Option.bind_some,
      ofEntries?_eq_some_iff hF (hF.distinct hdocument),
      ofEntries?_eq_some_iff hF (hF.distinct hdocument')]
    exact describes_iff_of_reworded h
  rw [ofFile_of_text, ofFile_of_text, htexts]

/-! ### Files that are looked for -/

variable {disk : String → FileView} {given? usual? : Option String}

theorem load_of_isThere (hpath : given?.or usual? = some path) (h : (disk path).isThere = true) :
    load F disk given? usual? = ofFile F path (disk path).content := by
  simp only [load, hpath, h, if_true]

theorem load_of_missing
    (h : ∀ path, given?.or usual? = some path → (disk path).isThere = false) :
    load F disk given? usual? = .ok {} := by
  unfold load
  cases hpath : given?.or usual? with
  | none => rfl
  | some path => simp [h path hpath]

/-- Settings that are found keep the rules. The defaults are not checked when they are taken, but they
would pass. -/
theorem check_of_load (hF : F.Lawful) (h : load F disk given? usual? = .ok s) : s.check = .ok s := by
  by_cases hthere : ∃ path, given?.or usual? = some path ∧ (disk path).isThere = true
  · obtain ⟨path, hpath, hthere⟩ := hthere
    rw [load_of_isThere hpath hthere] at h
    exact check_of_ofFile hF h
  · rw [load_of_missing fun path hpath =>
      Bool.eq_false_iff.2 fun hpresent => hthere ⟨path, hpath, hpresent⟩] at h
    obtain rfl : {} = s := Except.ok.inj h
    exact check_default

/-- A command either fails with what is wrong with the settings file, or runs under settings that keep the
rules. -/
theorem run_checked (hF : F.Lawful) (here : Command.Surroundings) (o : Command.Options)
    (job : Command.Job) :
    (∃ e, load F here.disk o.settingsFile? here.usualFile? = .error e ∧
      Command.run F here o job = ⟨"", some (.settings e)⟩) ∨
    ∃ s : Settings, load F here.disk o.settingsFile? here.usualFile? = .ok s ∧ s.check = .ok s ∧
      Command.run F here o job = Command.runJob s here.input job := by
  unfold Command.run
  cases hload : load F here.disk o.settingsFile? here.usualFile? with
  | error e => exact .inl ⟨e, rfl, rfl⟩
  | ok s => exact .inr ⟨s, rfl, check_of_load hF hload, rfl⟩

/-- **Settings files**, in every lawful format. A file that has to be there gives what `FileGives` says:
settings if it can be read, it is a text, the text is a settings document, and the settings that the
document describes keep the rules, and otherwise the first that is wrong of these. The settings are what
the document describes, field by field, and no rewording of the document changes them. A file that is
looked for gives the same if it is there, and the defaults if not, which keep the rules, and every command
that runs does so under settings that keep them. -/
theorem files_checked (hF : F.Lawful) :
    (∀ path content result, ofFile F path content = result ↔ FileGives F path content result) ∧
    (∀ path text other document document', F.parse? text = some document →
      F.parse? other = some document' → Relation.EqvGen Reworded document document' →
      ofFile F path (.ok text.toUTF8) = ofFile F path (.ok other.toUTF8)) ∧
    (∀ disk given? usual? path, given?.or usual? = some path → (disk path).isThere = true →
      load F disk given? usual? = ofFile F path (disk path).content) ∧
    (∀ disk given? usual?, (∀ path, given?.or usual? = some path → (disk path).isThere = false) →
      load F disk given? usual? = .ok {}) ∧ check {} = .ok {} ∧
    ∀ here o job,
      (∃ e, load F here.disk o.settingsFile? here.usualFile? = .error e ∧
        Command.run F here o job = ⟨"", some (.settings e)⟩) ∨
      ∃ s : Settings, load F here.disk o.settingsFile? here.usualFile? = .ok s ∧ s.check = .ok s ∧
        Command.run F here o job = Command.runJob s here.input job :=
  ⟨fun _ _ _ => ofFile_eq_iff hF,
    fun _ _ _ _ _ hdocument hdocument' h => ofFile_of_reworded hF hdocument hdocument' h,
    fun _ _ _ _ hpath h => load_of_isThere hpath h, fun _ _ _ h => load_of_missing h, check_default,
    run_checked hF⟩

/-- A style and a length are given by dotted keys, and by sections with headers, in another order and
among other keys. -/
theorem files_checked_reworded :
    ofFile toml "config.toml"
        (.ok "display.number_style = \"grouped\"\ninput.max_length = 8".toUTF8) =
      .ok { display := { style := .grouped }, entry := { maxLength := 8 } } ∧
    load toml (fun _ => .holding
        "x = 1\n[input]\ny = ''\nmax_length = 8\n[display]\nnumber_style = 'grouped'".toUTF8)
        (some "config.toml") none =
      .ok { display := { style := .grouped }, entry := { maxLength := 8 } } := by
  obtain ⟨hfiles, hreworded, hload, -⟩ := files_checked Document.toml_lawful
  have hdotted : toml.parse? "display.number_style = \"grouped\"\ninput.max_length = 8" =
      some [("display", .table .dotted [("number_style", .text "grouped")]),
        ("input", .table .dotted [("max_length", .integer 8)])] := by
    decide +kernel
  have hheaders : toml.parse?
        "x = 1\n[input]\ny = ''\nmax_length = 8\n[display]\nnumber_style = 'grouped'" =
      some [("x", .integer 1), ("input", .table .header [("y", .text ""), ("max_length", .integer 8)]),
        ("display", .table .header [("number_style", .text "grouped")])] := by
    decide +kernel
  have hdescribes : Describes [("display", .table .dotted [("number_style", .text "grouped")]),
        ("input", .table .dotted [("max_length", .integer 8)])]
      { display := { style := .grouped }, entry := { maxLength := 8 } } := by
    refine ⟨⟨.table (by decide), fun f held hheld => ?_⟩, ?_, ?_, ?_⟩
    · cases f with
      | style | errorText =>
        obtain rfl : held = _ := by simpa [Field.sectionKey] using hheld
        exact .table (by decide)
      | maxLength =>
        obtain rfl : held = _ := by simpa [Field.sectionKey] using hheld
        exact .table (by decide)
    · exact .given ⟨_, .head _, .named (.head _)⟩ (.text "grouped")
    · refine .missing (fun v ⟨held, hheld, hv⟩ => ?_) rfl
      obtain rfl : held = _ := by simpa [Field.sectionKey] using hheld
      rw [Document.gives_table_iff] at hv
      simp [Field.key] at hv
    · exact .given ⟨_, .tail _ (.head _), .named (.head _)⟩ rfl
  have hfirst := (hfiles "config.toml" _ _).2
    (.settings rfl ⟨_, hdotted, hdescribes⟩ (by decide) (by decide))
  refine ⟨hfirst, ?_⟩
  rw [hload _ _ _ "config.toml" rfl rfl]
  refine (hreworded _ _ _ _ _ hdotted hheaders ?_).symm.trans hfirst
  -- from the dotted keys to the headers, a change at a time
  refine .trans _ _ _ (.rel _ _ (.order (.swap _ _ _))) ?_
  refine .trans _ _ _ (.rel _ _ (@Reworded.sectionOrder .maxLength [] [_] _ _ _ .header (.refl _))) ?_
  refine .trans _ _ _ (.rel _ _ (@Reworded.sectionBeside .maxLength [] [_] _ _ "y" (.text "")
    (by decide) rfl)) ?_
  refine .trans _ _ _ (.rel _ _ (@Reworded.sectionOrder .style [_] [] _ _ _ .header (.refl _))) ?_
  exact .rel _ _ (@Reworded.beside _ "x" (.integer 1) (by decide) rfl)

/-- A section that is an array gives its fields by their places. -/
example : ofEntries? toml [("display", .array [.text "grouped", .text "Bad"])] =
    some { display := { style := .grouped, errorText := "Bad" } } := by decide

/-- **A section that is a number.** The document gives no field, and the defaults of all fields keep the
rules, but the file gives no settings. -/
theorem files_checked_section :
    toml.parse? "display = 5" = some [("display", .integer 5)] ∧
    (∀ f v, ¬ Given [("display", .integer 5)] f v) ∧ check {} = .ok {} ∧
    ofFile toml "config.toml" (.ok "display = 5".toUTF8) = .error (.malformed "config.toml") := by
  refine ⟨by decide +kernel, fun f v ⟨held, hheld, hv⟩ => ?_, check_default, by decide +kernel⟩
  obtain ⟨-, rfl⟩ := Prod.mk.inj (List.mem_singleton.1 hheld)
  cases hv

end PocketCalculator.Settings
