import PocketCalculator.Proofs.Labels
import PocketCalculator.Proofs.Sessions

/-!
# Replays of keys

The keys of a command line are pressed one after the other, and a session takes the same labels from
its lines. Both drivers show the same texts: the display behind each key. A replay ends before the
first label that no key has, and this label is why it fails.

* `Keypad.shownBy`: the displays behind keys.
* `Command.pressJob_append`: labels of keys in front of any labels.
* `Command.answers_keys`, `Command.runJob_session_keys`: a session of labels.
* `Command.press_replays`: what a replay writes, why it fails, and the session with the same labels.
-/

namespace PocketCalculator

namespace Keypad

/-- **The displays behind keys**, one for each key. -/
def shownBy (k : Keypad) : List Key → List String
  | [] => []
  | key :: rest => (k.press key).display :: (k.press key).shownBy rest

/-- The display behind a key is that of a keypad on which the keys up to this one were pressed. -/
theorem shownBy_eq (k : Keypad) (keys : List Key) :
    k.shownBy keys =
      (List.range keys.length).map fun i => (k.after ((keys.take (i + 1)).map .press)).display := by
  induction keys generalizing k with
  | nil => rfl
  | cons key rest ih =>
    rw [shownBy, ih, List.length_cons, List.range_succ_eq_map, List.map_cons, List.map_map]
    rfl

end Keypad

namespace Command

/-- Labels and their keys. -/
abbrev KeysOf : List String → List Key → Prop :=
  List.Forall₂ fun label key => Key.ofLabel? label = some key

/-! ### Pressing -/

/-- The label of a row is at the end of a column of six. -/
theorem row_eq (label display : String) :
    row label display =
      String.ofList (List.replicate (6 - label.length) ' ') ++ label ++ "  " ++ display ++ "\n" := by
  rw [row, List.leftpad, String.ofList_append, String.ofList_toList, String.length_toList]

variable (k : Keypad) {labels : List String} {keys : List Key}

/-- **Labels of keys** have a row each, and the other labels are pressed behind them. -/
theorem pressJob_append (h : KeysOf labels keys) (behind : List String) :
    let rest := pressJob (k.after (keys.map .press)) behind
    pressJob k (labels ++ behind) =
      ⟨String.join (List.zipWith row labels (k.shownBy keys)) ++ rest.output, rest.failure?⟩ := by
  induction h generalizing k with
  | nil => simp [Keypad.shownBy, Keypad.after]
  | @cons label key labels keys hkey _ ih =>
    intro rest
    have hlabel : Key.ofLabel label = .ok key := by rw [Key.ofLabel, hkey]
    rw [List.cons_append, pressJob, hlabel]
    simp only [Keypad.answerKey_eq, Keypad.showing]
    rw [ih (k.press key), Keypad.shownBy, List.zipWith_cons_cons, String.join_cons,
      String.append_assoc]
    rfl

/-- **A label that no key has** is all that its replay reports. -/
theorem pressJob_unknown {label : String} (h : Key.isLabel label = false) (behind : List String) :
    pressJob k (label :: behind) = ⟨"", some (.key ⟨label⟩)⟩ := by
  rw [pressJob, Key.ofLabel_of_isLabel_false h]

/-! ### Sessions -/

/-- Labels are entered as they are, and the answers are the displays behind their keys. -/
theorem answers_keys (h : KeysOf labels keys) :
    entered labels = labels ∧ k.answers labels = k.shownBy keys := by
  induction h generalizing k with
  | nil => exact ⟨rfl, rfl⟩
  | @cons label key labels keys hkey _ ih =>
    have hlabel : Key.isLabel label = true := Key.isLabel_of_ofLabel? hkey
    have htrim : Text.trim label = label := Key.trim_of_isLabel hlabel
    have hvisible : Text.isAllBlank label = false := by
      rw [← Text.isEmpty_trim, htrim, Bool.eq_false_iff]
      intro hempty
      rw [String.isEmpty_iff.1 hempty] at hlabel
      exact absurd hlabel (by decide)
    have hanswer : k.answerLine label = (k.press key).showing := by
      rw [k.answerLine_of_key (htrim.symm ▸ hkey), Keypad.answerKey_eq]
    obtain ⟨hentered, hanswers⟩ := ih (k.press key)
    constructor
    · rw [entered_of_text hvisible, htrim, hentered]
    · rw [Keypad.answers, Keypad.submit, hanswer, Keypad.showing_fst, Keypad.showing_snd, hanswers,
        Keypad.shownBy]

/-! ### Replays -/

/-- The first labels, as long as they are known, have keys. -/
theorem keysOf_takeWhile (labels : List String) :
    KeysOf (labels.takeWhile Key.isLabel)
      ((labels.takeWhile Key.isLabel).filterMap Key.ofLabel?) := by
  induction labels with
  | nil => exact .nil
  | cons label labels ih =>
    cases hkey : Key.ofLabel? label with
    | none =>
      rw [List.takeWhile_cons_of_neg (by rw [Key.isLabel, hkey]; decide)]
      exact .nil
    | some key =>
      rw [List.takeWhile_cons_of_pos (Key.isLabel_of_ofLabel? hkey), List.filterMap_cons_some hkey]
      exact .cons hkey ih

theorem map_label_of_keysOf (h : KeysOf labels keys) : keys.map Key.label = labels := by
  induction h with
  | nil => rfl
  | cons hkey _ ih => rw [List.map_cons, Key.label_of_ofLabel? hkey, ih]

theorem isLabel_of_mem_keysOf (h : KeysOf labels keys) {label : String} (hmem : label ∈ labels) :
    Key.isLabel label = true := by
  induction h with
  | nil => cases hmem
  | cons hkey _ ih =>
    rcases List.mem_cons.1 hmem with rfl | hmem
    · exact Key.isLabel_of_ofLabel? hkey
    · exact ih hmem

/-- The labels before the first one without a key have a row each, and this one is reported. -/
theorem pressJob_eq (labels : List String) :
    let known := labels.takeWhile Key.isLabel
    let keys := known.filterMap Key.ofLabel?
    pressJob k labels = ⟨String.join (List.zipWith row known (k.shownBy keys)),
      (labels.find? (!Key.isLabel ·)).map fun label => .key ⟨label⟩⟩ := by
  intro known keys
  have hrun := pressJob_append k (keysOf_takeWhile labels) (labels.dropWhile Key.isLabel)
  have hfirst : labels.find? (!Key.isLabel ·) = (labels.dropWhile Key.isLabel).head? := by
    rw [List.find?_eq_head?_dropWhile_not]
    simp only [Bool.not_not]
  rw [List.takeWhile_append_dropWhile] at hrun
  rw [hrun, hfirst]
  cases hrest : labels.dropWhile Key.isLabel with
  | nil =>
    rw [pressJob, String.append_empty]
    rfl
  | cons label rest =>
    have hlabel : Key.isLabel label = false := by
      have hnot := List.head?_dropWhile_not Key.isLabel labels
      rw [hrest] at hnot
      exact hnot
    rw [pressJob_unknown _ hlabel, String.append_empty]
    rfl

/-- A replay succeeds if and only if every label is known. -/
theorem failure?_pressJob_iff (labels : List String) :
    (pressJob k labels).failure? = none ↔ ∀ label ∈ labels, Key.isLabel label = true := by
  rw [pressJob_eq, Option.map_eq_none_iff, List.find?_eq_none]
  simp only [Bool.not_eq_true', Bool.not_eq_false]

/-- **A session of labels**, one in a line, from the bytes of its input. -/
theorem runJob_session_keys (s : Settings) (h : KeysOf labels keys) :
    let written := String.join (((Keypad.fresh s).shownBy keys).map (· ++ "\n"))
    runJob s (String.join (labels.map (· ++ "\n"))).toUTF8 .session = ⟨written, none⟩ ∧
      runJob s ("\n".intercalate labels).toUTF8 .session = ⟨written, none⟩ := by
  intro written
  obtain ⟨hentered, hanswers⟩ := answers_keys (.fresh s) h
  have hfeed : ∀ label ∈ labels, 10 ∉ bytes label := by
    intro label hmem
    exact Key.lineFeed_of_isLabel (isLabel_of_mem_keysOf h hmem)
  constructor
  · have hpieces : pieces (String.join (labels.map (· ++ "\n"))).toUTF8 = (labels ++ [""]).map bytes := by
      rw [join_ended]
      refine pieces_intercalate (by simp) fun text htext => ?_
      rcases List.mem_append.1 htext with htext | htext
      · exact hfeed text htext
      · rw [List.mem_singleton.1 htext]
        exact List.not_mem_nil
    have hentered : entered (labels ++ [""]) = labels := by
      rw [entered, List.filter_append, List.map_append, ← entered, hentered]
      exact List.append_nil labels
    rw [runJob_of_pieces s hpieces, hentered, hanswers]
  · cases labels with
    | nil =>
      cases h
      rw [runJob, toList_toUTF8]
      rfl
    | cons label labels =>
      rw [runJob_of_pieces s (pieces_intercalate (List.cons_ne_nil _ _) hfeed), hentered, hanswers]

/-- **Keys are replayed** up to the first label that no key has. There is a row for each label before
it: the label at the end of a column of six, and what is on the display of a fresh keypad once the keys
up to this one were pressed. The replay succeeds if and only if every label is known. It fails for the
first one that is not, and what is behind that label changes nothing. A session with the known labels in
a line each, whether or not the last line ends in a line feed, succeeds and writes the same displays. -/
theorem press_replays (s : Settings) (input : ByteArray) (labels : List String) :
    let known := labels.takeWhile Key.isLabel
    let keys := known.filterMap Key.ofLabel?
    let displays := (List.range known.length).map fun i =>
      ((Keypad.fresh s).after ((keys.take (i + 1)).map .press)).display
    let rows := List.zipWith (fun label display =>
      String.ofList (List.replicate (6 - label.length) ' ') ++ label ++ "  " ++ display ++ "\n")
      known displays
    let outcome := runJob s input (.press labels)
    (keys.map Key.label = known ∧ rows.length = known.length ∧ outcome.output = String.join rows) ∧
      outcome.failure? = (labels.find? (!Key.isLabel ·)).map (fun label => .key ⟨label⟩) ∧
      (outcome.failure? = none ↔ ∀ label ∈ labels, Key.isLabel label = true) ∧
      (outcome.failure? = none → known = labels) ∧
      (∀ label behind, Key.isLabel label = false →
        runJob s input (.press (known ++ label :: behind)) =
          ⟨String.join rows, some (.key ⟨label⟩)⟩) ∧
      runJob s (String.join (known.map (· ++ "\n"))).toUTF8 .session =
        ⟨String.join (displays.map (· ++ "\n")), none⟩ ∧
      runJob s ("\n".intercalate known).toUTF8 .session =
        ⟨String.join (displays.map (· ++ "\n")), none⟩ := by
  intro known keys displays rows outcome
  have hkeys : KeysOf known keys := keysOf_takeWhile labels
  have hlabels : keys.map Key.label = known := map_label_of_keysOf hkeys
  have hcount : keys.length = known.length := by rw [← hlabels, List.length_map]
  have hshown : (Keypad.fresh s).shownBy keys = displays := by rw [Keypad.shownBy_eq, hcount]
  have hrows : List.zipWith row known displays = rows := by
    rw [funext fun label => funext (row_eq label)]
  have hlength : rows.length = known.length := by
    rw [List.length_zipWith, List.length_map, List.length_range, Nat.min_self]
  have houtcome : outcome = ⟨String.join rows,
      (labels.find? (!Key.isLabel ·)).map fun label => .key ⟨label⟩⟩ := by
    have hrun := pressJob_eq (.fresh s) labels
    rw [← hrows, ← hshown]
    exact hrun
  have hnone : outcome.failure? = none ↔ ∀ label ∈ labels, Key.isLabel label = true :=
    failure?_pressJob_iff (.fresh s) labels
  have hsession := runJob_session_keys s hkeys
  rw [hshown] at hsession
  refine ⟨⟨hlabels, hlength, by rw [houtcome]⟩, by rw [houtcome], hnone,
    fun h => List.takeWhile_eq_self_iff.2 (hnone.1 h), fun label behind hlabel => ?_, hsession⟩
  rw [runJob, pressJob_append _ hkeys, pressJob_unknown _ hlabel, hshown, hrows,
    String.append_empty]

/-- No key has the label `tan`: three keys are replayed before it, and the key behind it is not. -/
theorem press_replays_tangent :
    Key.isLabel "tan" = false ∧
      runJob {} ByteArray.empty (.press ["2", "sqrt", "DEL", "tan", "7"]) =
        ⟨"     2  2\n  sqrt  2sqrt(\n   DEL  2sqrt\n", some (.key ⟨"tan"⟩)⟩ ∧
      runJob {} "2\nsqrt\nDEL".toUTF8 .session = ⟨"2\n2sqrt(\n2sqrt\n", none⟩ := by
  have hlabel : Key.isLabel "tan" = false := by decide
  obtain ⟨-, -, -, -, hunknown, -, hsession⟩ :=
    press_replays {} ByteArray.empty ["2", "sqrt", "DEL", "tan", "7"]
  exact ⟨hlabel, (hunknown "tan" ["7"] hlabel).trans (by decide), hsession.trans (by decide)⟩

end Command

end PocketCalculator
