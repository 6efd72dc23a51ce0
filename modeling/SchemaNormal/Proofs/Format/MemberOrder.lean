import SchemaNormal.Proofs.Format.Options
import SchemaNormal.Proofs.Format.Report
import SchemaNormal.Proofs.Json.Reordered

/-!
# Reports and options in any order of members

What describes a report or options does so in every order of members.  So the texts written for them
can be read again, and so can these texts with the members of their objects permuted, the tags of
changes among them.
-/

namespace SchemaNormal

open Json

/-! ## Descriptions do not hang on the order -/

theorem Change.unordered_described (c : Change) : Unordered c.Described := by
  intro v w hvw hv
  cases hvw with
  | list hitems =>
    -- in a list of strings there is nothing to permute
    have hfounds := hitems.found (forall₂_isFound_strings_iff.mpr hv)
    exact forall₂_isFound_strings_iff.mp hfounds
  | @object ms ms' ns hmembers hperm =>
    obtain ⟨hstrings, hmembersFound⟩ := hv
    constructor
    · refine hstrings.imp fun key s hs => ?_
      have hunder := forall₂_valuesUnder hmembers.forall₂ key
      rw [hs, List.forall₂_cons_left_iff] at hunder
      obtain ⟨w, rest, hw, hrest, hunder⟩ := hunder
      rw [unordered_string s hw rfl, List.forall₂_nil_left_iff.mp hrest] at hunder
      have hsame : (valuesUnder key ms').Perm (valuesUnder key ns) := (hperm.filter _).map _
      rw [hunder, List.singleton_perm] at hsame
      exact hsame.symm
    · have hfound := isFound_object_iff.mpr hmembersFound
      exact isFound_object_iff.mp (hfound.reordered (.object hmembers hperm))
  | _ => exact hv

theorem Report.unordered_described (report : Report) : Unordered report.Described := by
  apply unordered_isRecord
  rw [Report.entries, List.forall_mem_singleton]
  exact unordered_isListOf Change.unordered_described report.changes

theorem Options.unordered_described (options : Options) : Unordered options.Described := by
  apply unordered_isRecord
  simp only [Options.entries, List.forall_mem_cons]
  exact ⟨unordered_isListOf (fun pass => unordered_isName pass.name) options.passes,
    unordered_string options.zeroName, unordered_string options.digitPrefix,
    List.forall_mem_nil _⟩

/-! ## Texts -/

/-- If the order of members does not matter to a format, it does not matter to its texts. -/
theorem ofText_reordered {α : Type} {read : Nat → Reader α} {Describes : α → Json → Prop}
    (h : Decides levels (read levels) Describes) {x : α} (hunordered : Unordered (Describes x))
    {v : Json} (hx : Describes x v) (hproper : v.Proper) (hdepth : v.depth ≤ levels) :
    (∀ layout, ofText read (v.render layout) = .ok x) ∧
      ∀ w, Reordered v w → (∀ layout, ofText read (w.render layout) = .ok x) ∧
        ∀ text, w.SpelledBy text → ofText read text = .ok x := by
  have hspelled : ∀ w, Reordered v w → ∀ text, w.SpelledBy text → ofText read text = .ok x := by
    intro w hvw text htext
    exact ofText_of_described h htext (hvw.depth_eq ▸ hdepth) (hunordered hvw hx)
  refine ⟨fun layout => hspelled v (.refl v) _ (spelledBy_render layout hproper), ?_⟩
  intro w hvw
  exact ⟨fun layout => hspelled w hvw _ (spelledBy_render layout (hvw.proper hproper)),
    hspelled w hvw⟩

/-- Every report and all options, accepted or not, come back from their texts in either layout.
They come back as well if the members of any of the objects are permuted, in either layout and in
every other spelling. -/
theorem report_and_options_ofText :
    (∀ report : Report,
      (∀ layout, ofText Report.read (report.toJson.render layout) = .ok report) ∧
      ∀ v, Reordered report.toJson v →
        (∀ layout, ofText Report.read (v.render layout) = .ok report) ∧
        ∀ text, v.SpelledBy text → ofText Report.read text = .ok report) ∧
    ∀ options : Options,
      (∀ layout, Options.ofText (options.toJson.render layout) = .ok options) ∧
      ∀ v, Reordered options.toJson v →
        (∀ layout, Options.ofText (v.render layout) = .ok options) ∧
        ∀ text, v.SpelledBy text → Options.ofText text = .ok options := by
  constructor
  · intro report
    exact ofText_reordered (Report.read_decides levels) report.unordered_described
      report.described_toJson report.proper_toJson report.depth_toJson_le
  · intro options
    exact ofText_reordered (Options.read_decides levels) options.unordered_described
      options.described_toJson options.proper_toJson options.depth_toJson_le

/-- A change whose tag comes last, and options with their keys in reverse. -/
theorem tagLast_ofText :
    let report : Report := ⟨[.valueRenamed "E" "1" "NUM_1"]⟩
    let change : Json :=
      .object [("to", .string "NUM_1"), ("from", .string "1"), ("path", .string "E"),
        ("type", .string "enum_value_renamed")]
    let v : Json := .object [("rewrites", .list [change])]
    let options : Options := {}
    let w : Json :=
      .object [("digit-prefix", .string "NUM_"), ("zero-value-name", .string "DEFAULT"),
        ("passes", .ofList Pass.toJson Pass.all)]
    Reordered report.toJson v ∧
      v.compact = "\x7b\"rewrites\":[\x7b\"to\":\"NUM_1\",\"from\":\"1\",\"path\":\"E\"," ++
        "\"type\":\"enum_value_renamed\"\x7d]\x7d" ∧
      ofText Report.read v.compact = .ok report ∧
      Reordered options.toJson w ∧ w.SpelledBy w.pretty ∧ Options.ofText w.pretty = .ok options := by
  intro report change v options w
  have hchange : Reordered (Change.toJson (.valueRenamed "E" "1" "NUM_1")) change :=
    .object (.refl _) (List.reverse_perm _).symm
  have hreport : Reordered report.toJson v :=
    .object (.cons "rewrites" (.list (.cons hchange .nil)) .nil) (.refl _)
  have hoptions : Reordered options.toJson w := .object (.refl _) (List.reverse_perm _).symm
  have hproper : w.Proper := hoptions.proper options.proper_toJson
  have hspelled : w.SpelledBy w.pretty := spelledBy_render .pretty hproper
  exact ⟨hreport, by decide +kernel,
    ((report_and_options_ofText.1 report).2 v hreport).1 .compact, hoptions, hspelled,
    ((report_and_options_ofText.2 options).2 w hoptions).2 w.pretty hspelled⟩

end SchemaNormal
