import SchemaNormal.Proofs.Format.Alike
import SchemaNormal.Proofs.Format.Levels
import SchemaNormal.Proofs.Format.Texts
import SchemaNormal.Proofs.Json.Layouts

/-!
# Which texts are files

A text is read as a file exactly if its value describes one, as long as the value does not nest too
deep, and then the answer is the file that it describes.
-/

namespace SchemaNormal

open Json

/-- A text that cannot be read has a message that says why. -/
theorem File.unreadable_of_ofText_ne_ok {text : String} (h : ∀ f, File.ofText text ≠ .ok f) :
    ∃ message, File.ofText text = .error (.unreadable message) :=
  SchemaNormal.unreadable_of_ofText_ne_ok h

theorem File.depth_le_of_ofText {text : String} {f : File} (h : File.ofText text = .ok f) :
    f.toJson.depth ≤ levels :=
  File.depth_le_of_read (ofText_eq_ok_iff.mp h).1

/-- What is read from a spelling of a value is what the value describes. -/
theorem File.described_of_ofText {text : String} {v : Json} {f : File} (hspelled : v.SpelledBy text)
    (h : File.ofText text = .ok f) : f.Described v :=
  SchemaNormal.described_of_ofText (File.read_decides levels) hspelled h

theorem File.ofText_of_described {text : String} {v : Json} {f : File}
    (hspelled : v.SpelledBy text) (hdepth : v.depth ≤ levels) (h : f.Described v) :
    File.ofText text = .ok f :=
  SchemaNormal.ofText_of_described (File.read_decides levels) hspelled hdepth h

/-- A value that has a spelling describes one file at most. -/
theorem File.eq_of_described {text : String} {v : Json} {f g : File} (hspelled : v.SpelledBy text)
    (hf : f.Described v) (hg : g.Described v) : f = g :=
  SchemaNormal.eq_of_described File.read_decides hspelled hf hg

/-- A spelling of a value that nests at most 127 lists and objects is read exactly as the files
that the value describes; an alike value is read the same. -/
theorem File.ofText_eq_ok_iff_described {v : Json} {text : String} (hspelled : v.SpelledBy text)
    (hdepth : v.depth ≤ 127) :
    (∀ f, File.ofText text = .ok f ↔ f.Described v) ∧
      ∀ (v' : Json) (text' : String), Part.file.Alike v v' → v'.SpelledBy text' →
        v'.depth ≤ 127 → ∀ f, File.ofText text = .ok f ↔ File.ofText text' = .ok f := by
  have hiff : ∀ f, File.ofText text = .ok f ↔ f.Described v := fun f =>
    ⟨File.described_of_ofText hspelled, File.ofText_of_described hspelled hdepth⟩
  refine ⟨hiff, fun v' text' halike hspelled' hdepth' f => ?_⟩
  have halike : f.Described v ↔ f.Described v' := halike.describes_iff f
  rw [hiff, halike]
  exact ⟨File.ofText_of_described hspelled' hdepth', File.described_of_ofText hspelled'⟩

/-- One enum, in a list without its values, among members that do not matter. -/
def scattered : Json :=
  .object [("enums", .list [.list [.string "E"]]), ("x", .number { negative := true, whole := 0 }),
    ("package", .null)]

/-- The same without the unknown member, and in order. -/
def gathered : Json :=
  .object [("package", .null), ("enums", .list [.list [.string "E"]])]

theorem scattered_spelled : scattered.SpelledBy
    " \x7b\"enums\" : [ [\"\\u0045\"]] ,\"x\":-0,\"package\":null\x7d\n" := by
  have hspace : Blank [' '] := blank_space
  have hkey : ∀ key, SpelledKey key (stringChars key ++ [':']) := spelledKey_after blank_nil
  have henums : SpelledKey "enums" (stringChars "enums" ++ [' ', ':']) :=
    ⟨[], stringChars "enums", [' '], blank_nil, spelledString_stringChars "enums", hspace, rfl⟩
  -- the name of the enum is spelled by its number
  have hname : SpelledString "E" ['"', '\\', 'u', '0', '0', '4', '5', '"'] := by
    have hunit : SpelledUnit 'E'.toNat ['0', '0', '4', '5'] :=
      .digits (p := 0) (q := 0) (r := 4) (s := 5) (.inl ⟨by decide, rfl⟩) (.inl ⟨by decide, rfl⟩)
        (.inl ⟨by decide, rfl⟩) (.inl ⟨by decide, rfl⟩)
    exact ⟨_, .cons (.unit hunit) .nil, rfl⟩
  have hlist := Spelled.list
    (.last hspace (.list (.last blank_nil (.string hname) blank_nil)) blank_nil)
  have hzero : Numeral.Spelled { negative := true, whole := 0 } ['-', '0'] := ⟨[], .none, by decide⟩
  have hmembers := SpelledMembers.cons henums hspace hlist hspace
    (.cons (hkey "x") blank_nil (.number hzero) blank_nil
      (.last (hkey "package") blank_nil .null blank_nil))
  exact ⟨[' '], _, ['\n'], hspace, .object hmembers, blank_newline 0, by decide +kernel⟩

theorem scattered_alike_gathered : Part.file.Alike scattered gathered := by
  have hunknown : Part.file.Alike gathered (.object (("x", _) :: _)) :=
    .unknown (.number { negative := true, whole := 0 }) _ (by decide)
  refine .symm (.trans hunknown (.order ?_))
  exact @List.perm_append_comm _ [_, _] [_]

/-- White space, an escaped name and the unknown member make no difference to what is read. -/
theorem scattered_read :
    let text := " \x7b\"enums\" : [ [\"\\u0045\"]] ,\"x\":-0,\"package\":null\x7d\n"
    scattered.SpelledBy text ∧ scattered.depth ≤ 127 ∧ Part.file.Alike scattered gathered ∧
      gathered.SpelledBy gathered.compact ∧ gathered.depth ≤ 127 ∧
      File.ofText text = .ok { enums := [{ name := "E" }] } ∧
      File.ofText gathered.compact = .ok { enums := [{ name := "E" }] } := by
  intro text
  have hproper : gathered.Proper := ⟨trivial, ⟨⟨trivial, trivial⟩, trivial⟩, trivial⟩
  have hgathered : gathered.SpelledBy gathered.compact := spelledBy_render .compact hproper
  have hdescribed : File.Described { enums := [{ name := "E" }] } scattered := by
    have hentries : InMembers (File.entries { enums := [{ name := "E" }] })
        [("enums", .list [.list [.string "E"]]),
          ("x", .number { negative := true, whole := 0 }), ("package", .null)] := by
      simp only [InMembers, File.entries, List.forall_mem_cons]
      exact ⟨rfl, rfl, ⟨_, rfl, .cons ⟨rfl, rfl, rfl⟩ .nil⟩, List.forall_mem_nil _⟩
    exact hentries
  obtain ⟨hread, halike⟩ := File.ofText_eq_ok_iff_described scattered_spelled (by decide)
  have hscattered := (hread _).mpr hdescribed
  refine ⟨scattered_spelled, by decide, scattered_alike_gathered, hgathered, by decide,
    hscattered, ?_⟩
  exact (halike gathered _ scattered_alike_gathered hgathered (by decide) _).mp hscattered

end SchemaNormal
