import SchemaNormal.Proofs.Format.Conformance
import SchemaNormal.Proofs.Format.Written

/-!
# The round trip of a file

A file comes back from its own text, in either layout, unless it nests too deep.  A file that has
been read from any text at all does not.
-/

namespace SchemaNormal

open Json

theorem File.ofText_render_of_depth_le {f : File} (h : f.toJson.depth ≤ levels) (layout : Layout) :
    File.ofText (f.toJson.render layout) = .ok f :=
  File.ofText_of_described (spelledBy_render layout f.proper_toJson) h f.described_toJson

/-- Nothing but the file itself can be read from its text. -/
theorem File.eq_of_ofText_render {f g : File} (layout : Layout)
    (h : File.ofText (f.toJson.render layout) = .ok g) : g = f := by
  have hspelled : f.toJson.SpelledBy (f.toJson.render layout) :=
    spelledBy_render layout f.proper_toJson
  exact File.eq_of_described hspelled (File.described_of_ofText hspelled h) f.described_toJson

theorem File.unreadable_render_of_lt {f : File} (h : levels < f.toJson.depth) (layout : Layout) :
    ∃ message, File.ofText (f.toJson.render layout) = .error (.unreadable message) := by
  apply File.unreadable_of_ofText_ne_ok
  intro g hg
  -- nothing but `f` could be read, and `f` nests too deep
  have heq : g = f := File.eq_of_ofText_render layout hg
  have hfits : f.toJson.depth ≤ levels := heq ▸ File.depth_le_of_ofText hg
  omega

theorem File.ofText_render_eq_ok_iff (f : File) (layout : Layout) :
    File.ofText (f.toJson.render layout) = .ok f ↔ f.toJson.depth ≤ levels :=
  ⟨File.depth_le_of_ofText, fun h => File.ofText_render_of_depth_le h layout⟩

theorem File.unreadable_render_iff (f : File) (layout : Layout) :
    (∃ message, File.ofText (f.toJson.render layout) = .error (.unreadable message)) ↔
      levels < f.toJson.depth := by
  constructor
  · rintro ⟨message, h⟩
    by_contra hdepth
    rw [File.ofText_render_of_depth_le (Nat.le_of_not_lt hdepth) layout] at h
    cases h
  · exact fun h => File.unreadable_render_of_lt h layout

/-- A file comes back from its text in either layout exactly if its form nests at most 127 lists
and objects; a deeper one is refused. -/
theorem File.ofText_render (f : File) (layout : Layout) :
    (File.ofText (f.toJson.render layout) = .ok f ↔ f.toJson.depth ≤ 127) ∧
      ((∃ message, File.ofText (f.toJson.render layout) = .error (.unreadable message)) ↔
        127 < f.toJson.depth) :=
  ⟨f.ofText_render_eq_ok_iff layout, f.unreadable_render_iff layout⟩

/-! ## Texts from elsewhere -/

/-- Writing a file that has been read settles its spelling: whatever the text was, the file comes
back from its text in either layout, with or without a line break at the end, and from every other
spelling of its form. -/
theorem File.ofText_written {text : String} {f : File} (h : File.ofText text = .ok f) :
    (∀ layout, File.ofText (f.toJson.render layout) = .ok f ∧
        File.ofText (f.toJson.render layout ++ "\n") = .ok f) ∧
      ∀ text', f.toJson.SpelledBy text' → File.ofText text' = .ok f := by
  -- the reader has opened a bracket for each that is written
  have hdepth : f.toJson.depth ≤ levels := File.depth_le_of_ofText h
  have hspelled : ∀ text', f.toJson.SpelledBy text' → File.ofText text' = .ok f := by
    intro text' hspelled
    exact File.ofText_of_described hspelled hdepth f.described_toJson
  refine ⟨fun layout => ⟨?_, ?_⟩, hspelled⟩
  · exact hspelled _ (spelledBy_render layout f.proper_toJson)
  · exact hspelled _ (spelledBy_render_newline layout f.proper_toJson)

/-- A message in a list, a label in an object, members that no record has, keys out of order, an
escaped letter and white space: the text that is written has none of these. -/
theorem scatteredParts_written :
    let text := "\t\x7b \"x\" : [1e9, \x7b\"enums\":0\x7d], \"messages\": [[\"\\u004d\", " ++
      "[\x7b\"index\":7,\"name\":\"f\",\"label\":\x7b\"optional\":null\x7d," ++
      "\"type_name\":\"T\"\x7d]]], \"package\":null \x7d\n"
    let f : File := { messages := [{ name := "M", fields := [⟨some .optional, "T", "f", 7⟩] }] }
    let written := "\x7b\"messages\":[\x7b\"name\":\"M\",\"fields\":[\x7b\"label\":\"optional\"," ++
      "\"type_name\":\"T\",\"name\":\"f\",\"index\":7\x7d]\x7d]\x7d"
    File.ofText text = .ok f ∧ f.toJson.render .compact = written ∧ File.ofText written = .ok f ∧
      File.ofText (f.toJson.render .pretty) = .ok f := by
  intro text f written
  have hread : File.ofText text = .ok f := by decide +kernel
  have hwritten : f.toJson.render .compact = written := by decide +kernel
  obtain ⟨hlayouts, -⟩ := File.ofText_written hread
  refine ⟨hread, hwritten, ?_, (hlayouts .pretty).1⟩
  rw [← hwritten]
  exact (hlayouts .compact).1

end SchemaNormal
