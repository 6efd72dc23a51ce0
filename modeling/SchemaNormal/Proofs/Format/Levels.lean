import SchemaNormal.Proofs.Format.Depth
import SchemaNormal.Proofs.Format.Reading

/-!
# What a reader can reach

Whatever stands in a text, a reader only answers with something that nests no deeper, when it is
written, than the brackets the reader may open.
-/

namespace SchemaNormal

open Json

/-- The elements of a list were read one bracket deeper. -/
theorem listField_items {α : Type} {levels : Nat} {name : String} {item : Reader α} {xs : List α}
    (h : ∃ slot, ((listField levels name item).entry xs).Admits slot) :
    ∀ x ∈ xs, levels ≠ 0 ∧ ∃ node, item node = .ok x := by
  obtain ⟨_ | node, h⟩ := h
  · cases h
    exact List.forall_mem_nil _
  · obtain ⟨hlevels, hitems⟩ := exists_node_of_readList h
    exact fun x hx => ⟨hlevels, hitems x hx⟩

theorem MessageField.levels_of_read {levels : Nat} {node : Node} {field : MessageField}
    (h : MessageField.read levels node = .ok field) : levels ≠ 0 := by
  obtain ⟨xs, hread, -⟩ := map_eq_ok_iff.mp h
  exact (admits_of_readRecord (MessageField.nodup_names _) hread).1

theorem EnumValue.levels_of_read {levels : Nat} {node : Node} {value : EnumValue}
    (h : EnumValue.read levels node = .ok value) : levels ≠ 0 := by
  obtain ⟨xs, hread, -⟩ := map_eq_ok_iff.mp h
  exact (admits_of_readRecord EnumValue.nodup_names hread).1

theorem Enum.depth_le_of_read {levels : Nat} {node : Node} {e : Enum}
    (h : Enum.read levels node = .ok e) : e.toJson.depth ≤ levels := by
  obtain ⟨⟨name, values, _⟩, hread, rfl⟩ := map_eq_ok_iff.mp h
  obtain ⟨hlevels, hentries⟩ := admits_of_readRecord (Enum.nodup_names _) hread
  have hvalues := listField_items (hentries _ (.tail _ (.head _)))
  rw [depth_toJson_le_iff]
  refine ⟨by omega, fun hne => ?_⟩
  -- one value is enough to show that its list and its own bracket could be opened
  obtain ⟨v, hv⟩ := List.exists_mem_of_ne_nil values hne
  obtain ⟨hlist, node, hnode⟩ := hvalues v hv
  have := EnumValue.levels_of_read hnode
  omega

/-- A message reaches as far as its reader of nested messages, or two brackets if that is more. -/
theorem Message.depth_le_of_readWith {levels : Nat} {nested : Reader Message}
    (hnested : ∀ {node m}, nested node = .ok m → m.toJson.depth ≤ levels - 2) {node : Node}
    {m : Message} (h : Message.readWith levels nested node = .ok m) : m.toJson.depth ≤ levels := by
  obtain ⟨⟨name, fields, messages, enums, _⟩, hread, rfl⟩ := map_eq_ok_iff.mp h
  obtain ⟨hlevels, hentries⟩ := admits_of_readRecord (Message.nodup_names _ _) hread
  have hfields := listField_items (hentries _ (.tail _ (.head _)))
  have hmessages := listField_items (hentries _ (.tail _ (.tail _ (.head _))))
  have henums := listField_items (hentries _ (.tail _ (.tail _ (.tail _ (.head _)))))
  rw [depth_toJson_le_iff]
  refine ⟨by omega, fun hne => ?_, fun a ha => ?_, fun e he => ?_⟩
  · obtain ⟨field, hfield⟩ := List.exists_mem_of_ne_nil fields hne
    obtain ⟨hlist, node, hnode⟩ := hfields field hfield
    have := MessageField.levels_of_read hnode
    omega
  · obtain ⟨hlist, node, hnode⟩ := hmessages a ha
    have := hnested hnode
    have := a.one_le_depth_toJson
    omega
  · obtain ⟨hlist, node, hnode⟩ := henums e he
    have := Enum.depth_le_of_read hnode
    have := e.one_le_depth_toJson
    omega

theorem Message.depth_le_of_read : ∀ {levels : Nat} {node : Node} {m : Message},
    Message.read levels node = .ok m → m.toJson.depth ≤ levels
  | 0, _, _, h | 1, _, _, h => by
    -- the reader for messages inside refuses every node
    refine Message.depth_le_of_readWith ?_ h
    intro node m h
    cases h
  | _ + 2, _, _, h => Message.depth_le_of_readWith Message.depth_le_of_read h

/-- A file that is read nests no deeper than the reader may go. -/
theorem File.depth_le_of_read {levels : Nat} {node : Node} {f : File}
    (h : File.read levels node = .ok f) : f.toJson.depth ≤ levels := by
  obtain ⟨⟨package, messages, enums, _⟩, hread, rfl⟩ := map_eq_ok_iff.mp h
  obtain ⟨hlevels, hentries⟩ := admits_of_readRecord (File.nodup_names _) hread
  have hmessages := listField_items (hentries _ (.tail _ (.head _)))
  have henums := listField_items (hentries _ (.tail _ (.tail _ (.head _))))
  rw [depth_toJson_le_iff]
  refine ⟨by omega, fun m hm => ?_, fun e he => ?_⟩
  · obtain ⟨hlist, node, hnode⟩ := hmessages m hm
    have := Message.depth_le_of_read hnode
    have := m.one_le_depth_toJson
    omega
  · obtain ⟨hlist, node, hnode⟩ := henums e he
    have := Enum.depth_le_of_read hnode
    have := e.one_le_depth_toJson
    omega

end SchemaNormal
