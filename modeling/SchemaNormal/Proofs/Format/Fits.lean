import SchemaNormal.Proofs.Format.Depth
import SchemaNormal.Proofs.Schema.Standing

/-!
# Room for a file

Whether a written file nests too deep is decided where its messages stand: each message around a
definition takes two brackets.  How much room an enum takes is left open, so that the same can be
said of a file whose enums are edited.
-/

namespace SchemaNormal

namespace File

/-- The file nests at most `n` brackets, if each enum takes as many as `room` says. -/
structure Fits (room : Enum → Nat) (n : Nat) (f : File) : Prop where
  file : 1 ≤ n
  enums : ∀ e ∈ f.enums, room e + 2 ≤ n
  message : ∀ {k m}, f.Stands k m → 2 * k + 3 ≤ n
  fields : ∀ {k m}, f.Stands k m → m.fields ≠ [] → 2 * k + 5 ≤ n
  inner : ∀ {k m}, f.Stands k m → ∀ e ∈ m.enums, 2 * k + room e + 4 ≤ n

theorem Fits.mono {room room' : Enum → Nat} {n : Nat} {f : File} (h : f.Fits room n)
    (hroom : ∀ e, room' e ≤ room e) : f.Fits room' n where
  file := h.file
  enums e he := by
    have := h.enums e he
    have := hroom e
    omega
  message := h.message
  fields := h.fields
  inner hm e he := by
    have := h.inner hm e he
    have := hroom e
    omega

theorem depth_le_of_stands {f : File} {n : Nat} (h : f.toJson.depth ≤ n) {k : Nat} {m : Message}
    (hm : f.Stands k m) : 2 * k + m.toJson.depth + 2 ≤ n := by
  induction hm with
  | top hm =>
    have := (depth_toJson_le_iff.mp h).2.1 _ hm
    omega
  | @inner k a m _ hm ih =>
    -- what is inside `a` is two brackets deeper than `a`
    have hroom : a.toJson.depth ≤ n - 2 * k - 2 := by omega
    have := (Message.depth_toJson_le_iff.mp hroom).2.2.1 m hm
    omega

theorem depth_le_of_fits {f : File} {n : Nat} (h : f.Fits (·.toJson.depth) n) (m : Message) :
    ∀ {k : Nat}, f.Stands k m → 2 * k + m.toJson.depth + 2 ≤ n := by
  -- by induction on the message: `Fits` bounds each place alone, the depth is that of all inside
  induction m with
  | mk name fields messages enums ih =>
    intro k hm
    have hmessage := h.message hm
    have hdepth : (Message.mk name fields messages enums).toJson.depth ≤ n - 2 * k - 2 := by
      rw [Message.depth_toJson_le_iff]
      refine ⟨by omega, fun hfields => ?_, fun a ha => ?_, fun e he => ?_⟩
      · have := h.fields hm hfields
        omega
      · have := ih a ha (.inner hm ha)
        omega
      · have := h.inner hm e he
        omega
    omega

/-- The depth of a written file, said of the places of its messages. -/
theorem depth_toJson_le_iff_fits {f : File} {n : Nat} :
    f.toJson.depth ≤ n ↔ f.Fits (·.toJson.depth) n := by
  constructor
  · intro h
    have hplace : ∀ {k m}, f.Stands k m → m.toJson.depth ≤ n - 2 * k - 2 := by
      intro k m hm
      have := depth_le_of_stands h hm
      omega
    have hbound : ∀ {k m}, f.Stands k m → 2 * k + 3 ≤ n := by
      intro k m hm
      have := depth_le_of_stands h hm
      have := m.one_le_depth_toJson
      omega
    refine ⟨(depth_toJson_le_iff.mp h).1, (depth_toJson_le_iff.mp h).2.2, hbound,
      fun hm hfields => ?_, fun hm e he => ?_⟩
    · have := (Message.depth_toJson_le_iff.mp (hplace hm)).2.1 hfields
      omega
    · have := (Message.depth_toJson_le_iff.mp (hplace hm)).2.2.2 e he
      have := hbound hm
      omega
  · intro h
    rw [depth_toJson_le_iff]
    refine ⟨h.file, fun m hm => ?_, h.enums⟩
    have := depth_le_of_fits h m (.top hm)
    omega

end File

end SchemaNormal
