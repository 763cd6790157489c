import ApiModel.Document
import ApiModel.Proofs.Entries
/-!
# What a reader promises

A map that is read from a text holds each key once, whatever the text repeats.
-/

namespace ApiModel

/-- A map that is read has each key once. -/
theorem Tree.entriesOf?_nodup {α : Type} {r : Reading} {read : Tree → Option α} {tree : Tree}
    {entries : Entries α} (h : Tree.entriesOf? r read tree = some entries) :
    entries.keys.Nodup := by
  obtain ⟨pairs, -, hrest⟩ := Option.bind_eq_some_iff.mp h
  obtain ⟨writes, -, hentries⟩ := Option.bind_eq_some_iff.mp hrest
  cases hentries
  exact Entries.nodup_keys_ofList writes

namespace Record

/-- A field that is left out has the default value. -/
theorem orElse?_cases {α : Type} {record : Record} {name : String} {value result : α}
    {read : Tree → Option α} (h : record.orElse? name value read = some result) :
    result = value ∨ ∃ tree, read tree = some result := by
  unfold orElse? at h
  split at h
  · exact .inl (Option.some.inj h).symm
  · exact .inr ⟨_, h⟩

end Record

/-- A text gives a document exactly if it is read as one, and of a version that is supported. -/
theorem Document.parse_eq_ok_iff {format : Format} {text : String} {d : Document} :
    Document.parse format text = .ok d ↔
      Text.startsWith d.openapi "3." = true ∧ format.read? Document.ofTree? text = some d := by
  unfold Document.parse
  cases format.read? Document.ofTree? text with
  | none => simp
  | some found =>
    dsimp only
    split_ifs with hversion
    · constructor
      · intro h
        cases h
        exact ⟨hversion, rfl⟩
      · rintro ⟨-, hfound⟩
        rw [Option.some.inj hfound]
    · constructor
      · intro h
        cases h
      · rintro ⟨hsupported, hfound⟩
        rw [← Option.some.inj hfound] at hsupported
        exact absurd hsupported hversion

/-- A document that a text gives was read from a tree. -/
theorem Document.exists_tree_of_parse {format : Format} {text : String} {d : Document}
    (h : Document.parse format text = .ok d) :
    ∃ tree, Document.ofTree? format.reading tree = some d := by
  obtain ⟨-, hread⟩ := Document.parse_eq_ok_iff.mp h
  obtain ⟨tree, -, htree⟩ := Option.bind_eq_some_iff.mp hread
  exact ⟨tree, htree⟩

end ApiModel
