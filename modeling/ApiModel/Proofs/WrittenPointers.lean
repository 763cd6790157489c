import ApiModel.Build.Parameter
import ApiModel.Proofs.Designation
/-!
# The pointers that a build writes

A build spells the pointer of a schema from the path to it, and escapes the segments on the way;
but it takes the names of component parameters and of component request bodies as they are.  As
long as no such name holds a slash, the text still falls into its segments at the slashes, and
different paths get different pointers.  A slash in such a name can make the pointer of one
component that of a schema inside another one.
-/

namespace ApiModel

namespace Pointer

/-- The pointer that a build writes for a path. -/
def written : List String → Pointer
  | "components" :: "parameters" :: name :: path =>
    (Components.sectionPointer .parameters name).descend path
  | "components" :: "requestBodies" :: name :: path =>
    (Components.sectionPointer .requestBodies name).descend path
  | path => root.descend path

/-- The sections whose names are written as they are. -/
def Verbatim (target : ComponentSection) : Prop :=
  target = .parameters ∨ target = .requestBodies

/-- The names that are written as they are hold no slash. -/
def PlainPath (path : List String) : Prop :=
  ∀ target name rest, Verbatim target → path = "components" :: target.name :: name :: rest →
    '/' ∉ name.toList

/-- A path goes through a name that is written as it is, or all of its segments are escaped. -/
theorem written_cases (path : List String) :
    (∃ target name rest, Verbatim target ∧ path = "components" :: target.name :: name :: rest ∧
      written path = (Components.sectionPointer target name).descend rest) ∨
    ((∀ target name rest, Verbatim target →
      path ≠ "components" :: target.name :: name :: rest) ∧ written path = root.descend path) := by
  unfold written
  split
  · exact .inl ⟨.parameters, _, _, .inl rfl, rfl, rfl⟩
  · exact .inl ⟨.requestBodies, _, _, .inr rfl, rfl, rfl⟩
  · rename_i hparameters hrequestBodies
    refine .inr ⟨?_, rfl⟩
    rintro target name rest (rfl | rfl)
    · exact hparameters name rest
    · exact hrequestBodies name rest

/-- The slashes of a pointer into a section cut its text into the section, the name and the
segments below. -/
theorem splitOn_section (target : ComponentSection) {name : String} (hname : '/' ∉ name.toList)
    (path : List String) :
    ((Components.sectionPointer target name).descend path).text.toList.splitOn '/' =
      ['#'] :: "components".toList :: target.name.toList :: name.toList ::
        path.map escapedChars := by
  have hjoin (start : String) :
      (start ++ "/" ++ name).toList = start.toList ++ '/' :: name.toList := by simp
  have hpointer : (Components.sectionPointer target name).text.toList =
      ("#/components/" ++ target.name).toList ++ '/' :: name.toList := hjoin _
  have htext : ((Components.sectionPointer target name).descend path).text.toList =
      ("#/components/" ++ target.name).toList ++ '/' :: (name.toList ++ pathChars path) := by
    rw [descend_chars, hpointer, List.append_assoc, List.cons_append]
  have hsection : ("#/components/" ++ target.name).toList.splitOn '/' =
      [['#'], "components".toList, target.name.toList] := by
    cases target <;> decide
  rw [htext, List.splitOn_append_cons_self, hsection, splitOn_append_pathChars,
    List.splitOn_eq_singleton hname]
  rfl

/-- A pointer from the root splits at its slashes into escaped segments. -/
theorem splitOn_root (path : List String) :
    (root.descend path).text.toList.splitOn '/' = ['#'] :: path.map escapedChars := by
  rw [descend_chars, splitOn_append_pathChars]
  rfl

/-- Escaped segments determine the path. -/
theorem map_escapedChars_inj {path path' : List String}
    (h : path.map escapedChars = path'.map escapedChars) : path = path' :=
  List.map_injective_iff.mpr (fun _ _ => escapedChars_inj) h

/-- A path into a section is one that begins with the section. -/
theorem path_of_section (target : ComponentSection) {chars : List Char} {path : List String}
    {rest : List (List Char)}
    (h : path.map escapedChars = "components".toList :: target.name.toList :: chars :: rest) :
    ∃ name path', path = "components" :: target.name :: name :: path' := by
  rcases path with _ | ⟨first, _ | ⟨second, _ | ⟨name, path'⟩⟩⟩
  · simp only [List.map_nil, reduceCtorEq] at h
  · simp only [List.map_cons, List.map_nil, List.cons.injEq, reduceCtorEq, and_false] at h
  · simp only [List.map_cons, List.map_nil, List.cons.injEq, reduceCtorEq, and_false] at h
  · simp only [List.map_cons, List.cons.injEq] at h
    obtain ⟨hfirst, hsecond, -⟩ := h
    have hcomponents : escapedChars "components" = "components".toList := by decide
    have hsection : escapedChars target.name = target.name.toList := by cases target <;> decide
    have hfirst' : first = "components" := escapedChars_inj (hfirst.trans hcomponents.symm)
    have hsecond' : second = target.name := escapedChars_inj (hsecond.trans hsection.symm)
    exact ⟨name, path', by rw [hfirst', hsecond']⟩

/-- A pointer into a section is written for the path through the section alone. -/
theorem eq_of_written_section {target : ComponentSection} (htarget : Verbatim target)
    {name : String} (hname : '/' ∉ name.toList) {rest path : List String} (hpath : PlainPath path)
    (h : (Components.sectionPointer target name).descend rest = written path) :
    path = "components" :: target.name :: name :: rest := by
  have htext := splitOn_section target hname rest
  rw [h] at htext
  rcases written_cases path with ⟨target', name', rest', htarget', rfl, hwritten⟩ |
    ⟨hescaped, hwritten⟩
  · rw [hwritten, splitOn_section target' (hpath target' name' rest' htarget' rfl)] at htext
    simp only [List.cons.injEq, true_and] at htext
    obtain ⟨hsection, hsame, hrest⟩ := htext
    rw [String.toList_inj.mp hsection, String.toList_inj.mp hsame, map_escapedChars_inj hrest]
  · rw [hwritten, splitOn_root, List.cons.injEq] at htext
    obtain ⟨name', rest', rfl⟩ := path_of_section target htext.2
    exact absurd rfl (hescaped target name' rest' htarget)

/-- **Different paths get different pointers**, as long as the names that are written as they are
hold no slash. -/
theorem written_inj {path path' : List String} (hpath : PlainPath path) (hpath' : PlainPath path')
    (h : written path = written path') : path = path' := by
  rcases written_cases path with ⟨target, name, rest, htarget, rfl, hwritten⟩ |
    ⟨hescaped, hwritten⟩
  · have hname := hpath target name rest htarget rfl
    exact (eq_of_written_section htarget hname hpath' (hwritten.symm.trans h)).symm
  · rcases written_cases path' with ⟨target, name, rest, htarget, rfl, hwritten'⟩ |
      ⟨-, hwritten'⟩
    · have hname := hpath' target name rest htarget rfl
      exact eq_of_written_section htarget hname hpath (hwritten'.symm.trans h.symm)
    · rw [hwritten, hwritten'] at h
      exact descend_inj h

/-- A pointer goes on as its path does, from the name of a component on. -/
theorem written_append {path : List String} (hlength : 3 ≤ path.length) (rest : List String) :
    written (path ++ rest) = (written path).descend rest := by
  rcases written_cases path with ⟨target, name, path, rfl | rfl, rfl, hwritten⟩ |
    ⟨hescaped, hwritten⟩
  · exact descend_append _ path rest
  · exact descend_append _ path rest
  · rcases written_cases (path ++ rest) with ⟨target, name, path', htarget, happend, -⟩ |
      ⟨-, happend⟩
    · -- the first three segments are those of the shorter path
      obtain ⟨first, second, third, path, rfl⟩ : ∃ first second third path',
          path = first :: second :: third :: path' := by
        match path, hlength with
        | first :: second :: third :: path, _ => exact ⟨first, second, third, path, rfl⟩
      simp only [List.cons_append, List.cons.injEq] at happend
      obtain ⟨rfl, rfl, rfl, -⟩ := happend
      exact absurd rfl (hescaped target third path htarget)
    · rw [happend, hwritten]
      exact descend_append root path rest

end Pointer

end ApiModel
