import ApiModel.Pointer
import Mathlib.Data.List.Basic
/-!
# Pointers identify paths

A pointer is one text, so two different paths into a document could in principle be written
alike.  Escaping rules that out: an escaped segment holds no slash and determines its
segment, so a text splits at its slashes into exactly the segments that it was joined from.
-/

namespace ApiModel.Pointer

/-- No escaped character is a slash. -/
theorem slash_not_mem_escapeChar (c : Char) : '/' ∉ escapeChar c := by
  unfold escapeChar
  by_cases htilde : c = '~'
  · simp [htilde]
  · by_cases hslash : c = '/'
    · simp [hslash]
    · rw [if_neg htilde, if_neg hslash, List.mem_singleton]
      exact fun h => hslash h.symm

/-- Writes a word for every occurrence of a character. -/
def replaceChar (c : Char) (word text : List Char) : List Char :=
  text.flatMap fun d => if d = c then word else [d]

/-- Escaping is replacing the tildes first and the slashes after them: the words for tildes hold no
slash. -/
theorem toList_escape (segment : String) :
    (escape segment).toList =
      replaceChar '/' ['~', '1'] (replaceChar '~' ['~', '0'] segment.toList) := by
  have hchar (c : Char) : escapeChar c =
      (if c = '~' then ['~', '0'] else [c]).flatMap fun d => if d = '/' then ['~', '1'] else [d] := by
    unfold escapeChar
    by_cases htilde : c = '~'
    · simp [htilde]
    · simp [htilde]
  unfold escape replaceChar
  rw [String.toList_ofList, List.flatMap_assoc, funext hchar]

/-- The characters of an escaped segment. -/
def escapedChars (segment : String) : List Char :=
  segment.toList.flatMap escapeChar

/-- An escaped segment holds no separator. -/
theorem slash_not_mem_escapedChars (segment : String) : '/' ∉ escapedChars segment := by
  intro h
  obtain ⟨c, -, hc⟩ := List.mem_flatMap.mp h
  exact slash_not_mem_escapeChar c hc

/-- Escaped characters form a prefix code: the text in which they come first determines them. -/
theorem escapeChar_append_inj {c d : Char} {r q : List Char}
    (h : escapeChar c ++ r = escapeChar d ++ q) : c = d ∧ r = q := by
  unfold escapeChar at h
  split_ifs at h <;> grind

/-- Escaping loses nothing. -/
theorem flatMap_escapeChar_inj {cs ds : List Char}
    (h : cs.flatMap escapeChar = ds.flatMap escapeChar) : cs = ds := by
  have hne (c : Char) : escapeChar c ≠ [] := by
    unfold escapeChar
    split_ifs <;> simp
  induction cs generalizing ds with
  | nil =>
    cases ds with
    | nil => rfl
    | cons d ds => simp [hne d] at h
  | cons c cs ih =>
    cases ds with
    | nil => simp [hne c] at h
    | cons d ds =>
      rw [List.flatMap_cons, List.flatMap_cons] at h
      obtain ⟨rfl, hrest⟩ := escapeChar_append_inj h
      rw [ih hrest]

/-- Segments are determined by their escaped forms. -/
theorem escapedChars_inj {a b : String} (h : escapedChars a = escapedChars b) : a = b :=
  String.toList_inj.mp (flatMap_escapeChar_inj h)

/-- The characters that a path adds to a pointer. -/
def pathChars (segments : List String) : List Char :=
  segments.flatMap fun segment => '/' :: escapedChars segment

@[simp] theorem pathChars_nil : pathChars [] = [] := rfl

/-- Each segment is spelled behind a slash. -/
theorem pathChars_cons (segment : String) (segments : List String) :
    pathChars (segment :: segments) = '/' :: (escapedChars segment ++ pathChars segments) := by
  simp [pathChars]

@[simp] theorem child_chars (p : Pointer) (segment : String) :
    (p.child segment).text.toList = p.text.toList ++ '/' :: escapedChars segment := by
  simp [child, escape, escapedChars]

/-- Going down spells the path behind the pointer. -/
theorem descend_chars (p : Pointer) (segments : List String) :
    (p.descend segments).text.toList = p.text.toList ++ pathChars segments := by
  induction segments generalizing p with
  | nil => simp [descend]
  | cons segment segments ih =>
    have h := ih (p.child segment)
    rw [child_chars] at h
    rw [pathChars_cons]
    simpa [descend] using h

/-- Two pieces without a slash agree when they are followed by paths that make the same text. -/
theorem append_pathChars_inj {a b : List Char} {xs ys : List String}
    (ha : '/' ∉ a) (hb : '/' ∉ b) (h : a ++ pathChars xs = b ++ pathChars ys) :
    a = b ∧ pathChars xs = pathChars ys := by
  induction a generalizing b with
  | nil =>
    cases b with
    | nil => exact ⟨rfl, h⟩
    | cons d b =>
      cases xs with
      | nil => simp at h
      | cons x xs =>
        rw [pathChars_cons] at h
        simp at h
        simp [← h.1] at hb
  | cons c a ih =>
    cases b with
    | nil =>
      cases ys with
      | nil => simp at h
      | cons y ys =>
        rw [pathChars_cons] at h
        simp at h
        simp [h.1] at ha
    | cons d b =>
      simp only [List.cons_append, List.cons.injEq] at h
      obtain ⟨rfl, hrest⟩ := h
      have hab := ih (fun hm => ha (.tail _ hm)) (fun hm => hb (.tail _ hm)) hrest
      exact ⟨by rw [hab.1], hab.2⟩

/-- A spelled path determines its segments. -/
theorem pathChars_inj {xs ys : List String} (h : pathChars xs = pathChars ys) : xs = ys := by
  induction xs generalizing ys with
  | nil =>
    cases ys with
    | nil => rfl
    | cons y ys => simp [pathChars_cons] at h
  | cons x xs ih =>
    cases ys with
    | nil => simp [pathChars_cons] at h
    | cons y ys =>
      rw [pathChars_cons, pathChars_cons, List.cons.injEq] at h
      obtain ⟨hx, hrest⟩ := append_pathChars_inj (slash_not_mem_escapedChars x)
        (slash_not_mem_escapedChars y) h.2
      rw [escapedChars_inj hx, ih hrest]

/-- **Paths are told apart.**  Different paths from one node lead to different pointers. -/
theorem descend_inj {p : Pointer} {xs ys : List String} (h : p.descend xs = p.descend ys) :
    xs = ys := by
  have hchars : (p.descend xs).text.toList = (p.descend ys).text.toList := by rw [h]
  rw [descend_chars, descend_chars] at hchars
  exact pathChars_inj (List.append_cancel_left hchars)

@[simp] theorem descend_nil (p : Pointer) : p.descend [] = p := rfl

/-- Going down twice is going down the whole path. -/
theorem descend_append (p : Pointer) (xs ys : List String) :
    p.descend (xs ++ ys) = (p.descend xs).descend ys := by
  simp [descend]

/-- The node that holds the component schemas. -/
def schemaRoot : Pointer := ⟨"#/components/schemas"⟩

/-- A component is a segment of the path from the schemas down. -/
theorem component_descend (name : String) (xs : List String) :
    (component name).descend xs = schemaRoot.descend (name :: xs) := rfl

/-- A pointer below a component determines the component and the path. -/
theorem component_descend_inj {m n : String} {xs ys : List String}
    (h : (component m).descend xs = (component n).descend ys) : m = n ∧ xs = ys := by
  rw [component_descend, component_descend] at h
  exact List.cons_eq_cons.mp (descend_inj h)

/-- Only the empty path leads from a component to a component. -/
theorem component_of_descend {m n : String} {path : List String}
    (h : (component m).descend path = component n) : m = n ∧ path = [] := by
  rw [← descend_nil (component n)] at h
  exact component_descend_inj h

/-- **Pointers are told apart.**  A pointer below a node determines the path, a pointer to a
component its name, and no path leads from a component to another one. -/
theorem pointers_told_apart :
    (∀ (base : Pointer) (xs ys : List String), base.descend xs = base.descend ys ↔ xs = ys) ∧
    (∀ a b : String, component a = component b ↔ a = b) ∧
    (∀ (a b : String) (path : List String),
      (component a).descend path = component b ↔ a = b ∧ path = []) := by
  have hpaths (base : Pointer) (xs ys : List String) :
      base.descend xs = base.descend ys ↔ xs = ys :=
    ⟨descend_inj, congrArg base.descend⟩
  have hbelow (a b : String) (path : List String) :
      (component a).descend path = component b ↔ a = b ∧ path = [] := by
    constructor
    · exact component_of_descend
    · rintro ⟨rfl, rfl⟩
      exact descend_nil (component a)
  have hnames (a b : String) : component a = component b ↔ a = b := by
    rw [← descend_nil (component a), hbelow, and_iff_left rfl]
  exact ⟨hpaths, hnames, hbelow⟩

end ApiModel.Pointer
