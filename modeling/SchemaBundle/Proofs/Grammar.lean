/-
Which texts are references, and which references have a text.

A text is a reference exactly if it has a `#`, what follows the first `#` is nothing or starts
with a `/`, and every `~` there begins an escape.  Reading undoes one escape after the other
while it goes through a segment; writing puts them back.  The two agree because a segment that
was cut out of a text has no `/` of its own, so each of its characters is written in the one way
in which it was read.

The other way round, a pointer can hold anything, since whatever could be taken for a separator
is escaped.  Only a `#` in the name of a document cannot be written: the text is cut there.
-/
import Mathlib.Data.Set.List
import SchemaBundle.Proofs.Reference

namespace SchemaBundle

namespace Pointer

variable {cs ds rest : List Char} {place : String} {pointer : Pointer}

/-! ### Escapes in a text -/

/-- Every `~` is followed by `0` or `1`. -/
def Escaped (cs : List Char) : Prop :=
  ∀ before after, cs = before ++ '~' :: after → after.head? = some '0' ∨ after.head? = some '1'

theorem escaped_nil : Escaped [] := by
  intro before after h
  simp at h

theorem escaped_cons {c : Char} : Escaped (c :: cs) ↔
    (c = '~' → cs.head? = some '0' ∨ cs.head? = some '1') ∧ Escaped cs := by
  constructor
  · intro h
    refine ⟨fun hc => h [] cs (by rw [hc]; rfl), fun before after hcs => ?_⟩
    exact h (c :: before) after (by rw [hcs]; rfl)
  · rintro ⟨hfirst, hrest⟩ before after h
    cases before with
    | nil =>
        obtain ⟨rfl, rfl⟩ := List.cons.inj h
        exact hfirst rfl
    | cons d before => exact hrest before after (List.cons.inj h).2

theorem escaped_slash : Escaped ('/' :: cs) ↔ Escaped cs := by
  rw [escaped_cons]
  simp

/-- An escape does not reach over a `/`. -/
theorem escaped_append : Escaped (cs ++ '/' :: rest) ↔ Escaped cs ∧ Escaped rest := by
  induction cs with
  | nil =>
      rw [List.nil_append, escaped_slash]
      simp [escaped_nil]
  | cons c cs ih =>
      have hhead : (cs ++ '/' :: rest).head? = some '0' ∨ (cs ++ '/' :: rest).head? = some '1' ↔
          cs.head? = some '0' ∨ cs.head? = some '1' := by
        cases cs <;> simp
      rw [List.cons_append, escaped_cons, escaped_cons, ih, hhead, and_assoc]

/-- A text is escaped if all of its segments are. -/
theorem escaped_flatMap {pieces : List (List Char)} :
    Escaped (pieces.flatMap fun piece => '/' :: piece) ↔ ∀ piece ∈ pieces, Escaped piece := by
  induction pieces with
  | nil => simp [escaped_nil]
  | cons piece pieces ih =>
      rw [List.forall_mem_cons, ← ih, List.flatMap_cons, List.cons_append, escaped_slash]
      cases pieces with
      | nil =>
          rw [List.flatMap_nil, List.append_nil]
          simp [escaped_nil]
      | cons second pieces =>
          rw [List.flatMap_cons, List.cons_append, escaped_append, escaped_slash]

/-! ### Segments are written back -/

/-- Escapes can be undone exactly where they are complete. -/
theorem isSome_unescapeChars?_iff : (unescapeChars? cs).isSome ↔ Escaped cs := by
  fun_induction unescapeChars? cs with
  | case1 => simp [escaped_nil]
  | case2 rest ih =>
      rw [Option.isSome_map, ih, escaped_cons, escaped_cons]
      simp
  | case3 rest ih =>
      rw [Option.isSome_map, ih, escaped_cons, escaped_cons]
      simp
  | case4 rest hzero hone =>
      rw [escaped_cons]
      constructor
      · simp
      · rintro ⟨hnext, -⟩
        cases rest with
        | nil => simp at hnext
        | cons d rest =>
            rcases hnext rfl with h | h
            · exact absurd (by rw [Option.some.inj h]) (hzero rest rfl)
            · exact absurd (by rw [Option.some.inj h]) (hone rest rfl)
  | case5 c rest hzero hone hc ih =>
      rw [Option.isSome_map, ih, escaped_cons]
      simp [hc]

/-- **A segment that was read is written as it was**, since no `/` stood in it. -/
theorem escape_of_unescapeChars? (h : unescapeChars? cs = some ds) (hslash : '/' ∉ cs) :
    ds.flatMap escapeChar = cs := by
  fun_induction unescapeChars? cs generalizing ds with
  | case1 =>
      rw [← Option.some.inj h]
      rfl
  | case2 rest ih =>
      obtain ⟨es, hes, rfl⟩ := Option.map_eq_some_iff.mp h
      rw [List.flatMap_cons, ih hes fun hmem => hslash (by simp [hmem])]
      rfl
  | case3 rest ih =>
      obtain ⟨es, hes, rfl⟩ := Option.map_eq_some_iff.mp h
      rw [List.flatMap_cons, ih hes fun hmem => hslash (by simp [hmem])]
      rfl
  | case4 => simp at h
  | case5 c rest hzero hone hc ih =>
      obtain ⟨es, hes, rfl⟩ := Option.map_eq_some_iff.mp h
      rw [List.mem_cons, not_or] at hslash
      have hplain : escapeChar c = [c] := by
        unfold escapeChar
        rw [if_neg hc, if_neg (Ne.symm hslash.1)]
      rw [List.flatMap_cons, ih hes hslash.2, hplain, List.singleton_append]

/-- A piece of a text whose escapes are complete is a segment in escaped form. -/
theorem exists_escape (hslash : '/' ∉ cs) (h : Escaped cs) :
    ∃ segment, (escape segment).toList = cs := by
  obtain ⟨ds, hds⟩ := Option.isSome_iff_exists.mp (isSome_unescapeChars?_iff.mpr h)
  refine ⟨String.ofList ds, ?_⟩
  rw [escape, String.toList_ofList, String.toList_ofList, escape_of_unescapeChars? hds hslash]

/-! ### Pointers are written back -/

/-- What the text of a pointer looks like: it is empty or starts with a `/`, and its escapes are
complete. -/
def IsText (cs : List Char) : Prop :=
  (cs = [] ∨ cs.head? = some '/') ∧ Escaped cs

/-- **Every such text is the text of a pointer.** -/
theorem exists_format (h : IsText place.toList) : ∃ pointer, format pointer = place := by
  obtain ⟨hstart, hescaped⟩ := h
  cases hplace : place.toList with
  | nil => exact ⟨[], String.toList_inj.mp (by rw [hplace]; rfl)⟩
  | cons c rest =>
      rw [hplace] at hstart hescaped
      obtain rfl : c = '/' := by simpa using hstart
      have hpieces := Text.flatMap_splitOn '/' rest
      rw [← hpieces, escaped_flatMap] at hescaped
      have hsegments : Text.splitOn '/' rest ∈
          Set.range (List.map fun segment => (escape segment).toList) := by
        rw [Set.range_list_map]
        exact fun piece hpiece =>
          exists_escape (Text.not_mem_of_mem_splitOn hpiece) (hescaped piece hpiece)
      obtain ⟨pointer, hpointer⟩ := hsegments
      refine ⟨pointer, String.toList_inj.mp ?_⟩
      rw [hplace, toList_format, ← hpieces, ← hpointer, List.flatMap_map]

private theorem escaped_of_mapM {pieces : List (List Char)}
    (h : (pieces.mapM fun piece => unescape (String.ofList piece)) = .ok pointer) :
    ∀ piece ∈ pieces, Escaped piece := by
  induction pieces generalizing pointer with
  | nil => simp
  | cons piece pieces ih =>
      rw [List.mapM_cons] at h
      rw [List.forall_mem_cons]
      cases hpiece : unescapeChars? piece with
      | none => simp [unescape, hpiece, bind, Except.bind] at h
      | some ds =>
          refine ⟨isSome_unescapeChars?_iff.mp (by rw [hpiece]; rfl), ?_⟩
          cases hrest : pieces.mapM fun piece => unescape (String.ofList piece) with
          | error reason =>
              rw [hrest] at h
              simp [unescape, hpiece, bind, Except.bind] at h
          | ok segments => exact ih hrest

/-- A text that is read as a pointer looks like one. -/
theorem isText_of_parse (h : parse place = .ok pointer) : IsText place.toList := by
  unfold parse at h
  split at h
  · rename_i hplace
    rw [hplace]
    exact ⟨Or.inl rfl, escaped_nil⟩
  · rename_i rest hplace
    rw [hplace]
    refine ⟨Or.inr rfl, ?_⟩
    rw [← Text.flatMap_splitOn, escaped_flatMap]
    exact escaped_of_mapM h
  · simp at h

theorem exists_parse_iff : (∃ pointer, parse place = .ok pointer) ↔ IsText place.toList := by
  constructor
  · rintro ⟨pointer, h⟩
    exact isText_of_parse h
  · intro h
    obtain ⟨pointer, rfl⟩ := exists_format h
    exact ⟨pointer, parse_format pointer⟩

/-- **A pointer that was read is written as it was.** -/
theorem format_of_parse (h : parse place = .ok pointer) : format pointer = place := by
  obtain ⟨written, rfl⟩ := exists_format (isText_of_parse h)
  rw [parse_format] at h
  rw [Except.ok.inj h]

end Pointer

namespace Reference

variable {text : String} {reference : Reference}

/-- What the text of a reference looks like: a `#`, and the text of a pointer behind the first
one. -/
def IsText (text : String) : Prop :=
  ∃ document place, text.toList = document ++ '#' :: place ∧ '#' ∉ document ∧
    Pointer.IsText place

theorem isText_iff : IsText text ↔ '#' ∈ text.toList ∧ Pointer.IsText (placePart text).toList := by
  constructor
  · rintro ⟨document, place, htext, hdocument, hplace⟩
    have hjoin : text = String.ofList document ++ "#" ++ String.ofList place :=
      String.toList_inj.mp (by simp [htext])
    refine ⟨by simp [htext], ?_⟩
    rw [hjoin, (parts_join (by rwa [String.toList_ofList]) _).2, String.toList_ofList]
    exact hplace
  · rintro ⟨hmem, hplace⟩
    refine ⟨(documentPart text).toList, (placePart text).toList, ?_,
      hash_not_mem_documentPart text, hplace⟩
    exact toList_parts hmem

theorem exists_parse_iff : (∃ reference, parse text = .ok reference) ↔ IsText text := by
  rw [isText_iff, ← Pointer.exists_parse_iff]
  constructor
  · rintro ⟨reference, h⟩
    obtain ⟨hmem, pointer, hparse, -⟩ := parse_eq_ok.mp h
    exact ⟨hmem, pointer, hparse⟩
  · rintro ⟨hmem, pointer, hparse⟩
    exact ⟨_, parse_eq_ok.mpr ⟨hmem, pointer, hparse, rfl⟩⟩

/-- **A reference that was read is written as it was.** -/
theorem format_of_parse (h : parse text = .ok reference) : reference.format = text := by
  obtain ⟨hmem, pointer, hparse, rfl⟩ := parse_eq_ok.mp h
  apply String.toList_inj.mp
  rw [format_ofParts, Pointer.format_of_parse hparse, toList_parts hmem]
  simp

/-- **A reference that is written is read back exactly if there is no `#` in the name of its
document.** -/
theorem parse_format_iff {url : Option String} {pointer : Pointer} :
    parse (ofParts url pointer).format = .ok (ofParts url pointer) ↔
      ∀ document, url = some document → '#' ∉ document.toList := by
  cases url with
  | none =>
      have hempty : '#' ∉ "".toList := List.not_mem_nil
      have hread : parse (ofParts none pointer).format = .ok (ofParts none pointer) :=
        parse_join hempty pointer
      simp [hread]
  | some document =>
      rw [format_ofParts]
      constructor
      · rintro h found hfound hmem
        obtain rfl := Option.some.inj hfound
        obtain ⟨-, read, -, heq⟩ := parse_eq_ok.mp h
        have hne : document ≠ "" := by
          rintro rfl
          simp at hmem
        have hurl := congrArg Reference.url heq
        rw [ofParts_eq, ofParts_eq, if_neg hne] at hurl
        split at hurl
        · simp at hurl
        · -- the document that is read has no `#`
          rw [Option.some.inj hurl] at hmem
          exact hash_not_mem_documentPart _ hmem
      · intro h
        exact parse_join (h document rfl) pointer

/-- **References and their texts correspond to each other.** A text can be read exactly if it
looks like a reference, and what was read is written as it was. Whatever a pointer holds, it is
read back; and so is a document, unless there is a `#` in its name. -/
theorem parse_inverse_format :
    (∀ text, (∃ reference, parse text = .ok reference) ↔ IsText text) ∧
    (∀ text reference, parse text = .ok reference → reference.format = text) ∧
    ∀ url pointer, parse (ofParts url pointer).format = .ok (ofParts url pointer) ↔
      ∀ document, url = some document → '#' ∉ document.toList :=
  ⟨fun _ => exists_parse_iff, fun _ _ h => format_of_parse h, fun _ _ => parse_format_iff⟩

/-- A text with an escape, an empty segment and another `#`, and a document that cannot be
named. -/
theorem parse_inverse_format_nested :
    (∃ reference, parse "x.json#/a~1b//c#~01" = .ok reference ∧
      reference.format = "x.json#/a~1b//c#~01") ∧
    parse (ofParts (some "a#/b") ["c"]).format ≠ .ok (ofParts (some "a#/b") ["c"]) := by
  obtain ⟨hreads, hwrites, hback⟩ := parse_inverse_format
  constructor
  · have htext : IsText "x.json#/a~1b//c#~01" := by
      rw [isText_iff]
      have hplace : Pointer.parse (placePart "x.json#/a~1b//c#~01") = .ok ["a/b", "", "c#~1"] := by
        decide +kernel
      exact ⟨by decide, Pointer.isText_of_parse hplace⟩
    obtain ⟨reference, hread⟩ := (hreads _).mpr htext
    exact ⟨reference, hread, hwrites _ _ hread⟩
  · intro hread
    exact (hback (some "a#/b") ["c"]).mp hread "a#/b" rfl (by decide)

end Reference

end SchemaBundle
