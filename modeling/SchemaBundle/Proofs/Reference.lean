/-
Reading the text of a reference.

A text is cut at its first `#`.  What precedes it names a document, and what follows is
a pointer into that document; a text without `#` has nothing to follow.  A pointer that was
written is read back: an escaped segment has no `/`, so cutting at every `/` finds the
segments again.
-/
import SchemaBundle.Proofs.Text
import SchemaBundle.Reference

namespace SchemaBundle

namespace Pointer

/-! ### Pointers are read back -/

theorem slash_not_mem_escapeChar (c : Char) : '/' ∉ escapeChar c := by
  unfold escapeChar
  split
  · decide
  · split
    · decide
    · rename_i hslash
      simpa using Ne.symm hslash

theorem slash_not_mem_escape (segment : String) : '/' ∉ (escape segment).toList := by
  unfold escape
  rw [String.toList_ofList, List.mem_flatMap]
  rintro ⟨c, -, hc⟩
  exact slash_not_mem_escapeChar c hc

theorem unescapeChars?_escape (cs : List Char) :
    unescapeChars? (cs.flatMap escapeChar) = some cs := by
  induction cs with
  | nil => rfl
  | cons c rest ih =>
      rw [List.flatMap_cons]
      by_cases htilde : c = '~'
      · subst htilde
        show unescapeChars? ('~' :: '0' :: rest.flatMap escapeChar) = _
        rw [unescapeChars?, ih, Option.map_some]
      · by_cases hslash : c = '/'
        · subst hslash
          show unescapeChars? ('~' :: '1' :: rest.flatMap escapeChar) = _
          rw [unescapeChars?, ih, Option.map_some]
        · have hplain : escapeChar c = [c] := by
            unfold escapeChar
            rw [if_neg htilde, if_neg hslash]
          rw [hplain, List.singleton_append, unescapeChars?, if_neg htilde, ih, Option.map_some]
          · rintro _ rfl
            exact absurd rfl htilde
          · rintro _ rfl
            exact absurd rfl htilde

@[simp] theorem unescape_escape (segment : String) : unescape (escape segment) = .ok segment := by
  unfold unescape escape
  rw [String.toList_ofList, unescapeChars?_escape]
  simp

theorem toList_format (pointer : Pointer) : (format pointer).toList =
    pointer.flatMap fun segment => '/' :: (escape segment).toList := by
  unfold format
  rw [String.toList_join, List.flatMap_map]
  congr 1
  funext segment
  simp

theorem splitOn_segments (segment : String) (rest : Pointer) :
    Text.splitOn '/' ((escape segment).toList ++
        rest.flatMap fun segment => '/' :: (escape segment).toList) =
      (segment :: rest).map fun segment => (escape segment).toList := by
  induction rest generalizing segment with
  | nil =>
      rw [List.flatMap_nil, List.append_nil, Text.splitOn_of_not_mem (slash_not_mem_escape segment)]
      rfl
  | cons second rest ih =>
      rw [List.flatMap_cons, List.cons_append,
        Text.splitOn_append (slash_not_mem_escape segment), ih second]
      rfl

/-- **A pointer is read back from its text.** -/
@[simp] theorem parse_format (pointer : Pointer) : parse (format pointer) = .ok pointer := by
  unfold parse
  rw [toList_format]
  cases pointer with
  | nil => rfl
  | cons segment rest =>
      rw [List.flatMap_cons, List.cons_append]
      show (Text.splitOn '/' _).mapM _ = _
      have hread : (fun piece => unescape (String.ofList piece)) ∘
          (fun segment => (escape segment).toList) = (pure : String → Except Malformed String) := by
        funext segment
        rw [Function.comp_apply, String.ofList_toList, unescape_escape]
        rfl
      rw [splitOn_segments, List.mapM_map, hread, List.mapM_pure, List.map_id']
      rfl

end Pointer

namespace Reference

/-- The part of a text that names a document: what precedes the first `#`. -/
def documentPart (text : String) : String :=
  String.ofList (text.toList.takeWhile (· ≠ '#'))

/-- The part of a text that names a place: what follows the first `#`. -/
def placePart (text : String) : String :=
  String.ofList ((text.toList.dropWhile (· ≠ '#')).drop 1)

variable {text : String}

/-- A text without `#` names a document and no place in it. -/
theorem parts_of_not_mem (h : '#' ∉ text.toList) :
    documentPart text = text ∧ placePart text = "" := by
  constructor
  · rw [documentPart, List.takeWhile_eq_self_iff.mpr (Text.all_ne h), String.ofList_toList]
  · rw [placePart, List.dropWhile_eq_nil_iff.mpr (Text.all_ne h)]
    rfl

/-- The two parts with a `#` between them are the text. -/
theorem toList_parts (h : '#' ∈ text.toList) :
    text.toList = (documentPart text).toList ++ '#' :: (placePart text).toList := by
  have hsplit := Text.splitOnce?_eq '#' text.toList
  rw [if_pos h] at hsplit
  have hjoin := Text.eq_append_of_splitOnce? hsplit
  rwa [← String.toList_ofList (l := text.toList.takeWhile _),
    ← String.toList_ofList (l := (text.toList.dropWhile _).drop 1)] at hjoin

theorem parse_of_mem (h : '#' ∈ text.toList) : parse text =
    match Pointer.parse (placePart text) with
    | .error reason => .error (.badPointer reason)
    | .ok pointer => .ok (ofParts (some (documentPart text)) pointer) := by
  unfold parse
  rw [Text.splitOnce?_eq, if_pos h]
  rfl

/-- An empty document part is no document part. -/
theorem ofParts_eq (url : String) (pointer : Pointer) :
    ofParts (some url) pointer = ⟨if url = "" then none else some url, pointer⟩ := by
  unfold ofParts
  by_cases h : url = ""
  · rw [h]
    rfl
  · simp [h]

theorem hash_not_mem_documentPart (text : String) : '#' ∉ (documentPart text).toList := by
  unfold documentPart
  rw [String.toList_ofList]
  intro h
  simpa using List.mem_takeWhile_imp h

/-- A document and a place are read back from the text that has a `#` between them. -/
theorem parts_join {document : String} (h : '#' ∉ document.toList) (place : String) :
    documentPart (document ++ "#" ++ place) = document ∧
      placePart (document ++ "#" ++ place) = place := by
  have htext : (document ++ "#" ++ place).toList = document.toList ++ '#' :: place.toList := by
    simp
  unfold documentPart placePart
  rw [htext, List.takeWhile_append_of_pos (Text.all_ne h),
    List.dropWhile_append_of_pos (Text.all_ne h)]
  simp

/-- The text of a place names no document. -/
theorem parts_internal (pointer : Pointer) :
    documentPart (internal pointer).format = "" ∧
      placePart (internal pointer).format = Pointer.format pointer :=
  parts_join List.not_mem_nil _

/-- A reference is a text with a `#` in it, and what follows is a pointer. -/
theorem parse_eq_ok {reference : Reference} : parse text = .ok reference ↔
    '#' ∈ text.toList ∧ ∃ pointer, Pointer.parse (placePart text) = .ok pointer ∧
      reference = ofParts (some (documentPart text)) pointer := by
  by_cases h : '#' ∈ text.toList
  · rw [parse_of_mem h]
    cases Pointer.parse (placePart text) <;> simp [h, eq_comm]
  · have hnone : parse text = .error .noSeparator := by
      unfold parse
      rw [Text.splitOnce?_eq, if_neg h]
    simp [hnone, h]

/-- The text of a reference has its document before the `#`. -/
theorem format_ofParts (document : String) (pointer : Pointer) :
    (ofParts (some document) pointer).format = document ++ "#" ++ Pointer.format pointer := by
  rw [ofParts_eq]
  by_cases h : document = ""
  · rw [if_pos h, h]
    rfl
  · rw [if_neg h]
    rfl

/-- **A reference is read back from its text.** -/
theorem parse_join {document : String} (h : '#' ∉ document.toList) (pointer : Pointer) :
    parse (document ++ "#" ++ Pointer.format pointer) = .ok (ofParts (some document) pointer) := by
  obtain ⟨hdocument, hplace⟩ := parts_join h (Pointer.format pointer)
  refine parse_eq_ok.mpr ⟨by simp, pointer, ?_, ?_⟩
  · rw [hplace, Pointer.parse_format]
  · rw [hdocument]

end Reference

end SchemaBundle
