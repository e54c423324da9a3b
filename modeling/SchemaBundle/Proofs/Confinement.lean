/-
A loader of files does not leave its directory.

Whether a path may be read is judged by the place that it names, and it is read at that same
place, since a walk through directories without links ends in one place only.  Such places are
compared name by name: a directory whose name merely begins like the base is another one.

The loader is more liberal with a path that names nothing, which it judges by the directory in
front of it.  This opens no way out.  A path that names nothing cannot be read either, so all that
depends on that judgement is which error there is.
-/
import SchemaBundle.Proofs.Files
import SchemaBundle.Proofs.Text

namespace SchemaBundle

namespace FileSystem

variable {fs : FileSystem} {path base identity piece : String} {b place next : List String}
  {document : Json} {error : Error}

/-! ### Places that paths name -/

/-- A piece leads from something that exists to something that exists. -/
theorem isSome_of_step (h : fs.step place piece = .ok next) : (fs.root.at? next).isSome := by
  unfold step at h
  split at h
  · simp at h
  · simp at h
  · rename_i entries hdirectory
    split_ifs at h with hidle hup hlong hthere
    · rw [← Except.ok.inj h, hdirectory]
      rfl
    · -- the directory above one that exists
      rw [← Except.ok.inj h]
      cases hplace : place.getLast? with
      | none =>
          obtain rfl := List.getLast?_eq_none_iff.mp hplace
          rfl
      | some last =>
          obtain ⟨front, rfl⟩ := List.getLast?_eq_some_iff.mp hplace
          rw [FileTree.at?_append] at hdirectory
          obtain ⟨above, habove, -⟩ := Option.bind_eq_some_iff.mp hdirectory
          rw [List.dropLast_concat, habove]
          rfl
    · rw [← Except.ok.inj h, FileTree.at?_append, hdirectory, Option.bind_some,
        FileTree.at?_directory]
      obtain ⟨child, hchild⟩ := Option.isSome_iff_exists.mp hthere
      rw [hchild]
      rfl

/-- So does a walk, which takes at least one piece. -/
theorem isSome_of_walk {absolute : Bool} {pieces : List String} (hne : pieces ≠ [])
    (h : fs.walk absolute pieces = .ok place) : (fs.root.at? place).isSome := by
  obtain ⟨front, last, rfl⟩ := (List.eq_nil_or_concat pieces).resolve_left hne
  rw [List.concat_eq_append, walk_append] at h
  obtain ⟨found, -, hlast⟩ := Error.bind_eq_ok.mp h
  rw [List.foldlM_cons] at hlast
  obtain ⟨next, hstep, hend⟩ := Error.bind_eq_ok.mp hlast
  exact Except.ok.inj hend ▸ isSome_of_step hstep

/-- **What a path names exists.** -/
theorem isSome_of_locate (h : fs.locate path = .ok place) : (fs.root.at? place).isSome := by
  unfold locate at h
  obtain ⟨-, -, hwalk⟩ := Error.bind_eq_ok.mp h
  exact isSome_of_walk (by simp [Text.pieces, Text.splitOn_ne_nil]) hwalk

/-! ### Reading -/

/-- A document is read from the file that a path names, in the format that the path tells. -/
theorem document_eq_ok : fs.document path = .ok document ↔
    ∃ place format text, fs.locate path = .ok place ∧
      fs.root.at? place = some (.file (some text)) ∧
      FileFormat.ofPath path = .ok format ∧ format.read path text = .ok document := by
  unfold FileSystem.document
  rw [Error.bind_eq_ok]
  constructor
  · rintro ⟨format, hformat, h⟩
    split at h
    · rename_i text hread
      obtain ⟨place, hplace, hfile⟩ := read_eq_ok.mp hread
      exact ⟨place, format, text, hplace, hfile, hformat, h⟩
    · simp at h
  · rintro ⟨place, format, text, hplace, hfile, hformat, h⟩
    refine ⟨format, hformat, ?_⟩
    rw [read_eq_ok.mpr ⟨place, hplace, hfile⟩]
    exact h

/-- No document is refused for where it lies: the file could not be read, or not understood. -/
theorem document_ne_traversal (reference directory : String) :
    fs.document path ≠ .error (.pathTraversal reference directory) := by
  intro h
  unfold FileSystem.document at h
  rcases Error.bind_eq_error.mp h with hformat | ⟨format, -, h⟩
  · unfold FileFormat.ofPath at hformat
    split at hformat <;> simp at hformat
  · split at h
    · unfold FileFormat.read at h
      split at h
      · split at h <;> simp at h
      · split at h
        · simp at h
        · split at h <;> simp at h
    · simp at h

/-! ### Judging -/

theorem isWithin_iff : isWithin b place = true ↔ b <+: place := by
  rw [isWithin, beq_iff_eq, List.prefix_iff_eq_take, eq_comm]

/-- A path that names something is judged by its place. -/
theorem isSafe_iff (h : fs.locate (Path.join base path) = .ok place) :
    fs.isSafe base path = true ↔ ∃ b, fs.locate base = .ok b ∧ b <+: place := by
  unfold isSafe judgedPlace?
  rw [h]
  cases fs.locate base with
  | ok b => simp [isWithin_iff]
  | error fault => simp

theorem loader_eq_ok : fs.loader base identity = .ok document ↔
    fs.isSafe base (pathOf identity) = true ∧
      fs.document (Path.join base (pathOf identity)) = .ok document := by
  by_cases hsafe : fs.isSafe base (pathOf identity) = true
  · simp only [loader, loadFrom, hsafe, if_true, true_and]
    cases fs.document (Path.join base (pathOf identity)) <;> simp
  · simp [loader, loadFrom, hsafe]

theorem loader_eq_traversal :
    fs.loader base identity = .error (.error (.pathTraversal identity base)) ↔
      ¬ fs.isSafe base (pathOf identity) = true := by
  by_cases hsafe : fs.isSafe base (pathOf identity) = true
  · simp only [loader, loadFrom, hsafe, if_true, not_true, iff_false]
    intro h
    cases hdocument : fs.document (Path.join base (pathOf identity)) with
    | ok document => simp [hdocument] at h
    | error error =>
        rw [hdocument] at h
        obtain rfl : error = .pathTraversal identity base := by simpa using h
        exact document_ne_traversal _ _ hdocument
  · simp [loader, loadFrom, hsafe]

/-- **A loader reads what lies in or below its directory, and nothing else.** A document is loaded
exactly if the identity names a file there that holds it. And if an identity names anything that
exists, it is refused as leading out exactly if that does not lie in or below the directory, or
there is no such directory. -/
theorem loader_confined (fs : FileSystem) (base identity : String) :
    (∀ document, fs.loader base identity = .ok document ↔
      ∃ b below format text, fs.locate base = .ok b ∧
        fs.locate (Path.join base (pathOf identity)) = .ok (b ++ below) ∧
        (fs.root.at? b).bind (FileTree.at? below) = some (.file (some text)) ∧
        FileFormat.ofPath (Path.join base (pathOf identity)) = .ok format ∧
        format.read (Path.join base (pathOf identity)) text = .ok document) ∧
    ∀ place, fs.locate (Path.join base (pathOf identity)) = .ok place →
      (fs.root.at? place).isSome ∧
        (fs.loader base identity = .error (.error (.pathTraversal identity base)) ↔
          ∀ b, fs.locate base = .ok b → ¬ b <+: place) := by
  constructor
  · intro document
    rw [loader_eq_ok, document_eq_ok]
    constructor
    · rintro ⟨hsafe, place, format, text, hplace, hfile, hformat, hread⟩
      obtain ⟨b, hbase, below, rfl⟩ := (isSafe_iff hplace).mp hsafe
      rw [FileTree.at?_append] at hfile
      exact ⟨b, below, format, text, hbase, hplace, hfile, hformat, hread⟩
    · rintro ⟨b, below, format, text, hbase, hplace, hfile, hformat, hread⟩
      rw [← FileTree.at?_append] at hfile
      exact ⟨(isSafe_iff hplace).mpr ⟨b, hbase, List.prefix_append b below⟩, _, format, text,
        hplace, hfile, hformat, hread⟩
  · intro place hplace
    refine ⟨isSome_of_locate hplace, ?_⟩
    rw [loader_eq_traversal, isSafe_iff hplace]
    simp

/-- A directory of schemas between a file and a directory whose name begins like its own. -/
def shelf : FileSystem where
  root := .directory [("work", .directory
    [("schemas", .directory [("car.json", .file (some "\x7b\x7d"))]),
      ("schemas-old", .directory [("car.json", .file (some "[]"))]),
      ("secret.json", .file (some "1"))])]
  here := ["work"]

theorem loader_confined_shelf :
    shelf.loader "schemas" "file://./../schemas/car.json" = .ok (.object []) ∧
      shelf.loader "schemas" "../schemas-old/car.json" =
        .error (.error (.pathTraversal "../schemas-old/car.json" "schemas")) := by
  obtain ⟨hloads, -⟩ := loader_confined shelf "schemas" "file://./../schemas/car.json"
  obtain ⟨-, hrefuses⟩ := loader_confined shelf "schemas" "../schemas-old/car.json"
  have hbase : shelf.locate "schemas" = .ok ["work", "schemas"] := by decide +kernel
  constructor
  · exact (hloads _).mpr ⟨["work", "schemas"], ["car.json"], .json, "\x7b\x7d", hbase,
      by decide +kernel, rfl, rfl, rfl⟩
  · have hplace : shelf.locate "schemas/../schemas-old/car.json" =
        .ok ["work", "schemas-old", "car.json"] := by decide +kernel
    refine ((hrefuses _ hplace).2).mpr fun b hb => ?_
    obtain rfl : ["work", "schemas"] = b := Except.ok.inj (hbase.symm.trans hb)
    decide

end FileSystem

end SchemaBundle
