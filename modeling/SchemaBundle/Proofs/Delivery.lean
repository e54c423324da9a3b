/-
Golden files guard what is written.

The result of a command can be compared with a golden file and saved.  The comparison comes first,
so as long as it only compares, a result that differs from its golden file stops the command
before anything was written.  The format of the file to save is told by its path, and it is asked
for before there are any directories, so a path that names none has changed nothing either.

After a success the golden file holds the text of the document.  Saving changes one place only,
and directories that are made on the way are made where nothing was.  If the golden file stands
at this very place, it is overwritten, however the two paths are spelled, and this does no harm
as long as the format is JSON, which is saved in the text of golden files.
-/
import SchemaBundle.Proofs.Command
import SchemaBundle.Proofs.Files
import SchemaBundle.Proofs.Text

namespace SchemaBundle

/-! ### Paths that end in the extension of golden files -/

namespace Path

variable {path : String} {front : List String} {last : String}

/-- A last piece that leads somewhere is the last step. -/
theorem lastName?_eq_some (hpieces : Text.pieces '/' path = front ++ [last])
    (hidle : isIdle last = false) (hup : last ≠ "..") : lastName? path = some last := by
  have hsteps : steps path = front ++ [last] := by
    unfold steps
    rw [hpieces]
    cases front with
    | nil => rfl
    | cons first rest => simp [withoutIdleEnd, hidle]
  unfold lastName?
  rw [hsteps, List.getLast?_concat]
  simp [hidle, hup]

/-- The last step of a path ends as the path does. -/
theorem exists_lastName? (h : Golden.extension.toList <:+ path.toList) :
    ∃ stem, lastName? path = some (String.ofList (stem ++ Golden.extension.toList)) := by
  obtain ⟨cs, hcs⟩ := h
  obtain ⟨front, stem, hsplit⟩ :=
    Text.exists_splitOn_append (by decide : '/' ∉ Golden.extension.toList) cs
  have hpieces : Text.pieces '/' path =
      front.map String.ofList ++ [String.ofList (stem ++ Golden.extension.toList)] := by
    rw [Text.pieces, ← hcs, hsplit, List.map_append]
    rfl
  have hend : (stem ++ Golden.extension.toList).getLast? = some 'n' := by
    rw [List.getLast?_append]
    rfl
  have hne : ∀ other : String, other.toList.getLast? ≠ some 'n' →
      String.ofList (stem ++ Golden.extension.toList) ≠ other := by
    intro other hother heq
    rw [← heq, String.toList_ofList] at hother
    exact hother hend
  refine ⟨stem, lastName?_eq_some hpieces ?_ (hne _ (by decide))⟩
  rw [isIdle, Bool.or_eq_false_iff]
  exact ⟨Bool.eq_false_iff.mpr (mt String.isEmpty_iff.mp (hne "" (by decide))),
    decide_eq_false (hne "." (by decide))⟩

theorem cutExtension_golden (stem : List Char) :
    cutExtension (String.ofList (stem ++ Golden.extension.toList)) =
      if stem.isEmpty then (Golden.extension, none)
      else (String.ofList stem, some (FileFormat.extension .json)) := by
  unfold cutExtension
  cases stem <;> simp [Golden.extension, FileFormat.extension]

end Path

/-- A path that ends like those of golden files names no other format than theirs. -/
theorem FileFormat.ofPath_golden {path : String} {format : FileFormat}
    (hend : Golden.extension.toList <:+ path.toList) (h : ofPath path = .ok format) :
    format = .json := by
  obtain ⟨stem, hname⟩ := Path.exists_lastName? hend
  unfold ofPath Path.extension? at h
  rw [hname, Option.bind_some, Path.cutExtension_golden] at h
  split_ifs at h
  · simp at h
  · exact (Except.ok.inj h).symm

namespace Command

variable {setup : Setup} {document : Json} {destination : Destination} {saveTo : Option String}
  {path : String} {s s' : Session} {failure : Failure} {error : Error}

/-! ### Comparing -/

/-- The mode in which a command compares: colours follow the output. -/
def goldenMode (setup : Setup) : Golden.Mode :=
  { setup.golden with
    options := { setup.golden.options with
      colored := setup.output.color && setup.golden.options.colored } }

theorem checkGolden_eq (setup : Setup) (document : Json) (path : String) (s : Session) :
    checkGolden setup document path s =
      match Golden.verify (goldenMode setup) s.files path document with
      | .error fault => (.error (.golden fault), s)
      | .ok (verdict, files) =>
        (.ok (), ⟨files, s.printed ++ setup.output.success (verdictText verdict path)⟩) := by
  show (match Golden.verify (goldenMode setup) s.files path document with
    | .error fault => throw (.golden fault)
    | .ok (verdict, files) => do
      setFiles files
      print (setup.output.success (verdictText verdict path)) : Command Unit) s = _
  cases Golden.verify (goldenMode setup) s.files path document <;> rfl

theorem checkGolden_ok {u : Unit} (h : checkGolden setup document path s = (.ok u, s')) :
    ∃ verdict, Golden.verify (goldenMode setup) s.files path document =
      .ok (verdict, s'.files) := by
  rw [checkGolden_eq] at h
  split at h
  · cases h
  · rename_i verdict files hverify
    cases h
    exact ⟨verdict, hverify⟩

/-- A comparison that fails has changed nothing, not even what was printed. -/
theorem checkGolden_error (h : checkGolden setup document path s = (.error failure, s')) :
    (∃ fault, failure = .golden fault) ∧ s' = s := by
  rw [checkGolden_eq] at h
  split at h
  · cases h
    exact ⟨⟨_, rfl⟩, rfl⟩
  · cases h

/-- A comparison that succeeds has changed no file unless it was asked to. -/
theorem files_checkGolden {u : Unit} (hmode : setup.golden.update = false)
    (h : checkGolden setup document path s = (.ok u, s')) : s'.files = s.files := by
  obtain ⟨verdict, hverify⟩ := checkGolden_ok h
  rcases Golden.verifyText_ok hverify with ⟨-, -, hfiles⟩ | ⟨-, -, -, -, hupdate, -⟩
  · exact hfiles
  · exact absurd (hmode.symm.trans hupdate) Bool.false_ne_true

/-! ### Saving -/

/-- A change of the files that can fail. -/
def changeFiles (change : FileSystem → Except FileFault FileSystem) : Command Unit := do
  setFiles (← ofFile (change (← files)))

theorem changeFiles_eq (change : FileSystem → Except FileFault FileSystem) (s : Session) :
    changeFiles change s =
      match change s.files with
      | .ok files => (.ok (), { s with files })
      | .error fault => (.error (.io fault), s) := by
  show (ofFile (change s.files) >>= setFiles) s = _
  cases change s.files <;> rfl

theorem changeFiles_ok {change : FileSystem → Except FileFault FileSystem} {u : Unit}
    (h : changeFiles change s = (.ok u, s')) : change s.files = .ok s'.files := by
  rw [changeFiles_eq] at h
  split at h
  · rename_i hchange
    cases h
    exact hchange
  · cases h

theorem changeFiles_error {change : FileSystem → Except FileFault FileSystem}
    (h : changeFiles change s = (.error failure, s')) : ∃ fault, failure = .io fault := by
  rw [changeFiles_eq] at h
  split at h
  · cases h
  · cases h
    exact ⟨_, rfl⟩

theorem saveDocument_eq (document : Json) (path : String) :
    saveDocument document path =
      ofDocument (FileFormat.ofPath path) >>= fun format =>
        (match Path.parent? path with
          | some parent => changeFiles fun fs => fs.makeDirectories parent
          | none => pure ()) >>= fun _ =>
        changeFiles fun fs => fs.write path (fileText format document) := by
  unfold saveDocument
  refine bind_congr fun format => ?_
  cases Path.parent? path with
  | some parent => simp only [changeFiles, bind_assoc]
  | none => rfl

/-- Saving a document is saving a golden file with the text that the format asks for. -/
theorem saveDocument_ok {u : Unit} (h : saveDocument document path s = (.ok u, s')) :
    ∃ format, FileFormat.ofPath path = .ok format ∧
      Golden.save s.files path (fileText format document) = .ok s'.files := by
  rw [saveDocument_eq, bind_eq_ok] at h
  obtain ⟨format, s₁, hfound, h⟩ := h
  obtain ⟨hformat, rfl⟩ := ofDocument_eq_ok.mp hfound
  obtain ⟨u', s₁, hparent, hwrite⟩ := bind_eq_ok.mp h
  replace hwrite := changeFiles_ok hwrite
  refine ⟨format, hformat, ?_⟩
  unfold Golden.save
  cases hpath : Path.parent? path with
  | some parent =>
      rw [hpath] at hparent
      simp [Except.bind, changeFiles_ok hparent, hwrite]
  | none =>
      rw [hpath] at hparent
      obtain ⟨-, rfl⟩ := pure_eq_ok.mp hparent
      simp [Except.bind, hwrite]

/-- What is wrong with a path as such is known before anything is written. -/
theorem saveDocument_error (h : saveDocument document path s = (.error failure, s')) :
    (∃ error, FileFormat.ofPath path = .error error ∧ failure = .document error ∧ s' = s) ∨
      ∃ fault, failure = .io fault := by
  rw [saveDocument_eq] at h
  rcases bind_eq_error.mp h with h | ⟨format, s₁, -, h⟩
  · exact .inl (ofDocument_eq_error.mp h)
  · refine .inr ?_
    rcases bind_eq_error.mp h with h | ⟨u, s₂, -, h⟩
    · cases hpath : Path.parent? path with
      | some parent =>
          rw [hpath] at h
          exact changeFiles_error h
      | none =>
          rw [hpath] at h
          exact absurd h pure_ne_error
    · exact changeFiles_error h

/-! ### Delivering -/

theorem deliver_golden (setup : Setup) (document : Json) (saveTo : Option String) (path : String) :
    deliver setup document ⟨saveTo, some path⟩ =
      checkGolden setup document path >>= fun _ => deliver setup document ⟨saveTo, none⟩ := rfl

theorem deliver_save (setup : Setup) (document : Json) (path : String) :
    deliver setup document ⟨some path, none⟩ =
      saveDocument document path >>= fun _ =>
        print (setup.output.success ("✓ Saved to " ++ path)) := rfl

theorem deliver_print (setup : Setup) (document : Json) :
    deliver setup document ⟨none, none⟩ = print (setup.output.document document) := rfl

/-- After the comparison files change only where there is one to save. -/
theorem rest_ok {u : Unit} (h : deliver setup document ⟨saveTo, none⟩ s = (.ok u, s')) :
    (∀ path, saveTo = some path → ∃ format, FileFormat.ofPath path = .ok format ∧
      Golden.save s.files path (fileText format document) = .ok s'.files) ∧
      (saveTo = none → s'.files = s.files) := by
  cases saveTo with
  | some path =>
      rw [deliver_save] at h
      obtain ⟨u', s₁, hsave, hprint⟩ := bind_eq_ok.mp h
      obtain rfl := print_eq_ok.mp hprint
      have hsaved := saveDocument_ok hsave
      refine ⟨fun _ heq => ?_, nofun⟩
      cases heq
      exact hsaved
  | none =>
      rw [deliver_print] at h
      obtain rfl := print_eq_ok.mp h
      exact ⟨nofun, fun _ => rfl⟩

/-- What fails then, but not for a file, has changed nothing. -/
theorem rest_error (h : deliver setup document ⟨saveTo, none⟩ s = (.error failure, s'))
    (hio : ∀ fault, failure ≠ .io fault) : s' = s := by
  cases saveTo with
  | some path =>
      rw [deliver_save] at h
      rcases bind_eq_error.mp h with hsave | ⟨u, s₁, -, hprint⟩
      · rcases saveDocument_error hsave with ⟨error, -, -, hsame⟩ | ⟨fault, hfault⟩
        · exact hsame
        · exact absurd hfault (hio fault)
      · exact absurd hprint print_ne_error
  | none =>
      rw [deliver_print] at h
      exact absurd h print_ne_error

theorem rest_unsupported (h : FileFormat.ofPath path = .error error) (s : Session) :
    deliver setup document ⟨some path, none⟩ s = (.error (.document error), s) := by
  rw [deliver_save, saveDocument_eq]
  refine bind_eq_error.mpr (.inl (bind_eq_error.mpr (.inl ?_)))
  exact ofDocument_eq_error.mpr ⟨error, h, rfl, rfl⟩

/-- The comparison, if there is one, and then the rest. -/
theorem deliver_ok {u : Unit} (h : deliver setup document destination s = (.ok u, s')) :
    ∃ s₁, deliver setup document ⟨destination.saveTo, none⟩ s₁ = (.ok u, s') ∧
      ∀ path, destination.golden = some path →
        ∃ verdict, Golden.verify (goldenMode setup) s.files path document =
          .ok (verdict, s₁.files) := by
  obtain ⟨saveTo, golden⟩ := destination
  cases golden with
  | some path =>
      rw [deliver_golden] at h
      obtain ⟨u', s₁, hcheck, hrest⟩ := bind_eq_ok.mp h
      refine ⟨s₁, hrest, fun _ heq => ?_⟩
      cases heq
      exact checkGolden_ok hcheck
  | none => exact ⟨s, h, nofun⟩

/-- A comparison that fails ends the delivery. -/
theorem deliver_fault {fault : Golden.Fault}
    (h : Golden.verify (goldenMode setup) s.files path document = .error fault) :
    deliver setup document ⟨saveTo, some path⟩ s = (.error (.golden fault), s) := by
  rw [deliver_golden]
  refine bind_eq_error.mpr (.inl ?_)
  rw [checkGolden_eq, h]

/-- **What is refused before anything is written**, in a mode that only compares. -/
structure Guarded (setup : Setup) (document : Json) (destination : Destination) (s : Session) :
    Prop where
  /-- A golden file that cannot be read. -/
  unreadable : ∀ path fault, destination.golden = some path →
    Golden.load s.files path = .error fault →
    deliver setup document destination s = (.error (.golden fault), s)
  /-- A golden file that is not there. -/
  missing : ∀ path, destination.golden = some path → Golden.load s.files path = .ok none →
    deliver setup document destination s = (.error (.golden (.missing path)), s)
  /-- A golden file that holds something else. -/
  different : ∀ path text, destination.golden = some path →
    Golden.load s.files path = .ok (some text) → text ≠ document.canonical →
    ∃ difference, deliver setup document destination s =
      (.error (.golden (.mismatch path difference)), s)
  /-- A path to save to whose extension names no format. -/
  unsupported : ∀ path error, destination.saveTo = some path →
    FileFormat.ofPath path = .error error →
    ∃ failure s', deliver setup document destination s = (.error failure, s') ∧
      s'.files = s.files ∧ (failure = .document error ∨ ∃ fault, failure = .golden fault)
  /-- Whatever the reason, unless a file or directory could not be made. -/
  unchanged : ∀ failure s', deliver setup document destination s = (.error failure, s') →
    (∀ fault, failure ≠ .io fault) → s'.files = s.files

/-- **What has been done after a success**, in any mode. -/
structure Delivered (setup : Setup) (document : Json) (destination : Destination)
    (s s' : Session) : Prop where
  /-- The golden file was compared first, and written only if it had not the text already. -/
  compared : ∀ path, destination.golden = some path → ∃ verdict s₁,
    Golden.verify (goldenMode setup) s.files path document = .ok (verdict, s₁.files) ∧
    deliver setup document ⟨destination.saveTo, none⟩ s₁ = (.ok (), s') ∧
    (Golden.load s.files path = .ok (some document.canonical) ∧ verdict = .matched ∧
        s₁.files = s.files ∨
      ∃ found, Golden.load s.files path = .ok found ∧ found ≠ some document.canonical ∧
        verdict = (if found.isSome then .updated else .created) ∧ setup.golden.update = true ∧
        Golden.save s.files path document.canonical = .ok s₁.files)
  /-- It holds the text, unless something that is not JSON was saved at the same place. -/
  golden : ∀ path, destination.golden = some path →
    (∀ other, destination.saveTo = some other → s'.files.locate other = s'.files.locate path →
      FileFormat.ofPath other = .ok .json) →
    Golden.load s'.files path = .ok (some document.canonical)
  /-- What was saved as JSON is a golden file of exactly the documents with the same text. -/
  saved : ∀ path, destination.saveTo = some path →
    Golden.extension.toList <:+ path.toList ∨ FileFormat.ofPath path = .ok .json →
    ∀ mode, mode.update = false → ∀ other,
      (∃ result, Golden.verify mode s'.files path other = .ok result) ↔
        other.canonical = document.canonical

theorem guarded (hmode : setup.golden.update = false) (document : Json)
    (destination : Destination) (s : Session) : Guarded setup document destination s := by
  obtain ⟨saveTo, golden⟩ := destination
  have hcompare : (goldenMode setup).update = false := hmode
  constructor
  · rintro path fault ⟨rfl⟩ hload
    refine deliver_fault ?_
    rw [Golden.verify, Golden.verifyText_eq, hload]
    rfl
  · rintro path ⟨rfl⟩ hload
    refine deliver_fault ?_
    rw [Golden.verify, Golden.verifyText_eq, hload, hcompare]
    rfl
  · rintro path text ⟨rfl⟩ hload hne
    refine ⟨(Diff.compareTexts (goldenMode setup).options text document.canonical).text,
      deliver_fault ?_⟩
    rw [Golden.verify, Golden.verifyText_eq, hload, hcompare]
    exact if_neg hne
  · rintro path error ⟨rfl⟩ herror
    cases golden with
    | none => exact ⟨_, s, rest_unsupported herror s, rfl, .inl rfl⟩
    | some other =>
        rw [deliver_golden]
        cases hcheck : checkGolden setup document other s with
        | mk result s₁ =>
            cases result with
            | error failure =>
                obtain ⟨hfault, hsame⟩ := checkGolden_error hcheck
                exact ⟨failure, s₁, bind_eq_error.mpr (.inl hcheck), congrArg _ hsame, .inr hfault⟩
            | ok u =>
                exact ⟨_, s₁, bind_eq_error.mpr (.inr ⟨u, s₁, hcheck, rest_unsupported herror s₁⟩),
                  files_checkGolden hmode hcheck, .inl rfl⟩
  · intro failure s' h hio
    cases golden with
    | none => rw [rest_error h hio]
    | some other =>
        rw [deliver_golden] at h
        rcases bind_eq_error.mp h with hcheck | ⟨u, s₁, hcheck, hrest⟩
        · rw [(checkGolden_error hcheck).2]
        · rw [rest_error hrest hio, files_checkGolden hmode hcheck]

theorem delivered (h : deliver setup document destination s = (.ok (), s')) :
    Delivered setup document destination s s' := by
  obtain ⟨s₁, hrest, hverified⟩ := deliver_ok h
  obtain ⟨hsaved, hprinted⟩ := rest_ok hrest
  constructor
  · intro path hpath
    obtain ⟨verdict, hverify⟩ := hverified path hpath
    have hdone := Golden.verifyText_ok hverify
    exact ⟨verdict, s₁, hverify, hrest, hdone⟩
  · intro path hpath hother
    obtain ⟨verdict, hverify⟩ := hverified path hpath
    have hload : Golden.load s₁.files path = .ok (some document.canonical) :=
      Golden.load_verifyText hverify
    cases hsaveTo : destination.saveTo with
    | none => rw [hprinted hsaveTo, hload]
    | some other =>
        obtain ⟨format, hformat, hsave⟩ := hsaved other hsaveTo
        by_cases hsame : s'.files.locate other = s'.files.locate path
        · -- the text of the document once more
          obtain rfl : format = .json :=
            Except.ok.inj (hformat.symm.trans (hother other hsaveTo hsame))
          exact Golden.load_eq_of_locate hsame (Golden.load_save hsave)
        · exact Golden.load_save_elsewhere hsave hsame hload
  · intro path hpath hjson mode hmode other
    obtain ⟨format, hformat, hsave⟩ := hsaved path hpath
    have hstandard : format = .json := by
      rcases hjson with hend | hjson
      · exact FileFormat.ofPath_golden hend hformat
      · exact Except.ok.inj (hformat.symm.trans hjson)
    subst hstandard
    have hload : Golden.load s'.files path = .ok (some document.canonical) :=
      Golden.load_save hsave
    rw [Golden.verify, Golden.verifyText_of_compare hmode, hload]
    simp [eq_comm]

/-- **Golden files guard every write.** As long as golden files are only compared, a delivery that
fails for its golden file or for the extension of its path leaves every file as it was. In any
mode, after a delivery that succeeds the golden file holds the text of the document, unless another
format was saved over it, and a JSON file that was saved serves as a golden file itself. -/
theorem deliver_guarded (setup : Setup) (document : Json) (destination : Destination)
    (s : Session) :
    (setup.golden.update = false → Guarded setup document destination s) ∧
      ∀ s', deliver setup document destination s = (.ok (), s') →
        Delivered setup document destination s s' :=
  ⟨fun hmode => guarded hmode document destination s, fun _ => delivered⟩

/-- A document that refers to nothing. -/
def label : Json :=
  .object [("definitions", .object []), ("type", .string "string")]

/-- Golden files in two formats, one of which is out of date. -/
def archive : Session :=
  ⟨⟨.directory [("api.json", .file (some label.canonical)),
    ("api.yaml", .file (some label.canonical)), ("old.json", .file (some "\x7b\x7d\n"))], []⟩, ""⟩

/-- Compare, and print nothing but documents. -/
def comparing : Setup :=
  ⟨.standard, ⟨.json, false, false, 0⟩, .standard, 0⟩

theorem deliver_guarded_archive :
    (∃ difference, deliver comparing label ⟨some "new/api.json", some "old.json"⟩ archive =
      (.error (.golden (.mismatch "old.json" difference)), archive)) ∧
    ∃ s', deliver comparing label ⟨some "new/api.json", some "api.yaml"⟩ archive = (.ok (), s') ∧
      Golden.load s'.files "api.yaml" = .ok (some label.canonical) ∧
      (∃ result, Golden.verify .standard s'.files "new/api.json" label = .ok result) ∧
      ¬ ∃ result, Golden.verify .standard s'.files "new/api.json" (.object []) = .ok result := by
  obtain ⟨hguarded, -⟩ :=
    deliver_guarded comparing label ⟨some "new/api.json", some "old.json"⟩ archive
  refine ⟨(hguarded rfl).different "old.json" "\x7b\x7d\n" rfl (by decide +kernel)
    (by decide +kernel), ?_⟩
  obtain ⟨u, s', hdone, hplaces⟩ :=
    ok_of_check (deliver comparing label ⟨some "new/api.json", some "api.yaml"⟩) archive
      (fun _ s' => s'.files.locate "new/api.json" ≠ s'.files.locate "api.yaml") (by decide +kernel)
  obtain ⟨-, hdelivered⟩ :=
    deliver_guarded comparing label ⟨some "new/api.json", some "api.yaml"⟩ archive
  have h := hdelivered s' hdone
  refine ⟨s', hdone, h.golden "api.yaml" rfl ?_, ?_, ?_⟩
  · rintro other ⟨rfl⟩ hsame
    exact absurd hsame (by simpa using hplaces)
  · exact (h.saved "new/api.json" rfl (.inr rfl) .standard rfl label).mpr rfl
  · rw [h.saved "new/api.json" rfl (.inr rfl) .standard rfl]
    decide +kernel

/-- Two spellings of one path: the golden file matches, and then it is overwritten. -/
theorem golden_overwritten :
    "./api.yaml" ≠ "api.yaml" ∧
      ∃ s', deliver comparing label ⟨some "./api.yaml", some "api.yaml"⟩ archive = (.ok (), s') ∧
        Golden.load s'.files "api.yaml" = .ok (some "definitions: \x7b\x7d\ntype: string\n") ∧
        "definitions: \x7b\x7d\ntype: string\n" ≠ label.canonical := by
  obtain ⟨u, s', hdone, hload⟩ :=
    ok_of_check (deliver comparing label ⟨some "./api.yaml", some "api.yaml"⟩) archive
      (fun _ s' => s'.files.read "api.yaml" = .ok "definitions: \x7b\x7d\ntype: string\n")
      (by decide +kernel)
  exact ⟨by decide, s', hdone, Golden.load_eq_some.mpr (of_decide_eq_true hload),
    by decide +kernel⟩

end Command

end SchemaBundle
