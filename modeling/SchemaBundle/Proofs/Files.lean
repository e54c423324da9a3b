/-
What was written is read back, and nothing else is touched.

Writing and reading go to a path in different ways: one stops in front of the last name, which
need not exist, and the other walks to the end.  They meet because writing changes the tree in
one place only, and not where a directory is.  So each directory on the way is there still,
with every name that it had, and the walk comes to the place where the new text stands.  For the
same reason a file at any other place keeps its text.  Directories are made only where nothing
was, so making them takes nothing away at all.

A golden file is loaded, compared and saved by these means.
-/
import Mathlib.Data.List.DropRight
import SchemaBundle.Golden
import SchemaBundle.Proofs.Documents

namespace SchemaBundle

namespace FileTree

variable {tree new : FileTree} {place p : List String} {name : String}
  {entries : List (String × FileTree)}

@[simp] theorem at?_nil (tree : FileTree) : at? [] tree = some tree := rfl

@[simp] theorem at?_file (name : String) (place : List String) (text : Option String) :
    at? (name :: place) (.file text) = none := rfl

theorem at?_directory (name : String) (place : List String) (entries : List (String × FileTree)) :
    at? (name :: place) (.directory entries) = (Entries.get? entries name).bind (at? place) := rfl

theorem at?_append (p q : List String) (tree : FileTree) :
    at? (p ++ q) tree = (at? p tree).bind (at? q) := by
  induction p generalizing tree with
  | nil => rfl
  | cons first rest ih =>
      cases tree with
      | file text => rfl
      | directory entries =>
          rw [List.cons_append, at?_directory, at?_directory]
          cases Entries.get? entries first with
          | none => rfl
          | some child => exact ih child

/-! ### Changing one place of a tree -/

@[simp] theorem put_nil (tree new : FileTree) : put [] tree new = new := rfl

/-- Something is put below an entry that is there. -/
theorem put_child {child : FileTree} (hget : Entries.get? entries name = some child)
    (place : List String) (new : FileTree) :
    put (name :: place) (.directory entries) new =
      .directory (Entries.insert name (put place child new) entries) := by
  rw [put, hget]

/-- A new entry can only be put into the directory itself. -/
theorem put_missing (hget : Entries.get? entries name = none) (place : List String)
    (new : FileTree) :
    put (name :: place) (.directory entries) new =
      if place.isEmpty then .directory (Entries.insert name new entries)
      else .directory entries := by
  rw [put, hget]

/-- What is put into a directory stands there. -/
theorem at?_put (h : at? place tree = some (.directory entries)) (name : String) :
    at? (place ++ [name]) (put (place ++ [name]) tree new) = some new := by
  induction place generalizing tree with
  | nil =>
      obtain rfl : tree = .directory entries := Option.some.inj h
      rw [List.nil_append]
      cases hget : Entries.get? entries name with
      | none => simp [put_missing hget, at?_directory]
      | some child => simp [put_child hget, at?_directory]
  | cons first rest ih =>
      cases tree with
      | file text => simp at h
      | directory above =>
          rw [at?_directory] at h
          obtain ⟨child, hget, hchild⟩ := Option.bind_eq_some_iff.mp h
          rw [List.cons_append, put_child hget, at?_directory, Entries.get?_insert_self,
            Option.bind_some]
          exact ih hchild

/-- A directory with at least these names stands at a place. -/
def HasNames (tree : FileTree) (p : List String) (entries : List (String × FileTree)) : Prop :=
  ∃ entries', at? p tree = some (.directory entries') ∧
    ∀ name, Entries.contains entries name = true → Entries.contains entries' name = true

theorem hasNames_self (h : at? p tree = some (.directory entries)) : tree.HasNames p entries :=
  ⟨entries, h, fun _ => id⟩

/-- When an entry is set, the directories that are not below it keep their names. -/
theorem hasNames_insert {above : List (String × FileTree)} (name : String) (new : FileTree)
    (h : at? p (.directory above) = some (.directory entries)) (hp : p.head? ≠ some name) :
    (directory (Entries.insert name new above)).HasNames p entries := by
  cases p with
  | nil =>
      obtain rfl : above = entries := by simpa using h
      refine ⟨_, rfl, fun other hother => ?_⟩
      unfold Entries.contains at hother ⊢
      rw [Entries.get?_insert]
      split
      · rfl
      · exact hother
  | cons first rest =>
      have hne : name ≠ first := fun heq => hp (by rw [heq]; rfl)
      rw [at?_directory] at h
      refine hasNames_self ?_
      rw [at?_directory, Entries.get?_insert_ne hne, h]

/-- **Putting something where no directory is** leaves every directory with its names. -/
theorem hasNames_put (hplace : ∀ taken, at? place tree ≠ some (.directory taken))
    (h : at? p tree = some (.directory entries)) : (put place tree new).HasNames p entries := by
  induction place generalizing tree p with
  | nil =>
      cases tree with
      | file text => cases p <;> simp at h
      | directory above => exact absurd rfl (hplace above)
  | cons name rest ih =>
      cases tree with
      | file text => exact hasNames_self h
      | directory above =>
          rw [at?_directory] at hplace
          by_cases hhead : p.head? = some name
          · -- the directory lies below the entry, so the entry is there
            obtain ⟨q, rfl⟩ := List.head?_eq_some_iff.mp hhead
            rw [at?_directory] at h
            obtain ⟨child, hget, hchild⟩ := Option.bind_eq_some_iff.mp h
            rw [hget] at hplace
            obtain ⟨entries', hfound, hnames⟩ := ih hplace hchild
            refine ⟨entries', ?_, hnames⟩
            rw [put_child hget, at?_directory, Entries.get?_insert_self, Option.bind_some, hfound]
          · cases hget : Entries.get? above name with
            | some child =>
                rw [put_child hget]
                exact hasNames_insert name _ h hhead
            | none =>
                rw [put_missing hget]
                split
                · exact hasNames_insert name new h hhead
                · exact hasNames_self h

/-- **A file elsewhere** keeps its text. -/
theorem file_put {text : Option String}
    (hplace : ∀ taken, at? place tree ≠ some (.directory taken)) (hne : p ≠ place)
    (h : at? p tree = some (.file text)) : at? p (put place tree new) = some (.file text) := by
  induction place generalizing tree p with
  | nil =>
      cases tree with
      | file other => cases p <;> simp at h hne
      | directory above => exact absurd rfl (hplace above)
  | cons name rest ih =>
      cases tree with
      | file other => exact h
      | directory above =>
          rw [at?_directory] at hplace
          cases p with
          | nil => simp at h
          | cons first q =>
              by_cases hfirst : name = first
              · subst hfirst
                rw [at?_directory] at h
                obtain ⟨child, hget, hchild⟩ := Option.bind_eq_some_iff.mp h
                rw [hget] at hplace
                rw [put_child hget, at?_directory, Entries.get?_insert_self]
                exact ih hplace (fun heq => hne (congrArg _ heq)) hchild
              · rw [at?_directory] at h
                cases hget : Entries.get? above name with
                | some child =>
                    rw [put_child hget, at?_directory, Entries.get?_insert_ne hfirst, h]
                | none =>
                    rw [put_missing hget]
                    split
                    · rw [at?_directory, Entries.get?_insert_ne hfirst, h]
                    · rw [at?_directory, h]

end FileTree

namespace FileSystem

variable {fs fs' : FileSystem} {path text name piece : String} {place next : List String}

/-! ### Walking after a change -/

/-- A file system with every directory of another one, and every name in them. -/
structure Extends (fs' fs : FileSystem) : Prop where
  here : fs'.here = fs.here
  names : ∀ p entries, fs.root.at? p = some (.directory entries) → fs'.root.HasNames p entries

theorem Extends.step (h : fs'.Extends fs) (hstep : fs.step place piece = .ok next) :
    fs'.step place piece = .ok next := by
  unfold FileSystem.step at hstep ⊢
  split at hstep
  · simp at hstep
  · simp at hstep
  · rename_i entries hdirectory
    obtain ⟨entries', hdirectory', hnames⟩ := h.names place entries hdirectory
    rw [hdirectory']
    dsimp only
    split_ifs at hstep ⊢ with hidle hup hlong hthere
    · exact hstep
    · exact hstep
    · exact hstep
    · exact absurd (hnames piece ‹_›) hthere

/-- **A walk goes the same way where there is more.** -/
theorem Extends.walk {absolute : Bool} {pieces : List String} (h : fs'.Extends fs)
    (hwalk : fs.walk absolute pieces = .ok place) : fs'.walk absolute pieces = .ok place := by
  unfold FileSystem.walk at hwalk ⊢
  rw [h.here]
  generalize (if absolute then [] else fs.here) = start at hwalk ⊢
  induction pieces generalizing start with
  | nil => exact hwalk
  | cons piece rest ih =>
      rw [List.foldlM_cons, Error.bind_eq_ok] at hwalk ⊢
      obtain ⟨next, hstep, hrest⟩ := hwalk
      exact ⟨next, h.step hstep, ih next hrest⟩

theorem Extends.locate (h : fs'.Extends fs) (hlocate : fs.locate path = .ok place) :
    fs'.locate path = .ok place := by
  unfold FileSystem.locate at hlocate ⊢
  obtain ⟨u, hcheck, hwalk⟩ := Error.bind_eq_ok.mp hlocate
  exact Error.bind_eq_ok.mpr ⟨u, hcheck, h.walk hwalk⟩

theorem walk_append (fs : FileSystem) (absolute : Bool) (front back : List String) :
    fs.walk absolute (front ++ back) =
      (fs.walk absolute front).bind fun place => back.foldlM fs.step place := by
  unfold walk
  rw [List.foldlM_append]
  rfl

/-! ### Writing -/

/-- Where a text is written: in a directory, under the last name of the path. -/
structure Place (fs : FileSystem) (path : String) (place : List String) (name : String) :
    Prop where
  check : checkPath path = .ok ()
  walk : ∃ pieces, Text.pieces '/' path = pieces ++ [name] ∧
    fs.walk (Path.isAbsolute path) pieces = .ok place
  directory : ∃ entries, fs.root.at? place = some (.directory entries)
  proper : Path.isIdle name = false ∧ name ≠ ".." ∧ name.utf8ByteSize ≤ maxName

theorem target_name (h : fs.target path = .ok (.name place name false)) :
    fs.Place path place name := by
  unfold target at h
  obtain ⟨u, hcheck, h⟩ := Error.bind_eq_ok.mp h
  dsimp only at h
  have hstart : (Text.pieces '/' path).rdropWhile String.isEmpty <+: Text.pieces '/' path :=
    List.rdropWhile_prefix _ _
  have hlast := List.rdropWhile_last_not String.isEmpty (Text.pieces '/' path)
  rw [show ((Text.pieces '/' path).reverse.dropWhile String.isEmpty).reverse =
    (Text.pieces '/' path).rdropWhile String.isEmpty from rfl] at h
  generalize (Text.pieces '/' path).rdropWhile String.isEmpty = unslashed at h hstart hlast
  split at h
  · simp [pure, Except.pure] at h
  · rename_i found hfound
    obtain ⟨front, rfl⟩ := List.getLast?_eq_some_iff.mp hfound
    replace hlast := hlast (by simp)
    rw [List.getLast_append_singleton, Bool.not_eq_true] at hlast
    split at h
    · obtain ⟨-, -, h⟩ := Error.bind_eq_ok.mp h
      simp [pure, Except.pure] at h
    · rename_i hdots
      obtain ⟨found', hwalk, h⟩ := Error.bind_eq_ok.mp h
      rw [List.dropLast_concat] at hwalk
      split at h
      · rename_i entries hdirectory
        split at h
        · simp at h
        · rename_i hlong
          simp only [pure, Except.pure, Except.ok.injEq, Target.name.injEq] at h
          obtain ⟨rfl, rfl, hslashed⟩ := h
          -- no slash follows the name, so it is the last piece
          have hpieces := hstart.eq_of_length_le (by simpa using hslashed)
          simp only [Bool.or_eq_true, decide_eq_true_eq, not_or] at hdots
          refine ⟨hcheck, ⟨front, hpieces.symm, hwalk⟩, ⟨entries, hdirectory⟩, ?_, hdots.2,
            Nat.le_of_not_lt hlong⟩
          simp [Path.isIdle, hlast, hdots.1]
      · simp at h

/-- What writing a text does when it succeeds. -/
theorem write_ok (h : fs.write path text = .ok fs') :
    ∃ place name, fs.Place path place name ∧
      (∀ entries, fs.root.at? (place ++ [name]) ≠ some (.directory entries)) ∧
      fs' = { fs with root := fs.root.put (place ++ [name]) (.file (some text)) } := by
  unfold write at h
  obtain ⟨target, htarget, h⟩ := Error.bind_eq_ok.mp h
  cases target with
  | directory => simp at h
  | name place name slashed =>
      dsimp only at h
      split at h
      · simp at h
      · rename_i hfree
        rw [Bool.or_eq_true, not_or, Bool.not_eq_true] at hfree
        obtain ⟨rfl, hfree⟩ := hfree
        refine ⟨place, name, target_name htarget, fun entries hentries => hfree ?_,
          (Except.ok.inj h).symm⟩
        rw [hentries]
        rfl

/-- **What was written is found** by walking to the end of the path, and nothing else changed. -/
theorem locate_write (h : fs.write path text = .ok fs') :
    ∃ place, fs'.locate path = .ok place ∧ fs'.root.at? place = some (.file (some text)) ∧
      fs'.Extends fs ∧ ∀ p other, p ≠ place → fs.root.at? p = some (.file other) →
        fs'.root.at? p = some (.file other) := by
  obtain ⟨place, name, hplace, hfree, rfl⟩ := write_ok h
  obtain ⟨pieces, hpieces, hwalk⟩ := hplace.walk
  obtain ⟨entries, hdirectory⟩ := hplace.directory
  obtain ⟨hidle, hup, hlong⟩ := hplace.proper
  have hextends : ({ fs with root := fs.root.put (place ++ [name]) (.file (some text)) } :
      FileSystem).Extends fs :=
    ⟨rfl, fun p entries hp => FileTree.hasNames_put hfree hp⟩
  have hfound : (fs.root.put (place ++ [name]) (.file (some text))).at? (place ++ [name]) =
      some (.file (some text)) := FileTree.at?_put hdirectory name
  obtain ⟨entries', hdirectory', -⟩ := hextends.names place entries hdirectory
  refine ⟨place ++ [name], ?_, hfound, hextends, fun p other hne => FileTree.file_put hfree hne⟩
  have hname : Entries.contains entries' name = true := by
    rw [FileTree.at?_append, hdirectory', Option.bind_some, FileTree.at?_directory] at hfound
    obtain ⟨child, hget, -⟩ := Option.bind_eq_some_iff.mp hfound
    unfold Entries.contains
    rw [hget]
    rfl
  unfold locate
  refine Error.bind_eq_ok.mpr ⟨(), hplace.check, ?_⟩
  rw [hpieces, walk_append, hextends.walk hwalk]
  show [name].foldlM _ place = _
  rw [List.foldlM_cons]
  refine Error.bind_eq_ok.mpr ⟨place ++ [name], ?_, rfl⟩
  unfold step
  rw [hdirectory']
  simp [hidle, hup, Nat.not_lt.mpr hlong, hname]

/-! ### Reading -/

/-- A text is read from the file that a path names. -/
theorem read_eq_ok : fs.read path = .ok text ↔
    ∃ place, fs.locate path = .ok place ∧ fs.root.at? place = some (.file (some text)) := by
  unfold read
  rw [Error.bind_eq_ok]
  refine exists_congr fun place => and_congr_right fun _ => ?_
  split <;> simp_all

/-- **What was written is read back.** -/
theorem read_write (h : fs.write path text = .ok fs') : fs'.read path = .ok text := by
  obtain ⟨place, hlocate, hfound, -⟩ := locate_write h
  exact read_eq_ok.mpr ⟨place, hlocate, hfound⟩

/-- What can be read exists. -/
theorem contains_of_read (h : fs.read path = .ok text) : fs.contains path = true := by
  obtain ⟨place, hlocate, hfound⟩ := read_eq_ok.mp h
  unfold contains lookup?
  rw [hlocate]
  dsimp only
  rw [hfound]
  rfl

/-! ### Making directories -/

/-- A file system with everything of another one: its directories with their names, and its
files with their texts. -/
structure Keeps (fs' fs : FileSystem) : Prop extends fs'.Extends fs where
  files : ∀ p text, fs.root.at? p = some (.file text) → fs'.root.at? p = some (.file text)

theorem Keeps.refl (fs : FileSystem) : fs.Keeps fs where
  here := rfl
  names := fun _ _ => FileTree.hasNames_self
  files := fun _ _ => id

theorem Keeps.trans {fs'' : FileSystem} (h' : fs''.Keeps fs') (h : fs'.Keeps fs) :
    fs''.Keeps fs where
  here := h'.here.trans h.here
  names := by
    intro p entries hp
    obtain ⟨entries', hp', hnames⟩ := h.names p entries hp
    obtain ⟨entries'', hp'', hnames'⟩ := h'.names p entries' hp'
    exact ⟨entries'', hp'', fun name hname => hnames' name (hnames name hname)⟩
  files := fun p text hp => h'.files p text (h.files p text hp)

theorem makeDirectory_keeps (h : fs.makeDirectory path = .ok fs') : fs'.Keeps fs := by
  unfold makeDirectory at h
  obtain ⟨target, -, h⟩ := Error.bind_eq_ok.mp h
  cases target with
  | directory => simp at h
  | name place name slashed =>
      dsimp only at h
      split at h
      · simp at h
      · rename_i hfree
        rw [Bool.not_eq_true, Option.isSome_eq_false_iff, Option.isNone_iff_eq_none] at hfree
        obtain rfl := Except.ok.inj h
        have hnone : ∀ taken, fs.root.at? (place ++ [name]) ≠ some (.directory taken) := by
          simp [hfree]
        refine ⟨⟨rfl, fun p entries => FileTree.hasNames_put hnone⟩, fun p text hp => ?_⟩
        -- a file is not where there was nothing
        refine FileTree.file_put hnone (fun heq => ?_) hp
        rw [heq, hfree] at hp
        simp at hp

theorem unlessThere_keeps {result : Except FileFault FileSystem}
    (h : fs.unlessThere path result = .ok fs') (hresult : ∀ made, result = .ok made →
      made.Keeps fs) : fs'.Keeps fs := by
  unfold unlessThere at h
  split at h
  · exact hresult fs' (congrArg _ (Except.ok.inj h))
  · split at h
    · exact Except.ok.inj h ▸ Keeps.refl fs
    · simp at h

/-- **Making directories keeps what there is**, however many are made. -/
theorem makeDirectoriesFrom_keeps {fuel : Nat} (h : makeDirectoriesFrom fuel path fs = .ok fs') :
    fs'.Keeps fs := by
  induction fuel generalizing path fs' with
  | zero => simp [makeDirectoriesFrom] at h
  | succ fuel ih =>
      unfold makeDirectoriesFrom at h
      split at h
      · exact Except.ok.inj h ▸ Keeps.refl fs
      · split at h
        · -- the directories on the way come first
          obtain ⟨made, hmade, h⟩ := Error.bind_eq_ok.mp h
          exact (unlessThere_keeps h fun _ => makeDirectory_keeps).trans (ih hmade)
        · simp at h
        · exact unlessThere_keeps h fun _ => makeDirectory_keeps

end FileSystem

/-! ### Golden files -/

/-- Two texts match if they are equal. -/
theorem Diff.isMatch_compareTexts {options : Diff.Options} {expected actual : String} :
    (Diff.compareTexts options expected actual).isMatch = true ↔ expected = actual := by
  unfold Diff.compareTexts
  split <;> simp_all

namespace Golden

variable {fs fs' : FileSystem} {path text expected : String} {mode : Mode} {verdict : Verdict}

/-- A golden file has a text if it can be read. -/
theorem load_eq_some : load fs path = .ok (some text) ↔ fs.read path = .ok text := by
  unfold load
  split
  · rename_i hmissing
    refine iff_of_false (by simp) fun h => ?_
    simp [FileSystem.contains_of_read h] at hmissing
  · cases fs.read path <;> simp

/-- Saving writes the file once there are the directories on the way to it. -/
theorem save_ok (h : save fs path text = .ok fs') :
    ∃ made : FileSystem, made.Keeps fs ∧ made.write path text = .ok fs' := by
  unfold save at h
  dsimp only at h
  split at h
  · rename_i saved hsaved
    obtain rfl := Except.ok.inj h
    obtain ⟨made, hmade, hwrite⟩ := Error.bind_eq_ok.mp hsaved
    refine ⟨made, ?_, hwrite⟩
    split at hmade
    · exact FileSystem.makeDirectoriesFrom_keeps hmade
    · exact Except.ok.inj hmade ▸ FileSystem.Keeps.refl fs
  · simp at h

/-- **A golden file that was saved holds what was saved.** -/
theorem load_save (h : save fs path text = .ok fs') : load fs' path = .ok (some text) := by
  obtain ⟨made, -, hwrite⟩ := save_ok h
  exact load_eq_some.mpr (FileSystem.read_write hwrite)

/-- A golden file elsewhere keeps its text. -/
theorem load_save_elsewhere {other kept : String} (h : save fs path text = .ok fs')
    (hne : fs'.locate path ≠ fs'.locate other) (hload : load fs other = .ok (some kept)) :
    load fs' other = .ok (some kept) := by
  obtain ⟨made, hkeeps, hwrite⟩ := save_ok h
  obtain ⟨place, hplace, -, hextends, hfiles⟩ := FileSystem.locate_write hwrite
  obtain ⟨p, hp, hfile⟩ := FileSystem.read_eq_ok.mp (load_eq_some.mp hload)
  have hp' : fs'.locate other = .ok p := hextends.locate (hkeeps.locate hp)
  have hother : p ≠ place := fun heq => hne (hplace.trans (heq ▸ hp').symm)
  exact load_eq_some.mpr
    (FileSystem.read_eq_ok.mpr ⟨p, hp', hfiles p kept hother (hkeeps.files p kept hfile)⟩)

/-- Two spellings of a path lead to one file. -/
theorem load_eq_of_locate {other : String} (hsame : fs.locate path = fs.locate other)
    (hload : load fs path = .ok (some text)) : load fs other = .ok (some text) := by
  obtain ⟨place, hplace, hfile⟩ := FileSystem.read_eq_ok.mp (load_eq_some.mp hload)
  exact load_eq_some.mpr (FileSystem.read_eq_ok.mpr ⟨place, hsame ▸ hplace, hfile⟩)

/-- A verdict comes with the files that there are then. -/
theorem exists_of_verdict (h : (verifyText mode fs path text).map Prod.fst = .ok verdict) :
    ∃ fs', verifyText mode fs path text = .ok (verdict, fs') := by
  cases hresult : verifyText mode fs path text with
  | ok result =>
      rw [hresult] at h
      obtain rfl : result.1 = verdict := Except.ok.inj h
      exact ⟨result.2, rfl⟩
  | error fault => rw [hresult] at h; simp [Except.map] at h

/-- **What verifying does.** A file that holds the text is left as it is, and another one is an
error, or is written in update mode. -/
theorem verifyText_eq (mode : Mode) (fs : FileSystem) (path text : String) :
    verifyText mode fs path text = (load fs path).bind fun found =>
      match found with
      | none =>
        if mode.update then (save fs path text).bind fun saved => .ok (.created, saved)
        else .error (.missing path)
      | some expected =>
        if expected = text then .ok (.matched, fs)
        else if mode.update then (save fs path text).bind fun saved => .ok (.updated, saved)
        else .error (.mismatch path (Diff.compareTexts mode.options expected text).text) := by
  refine congrArg (Except.bind (load fs path)) (funext fun found => ?_)
  cases found with
  | none => rfl
  | some expected => exact if_congr Diff.isMatch_compareTexts rfl rfl

/-- Verifying succeeds where the text is there already, and otherwise by writing it. -/
theorem verifyText_ok (h : verifyText mode fs path text = .ok (verdict, fs')) :
    load fs path = .ok (some text) ∧ verdict = .matched ∧ fs' = fs ∨
      ∃ found, load fs path = .ok found ∧ found ≠ some text ∧
        verdict = (if found.isSome then .updated else .created) ∧
        mode.update = true ∧ save fs path text = .ok fs' := by
  rw [verifyText_eq] at h
  obtain ⟨found, hload, h⟩ := Error.bind_eq_ok.mp h
  rw [hload]
  cases found with
  | none =>
      dsimp only at h
      split_ifs at h with hupdate
      obtain ⟨saved, hsave, hsaved⟩ := Error.bind_eq_ok.mp h
      cases hsaved
      exact .inr ⟨none, rfl, nofun, rfl, hupdate, hsave⟩
  | some expected =>
      dsimp only at h
      split_ifs at h with htext hupdate
      · cases h
        exact .inl ⟨by rw [htext], rfl, rfl⟩
      · obtain ⟨saved, hsave, hsaved⟩ := Error.bind_eq_ok.mp h
        cases hsaved
        exact .inr ⟨some expected, rfl, by simpa using htext, rfl, hupdate, hsave⟩

/-- **A golden file that was verified holds the text**, whatever the verdict was. -/
theorem load_verifyText (h : verifyText mode fs path text = .ok (verdict, fs')) :
    load fs' path = .ok (some text) := by
  rcases verifyText_ok h with ⟨hload, -, rfl⟩ | ⟨-, -, -, -, -, hsave⟩
  · exact hload
  · exact load_save hsave

/-- Comparing succeeds where the text is there, and changes nothing. -/
theorem verifyText_of_compare (hmode : mode.update = false) :
    (∃ result, verifyText mode fs path text = .ok result) ↔ load fs path = .ok (some text) := by
  constructor
  · rintro ⟨⟨verdict, fs'⟩, h⟩
    rcases verifyText_ok h with ⟨hload, -⟩ | ⟨-, -, -, -, hupdate, -⟩
    · exact hload
    · exact absurd (hmode.symm.trans hupdate) Bool.false_ne_true
  · intro hload
    refine ⟨(.matched, fs), ?_⟩
    rw [verifyText_eq, hload]
    exact if_pos rfl

/-- **A text matches a golden file if the file holds it.** -/
theorem verifyText_matched_iff (hload : load fs path = .ok (some expected)) :
    (verifyText mode fs path text).map Prod.fst = .ok .matched ↔ expected = text := by
  rw [verifyText_eq, hload]
  simp only [Except.bind]
  split_ifs with htext hupdate
  · simp [Except.map, htext]
  · cases save fs path text <;> simp [Except.map, htext]
  · simp [Except.map, htext]

end Golden

end SchemaBundle
