/-
Placeholders and the files that fill them.

A placeholder is filled in three steps that use three different names for it.  Flags are
laid over the configuration by the text of the placeholder; the file is read into a table
by the name of the type it holds; and the type goes to the identity of the placeholder.
At each step the last one with a name wins, in the order of the texts.  So a flag has its
say when nothing behind it leads the identity or the type elsewhere, and that is all that
can be said: a configured placeholder that is another spelling of the same identity and
stands behind the flag takes its place.
-/
import SchemaBundle.Proofs.Command
import SchemaBundle.Proofs.Documents
import SchemaBundle.Proofs.Mount

namespace SchemaBundle

/-! ### Schemas of files -/

namespace Schema

/-- The document of a schema that was read: what was taken out is taken out of it again. -/
theorem toDocument_ok {document : Json} {schema : Schema} (h : ofDocument document = .ok schema)
    (hordered : document.Ordered) :
    ∃ filled, schema.toDocument = .ok filled ∧
      (∃ members, schema.root = .object members) ∧
      (MountPath.atRoot definitionsKey).takeDefinitions filled =
        (schema.definitions, schema.root) := by
  unfold ofDocument at h
  split at h
  · rename_i members
    split at h
    · rename_i definitions hget
      obtain rfl := Except.ok.inj h
      have hgone : Entries.get? (Entries.erase members definitionsKey) definitionsKey = none :=
        hordered.sorted.get?_erase_self _
      unfold toDocument
      cases definitions with
      | nil =>
          refine ⟨_, rfl, ⟨_, rfl⟩, ?_⟩
          rw [MountPath.takeDefinitions_atRoot, hgone]
      | cons first rest =>
          refine ⟨_, rfl, ⟨_, rfl⟩, ?_⟩
          rw [MountPath.takeDefinitions_atRoot, Entries.get?_insert_self]
          simp only [Entries.erase_insert hgone]
    · rename_i hnone
      obtain rfl := Except.ok.inj h
      refine ⟨_, rfl, ⟨_, rfl⟩, ?_⟩
      rw [MountPath.takeDefinitions_atRoot]
      split
      · rename_i definitions hget
        exact (hnone definitions hget).elim
      · rfl
  · simp at h

end Schema

/-- A placeholder with its file, and what was read from the file. -/
structure SchemaFile where
  placeholder : String
  file : String
  document : Json
  type : String
  schema : Schema

namespace SchemaFile

/-- The file holds the document, which names the type and has the schema. -/
structure ReadFrom (fs : FileSystem) (r : SchemaFile) : Prop where
  document : fs.document r.file = .ok r.document
  type : FileSystem.typeName r.file r.document = .ok r.type
  schema : Schema.ofDocument r.document = .ok r.schema

/-- The placeholder with its file. -/
def mapping (r : SchemaFile) : String × String :=
  (r.placeholder, r.file)

/-- The type that goes to the identity of the placeholder. -/
def filling (r : SchemaFile) : String × String :=
  (Identity.resolve none r.placeholder, r.type)

/-- What the file adds to the table of types. -/
def entry (r : SchemaFile) : String × Schema :=
  (r.type, r.schema)

end SchemaFile

namespace Command

variable {s s' : Session}

theorem addSchema_ok {fs : FileSystem} {table table' : FileSystem.SchemaTable}
    {path type : String} (h : fs.addSchema table path = .ok (type, table')) :
    ∃ document schema, fs.document path = .ok document ∧
      FileSystem.typeName path document = .ok type ∧ Schema.ofDocument document = .ok schema ∧
      table' = Entries.insert type schema table := by
  unfold FileSystem.addSchema at h
  obtain ⟨document, hdocument, h⟩ := Error.bind_eq_ok.mp h
  obtain ⟨found, htype, h⟩ := Error.bind_eq_ok.mp h
  obtain ⟨schema, hschema, h⟩ := Error.bind_eq_ok.mp h
  obtain ⟨rfl, rfl⟩ := Prod.mk.inj (Except.ok.inj h)
  exact ⟨document, schema, hdocument, htype, hschema, rfl⟩

/-- Reading the files of placeholders: each is read, and adds to the table in its turn. -/
theorem addSchemas_ok {mappings types : List (String × String)}
    {table table' : FileSystem.SchemaTable}
    (h : addSchemas table mappings s = (.ok (types, table'), s')) :
    s' = s ∧ ∃ files : List SchemaFile, (∀ r ∈ files, r.ReadFrom s.files) ∧
      mappings = files.map SchemaFile.mapping ∧
      types = files.map (fun r => (r.placeholder, r.type)) ∧
      table' = Entries.insertAll table (files.map SchemaFile.entry) := by
  induction mappings generalizing table types s with
  | nil =>
      unfold addSchemas at h
      obtain ⟨heq, rfl⟩ := pure_eq_ok.mp h
      obtain ⟨rfl, rfl⟩ := Prod.mk.inj heq
      exact ⟨rfl, [], by simp, rfl, rfl, rfl⟩
  | cons first rest ih =>
      obtain ⟨placeholder, file⟩ := first
      unfold addSchemas at h
      simp only [bind_eq_ok, files_eq_ok, ofDocument_eq_ok] at h
      obtain ⟨u, s₁, hneed, fs, s₂, ⟨rfl, rfl⟩, ⟨type, table₁⟩, s₃, ⟨hadd, rfl⟩, h⟩ := h
      obtain rfl := needFile_ok hneed
      obtain ⟨⟨types', table₂⟩, s₄, hrest, h⟩ := h
      obtain ⟨heq, rfl⟩ := pure_eq_ok.mp h
      obtain ⟨rfl, rfl⟩ := Prod.mk.inj heq
      obtain ⟨document, schema, hdocument, htype, hschema, rfl⟩ := addSchema_ok hadd
      obtain ⟨rfl, files, hfiles, rfl, rfl, rfl⟩ := ih hrest
      refine ⟨rfl, ⟨placeholder, file, document, type, schema⟩ :: files, ?_, rfl, rfl, rfl⟩
      exact List.forall_mem_cons.mpr ⟨⟨hdocument, htype, hschema⟩, hfiles⟩

end Command

/-! ### What is composed -/

namespace Composition

theorem withSchemas_eq (c : Composition) (placeholders : List (String × String)) :
    c.withSchemas placeholders = { c with
      types := Entries.insertAll c.types
        (placeholders.map fun entry => (Identity.resolve none entry.1, entry.2)) } := by
  induction placeholders generalizing c with
  | nil => rfl
  | cons first rest ih =>
      show (c.withSchema first.1 first.2).withSchemas rest = _
      rw [ih]
      rfl

/-- The types of placeholders and the table of schemas come from files. -/
structure FilledFrom (c : Composition) (table : FileSystem.SchemaTable)
    (files : List SchemaFile) : Prop where
  types : c.types = Entries.insertAll [] (files.map SchemaFile.filling)
  table : table = Entries.insertAll [] (files.map SchemaFile.entry)

variable {c : Composition} {table : FileSystem.SchemaTable} {files front back : List SchemaFile}
  {fs : FileSystem} {r : SchemaFile}

/-- A placeholder is answered with the schema of its file, if nothing behind it has its
identity with another type, or its type with another schema. -/
theorem FilledFrom.answers (h : c.FilledFrom table (front ++ r :: back))
    (htype : ∀ q ∈ back, Identity.resolve none q.placeholder = Identity.resolve none r.placeholder →
      q.type = r.type)
    (hschema : ∀ q ∈ back, q.type = r.type → q.schema = r.schema) :
    c.loader (Generator.ofSchemas table) (Identity.resolve none r.placeholder) =
      match r.schema.toDocument with
      | .ok document => .ok document
      | .error error => .error (.error error) := by
  have hfilled : Entries.get? c.types (Identity.resolve none r.placeholder) = some r.type := by
    rw [h.types, List.map_append, List.map_cons]
    refine Entries.get?_insertAll_of_last (fun entry hentry hkey => ?_) []
    obtain ⟨q, hq, rfl⟩ := List.mem_map.mp hentry
    exact htype q hq hkey
  have hknown : Entries.get? table r.type = some r.schema := by
    rw [h.table, List.map_append, List.map_cons]
    refine Entries.get?_insertAll_of_last (fun entry hentry hkey => ?_) []
    obtain ⟨q, hq, rfl⟩ := List.mem_map.mp hentry
    exact hschema q hq hkey
  unfold loader Generator.ofSchemas
  rw [hfilled]
  simp only [hknown]
  rfl

end Composition

namespace Command

variable {s s' : Session} {config : Config} {base : String} {flags mapped : List (String × String)}
  {c : Composition} {table : FileSystem.SchemaTable}

/-- What a command has read before it composes. -/
theorem composition_ok (h : composition config base flags s = (.ok (c, table), s')) :
    s' = s ∧ ∃ template files, s.files.document base = .ok template ∧
      mappings config flags = .ok (files.map SchemaFile.mapping) ∧
      (∀ r ∈ files, r.ReadFrom s.files) ∧ c.base = some template ∧
      c.absolute = Classifier.bySuffix config.embedder.suffixes ∧ c.FilledFrom table files := by
  unfold composition at h
  simp only [bind_eq_ok, ofResult_eq_ok, pure_eq_ok] at h
  obtain ⟨template, s₁, htemplate, mapped, s₂, ⟨hmapped, rfl⟩, ⟨types, table'⟩, s₃, hadd,
    heq, rfl⟩ := h
  obtain ⟨rfl, htemplate⟩ := readDocument_ok htemplate
  obtain ⟨rfl, files, hfiles, rfl, rfl, rfl⟩ := addSchemas_ok hadd
  obtain ⟨rfl, rfl⟩ := Prod.mk.inj heq
  refine ⟨rfl, template, files, htemplate, hmapped, hfiles, ?_, ?_, ?_, rfl⟩
  · rw [Composition.withSchemas_eq]
  · rw [Composition.withSchemas_eq]
  · rw [Composition.withSchemas_eq, List.map_map]
    rfl

/-! ### Flags over the configuration -/

theorem merge_ok {seen : List String} {merged : List (String × String)}
    (h : mappings.merge seen merged flags = .ok mapped) :
    (flags.map Prod.fst).Nodup ∧ (∀ p ∈ flags.map Prod.fst, p ∉ seen) ∧
      (∀ p ∉ flags.map Prod.fst, Entries.get? mapped p = Entries.get? merged p) ∧
      ∀ p f, (p, f) ∈ flags → Entries.get? mapped p = some f := by
  induction flags generalizing seen merged with
  | nil =>
      obtain rfl : merged = mapped := Except.ok.inj h
      simp
  | cons first rest ih =>
      obtain ⟨placeholder, file⟩ := first
      unfold mappings.merge at h
      split at h
      · simp at h
      · rename_i hnew
        obtain ⟨hnodup, happart, hothers, hflags⟩ := ih h
        have hfresh : placeholder ∉ rest.map Prod.fst := fun hmem =>
          happart placeholder hmem List.mem_cons_self
        refine ⟨List.nodup_cons.mpr ⟨hfresh, hnodup⟩, ?_, ?_, ?_⟩
        · refine List.forall_mem_cons.mpr ⟨by simpa using hnew, fun p hp hseen => ?_⟩
          exact happart p hp (List.mem_cons_of_mem _ hseen)
        · intro p hp
          rw [List.map_cons, List.mem_cons, not_or] at hp
          rw [hothers p hp.2, Entries.get?_insert_ne (Ne.symm hp.1)]
        · intro p f hmem
          rcases List.mem_cons.mp hmem with heq | hmem
          · obtain ⟨rfl, rfl⟩ := Prod.mk.inj heq
            rw [hothers p hfresh, Entries.get?_insert_self]
          · exact hflags p f hmem

/-- Only a placeholder that stands twice is refused. -/
theorem merge_error {seen : List String} {merged : List (String × String)} {failure : Failure}
    (h : mappings.merge seen merged flags = .error failure) :
    ∃ p, failure = .arguments (.mappedTwice p) ∧ 1 < (seen ++ flags.map Prod.fst).count p := by
  induction flags generalizing seen merged with
  | nil => simp [mappings.merge] at h
  | cons first rest ih =>
      obtain ⟨placeholder, file⟩ := first
      unfold mappings.merge at h
      split at h
      · rename_i hseen
        refine ⟨placeholder, (Except.error.inj h).symm, ?_⟩
        have hcount : 0 < seen.count placeholder :=
          List.count_pos_iff.mpr (by simpa using hseen)
        rw [List.count_append, List.map_cons, List.count_cons_self]
        omega
      · obtain ⟨p, rfl, hcount⟩ := ih h
        refine ⟨p, rfl, ?_⟩
        rwa [List.map_cons, List.perm_middle.count_eq]

/-- Nothing behind a placeholder leads its identity to another file, or the type of its file
to another document. -/
structure Unshadowed (fs : FileSystem) (placeholder file : String)
    (back : List (String × String)) : Prop where
  identity : ∀ q g, (q, g) ∈ back →
    Identity.resolve none q = Identity.resolve none placeholder → g = file
  type : ∀ q g d d', (q, g) ∈ back → fs.document g = .ok d → fs.document file = .ok d' →
    FileSystem.typeName g d = FileSystem.typeName file d' → d = d'

/-- A placeholder that nothing shadows is filled from its file. -/
theorem answers_of_unshadowed {fs : FileSystem} {files : List SchemaFile} {p f : String}
    {front back : List (String × String)} (hfilled : c.FilledFrom table files)
    (hfiles : ∀ r ∈ files, r.ReadFrom fs)
    (hmapped : files.map SchemaFile.mapping = front ++ (p, f) :: back)
    (hclear : Unshadowed fs p f back) :
    ∃ document schema filled, fs.document f = .ok document ∧
      Schema.ofDocument document = .ok schema ∧ schema.toDocument = .ok filled ∧
      c.loader (Generator.ofSchemas table) (Identity.resolve none p) = .ok filled := by
  obtain ⟨before, rest, rfl, rfl, hrest⟩ := List.map_eq_append_iff.mp hmapped
  obtain ⟨r, after, rfl, hr, rfl⟩ := List.map_eq_cons_iff.mp hrest
  obtain ⟨rfl, rfl⟩ := Prod.mk.inj hr
  have hread : r.ReadFrom fs := hfiles r (by simp)
  have hback : ∀ q ∈ after, q.ReadFrom fs ∧ (q.placeholder, q.file) ∈ after.map SchemaFile.mapping :=
    fun q hq => ⟨hfiles q (by simp [hq]), List.mem_map.mpr ⟨q, hq, rfl⟩⟩
  obtain ⟨filled, htoDocument, -⟩ :=
    Schema.toDocument_ok hread.schema (FileSystem.ordered_of_document hread.document)
  refine ⟨r.document, r.schema, filled, hread.document, hread.schema, htoDocument, ?_⟩
  rw [hfilled.answers, htoDocument]
  · intro q hq hidentity
    obtain ⟨hqread, hmem⟩ := hback q hq
    -- the same file holds the same type
    have hfile := hclear.identity _ _ hmem hidentity
    have hdocument := hqread.document
    rw [hfile, hread.document, Except.ok.injEq] at hdocument
    have htype := hqread.type
    rw [hfile, ← hdocument, hread.type, Except.ok.injEq] at htype
    exact htype.symm
  · intro q hq htype
    obtain ⟨hqread, hmem⟩ := hback q hq
    have hsame : q.document = r.document := hclear.type _ _ _ _ hmem hqread.document
      hread.document (by rw [hqread.type, hread.type, htype])
    have hschema := hqread.schema
    rw [hsame, hread.schema, Except.ok.injEq] at hschema
    exact hschema.symm

/-- **Flags win, as far as nothing behind them says otherwise.** A placeholder that is given
two flags is refused. When what a command composes has been read, every flag is among the
mapped placeholders, and one that nothing behind it shadows fills its identity from its own
file. -/
theorem flags_win (config : Config) (flags : List (String × String)) :
    (¬ (flags.map Prod.fst).Nodup →
      ∃ p, mappings config flags = .error (.arguments (.mappedTwice p)) ∧
        1 < (flags.map Prod.fst).count p) ∧
    ∀ base s c table s', composition config base flags s = (.ok (c, table), s') →
      ∃ mapped, mappings config flags = .ok mapped ∧
        ∀ p f, (p, f) ∈ flags → (p, f) ∈ mapped ∧
          ∀ front back, mapped = front ++ (p, f) :: back → Unshadowed s.files p f back →
            ∃ document schema filled, s.files.document f = .ok document ∧
              Schema.ofDocument document = .ok schema ∧ schema.toDocument = .ok filled ∧
              c.loader (Generator.ofSchemas table) (Identity.resolve none p) = .ok filled := by
  constructor
  · intro htwice
    cases hmerge : mappings config flags with
    | ok mapped => exact absurd (merge_ok hmerge).1 htwice
    | error failure =>
        obtain ⟨p, rfl, hcount⟩ := merge_error hmerge
        exact ⟨p, rfl, hcount⟩
  · intro base s c table s' h
    obtain ⟨rfl, template, files, -, hmapped, hfiles, -, -, hfilled⟩ := composition_ok h
    refine ⟨_, hmapped, fun p f hflag => ⟨?_, fun front back hsplit hclear => ?_⟩⟩
    · exact Entries.mem_of_get? ((merge_ok hmapped).2.2.2 p f hflag)
    · exact answers_of_unshadowed hfilled hfiles hsplit hclear

/-! ### A placeholder with two files -/

/-- A template and two files that could fill its placeholder. -/
def garage : FileSystem :=
  ⟨.directory [("a.json", .file (some "\x7b\"title\":\"A\"\x7d")),
    ("b.json", .file (some "\x7b\"title\":\"B\"\x7d")),
    ("base.json", .file (some "\x7b\"$ref\":\"car.json\"\x7d"))], []⟩

/-- A configuration that fills the placeholder from the first of them. -/
def garageConfig : Config :=
  { Config.standard with schemas := [("car.json", "a.json")] }

theorem flags_win_garage :
    ∃ c table s', composition garageConfig "base.json" [("car.json", "b.json")] ⟨garage, ""⟩ =
        (.ok (c, table), s') ∧
      ∃ document schema filled, garage.document "b.json" = .ok document ∧
        Schema.ofDocument document = .ok schema ∧ schema.toDocument = .ok filled ∧
        c.loader (Generator.ofSchemas table) (Identity.resolve none "car.json") = .ok filled := by
  obtain ⟨⟨c, table⟩, s', h, -⟩ := ok_of_check
    (composition garageConfig "base.json" [("car.json", "b.json")]) ⟨garage, ""⟩ (fun _ _ => true)
    (by decide +kernel)
  obtain ⟨-, hall⟩ := flags_win garageConfig [("car.json", "b.json")]
  obtain ⟨mapped, hmapped, hfill⟩ := hall _ _ _ _ _ h
  obtain rfl : [("car.json", "b.json")] = mapped := Except.ok.inj hmapped
  obtain ⟨-, hanswers⟩ := hfill "car.json" "b.json" List.mem_cons_self
  exact ⟨c, table, s', h, hanswers [] [] rfl ⟨by simp, by simp⟩⟩

/-- **Where a flag does not win.** Written in another way, a placeholder of the configuration
stands behind the flag and takes its identity; and two flags that write one identity in two
ways are both accepted. -/
theorem flag_loses :
    Identity.resolve none "./car.json" = Identity.resolve none "car.json" ∧
    (∃ c table s', composition garageConfig "base.json" [("./car.json", "b.json")] ⟨garage, ""⟩ =
        (.ok (c, table), s') ∧
      ∃ filled, c.loader (Generator.ofSchemas table) (Identity.resolve none "./car.json") =
        .ok filled ∧ Pointer.resolve? filled ["title"] = some (.string "A")) ∧
    mappings Config.standard [("./car.json", "a.json"), ("car.json", "b.json")] =
      .ok [("./car.json", "a.json"), ("car.json", "b.json")] := by
  refine ⟨by decide +kernel, ?_, rfl⟩
  obtain ⟨⟨c, table⟩, s', h, hcheck⟩ := ok_of_check
    (composition garageConfig "base.json" [("./car.json", "b.json")]) ⟨garage, ""⟩
    (fun result _ => checked (fun filled => hasText filled ["title"] "A")
      (result.1.loader (Generator.ofSchemas result.2) (Identity.resolve none "./car.json")))
    (by decide +kernel)
  obtain ⟨filled, hanswer, htitle⟩ := ok_of_checked hcheck
  exact ⟨c, table, s', h, filled, hanswer, resolve?_of_hasText htitle⟩

end Command

end SchemaBundle
