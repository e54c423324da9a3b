/-
Chains of relative references.

A document that was found by a relative reference refers to others by relative references, and
each of them is resolved against a path that has been normalized already.  A path is its
directory and its last segment, and from wherever it is followed its directory leads to the
place that the last segment is entered from.  So as long as the last segment is a name,
normalizing keeps it, and the directory of the normal form leads where the directory of the
path leads, even where nothing but the name is left.

Directories end in a slash or are empty, and a relative path behind one is followed from where
the directory leads.  That is all that a chain needs: its documents are found at the place to
which the directories lead one after the other.
-/
import SchemaBundle.Proofs.Identity

namespace SchemaBundle

namespace Text

/-- A text is cut at every separator, whatever stands on its two sides. -/
theorem splitOn_concat (separator : Char) (cs ds : List Char) :
    splitOn separator (cs ++ separator :: ds) = splitOn separator cs ++ splitOn separator ds := by
  induction cs with
  | nil => exact splitOn_cons separator ds
  | cons c rest ih =>
      by_cases hc : c = separator
      · rw [hc, List.cons_append, splitOn_cons, splitOn_cons, ih, List.cons_append]
      · obtain ⟨piece, pieces, hrest, hcons⟩ := splitOn_cons_of_ne hc rest
        rw [hcons, List.cons_append, splitOn, if_neg hc, ih, hrest]
        rfl

end Text

namespace Identity

variable {absolute : Bool} {directory path url base name : String} {names : List String}

/-! ### Directories -/

/-- What stands behind the last slash of a path. -/
def lastSegment (path : String) : String :=
  String.ofList (path.toList.reverse.takeWhile (· ≠ '/')).reverse

/-- A text that a path can be put behind: nothing, or something that ends in a slash. -/
def IsDirectory (directory : String) : Prop :=
  directory = "" ∨ ∃ front, directory = front ++ "/"

theorem IsDirectory.append {other : String} (h : IsDirectory directory)
    (h' : IsDirectory other) : IsDirectory (directory ++ other) := by
  rcases h' with rfl | ⟨front, rfl⟩
  · rwa [String.append_empty]
  · exact Or.inr ⟨directory ++ front, String.append_assoc.symm⟩

theorem isDirectory_parentDir (path : String) : IsDirectory (parentDir path) := by
  unfold parentDir
  cases h : path.toList.reverse.dropWhile (· ≠ '/') with
  | nil => exact Or.inl rfl
  | cons c rest =>
      have hslash : c = '/' := by
        have hhead := List.head?_dropWhile_not (· ≠ '/') path.toList.reverse
        rw [h] at hhead
        simpa using hhead
      refine Or.inr ⟨String.ofList rest.reverse, ?_⟩
      rw [hslash, List.reverse_cons, String.ofList_append]

/-- A path is its directory and its last segment. -/
theorem parentDir_append_lastSegment (path : String) :
    parentDir path ++ lastSegment path = path := by
  unfold parentDir lastSegment
  rw [← String.ofList_append, ← List.reverse_append, List.takeWhile_append_dropWhile,
    List.reverse_reverse, String.ofList_toList]

theorem slash_not_mem_lastSegment (path : String) : '/' ∉ (lastSegment path).toList := by
  unfold lastSegment
  rw [String.toList_ofList, List.mem_reverse]
  intro hmem
  simpa using List.mem_takeWhile_imp hmem

/-- There is one way only to take a path apart. -/
theorem of_directory_append (h : IsDirectory directory) (hname : '/' ∉ name.toList) :
    parentDir (directory ++ name) = directory ∧ lastSegment (directory ++ name) = name := by
  have hname' := Text.all_ne (List.mem_reverse.not.mpr hname)
  unfold parentDir lastSegment
  rw [String.toList_append, List.reverse_append, List.dropWhile_append_of_pos hname',
    List.takeWhile_append_of_pos hname']
  rcases h with rfl | ⟨front, rfl⟩ <;> simp

/-- The directory of a path does not change what its last segment is put behind. -/
theorem of_directory_append_path (h : IsDirectory directory) (path : String) :
    parentDir (directory ++ path) = directory ++ parentDir path ∧
      lastSegment (directory ++ path) = lastSegment path := by
  have hparts := of_directory_append (h.append (isDirectory_parentDir path))
    (slash_not_mem_lastSegment path)
  rwa [String.append_assoc, parentDir_append_lastSegment] at hparts

/-! ### Following a path behind a directory -/

theorem isAbsolute_append (directory : String) (h : Path.isAbsolute path = false) :
    Path.isAbsolute (directory ++ path) = Path.isAbsolute directory := by
  unfold Path.isAbsolute at h ⊢
  rw [String.toList_append]
  cases directory.toList with
  | nil => exact h
  | cons c rest => rfl

/-- Whatever passes over empty segments goes through a directory first and then through the
path behind it. -/
theorem foldl_pieces_append {α : Type} {f : α → String → α} (hidle : ∀ a, f a "" = a)
    (h : IsDirectory directory) (a : α) (path : String) :
    (Text.pieces '/' (directory ++ path)).foldl f a =
      (Text.pieces '/' path).foldl f ((Text.pieces '/' directory).foldl f a) := by
  rcases h with rfl | ⟨front, rfl⟩
  · have hempty : (Text.pieces '/' "").foldl f a = a := hidle a
    rw [String.empty_append, hempty]
  · unfold Text.pieces
    have hpath : (front ++ "/" ++ path).toList = front.toList ++ '/' :: path.toList := by simp
    have hdirectory : (front ++ "/").toList = front.toList ++ '/' :: [] := by simp
    have hlast : ∀ b, ((Text.splitOn '/' []).map String.ofList).foldl f b = b := hidle
    rw [hpath, hdirectory, Text.splitOn_concat, Text.splitOn_concat, List.map_append,
      List.map_append, List.foldl_append, List.foldl_append, hlast]

/-- **A relative path is followed from where its directory leads.** -/
theorem walk_append (h : IsDirectory directory) (hpath : Path.isAbsolute path = false)
    (stack : List String) : walk stack (directory ++ path) = walk (walk stack directory) path := by
  unfold walk
  rw [isAbsolute_append directory hpath, hpath, foldl_pieces_append enter_idle h]
  rfl

theorem isAbsolute_lastSegment (path : String) : Path.isAbsolute (lastSegment path) = false := by
  rw [← Bool.not_eq_true, isAbsolute_iff]
  exact fun hhead => slash_not_mem_lastSegment path (List.mem_of_head? hhead)

theorem pieces_lastSegment (path : String) :
    Text.pieces '/' (lastSegment path) = [lastSegment path] := by
  unfold Text.pieces
  rw [Text.splitOn_of_not_mem (slash_not_mem_lastSegment path), List.map_singleton,
    String.ofList_toList]

/-- A path enters its last segment from the place of its directory. -/
theorem walk_eq (stack : List String) (path : String) :
    walk stack path = enter (walk stack (parentDir path)) (lastSegment path) := by
  conv_lhs => rw [← parentDir_append_lastSegment path]
  rw [walk_append (isDirectory_parentDir path) (isAbsolute_lastSegment path)]
  unfold walk
  rw [pieces_lastSegment, isAbsolute_lastSegment]
  rfl

/-! ### The directory of a normal form -/

/-- The last segment of a reference names something. -/
def Named (url : String) : Prop :=
  lastSegment url ≠ "" ∧ lastSegment url ≠ "." ∧ lastSegment url ≠ ".."

theorem Named.isName (h : Named url) : IsName (lastSegment url) :=
  ⟨h.1, h.2.1, h.2.2, slash_not_mem_lastSegment url⟩

/-- Joined segments are the last one behind a directory. -/
theorem exists_ofSegments_concat (absolute : Bool) (names : List String) (name : String) :
    ∃ directory, IsDirectory directory ∧
      ofSegments absolute (names ++ [name]) = directory ++ name := by
  have hjoin : ∃ directory, IsDirectory directory ∧
      Text.joinWith "/" (names ++ [name]) = directory ++ name := by
    induction names with
    | nil => exact ⟨"", Or.inl rfl, String.empty_append.symm⟩
    | cons first rest ih =>
        obtain ⟨directory, hdirectory, heq⟩ := ih
        have hfirst : IsDirectory (first ++ "/") := Or.inr ⟨first, rfl⟩
        refine ⟨first ++ "/" ++ directory, hfirst.append hdirectory, ?_⟩
        rw [String.append_assoc, ← heq]
        cases rest <;> rfl
  obtain ⟨directory, hdirectory, heq⟩ := hjoin
  have hroot : IsDirectory (if absolute = true then "/" else "") := by
    cases absolute
    · exact Or.inl rfl
    · exact Or.inr ⟨"", rfl⟩
  exact ⟨_, hroot.append hdirectory, by rw [ofSegments, heq, String.append_assoc]⟩

/-- What is left of a path is what one step more leaves of its directory. -/
theorem reduced_eq (path : String) :
    reduced path =
      step (Path.isAbsolute (parentDir path)) (reduced (parentDir path)) (lastSegment path) := by
  conv_lhs => rw [← parentDir_append_lastSegment path]
  unfold reduced
  rw [foldl_pieces_append (step_idle _) (isDirectory_parentDir path), pieces_lastSegment,
    isAbsolute_append _ (isAbsolute_lastSegment path)]
  rfl

/-- Normalizing keeps a last segment that is a name. -/
theorem lastSegment_normalizePath (h : Named path) :
    lastSegment (normalizePath path) = lastSegment path := by
  have hreduced : reduced path = lastSegment path :: reduced (parentDir path) := by
    rw [reduced_eq]
    unfold step
    rw [if_neg (not_or.mpr ⟨h.1, h.2.1⟩), if_neg h.2.2]
  obtain ⟨directory, hdirectory, heq⟩ := exists_ofSegments_concat (Path.isAbsolute path)
    (reduced (parentDir path)).reverse (lastSegment path)
  rw [normalizePath_eq, hreduced, List.reverse_cons, heq]
  exact (of_directory_append hdirectory (slash_not_mem_lastSegment path)).2

/-- **The directory of the normal form leads where the directory of the path leads.** -/
theorem walk_parentDir_normalizePath (h : Named path) (stack : List String) :
    walk stack (parentDir (normalizePath path)) = walk stack (parentDir path) := by
  have hwalk := walk_normalizePath stack path
  rw [walk_eq stack path, walk_eq stack (normalizePath path), lastSegment_normalizePath h,
    enter_name h.isName, enter_name h.isName] at hwalk
  exact List.cons.inj hwalk |>.2

/-- What is found behind the directory of a normal form is found behind the directory of the
path. -/
theorem normalizePath_beside (h : Named path) (hurl : Path.isAbsolute url = false) :
    normalizePath (parentDir (normalizePath path) ++ url) =
      normalizePath (parentDir path ++ url) := by
  refine normalizePath_eq_of_samePlace ⟨0, fun stack _ _ => ?_⟩
  rw [walk_append (isDirectory_parentDir _) hurl, walk_append (isDirectory_parentDir _) hurl,
    walk_parentDir_normalizePath h]

/-! ### Chains -/

/-- The identity of the document at the end of a chain of references. -/
def follow (base : String) (urls : List String) : String :=
  urls.foldl (fun base url => resolve (some base) url) base

/-- A reference by a path that is seen from a directory. -/
structure IsRelative (url : String) : Prop where
  /-- It does not start at the root. -/
  noRoot : Path.isAbsolute url = false
  /-- It is no url. -/
  noUrl : Url.parse? url = none

theorem resolve_relative (h : IsRelative url) (hbase : Url.parse? base = none) :
    resolve (some base) url = normalizePath (parentDir base ++ url) := by
  have hhead : ¬ url.toList.head? = some '/' := by
    rw [← isAbsolute_iff, h.noRoot]
    exact Bool.false_ne_true
  unfold resolve
  simp only [h.noUrl, hbase, Option.isSome_none, Bool.false_eq_true, if_false, if_neg hhead]

/-- The directories of a chain and its last reference, one behind the other. -/
def wholePath (urls : List String) (last : String) : String :=
  urls.foldr (fun url rest => parentDir url ++ rest) last

theorem isAbsolute_wholePath {urls : List String} {last : String}
    (hurls : ∀ url ∈ urls, IsRelative url) (hlast : IsRelative last) :
    Path.isAbsolute (wholePath urls last) = false := by
  induction urls with
  | nil => exact hlast.noRoot
  | cons url rest ih =>
      rw [List.forall_mem_cons] at hurls
      show Path.isAbsolute (parentDir url ++ wholePath rest last) = false
      rw [isAbsolute_append _ (ih hurls.2), ← hurls.1.noRoot]
      conv_rhs => rw [← parentDir_append_lastSegment url]
      rw [isAbsolute_append _ (isAbsolute_lastSegment url)]

/-- One hop: from a document that was found by a name, everything is found behind the two
directories one after the other. -/
theorem normalizePath_hop (hurl : Named url) (hpath : Path.isAbsolute path = false) :
    normalizePath (parentDir (normalizePath (parentDir base ++ url)) ++ path) =
      normalizePath (parentDir base ++ (parentDir url ++ path)) := by
  obtain ⟨hparent, hlast⟩ := of_directory_append_path (isDirectory_parentDir base) url
  have hnamed : Named (parentDir base ++ url) := by
    unfold Named
    rwa [hlast]
  rw [normalizePath_beside hnamed hpath, hparent, String.append_assoc]

theorem follow_concat {urls : List String} {last : String}
    (hurls : ∀ url ∈ urls, IsRelative url ∧ Named url) (hlast : IsRelative last)
    (hdocuments : ∀ front, front <+: urls → Url.parse? (follow base front) = none) :
    follow base (urls ++ [last]) = normalizePath (parentDir base ++ wholePath urls last) := by
  induction urls generalizing base with
  | nil => exact resolve_relative hlast (hdocuments [] List.prefix_rfl)
  | cons url rest ih =>
      rw [List.forall_mem_cons] at hurls
      have hbase : Url.parse? base = none := hdocuments [] List.nil_prefix
      have hnext := resolve_relative hurls.1.1 hbase
      have hrest : ∀ front, front <+: rest →
          Url.parse? (follow (resolve (some base) url) front) = none :=
        fun front hfront => hdocuments (url :: front) (List.cons_prefix_cons.mpr ⟨rfl, hfront⟩)
      have hpath := isAbsolute_wholePath (fun other hother => (hurls.2 other hother).1) hlast
      calc follow base (url :: rest ++ [last])
          = follow (resolve (some base) url) (rest ++ [last]) := rfl
        _ = normalizePath (parentDir (resolve (some base) url) ++ wholePath rest last) :=
            ih hurls.2 hrest
        _ = normalizePath (parentDir base ++ (parentDir url ++ wholePath rest last)) := by
            rw [hnext, normalizePath_hop hurls.1.2 hpath]

/-- **Chains of relative references compose.** Where a document is found by a relative reference
whose last segment is a name, what it refers to by a relative path is found at the normal form
of the two directories and that path.  So whether a chain of any length is normalized at every
document or once at its end, it leads to the same identity, as long as no document on the way is
a url. -/
theorem chains_compose :
    (∀ base u v, IsRelative u → IsRelative v → Named u → Url.parse? base = none →
      Url.parse? (resolve (some base) u) = none →
      resolve (some (resolve (some base) u)) v =
        normalizePath (parentDir base ++ parentDir u ++ v)) ∧
    ∀ base urls last, (∀ url ∈ urls, IsRelative url ∧ Named url) → IsRelative last →
      (∀ front, front <+: urls → Url.parse? (follow base front) = none) →
      follow base (urls ++ [last]) = normalizePath (parentDir base ++ wholePath urls last) := by
  refine ⟨fun base u v hu hv hnamed hbase hfirst => ?_, fun _ _ _ => follow_concat⟩
  rw [resolve_relative hv hfirst, resolve_relative hu hbase, normalizePath_hop hnamed hv.noRoot,
    String.append_assoc]

theorem chains_compose_rates :
    resolve (some (resolve (some "models/root.json") "../car.json")) "../types/money.json" =
      "../types/money.json" ∧
    follow "models/root.json" ["../car.json", "../types/./money.json", "x/../rate.json"] =
      "../types/rate.json" := by
  obtain ⟨htwo, hchain⟩ := chains_compose
  have hnone : ∀ url ∈ ["../car.json", "../types/money.json", "../types/./money.json",
      "x/../rate.json", "models/root.json", resolve (some "models/root.json") "../car.json"],
      Url.parse? url = none := by
    simp only [← Option.isNone_iff_eq_none]
    decide +kernel
  have hdocuments : ∀ front ∈ ["../car.json", "../types/./money.json"].inits,
      Url.parse? (follow "models/root.json" front) = none := by
    simp only [← Option.isNone_iff_eq_none]
    decide +kernel
  simp only [List.forall_mem_cons] at hnone
  obtain ⟨hcar, hmoney, htypes, hrate, hbase, hfirst, -⟩ := hnone
  have hrelative : IsRelative "../car.json" ∧ IsRelative "../types/money.json" ∧
      IsRelative "../types/./money.json" ∧ IsRelative "x/../rate.json" :=
    ⟨⟨by decide, hcar⟩, ⟨by decide, hmoney⟩, ⟨by decide, htypes⟩, ⟨by decide, hrate⟩⟩
  have hnamed : Named "../car.json" ∧ Named "../types/./money.json" := by
    unfold Named
    decide
  refine ⟨?_, ?_⟩
  · rw [htwo _ _ _ hrelative.1 hrelative.2.1 hnamed.1 hbase hfirst]
    decide +kernel
  · have hurls : ∀ url ∈ ["../car.json", "../types/./money.json"], IsRelative url ∧ Named url := by
      simp only [List.forall_mem_cons]
      exact ⟨⟨hrelative.1, hnamed.1⟩, ⟨hrelative.2.2.1, hnamed.2⟩, by simp⟩
    have hend := hchain "models/root.json" _ "x/../rate.json" hurls hrelative.2.2.2
      fun front hfront => hdocuments front ((List.mem_inits _ _).mpr hfront)
    refine hend.trans ?_
    decide +kernel

end Identity

end SchemaBundle
