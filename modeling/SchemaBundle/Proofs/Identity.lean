/-
Which paths name the same place.

A path is walked from a stack of directories: a name goes down, two dots go up, and nothing
happens at an empty segment or a single dot.  Going up at the root stays there, so a walk may
forget where it started; but a relative path, followed from deep enough, never gets that far.

Normalizing keeps a second stack, the segments that are left.  Each step of it does to the
place that these segments lead to what the segment itself would do, and that is why the normal
form leads to the same place.  What is left are ups, only in front and only in a relative path,
and names behind them.  Seen from a deep stack of one new name, such a path shows both: how much
of the stack is gone, and which names stand on top of the rest.  So no two normal forms name the
same place.
-/
import Mathlib.Data.Finset.Lattice.Fold
import SchemaBundle.Files.Path
import SchemaBundle.Identity
import SchemaBundle.Proofs.Text

namespace SchemaBundle

namespace Identity

variable {absolute : Bool} {kept stack names : List String} {path segment p q : String} {ups : Nat}

/-! ### Walking -/

/-- A segment that is the name of a directory. -/
def IsName (segment : String) : Prop :=
  segment ≠ "" ∧ segment ≠ "." ∧ segment ≠ ".." ∧ '/' ∉ segment.toList

/-- The directories after one segment, the innermost first. -/
def enter (stack : List String) (segment : String) : List String :=
  if segment = "" ∨ segment = "." then stack
  else if segment = ".." then stack.tail
  else segment :: stack

/-- The directories at the end of a path; an absolute path starts at the root. -/
def walk (stack : List String) (path : String) : List String :=
  (Text.pieces '/' path).foldl enter (if Path.isAbsolute path then [] else stack)

/-- Two paths lead to one place wherever they are followed, from deep enough. -/
def SamePlace (p q : String) : Prop :=
  ∃ depth, ∀ stack, (∀ name ∈ stack, IsName name) → depth ≤ stack.length →
    walk stack p = walk stack q

theorem enter_idle (stack : List String) : enter stack "" = stack := rfl

theorem enter_up (stack : List String) : enter stack ".." = stack.tail := rfl

theorem enter_name (h : IsName segment) (stack : List String) :
    enter stack segment = segment :: stack := by
  unfold enter
  rw [if_neg (not_or.mpr ⟨h.1, h.2.1⟩), if_neg h.2.2.1]

/-! ### Segments -/

/-- What follows the leading slash of a path. -/
def body (path : String) : List Char :=
  if Path.isAbsolute path then path.toList.drop 1 else path.toList

/-- The segments of a path behind a leading slash; where nothing is left, there are none. -/
def segments (path : String) : List String :=
  if body path = [] then [] else (Text.splitOn '/' (body path)).map String.ofList

/-- The path with the given segments. -/
def ofSegments (absolute : Bool) (segments : List String) : String :=
  (if absolute then "/" else "") ++ Text.joinWith "/" segments

theorem isAbsolute_iff : Path.isAbsolute path = true ↔ path.toList.head? = some '/' := by
  simp [Path.isAbsolute]

theorem body_of_absolute (h : Path.isAbsolute path = true) : path.toList = '/' :: body path := by
  unfold body
  rw [if_pos h]
  rw [isAbsolute_iff, List.head?_eq_some_iff] at h
  obtain ⟨rest, hrest⟩ := h
  rw [hrest]
  rfl

theorem body_of_relative (h : Path.isAbsolute path = false) : path.toList = body path := by
  unfold body
  rw [h]
  rfl

theorem slash_not_mem_of_mem_segments (h : segment ∈ segments path) : '/' ∉ segment.toList := by
  unfold segments at h
  split at h
  · simp at h
  · obtain ⟨piece, hpiece, rfl⟩ := List.mem_map.mp h
    rw [String.toList_ofList]
    exact Text.not_mem_of_mem_splitOn hpiece

/-- Whatever passes over empty segments goes through the segments of a path only. -/
theorem foldl_pieces {α : Type} {f : α → String → α} (hidle : ∀ a, f a "" = a) (a : α)
    (path : String) : (Text.pieces '/' path).foldl f a = (segments path).foldl f a := by
  have hbody : ((Text.splitOn '/' (body path)).map String.ofList).foldl f a =
      (segments path).foldl f a := by
    unfold segments
    split
    · rename_i hempty
      rw [hempty]
      exact hidle a
    · rfl
  rw [← hbody, Text.pieces]
  cases habsolute : Path.isAbsolute path with
  | false => rw [body_of_relative habsolute]
  | true =>
      rw [body_of_absolute habsolute, Text.splitOn_cons, List.map_cons, List.foldl_cons]
      rw [show f a (String.ofList []) = a from hidle a]

/-- **A path is read back from its segments.** -/
theorem of_ofSegments (hnames : ∀ name ∈ names, name ≠ "" ∧ '/' ∉ name.toList) :
    Path.isAbsolute (ofSegments absolute names) = absolute ∧
      segments (ofSegments absolute names) = names := by
  have hjoin : names ≠ [] →
      Text.splitOn '/' (Text.joinWith "/" names).toList = names.map String.toList :=
    fun hne => Text.splitOn_joinWith hne fun name hname => (hnames name hname).2
  have hfilled : names ≠ [] → [] ∉ Text.splitOn '/' (Text.joinWith "/" names).toList := by
    intro hne hempty
    rw [hjoin hne] at hempty
    obtain ⟨name, hname, hnil⟩ := List.mem_map.mp hempty
    exact (hnames name hname).1 (String.toList_inj.mp hnil)
  have hstart : (Text.joinWith "/" names).toList.head? ≠ some '/' := by
    intro hhead
    cases names with
    | nil => simp [Text.joinWith] at hhead
    | cons name rest =>
        obtain ⟨tail, htail⟩ := List.head?_eq_some_iff.mp hhead
        refine hfilled (List.cons_ne_nil _ _) ?_
        rw [htail, Text.splitOn_cons]
        exact List.mem_cons_self
  have habsolute : Path.isAbsolute (ofSegments absolute names) = absolute := by
    cases absolute with
    | true => rw [isAbsolute_iff, ofSegments, String.toList_append]; rfl
    | false =>
        rw [← Bool.not_eq_true, isAbsolute_iff, ofSegments, String.toList_append]
        exact hstart
  have hbody : body (ofSegments absolute names) = (Text.joinWith "/" names).toList := by
    unfold body
    rw [habsolute, ofSegments, String.toList_append]
    cases absolute <;> rfl
  refine ⟨habsolute, ?_⟩
  unfold segments
  rw [hbody]
  cases names with
  | nil => rfl
  | cons name rest =>
      have hne : (Text.joinWith "/" (name :: rest)).toList ≠ [] := by
        intro hempty
        refine hfilled (List.cons_ne_nil _ _) ?_
        rw [hempty]
        exact List.mem_cons_self
      rw [hjoin (List.cons_ne_nil _ _), if_neg hne, List.map_map]
      simp

/-! ### Reducing -/

/-- The segments that are left of a path, the last first. -/
def reduced (path : String) : List String :=
  (Text.pieces '/' path).foldl (step (Path.isAbsolute path)) []

theorem normalizePath_eq (path : String) :
    normalizePath path = ofSegments (Path.isAbsolute path) (reduced path).reverse := by
  unfold normalizePath ofSegments reduced Path.isAbsolute
  simp

/-- What is left of a path: names, the last first, and ups behind them. Of an absolute path no
ups are left. -/
def Reduced (absolute : Bool) (kept : List String) : Prop :=
  ∃ names ups, kept = names ++ List.replicate ups ".." ∧ (∀ name ∈ names, IsName name) ∧
    (absolute = true → ups = 0)

/-- Where the segments that are left lead, the last first. -/
def lead (stack kept : List String) : List String :=
  kept.foldr (fun segment stack => enter stack segment) stack

theorem lead_ups (stack : List String) (ups : Nat) :
    lead stack (List.replicate ups "..") = stack.drop ups := by
  induction ups with
  | zero => rfl
  | succ ups ih =>
      show enter (lead stack (List.replicate ups "..")) ".." = _
      rw [ih, enter_up, List.tail_drop]

/-- The ups leave the rest of the stack, and the names come on top of it. -/
theorem lead_reduced (hnames : ∀ name ∈ names, IsName name) (stack : List String) (ups : Nat) :
    lead stack (names ++ List.replicate ups "..") = names ++ stack.drop ups := by
  induction names with
  | nil => exact lead_ups stack ups
  | cons name names ih =>
      rw [List.forall_mem_cons] at hnames
      show enter (lead stack (names ++ List.replicate ups "..")) name = _
      rw [ih hnames.2, enter_name hnames.1, List.cons_append]

/-- **One step of reducing** keeps what is left in form, and leads where the segment does. -/
theorem Reduced.step (h : Reduced absolute kept) (hslash : '/' ∉ segment.toList)
    (hroot : absolute = true → stack = []) :
    Reduced absolute (step absolute kept segment) ∧
      lead stack (step absolute kept segment) = enter (lead stack kept) segment := by
  obtain ⟨names, ups, rfl, hnames, hups⟩ := h
  unfold Identity.step
  by_cases hidle : segment = "" ∨ segment = "."
  · rw [if_pos hidle]
    refine ⟨⟨names, ups, rfl, hnames, hups⟩, ?_⟩
    unfold enter
    rw [if_pos hidle]
  rw [if_neg hidle]
  by_cases hup : segment = ".."
  · subst hup
    rw [if_pos rfl, enter_up, lead_reduced hnames]
    cases names with
    | cons name names =>
        rw [List.forall_mem_cons] at hnames
        simp only [List.cons_append, if_neg hnames.1.2.2.1, List.tail_cons]
        exact ⟨⟨names, ups, rfl, hnames.2, hups⟩, lead_reduced hnames.2 stack ups⟩
    | nil =>
        cases absolute with
        | true =>
            obtain rfl := hups rfl
            obtain rfl := hroot rfl
            exact ⟨⟨[], 0, rfl, hnames, hups⟩, rfl⟩
        | false =>
            have hmore : Reduced false (List.replicate (ups + 1) "..") :=
              ⟨[], ups + 1, rfl, hnames, by simp⟩
            have hlead := lead_ups stack (ups + 1)
            have htail : ([] ++ stack.drop ups).tail = stack.drop (ups + 1) := List.tail_drop
            rw [htail]
            cases ups with
            | zero => exact ⟨hmore, hlead⟩
            | succ ups => exact ⟨hmore, hlead⟩
  · rw [if_neg hup]
    rw [not_or] at hidle
    have hname : IsName segment := ⟨hidle.1, hidle.2, hup, hslash⟩
    exact ⟨⟨segment :: names, ups, rfl, List.forall_mem_cons.mpr ⟨hname, hnames⟩, hups⟩, rfl⟩

/-- **Reducing keeps the place** that the segments lead to. -/
theorem Reduced.foldl {segments : List String} (h : Reduced absolute kept)
    (hslash : ∀ segment ∈ segments, '/' ∉ segment.toList) (hroot : absolute = true → stack = []) :
    Reduced absolute (segments.foldl (Identity.step absolute) kept) ∧
      lead stack (segments.foldl (Identity.step absolute) kept) =
        segments.foldl enter (lead stack kept) := by
  induction segments generalizing kept with
  | nil => exact ⟨h, rfl⟩
  | cons segment segments ih =>
      rw [List.forall_mem_cons] at hslash
      obtain ⟨hstep, hlead⟩ := h.step hslash.1 hroot
      rw [List.foldl_cons, List.foldl_cons, ← hlead]
      exact ih hstep hslash.2

theorem step_idle (absolute : Bool) (kept : List String) : step absolute kept "" = kept := rfl

theorem reduced_spec (path : String) :
    Reduced (Path.isAbsolute path) (reduced path) ∧
      ∀ stack, walk stack path =
        lead (if Path.isAbsolute path then [] else stack) (reduced path) := by
  have hstart : Reduced (Path.isAbsolute path) [] := ⟨[], 0, rfl, by simp, fun _ => rfl⟩
  have hslash : ∀ segment ∈ segments path, '/' ∉ segment.toList :=
    fun segment => slash_not_mem_of_mem_segments
  unfold reduced walk
  rw [foldl_pieces (step_idle _)]
  have hfromEmpty := hstart.foldl hslash (fun _ => rfl : Path.isAbsolute path = true → [] = [])
  refine ⟨hfromEmpty.1, fun stack => ?_⟩
  rw [foldl_pieces enter_idle]
  exact (hstart.foldl hslash fun h => if_pos h).2.symm

/-! ### Normal forms -/

/-- A path without empty segments and dots, with ups in front only, and only if it is
relative. -/
def Normal (path : String) : Prop :=
  ∃ ups names, segments path = List.replicate ups ".." ++ names ∧
    (∀ name ∈ names, IsName name) ∧ (Path.isAbsolute path = true → ups = 0)

theorem Reduced.filled (h : Reduced absolute kept) :
    ∀ segment ∈ kept.reverse, segment ≠ "" ∧ '/' ∉ segment.toList := by
  obtain ⟨names, ups, rfl, hnames, -⟩ := h
  intro segment hsegment
  rw [List.mem_reverse, List.mem_append] at hsegment
  rcases hsegment with hname | hup
  · exact ⟨(hnames segment hname).1, (hnames segment hname).2.2.2⟩
  · rw [List.eq_of_mem_replicate hup]
    decide

/-- The normal form of a path is its reduced segments. -/
theorem of_normalizePath (path : String) :
    Path.isAbsolute (normalizePath path) = Path.isAbsolute path ∧
      segments (normalizePath path) = (reduced path).reverse := by
  rw [normalizePath_eq]
  exact of_ofSegments (reduced_spec path).1.filled

theorem normal_normalizePath (path : String) : Normal (normalizePath path) := by
  obtain ⟨habsolute, hsegments⟩ := of_normalizePath path
  obtain ⟨names, ups, hkept, hnames, hups⟩ := (reduced_spec path).1
  refine ⟨ups, names.reverse, ?_, ?_, habsolute ▸ hups⟩
  · rw [hsegments, hkept, List.reverse_append, List.reverse_replicate]
  · exact fun name hname => hnames name (List.mem_reverse.mp hname)

/-- **The normal form leads where the path leads**, from wherever it is followed. -/
theorem walk_normalizePath (stack : List String) (path : String) :
    walk stack (normalizePath path) = walk stack path := by
  obtain ⟨habsolute, hsegments⟩ := of_normalizePath path
  rw [(reduced_spec path).2, walk, foldl_pieces enter_idle, habsolute, hsegments,
    List.foldl_reverse]
  rfl

/-! ### Places -/

/-- There is always another name. -/
theorem exists_new_name (names : List String) : ∃ name, IsName name ∧ name ∉ names := by
  obtain ⟨n, hn⟩ : ∃ n, ∀ name ∈ names, name.length ≤ n :=
    ⟨names.toFinset.sup String.length,
      fun name hname => Finset.le_sup (List.mem_toFinset.mpr hname)⟩
  have hother : ∀ text : String, text.length < n + 3 →
      String.ofList (List.replicate (n + 3) 'a') ≠ text := by
    rintro text hlength rfl
    simp at hlength
  refine ⟨_, ⟨hother "" ?_, hother "." ?_, hother ".." ?_, by simp⟩, fun hmem => ?_⟩
  · show 0 < n + 3
    omega
  · show 1 < n + 3
    omega
  · show 2 < n + 3
    omega
  · exact hother _ (by have hle := hn _ hmem; omega) rfl

/-- A list of other names on top of copies of one name shows both. -/
theorem append_replicate_inj {others : List String} {name : String} {m n : Nat}
    (hnames : name ∉ names) (hothers : name ∉ others)
    (h : names ++ List.replicate m name = others ++ List.replicate n name) :
    names = others ∧ m = n := by
  have hcount := congrArg (List.count name) h
  rw [List.count_append, List.count_append, List.count_eq_zero_of_not_mem hnames,
    List.count_eq_zero_of_not_mem hothers, List.count_replicate_self, List.count_replicate_self,
    Nat.zero_add, Nat.zero_add] at hcount
  rw [hcount] at h
  exact ⟨List.append_cancel_right h, hcount⟩

/-- **Different normal forms name different places.** -/
theorem normalizePath_eq_of_samePlace (h : SamePlace p q) : normalizePath p = normalizePath q := by
  obtain ⟨depth, hsame⟩ := h
  obtain ⟨⟨names, ups, hkept, hnames, hups⟩, hwalk⟩ := reduced_spec p
  obtain ⟨⟨names', ups', hkept', hnames', hups'⟩, hwalk'⟩ := reduced_spec q
  obtain ⟨new, hnew, hother⟩ := exists_new_name (names ++ names')
  rw [List.mem_append, not_or] at hother
  -- a stack of one new name, deeper than both paths go up
  have hwalks := hsame (List.replicate (depth + ups + ups' + 1) new)
    (fun name hname => List.eq_of_mem_replicate hname ▸ hnew) (by simp; omega)
  have hplace : ∀ absolute k, (if absolute = true then [] else
      List.replicate (depth + ups + ups' + 1) new).drop k =
        List.replicate (if absolute = true then 0 else depth + ups + ups' + 1 - k) new := by
    intro absolute k
    cases absolute <;> simp
  rw [hwalk, hwalk', hkept, hkept', lead_reduced hnames, lead_reduced hnames', hplace, hplace]
    at hwalks
  obtain ⟨rfl, hrest⟩ := append_replicate_inj hother.1 hother.2 hwalks
  have hboth : Path.isAbsolute p = Path.isAbsolute q ∧ ups = ups' := by
    cases hp : Path.isAbsolute p <;> cases hq : Path.isAbsolute q <;>
      simp [hp, hq] at hrest hups hups' ⊢ <;> omega
  rw [normalizePath_eq, normalizePath_eq, hkept, hkept', hboth.1, hboth.2]

theorem samePlace_of_normalizePath_eq (h : normalizePath p = normalizePath q) : SamePlace p q := by
  refine ⟨0, fun stack _ _ => ?_⟩
  rw [← walk_normalizePath stack p, h, walk_normalizePath]

theorem normalizePath_eq_iff : normalizePath p = normalizePath q ↔ SamePlace p q :=
  ⟨samePlace_of_normalizePath_eq, normalizePath_eq_of_samePlace⟩

/-- Absolute paths name one place if they lead there from the root. -/
theorem samePlace_absolute_iff (hp : Path.isAbsolute p = true) (hq : Path.isAbsolute q = true) :
    SamePlace p q ↔ walk [] p = walk [] q := by
  have hroot : ∀ path stack, Path.isAbsolute path = true → walk stack path = walk [] path := by
    intro path stack habsolute
    unfold walk
    rw [habsolute]
    rfl
  constructor
  · rintro ⟨depth, hsame⟩
    obtain ⟨name, hname, -⟩ := exists_new_name []
    have hwalks := hsame (List.replicate depth name)
      (fun other hother => List.eq_of_mem_replicate hother ▸ hname) (by simp)
    rwa [hroot p _ hp, hroot q _ hq] at hwalks
  · intro h
    refine ⟨0, fun stack _ _ => ?_⟩
    rw [hroot p stack hp, hroot q stack hq, h]

/-- **Normal forms are complete.** A normal form is absolute if its path is, has no segment that
could be left out, and leads where its path leads. Two paths have one normal form exactly if they
lead to one place from every stack that is deep enough, which for absolute paths means from the
root. So normalizing twice is normalizing once, and references of a root that are no urls name
one document exactly if they lead to one place. -/
theorem normalizePath_complete :
    (∀ path, Path.isAbsolute (normalizePath path) = Path.isAbsolute path ∧
      Normal (normalizePath path)) ∧
    (∀ stack path, walk stack (normalizePath path) = walk stack path) ∧
    (∀ p q, normalizePath p = normalizePath q ↔ SamePlace p q) ∧
    (∀ p q, Path.isAbsolute p = true → Path.isAbsolute q = true →
      (normalizePath p = normalizePath q ↔ walk [] p = walk [] q)) ∧
    (∀ path, normalizePath (normalizePath path) = normalizePath path) ∧
    ∀ u v, Url.parse? u = none → Url.parse? v = none →
      (resolve none u = resolve none v ↔ SamePlace u v) := by
  refine ⟨fun path => ⟨(of_normalizePath path).1, normal_normalizePath path⟩,
    walk_normalizePath, fun _ _ => normalizePath_eq_iff, fun p q hp hq => ?_, fun path => ?_,
    fun u v hu hv => ?_⟩
  · rw [normalizePath_eq_iff, samePlace_absolute_iff hp hq]
  · exact normalizePath_eq_iff.mpr ⟨0, fun stack _ _ => walk_normalizePath stack path⟩
  · have hresolve : ∀ url, Url.parse? url = none → resolve none url = normalizePath url := by
      intro url hurl
      unfold resolve
      rw [hurl]
      rfl
    rw [hresolve u hu, hresolve v hv, normalizePath_eq_iff]

theorem normalizePath_complete_dots :
    (Url.parse? "./a/../b//c.json" = none ∧ Url.parse? "b/c.json" = none ∧
      SamePlace "./a/../b//c.json" "b/c.json") ∧
    ¬ SamePlace "../a" "a" ∧ walk [] "/../a" = walk [] "/a/b/.." := by
  obtain ⟨-, -, hplace, habsolute, -, hrefs⟩ := normalizePath_complete
  have hdots : Url.parse? "./a/../b//c.json" = none := by
    rw [← Option.isNone_iff_eq_none]
    decide +kernel
  have hplain : Url.parse? "b/c.json" = none := by
    rw [← Option.isNone_iff_eq_none]
    decide +kernel
  refine ⟨⟨hdots, hplain, (hrefs _ _ hdots hplain).mp (by decide +kernel)⟩, ?_, ?_⟩
  · rw [← hplace]
    decide +kernel
  · exact (habsolute _ _ (by decide) (by decide)).mp (by decide +kernel)

end Identity

end SchemaBundle
