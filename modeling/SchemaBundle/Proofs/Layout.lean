/-
Texts that can be read in one way only.

The pretty layout of a value is taken apart from the front.  A string ends at the first quote
that is not escaped, and what stands before it is read back to the string itself, whatever it
looks like.  A number goes on as long as there are characters of numbers.  A filled container
has a line for each of its parts; behind a part there is a comma or a new line, and with
neither of them could a number go on.  So where two such texts agree, they agree part by part.

Whole numbers and doubles are told apart by the point or the exponent that the text of a double
always has, and the sign of a double is its first character, also if it is zero.
-/
import Mathlib.Data.List.Forall2
import SchemaBundle.Json.Lexer
import SchemaBundle.Json.Writer

namespace SchemaBundle

/-! ### Numbers -/

/-- The characters that numbers are written with. -/
def Number.isNumeral (c : Char) : Bool :=
  c.isDigit || c = '-' || c = '+' || c = '.' || c = 'e'

open Number (isNumeral)

theorem isNumeral_of_mem_toDigits {n : Nat} : ∀ c ∈ Nat.toDigits 10 n, isNumeral c = true := by
  intro c hc
  simp [isNumeral, Nat.isDigit_of_mem_toDigits (by decide) (by decide) hc]

namespace Double

variable {d : Char} {ds : List Char}

/-- Characters of numbers that start with a digit, a point or an exponent among them. -/
structure Fractional (cs : List Char) : Prop where
  first : ∃ d rest, cs = d :: rest ∧ d.isDigit = true
  numeral : ∀ c ∈ cs, isNumeral c = true
  marked : '.' ∈ cs ∨ 'e' ∈ cs

/-- Far from the point, a double is written with an exponent. -/
theorem fractional_exponent {sign : List Char} (hd : d.isDigit = true)
    (hnumeral : ∀ c ∈ d :: ds, isNumeral c = true) (hsign : ∀ c ∈ sign, isNumeral c = true)
    (n : Nat) :
    Fractional ((d :: ds).take 1 ++ (if ((d :: ds).drop 1).isEmpty then []
      else '.' :: (d :: ds).drop 1) ++ 'e' :: sign ++ Nat.toDigits 10 n) := by
  have hfraction : ∀ c ∈ (if ds.isEmpty then [] else '.' :: ds), isNumeral c = true := by
    split
    · simp
    · exact List.forall_mem_cons.mpr ⟨rfl, (List.forall_mem_cons.mp hnumeral).2⟩
  refine ⟨⟨d, _, rfl, hd⟩, ?_, Or.inr (by simp)⟩
  simp only [List.forall_mem_append, List.forall_mem_cons, List.take_succ_cons, List.take_zero,
    List.drop_succ_cons, List.drop_zero]
  exact ⟨⟨⟨⟨(List.forall_mem_cons.mp hnumeral).1, by simp⟩, hfraction⟩, rfl, hsign⟩,
    isNumeral_of_mem_toDigits⟩

/-- Below one, it starts with a zero and a point. -/
theorem fractional_small (hnumeral : ∀ c ∈ ds, isNumeral c = true) (zeros : Nat) :
    Fractional ('0' :: '.' :: List.replicate zeros '0' ++ ds) := by
  refine ⟨⟨'0', _, rfl, rfl⟩, ?_, Or.inl (by simp)⟩
  simp only [List.forall_mem_append, List.forall_mem_cons]
  exact ⟨⟨rfl, rfl, fun c hc => (List.eq_of_mem_replicate hc) ▸ rfl⟩, hnumeral⟩

/-- Otherwise it is cut by a point. -/
theorem fractional_cut (hd : d.isDigit = true) (hnumeral : ∀ c ∈ d :: ds, isNumeral c = true)
    (whole zeros : Nat) :
    Fractional (((d :: ds) ++ List.replicate zeros '0').take (whole + 1) ++ '.' ::
      (if (((d :: ds) ++ List.replicate zeros '0').drop (whole + 1)).isEmpty then ['0']
        else ((d :: ds) ++ List.replicate zeros '0').drop (whole + 1))) := by
  have hpadded : ∀ c ∈ (d :: ds) ++ List.replicate zeros '0', isNumeral c = true :=
    List.forall_mem_append.mpr ⟨hnumeral, fun c hc => (List.eq_of_mem_replicate hc) ▸ rfl⟩
  refine ⟨⟨d, _, rfl, hd⟩, ?_, Or.inl (by simp)⟩
  simp only [List.forall_mem_append, List.forall_mem_cons]
  refine ⟨fun c hc => hpadded c (List.mem_of_mem_take hc), rfl, fun c hc => ?_⟩
  split at hc
  · rw [List.mem_singleton.mp hc]
    rfl
  · exact hpadded c (List.mem_of_mem_drop hc)

/-- **The text of a double** is its sign and a fractional text. -/
theorem text_shape (style : ExponentStyle) (x : Double) :
    ∃ body, x.text style = (if x.negative then ['-'] else []) ++ body ∧ Fractional body := by
  obtain ⟨d, ds, hdigits⟩ :=
    List.exists_cons_of_ne_nil (Nat.toDigits_ne_nil (n := x.shortest.digits) (b := 10))
  have hnumeral : ∀ c ∈ d :: ds, isNumeral c = true :=
    hdigits ▸ isNumeral_of_mem_toDigits
  have hd : d.isDigit = true :=
    Nat.isDigit_of_mem_toDigits (by decide) (by decide) (hdigits ▸ List.mem_cons_self)
  unfold text
  dsimp only
  rw [hdigits]
  generalize x.shortest.exponent + ((d :: ds).length : Int) - 1 = exponent
  refine ⟨_, rfl, ?_⟩
  split
  · refine fractional_exponent hd hnumeral ?_ _
    split_ifs <;> simp [isNumeral]
  · split
    · exact fractional_small hnumeral _
    · exact fractional_cut hd hnumeral _ _

/-- Doubles with the same text have the same sign. -/
theorem negative_eq_of_text {style : ExponentStyle} {x y : Double}
    (h : x.text style = y.text style) : x.negative = y.negative := by
  obtain ⟨body, hx, hbody⟩ := text_shape style x
  obtain ⟨body', hy, hbody'⟩ := text_shape style y
  rw [hx, hy] at h
  have hminus : ∀ {cs}, Fractional cs → cs.head? ≠ some '-' := by
    intro cs hcs hhead
    obtain ⟨d, rest, rfl, hd⟩ := hcs.first
    rw [List.head?_cons, Option.some.injEq] at hhead
    rw [hhead] at hd
    exact absurd hd (by decide)
  have hhead := congrArg List.head? h
  cases hsign : x.negative <;> cases hsign' : y.negative <;> simp [hsign, hsign'] at hhead ⊢
  · exact hminus hbody hhead
  · exact hminus hbody' hhead.symm

end Double

namespace Number

variable {n m k : Number}

/-- Whether it is a whole number, not a double. -/
def isWhole : Number → Bool
  | .int _ => true
  | .double _ => false

/-- Numbers of one kind that are printed alike. -/
def Alike (n m : Number) : Prop :=
  n.isWhole = m.isWhole ∧ Json.numberChars n = Json.numberChars m

theorem Alike.refl (n : Number) : n.Alike n :=
  ⟨rfl, rfl⟩

theorem Alike.symm (h : n.Alike m) : m.Alike n :=
  ⟨h.1.symm, h.2.symm⟩

theorem Alike.trans (h : n.Alike m) (h' : m.Alike k) : n.Alike k :=
  ⟨h.1.trans h'.1, h.2.trans h'.2⟩

theorem intChars_injective {a b : Int} (h : Json.intChars a = Json.intChars b) : a = b := by
  have hdigits : ∀ {i j : Nat}, Nat.toDigits 10 i = Nat.toDigits 10 j → i = j := by
    intro i j hij
    rw [← Nat.ofDigitChars_ten_toDigits (n := i), hij, Nat.ofDigitChars_ten_toDigits]
  have hminus : ∀ {i j : Nat}, Nat.toDigits 10 i ≠ '-' :: Nat.toDigits 10 j := by
    intro i j hij
    have hmem : '-' ∈ Nat.toDigits 10 i := hij ▸ List.mem_cons_self
    exact absurd (Nat.isDigit_of_mem_toDigits (by decide) (by decide) hmem) (by decide)
  cases a with
  | ofNat i =>
      cases b with
      | ofNat j => rw [hdigits h]
      | negSucc j => exact absurd h hminus
  | negSucc i =>
      cases b with
      | ofNat j => exact absurd h.symm hminus
      | negSucc j => rw [Nat.succ.inj (hdigits (List.cons.inj h).2)]

/-- Whole numbers are printed alike if they are equal. -/
theorem alike_int_iff {a b : Int} : (int a).Alike (int b) ↔ a = b :=
  ⟨fun h => intChars_injective h.2, fun h => h ▸ .refl _⟩

/-- A whole number is like no double. -/
theorem not_alike_kinds (a : Int) (x : Double) : ¬ (int a).Alike (double x) :=
  fun h => Bool.noConfusion h.1

/-- Doubles that are alike have the same sign, and so have two zeros. -/
theorem Alike.negative_eq {x y : Double} (h : (double x).Alike (double y)) :
    x.negative = y.negative :=
  Double.negative_eq_of_text h.2

/-- The text of a number is not empty, has characters of numbers only, and a point or an
exponent exactly if the number is a double. -/
theorem numberChars_shape (n : Number) : Json.numberChars n ≠ [] ∧
    (∀ c ∈ Json.numberChars n, isNumeral c = true) ∧
    (('.' ∈ Json.numberChars n ∨ 'e' ∈ Json.numberChars n) ↔ n.isWhole = false) := by
  have hmark : ∀ {i : Nat} {c : Char}, c.isDigit = false → c ∉ Nat.toDigits 10 i := by
    intro i c hc hmem
    rw [Nat.isDigit_of_mem_toDigits (by decide) (by decide) hmem] at hc
    exact Bool.noConfusion hc
  cases n with
  | int a =>
      cases a with
      | ofNat i =>
          refine ⟨Nat.toDigits_ne_nil, isNumeral_of_mem_toDigits, ?_⟩
          simp [Json.numberChars, Json.intChars, hmark, isWhole]
      | negSucc i =>
          refine ⟨List.cons_ne_nil _ _,
            List.forall_mem_cons.mpr ⟨rfl, isNumeral_of_mem_toDigits⟩, ?_⟩
          simp [Json.numberChars, Json.intChars, hmark, isWhole]
  | double x =>
      obtain ⟨body, htext, hbody⟩ := x.text_shape Json.exponentStyle
      obtain ⟨d, rest, hfirst, -⟩ := hbody.first
      have hsign : ∀ c ∈ (if x.negative then ['-'] else []), isNumeral c = true := by
        split <;> simp [isNumeral]
      show x.text _ ≠ [] ∧ (∀ c ∈ x.text _, _) ∧ (('.' ∈ x.text _ ∨ 'e' ∈ x.text _) ↔ _)
      rw [htext]
      refine ⟨by simp [hfirst], List.forall_mem_append.mpr ⟨hsign, hbody.numeral⟩, ?_⟩
      simp only [isWhole, iff_true]
      exact hbody.marked.imp (List.mem_append_right _) (List.mem_append_right _)

end Number

namespace Json

variable {s t : List Char}

/-! ### Where a part ends -/

/-- What can stand behind a part of a container: nothing, a comma, or a new line. -/
def Ends (s : List Char) : Prop :=
  ∀ c ∈ s.head?, c = ',' ∨ c = '\n'

theorem Ends.nil : Ends [] := by
  simp [Ends]

theorem Ends.comma (s : List Char) : Ends (',' :: s) := by
  simp [Ends]

theorem Ends.newLine (level : Nat) (s : List Char) : Ends (newLine level ++ s) := by
  simp [Ends, Json.newLine]

theorem Ends.takeWhile_eq_nil (h : Ends s) : s.takeWhile isNumeral = [] := by
  cases s with
  | nil => rfl
  | cons c rest => rcases h c rfl with rfl | rfl <;> rfl

/-- **Numbers are read in one way only.** -/
theorem numberChars_read {n m : Number} (hs : Ends s) (ht : Ends t)
    (h : numberChars n ++ s = numberChars m ++ t) : n.Alike m ∧ s = t := by
  obtain ⟨-, hn, hnkind⟩ := n.numberChars_shape
  obtain ⟨-, hm, hmkind⟩ := m.numberChars_shape
  have htext : numberChars n = numberChars m := by
    have htake := congrArg (List.takeWhile isNumeral) h
    rwa [List.takeWhile_append_of_pos hn, List.takeWhile_append_of_pos hm, hs.takeWhile_eq_nil,
      ht.takeWhile_eq_nil, List.append_nil, List.append_nil] at htake
  refine ⟨⟨?_, htext⟩, List.append_cancel_left (htext ▸ h)⟩
  rw [htext] at hnkind
  have hkind : n.isWhole = false ↔ m.isWhole = false := hnkind.symm.trans hmkind
  cases hwhole : n.isWhole <;> cases hwhole' : m.isWhole <;> simp [hwhole, hwhole'] at hkind ⊢

/-! ### Strings -/

theorem codeUnit?_control {n : Nat} (h : n < 0x20) :
    codeUnit? '0' '0' (Nat.digitChar (n / 16)) (Nat.digitChar (n % 16)) = some n := by
  revert n
  decide

/-- A character that was escaped is read back. -/
theorem stringBody?_escapeChar (c : Char) (done rest : List Char) :
    stringBody? done (escapeChar c ++ rest) = stringBody? (c :: done) rest := by
  unfold escapeChar
  split_ifs with hquote hslash hback hfeed hline hreturn htab hcontrol
  · simp [stringBody?, shortEscape?, hquote]
  · simp [stringBody?, shortEscape?, hslash]
  · simp [stringBody?, shortEscape?, hback]
  · simp [stringBody?, shortEscape?, hfeed]
  · simp [stringBody?, shortEscape?, hline]
  · simp [stringBody?, shortEscape?, hreturn]
  · simp [stringBody?, shortEscape?, htab]
  · have hsurrogate : ¬ (0xDC00 ≤ c.toNat ∧ c.toNat ≤ 0xDFFF) := by omega
    have hsurrogate' : ¬ (0xD800 ≤ c.toNat ∧ c.toNat ≤ 0xDBFF) := by omega
    simp only [List.cons_append, List.nil_append, stringBody?, codeUnit?_control hcontrol,
      if_neg hsurrogate, if_neg hsurrogate', Char.ofNat_toNat]
  · simp [stringBody?, hslash, hcontrol]

/-- **What stands in quotes is read back**, whatever it looks like. -/
theorem stringBody?_escape (cs done rest : List Char) :
    stringBody? done (cs.flatMap escapeChar ++ '"' :: rest) = some (done.reverse ++ cs, rest) := by
  induction cs generalizing done with
  | nil => simp [stringBody?]
  | cons c cs ih =>
      rw [List.flatMap_cons, List.append_assoc, stringBody?_escapeChar, ih, List.reverse_cons,
        List.append_assoc, List.singleton_append]

theorem quoteChars_read {a b : String} (h : quoteChars a ++ s = quoteChars b ++ t) :
    a = b ∧ s = t := by
  have hbody := congrArg (fun cs => stringBody? [] cs.tail) h
  simp only [quoteChars, List.cons_append, List.append_assoc, List.nil_append, List.tail_cons,
    stringBody?_escape, List.reverse_nil, Option.some.injEq, Prod.mk.injEq] at hbody
  exact ⟨String.toList_inj.mp hbody.1, hbody.2⟩

/-! ### Containers -/

section

variable {α : Type} {R : α → α → Prop} {print : α → List Char} {level : Nat} {xs ys : List α}
  {opening closing : Char}

/-- The lines of the parts behind the first one. -/
def moreLines (print : α → List Char) (level : Nat) (rest : List α) : List Char :=
  rest.flatMap fun x => ',' :: (newLine level ++ print x)

/-- The text of a container whose brackets stand at a level, with a line for each part. -/
def container (opening closing : Char) (print : α → List Char) (level : Nat) :
    List α → List Char
  | [] => [opening, closing]
  | x :: rest => opening :: (newLine (level + 1) ++ print x ++
      moreLines print (level + 1) rest ++ newLine level ++ [closing])

/-- Parts whose texts are read in one way only, whatever stands behind them. -/
def ReadsAs (R : α → α → Prop) (print : α → List Char) (x : α) : Prop :=
  ∀ y s t, Ends s → Ends t → print x ++ s = print y ++ t → R x y ∧ s = t

theorem ends_moreLines (print : α → List Char) (level : Nat) (xs : List α) (hs : Ends s) :
    Ends (moreLines print level xs ++ s) := by
  cases xs with
  | nil => exact hs
  | cons x rest => exact Ends.comma _

/-- What follows the lines starts with a new line, so that they cannot go on. -/
theorem moreLines_read (hread : ∀ x ∈ xs, ReadsAs R print x) {bottom : Nat}
    (h : moreLines print level xs ++ (newLine bottom ++ s) =
      moreLines print level ys ++ (newLine bottom ++ t)) : List.Forall₂ R xs ys ∧ s = t := by
  induction xs generalizing ys with
  | nil =>
      cases ys with
      | nil => exact ⟨.nil, List.append_cancel_left h⟩
      | cons y rest => simp [moreLines, newLine] at h
  | cons x xs ih =>
      cases ys with
      | nil => simp [moreLines, newLine] at h
      | cons y ys =>
          rw [List.forall_mem_cons] at hread
          simp only [moreLines, List.flatMap_cons, List.cons_append, List.append_assoc,
            List.cons.injEq, true_and, List.append_cancel_left_eq] at h
          obtain ⟨hxy, hrest⟩ := hread.1 y _ _ (ends_moreLines print level xs (.newLine _ _))
            (ends_moreLines print level ys (.newLine _ _)) h
          obtain ⟨hall, heq⟩ := ih hread.2 hrest
          exact ⟨.cons hxy hall, heq⟩

/-- **Containers are read in one way only**, if their parts are. -/
theorem container_read (hread : ∀ x ∈ xs, ReadsAs R print x) (hclosing : closing ≠ '\n')
    (h : container opening closing print level xs ++ s =
      container opening closing print level ys ++ t) : List.Forall₂ R xs ys ∧ s = t := by
  cases xs with
  | nil =>
      cases ys with
      | nil => exact ⟨.nil, List.append_cancel_left h⟩
      | cons y ys => simp [container, newLine, hclosing] at h
  | cons x xs =>
      cases ys with
      | nil => simp [container, newLine, Ne.symm hclosing] at h
      | cons y ys =>
          rw [List.forall_mem_cons] at hread
          simp only [container, List.cons_append, List.append_assoc, List.cons.injEq, true_and,
            List.append_cancel_left_eq] at h
          obtain ⟨hxy, hrest⟩ := hread.1 y _ _ (ends_moreLines print _ xs (.newLine _ _))
            (ends_moreLines print _ ys (.newLine _ _)) h
          obtain ⟨hall, heq⟩ := moreLines_read hread.2 hrest
          exact ⟨.cons hxy hall, (List.cons.inj heq).2⟩

theorem moreLines_congr (h : List.Forall₂ (fun x y => print x = print y) xs ys) :
    moreLines print level xs = moreLines print level ys := by
  induction h with
  | nil => rfl
  | cons hxy _ ih =>
      unfold moreLines at ih ⊢
      rw [List.flatMap_cons, List.flatMap_cons, hxy, ih]

/-- Containers whose parts are printed alike are printed alike. -/
theorem container_congr (h : List.Forall₂ (fun x y => print x = print y) xs ys) :
    container opening closing print level xs = container opening closing print level ys := by
  cases h with
  | nil => rfl
  | cons hxy hrest => rw [container, container, hxy, moreLines_congr hrest]

end

/-! ### Values -/

/-- A member on its line. -/
def memberChars (level : Nat) (entry : String × Json) : List Char :=
  quoteChars entry.1 ++ ':' :: ' ' :: prettyChars level entry.2

theorem prettyItems_cons (level : Nat) (item : Json) (rest : List Json) :
    prettyItems level (item :: rest) =
      newLine level ++ prettyChars level item ++ moreLines (prettyChars level) level rest := by
  induction rest generalizing item with
  | nil => simp [prettyItems, moreLines]
  | cons next rest ih =>
      rw [prettyItems, ih]
      · simp [moreLines]
      · simp

theorem prettyMembers_cons (level : Nat) (entry : String × Json) (rest : List (String × Json)) :
    prettyMembers level (entry :: rest) =
      newLine level ++ memberChars level entry ++ moreLines (memberChars level) level rest := by
  induction rest generalizing entry with
  | nil => simp [prettyMembers, moreLines, memberChars]
  | cons next rest ih =>
      rw [prettyMembers, ih]
      · simp [moreLines, memberChars]
      · simp

theorem prettyChars_array (level : Nat) (items : List Json) :
    prettyChars level (.array items) =
      container '[' ']' (prettyChars (level + 1)) level items := by
  cases items with
  | nil => rw [prettyChars, container]
  | cons item rest =>
      rw [prettyChars, prettyItems_cons, container]
      · simp
      · simp

theorem prettyChars_object (level : Nat) (members : List (String × Json)) :
    prettyChars level (.object members) =
      container '\x7b' '\x7d' (memberChars (level + 1)) level members := by
  cases members with
  | nil => rw [prettyChars, container]
  | cons entry rest =>
      rw [prettyChars, prettyMembers_cons, container]
      · simp
      · simp

/-- What kind of value a text is of that starts with a character. -/
def kindOf (c : Char) : Char :=
  if isNumeral c then '0' else if c = 't' ∨ c = 'f' then 'b' else c

/-- A character for each kind of value. -/
def kind : Json → Char
  | .null => 'n'
  | .bool _ => 'b'
  | .number _ => '0'
  | .string _ => '"'
  | .array _ => '['
  | .object _ => '\x7b'

/-- **The first character tells the kind of a value.** -/
theorem kind_prettyChars (level : Nat) (v : Json) (s : List Char) :
    (prettyChars level v ++ s).head?.map kindOf = some v.kind := by
  cases v with
  | null => rfl
  | bool b => cases b <;> rfl
  | number n =>
      obtain ⟨hne, hnumeral, -⟩ := n.numberChars_shape
      obtain ⟨c, rest, htext⟩ := List.exists_cons_of_ne_nil hne
      have hc : isNumeral c = true := hnumeral c (htext ▸ List.mem_cons_self)
      show (numberChars n ++ s).head?.map kindOf = some '0'
      rw [htext, List.cons_append, List.head?_cons, Option.map_some, kindOf, if_pos hc]
  | string a => rfl
  | array items =>
      rw [prettyChars_array]
      cases items <;> rfl
  | object members =>
      rw [prettyChars_object]
      cases members <;> rfl

theorem kind_eq_of_prettyChars {v w : Json} {level : Nat}
    (h : prettyChars level v ++ s = prettyChars level w ++ t) : v.kind = w.kind := by
  have hfirst := congrArg (fun cs => cs.head?.map kindOf) h
  simp only [kind_prettyChars, Option.some.injEq] at hfirst
  exact hfirst

end Json

end SchemaBundle
