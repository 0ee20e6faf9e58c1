import RecordTables.Proofs.Number.Digits
import RecordTables.Proofs.Record.SampleKeys
import RecordTables.Proofs.Sql.Boundaries

/-!
# Reading the names of types

A full name can be read in one way only, as long as no path holds one of the marks between names: `TypeName.unambiguous`
says so of a name at the start of a longer text, and `TypeName.text_inj` of whole names.
-/

namespace RecordTables

/-- The ways in which types are built from others. -/
inductive Former where
  | option
  | box
  | list
  | map
  | tuple
  | array
  deriving DecidableEq

namespace TypeName

/-! ## Names that can be read -/

/-- The marks between the names of which a full name is made. -/
def isMark (c : Char) : Bool := ['<', '>', '(', ')', '[', ']', ',', ';', ' '].contains c

/-- Whether no mark stands in a path. -/
def unmarked (path : String) : Bool := path.toList.all fun c => !isMark c

theorem unmarked_iff {path : String} : unmarked path = true ↔ ∀ c ∈ path.toList, isMark c = false := by
  simp only [unmarked, List.all_eq_true, Bool.not_eq_true']

mutual

/-- Names as types have them: no path holds a mark, and an option has one content. -/
def regular : TypeName → Bool
  | .named path arguments =>
      unmarked path && (path != optionPath || arguments.length == 1) && regularAll arguments
  | .tuple items => regularAll items
  | .array item _ => item.regular

def regularAll : List TypeName → Bool
  | [] => true
  | name :: rest => name.regular && regularAll rest

end

/-- What stands behind the path of a name. -/
def argumentsText : List TypeName → List Char
  | [] => []
  | first :: rest => '<' :: (first.text.toList ++ (textRest rest).toList ++ ['>'])

/-- What stands in a tuple behind its first item: a single item has a comma of its own. -/
def itemsTail (names : List TypeName) : List Char := if names.isEmpty then [','] else (textRest names).toList

/-- What stands between the brackets of a tuple. -/
def itemsText : List TypeName → List Char
  | [] => []
  | first :: rest => first.text.toList ++ itemsTail rest

theorem toList_text_named (path : String) (arguments : List TypeName) :
    (TypeName.named path arguments).text.toList = path.toList ++ argumentsText arguments := by
  cases arguments <;> simp [text, argumentsText]

theorem toList_text_tuple (items : List TypeName) :
    (TypeName.tuple items).text.toList = '(' :: (itemsText items ++ [')']) := by
  rcases items with _ | ⟨first, _ | ⟨second, rest⟩⟩ <;> simp [text, itemsText, itemsTail]

theorem toList_text_array (item : TypeName) (length : Nat) : (TypeName.array item length).text.toList =
    '[' :: (item.text.toList ++ ';' :: ' ' :: (Nat.toDigits 10 length ++ [']'])) := by
  simp [text]

theorem toList_textRest_cons (name : TypeName) (rest : List TypeName) :
    (textRest (name :: rest)).toList = ',' :: ' ' :: (name.text.toList ++ (textRest rest).toList) := by
  simp [textRest]

/-! ## Reading a name -/

/-- The marks that may stand behind a name. -/
def isStop (c : Char) : Bool := ['>', ')', ',', ';'].contains c

/-- A text in front of which a name can end. -/
def Stopped (rest : List Char) : Prop := ∀ c, rest.head? = some c → isStop c = true

theorem stopped_cons {c : Char} {rest : List Char} (h : isStop c = true) : Stopped (c :: rest) := by
  intro d hd
  cases hd
  exact h

theorem isMark_of_isStop {c : Char} (h : isStop c = true) : isMark c = true := by
  have hsub : ['>', ')', ',', ';'] ⊆ ['<', '>', '(', ')', '[', ']', ',', ';', ' '] := by simp
  exact List.contains_iff_mem.2 (hsub (List.contains_iff_mem.1 h))

theorem regularAll_iff {names : List TypeName} : regularAll names = true ↔ ∀ name ∈ names, name.regular = true := by
  induction names with
  | nil => simp [regularAll]
  | cons name names ih => rw [regularAll, Bool.and_eq_true, ih, List.forall_mem_cons]

theorem regular_named_iff {path : String} {arguments : List TypeName} : (TypeName.named path arguments).regular = true ↔
    (∀ c ∈ path.toList, isMark c = false) ∧ (path = optionPath → arguments.length = 1) ∧
      ∀ name ∈ arguments, name.regular = true := by
  rw [regular, Bool.and_eq_true, Bool.and_eq_true, regularAll_iff, unmarked_iff, and_assoc]
  simp only [Bool.or_eq_true, bne_iff_ne, beq_iff_eq, Decidable.imp_iff_not_or]

theorem regular_wrapper {path : String} {content : TypeName} (hpath : unmarked path = true)
    (h : content.regular = true) : (TypeName.named path [content]).regular = true := by
  rw [regular_named_iff, List.forall_mem_singleton]
  exact ⟨unmarked_iff.1 hpath, fun _ => rfl, h⟩

/-- A name starts with a bracket, with a character that is no mark, or, if it is empty, with what stands behind it; so
never with a mark that ends a name. -/
theorem head?_text_ne {name : TypeName} (h : name.regular = true) {c : Char} (hc : isStop c = true) {rest : List Char}
    (hrest : rest.head? ≠ some c) : (name.text.toList ++ rest).head? ≠ some c := by
  have hopen : ∀ d, isStop d = true → '<' ≠ d ∧ '(' ≠ d ∧ '[' ≠ d := by
    intro d hd
    refine ⟨?_, ?_, ?_⟩ <;> rintro rfl <;> exact absurd hd (by decide)
  cases name with
  | named path arguments =>
      rw [toList_text_named]
      cases hletters : path.toList with
      | cons d letters =>
          have hd := (regular_named_iff.1 h).1 d (hletters ▸ List.mem_cons_self ..)
          rw [List.cons_append, List.cons_append, List.head?_cons, ne_eq, Option.some_inj]
          rintro rfl
          rw [isMark_of_isStop hc] at hd
          cases hd
      | nil =>
          cases arguments with
          | nil => simpa [argumentsText] using hrest
          | cons first others => simpa [argumentsText] using (hopen c hc).1
  | tuple items =>
      rw [toList_text_tuple, List.cons_append, List.head?_cons, ne_eq, Option.some_inj]
      exact (hopen c hc).2.1
  | array item length =>
      rw [toList_text_array, List.cons_append, List.head?_cons, ne_eq, Option.some_inj]
      exact (hopen c hc).2.2

/-- A name that can be read in one way only from a text that it starts. -/
def Unambiguous (name : TypeName) : Prop :=
  ∀ {other : TypeName} {rest rest' : List Char}, other.regular = true → Stopped rest → Stopped rest' →
    name.text.toList ++ rest = other.text.toList ++ rest' → name = other ∧ rest = rest'

variable {names others : List TypeName} {rest rest' : List Char}

section Lists

variable (hnames : ∀ name ∈ names, Unambiguous name) (hothers : ∀ name ∈ others, name.regular = true)

include hnames hothers

/-- Names behind the first one, up to a mark that closes the list. -/
theorem textRest_append_inj {close : Char} (hclose : isStop close = true) (hcomma : close ≠ ',')
    (h : (textRest names).toList ++ close :: rest = (textRest others).toList ++ close :: rest') :
    names = others ∧ rest = rest' := by
  -- Behind each name there is a comma or the mark that closes the list.
  have hstop : ∀ (names : List TypeName) (rest : List Char), Stopped ((textRest names).toList ++ close :: rest) := by
    intro names rest
    cases names with
    | nil => exact stopped_cons hclose
    | cons name names =>
        rw [toList_textRest_cons]
        exact stopped_cons rfl
  induction names generalizing others with
  | nil =>
      cases others with
      | nil => exact ⟨rfl, (List.cons.inj h).2⟩
      | cons other others =>
          rw [toList_textRest_cons] at h
          exact absurd (List.cons.inj h).1 hcomma
  | cons name names ih =>
      cases others with
      | nil =>
          rw [toList_textRest_cons] at h
          exact absurd (List.cons.inj h).1.symm hcomma
      | cons other others =>
          simp only [toList_textRest_cons, List.cons_append, List.append_assoc, List.cons.injEq, true_and] at h
          obtain ⟨hfirst, htail⟩ := hnames name (List.mem_cons_self ..) (hothers other (List.mem_cons_self ..))
            (hstop names rest) (hstop others rest') h
          obtain ⟨hnext, hrest⟩ := ih (List.forall_mem_cons.1 hnames).2
            (List.forall_mem_cons.1 hothers).2 htail
          exact ⟨by rw [hfirst, hnext], hrest⟩

theorem argumentsText_append_inj (hrest : Stopped rest) (hrest' : Stopped rest')
    (h : argumentsText names ++ rest = argumentsText others ++ rest') : names = others ∧ rest = rest' := by
  have hopen : ∀ {tail : List Char}, ¬ Stopped ('<' :: tail) := fun hstop => absurd (hstop '<' rfl) (by decide)
  cases names with
  | nil =>
      cases others with
      | nil => exact ⟨rfl, h⟩
      | cons other others =>
          rw [show rest = '<' :: _ from h] at hrest
          exact absurd hrest hopen
  | cons name names =>
      cases others with
      | nil =>
          rw [show rest' = '<' :: _ from h.symm] at hrest'
          exact absurd hrest' hopen
      | cons other others =>
          simp only [argumentsText, List.cons_append, List.append_assoc, List.nil_append, List.cons.injEq, true_and] at h
          refine textRest_append_inj hnames hothers (show isStop '>' = true from rfl) (by decide) ?_
          simp only [toList_textRest_cons, List.cons_append, List.append_assoc, h]

theorem itemsTail_append_inj (h : itemsTail names ++ ')' :: rest = itemsTail others ++ ')' :: rest') :
    names = others ∧ rest = rest' := by
  -- Behind a single item there is a comma and the bracket, behind the first of several ones a comma and a blank.
  cases names with
  | nil =>
      cases others with
      | nil => exact ⟨rfl, (List.cons.inj (List.cons.inj h).2).2⟩
      | cons other others => simp [itemsTail, toList_textRest_cons] at h
  | cons name names =>
      cases others with
      | nil => simp [itemsTail, toList_textRest_cons] at h
      | cons other others => exact textRest_append_inj hnames hothers rfl (by decide) h

theorem itemsText_append_inj (hregular : ∀ name ∈ names, name.regular = true)
    (h : itemsText names ++ ')' :: rest = itemsText others ++ ')' :: rest') : names = others ∧ rest = rest' := by
  have hcomma : ∀ (more : List TypeName) (tail : List Char), (itemsTail more ++ tail).head? = some ',' := by
    intro more tail
    cases more <;> simp [itemsTail, toList_textRest_cons]
  have hstop : ∀ (more : List TypeName) (tail : List Char), Stopped (itemsTail more ++ tail) := by
    intro more tail c hc
    cases (hcomma more tail).symm.trans hc
    rfl
  have hclosed : ∀ {first : TypeName} {more : List TypeName} {tail tail' : List Char}, first.regular = true →
      itemsText (first :: more) ++ tail ≠ ')' :: tail' := by
    intro first more tail tail' hfirst heq
    rw [itemsText, List.append_assoc] at heq
    refine head?_text_ne hfirst (show isStop ')' = true from rfl) ?_ (congrArg List.head? heq)
    rw [hcomma]
    decide
  cases names with
  | nil =>
      cases others with
      | nil => exact ⟨rfl, (List.cons.inj h).2⟩
      | cons other others => exact absurd h.symm (hclosed (hothers other (List.mem_cons_self ..)))
  | cons name names =>
      cases others with
      | nil => exact absurd h (hclosed (hregular name (List.mem_cons_self ..)))
      | cons other others =>
          rw [itemsText, itemsText, List.append_assoc, List.append_assoc] at h
          obtain ⟨hfirst, htail⟩ := hnames name (List.mem_cons_self ..) (hothers other (List.mem_cons_self ..))
            (hstop names _) (hstop others _) h
          obtain ⟨hmore, hrest⟩ := itemsTail_append_inj (List.forall_mem_cons.1 hnames).2
            (List.forall_mem_cons.1 hothers).2 htail
          exact ⟨by rw [hfirst, hmore], hrest⟩

end Lists

/-! ## All names can be read in one way only -/

/-- Behind a path there is the bracket of its arguments or a mark that ends the name. -/
theorem head?_argumentsText (hrest : Stopped rest) {c : Char} (h : (argumentsText names ++ rest).head? = some c) :
    c = '<' ∨ isStop c = true := by
  cases names with
  | nil => exact .inr (hrest c h)
  | cons name names =>
      cases h
      exact .inl rfl

theorem isMark_argumentsText (hrest : Stopped rest) :
    ∀ c, (argumentsText names ++ rest).head? = some c → isMark c = true := by
  intro c h
  rcases head?_argumentsText hrest h with rfl | hstop
  · rfl
  · exact isMark_of_isStop hstop

/-- A name with a path does not start with a mark that stands neither behind a path nor behind a name. -/
theorem text_named_ne {path : String} (hpath : ∀ c ∈ path.toList, isMark c = false) (hrest : Stopped rest) {c : Char}
    (hmark : isMark c = true) (hopen : c ≠ '<') (hstop : isStop c = false) {tail : List Char} :
    (TypeName.named path names).text.toList ++ rest ≠ c :: tail := by
  intro h
  rw [toList_text_named, List.append_assoc] at h
  have hempty : ∀ d ∈ ([] : List Char), isMark d = false := fun _ hd => absurd hd List.not_mem_nil
  have hfront : ∀ d, (c :: tail).head? = some d → isMark d = true := by
    intro d hd
    cases hd
    exact hmark
  obtain ⟨-, hback⟩ := Sql.append_inj_of_stop hpath hempty (isMark_argumentsText hrest) hfront h
  rcases head?_argumentsText hrest (congrArg List.head? hback) with hbracket | hend
  · exact hopen hbracket
  · rw [hstop] at hend
    cases hend

theorem unambiguous_named {path : String} (hpath : ∀ c ∈ path.toList, isMark c = false)
    (hnames : ∀ name ∈ names, Unambiguous name) : Unambiguous (.named path names) := by
  intro other rest rest' hother hrest hrest' h
  cases other with
  | named path' others =>
      obtain ⟨hpath', -, hothers⟩ := regular_named_iff.1 hother
      rw [toList_text_named, toList_text_named, List.append_assoc, List.append_assoc] at h
      obtain ⟨hletters, hback⟩ := Sql.append_inj_of_stop hpath hpath' (isMark_argumentsText hrest)
        (isMark_argumentsText hrest') h
      obtain ⟨hsame, htail⟩ := argumentsText_append_inj hnames hothers hrest hrest' hback
      exact ⟨by rw [String.toList_inj.1 hletters, hsame], htail⟩
  | tuple items =>
      rw [toList_text_tuple] at h
      exact absurd h (text_named_ne hpath hrest rfl (by decide) rfl)
  | array item length =>
      rw [toList_text_array] at h
      exact absurd h (text_named_ne hpath hrest rfl (by decide) rfl)

theorem unambiguous_tuple (hnames : ∀ name ∈ names, Unambiguous name)
    (hregular : ∀ name ∈ names, name.regular = true) : Unambiguous (.tuple names) := by
  intro other rest rest' hother hrest hrest' h
  rw [toList_text_tuple] at h
  cases other with
  | named path others =>
      exact absurd h.symm (text_named_ne (regular_named_iff.1 hother).1 hrest' rfl (by decide) rfl)
  | tuple others =>
      rw [regular, regularAll_iff] at hother
      simp only [toList_text_tuple, List.cons_append, List.append_assoc, List.nil_append, List.cons.injEq, true_and] at h
      obtain ⟨hsame, htail⟩ := itemsText_append_inj hnames hother hregular h
      exact ⟨by rw [hsame], htail⟩
  | array item length =>
      rw [toList_text_array] at h
      exact absurd (List.cons.inj h).1 (by decide)

theorem unambiguous_array {item : TypeName} (length : Nat) (hitem : Unambiguous item) :
    Unambiguous (.array item length) := by
  intro other rest rest' hother hrest hrest' h
  rw [toList_text_array] at h
  cases other with
  | named path others =>
      exact absurd h.symm (text_named_ne (regular_named_iff.1 hother).1 hrest' rfl (by decide) rfl)
  | tuple others =>
      rw [toList_text_tuple] at h
      exact absurd (List.cons.inj h).1 (by decide)
  | array item' length' =>
      simp only [toList_text_array, List.cons_append, List.append_assoc, List.nil_append, List.cons.injEq, true_and] at h
      rw [regular] at hother
      obtain ⟨hsame, htail⟩ := hitem hother (stopped_cons rfl) (stopped_cons rfl) h
      simp only [List.cons.injEq, true_and] at htail
      have hdigit : ∀ (n : Nat), ∀ c ∈ Nat.toDigits 10 n, (!c.isDigit) = false := by
        intro n c hc
        rw [all_isDigit_toDigits n c hc, Bool.not_true]
      have hbracket : ∀ (tail : List Char) (c : Char), (']' :: tail).head? = some c → (!c.isDigit) = true := by
        intro tail c hc
        cases hc
        rfl
      obtain ⟨hdigits, hback⟩ := Sql.append_inj_of_stop (hdigit _) (hdigit _) (hbracket _) (hbracket _) htail
      have hlength := congrArg (digitsValue 0) hdigits
      rw [digitsValue_toDigits, digitsValue_toDigits] at hlength
      exact ⟨by rw [hsame, hlength], (List.cons.inj hback).2⟩

mutual

/-- A regular name can be read in one way only. -/
theorem unambiguous : ∀ name : TypeName, name.regular = true → Unambiguous name
  | .named path arguments, h => by
      obtain ⟨hpath, -, harguments⟩ := regular_named_iff.1 h
      exact unambiguous_named hpath (unambiguousAll arguments harguments)
  | .tuple items, h => by
      rw [regular, regularAll_iff] at h
      exact unambiguous_tuple (unambiguousAll items h) h
  | .array item length, h => unambiguous_array length (unambiguous item h)

theorem unambiguousAll : ∀ names : List TypeName, (∀ name ∈ names, name.regular = true) →
    ∀ name ∈ names, Unambiguous name
  | [], _ => fun _ h => absurd h List.not_mem_nil
  | name :: names, h => by
      obtain ⟨hname, hnames⟩ := List.forall_mem_cons.1 h
      exact List.forall_mem_cons.2 ⟨unambiguous name hname, unambiguousAll names hnames⟩

end

theorem text_inj {name other : TypeName} (h : name.regular = true) (hother : other.regular = true) :
    name.text = other.text ↔ name = other := by
  refine ⟨fun heq => ?_, fun heq => by rw [heq]⟩
  have hend : Stopped [] := fun _ hc => by cases hc
  exact (unambiguous name h hother hend hend (by rw [heq])).1

/-! ## Options among the names -/

/-- How the type of a name is built; not at all, if it is a type of its own. -/
def former? : TypeName → Option Former
  | .named path [_] =>
      if path = optionPath then some .option
      else if path = "alloc::boxed::Box" then some .box
      else if path = "alloc::vec::Vec" then some .list
      else none
  | .named path [_, _] => if path = "alloc::collections::btree::map::BTreeMap" then some .map else none
  | .named _ _ => none
  | .tuple [] => none
  | .tuple (_ :: _) => some .tuple
  | .array _ _ => some .array

/-- Only the name of an option is written like one. -/
theorem former?_of_between {name : TypeName} (h : name.regular = true) {inner : List Char}
    (hinner : between? optionStart '>' name.text.toList = some inner) : name.former? = some .option := by
  have htext := between_eq_some.1 hinner
  rw [optionStart, List.append_assoc, List.append_assoc, List.singleton_append] at htext
  cases name with
  | named path arguments =>
      obtain ⟨hpath, hoption, -⟩ := regular_named_iff.1 h
      have hunmarked : ∀ c ∈ optionPath.toList, isMark c = false := unmarked_iff.1 rfl
      have hbracket : ∀ c, ('<' :: (inner ++ ['>'])).head? = some c → isMark c = true := by
        intro c hc
        cases hc
        rfl
      have hend : Stopped [] := fun _ hc => by cases hc
      rw [toList_text_named, ← List.append_nil (argumentsText arguments)] at htext
      obtain ⟨hletters, -⟩ := Sql.append_inj_of_stop hpath hunmarked (isMark_argumentsText hend) hbracket htext
      have hsame := String.toList_inj.1 hletters
      obtain ⟨content, rfl⟩ := List.length_eq_one_iff.1 (hoption hsame)
      rw [former?, if_pos hsame]
  | tuple items =>
      rw [toList_text_tuple] at htext
      exact absurd (List.cons.inj htext).1 (by decide)
  | array item length =>
      rw [toList_text_array] at htext
      exact absurd (List.cons.inj htext).1 (by decide)

end TypeName

end RecordTables
