import MediaFramework.Hls.PlaylistLines

/-!
# Attribute lists

The attributes of a tag as they are written behind its colon. They are split where they have been put
together, whatever stands between the quotation marks and however many blanks around the commas.
-/

namespace MediaFramework.Hls

open Text

inductive AttributeValue
  | quotedString (text : AString)
  | token (text : AString)
  deriving DecidableEq

structure Attribute where
  name : AString
  value : AttributeValue
  deriving DecidableEq

/-- An attribute of some kind with the blanks around it. -/
structure Padded (α : Type) where
  before : AString
  attr : α
  after : AString
  deriving DecidableEq

def AttributeValue.text : AttributeValue → AString
  | quotedString text => '"' :: text ++ ['"']
  | token text => text

def Attribute.text (a : Attribute) : AString := a.name ++ '=' :: a.value.text

/-- What stands between quotation marks. -/
def InQuotes (c : Char) : Prop := c ≠ '"' ∧ c ≠ '\n' ∧ c ≠ '\r' ∧ c ≠ '\x00'

def InToken (c : Char) : Prop := isspace c = false ∧ c ≠ '"' ∧ c ≠ ',' ∧ c ≠ '\x00'

/-- A blank in a line. -/
def IsBlank (c : Char) : Prop := isspace c = true ∧ c ≠ '\n' ∧ c ≠ '\r'

def AttributeValue.Clean : AttributeValue → Prop
  | quotedString text => ∀ c ∈ text, InQuotes c
  | token text => ∀ c ∈ text, InToken c

structure Attribute.Clean (a : Attribute) : Prop where
  name : ∀ c ∈ a.name, InToken c ∧ c ≠ '='
  value : a.value.Clean

structure Padded.Clean {α : Type} (f : α → Attribute) (a : Padded α) : Prop where
  before : ∀ c ∈ a.before, IsBlank c
  attr : (f a.attr).Clean
  after : ∀ c ∈ a.after, IsBlank c

instance : DecidablePred InQuotes := fun c =>
  inferInstanceAs (Decidable (c ≠ '"' ∧ c ≠ '\n' ∧ c ≠ '\r' ∧ c ≠ '\x00'))

instance : DecidablePred InToken := fun c =>
  inferInstanceAs (Decidable (isspace c = false ∧ c ≠ '"' ∧ c ≠ ',' ∧ c ≠ '\x00'))

instance : DecidablePred IsBlank := fun c =>
  inferInstanceAs (Decidable (isspace c = true ∧ c ≠ '\n' ∧ c ≠ '\r'))

instance : DecidablePred AttributeValue.Clean
  | .quotedString text => List.decidableBAll InQuotes text
  | .token text => List.decidableBAll InToken text

instance : DecidablePred Attribute.Clean := fun a =>
  have := List.decidableBAll (fun c => InToken c ∧ c ≠ '=') a.name
  decidable_of_iff ((∀ c ∈ a.name, InToken c ∧ c ≠ '=') ∧ a.value.Clean)
    ⟨fun h => ⟨h.1, h.2⟩, fun h => ⟨h.name, h.value⟩⟩

instance {α : Type} (f : α → Attribute) : DecidablePred (Padded.Clean f) := fun a =>
  have := List.decidableBAll IsBlank a.before
  have := List.decidableBAll IsBlank a.after
  decidable_of_iff ((∀ c ∈ a.before, IsBlank c) ∧ (f a.attr).Clean ∧ ∀ c ∈ a.after, IsBlank c)
    ⟨fun h => ⟨h.1, h.2.1, h.2.2⟩, fun h => ⟨h.before, h.attr, h.after⟩⟩

def Padded.text {α : Type} (f : α → Attribute) (a : Padded α) : AString :=
  a.before ++ (f a.attr).text ++ a.after

/-- The list behind the colon. -/
def attributeList {α : Type} (f : α → Attribute) (as : List (Padded α)) : AString :=
  List.intercalate [','] (as.map (Padded.text f))

/-! ## Quotation marks -/

theorem isQuotedString_text (text : AString) : isQuotedString ('"' :: text ++ ['"']) = true := by
  have hlast : ('"' :: text ++ ['"']).getLast? = some '"' := List.getLast?_concat
  exact decide_eq_true ⟨by simp, rfl, hlast⟩

theorem unquoteString_text (text : AString) : unquoteString ('"' :: text ++ ['"']) = text := by
  rw [unquoteString, if_pos (isQuotedString_text text), List.cons_append, List.tail_cons,
    List.dropLast_concat]

theorem quoted_text (text : AString) : quoted ('"' :: text ++ ['"']) = some text := by
  rw [quoted, if_pos (isQuotedString_text text), unquoteString_text]

/-! ## Commas -/

/-- Neither a quotation mark nor a comma that counts. -/
theorem through_plain {q : Bool} {s : AString} (h : ∀ c ∈ s, c ≠ '"' ∧ (q = false → c ≠ ',')) :
    through unquotedComma q s = some q := by
  induction s with
  | nil => rfl
  | cons c cs ih =>
    obtain ⟨⟨hquote, hcomma⟩, hcs⟩ := List.forall_mem_cons.mp h
    have hstep : unquotedComma q c = some q := by
      rw [unquotedComma, if_neg hquote, if_neg fun hc => hcomma hc.2 hc.1]
    rw [through, List.foldlM_cons, hstep]
    exact ih hcs

theorem through_append {q q' : Bool} {s t : AString} (h : through unquotedComma q s = some q') :
    through unquotedComma q (s ++ t) = through unquotedComma q' t := by
  rw [through, List.foldlM_append]
  rw [through] at h
  rw [h]
  rfl

theorem AttributeValue.through_text {v : AttributeValue} (h : v.Clean) :
    through unquotedComma false v.text = some false := by
  cases v with
  | quotedString text =>
    have htext : through unquotedComma true text = some true :=
      through_plain fun c hc => ⟨(h c hc).1, fun hq => by cases hq⟩
    rw [AttributeValue.text, through, List.cons_append, List.foldlM_cons]
    exact through_append htext
  | token text => exact through_plain fun c hc => ⟨(h c hc).2.1, fun _ => (h c hc).2.2.1⟩

theorem IsBlank.plain {c : Char} (h : IsBlank c) : c ≠ '"' ∧ c ≠ ',' ∧ c ≠ '=' ∧ c ≠ '\x00' := by
  obtain ⟨hspace, -, -⟩ := h
  refine ⟨?_, ?_, ?_, ?_⟩
  all_goals
    rintro rfl
    exact absurd hspace (by decide)

variable {α : Type} {f : α → Attribute} {a : Padded α} {as : List (Padded α)}

/-- No comma in an attribute ends it. -/
theorem Padded.Clean.through_text (h : a.Clean f) :
    through unquotedComma false (a.text f) = some false := by
  have hbefore : through unquotedComma false a.before = some false :=
    through_plain fun c hc => ⟨(h.before c hc).plain.1, fun _ => (h.before c hc).plain.2.1⟩
  have hafter : through unquotedComma false a.after = some false :=
    through_plain fun c hc => ⟨(h.after c hc).plain.1, fun _ => (h.after c hc).plain.2.1⟩
  have hname : through unquotedComma false (f a.attr).name = some false :=
    through_plain fun c hc => ⟨(h.attr.name c hc).1.2.1, fun _ => (h.attr.name c hc).1.2.2.1⟩
  rw [Padded.text, Attribute.text, List.append_assoc, through_append hbefore, List.append_assoc,
    through_append hname, List.cons_append, through, List.foldlM_cons]
  exact (through_append (AttributeValue.through_text h.attr.value)).trans hafter

/-! ## Equals signs -/

theorem AttributeValue.ends {v : AttributeValue} (h : v.Clean) :
    (∀ c ∈ v.text.head?, isspace c = false) ∧ ∀ c ∈ v.text.getLast?, isspace c = false := by
  cases v with
  | quotedString text =>
    refine ⟨?_, ?_⟩
    · rintro c hc
      obtain rfl := Option.some.inj hc
      rfl
    · rintro c hc
      rw [AttributeValue.text, List.getLast?_concat] at hc
      obtain rfl := Option.some.inj hc
      rfl
  | token text =>
    exact ⟨fun c hc => (h c (List.mem_of_mem_head? hc)).1,
      fun c hc => (h c (List.mem_of_mem_getLast? hc)).1⟩

/-- The key and the value that have been written. -/
theorem Padded.Clean.keyAndValue_text (h : a.Clean f) :
    keyAndValue (a.text f) = some ((f a.attr).name, (f a.attr).value.text) := by
  obtain ⟨hfirst, hlast⟩ := AttributeValue.ends h.attr.value
  have hname : ∀ c ∈ (f a.attr).name, isspace c = false := fun c hc => (h.attr.name c hc).1.1
  have htrim : trim (a.text f) = (f a.attr).text := by
    refine trim_pad (fun c hc => (h.before c hc).1) (fun c hc => (h.after c hc).1) ?_ ?_
    · rintro c hc
      rw [Attribute.text] at hc
      cases hn : (f a.attr).name with
      | nil =>
        rw [hn] at hc
        obtain rfl := Option.some.inj hc
        rfl
      | cons d ds =>
        rw [hn] at hc
        obtain rfl := Option.some.inj hc
        exact hname d (hn ▸ List.mem_cons_self)
    · rintro c hc
      rw [Attribute.text] at hc
      cases hv : (f a.attr).value.text with
      | nil =>
        rw [hv, List.getLast?_concat] at hc
        obtain rfl := Option.some.inj hc
        rfl
      | cons d ds =>
        rw [hv, List.getLast?_append, List.getLast?_cons_cons, ← hv] at hc
        have hsome : ((f a.attr).value.text).getLast?.isSome := by
          rw [hv]
          simp
        rw [Option.or_of_isSome hsome] at hc
        exact hlast c hc
  have hequal : find (f a.attr).text '=' 0 = some (f a.attr).name.length := by
    refine find_append ?_ ?_ (by decide)
    · exact fun hc => (h.attr.name _ hc).1.2.2.2 rfl
    · exact fun hc => (h.attr.name _ hc).2 rfl
  have hvalue : trim (f a.attr).value.text = (f a.attr).value.text := by
    have hpad := @trim_pad [] (f a.attr).value.text [] (fun _ h => by cases h)
      (fun _ h => by cases h) hfirst hlast
    rwa [List.nil_append, List.append_nil] at hpad
  rw [keyAndValue, htrim, hequal, Option.map_some, Attribute.text, List.take_left, drop_length_succ,
    trim_eq hname, hvalue]

/-! ## The list -/

theorem attributes_list {tag : Tag} (htag : ':' ∉ tag.text) (h : ∀ a ∈ as, a.Clean f) :
    attributes (tag.text ++ ':' :: attributeList f as) =
      some (as.map fun a => ((f a.attr).name, (f a.attr).value.text)) := by
  have hpieces : pieces unquotedComma false false (attributeList f as) = as.map (Padded.text f) := by
    refine pieces_intercalate ?_
    rw [List.forall_mem_map]
    rintro a ha
    refine ⟨?_, false, (h a ha).through_text, rfl⟩
    rw [Padded.text, Attribute.text]
    simp
  rw [attributes, afterColon_text _ htag, Option.map_some, hpieces, List.filterMap_map]
  congr 1
  rw [← List.filterMap_eq_map]
  exact List.filterMap_congr fun a ha => (h a ha).keyAndValue_text

/-! ## The line -/

theorem Padded.Clean.text (h : a.Clean f) : ∀ c ∈ a.text f, c ≠ '\n' ∧ c ≠ '\r' := by
  have htoken : ∀ {c : Char}, InToken c → c ≠ '\n' ∧ c ≠ '\r' := by
    rintro c ⟨hspace, -⟩
    refine ⟨?_, ?_⟩
    all_goals
      rintro rfl
      exact absurd hspace (by decide)
  have hvalue : ∀ c ∈ (f a.attr).value.text, c ≠ '\n' ∧ c ≠ '\r' := by
    rintro c hc
    have hclean := h.attr.value
    cases hv : (f a.attr).value with
    | quotedString text =>
      rw [hv] at hc hclean
      rw [AttributeValue.text, List.mem_append, List.mem_cons, List.mem_singleton] at hc
      obtain (rfl | hc) | rfl := hc
      · decide
      · exact ⟨(hclean c hc).2.1, (hclean c hc).2.2.1⟩
      · decide
    | token text =>
      rw [hv] at hc hclean
      exact htoken (hclean c hc)
  rintro c hc
  rw [Padded.text, Attribute.text, List.mem_append, List.mem_append, List.mem_append,
    List.mem_cons] at hc
  obtain (hc | hc | rfl | hc) | hc := hc
  · exact (h.before c hc).2
  · exact htoken (h.attr.name c hc).1
  · decide
  · exact hvalue c hc
  · exact (h.after c hc).2

theorem attributeList_clean (h : ∀ a ∈ as, a.Clean f) :
    ∀ c ∈ attributeList f as, c ≠ '\n' ∧ c ≠ '\r' := by
  rw [attributeList]
  induction as with
  | nil => exact fun c hc => by cases hc
  | cons a as ih =>
    obtain ⟨ha, has⟩ := List.forall_mem_cons.mp h
    cases as with
    | nil =>
      rw [List.map_cons, List.map_nil, List.intercalate_singleton]
      exact ha.text
    | cons b bs =>
      have hrest := ih has
      rw [List.map_cons] at hrest
      rw [List.map_cons, List.map_cons, List.intercalate_cons_cons]
      simp only [List.forall_mem_append, List.forall_mem_singleton]
      exact ⟨⟨ha.text, by decide⟩, hrest⟩

/-- The tag with its list is one line of a text. -/
theorem lines_attributeList (tag : Tag) (h : ∀ a ∈ as, a.Clean f) (rest : AString) :
    (lines (tag.text ++ ':' :: attributeList f as ++ '\n' :: rest)).map stripCR =
      (tag.text ++ ':' :: attributeList f as) :: (lines rest).map stripCR := by
  obtain ⟨-, hLF, hCR⟩ := Tag.clean tag tag.mem_inOrder
  have hclean : ∀ c ∈ tag.text ++ ':' :: attributeList f as, c ≠ '\n' ∧ c ≠ '\r' := by
    intro c hc
    rw [List.mem_append, List.mem_cons] at hc
    obtain hc | rfl | hc := hc
    · exact ⟨fun heq => hLF (heq ▸ hc), fun heq => hCR (heq ▸ hc)⟩
    · decide
    · exact attributeList_clean h c hc
  have hline := @lines_append _ rest fun hmem => (hclean _ hmem).1 rfl
  have hstrip : stripCR (tag.text ++ ':' :: attributeList f as) =
      tag.text ++ ':' :: attributeList f as :=
    if_neg fun hlast => (hclean _ (List.mem_of_getLast? hlast)).2 rfl
  rw [hline, List.map_cons, hstrip]

end MediaFramework.Hls
