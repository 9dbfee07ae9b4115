import ComponentLint.Proofs.Entries
import ComponentLint.Proofs.Markup.Leftover

/-!
# Attributes as they are written

The attributes of a tag are written one behind the other with whitespace between them, each as its
name alone, as `name=value`, or with the value between quotes.  A text that is written like this is
taken apart at its whitespace into the words of the attributes, and each word is taken apart at its
first `=`.  So what is read are the attributes that were written, and this is what a style filter is
asked about.

## Main definitions

* `Markup.Inline t` — `t` stands in a tag as one word.
* `Markup.ValueForm` — how the value of an attribute is written.
* `Markup.Written` — an attribute and the whitespace before it.
* `Markup.AttributeText` — written attributes with distinct names, and the whitespace behind them.
* `Markup.Element.Carries e w` — `e` is a `style` element with the attributes `w`.

## Main statements

* `Text.words_append`, `Text.words_append_of_isSpace` — words are separated by whitespace.
* `Markup.Attributes.parseOne_word` — an attribute is read as it was written.
* `Markup.AttributeText.parse_text` — **what is read are the attributes that were written.**
* `Markup.styles_filtered_by_written_attributes` — **a style is blanked if the filter picks the
  attributes that were written.**
-/

namespace ComponentLint

/-! ### Words -/

namespace Text

theorem wordsFrom_append {w : Text} (hw : ∀ c ∈ w, isSpace c = false) (run t : Text) :
    wordsFrom run (w ++ t) = wordsFrom (w.reverse ++ run) t := by
  induction w generalizing run with
  | nil => rfl
  | cons c w ih =>
    obtain ⟨hc, hw⟩ := List.forall_mem_cons.1 hw
    simp [wordsFrom, hc, ih hw]

/-- Whitespace before a text belongs to no word. -/
theorem words_append_of_isSpace {gap : Text} (hgap : ∀ c ∈ gap, isSpace c = true) (t : Text) :
    words (gap ++ t) = words t := by
  induction gap with
  | nil => rfl
  | cons c gap ih =>
    obtain ⟨hc, hgap⟩ := List.forall_mem_cons.1 hgap
    rw [← ih hgap]
    simp [words, wordsFrom, hc]

/-- A word ends where the text does, or at whitespace. -/
theorem words_append {w t : Text} (hne : w ≠ []) (hw : ∀ c ∈ w, isSpace c = false)
    (ht : t.head?.all isSpace = true) : words (w ++ t) = w :: words t := by
  rw [words, wordsFrom_append hw, List.append_nil]
  cases t with
  | nil => simp [words, wordsFrom, hne]
  | cons c t =>
    have hc : isSpace c = true := by simpa using ht
    simp [words, wordsFrom, hc, hne]

end Text

namespace Markup

open Text

/-! ### Written attributes -/

/-- The two quotes. -/
def isQuote (c : Char) : Bool := c = '\x22' || c = '\x27'

/-- A text that stands in a tag as one word: it has no whitespace and no `>`. -/
def Inline (t : Text) : Prop := ∀ c ∈ t, isSpace c = false ∧ c ≠ '>'

theorem Inline.append {s t : Text} (hs : Inline s) (ht : Inline t) : Inline (s ++ t) := by
  intro c hc
  rcases List.mem_append.1 hc with hc | hc
  · exact hs c hc
  · exact ht c hc

theorem Inline.isSpace {t : Text} (h : Inline t) : ∀ c ∈ t, isSpace c = false :=
  fun c hc => (h c hc).1

/-- How the value of an attribute is written: not at all, behind a `=`, or behind a `=` and between
quotes. -/
inductive ValueForm where
  | bare
  /-- A value that begins with a quote cannot be written without quotes. -/
  | plain (value : Text) (inline : Inline value)
    (unquoted : value.head?.all (fun c => !isQuote c) = true)
  | quoted (quote : Char) (value : Text) (isQuote_quote : isQuote quote = true)
    (inline : Inline value)

namespace ValueForm

/-- The value that is written. -/
def value? : ValueForm → Option Text
  | bare => none
  | plain value _ _ => some value
  | quoted _ value _ _ => some value

/-- What is written behind the name. -/
def text : ValueForm → Text
  | bare => []
  | plain value _ _ => '=' :: value
  | quoted quote value _ _ => '=' :: quote :: value ++ [quote]

theorem inline_quote {quote : Char} (h : isQuote quote = true) : Inline [quote] := by
  intro c hc
  rw [List.mem_singleton.1 hc]
  simp only [isQuote, Bool.or_eq_true, decide_eq_true_eq] at h
  rcases h with rfl | rfl <;> decide

theorem inline_text (form : ValueForm) : Inline form.text := by
  have heq : Inline ['='] := by simp [Inline, Text.isSpace]
  cases form with
  | bare => simp [Inline, text]
  | plain value inline _ => exact heq.append inline
  | quoted quote value hquote inline =>
    have hends := inline_quote hquote
    exact heq.append (hends.append (inline.append hends))

end ValueForm

/-- An attribute and the whitespace before it. -/
structure Written where
  gap : Text
  name : Text
  form : ValueForm
  isSpace_gap : ∀ c ∈ gap, isSpace c = true
  name_ne_nil : name ≠ []
  inline_name : Inline name
  eq_notMem : '=' ∉ name

namespace Written

/-- The attribute as one word. -/
def word (a : Written) : Text := a.name ++ a.form.text

/-- The attribute with the whitespace before it. -/
def text (a : Written) : Text := a.gap ++ a.word

/-- The name and the value that are written. -/
def entry (a : Written) : String × Option String :=
  (String.ofList a.name, a.form.value?.map String.ofList)

theorem word_ne_nil (a : Written) : a.word ≠ [] := by
  intro h
  exact a.name_ne_nil (List.append_eq_nil_iff.1 h).1

theorem inline_word (a : Written) : Inline a.word := a.inline_name.append a.form.inline_text

end Written

/-! ### Reading one attribute -/

namespace Attributes

theorem unquote_plain {value : Text} (h : value.head?.all (fun c => !isQuote c) = true) :
    unquote value = value := by
  cases value with
  | nil => rfl
  | cons c value =>
    have hc : ¬ (c = '\x22' ∨ c = '\x27') := by simpa [isQuote] using h
    rw [unquote, if_neg hc]

/-- The quotes are dropped, whatever stands between them. -/
theorem unquote_quoted {quote : Char} (h : isQuote quote = true) (value : Text) :
    unquote (quote :: value ++ [quote]) = value := by
  have hquote : quote = '\x22' ∨ quote = '\x27' := by simpa [isQuote] using h
  have hsize : quote.utf8Size = 1 := by rcases hquote with rfl | rfl <;> rfl
  have hslice : slice? (quote :: value ++ [quote]) 1 (size (quote :: value ++ [quote]) - 1) =
      some value := by
    rw [slice?_eq_some_iff]
    refine ⟨[quote], [quote], by simp, by simp [hsize], ?_⟩
    simp [hsize, Nat.add_comm]
  rw [List.cons_append] at hslice ⊢
  rw [unquote, if_pos hquote, hslice]
  rfl

/-- An attribute is read as it was written. -/
theorem parseOne_word (a : Written) : parseOne a.word = a.entry := by
  have hname : ∀ c ∈ a.name, decide (c ≠ '=') = true := by
    intro c hc
    exact decide_eq_true (ne_of_mem_of_not_mem hc a.eq_notMem)
  rw [parseOne, Written.word, List.takeWhile_append_of_pos hname,
    List.dropWhile_append_of_pos hname, Written.entry]
  cases a.form with
  | bare => simp [ValueForm.text, ValueForm.value?]
  | plain value _ unquoted => simp [ValueForm.text, ValueForm.value?, unquote_plain unquoted]
  | quoted quote value hquote _ =>
    have hvalue := unquote_quoted hquote value
    rw [List.cons_append] at hvalue
    simp [ValueForm.text, ValueForm.value?, hvalue]

end Attributes

/-! ### Reading all attributes -/

/-- Written attributes with distinct names, whitespace between them, and whitespace behind the
last one. -/
structure AttributeText where
  attributes : List Written
  trail : Text
  isSpace_trail : ∀ c ∈ trail, isSpace c = true
  parted : ∀ a ∈ attributes.tail, a.gap ≠ []
  distinct : (attributes.map Written.name).Nodup

namespace AttributeText

/-- The attributes as a text. -/
def text (w : AttributeText) : Text := w.attributes.flatMap Written.text ++ w.trail

/-- The map from the names to the values. -/
def entries (w : AttributeText) : Attributes := w.attributes.map Written.entry

/-- What follows an attribute begins with whitespace, or there is nothing. -/
theorem isSpace_head {l : List Written} (hl : ∀ a ∈ l, a.gap ≠ []) {trail : Text}
    (htrail : ∀ c ∈ trail, isSpace c = true) :
    (l.flatMap Written.text ++ trail).head?.all isSpace = true := by
  cases l with
  | nil =>
    cases trail with
    | nil => rfl
    | cons c trail => exact htrail c List.mem_cons_self
  | cons a l =>
    obtain ⟨c, gap, hgap⟩ := List.exists_cons_of_ne_nil (hl a List.mem_cons_self)
    have hc : isSpace c = true := a.isSpace_gap c (by simp [hgap])
    simp [Written.text, hgap, hc]

theorem words_flatMap_text {l : List Written} (hl : ∀ a ∈ l.tail, a.gap ≠ []) {trail : Text}
    (htrail : ∀ c ∈ trail, isSpace c = true) :
    words (l.flatMap Written.text ++ trail) = l.map Written.word := by
  induction l with
  | nil =>
    have hwords := words_append_of_isSpace htrail []
    rw [List.append_nil] at hwords
    exact hwords
  | cons a l ih =>
    rw [List.tail_cons] at hl
    have hrest := ih fun b hb => hl b (List.mem_of_mem_tail hb)
    rw [List.flatMap_cons, Written.text, List.append_assoc, List.append_assoc,
      words_append_of_isSpace a.isSpace_gap,
      words_append a.word_ne_nil a.inline_word.isSpace (isSpace_head hl htrail), hrest]
    rfl

theorem nodup_names (w : AttributeText) : (w.entries.map Prod.fst).Nodup := by
  have hnames : w.entries.map Prod.fst = (w.attributes.map Written.name).map String.ofList := by
    simp [entries, Written.entry]
  rw [hnames]
  apply w.distinct.map
  intro s t h
  exact String.ofList_injective h

/-- **What is read are the attributes that were written.** -/
theorem parse_text (w : AttributeText) : Attributes.parse w.text = w.entries := by
  have hwords : words w.text = w.attributes.map Written.word :=
    words_flatMap_text w.parted w.isSpace_trail
  rw [Attributes.parse, hwords, List.map_map]
  have hentries : w.attributes.map (Attributes.parseOne ∘ Written.word) = w.entries :=
    List.map_congr_left fun a _ => Attributes.parseOne_word a
  rw [hentries]
  exact Entries.ofList_eq_self w.nodup_names

theorem gt_notMem (w : AttributeText) : '>' ∉ w.text := by
  have hspace : ∀ {t : Text}, (∀ c ∈ t, isSpace c = true) → '>' ∉ t := by
    intro t ht hmem
    exact absurd (ht '>' hmem) (by decide)
  intro hmem
  rcases List.mem_append.1 hmem with hmem | hmem
  · obtain ⟨a, -, hmem⟩ := List.mem_flatMap.1 hmem
    rcases List.mem_append.1 hmem with hmem | hmem
    · exact hspace a.isSpace_gap hmem
    · exact (a.inline_word '>' hmem).2 rfl
  · exact hspace w.isSpace_trail hmem

end AttributeText

/-! ### Styles with written attributes -/

/-- A tag that starts in a text does not reach over a `<` behind it. -/
theorem begins_of_begins_append_lt {word u r : Text}
    (hword : ∀ letter ∈ word, isSpace letter = false ∧ letter ≠ '<') (hu : u ≠ [])
    (h : Begins ('<' :: word) (u ++ '<' :: r)) : Begins ('<' :: word) u := by
  obtain ⟨form, rest, heq, hform⟩ := h
  rcases List.append_eq_append_iff.1 heq with ⟨x, hx, hrest⟩ | ⟨x, rfl, -⟩
  · cases x with
    | nil =>
      rw [List.append_nil] at hx
      exact ⟨form, [], by rw [hx, List.append_nil], hform⟩
    | cons d x =>
      -- the tag would have a `<` among its letters
      obtain ⟨rfl, -⟩ := List.cons.inj hrest
      obtain ⟨letters, rfl, hletters⟩ := IsForm.exists_eq_cons hform
      obtain ⟨c, u, rfl⟩ := List.exists_cons_of_ne_nil hu
      obtain ⟨-, rfl⟩ := List.cons.inj hx
      have hmem : '<' ∈ u ++ '<' :: x := List.mem_append_right u List.mem_cons_self
      exact absurd rfl (IsForm.plain_of_mem hletters hword '<' hmem).2
  · exact ⟨form, x, rfl, hform⟩

/-- Where no opening tag starts, no element starts. -/
theorem scan_append_of_not_begins {name before r : Text}
    (hname : ∀ letter ∈ name, isSpace letter = false ∧ letter ≠ '<')
    (hbefore : ∀ s u, s ++ u = before → ¬ Begins ('<' :: name) u) :
    scan name (before ++ '<' :: r) = before.map .plain ++ scan name ('<' :: r) := by
  induction before with
  | nil => rfl
  | cons c before ih =>
    have hnone : element? name (c :: (before ++ '<' :: r)) = none := by
      rw [← Option.not_isSome_iff_eq_none, element?_isSome_iff]
      rintro ⟨opening, u, heq, hform, -⟩
      apply hbefore [] (c :: before) rfl
      exact begins_of_begins_append_lt hname (List.cons_ne_nil c before) ⟨opening, u, heq, hform⟩
    have hrest := ih fun s u hsu => hbefore (c :: s) u (congrArg (c :: ·) hsu)
    rw [List.cons_append, scan_cons_of_none hnone, hrest]
    rfl

/-- Whether a tag starts in a text can be found out by trying each place. -/
theorem not_begins_of_splits {word t : Text}
    (h : (Pattern.splits t).all (fun x => (splitWord? word x.2).isNone) = true) :
    ∀ s u, s ++ u = t → ¬ Begins word u := by
  intro s u hsu hbegins
  have hnone := List.all_eq_true.1 h (s, u) (Pattern.mem_splits_iff.2 hsu)
  rw [Option.isNone_iff_eq_none, splitWord?_eq_none_iff] at hnone
  exact hnone hbegins

/-- A `style` element with written attributes, whose body has no closing tag. -/
structure Element.Carries (e : Element) (w : AttributeText) : Prop where
  name_form : IsForm ('<' :: styleName) e.name
  attributes_eq : e.attributes = w.text
  isSpace_head : e.attributes.head?.all isSpace = true
  closing_form : IsForm (closingTag styleName) e.closing
  not_closed : ∀ s u, s ++ u = e.body → ¬ Begins (closingTag styleName) u

theorem Element.Carries.isOf {e : Element} {w : AttributeText} (h : e.Carries w) :
    e.IsOf styleName where
  name_form := h.name_form
  gt_notMem := by
    rw [h.attributes_eq]
    exact w.gt_notMem
  isSpace_head := h.isSpace_head
  closing_form := h.closing_form
  closes_first := by
    intro s u hsu hu hbegins
    obtain ⟨letters, hclosing, -⟩ := IsForm.exists_eq_cons h.closing_form
    rw [hclosing] at hbegins
    refine h.not_closed s u hsu (begins_of_begins_append_lt ?_ hu hbegins)
    simp [styleName, isSpace]

/-- **A style is blanked if the filter picks the attributes that were written.**  Written attributes
are read as the map from their names to their values.  A `style` element that has them, and in whose
body there is no closing tag, is blanked if the filter holds of this map, and left as it is
otherwise, wherever it stands behind a text in which no opening tag starts. -/
theorem styles_filtered_by_written_attributes (filter : Attributes → Bool) (w : AttributeText) :
    Attributes.parse w.text = w.entries ∧
    (∀ name value, (Attributes.parse w.text).get? name = some value ↔
      ∃ a ∈ w.attributes, a.entry = (name, value)) ∧
    ∀ (e : Element) (before after : Text), e.Carries w →
      (∀ s u, s ++ u = before → ¬ Begins ('<' :: styleName) u) →
      blankStyles filter (before ++ (e.text ++ after)) =
        before ++ ((if filter w.entries then blankText e.text else e.text) ++
          blankStyles filter after) ∧
      blankText e.text ≠ e.text := by
  refine ⟨w.parse_text, ?_, ?_⟩
  · intro name value
    rw [w.parse_text, Entries.get?_eq_some_iff w.nodup_names]
    exact List.mem_map
  · intro e before after he hbefore
    obtain ⟨u, hu⟩ := he.isOf.exists_text_eq
    constructor
    · have hscan : scan styleName (before ++ (e.text ++ after)) =
          before.map .plain ++ .element e :: scan styleName after := by
        rw [← he.isOf.scan_eq, hu, List.cons_append]
        exact scan_append_of_not_begins plain_styleName hbefore
      rw [blankStyles, hscan, List.flatMap_append, flatMap_blankStyle_map_plain,
        List.flatMap_cons, blankStyle, he.attributes_eq, w.parse_text]
      rfl
    · intro heq
      have hmem : '<' ∈ blankText e.text := by
        rw [heq, hu]
        exact List.mem_cons_self
      exact notMem_blankText (by decide) e.text hmem

/-- Quotes in a quoted value, an empty value, no value, and a value with a `=` and a character of
two bytes at its end. -/
def mixedAttributes : AttributeText where
  attributes := [
    ⟨[' '], ['l', 'a', 'n', 'g'],
      .quoted '\x22' ['s', '\x27', '\x22'] (by decide) (by simp [Inline, isSpace]),
      by simp [isSpace], by simp, by simp [Inline, isSpace], by decide⟩,
    ⟨['\n', '\t'], ['x'], .quoted '\x27' [] (by decide) (by simp [Inline]),
      by simp [isSpace], by simp, by simp [Inline, isSpace], by decide⟩,
    ⟨['\u00a0'], ['g', '<'], .bare,
      by simp [isSpace], by simp, by simp [Inline, isSpace], by decide⟩,
    ⟨[' '], ['y'], .plain ['a', '=', 'é'] (by simp [Inline, isSpace]) (by decide),
      by simp [isSpace], by simp, by simp [Inline, isSpace], by decide⟩]
  trail := [' ']
  isSpace_trail := by simp [isSpace]
  parted := by simp
  distinct := by decide

/-- A style with these attributes, in whose body a closing tag is begun. -/
def mixedStyle : Element where
  name := "<STYle".toList
  attributes := mixedAttributes.text
  body := "p</styl".toList
  closing := "</Style>".toList

theorem carries_mixedStyle : mixedStyle.Carries mixedAttributes where
  name_form := by decide
  attributes_eq := rfl
  isSpace_head := rfl
  closing_form := by decide
  not_closed := not_begins_of_splits (by decide)

theorem styles_filtered_by_written_attributes_mixed :
    mixedStyle.Carries mixedAttributes ∧
      (∀ s u, s ++ u = "<styl é>".toList → ¬ Begins ('<' :: styleName) u) ∧
      Attributes.hasLanguage mixedAttributes.entries = true ∧
      (Attributes.parse mixedAttributes.text).get? "lang" = some (some "s'\"") ∧
      blankStyles Attributes.hasLanguage ("<styl é>".toList ++ (mixedStyle.text ++ ['\n'])) =
        "<styl é>".toList ++ (blankText mixedStyle.text ++
          blankStyles Attributes.hasLanguage ['\n']) := by
  have hbefore : ∀ s u, s ++ u = "<styl é>".toList → ¬ Begins ('<' :: styleName) u :=
    not_begins_of_splits (by decide)
  have hpicked : Attributes.hasLanguage mixedAttributes.entries = true := by decide
  obtain ⟨-, hvalue, hblank⟩ :=
    styles_filtered_by_written_attributes Attributes.hasLanguage mixedAttributes
  refine ⟨carries_mixedStyle, hbefore, hpicked, (hvalue _ _).2 ⟨_, List.mem_cons_self, rfl⟩, ?_⟩
  rw [(hblank mixedStyle _ ['\n'] carries_mixedStyle hbefore).1, if_pos hpicked]

end Markup

end ComponentLint
