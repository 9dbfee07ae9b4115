import ComponentLint.Markup.Blank
import ComponentLint.Proofs.Markup.Rescan
import ComponentLint.Proofs.Outdent
import ComponentLint.Span

/-!
# Cleared scripts

The body of a script is replaced line by line by text of the same size.  What stands for it has no
`<`, so that no closing tag starts in it: the element is still there, with its body cleared.  And
where no element started before, none starts now: the name of an opening tag is followed by the
same character, and if there is an element behind it, then a closing tag was behind it all along.
The second search therefore finds the same scripts at the same offsets, and has nothing to clear.

## Main definitions

* `Markup.blankRow n` — what stands for a row of `n` bytes that a line feed ends.
* `Markup.clearedByte front b back` — what stands for byte `b` of a body.
* `Markup.Element.cleared e`, `Markup.Stretch.cleared s` — an element or stretch with its body
  cleared.
* `Markup.bodies name t`, `Markup.bodySpans name t` — the bodies of the elements of `t`, with the
  offsets at which they start, and their spans.

## Main statements

* `Markup.getElem?_bytes_blankBody` — what stands for each byte of a body.
* `Markup.blankBody_blankBody` — a cleared body stays as it is.
* `Markup.scan_clearScripts` — **the second search finds the same scripts, cleared.**
* `Markup.clearScripts_keeps_layout` — **clearing scripts keeps the layout.**
-/

namespace ComponentLint.Markup

open Text

/-! ### Bodies row by row -/

/-- What stands for a row of `n` bytes that a line feed ends. -/
def blankRow (n : Nat) : Text := if 4 ≤ n then spaces (n - 4) ++ ['/', '*', '*', '/'] else spaces n

theorem blankBody_append_feed {l : Text} (hl : '\n' ∉ l) (t : Text) :
    blankBody (l ++ '\n' :: t) = blankRow (size l) ++ '\n' :: blankBody t := by
  have hline : blankLine (l ++ ['\n']) = blankRow (size l) ++ ['\n'] := by
    have hsize : size (l ++ ['\n']) - 1 = size l := by
      rw [size_append]
      rfl
    rw [blankLine, if_pos List.getLast?_concat, hsize, blankRow]
    dsimp only
    split <;> simp
  rw [blankBody, lines_append_feed hl, List.flatMap_cons, hline, List.append_assoc]
  rfl

theorem blankBody_of_notMem {l : Text} (hl : '\n' ∉ l) : blankBody l = spaces (size l) := by
  rcases eq_or_ne l [] with rfl | hne
  · rfl
  · have hlast : l.getLast? ≠ some '\n' := fun h => hl (List.mem_of_getLast? h)
    rw [blankBody, lines_of_notMem hl hne, List.flatMap_singleton, blankLine, if_neg hlast]

@[simp] theorem size_blankRow (n : Nat) : size (blankRow n) = n := by
  unfold blankRow
  split
  · have hcomment : size ['/', '*', '*', '/'] = 4 := by decide
    rw [size_append, size_spaces, hcomment]
    omega
  · exact size_spaces n

theorem mem_blankRow {n : Nat} {c : Char} (h : c ∈ blankRow n) : c = ' ' ∨ c = '/' ∨ c = '*' := by
  unfold blankRow at h
  split at h
  · rcases List.mem_append.1 h with h | h
    · exact Or.inl (mem_spaces h)
    · simp only [List.mem_cons, List.not_mem_nil, or_false] at h
      tauto
  · exact Or.inl (mem_spaces h)

theorem feed_notMem_blankRow (n : Nat) : '\n' ∉ blankRow n := by
  intro h
  rcases mem_blankRow h with h | h | h <;> cases h

theorem feed_notMem_spaces (n : Nat) : '\n' ∉ spaces n := by
  intro h
  cases mem_spaces h

@[simp] theorem size_blankBody (body : Text) : size (blankBody body) = size body := by
  induction body using byRows with
  | last l hl => rw [blankBody_of_notMem hl, size_spaces]
  | row l t hl ih => rw [blankBody_append_feed hl, size_append, size_append, size_cons, size_cons,
      size_blankRow, ih]

/-- A cleared body stays as it is. -/
theorem blankBody_blankBody (body : Text) : blankBody (blankBody body) = blankBody body := by
  induction body using byRows with
  | last l hl =>
    rw [blankBody_of_notMem hl, blankBody_of_notMem (feed_notMem_spaces _), size_spaces]
  | row l t hl ih => rw [blankBody_append_feed hl, blankBody_append_feed (feed_notMem_blankRow _),
      size_blankRow, ih]

theorem lt_notMem_blankBody (body : Text) : '<' ∉ blankBody body := by
  induction body using byRows with
  | last l hl =>
    rw [blankBody_of_notMem hl]
    intro h
    cases mem_spaces h
  | row l t hl ih =>
    rw [blankBody_append_feed hl, List.mem_append, List.mem_cons, not_or, not_or]
    refine ⟨?_, by decide, ih⟩
    intro h
    rcases mem_blankRow h with h | h | h <;> cases h

/-! ### Bodies byte by byte -/

/-- The byte of a space. -/
def blank : UInt8 := 32

/-- The bytes of an empty comment. -/
def emptyComment : List UInt8 := [47, 42, 42, 47]

/-- What stands for byte `b` of a body, with `front` before it and `back` behind it.  A line feed
stays.  The last four bytes of a line that a line feed ends become an empty comment, if there are
four.  Every other byte becomes a space. -/
def clearedByte (front : List UInt8) (b : UInt8) (back : List UInt8) : Option UInt8 :=
  let after := (back.takeWhile (· ≠ feed)).length
  let width := (lastRow feed front).length + 1 + after
  if b = feed then some feed
  else if feed ∈ back ∧ 4 ≤ width ∧ after < 4 then emptyComment[3 - after]?
  else some blank

theorem bytes_spaces (n : Nat) : bytes (spaces n) = List.replicate n blank := by
  have hspace : String.utf8EncodeChar ' ' = [blank] := by decide
  rw [bytes, spaces, List.flatMap_replicate, hspace]
  simp

theorem getElem?_bytes_blankRow {n i : Nat} (hi : i < n) :
    (bytes (blankRow n))[i]? =
      if 4 ≤ n ∧ n ≤ i + 4 then emptyComment[i + 4 - n]? else some blank := by
  have hcomment : bytes ['/', '*', '*', '/'] = emptyComment := by decide
  unfold blankRow
  by_cases hn : 4 ≤ n
  · rw [if_pos hn, bytes_append, bytes_spaces, hcomment]
    by_cases hlast : n ≤ i + 4
    · have hshift : i - (n - 4) = i + 4 - n := by omega
      rw [if_pos ⟨hn, hlast⟩, List.getElem?_append_right (by rw [List.length_replicate]; omega),
        List.length_replicate, hshift]
    · rw [if_neg (fun h => hlast h.2), List.getElem?_append_left
        (by rw [List.length_replicate]; omega), List.getElem?_replicate, if_pos (by omega)]
  · rw [if_neg hn, if_neg (fun h => hn h.1), bytes_spaces, List.getElem?_replicate, if_pos hi]

/-- A byte of a row that a line feed ends. -/
theorem clearedByte_of_row {front tail : List UInt8} {b : UInt8} (hfront : feed ∉ front)
    (hb : b ≠ feed) (htail : feed ∉ tail) (rest : List UInt8) :
    clearedByte front b (tail ++ feed :: rest) =
      if 4 ≤ front.length + 1 + tail.length ∧ tail.length < 4 then emptyComment[3 - tail.length]?
      else some blank := by
  have hall : ∀ c ∈ tail, decide (c ≠ feed) = true := by
    intro c hc
    exact decide_eq_true (ne_of_mem_of_not_mem hc htail)
  have hafter : (tail ++ feed :: rest).takeWhile (· ≠ feed) = tail := by
    rw [List.takeWhile_append_of_pos hall, List.takeWhile_cons_of_neg (by simp), List.append_nil]
  have hmem : feed ∈ tail ++ feed :: rest := List.mem_append_right _ List.mem_cons_self
  unfold clearedByte
  simp only [hafter, lastRow_of_notMem hfront, if_neg hb, hmem, true_and]

/-- What stands before the last line feed does not matter. -/
theorem clearedByte_append_feed (row front back : List UInt8) (b : UInt8) :
    clearedByte (row ++ feed :: front) b back = clearedByte front b back := by
  simp only [clearedByte, lastRow_append_cons]

/-- What stands for a byte of a row that a line feed ends. -/
theorem getElem?_bytes_blankRow_append {front tail : List UInt8} {b : UInt8} (hfront : feed ∉ front)
    (hb : b ≠ feed) (htail : feed ∉ tail) (rest : List UInt8) :
    (bytes (blankRow (front ++ b :: tail).length))[front.length]? =
      clearedByte front b (tail ++ feed :: rest) := by
  have hlength : (front ++ b :: tail).length = front.length + 1 + tail.length := by
    rw [List.length_append, List.length_cons]
    omega
  have hshift : front.length + 4 - (front.length + 1 + tail.length) = 3 - tail.length := by omega
  have hlast : front.length + 1 + tail.length ≤ front.length + 4 ↔ tail.length < 4 := by omega
  rw [hlength, getElem?_bytes_blankRow (by omega), clearedByte_of_row hfront hb htail, hshift]
  simp only [hlast]

/-- **What stands for each byte of a body.** -/
theorem getElem?_bytes_blankBody {body : Text} {front back : List UInt8} {b : UInt8}
    (h : bytes body = front ++ b :: back) :
    (bytes (blankBody body))[front.length]? = clearedByte front b back := by
  induction body using byRows generalizing front with
  | last l hl =>
    -- no line feed ends the line, so that there is no comment
    have hfeed : feed ∉ front ++ b :: back := by rwa [← h, feed_mem_bytes_iff]
    simp only [List.mem_append, List.mem_cons, not_or] at hfeed
    obtain ⟨-, hb, hback⟩ := hfeed
    have hlt : front.length < size l := by
      rw [← length_bytes, h, List.length_append, List.length_cons]
      omega
    rw [blankBody_of_notMem hl, bytes_spaces, List.getElem?_replicate, if_pos hlt, clearedByte,
      if_neg (Ne.symm hb), if_neg fun h => hback h.1]
  | row l t hl ih =>
    rw [blankBody_append_feed hl, bytes_append, bytes_cons, utf8EncodeChar_feed]
    rw [bytes_append, bytes_cons, utf8EncodeChar_feed, List.singleton_append] at h
    have hlength : (bytes (blankRow (size l))).length = (bytes l).length := by simp
    rcases List.append_eq_append_iff.1 h with ⟨z, rfl, hz⟩ | ⟨_ | ⟨c, z⟩, hrow, hz⟩
    · -- the byte is the line feed, or stands behind it
      rw [List.length_append, List.getElem?_append_right (by omega), hlength,
        Nat.add_sub_cancel_left]
      cases z with
      | nil =>
        obtain ⟨rfl, rfl⟩ := List.cons.inj hz
        simp [clearedByte]
      | cons c z =>
        obtain ⟨rfl, ht⟩ := List.cons.inj hz
        rw [clearedByte_append_feed, ← ih ht]
        rfl
    · obtain ⟨rfl, rfl⟩ := List.cons.inj hz
      rw [List.append_nil] at hrow
      rw [← hrow, List.getElem?_append_right (by omega), hlength, Nat.sub_self]
      simp [clearedByte]
    · rw [List.cons_append] at hz
      obtain ⟨rfl, rfl⟩ := List.cons.inj hz
      have hfeed : feed ∉ front ++ b :: z := by rwa [← hrow, feed_mem_bytes_iff]
      simp only [List.mem_append, List.mem_cons, not_or] at hfeed
      obtain ⟨hfront, hb, hz⟩ := hfeed
      have hlt : front.length < (bytes l).length := by
        rw [hrow, List.length_append, List.length_cons]
        omega
      rw [List.getElem?_append_left (by rwa [hlength]), ← length_bytes, hrow,
        getElem?_bytes_blankRow_append hfront (Ne.symm hb) hz]

/-! ### The second search -/

/-- An element with its body cleared. -/
def Element.cleared (e : Element) : Element := { e with body := blankBody e.body }

/-- A stretch, with its body cleared if it is an element. -/
def Stretch.cleared : Stretch → Stretch
  | .plain c => .plain c
  | .element e => .element e.cleared

theorem text_cleared (s : Stretch) : s.cleared.text = clearScript s := by
  cases s <;> rfl

theorem clearScript_cleared (s : Stretch) : clearScript s.cleared = clearScript s := by
  cases s with
  | plain c => rfl
  | element e =>
    have hbody := blankBody_blankBody e.body
    simp only [Stretch.cleared, clearScript, Element.cleared, Element.opening, hbody]

/-- A cleared element is still one: no closing tag starts in what stands for the body. -/
theorem Element.IsOf.cleared {name : Text} {e : Element} (he : e.IsOf name) :
    e.cleared.IsOf name := by
  refine ⟨he.name_form, he.gt_notMem, he.isSpace_head, he.closing_form, ?_⟩
  rintro s u hs hu ⟨form, rest, heq, hform⟩
  obtain ⟨c, u, rfl⟩ := List.exists_cons_of_ne_nil hu
  obtain ⟨letters, rfl, -⟩ := IsForm.exists_eq_cons hform
  obtain ⟨rfl, -⟩ := List.cons.inj heq
  have hmem : '<' ∈ blankBody e.body := by
    rw [show blankBody e.body = s ++ '<' :: u from hs.symm]
    exact List.mem_append_right s List.mem_cons_self
  exact lt_notMem_blankBody e.body hmem

theorem plain_scriptName : ∀ letter ∈ scriptName, isSpace letter = false ∧ letter ≠ '<' := by
  simp [scriptName, isSpace]

/-- Behind stretches with an element stands a closing tag; other stretches do not change. -/
theorem closes_of_closes_clearScript {name : Text} {ss : List Stretch}
    (hss : ∀ e, .element e ∈ ss → Element.IsOf name e)
    (h : Closes name (ss.flatMap clearScript)) : Closes name (ss.flatMap Stretch.text) := by
  by_cases helement : ∃ e, .element e ∈ ss
  · obtain ⟨e, he⟩ := helement
    obtain ⟨before, after, rfl⟩ := List.append_of_mem he
    have hcloses := (hss e he).closes (before.flatMap Stretch.text ++ (e.name ++ e.attributes))
      (after.flatMap Stretch.text)
    have htext : (before ++ .element e :: after).flatMap Stretch.text =
        before.flatMap Stretch.text ++ (e.text ++ after.flatMap Stretch.text) := by
      simp [Stretch.text]
    rw [htext, e.text_append]
    simpa using hcloses
  · have hsame : ∀ s ∈ ss, clearScript s = s.text := by
      intro s hs
      cases s with
      | plain c => rfl
      | element e => exact absurd ⟨e, hs⟩ helement
    rwa [List.flatMap_congr hsame] at h

/-- Where no script started, none starts when the scripts behind are cleared. -/
theorem element?_clearScript_eq_none {c : Char} {t : Text}
    (hnone : element? scriptName (c :: t) = none) :
    element? scriptName (c :: (scan scriptName t).flatMap clearScript) = none := by
  have hisOf : ∀ e, .element e ∈ scan scriptName t → Element.IsOf scriptName e :=
    fun e he => isOf_of_mem_scan he
  have hheads : ∀ e, .element e ∈ scan scriptName t → ∃ c u, clearScript (.element e) = c :: u ∧
      (isSpace c = true ∨ c = '<') := by
    intro e he
    obtain ⟨u, hu⟩ := (hisOf e he).cleared.exists_text_eq
    exact ⟨'<', u, hu, Or.inr rfl⟩
  rw [← Option.not_isSome_iff_eq_none, element?_isSome_iff]
  rintro ⟨opening, u, heq, hform, ⟨d, hd, hhead⟩, hcloses⟩
  obtain ⟨letters, rfl, hletters⟩ := hform.exists_eq_cons
  obtain ⟨rfl, hleft⟩ := List.cons.inj heq
  -- the letters of the name are outside of the elements, and so is what follows them
  obtain ⟨ss, hss, rfl⟩ := exists_of_flatMap_eq_append (fun _ => rfl) hheads
    (hletters.plain_of_mem plain_scriptName) hleft
  have hhead' : ∃ c ∈ (ss.flatMap Stretch.text).head?, c = '>' ∨ isSpace c = true := by
    obtain _ | ⟨s, ss⟩ := ss
    · cases hd
    · cases s with
      | plain d' =>
        obtain rfl := Option.some.inj hd
        exact ⟨d', rfl, hhead⟩
      | element e =>
        obtain ⟨v, hv⟩ := (hisOf e (by simp [hss])).cleared.exists_text_eq
        rw [List.flatMap_cons, ← text_cleared, Stretch.cleared, Stretch.text, hv] at hd
        obtain rfl := Option.some.inj hd
        exact absurd hhead (by decide)
  have hsome : (element? scriptName ('<' :: t)).isSome = true := by
    rw [element?_isSome_iff]
    refine ⟨'<' :: letters, ss.flatMap Stretch.text, ?_, hform, hhead',
      closes_of_closes_clearScript (fun e he => hisOf e (by simp [hss, he])) hcloses⟩
    rw [← flatMap_text_scan scriptName t, hss, List.flatMap_append, flatMap_text_map_plain]
    rfl
  rw [hnone] at hsome
  cases hsome

/-- **The second search finds the same scripts, cleared.** -/
theorem scan_clearScripts (t : Text) :
    scan scriptName (clearScripts t) = (scan scriptName t).map Stretch.cleared := by
  unfold clearScripts
  induction t using scan_induction scriptName with
  | nil => simp [scan]
  | plain c t hnone ih =>
    rw [List.map_cons, ← ih]
    exact scan_cons_of_none (element?_clearScript_eq_none hnone)
  | element e rest he ih =>
    rw [List.flatMap_cons, List.map_cons, ← ih]
    exact he.cleared.scan_eq _

/-! ### Offsets -/

/-- The bodies of the elements among stretches, each with the offset at which it starts, if the
stretches start at an offset. -/
def bodiesFrom (offset : Nat) : List Stretch → List (Nat × Text)
  | [] => []
  | .plain c :: rest => bodiesFrom (offset + c.utf8Size) rest
  | .element e :: rest =>
    (offset + size e.opening, e.body) :: bodiesFrom (offset + size e.text) rest

/-- The bodies of the elements of a document, each with the offset at which it starts. -/
def bodies (name t : Text) : List (Nat × Text) := bodiesFrom 0 (scan name t)

/-- The spans of the bodies of the elements of a document. -/
def bodySpans (name t : Text) : List Span :=
  (bodies name t).map fun x => ⟨x.1, x.1 + size x.2⟩

theorem size_clearScript (s : Stretch) : size (clearScript s) = size s.text := by
  cases s with
  | plain c => rfl
  | element e => simp [clearScript, Stretch.text, Element.text]

theorem size_flatMap_clearScript (ss : List Stretch) :
    size (ss.flatMap clearScript) = size (ss.flatMap Stretch.text) := by
  induction ss with
  | nil => rfl
  | cons s ss ih => rw [List.flatMap_cons, List.flatMap_cons, size_append, size_append, ih,
      size_clearScript]

theorem bodiesFrom_map_cleared (offset : Nat) (ss : List Stretch) :
    bodiesFrom offset (ss.map Stretch.cleared) =
      (bodiesFrom offset ss).map fun x => (x.1, blankBody x.2) := by
  induction ss generalizing offset with
  | nil => rfl
  | cons s ss ih =>
    cases s with
    | plain c => exact ih _
    | element e =>
      have hsize : size e.cleared.text = size e.text := size_clearScript (.element e)
      simp only [List.map_cons, Stretch.cleared, bodiesFrom, hsize, ih]
      rfl

theorem exists_of_mem_bodiesFrom {offset : Nat} {ss : List Stretch} {x : Nat × Text}
    (h : x ∈ bodiesFrom offset ss) : ∃ before e after, ss = before ++ .element e :: after ∧
      x = (offset + size (before.flatMap Stretch.text ++ e.opening), e.body) := by
  induction ss generalizing offset with
  | nil => cases h
  | cons s ss ih =>
    cases s with
    | plain c =>
      obtain ⟨before, e, after, rfl, rfl⟩ := ih h
      refine ⟨.plain c :: before, e, after, rfl, ?_⟩
      simp [Stretch.text, Nat.add_assoc]
    | element e =>
      rcases List.mem_cons.1 h with rfl | h
      · exact ⟨[], e, ss, rfl, by simp⟩
      · obtain ⟨before, e', after, rfl, rfl⟩ := ih h
        refine ⟨.element e :: before, e', after, rfl, ?_⟩
        simp [Stretch.text, Nat.add_assoc]

/-- A byte outside of the bodies stays. -/
theorem getElem?_bytes_flatMap_clearScript (offset : Nat) {i : Nat} {ss : List Stretch}
    (h : ∀ x ∈ bodiesFrom offset ss, offset + i < x.1 ∨ x.1 + size x.2 ≤ offset + i) :
    (bytes (ss.flatMap clearScript))[i]? = (bytes (ss.flatMap Stretch.text))[i]? := by
  induction ss generalizing offset i with
  | nil => rfl
  | cons s ss ih =>
    rw [List.flatMap_cons, List.flatMap_cons]
    rcases Nat.lt_or_ge i (size s.text) with hi | hi
    · rw [getElem?_bytes_append_left (by rwa [size_clearScript]), getElem?_bytes_append_left hi]
      cases s with
      | plain c => rfl
      | element e =>
        -- the byte is one of the opening or of the closing tag
        have hbody := h _ List.mem_cons_self
        dsimp only at hbody
        rw [clearScript, Stretch.text, Element.text, List.append_assoc, List.append_assoc]
        rcases Nat.lt_or_ge i (size e.opening) with hopening | hopening
        · rw [getElem?_bytes_append_left hopening, getElem?_bytes_append_left hopening]
        · obtain ⟨j, rfl⟩ : ∃ j, i = size e.opening + (size e.body + j) :=
            ⟨i - size e.opening - size e.body, by omega⟩
          have hblank := getElem?_bytes_append (blankBody e.body) e.closing j
          rw [size_blankBody] at hblank
          rw [getElem?_bytes_append, getElem?_bytes_append, getElem?_bytes_append, hblank]
    · obtain ⟨j, rfl⟩ := Nat.exists_eq_add_of_le hi
      have hcleared := getElem?_bytes_append (clearScript s) (ss.flatMap clearScript) j
      rw [size_clearScript] at hcleared
      rw [hcleared, getElem?_bytes_append]
      apply ih (offset + size s.text)
      intro x hx
      rw [Nat.add_assoc]
      apply h x
      cases s with
      | plain c => exact hx
      | element e => exact List.mem_cons_of_mem _ hx

/-- A body stands in the document where it was found. -/
theorem slice?_of_mem_bodies {name t : Text} {x : Nat × Text} (h : x ∈ bodies name t) :
    slice? t x.1 (x.1 + size x.2) = some x.2 := by
  obtain ⟨before, e, after, hscan, rfl⟩ := exists_of_mem_bodiesFrom h
  rw [slice?_eq_some_iff]
  refine ⟨before.flatMap Stretch.text ++ e.opening,
    e.closing ++ after.flatMap Stretch.text, ?_, by simp, rfl⟩
  rw [← flatMap_text_scan name t, hscan]
  simp [Stretch.text, Element.text]

/-- What stands for the bytes of a body. -/
theorem getElem?_bytes_clearScripts {t : Text} {x : Nat × Text} (h : x ∈ bodies scriptName t)
    {front back : List UInt8} {b : UInt8} (hbody : bytes x.2 = front ++ b :: back) :
    (bytes (clearScripts t))[x.1 + front.length]? = clearedByte front b back := by
  obtain ⟨before, e, after, hscan, rfl⟩ := exists_of_mem_bodiesFrom h
  have htext : clearScripts t = (before.flatMap clearScript ++ e.opening) ++
      (blankBody e.body ++ (e.closing ++ after.flatMap clearScript)) := by
    rw [clearScripts, hscan]
    simp [clearScript]
  have hstart : size (before.flatMap clearScript ++ e.opening) =
      size (before.flatMap Stretch.text ++ e.opening) := by
    rw [size_append, size_append, size_flatMap_clearScript]
  have hlt : front.length < size (blankBody e.body) := by
    rw [size_blankBody, ← length_bytes, hbody, List.length_append, List.length_cons]
    omega
  rw [Nat.zero_add, ← hstart, htext, getElem?_bytes_append, getElem?_bytes_append_left hlt,
    getElem?_bytes_blankBody hbody]

/-- **Clearing scripts keeps the layout.**  The document with cleared scripts has the same size.  A
byte changes only if it belongs to the body of a script, and what stands for it is told by the line
of the body it is on.  The bodies found in the result have the same spans as before, and clearing
them again changes nothing. -/
theorem clearScripts_keeps_layout (t : Text) :
    size (clearScripts t) = size t ∧
    (∀ i, (∀ span ∈ bodySpans scriptName t, i < span.start ∨ span.stop ≤ i) →
      (bytes (clearScripts t))[i]? = (bytes t)[i]?) ∧
    (∀ x ∈ bodies scriptName t, slice? t x.1 (x.1 + size x.2) = some x.2 ∧
      ∀ front b back, bytes x.2 = front ++ b :: back →
        (bytes (clearScripts t))[x.1 + front.length]? = clearedByte front b back) ∧
    bodySpans scriptName (clearScripts t) = bodySpans scriptName t ∧
    clearScripts (clearScripts t) = clearScripts t := by
  have htext := flatMap_text_scan scriptName t
  refine ⟨?_, ?_, ?_, ?_, ?_⟩
  · rw [clearScripts, size_flatMap_clearScript, htext]
  · intro i hi
    have hspared : ∀ x ∈ bodiesFrom 0 (scan scriptName t),
        0 + i < x.1 ∨ x.1 + size x.2 ≤ 0 + i := by
      intro x hx
      rw [Nat.zero_add]
      exact hi _ (List.mem_map_of_mem hx)
    have hbytes := getElem?_bytes_flatMap_clearScript 0 hspared
    rwa [htext] at hbytes
  · intro x hx
    refine ⟨slice?_of_mem_bodies hx, ?_⟩
    intro front b back hbody
    exact getElem?_bytes_clearScripts hx hbody
  · rw [bodySpans, bodies, scan_clearScripts, bodiesFrom_map_cleared, List.map_map]
    simp only [Function.comp_def, size_blankBody]
    rfl
  · rw [clearScripts, scan_clearScripts, List.flatMap_map]
    exact List.flatMap_congr fun s _ => clearScript_cleared s

end ComponentLint.Markup
