import ComponentLint.Json.Parser
import ComponentLint.Proofs.Json.Numerals
import ComponentLint.Proofs.Json.Values

/-!
# Documents are read again from their text

A document without unreadable parts is read again from the text it is written as, provided that its
numbers are.  Reading has two passes, and both are followed part by part: a written part gives
certain tokens wherever it stands between others, and these tokens make up the part in whatever is
open around it.

## Main definitions

* `Json.numbers j` — the numbers in a document.
* `Json.Lexes t toks` — the text `t` gives the tokens `toks`.
* `Json.Written t toks j` — the text `t` and its tokens are the document `j`.

## Main statements

* `Json.lexes_quote`, `Json.lexes_number` — string literals and numerals.
* `Json.exists_written` — **what a document is written as makes up the document.**
* `Json.parse?_render` — it is read again from its text.
-/

namespace ComponentLint.Json

/-! ### The tokens of a text -/

/-- Read between two tokens, the text `t` gives the tokens `toks`, once its last one is settled. -/
def Lexes (t : Text) (toks : List Token) : Prop :=
  ∀ tokens, ∃ l : Lexer, t.foldlM Lexer.step ⟨tokens, .between⟩ = some l ∧
    l.settle = some (toks.reverse ++ tokens)

/-- The character `c` is the token `k`, and cannot go on a word or number. -/
structure Delimits (c : Char) (k : Token) : Prop where
  start : ∀ tokens, Lexer.start tokens c = some ⟨k :: tokens, .between⟩
  not_lower : c.isLower = false
  not_number : Lexer.isNumberChar c = false

theorem delimits_comma : Delimits ',' .comma := ⟨fun _ => rfl, rfl, rfl⟩
theorem delimits_colon : Delimits ':' .colon := ⟨fun _ => rfl, rfl, rfl⟩
theorem delimits_openBracket : Delimits '[' .openBracket := ⟨fun _ => rfl, rfl, rfl⟩
theorem delimits_closeBracket : Delimits ']' .closeBracket := ⟨fun _ => rfl, rfl, rfl⟩
theorem delimits_openBrace : Delimits '\x7b' .openBrace := ⟨fun _ => rfl, rfl, rfl⟩
theorem delimits_closeBrace : Delimits '\x7d' .closeBrace := ⟨fun _ => rfl, rfl, rfl⟩

/-- A delimiter settles what was read before it. -/
theorem Delimits.step {c : Char} {k : Token} (hc : Delimits c k) {l : Lexer} {tokens : List Token}
    (h : l.settle = some tokens) : l.step c = some ⟨k :: tokens, .between⟩ := by
  obtain ⟨read, scan⟩ := l
  have hsettle : (Lexer.settle ⟨read, scan⟩).bind (Lexer.start · c) =
      some ⟨k :: tokens, .between⟩ := by
    rw [h]
    exact hc.start tokens
  cases scan with
  | between => exact hsettle
  | word cs =>
    show (if c.isLower = true then _ else _) = _
    rw [hc.not_lower]
    exact hsettle
  | digits cs =>
    show (if Lexer.isNumberChar c = true then _ else _) = _
    rw [hc.not_number]
    exact hsettle
  | _ => cases h

theorem Lexes.nil : Lexes [] [] := fun tokens => ⟨⟨tokens, .between⟩, rfl, rfl⟩

/-- Texts on both sides of a delimiter are read on their own. -/
theorem Lexes.delimit {t t' : Text} {toks toks' : List Token} {c : Char} {k : Token}
    (h : Lexes t toks) (hc : Delimits c k) (h' : Lexes t' toks') :
    Lexes (t ++ c :: t') (toks ++ k :: toks') := by
  intro tokens
  obtain ⟨l, hl, hsettle⟩ := h tokens
  obtain ⟨l', hl', hsettle'⟩ := h' (k :: (toks.reverse ++ tokens))
  refine ⟨l', ?_, ?_⟩
  · rw [List.foldlM_append, hl]
    show List.foldlM Lexer.step l (c :: t') = _
    rw [List.foldlM_cons, hc.step hsettle]
    exact hl'
  · rw [hsettle']
    simp

/-- Between an opening and a closing delimiter, a text is read on its own. -/
theorem Lexes.enclose {t : Text} {toks : List Token} {c c' : Char} {k k' : Token}
    (hc : Delimits c k) (h : Lexes t toks) (hc' : Delimits c' k') :
    Lexes (c :: (t ++ [c'])) (k :: (toks ++ [k'])) :=
  Lexes.nil.delimit hc (h.delimit hc' Lexes.nil)

theorem tokens?_of_lexes {t : Text} {toks : List Token} (h : Lexes t toks) :
    tokens? t = some toks := by
  obtain ⟨l, hl, hsettle⟩ := h []
  rw [tokens?]
  show (t.foldlM Lexer.step ⟨[], .between⟩).bind _ = _
  rw [hl]
  show l.settle.bind _ = _
  rw [hsettle, List.append_nil]
  exact congrArg some toks.reverse_reverse

/-! ### Numerals and string literals -/

/-- Inside a numeral, characters of numbers are collected. -/
theorem foldlM_digits (tokens : List Token) {cs : List Char}
    (h : ∀ c ∈ cs, Lexer.isNumberChar c = true) (read : List Char) :
    cs.foldlM Lexer.step ⟨tokens, .digits read⟩ = some ⟨tokens, .digits (cs.reverse ++ read)⟩ := by
  induction cs generalizing read with
  | nil => rfl
  | cons c cs ih =>
    have hstep : Lexer.step ⟨tokens, .digits read⟩ c = some ⟨tokens, .digits (c :: read)⟩ :=
      if_pos (h c List.mem_cons_self)
    rw [List.foldlM_cons, hstep]
    refine (ih (fun c hc => h c (List.mem_cons_of_mem _ hc)) (c :: read)).trans ?_
    rw [List.reverse_cons, List.append_assoc]
    rfl

/-- A number that is read again from its numeral is so between other tokens. -/
theorem lexes_number {x : Number} (h : x.ReadsBack) :
    Lexes x.render.toList [.scalar (.number x)] := by
  obtain ⟨c, rest, hcs, hc, hrest⟩ := number?_chars h
  intro tokens
  -- none of the characters that start other tokens starts a numeral
  have hstart : Lexer.start tokens c = some ⟨tokens, .digits [c]⟩ := by
    unfold Lexer.start
    split
    iterate 11
      · exact absurd hc (by decide)
    · exact if_pos hc
  refine ⟨⟨tokens, .digits (rest.reverse ++ [c])⟩, ?_, ?_⟩
  · rw [hcs, List.foldlM_cons]
    show (Lexer.start tokens c).bind _ = _
    rw [hstart]
    exact foldlM_digits tokens hrest [c]
  · have hread : (rest.reverse ++ [c]).reverse = x.render.toList := by
      rw [hcs, ← List.reverse_cons, List.reverse_reverse]
    show (number? (rest.reverse ++ [c]).reverse).map _ = _
    rw [hread, h]
    rfl

theorem hexDigit?_digitChar : ∀ k < 0x20, hexDigit? (Nat.digitChar (k / 16)) = some (k / 16) ∧
    hexDigit? (Nat.digitChar (k % 16)) = some (k % 16) := by
  decide

/-- The last digit of a `\u` escape adds a character below the surrogates. -/
theorem pushUnit_toNat (l : Literal) {c : Char} (hc : c.toNat < 0x20) :
    l.pushUnit c.toNat = l.push c := by
  rw [Literal.pushUnit, if_neg (by omega), if_neg (by omega), Char.ofNat_toNat]

/-- Inside a string literal, what stands for a character is read as that character. -/
theorem foldlM_quoteChar (tokens : List Token) (l : Literal) (c : Char) :
    (quoteChar c).foldlM Lexer.step ⟨tokens, .literal l⟩ =
      some ⟨tokens, .literal (l.push c)⟩ := by
  unfold quoteChar
  split
  iterate 7
    · rfl
  · next hquote hbackslash _ _ _ _ _ =>
    split
    · next hc =>
      obtain ⟨hhigh, hlow⟩ := hexDigit?_digitChar c.toNat hc
      have hunit : ∀ (d : Char) (count value digit : Nat), hexDigit? d = some digit →
          Lexer.step ⟨tokens, .unit l count value⟩ d = some (if count = 3 then
            ⟨tokens, .literal (l.pushUnit (16 * value + digit))⟩
          else ⟨tokens, .unit l (count + 1) (16 * value + digit)⟩) := by
        intro d count value digit hd
        show (hexDigit? d).map _ = _
        rw [hd]
        rfl
      have hvalue : 16 * (16 * 0 + c.toNat / 16) + c.toNat % 16 = c.toNat := by omega
      -- the first two digits are zeros
      show List.foldlM Lexer.step ⟨tokens, .unit l 2 0⟩ [_, _] = _
      rw [List.foldlM_cons, hunit _ 2 0 _ hhigh]
      show List.foldlM Lexer.step ⟨tokens, .unit l 3 _⟩ [_] = _
      rw [List.foldlM_cons, hunit _ 3 _ _ hlow, if_pos rfl, hvalue, pushUnit_toNat l hc]
      rfl
    · next hc =>
      have hstep : Lexer.step ⟨tokens, .literal l⟩ c = some ⟨tokens, .literal (l.push c)⟩ := by
        show (if c = '\x22' then _ else if c = '\\' then _ else if c.toNat < 0x20 then _ else _) = _
        rw [if_neg hquote, if_neg hbackslash, if_neg hc]
      rw [List.foldlM_cons, hstep]
      rfl

/-- Inside a string literal, characters are collected. -/
theorem foldlM_flatMap_quoteChar (tokens : List Token) (cs read : List Char) :
    (cs.flatMap quoteChar).foldlM Lexer.step ⟨tokens, .literal ⟨read, none, true⟩⟩ =
      some ⟨tokens, .literal ⟨cs.reverse ++ read, none, true⟩⟩ := by
  induction cs generalizing read with
  | nil => rfl
  | cons c cs ih =>
    rw [List.flatMap_cons, List.foldlM_append, foldlM_quoteChar]
    refine (ih (c :: read)).trans ?_
    rw [List.reverse_cons, List.append_assoc]
    rfl

/-- A string is read again from its literal. -/
theorem lexes_quote (s : String) : Lexes (quote s).toList [.literal (some s)] := by
  intro tokens
  have htext : (quote s).toList = '\x22' :: (s.toList.flatMap quoteChar ++ ['\x22']) := by
    simp only [quote, String.toList_append, String.toList_ofList]
    rfl
  have hcontent : Literal.content ⟨s.toList.reverse, none, true⟩ = some s := by
    show some (String.ofList s.toList.reverse.reverse) = some s
    rw [List.reverse_reverse, String.ofList_toList]
  refine ⟨⟨.literal (some s) :: tokens, .between⟩, ?_, rfl⟩
  rw [htext]
  show List.foldlM Lexer.step ⟨tokens, .literal ⟨[], none, true⟩⟩ (_ ++ _) = _
  rw [List.foldlM_append, foldlM_flatMap_quoteChar, List.append_nil]
  show some (Lexer.mk (.literal (Literal.content ⟨s.toList.reverse, none, true⟩) :: tokens)
    .between) = _
  rw [hcontent]

/-! ### Putting a document together -/

mutual

/-- The numbers in a document. -/
def numbers : Json → List Number
  | .number x => [x]
  | .array items => itemNumbers items
  | .object members => memberNumbers members
  | _ => []

/-- The numbers in the items of an array. -/
def itemNumbers : List Json → List Number
  | [] => []
  | j :: rest => numbers j ++ itemNumbers rest

/-- The numbers in the members of an object. -/
def memberNumbers : List (String × Json) → List Number
  | [] => []
  | (_, j) :: rest => numbers j ++ memberNumbers rest

end

theorem numbers_subset_itemNumbers {items : List Json} {j : Json} (h : j ∈ items) :
    numbers j ⊆ itemNumbers items := by
  induction items with
  | nil => cases h
  | cons first items ih =>
    rw [itemNumbers]
    rcases List.mem_cons.1 h with rfl | h
    · exact List.subset_append_left ..
    · exact List.subset_append_of_subset_right _ (ih h)

theorem memberNumbers_eq (members : List (String × Json)) :
    memberNumbers members = itemNumbers (members.map Prod.snd) := by
  induction members with
  | nil => rfl
  | cons m members ih => rw [memberNumbers, List.map_cons, itemNumbers, ih]

/-- The text `t` gives the tokens `toks`, and these make up the document `j` in whatever is open
around it.  The first token does not close an array. -/
structure Written (t : Text) (toks : List Token) (j : Json) : Prop where
  lexes : Lexes t toks
  builds : ∀ stack, toks.foldlM Builder.step (.value stack) = some (.finish j stack)
  opens : ∀ stack, toks.foldlM Builder.step (.firstItem stack) =
    toks.foldlM Builder.step (.value (.array [] :: stack))

theorem foldlM_cons_of_step {b b' : Builder} {k : Token} (h : b.step k = some b')
    (toks : List Token) : (k :: toks).foldlM Builder.step b = toks.foldlM Builder.step b' := by
  rw [List.foldlM_cons, h]
  rfl

theorem foldlM_append_of_foldlM {b b' : Builder} {toks : List Token}
    (h : toks.foldlM Builder.step b = some b') (later : List Token) :
    (toks ++ later).foldlM Builder.step b = later.foldlM Builder.step b' := by
  rw [List.foldlM_append, h]
  rfl

theorem renderItems_eq (items : List Json) : renderItems items = items.map render := by
  induction items with
  | nil => rfl
  | cons j items ih => rw [renderItems, List.map_cons, ih]

/-- The text of a member. -/
def renderMember (m : String × Json) : String := quote m.1 ++ ":" ++ render m.2

theorem renderMembers_eq (members : List (String × Json)) :
    renderMembers members = members.map renderMember := by
  induction members with
  | nil => rfl
  | cons m members ih => rw [renderMembers, List.map_cons, ih, renderMember]

/-- The text of parts with commas between them. -/
def commaSeparated (parts : List String) : Text := (",".intercalate parts).toList

theorem commaSeparated_singleton (part : String) : commaSeparated [part] = part.toList := by
  rw [commaSeparated, String.toList_intercalate]
  exact List.intercalate_singleton

theorem commaSeparated_cons_cons (part next : String) (rest : List String) :
    commaSeparated (part :: next :: rest) =
      part.toList ++ ',' :: commaSeparated (next :: rest) := by
  rw [commaSeparated, commaSeparated, String.toList_intercalate, String.toList_intercalate]
  simp only [List.map_cons]
  rw [List.intercalate_cons_cons, List.append_assoc]
  rfl

/-- The items of an array, with commas between them. -/
theorem exists_items {j : Json} {items : List Json}
    (h : ∀ item ∈ j :: items, ∃ toks, Written item.render.toList toks item) :
    ∃ toks, Lexes (commaSeparated ((j :: items).map render)) toks ∧
      (∀ stack read, toks.foldlM Builder.step (.value (.array read :: stack)) =
        some (.afterItem ((j :: items).reverse ++ read) stack)) ∧
      ∀ stack, toks.foldlM Builder.step (.firstItem stack) =
        toks.foldlM Builder.step (.value (.array [] :: stack)) := by
  induction items generalizing j with
  | nil =>
    obtain ⟨toks, hj⟩ := h j List.mem_cons_self
    refine ⟨toks, ?_, fun stack read => hj.builds _, hj.opens⟩
    rw [List.map_singleton, commaSeparated_singleton]
    exact hj.lexes
  | cons next items ih =>
    obtain ⟨toks, hj⟩ := h j List.mem_cons_self
    obtain ⟨later, hlexes, hbuilds, -⟩ := ih fun item hitem => h item (List.mem_cons_of_mem _ hitem)
    -- what is read so far lies above the comma; only the first token decides whether the array is
    -- empty
    refine ⟨toks ++ .comma :: later, ?_, fun stack read => ?_, fun stack => ?_⟩
    · rw [List.map_cons, List.map_cons, commaSeparated_cons_cons]
      exact hj.lexes.delimit delimits_comma hlexes
    · rw [foldlM_append_of_foldlM (hj.builds _)]
      refine (foldlM_cons_of_step rfl later).trans ((hbuilds stack (j :: read)).trans ?_)
      rw [List.reverse_cons (a := j), List.append_assoc]
      rfl
    · rw [List.foldlM_append, List.foldlM_append, hj.opens]

theorem lexes_renderMember {m : String × Json} {toks : List Token}
    (h : Written m.2.render.toList toks m.2) :
    Lexes (renderMember m).toList (.literal (some m.1) :: .colon :: toks) := by
  have htext : (renderMember m).toList = (quote m.1).toList ++ ':' :: m.2.render.toList := by
    rw [renderMember, String.toList_append, String.toList_append, List.append_assoc]
    rfl
  rw [htext]
  exact (lexes_quote m.1).delimit delimits_colon h.lexes

theorem builds_member {m : String × Json} {toks : List Token}
    (h : Written m.2.render.toList toks m.2) (read : List (Option String × Json))
    (stack : List Frame) :
    (Token.literal (some m.1) :: .colon :: toks).foldlM Builder.step (.nextName read stack) =
      some (.afterMember ((some m.1, m.2) :: read) stack) :=
  (foldlM_cons_of_step rfl _).trans ((foldlM_cons_of_step rfl _).trans (h.builds _))

/-- The members of an object, with commas between them. -/
theorem exists_members {m : String × Json} {members : List (String × Json)}
    (h : ∀ member ∈ m :: members, ∃ toks, Written member.2.render.toList toks member.2) :
    ∃ toks, Lexes (commaSeparated ((m :: members).map renderMember)) toks ∧
      (∀ stack read, toks.foldlM Builder.step (.nextName read stack) =
        some (.afterMember (((m :: members).map fun m => (some m.1, m.2)).reverse ++ read) stack)) ∧
      ∀ stack, toks.foldlM Builder.step (.firstName stack) =
        toks.foldlM Builder.step (.nextName [] stack) := by
  induction members generalizing m with
  | nil =>
    obtain ⟨toks, hm⟩ := h m List.mem_cons_self
    refine ⟨_, ?_, fun stack read => builds_member hm read stack, fun stack => rfl⟩
    rw [List.map_singleton, commaSeparated_singleton]
    exact lexes_renderMember hm
  | cons next members ih =>
    obtain ⟨toks, hm⟩ := h m List.mem_cons_self
    obtain ⟨later, hlexes, hbuilds, -⟩ := ih fun item hitem => h item (List.mem_cons_of_mem _ hitem)
    refine ⟨(.literal (some m.1) :: .colon :: toks) ++ .comma :: later, ?_, fun stack read => ?_,
      fun stack => rfl⟩
    · rw [List.map_cons, List.map_cons, commaSeparated_cons_cons]
      exact (lexes_renderMember hm).delimit delimits_comma hlexes
    · rw [foldlM_append_of_foldlM (builds_member hm read stack)]
      refine (foldlM_cons_of_step rfl later).trans ((hbuilds stack _).trans ?_)
      rw [List.map_cons (a := m), List.reverse_cons, List.append_assoc]
      rfl

theorem ofMembers_some (members : List (String × Json)) :
    ofMembers (members.map fun m => (some m.1, m.2)) = .object members := by
  have hread : (members.map fun m => (some m.1, m.2)).mapM
      (fun member : Option String × Json => member.1.map (·, member.2)) = some members := by
    rw [mapM_eq_some_iff, List.forall₂_map_left_iff]
    exact List.forall₂_same.2 fun _ _ => rfl
  rw [ofMembers, hread]

/-- An array is written as its items are. -/
theorem exists_written_array {items : List Json}
    (h : ∀ item ∈ items, ∃ toks, Written item.render.toList toks item) :
    ∃ toks, Written (render (.array items)).toList toks (.array items) := by
  have htext : (render (.array items)).toList =
      '[' :: (commaSeparated (items.map render) ++ [']']) := by
    rw [render, String.toList_append, String.toList_append, renderItems_eq]
    rfl
  rw [htext]
  cases items with
  | nil =>
    exact ⟨_, .enclose delimits_openBracket .nil delimits_closeBracket, fun _ => rfl, fun _ => rfl⟩
  | cons first items =>
    obtain ⟨toks, hlexes, hbuilds, hopens⟩ := exists_items h
    refine ⟨_, .enclose delimits_openBracket hlexes delimits_closeBracket, fun stack => ?_,
      fun _ => rfl⟩
    have hread : toks.foldlM Builder.step (.firstItem stack) =
        some (.afterItem (first :: items).reverse stack) := by
      rw [hopens, hbuilds stack [], List.append_nil]
    refine (foldlM_cons_of_step rfl _).trans ((foldlM_append_of_foldlM hread _).trans ?_)
    refine (foldlM_cons_of_step rfl _).trans ?_
    rw [List.reverse_reverse]
    rfl

/-- An object is written as its members are. -/
theorem exists_written_object {members : List (String × Json)}
    (h : ∀ m ∈ members, ∃ toks, Written m.2.render.toList toks m.2) :
    ∃ toks, Written (render (.object members)).toList toks (.object members) := by
  have htext : (render (.object members)).toList =
      '\x7b' :: (commaSeparated (members.map renderMember) ++ ['\x7d']) := by
    rw [render, String.toList_append, String.toList_append, renderMembers_eq]
    rfl
  rw [htext]
  cases members with
  | nil =>
    exact ⟨_, .enclose delimits_openBrace .nil delimits_closeBrace, fun _ => rfl, fun _ => rfl⟩
  | cons first members =>
    obtain ⟨toks, hlexes, hbuilds, hopens⟩ := exists_members h
    refine ⟨_, .enclose delimits_openBrace hlexes delimits_closeBrace, fun stack => ?_,
      fun _ => rfl⟩
    have hread : toks.foldlM Builder.step (.firstName stack) = some (.afterMember
        ((first :: members).map fun m => (some m.1, m.2)).reverse stack) := by
      rw [hopens, hbuilds stack [], List.append_nil]
    refine (foldlM_cons_of_step rfl _).trans ((foldlM_append_of_foldlM hread _).trans ?_)
    refine (foldlM_cons_of_step rfl _).trans ?_
    rw [List.reverse_reverse, ofMembers_some]
    rfl

/-- **What a document is written as makes up the document**, if all its parts are readable and its
numbers are read again. -/
theorem exists_written {n : Nesting} {j : Json} (hreadable : (j.value? n).isSome)
    (hnumbers : ∀ x ∈ j.numbers, x.ReadsBack) : ∃ toks, Written j.render.toList toks j := by
  induction j using Json.induction generalizing n with
  | leaf j hdepth =>
    cases j with
    | unreadable => cases hreadable
    | array | object => cases hdepth
    | null =>
      exact ⟨[.scalar .null], fun _ => ⟨_, rfl, rfl⟩, fun _ => rfl, fun _ => rfl⟩
    | bool b =>
      refine ⟨[.scalar (.bool b)], ?_, fun _ => rfl, fun _ => rfl⟩
      cases b <;> exact fun _ => ⟨_, rfl, rfl⟩
    | number x =>
      exact ⟨[.scalar (.number x)], lexes_number (hnumbers x List.mem_cons_self), fun _ => rfl,
        fun _ => rfl⟩
    | string s =>
      exact ⟨[.literal (some s)], lexes_quote s, fun _ => rfl, fun _ => rfl⟩
  | array items ih =>
    obtain ⟨v, hv⟩ := Option.isSome_iff_exists.1 hreadable
    obtain ⟨inner, values, -, hvalues, -⟩ := value?_array_eq_some_iff.1 hv
    refine exists_written_array fun item hitem => ?_
    obtain ⟨w, -, hw⟩ := exists_of_mem_right hvalues.flip hitem
    exact ih item hitem (Option.isSome_of_eq_some hw) fun x hx =>
      hnumbers x (numbers_subset_itemNumbers hitem hx)
  | object members ih =>
    obtain ⟨v, hv⟩ := Option.isSome_iff_exists.1 hreadable
    obtain ⟨inner, values, -, hvalues, -⟩ := value?_object_eq_some_iff.1 hv
    refine exists_written_object fun m hm => ?_
    obtain ⟨w, -, -, hw⟩ := exists_of_mem_right hvalues.flip hm
    refine ih m hm (Option.isSome_of_eq_some hw) fun x hx => hnumbers x ?_
    rw [numbers, memberNumbers_eq]
    exact numbers_subset_itemNumbers (List.mem_map_of_mem hm) hx

/-- A document is read again from its text, if all its parts are readable and its numbers are read
again. -/
theorem parse?_render {n : Nesting} {j : Json} (hreadable : (j.value? n).isSome)
    (hnumbers : ∀ x ∈ j.numbers, x.ReadsBack) : parse? j.render.toList = some j := by
  obtain ⟨toks, hwritten⟩ := exists_written hreadable hnumbers
  rw [parse?, tokens?_of_lexes hwritten.lexes]
  show (toks.foldlM Builder.step (.value [])).bind _ = _
  rw [hwritten.builds []]
  rfl

end ComponentLint.Json
