import ComponentLint.Proofs.Block.Site
import ComponentLint.Template.Script

/-!
# The outline of a script

The scaffolding of a template script opens and closes scopes and parentheses.  Reading the pieces of
a script in order, one can say at each fragment what is open there, and whether everything that is
closed was opened last.  This is the outline of the script.  It also tells what the block holds
above each fragment, so that the fragments of the outline are the placements of the written block.

## Main definitions

* `Piece.text d piece`, `Piece.range? piece` — what a piece adds, and the range it needs.
* `fragments pieces` — the ranges and flags of the fragments among pieces.
* `Bracket`, `Bracket.follow?` — what scaffolding opens, and what is open behind it.
* `Spot`, `outline? d above opened pieces` — the fragments among pieces, with what is open there.
* `Balanced d opened pieces visits` — pieces that close what they open, and the fragments in them.

## Main statements

* `Block.write_range` — **writing fails at the first range that the document does not have.**
* `Block.write_outline` — **the placements of a written script are the fragments of its outline.**
* `Block.write_fragments` — **a block that was written has one placement for each fragment.**
* `Balanced.append`, `Balanced.enclosed` — balanced pieces in a row and between brackets.
-/

namespace ComponentLint

/-! ### Writing pieces -/

/-- The text that a piece adds to a block. -/
def Piece.text (document : Text) : Piece → Text
  | .scaffold text => text
  | .copy range => (range.slice? document).getD []
  | .fragment range _ => '\n' :: ((outdent ((range.slice? document).getD [])).text ++ ['\n'])

/-- The range of the document that a piece needs. -/
def Piece.range? : Piece → Option Span
  | .scaffold _ => none
  | .copy range => some range
  | .fragment range _ => some range

/-- The ranges of the document that pieces need. -/
def ranges (pieces : List Piece) : List Span := pieces.filterMap Piece.range?

/-- The range and the flags of a fragment. -/
def Piece.fragment? : Piece → Option (Span × Flags)
  | .fragment range flags => some (range, flags)
  | _ => none

/-- The fragments among pieces. -/
def fragments (pieces : List Piece) : List (Span × Flags) := pieces.filterMap Piece.fragment?

@[simp] theorem fragments_append (front back : List Piece) :
    fragments (front ++ back) = fragments front ++ fragments back :=
  List.filterMap_append

@[simp] theorem ranges_append (front back : List Piece) :
    ranges (front ++ back) = ranges front ++ ranges back :=
  List.filterMap_append

namespace Block

/-- A piece with a range that the document does not have is refused. -/
theorem add?_eq_error {b : Block} {document : Text} {piece : Piece} {range : Span}
    (hrange : piece.range? = some range) (h : range.slice? document = none) :
    b.add? document piece = .error range := by
  cases piece with
  | scaffold => cases hrange
  | copy =>
    cases hrange
    rw [add?, h]
  | fragment _ flags =>
    cases hrange
    rw [add?, place?_eq_none flags h]

/-- A piece is added if the document has the range it needs. -/
theorem exists_add?_eq_ok (b : Block) (document : Text) (piece : Piece)
    (h : ∀ range ∈ piece.range?, range.slice? document ≠ none) :
    ∃ b', b.add? document piece = .ok b' := by
  cases piece with
  | scaffold => exact ⟨_, rfl⟩
  | copy range =>
    obtain ⟨t, ht⟩ := Option.ne_none_iff_exists'.1 (h range rfl)
    exact ⟨b.append t, by rw [add?, ht]⟩
  | fragment range flags =>
    obtain ⟨t, ht⟩ := Option.ne_none_iff_exists'.1 (h range rfl)
    obtain ⟨b', p, hb', -⟩ := b.exists_site_of_place? ⟨document, range, flags, t, ht⟩
    exact ⟨b', by rw [add?, hb']⟩

/-- **Writing fails at the first range that the document does not have**, and only there. -/
theorem write_range (b : Block) (document : Text) (pieces : List Piece) :
    (b.write document pieces).2 =
      (ranges pieces).find? fun range => (range.slice? document).isNone := by
  induction pieces generalizing b with
  | nil => rfl
  | cons piece pieces ih =>
    rw [write, ranges, List.filterMap_cons]
    cases hrange : piece.range? with
    | none =>
      -- scaffolding is always added
      obtain ⟨b', hb'⟩ := b.exists_add?_eq_ok document piece (by rw [hrange]; rintro _ ⟨⟩)
      rw [hb']
      exact ih b'
    | some range =>
      cases hslice : range.slice? document with
      | none =>
        rw [add?_eq_error hrange hslice]
        exact (List.find?_cons_of_pos (by rw [hslice]; rfl)).symm
      | some t =>
        obtain ⟨b', hb'⟩ := b.exists_add?_eq_ok document piece (by
          rw [hrange]
          rintro _ ⟨⟩
          rw [hslice]
          exact Option.some_ne_none t)
        rw [hb', List.find?_cons_of_neg (by rw [hslice]; exact Bool.false_ne_true)]
        exact ih b'

end Block

/-! ### Outlines -/

/-- What the scaffolding of a script opens. -/
inductive Bracket where
  /-- A scope, with the text that opens it. -/
  | scope (opening : Text)
  | parenthesis
  deriving DecidableEq, Repr

/-- What is open behind scaffolding, the innermost first.  It opens or closes one bracket; nothing
is said of other text, or if the bracket it closes was not the last one opened. -/
def Bracket.follow? (opened : List Bracket) (text : Text) : Option (List Bracket) :=
  if "\x7blet ".toList.isPrefixOf text then some (.scope text :: opened)
  else
    match text, opened with
    | ['('], _ => some (.parenthesis :: opened)
    | [')', ';'], .parenthesis :: rest => some rest
    | ['\x7d'], .scope _ :: rest => some rest
    | _, _ => none

/-- A fragment among pieces. -/
structure Spot where
  /-- The text of the block above the fragment. -/
  above : Text
  range : Span
  flags : Flags
  /-- What is open around the fragment, the innermost first. -/
  opened : List Bracket
  deriving DecidableEq, Repr

/-- The fragments among pieces that follow the text `above` with the brackets `opened` open, if
brackets are closed in their order and none is left open. -/
def outline? (document : Text) (above : Text) (opened : List Bracket) :
    List Piece → Option (List Spot)
  | [] => if opened.isEmpty then some [] else none
  | .scaffold text :: rest => do
    outline? document (above ++ text) (← Bracket.follow? opened text) rest
  | .copy _ :: _ => none
  | .fragment range flags :: rest => do
    let spots ← outline? document (above ++ (Piece.fragment range flags).text document) opened rest
    return ⟨above, range, flags, opened⟩ :: spots

/-- The ranges of a script are those of its fragments. -/
theorem ranges_eq_of_outline? {document above : Text} {opened : List Bracket}
    {pieces : List Piece} {spots : List Spot}
    (h : outline? document above opened pieces = some spots) :
    ranges pieces = spots.map Spot.range := by
  induction pieces generalizing above opened spots with
  | nil =>
    rw [outline?] at h
    obtain ⟨-, hspots⟩ := Option.ite_none_right_eq_some.1 h
    cases hspots
    rfl
  | cons piece pieces ih =>
    cases piece with
    | copy => cases h
    | scaffold text =>
      rw [outline?] at h
      obtain ⟨opened', -, hrest⟩ := Option.bind_eq_some_iff.1 h
      exact ih hrest
    | fragment range flags =>
      rw [outline?] at h
      obtain ⟨later, hlater, hspots⟩ := Option.bind_eq_some_iff.1 h
      cases hspots
      exact congrArg (range :: ·) (ih hlater)

/-- Placement `p` is that of the fragment at a spot. -/
structure Spot.Placed (s : Spot) (p : Placement) : Prop where
  range_eq : p.range = s.range
  flags_eq : p.flags = s.flags
  /-- The fragment starts on the line below what is above it. -/
  blockLead_eq : p.blockLead = Extent.of (s.above ++ ['\n'])

namespace Block

/-- A fragment is added to the text of the block, with a placement. -/
theorem add?_fragment (b : Block) {document fragment : Text} {range : Span} (flags : Flags)
    (opened : List Bracket) (h : range.slice? document = some fragment) :
    ∃ b' p, b.add? document (.fragment range flags) = .ok b' ∧
      b'.code = b.code ++ (Piece.fragment range flags).text document ∧
      b'.placements = b.placements ++ [p] ∧ (Spot.mk b.code range flags opened).Placed p := by
  let ins : Insertion := ⟨document, range, flags, fragment, h⟩
  obtain ⟨lead, rest, hdoc, hstart, hstop⟩ := ins.exists_lead
  have hcut : Text.cut? document range.start = some (lead, fragment ++ rest) := by
    rw [Text.cut?_eq_some_iff]
    exact ⟨by rw [← List.append_assoc]; exact hdoc, hstart.symm⟩
  refine ⟨⟨b.code ++ ['\n'] ++ ins.text ++ ['\n'], b.placements ++ [ins.placement lead b.code]⟩,
    ins.placement lead b.code, ?_, ?_, rfl, rfl, rfl, rfl⟩
  · rw [add?, place?, hcut, h]
    rfl
  · rw [Piece.text, h]
    simp only [List.append_assoc, List.cons_append, List.nil_append]
    rfl

/-- A fragment adds one placement, and other pieces none. -/
theorem placements_of_add? {b b' : Block} {document : Text} {piece : Piece}
    (h : b.add? document piece = .ok b') :
    ∃ added, b'.placements = b.placements ++ added ∧
      added.map (fun p => (p.range, p.flags)) = piece.fragment?.toList := by
  cases piece with
  | scaffold text =>
    cases h
    exact ⟨[], (List.append_nil _).symm, rfl⟩
  | copy range =>
    rw [add?] at h
    split at h
    · cases h
      exact ⟨[], (List.append_nil _).symm, rfl⟩
    · cases h
  | fragment range flags =>
    cases hslice : range.slice? document with
    | none =>
      rw [add?_eq_error rfl hslice] at h
      cases h
    | some fragment =>
      obtain ⟨b'', p, hb'', -, hplacements, hplaced⟩ := b.add?_fragment flags [] hslice
      rw [h] at hb''
      cases hb''
      refine ⟨[p], hplacements, ?_⟩
      rw [List.map_singleton, hplaced.range_eq, hplaced.flags_eq]
      rfl

/-- **The placements of a written script are the fragments of its outline**, in their order, and
its text is that of the pieces. -/
theorem write_outline {b : Block} {document : Text} {opened : List Bracket} {pieces : List Piece}
    {spots : List Spot} (houtline : outline? document b.code opened pieces = some spots)
    (h : ∀ range ∈ ranges pieces, range.slice? document ≠ none) :
    (b.write document pieces).1.code = b.code ++ pieces.flatMap (Piece.text document) ∧
      ∃ placements, (b.write document pieces).1.placements = b.placements ++ placements ∧
        List.Forall₂ Spot.Placed spots placements := by
  -- the text above the next fragment is the text of the block so far
  induction pieces generalizing b opened spots with
  | nil =>
    rw [outline?] at houtline
    obtain ⟨-, hspots⟩ := Option.ite_none_right_eq_some.1 houtline
    cases hspots
    exact ⟨(List.append_nil _).symm, [], (List.append_nil _).symm, .nil⟩
  | cons piece pieces ih =>
    have hrest : ∀ range ∈ ranges pieces, range.slice? document ≠ none := by
      intro range hrange
      refine h range ?_
      rw [← List.singleton_append, ranges_append]
      exact List.mem_append_right _ hrange
    cases piece with
    | copy => cases houtline
    | scaffold text =>
      rw [outline?] at houtline
      obtain ⟨opened', -, houtline⟩ := Option.bind_eq_some_iff.1 houtline
      have ⟨hcode, placements, hplacements, hspots⟩ := ih (b := b.append text) houtline hrest
      refine ⟨?_, placements, hplacements, hspots⟩
      rw [List.flatMap_cons, ← List.append_assoc]
      exact hcode
    | fragment range flags =>
      rw [outline?] at houtline
      obtain ⟨later, hlater, hspots⟩ := Option.bind_eq_some_iff.1 houtline
      cases hspots
      obtain ⟨fragment, hslice⟩ := Option.ne_none_iff_exists'.1 (h range List.mem_cons_self)
      obtain ⟨b', p, hb', hcode', hplacements', hplaced⟩ := b.add?_fragment flags opened hslice
      rw [← hcode'] at hlater
      have ⟨hcode, placements, hplacements, hspots⟩ := ih hlater hrest
      rw [write, hb']
      refine ⟨?_, p :: placements, ?_, .cons hplaced hspots⟩
      · rw [List.flatMap_cons, ← List.append_assoc, ← hcode']
        exact hcode
      · rw [List.append_cons, ← hplacements']
        exact hplacements

/-- **A block that was written has one placement for each fragment**, in their order. -/
theorem write_fragments {b : Block} {document : Text} {pieces : List Piece}
    (h : (b.write document pieces).2 = none) :
    ∃ placements, (b.write document pieces).1.placements = b.placements ++ placements ∧
      placements.map (fun p => (p.range, p.flags)) = fragments pieces := by
  induction pieces generalizing b with
  | nil => exact ⟨[], (List.append_nil _).symm, rfl⟩
  | cons piece pieces ih =>
    rw [write] at h ⊢
    cases hadd : b.add? document piece with
    | error range =>
      rw [hadd] at h
      cases h
    | ok b' =>
      rw [hadd] at h
      obtain ⟨placements, hwritten, hfragments⟩ := ih h
      obtain ⟨added, hadded, hpiece⟩ := placements_of_add? hadd
      refine ⟨added ++ placements, ?_, ?_⟩
      · rw [← List.append_assoc, ← hadded]
        exact hwritten
      · rw [List.map_append, hfragments, hpiece]
        cases piece <;> rfl

end Block

/-! ### Balanced pieces -/

/-- What a script tells of a fragment: its range, whether it is an expression of the template, and
what is open around it, the innermost first. -/
structure Visit where
  range : Span
  template : Bool
  opened : List Bracket
  deriving DecidableEq, Repr

/-- What a spot tells of its fragment. -/
def Spot.visit (s : Spot) : Visit := ⟨s.range, s.flags.template, s.opened⟩

/-- Pieces that close what they open and nothing else, with the fragments in them when the brackets
`opened` are open before them.  They can be skipped in any outline. -/
def Balanced (document : Text) (opened : List Bracket) (pieces : List Piece)
    (visits : List Visit) : Prop :=
  ∀ above rest, ∃ spots, spots.map Spot.visit = visits ∧
    outline? document above opened (pieces ++ rest) =
      (outline? document (above ++ pieces.flatMap (Piece.text document)) opened rest).map
        (spots ++ ·)

namespace Balanced

variable {document : Text} {opened : List Bracket} {pieces pieces' : List Piece}
  {visits visits' : List Visit}

theorem nil : Balanced document opened [] [] := by
  intro above rest
  refine ⟨[], rfl, ?_⟩
  rw [List.flatMap_nil, List.append_nil, List.nil_append]
  exact Option.map_id'.symm

theorem append (h : Balanced document opened pieces visits)
    (h' : Balanced document opened pieces' visits') :
    Balanced document opened (pieces ++ pieces') (visits ++ visits') := by
  intro above rest
  obtain ⟨spots, hvisits, hspots⟩ := h above (pieces' ++ rest)
  obtain ⟨spots', hvisits', hspots'⟩ :=
    h' (above ++ pieces.flatMap (Piece.text document)) rest
  refine ⟨spots ++ spots', by rw [List.map_append, hvisits, hvisits'], ?_⟩
  rw [List.append_assoc, hspots, hspots', Option.map_map, List.flatMap_append, List.append_assoc]
  congr 1
  funext later
  exact (List.append_assoc ..).symm

/-- A fragment alone. -/
theorem fragment (range : Span) (flags : Flags) :
    Balanced document opened [.fragment range flags] [⟨range, flags.template, opened⟩] := by
  intro above rest
  refine ⟨[⟨above, range, flags, opened⟩], rfl, ?_⟩
  rw [List.singleton_append, outline?, List.flatMap_singleton]
  exact Option.map_eq_bind.symm

/-- Between an opening and a closing text stands what is balanced inside. -/
theorem enclosed {opening closing : Text} {bracket : Bracket}
    (hopening : Bracket.follow? opened opening = some (bracket :: opened))
    (hclosing : Bracket.follow? (bracket :: opened) closing = some opened)
    (h : Balanced document (bracket :: opened) pieces visits) :
    Balanced document opened (.scaffold opening :: (pieces ++ [.scaffold closing])) visits := by
  intro above rest
  -- the closing text is what follows the balanced pieces
  obtain ⟨spots, hvisits, hspots⟩ := h (above ++ opening) (.scaffold closing :: rest)
  refine ⟨spots, hvisits, ?_⟩
  rw [List.cons_append, List.append_assoc, List.singleton_append, outline?, hopening]
  refine hspots.trans ?_
  rw [outline?, hclosing]
  simp only [List.flatMap_cons, List.flatMap_append, List.flatMap_nil, Piece.text,
    List.append_assoc, List.append_nil, Option.bind_eq_bind, Option.bind_some]

/-- Balanced pieces have an outline. -/
theorem exists_outline (h : Balanced document [] pieces visits) (above : Text) :
    ∃ spots, outline? document above [] pieces = some spots ∧ spots.map Spot.visit = visits := by
  obtain ⟨spots, hvisits, hspots⟩ := h above []
  refine ⟨spots, ?_, hvisits⟩
  rw [List.append_nil] at hspots
  rw [hspots, outline?]
  exact congrArg some (List.append_nil spots)

end Balanced

/-- The text that opens a scope is told apart from the other scaffolding. -/
theorem Bracket.follow?_openScope (opened : List Bracket) (names : List String) :
    follow? opened (openScope names) = some (.scope (openScope names) :: opened) := by
  unfold follow?
  rw [if_pos]
  rw [List.isPrefixOf_iff_prefix, openScope, String.toList_append, String.toList_append,
    List.append_assoc]
  exact List.prefix_append ..

end ComponentLint
