import ComponentLint.Lint.Blocks
import ComponentLint.Proofs.LineTable.Returns
import ComponentLint.Proofs.Lint.Transpile
import ComponentLint.Proofs.Template.Walk

/-!
# Scaffolding behind copied scripts

A block may hold verbatim copies of the scripts of a component, with scaffolding behind them.  A
script may end with a line comment, and what is written on the same line belongs to the comment.
In the block of the instance script the fragment that follows a copy starts on a line of its own.
In the block of the template a line feed is written behind the module script, unless there is
neither an instance script nor a variable.  Nothing else stands between a copy and the scaffolding
behind it: where it is on a line of its own depends on how the script ends.

## Main definitions

* `piecesText d pieces` — the text of a block made of pieces.
* `CopiesApart d pieces` — what is written behind a copy starts on a line of its own.
* `BlockKind`, `BlockKind.pieces?`, `BlockKind.parts` — the blocks of a component and their pieces.
* `BlockKind.exposed` — the scripts with scaffolding right behind their copies.

## Main statements

* `Block.code_of_ofPieces` — the text of a block is that of its pieces.
* `Node.pieces_begin` — the script of a template starts with a bracket.
* `BlockKind.copiesApart_iff` — which scripts have to end with a line feed.
* `scaffolding_apart_iff` — **scaffolding stays off the lines of copied scripts exactly if the
  exposed scripts end with a line feed.**
* `scaffolding_in_comment` — a script whose last line is a comment.
-/

namespace ComponentLint

open Text

/-! ### The text of a block -/

/-- The text that pieces add to a block, one behind the other. -/
def piecesText (document : Text) (pieces : List Piece) : Text :=
  pieces.flatMap (Piece.text document)

theorem piecesText_cons (document : Text) (piece : Piece) (rest : List Piece) :
    piecesText document (piece :: rest) = piece.text document ++ piecesText document rest :=
  List.flatMap_cons

theorem piecesText_append (document : Text) (front back : List Piece) :
    piecesText document (front ++ back) = piecesText document front ++ piecesText document back :=
  List.flatMap_append

namespace Block

/-- A piece adds its text. -/
theorem code_of_add? {b b' : Block} {document : Text} {piece : Piece}
    (h : b.add? document piece = .ok b') : b'.code = b.code ++ piece.text document := by
  cases piece with
  | scaffold text =>
    cases h
    rfl
  | copy range =>
    rw [add?] at h
    split at h
    · next text htext =>
      cases h
      rw [Piece.text, htext]
      rfl
    · cases h
  | fragment range flags =>
    cases hslice : range.slice? document with
    | none =>
      rw [add?_eq_error rfl hslice] at h
      cases h
    | some fragment =>
      obtain ⟨b'', p, hb'', hcode, -⟩ := b.add?_fragment flags [] hslice
      rw [h] at hb''
      cases hb''
      exact hcode

/-- Pieces add their texts one after the other. -/
theorem code_of_write {b b' : Block} {document : Text} {pieces : List Piece}
    (h : b.write document pieces = (b', none)) :
    b'.code = b.code ++ piecesText document pieces := by
  induction pieces generalizing b with
  | nil =>
    cases h
    exact (List.append_nil _).symm
  | cons piece rest ih =>
    rw [write] at h
    split at h
    · next b₁ hadd => rw [ih h, code_of_add? hadd, piecesText_cons, List.append_assoc]
    · cases h

/-- The text of a block is that of its pieces. -/
theorem code_of_ofPieces {b : Block} {document : Text} {pieces : List Piece}
    (h : ofPieces document pieces = .ok b) : b.code = piecesText document pieces := by
  unfold ofPieces at h
  split at h
  · next b' hwrite =>
    cases h
    exact code_of_write hwrite
  · cases h

end Block

/-! ### What stands behind a copy -/

/-- What is written behind a copy starts on a line of its own: the copy is empty or ends with a line
feed, or there is nothing behind it, or what is behind it begins with a line feed. -/
def CopiesApart (document : Text) (pieces : List Piece) : Prop :=
  ∀ front range back, pieces = front ++ .copy range :: back →
    EndsRow ((Piece.copy range).text document) ∨
      ∀ c ∈ (piecesText document back).head?, c = '\n'

section Apart

variable {document : Text}

theorem copiesApart_nil : CopiesApart document [] := by
  intro front range back h
  simp at h

/-- A copy is judged by what follows it. -/
theorem copiesApart_copy_cons_iff {range : Span} {rest : List Piece} :
    CopiesApart document (.copy range :: rest) ↔
      (EndsRow ((Piece.copy range).text document) ∨
        ∀ c ∈ (piecesText document rest).head?, c = '\n') ∧ CopiesApart document rest := by
  constructor
  · intro h
    refine ⟨h [] range rest rfl, ?_⟩
    intro front range' back hrest
    exact h (.copy range :: front) range' back (by rw [hrest]; rfl)
  · rintro ⟨hfirst, hrest⟩ front range' back heq
    cases front with
    | nil =>
      obtain ⟨hpiece, rfl⟩ := List.cons.inj heq
      cases hpiece
      exact hfirst
    | cons piece front => exact hrest front range' back (List.cons.inj heq).2

/-- Other pieces do not matter. -/
theorem copiesApart_append_iff {front rest : List Piece} (h : ∀ range, .copy range ∉ front) :
    CopiesApart document (front ++ rest) ↔ CopiesApart document rest := by
  induction front with
  | nil => rfl
  | cons piece front ih =>
    rw [List.cons_append, ← ih fun range hrange => h range (List.mem_cons_of_mem _ hrange)]
    constructor
    · intro hall before range back heq
      exact hall (piece :: before) range back (by rw [heq]; rfl)
    · intro hrest before range back heq
      cases before with
      | nil =>
        obtain ⟨rfl, -⟩ := List.cons.inj heq
        exact absurd List.mem_cons_self (h range)
      | cons _ before => exact hrest before range back (List.cons.inj heq).2

theorem copiesApart_of_notMem {pieces : List Piece} (h : ∀ range, .copy range ∉ pieces) :
    CopiesApart document pieces := by
  have hall : CopiesApart document (pieces ++ []) := (copiesApart_append_iff h).2 copiesApart_nil
  rwa [List.append_nil] at hall

/-- A copied script with something behind it that does not begin with a line feed. -/
theorem copiesApart_copyOf_append_iff (script : Option Span) {rest : List Piece} {c : Char}
    (hhead : (piecesText document rest).head? = some c) (hc : c ≠ '\n') :
    CopiesApart document (copyOf script ++ rest) ↔
      (∀ range ∈ script.toList, EndsRow ((Piece.copy range).text document)) ∧
        CopiesApart document rest := by
  cases script with
  | none => simp [copyOf]
  | some range =>
    have hnot : ¬ ∀ d ∈ (piecesText document rest).head?, d = '\n' := by
      intro h
      exact hc (h c hhead)
    rw [copyOf, Option.toList_some, List.map_singleton, List.singleton_append,
      copiesApart_copy_cons_iff, or_iff_left hnot]
    simp

/-- A copied script with a line feed behind it. -/
theorem copiesApart_copyOf_append_feed_iff {script : Option Span} {rest : List Piece}
    (hhead : (piecesText document rest).head? = some '\n') :
    CopiesApart document (copyOf script ++ rest) ↔ CopiesApart document rest := by
  cases script with
  | none => rfl
  | some range =>
    have hfeed : ∀ d ∈ (piecesText document rest).head?, d = '\n' := by
      rw [hhead]
      rintro d ⟨⟩
      rfl
    rw [copyOf, Option.toList_some, List.map_singleton, List.singleton_append,
      copiesApart_copy_cons_iff, and_iff_right (Or.inr hfeed)]

end Apart

/-! ### The script of a template -/

/-- A script in which brackets are closed in their order has no copies. -/
theorem copy_notMem_of_outline? {document above : Text} {opened : List Bracket}
    {pieces : List Piece} {spots : List Spot}
    (h : outline? document above opened pieces = some spots) (range : Span) :
    .copy range ∉ pieces := by
  induction pieces generalizing above opened spots with
  | nil => exact List.not_mem_nil
  | cons piece pieces ih =>
    cases piece with
    | copy => cases h
    | scaffold text =>
      rw [outline?] at h
      obtain ⟨opened', -, hrest⟩ := Option.bind_eq_some_iff.1 h
      simpa using ih hrest
    | fragment range flags =>
      rw [outline?] at h
      obtain ⟨later, hlater, -⟩ := Option.bind_eq_some_iff.1 h
      simpa using ih hlater

/-- Scaffolding behind which something is open, and nothing before it, begins with a bracket. -/
theorem head?_of_follow? {text : Text} {opened : List Bracket}
    (h : Bracket.follow? [] text = some opened) :
    text.head? = some '\x7b' ∨ text.head? = some '(' := by
  unfold Bracket.follow? at h
  split at h
  · next hscope =>
    obtain ⟨rest, rfl⟩ := List.isPrefixOf_iff_prefix.1 hscope
    exact Or.inl rfl
  · split at h
    · exact Or.inr rfl
    · next hnone _ => cases hnone
    · next hnone _ => cases hnone
    · cases h

/-- **The script of a template starts with a bracket**, if it has any text. -/
theorem Node.pieces_begin (document : Text) (root : Node) :
    root.pieces document = [] ∨
      ∃ c, (piecesText document (root.pieces document)).head? = some c ∧ c ≠ '\n' := by
  have hbalanced := balanced_nodePieces document root none [] false false
  obtain ⟨spots, houtline, hvisits⟩ := hbalanced.exists_outline []
  change outline? document [] [] (root.pieces document) = some spots at houtline
  -- an expression stands in a parenthesis, so that the script does not start with it
  have hopened : ∀ s ∈ spots, s.opened ≠ [] := by
    intro s hs
    have hvisit : s.visit ∈ visitsWithin none [] root := by
      rw [← hvisits]
      exact List.mem_map_of_mem hs
    obtain ⟨path, -, hpath⟩ := List.mem_filterMap.1 hvisit
    obtain ⟨e, -, he⟩ := Option.map_eq_some_iff.1 hpath
    have hs : s.opened = .parenthesis :: openedBy (scopesOn none path) [] :=
      congrArg Visit.opened he.symm
    rw [hs]
    exact List.cons_ne_nil _ _
  cases hpieces : root.pieces document with
  | nil => exact Or.inl rfl
  | cons piece rest =>
    rw [hpieces] at houtline
    right
    cases piece with
    | copy => cases houtline
    | scaffold text =>
      rw [outline?] at houtline
      obtain ⟨opened, hfollow, -⟩ := Option.bind_eq_some_iff.1 houtline
      rw [piecesText_cons, Piece.text, List.head?_append]
      rcases head?_of_follow? hfollow with hhead | hhead
      · exact ⟨'\x7b', by rw [hhead]; rfl, by decide⟩
      · exact ⟨'(', by rw [hhead]; rfl, by decide⟩
    | fragment range flags =>
      rw [outline?] at houtline
      obtain ⟨later, -, hspots⟩ := Option.bind_eq_some_iff.1 houtline
      cases hspots
      exact absurd rfl (hopened _ List.mem_cons_self)

theorem Node.copy_notMem_pieces (document : Text) (root : Node) (range : Span) :
    .copy range ∉ root.pieces document := by
  have hbalanced := balanced_nodePieces document root none [] false false
  obtain ⟨spots, houtline, -⟩ := hbalanced.exists_outline []
  exact copy_notMem_of_outline? houtline range

/-! ### Scaffolding -/

theorem head?_usageGroup (vars : List Variable) : (usageGroup vars).head? = some '\x7b' := by
  simp [usageGroup]

theorem head?_scriptUsageGroup (vars : List Variable) :
    (scriptUsageGroup vars).head? = some '\x7b' := by
  simp [scriptUsageGroup]

theorem copy_notMem_map_scaffold {α : Type} (text : α → Text) (l : List α) (range : Span) :
    .copy range ∉ l.map (Piece.scaffold ∘ text) := by
  simp

/-- Behind the scripts of a template block comes the template, or the use of variables, and neither
begins with a line feed. -/
theorem exists_head_template (document : Text) (root : Node) (vars : List Variable) :
    ∃ c, (piecesText document
        (root.pieces document ++ [.scaffold (scriptUsageGroup vars)])).head? = some c ∧
      c ≠ '\n' := by
  rw [piecesText_append, List.head?_append]
  rcases root.pieces_begin document with hnil | ⟨c, hhead, hc⟩
  · refine ⟨'\x7b', ?_, by decide⟩
    rw [hnil]
    simp [piecesText, Piece.text, head?_scriptUsageGroup]
  · exact ⟨c, by rw [hhead]; rfl, hc⟩

/-! ### The blocks of a component -/

/-- The blocks of a component: one for each script, and one for the template. -/
inductive BlockKind where
  | ofModule
  | ofInstance
  | ofTemplate
  deriving DecidableEq, Repr

namespace BlockKind

variable (typescript : Bool) (document : Text) (c : Component) (vars : List Variable)

/-- How the name of a block begins. -/
def stem : BlockKind → String
  | ofModule => "module."
  | ofInstance => "instance."
  | ofTemplate => "template."

/-- The pieces of a block, if the component has the part. -/
def pieces? : BlockKind → Option (List Piece)
  | ofModule => modulePieces? c vars
  | ofInstance => instancePieces? typescript c vars
  | ofTemplate => templatePieces? typescript document c vars

/-- The blocks that a component has, in their order, with their pieces. -/
def parts : List (BlockKind × List Piece) :=
  [ofModule, ofInstance, ofTemplate].filterMap fun kind =>
    (kind.pieces? typescript document c vars).map (kind, ·)

/-- The scripts whose copies have scaffolding right behind them. -/
def exposed : BlockKind → List Span
  | ofModule => c.instanceScript.toList
  | ofInstance => []
  | ofTemplate =>
    if typescript then
      c.instanceScript.toList ++
        if c.instanceScript.isSome || !vars.isEmpty then [] else c.moduleScript.toList
    else []

variable {typescript document c vars}

/-- **Which scripts have to end with a line feed**: the exposed ones, and no others. -/
theorem copiesApart_iff {kind : BlockKind} {pieces : List Piece}
    (h : kind.pieces? typescript document c vars = some pieces) :
    CopiesApart document pieces ↔
      ∀ range ∈ kind.exposed typescript c vars,
        EndsRow ((Piece.copy range).text document) := by
  cases kind with
  | ofModule =>
    obtain ⟨body, -, rfl⟩ := Option.map_eq_some_iff.1 h
    have hhead : (piecesText document [.scaffold (usageGroup vars)]).head? = some '\x7b' := by
      simp [piecesText, Piece.text, head?_usageGroup]
    rw [List.append_assoc, copiesApart_append_iff (by simp),
      copiesApart_copyOf_append_iff _ hhead (by decide),
      and_iff_left (copiesApart_of_notMem (by simp))]
    rfl
  | ofInstance =>
    obtain ⟨body, -, rfl⟩ := Option.map_eq_some_iff.1 h
    refine iff_of_true ?_ (by simp [exposed])
    rw [List.append_assoc, copiesApart_append_iff (copy_notMem_map_scaffold _ _)]
    have hrest : CopiesApart document [.fragment body {}, .scaffold (usageGroup vars)] :=
      copiesApart_of_notMem (by simp)
    cases typescript with
    | false => exact hrest
    | true => exact (copiesApart_copyOf_append_feed_iff rfl).2 hrest
  | ofTemplate =>
    obtain ⟨root, -, rfl⟩ := Option.map_eq_some_iff.1 h
    obtain ⟨ch, hhead, hch⟩ := exists_head_template document root vars
    have hrest : CopiesApart document
        (root.pieces document ++ [.scaffold (scriptUsageGroup vars)]) := by
      refine copiesApart_of_notMem ?_
      simp [root.copy_notMem_pieces document]
    rw [List.append_assoc]
    cases typescript with
    | false =>
      refine iff_of_true ?_ (by simp [exposed])
      exact (copiesApart_append_iff (copy_notMem_map_scaffold _ _)).2 hrest
    | true =>
      have hinstance := copiesApart_copyOf_append_iff c.instanceScript hhead hch
      rw [and_iff_left hrest] at hinstance
      by_cases hbetween : (c.instanceScript.isSome || !vars.isEmpty) = true
      · -- a line feed is written behind the module script
        simp only [templateLead, exposed, if_true, hbetween, List.append_assoc, List.append_nil]
        rw [copiesApart_copyOf_append_feed_iff rfl, copiesApart_append_iff (by simp),
          copiesApart_append_iff (copy_notMem_map_scaffold _ _), hinstance]
      · -- nothing is written between the module script and the template
        have hnone : c.instanceScript = none := by
          by_contra hsome
          simp [Option.isSome_iff_ne_none.2 hsome] at hbetween
        obtain rfl : vars = [] := by
          by_contra hvars
          simp [hvars] at hbetween
        have hmodule := copiesApart_copyOf_append_iff c.moduleScript hhead hch
        rw [and_iff_left hrest] at hmodule
        simpa [templateLead, exposed, hnone, copyOf] using hmodule

end BlockKind

/-- The blocks of a component are written one after the other. -/
theorem componentBlocks_eq_mapM (typescript : Bool) (extension : String) (document : Text)
    (c : Component) (vars : List Variable) :
    componentBlocks typescript extension document c vars =
      (BlockKind.parts typescript document c vars).mapM fun part => do
        return (part.1.stem ++ extension, ← Block.ofPieces document part.2) := by
  simp only [componentBlocks, BlockKind.parts, BlockKind.pieces?, List.filterMap_cons,
    List.filterMap_nil]
  cases modulePieces? c vars <;> cases instancePieces? typescript c vars <;>
    cases templatePieces? typescript document c vars <;> rfl

/-- **Scaffolding stays off the lines of copied scripts exactly if the exposed scripts end with a
line feed.**  The blocks of a component are those of its parts, each with the text of its pieces.
In the block of the module script, what is behind the copy of the instance script starts on a line
of its own exactly if that script is empty or ends with a line feed.  In the block of the instance
script this is so whatever the scripts are.  In the block of the template, with types, the same is
asked of the instance script, and of the module script if there is neither an instance script nor a
variable. -/
theorem scaffolding_apart_iff {typescript : Bool} {extension : String} {document : Text}
    {c : Component} {vars : List Variable} {blocks : List (String × Block)}
    (h : componentBlocks typescript extension document c vars = .ok blocks) :
    List.Forall₂ (fun part block =>
        block.1 = part.1.stem ++ extension ∧ block.2.code = piecesText document part.2 ∧
        (CopiesApart document part.2 ↔
          ∀ range ∈ part.1.exposed typescript c vars,
            EndsRow ((Piece.copy range).text document)))
      (BlockKind.parts typescript document c vars) blocks := by
  rw [componentBlocks_eq_mapM] at h
  refine forall₂_imp_of_mem (forall₂_of_mapM h) ?_
  rintro ⟨kind, pieces⟩ hmem ⟨name, b⟩ hwritten
  obtain ⟨kind', -, hkind⟩ := List.mem_filterMap.1 hmem
  obtain ⟨pieces', hpieces, hpart⟩ := Option.map_eq_some_iff.1 hkind
  cases hpart
  obtain ⟨b', hb', hpair⟩ := bind_eq_ok_iff.1 hwritten
  cases hpair
  exact ⟨rfl, Block.code_of_ofPieces hb', BlockKind.copiesApart_iff hpieces⟩

/-- Two scripts whose last lines are comments that a line feed ends, and an expression. -/
def endedComments : Text := "m//1\ni//2\nx".toList

/-- A component with both scripts and a template. -/
def componentOfThree : Component where
  moduleScript := some ⟨0, 5⟩
  instanceScript := some ⟨5, 10⟩
  template := some
    { kind := .mustacheTag, start := 10, stop := 11, expression := some ⟨10, 11, []⟩ }

/-- A store that the component subscribes to. -/
def subscription : Variable := { name := "$s", injected := true }

theorem scaffolding_apart_iff_endedComments :
    ∃ blocks, componentBlocks true "ts" endedComments componentOfThree [subscription] =
        .ok blocks ∧
      List.Forall₂ (fun part block =>
          block.1 = part.1.stem ++ "ts" ∧ block.2.code = piecesText endedComments part.2 ∧
          (CopiesApart endedComments part.2 ↔
            ∀ range ∈ part.1.exposed true componentOfThree [subscription],
              EndsRow ((Piece.copy range).text endedComments)))
        (BlockKind.parts true endedComments componentOfThree [subscription]) blocks ∧
      EndsRow ((Piece.copy ⟨5, 10⟩).text endedComments) := by
  obtain ⟨blocks, hblocks⟩ : ∃ blocks, componentBlocks true "ts" endedComments componentOfThree
      [subscription] = .ok blocks := ⟨_, rfl⟩
  exact ⟨blocks, hblocks, scaffolding_apart_iff hblocks, Or.inr ⟨"i//2".toList, rfl⟩⟩

/-- A module script, and an instance script whose last line is a comment. -/
def openComment : Text := "<script context=\"module\">m</script><script>a//b</script>".toList

/-- The component with these scripts. -/
def componentWithComment : Component where
  moduleScript := some ⟨25, 26⟩
  instanceScript := some ⟨43, 47⟩

/-- A template without expressions. -/
def bareTemplate : Node := { kind := .fragment, start := 56, stop := 56 }

/-- A script whose last line is a comment: in the block of the module script the use of variables is
part of the comment, and in the block of the template, with types, the scaffolding of the template
is. -/
theorem scaffolding_in_comment :
    (∃ b other, componentBlocks false "js" openComment componentWithComment [] =
        .ok [("module.js", b), other] ∧ b.code = "\nm\na//b\x7b;\x7d".toList ∧
      modulePieces? componentWithComment [] = some [.fragment ⟨25, 26⟩ {}, .copy ⟨43, 47⟩,
        .scaffold "\x7b;\x7d".toList] ∧
      ¬ CopiesApart openComment [.fragment ⟨25, 26⟩ {}, .copy ⟨43, 47⟩,
        .scaffold "\x7b;\x7d".toList]) ∧
    ∃ x y b, componentBlocks true "ts" openComment
        { componentWithComment with template := some bareTemplate } [] =
      .ok [x, y, ("template.ts", b)] ∧ b.code = "m\na//b\x7b\x7d".toList := by
  refine ⟨⟨_, _, rfl, rfl, rfl, ?_⟩, _, _, _, rfl, rfl⟩
  intro h
  rcases h [.fragment ⟨25, 26⟩ {}] ⟨43, 47⟩ _ rfl with (hnil | ⟨v, hv⟩) | hfeed
  · exact absurd hnil (by decide)
  · have hlast : (Piece.text openComment (.copy ⟨43, 47⟩)).getLast? = some '\n' := by
      rw [hv, List.getLast?_concat]
    exact absurd hlast (by decide)
  · exact absurd (hfeed '\x7b' rfl) (by decide)

end ComponentLint
