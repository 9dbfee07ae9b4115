import ComponentLint.Lint.Prepare
import ComponentLint.Proofs.Block.Registry
import ComponentLint.Proofs.Lint.Transpile
import ComponentLint.Proofs.Markup.Blanking

/-!
# What the linter is shown of a document

The blocks of a session are cut from the document without its hidden styles, at the ranges that the
compiler gave.  Styles are found by a search that knows nothing of scripts, so that one may be found
inside a string or a comment of a script.  The lines of a placement are the text of the document
exactly if no character in the range of the placement is hidden.

## Main definitions

* `Linter.Hides l document o c` — character `c` at offset `o` of the document is hidden.
* `Linter.cover l document` — the document with its hidden characters marked.

## Main statements

* `Block.eq_assemble_of_ofPieces` — a block that can be written is made of all its pieces.
* `Linter.exists_assemble_of_prepare` — the blocks of a session are cut from the visible text.
* `Linter.shown_text_of_prepare` — **the linter is shown the text of the document, up to
  indentation, exactly in the ranges without hidden characters.**
* `Linter.shown_text_hidden_in_string` — a string of a script that is hidden from the linter.
-/

namespace ComponentLint

open Text Markup

/-! ### Blocks that could be written -/

namespace Block

/-- Writing pieces makes the additions one after the other. -/
theorem run_eq_of_write {b b' : Block} {document : Text} {pieces : List Piece}
    (h : b.write document pieces = (b', none)) :
    b.run (pieces.map (Addition.mk document)) = b' := by
  induction pieces generalizing b with
  | nil =>
    cases h
    rfl
  | cons piece pieces ih =>
    rw [write] at h
    cases hadd : b.add? document piece with
    | error range =>
      rw [hadd] at h
      cases h
    | ok next =>
      rw [hadd] at h
      have hattempt : b.attempt ⟨document, piece⟩ = next := by
        rw [attempt, write, hadd]
        rfl
      rw [List.map_cons, run_cons, hattempt]
      exact ih h

/-- A block that can be written is made of all its pieces. -/
theorem eq_assemble_of_ofPieces {b : Block} {document : Text} {pieces : List Piece}
    (h : ofPieces document pieces = .ok b) : b = assemble document pieces := by
  unfold ofPieces at h
  split at h
  · next hwrite =>
    cases h
    exact (run_eq_of_write hwrite).symm
  · cases h

end Block

/-- The blocks of a component are made of pieces of the document. -/
theorem exists_assemble_of_componentBlocks {typescript : Bool} {extension : String}
    {document : Text} {component : Component} {vars : List Variable}
    {blocks : List (String × Block)}
    (h : componentBlocks typescript extension document component vars = .ok blocks)
    {name : String} {b : Block} (hb : (name, b) ∈ blocks) :
    ∃ pieces, b = Block.assemble document pieces := by
  obtain ⟨⟨part, pieces⟩, -, hpart⟩ := exists_of_mem_mapM h hb
  obtain ⟨written, hwritten, hpart⟩ := bind_eq_ok_iff.1 hpart
  cases hpart
  exact ⟨pieces, Block.eq_assemble_of_ofPieces hwritten⟩

namespace Linter

/-! ### The visible text -/

/-- Character `c` at offset `o` of a document is hidden: it is a visible character of a `style`
element that is to be hidden. -/
def Hides (l : Linter) (document : Text) (o : Nat) (c : Char) : Prop :=
  ∃ filter, l.hiddenStyles? = some filter ∧ Blanks filter document o c

/-- The document with its hidden characters marked. -/
def cover (l : Linter) (document : Text) : Cover :=
  match l.hiddenStyles? with
  | some filter => styleCover filter document
  | none => textCover false document

theorem own_cover (l : Linter) (document : Text) : (l.cover document).own = document := by
  unfold cover
  cases l.hiddenStyles? with
  | some filter => exact own_styleCover filter document
  | none => exact own_textCover false document

theorem shown_cover (l : Linter) (document : Text) :
    (l.cover document).shown = l.visibleText document := by
  unfold cover visibleText
  cases l.hiddenStyles? with
  | some filter => exact shown_styleCover filter document
  | none => exact shown_textCover false document

theorem hidesAt_cover_iff {l : Linter} {document : Text} {o : Nat} {c : Char} :
    (l.cover document).HidesAt o c ↔ l.Hides document o c := by
  unfold cover Hides
  cases l.hiddenStyles? with
  | some filter => simp [hidesAt_styleCover_iff]
  | none => simp [hidesAt_textCover_iff]

/-- Only visible characters are hidden. -/
theorem isSpace_of_mem_cover {l : Linter} {document : Text} {c : Char}
    (h : (c, true) ∈ l.cover document) : isSpace c = false := by
  obtain ⟨o, ho⟩ := Cover.exists_hidesAt_of_mem h
  obtain ⟨_, -, _, _, _, _, _, -, -, -, hvisible, -⟩ := hidesAt_cover_iff.1 ho
  exact hvisible

/-! ### Sessions -/

/-- A document has a session if it is refused, or analysed and cut into blocks. -/
theorem prepare_eq_ok_cases {l : Linter} {document : Text} {s : Session}
    (h : (l.prepare document).result = .ok s) :
    (∃ r, s = .ofRejection r) ∨ ∃ a, l.session (l.visibleText document) a = .ok s := by
  unfold prepare at h
  dsimp only at h
  split at h
  · cases h
    exact .inl ⟨_, rfl⟩
  · cases h
  · exact .inr ⟨_, h⟩

/-- The blocks of a session that was cut from a text. -/
theorem componentBlocks_of_session {l : Linter} {text : Text} {a : Analysis} {s : Session}
    (h : l.session text a = .ok s) :
    componentBlocks l.settings.typescript l.settings.extension text a.component a.vars
      = .ok s.blocks := by
  unfold session at h
  obtain ⟨messages, -, h⟩ := bind_eq_ok_iff.1 h
  obtain ⟨blocks, hblocks, h⟩ := bind_eq_ok_iff.1 h
  cases h
  exact mapError_eq_ok_iff.1 hblocks

/-- The blocks of a session are made of pieces of the visible text. -/
theorem exists_assemble_of_prepare {l : Linter} {document : Text} {s : Session}
    (h : (l.prepare document).result = .ok s) {name : String} {b : Block}
    (hb : (name, b) ∈ s.blocks) : ∃ pieces, b = Block.assemble (l.visibleText document) pieces := by
  rcases prepare_eq_ok_cases h with ⟨r, rfl⟩ | ⟨a, ha⟩
  · exact absurd hb List.not_mem_nil
  · exact exists_assemble_of_componentBlocks (componentBlocks_of_session ha) hb

/-- **What the linter is shown of a document.**  For every document, all settings and filters and
whatever the compiler, the parser and the transpiler answer, as long as there is a session: the
lines of every placement of every block are the visible text in the range of the placement, without
its margin.  They are the text of the document in that range, without its margin, exactly if no
hidden character stands in the range. -/
theorem shown_text_of_prepare (l : Linter) (document : Text) (s : Session) (name : String)
    (b : Block) (p : Placement) (h : (l.prepare document).result = .ok s)
    (hb : (name, b) ∈ s.blocks) (hp : p ∈ b.placements) :
    ∃ shown, p.range.slice? (l.visibleText document) = some shown ∧
      b.linesBetween p.firstLine p.lastLine = (outdent shown).text ∧
      ((∃ own, p.range.slice? document = some own ∧
          b.linesBetween p.firstLine p.lastLine = (outdent own).text) ↔
        ∀ o c, l.Hides document o c → o + c.utf8Size ≤ p.range.start ∨ p.range.stop ≤ o) := by
  obtain ⟨pieces, rfl⟩ := exists_assemble_of_prepare h hb
  obtain ⟨ins, hdocument, ⟨site⟩⟩ := Block.exists_site_of_mem_assemble hp
  have hslice : p.range.slice? (l.visibleText document) = some ins.fragment := by
    rw [site.range_eq, ← hdocument]
    exact ins.slice_eq
  have hlines := site.linesBetween_eq
  refine ⟨ins.fragment, hslice, hlines, ?_⟩
  rw [← l.shown_cover] at hslice
  have hiff := Cover.exists_outdent_eq_iff (fun _ => isSpace_of_mem_cover) hslice
  rw [own_cover] at hiff
  simp only [hidesAt_cover_iff] at hiff
  rw [← hiff, hlines]
  rfl

/-- A linter with the default settings, whose compiler finds one script. -/
def ofScript (script : Span) : Linter where
  tools :=
    { compile := fun _ _ => .ok { component := { instanceScript := some script } }
      parse := fun _ _ => .ok {}
      transpile? := none }
  settings := {}

/-- A document with a style behind its script. -/
def styleBehindScript : Text := "<script>\n  é;</script><style lang=x>é</style>".toList

theorem prepare_styleBehindScript :
    ((ofScript ⟨8, 14⟩).prepare styleBehindScript).result = .ok
      { blocks := [("instance.js", Block.assemble styleBehindScript
          [.fragment ⟨8, 14⟩ {}, .scaffold "\x7b;\x7d".toList])] } := by
  decide +kernel

/-- The script stands before the hidden style. -/
theorem shown_text_of_styleBehindScript :
    ∃ s b p, ((ofScript ⟨8, 14⟩).prepare styleBehindScript).result = .ok s ∧
      ("instance.js", b) ∈ s.blocks ∧ p ∈ b.placements ∧ p.range = ⟨8, 14⟩ ∧
      ∃ shown, p.range.slice? ((ofScript ⟨8, 14⟩).visibleText styleBehindScript) = some shown ∧
        b.linesBetween p.firstLine p.lastLine = (outdent shown).text ∧
        ((∃ own, p.range.slice? styleBehindScript = some own ∧
            b.linesBetween p.firstLine p.lastLine = (outdent own).text) ↔
          ∀ o c, (ofScript ⟨8, 14⟩).Hides styleBehindScript o c →
            o + c.utf8Size ≤ p.range.start ∨ p.range.stop ≤ o) :=
  ⟨_, _, _, prepare_styleBehindScript, List.mem_singleton.2 rfl, List.mem_singleton.2 rfl, rfl,
    shown_text_of_prepare _ _ _ _ _ _ prepare_styleBehindScript (List.mem_singleton.2 rfl)
      (List.mem_singleton.2 rfl)⟩

/-- A document with a style in a string of its script. -/
def styleInString : Text := "<script>let s='<style lang=x>a</style>'</script>".toList

theorem prepare_styleInString :
    ((ofScript ⟨8, 39⟩).prepare styleInString).result = .ok
      { blocks := [("instance.js", Block.assemble
          ("<script>let s='".toList ++ spaces 23 ++ "'</script>".toList)
          [.fragment ⟨8, 39⟩ {}, .scaffold "\x7b;\x7d".toList])] } := by
  decide +kernel

/-- A string that looks like a style with a language is blank for the linter. -/
theorem shown_text_hidden_in_string :
    ∃ s b p own, ((ofScript ⟨8, 39⟩).prepare styleInString).result = .ok s ∧
      ("instance.js", b) ∈ s.blocks ∧ p ∈ b.placements ∧ p.range = ⟨8, 39⟩ ∧
      p.range.slice? styleInString = some own ∧
      b.linesBetween p.firstLine p.lastLine ≠ (outdent own).text :=
  ⟨_, _, _, "let s='<style lang=x>a</style>'".toList, prepare_styleInString,
    List.mem_singleton.2 rfl, List.mem_singleton.2 rfl, rfl, by decide +kernel, by decide +kernel⟩

end Linter

end ComponentLint
