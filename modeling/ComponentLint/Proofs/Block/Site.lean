import ComponentLint.Block.Piece
import ComponentLint.Proofs.Outdent
import Mathlib.Data.List.Forall2

/-!
# Where a fragment stands

A block is made by additions, each of which adds a piece of some document or fails.  When a
fragment is placed, it is fixed once and for all what the placement says; later additions only add
text below.  What is said about a placement is therefore said about its *site*: the text around
the fragment in the document and in the block.

## Main definitions

* `Addition`, `Block.attempt`, `Block.run` — additions, making one, and making several.
* `Insertion`, `Addition.insertion?` — a placed fragment, and the one that an addition places.
* `Site p ins code` — the surroundings of the fragment `ins` that `p` places into `code`.
* `Block.Registered b inss` — the placements of `b` are those of `inss`, apart from each other.
* `Block.assemble d pieces` — the block made of pieces of one document.

## Main statements

* `attempt_cases` — what an addition does.
* `run_registered` — **the placements of a block are those of the fragments that were placed.**
-/

namespace ComponentLint

/-! ### Additions -/

/-- An addition to a block: a piece, and the document it comes from. -/
structure Addition where
  document : Text
  piece : Piece

/-- A fragment of a document. -/
structure Insertion where
  document : Text
  range : Span
  flags : Flags
  fragment : Text
  /-- The fragment is what the document has in the range. -/
  slice_eq : range.slice? document = some fragment

/-- The text of a fragment in a block. -/
def Insertion.text (ins : Insertion) : Text := (outdent ins.fragment).text

/-- The fragment that an addition places.  Scaffolding and copies place none, and neither does a
range that the document does not have. -/
def Addition.insertion? (a : Addition) : Option Insertion :=
  match a.piece with
  | .scaffold _ => none
  | .copy _ => none
  | .fragment range flags =>
    match h : range.slice? a.document with
    | some fragment => some ⟨a.document, range, flags, fragment, h⟩
    | none => none

namespace Block

/-- Makes an addition.  One that fails leaves the block as it is. -/
def attempt (b : Block) (a : Addition) : Block := (b.write a.document [a.piece]).1

/-- Makes additions, one after the other. -/
def run (b : Block) (adds : List Addition) : Block := adds.foldl attempt b

@[simp] theorem run_nil (b : Block) : b.run [] = b := rfl

@[simp] theorem run_cons (b : Block) (a : Addition) (adds : List Addition) :
    b.run (a :: adds) = (b.attempt a).run adds := rfl

end Block

/-! ### Sites -/

/-- The surroundings of a placed fragment: the document before and after it, and the block before
and after its lines. -/
structure Site (p : Placement) (ins : Insertion) (code : Text) where
  lead : Text
  rest : Text
  above : Text
  below : Text
  document_eq : ins.document = lead ++ ins.fragment ++ rest
  code_eq : code = above ++ '\n' :: (ins.text ++ '\n' :: below)
  start_eq : p.range.start = Text.size lead
  stop_eq : p.range.stop = Text.size lead + Text.size ins.fragment
  range_eq : p.range = ins.range
  flags_eq : p.flags = ins.flags
  documentLead_eq : p.documentLead = Extent.of lead
  blockLead_eq : p.blockLead = Extent.of (above ++ ['\n'])
  removal_eq : p.removal = (outdent ins.fragment).removal
  margin_eq : p.margin = (outdent ins.fragment).margin
  lastLine_eq : p.lastLine = (Extent.of (above ++ '\n' :: ins.text)).lines

namespace Site

variable {p : Placement} {ins : Insertion} {code : Text}

theorem start_le_stop (site : Site p ins code) : p.range.start ≤ p.range.stop := by
  rw [site.start_eq, site.stop_eq]
  exact Nat.le_add_right ..

/-- The block up to the fragment and behind it. -/
theorem code_eq_append (site : Site p ins code) :
    code = site.above ++ ['\n'] ++ ins.text ++ '\n' :: site.below := by
  conv_lhs => rw [site.code_eq]
  simp only [List.append_assoc, List.cons_append, List.nil_append]

theorem size_above (site : Site p ins code) :
    Text.size (site.above ++ ['\n']) = p.blockLead.length := by
  rw [site.blockLead_eq]
  rfl

/-- The block, cut where the text of the fragment is cut. -/
theorem code_cut (site : Site p ins code) {front back : Text} (htext : ins.text = front ++ back) :
    code = (site.above ++ '\n' :: front) ++ (back ++ '\n' :: site.below) := by
  conv_lhs => rw [site.code_eq, htext]
  simp only [List.append_assoc, List.cons_append]

theorem size_code_cut (site : Site p ins code) (front : Text) :
    Text.size (site.above ++ '\n' :: front) = p.blockLead.length + Text.size front := by
  rw [List.append_cons site.above '\n' front, Text.size_append, site.size_above]

/-- Text that is added below leaves a site as it is. -/
def extend (site : Site p ins code) (t : Text) : Site p ins (code ++ t) where
  __ := site
  below := site.below ++ t
  code_eq := by
    conv_lhs => rw [site.code_eq]
    simp only [List.append_assoc, List.cons_append]

theorem firstLine_eq (site : Site p ins code) : p.firstLine = site.above.count '\n' + 2 := by
  rw [Placement.firstLine, site.blockLead_eq, Extent.of, List.count_append,
    List.count_singleton_self]

theorem lastLine_eq_add (site : Site p ins code) :
    p.lastLine = p.firstLine + ins.text.count '\n' := by
  rw [site.lastLine_eq, site.firstLine_eq, Extent.of, List.count_append, List.count_cons_self]
  show _ + (_ + 1) + 1 = _
  omega

theorem firstLine_le_lastLine (site : Site p ins code) : p.firstLine ≤ p.lastLine := by
  rw [site.lastLine_eq_add]
  exact Nat.le_add_right ..

/-- The line feed after the fragment is below its last line. -/
theorem lastLine_lt (site : Site p ins code) : p.lastLine < (Extent.of code).lines := by
  have hcode : code.count '\n' = site.above.count '\n'
      + (ins.text.count '\n' + (site.below.count '\n' + 1) + 1) := by
    conv_lhs => rw [site.code_eq]
    rw [List.count_append, List.count_cons_self, List.count_append, List.count_cons_self]
  rw [site.lastLine_eq_add, site.firstLine_eq]
  show _ < code.count '\n' + 1
  omega

end Site

/-! ### What an addition does -/

namespace Insertion

/-- The placement of a fragment below `code`, with `lead` before it in the document. -/
def placement (ins : Insertion) (lead code : Text) : Placement where
  range := ins.range
  documentLead := Extent.of lead
  blockLead := Extent.of (code ++ ['\n'])
  removal := (outdent ins.fragment).removal
  margin := (outdent ins.fragment).margin
  lastLine := (Extent.of (code ++ ['\n'] ++ ins.text)).lines
  flags := ins.flags

/-- The fragment stands between two parts of its document. -/
theorem exists_lead (ins : Insertion) :
    ∃ lead rest, ins.document = lead ++ ins.fragment ++ rest ∧
      ins.range.start = Text.size lead ∧
      ins.range.stop = Text.size lead + Text.size ins.fragment := by
  obtain ⟨lead, rest, hdoc, hstart, hstop⟩ := Text.slice?_eq_some_iff.1 ins.slice_eq
  refine ⟨lead, rest, hdoc, hstart.symm, ?_⟩
  rw [hstart]
  exact hstop.symm

end Insertion

namespace Block

/-- A fragment is placed below the block, and has a site there. -/
theorem exists_site_of_place? (b : Block) (ins : Insertion) :
    ∃ b' p, b.place? ins.document ins.range ins.flags = some b' ∧
      b'.placements = b.placements ++ [p] ∧
      ∃ site : Site p ins b'.code, site.above = b.code := by
  obtain ⟨lead, rest, hdoc, hstart, hstop⟩ := ins.exists_lead
  have hcut : Text.cut? ins.document ins.range.start = some (lead, ins.fragment ++ rest) := by
    rw [Text.cut?_eq_some_iff]
    exact ⟨by rw [hdoc, List.append_assoc], hstart.symm⟩
  refine ⟨⟨b.code ++ ['\n'] ++ ins.text ++ ['\n'], b.placements ++ [ins.placement lead b.code]⟩,
    ins.placement lead b.code, ?_, rfl, ?_⟩
  · rw [place?, hcut, ins.slice_eq]
    rfl
  · refine ⟨{
      lead := lead, rest := rest, above := b.code, below := []
      document_eq := hdoc
      code_eq := ?_
      start_eq := hstart
      stop_eq := hstop
      range_eq := rfl, flags_eq := rfl, documentLead_eq := rfl, blockLead_eq := rfl
      removal_eq := rfl, margin_eq := rfl
      lastLine_eq := ?_ }, rfl⟩
    · simp only [List.append_assoc, List.cons_append, List.nil_append]
    · simp only [Insertion.placement, List.append_assoc, List.singleton_append]

/-- A range that the document does not have is not placed. -/
theorem place?_eq_none {b : Block} {document : Text} {range : Span} (flags : Flags)
    (h : range.slice? document = none) : b.place? document range flags = none := by
  rw [place?, h]
  cases Text.cut? document range.start <;> rfl

/-- A fragment with a range that the document does not have is reported, and the block stays. -/
theorem write_fragment_of_slice?_eq_none (b : Block) {document : Text} {range : Span}
    (flags : Flags) (h : range.slice? document = none) :
    b.write document [.fragment range flags] = (b, some range) := by
  rw [write, add?, place?_eq_none flags h]

/-- **What an addition does.**  It adds text and no placement, or it places a fragment below the
block. -/
theorem attempt_cases (b : Block) (a : Addition) :
    (a.insertion? = none ∧ ∃ t, b.attempt a = b.append t) ∨
      ∃ ins p, a.insertion? = some ins ∧ ins.document = a.document ∧
        (b.attempt a).placements = b.placements ++ [p] ∧
        ∃ site : Site p ins (b.attempt a).code, site.above = b.code := by
  obtain ⟨document, piece⟩ := a
  have hkeep : b = b.append [] := by rw [append, List.append_nil]
  cases piece with
  | scaffold t => exact Or.inl ⟨rfl, t, rfl⟩
  | copy range =>
    refine Or.inl ⟨rfl, ?_⟩
    rw [attempt, write, add?]
    cases range.slice? document with
    | some t => exact ⟨t, rfl⟩
    | none => exact ⟨[], hkeep⟩
  | fragment range flags =>
    rw [Addition.insertion?]
    dsimp only
    split
    · next fragment hslice =>
      obtain ⟨b', p, hb', hp, site, habove⟩ :=
        b.exists_site_of_place? ⟨document, range, flags, fragment, hslice⟩
      have hattempt : b.attempt ⟨document, .fragment range flags⟩ = b' := by
        rw [attempt, write, add?, hb']
        rfl
      rw [hattempt]
      exact Or.inr ⟨_, p, rfl, rfl, hp, site, habove⟩
    · next hslice =>
      refine Or.inl ⟨rfl, [], ?_⟩
      rw [attempt, write_fragment_of_slice?_eq_none b flags hslice]
      exact hkeep

/-- An addition only adds text below. -/
theorem exists_code_attempt (b : Block) (a : Addition) : ∃ t, (b.attempt a).code = b.code ++ t := by
  rcases b.attempt_cases a with ⟨-, t, ht⟩ | ⟨ins, p, -, -, -, site, habove⟩
  · exact ⟨t, by rw [ht, append]⟩
  · exact ⟨_, by rw [← habove]; exact site.code_eq⟩

/-- Additions only add text below. -/
theorem exists_code_run (b : Block) (adds : List Addition) :
    ∃ t, (b.run adds).code = b.code ++ t := by
  induction adds generalizing b with
  | nil => exact ⟨[], (List.append_nil _).symm⟩
  | cons a adds ih =>
    obtain ⟨t, ht⟩ := b.exists_code_attempt a
    obtain ⟨u, hu⟩ := ih (b.attempt a)
    exact ⟨t ++ u, by rw [run_cons, hu, ht, List.append_assoc]⟩

/-- An addition only adds a placement at the end. -/
theorem placements_prefix_attempt (b : Block) (a : Addition) :
    b.placements <+: (b.attempt a).placements := by
  rcases b.attempt_cases a with ⟨-, t, ht⟩ | ⟨ins, p, -, -, hp, -⟩
  · rw [ht]
    exact List.prefix_rfl
  · rw [hp]
    exact List.prefix_append ..

/-- Additions only add placements at the end. -/
theorem placements_prefix_run (b : Block) (adds : List Addition) :
    b.placements <+: (b.run adds).placements := by
  induction adds generalizing b with
  | nil => exact List.prefix_rfl
  | cons a adds ih => exact (b.placements_prefix_attempt a).trans (ih (b.attempt a))

/-! ### The registry of a block -/

/-- The placements of a block are those of the given fragments, in their order, and there is a
line between any two of them. -/
structure Registered (b : Block) (inss : List Insertion) : Prop where
  sites : List.Forall₂ (fun ins p => Nonempty (Site p ins b.code)) inss b.placements
  apart : b.placements.Pairwise fun p q => p.lastLine + 1 < q.firstLine

/-- Every placement has the site of one of the fragments. -/
theorem Registered.exists_site {b : Block} {inss : List Insertion} (h : b.Registered inss)
    {p : Placement} (hp : p ∈ b.placements) : ∃ ins ∈ inss, Nonempty (Site p ins b.code) := by
  obtain ⟨i, hi, rfl⟩ := List.getElem_of_mem hp
  have hi' : i < inss.length := h.sites.length_eq ▸ hi
  exact ⟨inss[i], List.getElem_mem hi', h.sites.get hi' hi⟩

/-- One addition keeps the registry. -/
theorem Registered.attempt {b : Block} {inss : List Insertion} (h : b.Registered inss)
    (a : Addition) : (b.attempt a).Registered (inss ++ a.insertion?.toList) := by
  obtain ⟨t, ht⟩ := b.exists_code_attempt a
  have hold : List.Forall₂ (fun ins p => Nonempty (Site p ins (b.attempt a).code)) inss
      b.placements := by
    refine h.sites.imp ?_
    rintro ins p ⟨site⟩
    rw [ht]
    exact ⟨site.extend t⟩
  rcases b.attempt_cases a with ⟨hnone, u, hu⟩ | ⟨ins, p, hins, -, hp, site, habove⟩
  · have hplacements : (b.attempt a).placements = b.placements := by rw [hu, append]
    rw [hnone, Option.toList_none, List.append_nil]
    exact ⟨by rw [hplacements]; exact hold, by rw [hplacements]; exact h.apart⟩
  · rw [hins, Option.toList_some]
    refine ⟨?_, ?_⟩
    · rw [hp]
      exact List.rel_append hold (.cons ⟨site⟩ .nil)
    · rw [hp, List.pairwise_append]
      refine ⟨h.apart, List.pairwise_singleton .., ?_⟩
      intro q hq r hr
      rw [List.mem_singleton] at hr
      subst hr
      -- the new fragment starts on the line below the last one of the block
      obtain ⟨ins', -, ⟨site'⟩⟩ := h.exists_site hq
      have hlast := site'.lastLine_lt
      rw [site.firstLine_eq, habove]
      have : (Extent.of b.code).lines = b.code.count '\n' + 1 := rfl
      omega

/-- **The placements of a block are those of the fragments that were placed**, whatever
additions made the block. -/
theorem run_registered (adds : List Addition) :
    (empty.run adds).Registered (adds.filterMap Addition.insertion?) := by
  -- generalised to a block that has a registry already
  suffices h : ∀ (b : Block) (inss : List Insertion), b.Registered inss →
      (b.run adds).Registered (inss ++ adds.filterMap Addition.insertion?) from
    h empty [] ⟨.nil, .nil⟩
  induction adds with
  | nil =>
    intro b inss h
    rwa [List.filterMap_nil, List.append_nil]
  | cons a adds ih =>
    intro b inss h
    have hrest := ih _ _ (h.attempt a)
    rw [List.append_assoc] at hrest
    rw [run_cons, List.filterMap_cons]
    cases ha : a.insertion? with
    | none => rwa [ha] at hrest
    | some ins => rwa [ha] at hrest

/-! ### Blocks of one document -/

/-- The block made of pieces of one document.  Pieces that the document does not have are left
out. -/
def assemble (document : Text) (pieces : List Piece) : Block :=
  empty.run (pieces.map (Addition.mk document))

theorem assemble_registered (document : Text) (pieces : List Piece) :
    (assemble document pieces).Registered
      ((pieces.map (Addition.mk document)).filterMap Addition.insertion?) :=
  run_registered _

theorem document_of_insertion? {a : Addition} {ins : Insertion} (h : a.insertion? = some ins) :
    ins.document = a.document := by
  rcases empty.attempt_cases a with ⟨hnone, -⟩ | ⟨ins', -, hins, hdoc, -⟩
  · rw [hnone] at h
    cases h
  · rw [hins] at h
    exact Option.some.inj h ▸ hdoc

/-- Every placement of a block of one document has a site for a fragment of that document. -/
theorem exists_site_of_mem_assemble {document : Text} {pieces : List Piece} {p : Placement}
    (hp : p ∈ (assemble document pieces).placements) :
    ∃ ins, ins.document = document ∧ Nonempty (Site p ins (assemble document pieces).code) := by
  obtain ⟨ins, hmem, hsite⟩ := (assemble_registered document pieces).exists_site hp
  obtain ⟨a, ha, hins⟩ := List.mem_filterMap.1 hmem
  obtain ⟨piece, -, rfl⟩ := List.mem_map.1 ha
  exact ⟨ins, document_of_insertion? hins, hsite⟩

end Block

end ComponentLint
