import ComponentLint.Proofs.Block.Site
import ComponentLint.Proofs.LineTable.Words

/-!
# The lines of a block and its placements

Every fragment stands on lines of its own, and the block finds the placement of a line by looking
for the latest one that covers it.  Since the lines of two fragments are apart, the latest one is
the only one, and since later additions stand below, the lines of a fragment stay as they are.

## Main definitions

* `Block.linesBetween b first last` — the lines of `b` from `first` to `last`, without the line
  feed after them.

## Main statements

* `Registered.placementAt?_eq_some_iff` — a line has the placement that covers it.
* `Site.linesBetween_eq` — the lines of a placement are the text of its fragment.
* `registry_run` — **the registry of a block**, whatever additions made it.
-/

namespace ComponentLint

theorem Placement.covers_iff {p : Placement} {line : Nat} :
    p.covers line = true ↔ p.firstLine ≤ line ∧ line ≤ p.lastLine := by
  rw [Placement.covers, Bool.and_eq_true, decide_eq_true_iff, decide_eq_true_iff]

namespace Block

/-! ### Finding the placement of a line -/

/-- A line is covered by one placement at most. -/
theorem Registered.index_unique {b : Block} {inss : List Insertion} (h : b.Registered inss)
    {i j line : Nat} {p q : Placement} (hp : b.placements[i]? = some p)
    (hq : b.placements[j]? = some q) (hpl : p.covers line = true) (hql : q.covers line = true) :
    i = j := by
  obtain ⟨hi, rfl⟩ := List.getElem?_eq_some_iff.1 hp
  obtain ⟨hj, rfl⟩ := List.getElem?_eq_some_iff.1 hq
  rw [Placement.covers_iff] at hpl hql
  have hapart := List.pairwise_iff_getElem.1 h.apart
  rcases Nat.lt_trichotomy i j with hij | hij | hij
  · have := hapart i j hi hj hij
    omega
  · exact hij
  · have := hapart j i hj hi hij
    omega

/-- The index that is found belongs to a placement that covers the line. -/
theorem covers_of_placementIndex? {b : Block} {line i : Nat}
    (h : b.placementIndex? line = some i) :
    ∃ p, b.placements[i]? = some p ∧ p.covers line = true := by
  rw [placementIndex?, Option.map_eq_some_iff] at h
  obtain ⟨j, hj, rfl⟩ := h
  obtain ⟨hlen, hcov, -⟩ := List.findIdx?_eq_some_iff_getElem.1 hj
  rw [List.getElem_reverse] at hcov
  rw [List.length_reverse] at hlen
  exact ⟨_, List.getElem?_eq_getElem (by omega), hcov⟩

/-- **A line has the index of the placement that covers it.** -/
theorem Registered.placementIndex?_eq_some_iff {b : Block} {inss : List Insertion}
    (h : b.Registered inss) {line i : Nat} :
    b.placementIndex? line = some i ↔
      ∃ p, b.placements[i]? = some p ∧ p.firstLine ≤ line ∧ line ≤ p.lastLine := by
  constructor
  · intro hi
    obtain ⟨p, hp, hcov⟩ := covers_of_placementIndex? hi
    exact ⟨p, hp, Placement.covers_iff.1 hcov⟩
  · rintro ⟨p, hp, hline⟩
    have hcov : p.covers line = true := Placement.covers_iff.2 hline
    cases hj : b.placementIndex? line with
    | none =>
      -- something is found, since `p` covers the line
      rw [placementIndex?, Option.map_eq_none_iff, List.findIdx?_eq_none_iff] at hj
      have := hj p (List.mem_reverse.2 (List.mem_of_getElem? hp))
      rw [hcov] at this
      cases this
    | some j =>
      obtain ⟨q, hq, hcov'⟩ := covers_of_placementIndex? hj
      rw [h.index_unique hp hq hcov hcov']

/-- The placement that is found covers the line. -/
theorem covers_of_placementAt? {b : Block} {line : Nat} {p : Placement}
    (h : b.placementAt? line = some p) : p ∈ b.placements ∧ p.covers line = true := by
  rw [placementAt?] at h
  have hcov := List.find?_some h
  exact ⟨List.mem_reverse.1 (List.mem_of_find?_eq_some h), hcov⟩

/-- **A line has the placement that covers it.** -/
theorem Registered.placementAt?_eq_some_iff {b : Block} {inss : List Insertion}
    (h : b.Registered inss) {line : Nat} {p : Placement} :
    b.placementAt? line = some p ↔
      p ∈ b.placements ∧ p.firstLine ≤ line ∧ line ≤ p.lastLine := by
  rw [← Placement.covers_iff]
  constructor
  · intro hp
    exact covers_of_placementAt? hp
  · rintro ⟨hp, hcov⟩
    cases hq : b.placementAt? line with
    | none =>
      rw [placementAt?, List.find?_eq_none] at hq
      exact absurd hcov (hq p (List.mem_reverse.2 hp))
    | some q =>
      obtain ⟨hmem, hcov'⟩ := covers_of_placementAt? hq
      obtain ⟨i, hi⟩ := List.getElem?_of_mem hp
      obtain ⟨j, hj⟩ := List.getElem?_of_mem hmem
      have hij := h.index_unique hi hj hcov hcov'
      rw [hij, hj] at hi
      exact hi

/-- A line that no placement covers has none. -/
theorem placementAt?_eq_none_iff {b : Block} {line : Nat} :
    b.placementAt? line = none ↔ ∀ p ∈ b.placements, line < p.firstLine ∨ p.lastLine < line := by
  rw [placementAt?, List.find?_eq_none]
  constructor
  · intro h p hp
    have := h p (List.mem_reverse.2 hp)
    rw [Placement.covers_iff] at this
    omega
  · intro h p hp
    have := h p (List.mem_reverse.1 hp)
    rw [Placement.covers_iff]
    omega

theorem Registered.firstLine_le_lastLine {b : Block} {inss : List Insertion}
    (h : b.Registered inss) {p : Placement} (hp : p ∈ b.placements) :
    p.firstLine ≤ p.lastLine := by
  obtain ⟨ins, -, ⟨site⟩⟩ := h.exists_site hp
  exact site.firstLine_le_lastLine

/-- There is a line between two consecutive placements. -/
theorem Registered.apart_of_succ {b : Block} {inss : List Insertion} (h : b.Registered inss)
    {i : Nat} {p q : Placement} (hp : b.placements[i]? = some p)
    (hq : b.placements[i + 1]? = some q) : p.lastLine + 1 < q.firstLine := by
  obtain ⟨hi, rfl⟩ := List.getElem?_eq_some_iff.1 hp
  obtain ⟨hj, rfl⟩ := List.getElem?_eq_some_iff.1 hq
  exact List.pairwise_iff_getElem.1 h.apart i (i + 1) hi hj (Nat.lt_succ_self i)

/-- A line between two consecutive placements has none. -/
theorem Registered.placementAt?_between {b : Block} {inss : List Insertion}
    (h : b.Registered inss) {i line : Nat} {p q : Placement} (hp : b.placements[i]? = some p)
    (hq : b.placements[i + 1]? = some q) (hpl : p.lastLine < line) (hlq : line < q.firstLine) :
    b.placementAt? line = none := by
  obtain ⟨hi, rfl⟩ := List.getElem?_eq_some_iff.1 hp
  obtain ⟨hj, rfl⟩ := List.getElem?_eq_some_iff.1 hq
  have hapart := List.pairwise_iff_getElem.1 h.apart
  rw [placementAt?_eq_none_iff]
  intro r hr
  obtain ⟨k, hk, rfl⟩ := List.getElem_of_mem hr
  have hpl' := h.firstLine_le_lastLine (List.getElem_mem hi)
  have hql' := h.firstLine_le_lastLine (List.getElem_mem hj)
  -- the other placements lie before the first of the two or after the second one
  rcases Nat.lt_trichotomy k i with hki | rfl | hki
  · have := hapart k i hk hi hki
    omega
  · exact Or.inr hpl
  · rcases Nat.lt_or_eq_of_le (Nat.succ_le_of_lt hki) with hjk | rfl
    · have := hapart (i + 1) k hj hk hjk
      omega
    · exact Or.inl hlq

/-! ### The lines of a placement -/

/-- The lines of a block from `first` to `last`, counted from one, without the line feed after
them. -/
def linesBetween (b : Block) (first last : Nat) : Text :=
  ['\n'].intercalate (((b.code.splitOn '\n').drop (first - 1)).take (last + 1 - first))

end Block

/-- The rows of the code: those above the fragment, its own, and those below. -/
theorem Site.splitOn_code {p : Placement} {ins : Insertion} {code : Text}
    (site : Site p ins code) :
    code.splitOn '\n' = site.above.splitOn '\n'
      ++ (ins.text.splitOn '\n' ++ site.below.splitOn '\n') := by
  conv_lhs => rw [site.code_eq]
  rw [List.splitOn_append_cons_self, List.splitOn_append_cons_self]

/-- The lines of a placement are the text of its fragment, and nothing else. -/
theorem Site.linesBetween_eq {b : Block} {p : Placement} {ins : Insertion}
    (site : Site p ins b.code) : b.linesBetween p.firstLine p.lastLine = ins.text := by
  have hfirst : p.firstLine - 1 = (site.above.splitOn '\n').length := by
    rw [length_splitOn, site.firstLine_eq]
    rfl
  have hlast : p.lastLine + 1 - p.firstLine = (ins.text.splitOn '\n').length := by
    rw [length_splitOn, site.lastLine_eq_add]
    omega
  rw [Block.linesBetween, hfirst, hlast, site.splitOn_code, List.drop_left, List.take_left,
    List.intercalate_splitOn]

/-- The lines of a placement are kept in numbers of 32 bits, if the block has less than
`2 ^ 32 - 1` bytes. -/
theorem Site.fits_lines {p : Placement} {ins : Insertion} {code : Text} (site : Site p ins code)
    (h : Text.size code + 1 < 2 ^ 32) : p.blockLead.Fits ∧ p.lastLine < 2 ^ 32 := by
  constructor
  · rw [site.blockLead_eq]
    exact Extent.fits_of_prefix h ⟨_, (site.code_cut (List.nil_append ins.text).symm).symm⟩
  · exact Nat.lt_trans site.lastLine_lt (Extent.fits_of_prefix h List.prefix_rfl).lines

namespace Block

/-- Later additions leave the lines of a placement as they are. -/
theorem linesBetween_run {b : Block} {p : Placement} {ins : Insertion}
    (site : Site p ins b.code) (later : List Addition) :
    (b.run later).linesBetween p.firstLine p.lastLine = ins.text := by
  obtain ⟨t, ht⟩ := b.exists_code_run later
  have hsite : Site p ins (b.run later).code := ht ▸ site.extend t
  exact hsite.linesBetween_eq

/-- **The registry of a block.**  Whatever additions made a block of less than `2 ^ 32 - 1` bytes,
failing ones included:

* there is one placement for each fragment that was placed, in that order, and its lines are the
  text of that fragment, now and after all later additions.  What is kept of these lines are numbers
  of 32 bits;
* between two consecutive placements there is at least one line, and none of these lines has a
  placement;
* a line has the placement with number `i` exactly if it lies between the first and the last line
  of that placement, and no placement if it lies in none of them;
* a fragment with a range that its document does not have is reported by that range, and leaves
  the block as it is. -/
theorem registry_run (adds : List Addition) (hsize : Text.size (empty.run adds).code + 1 < 2 ^ 32) :
    let b := empty.run adds
    let inss := adds.filterMap Addition.insertion?
    b.placements.length = inss.length ∧
    (∀ (i : Nat) (p : Placement) (ins : Insertion),
      b.placements[i]? = some p → inss[i]? = some ins →
      p.range = ins.range ∧ p.flags = ins.flags ∧ p.firstLine ≤ p.lastLine ∧
      p.blockLead.Fits ∧ p.lastLine < 2 ^ 32 ∧
      ∀ later, (b.run later).placements[i]? = some p ∧
        (b.run later).linesBetween p.firstLine p.lastLine = (outdent ins.fragment).text) ∧
    (∀ (i : Nat) (p q : Placement), b.placements[i]? = some p → b.placements[i + 1]? = some q →
      p.lastLine + 1 < q.firstLine ∧
      ∀ line, p.lastLine < line → line < q.firstLine → b.placementAt? line = none) ∧
    (∀ line i, b.placementIndex? line = some i ↔
      ∃ p, b.placements[i]? = some p ∧ p.firstLine ≤ line ∧ line ≤ p.lastLine) ∧
    (∀ line p, b.placementAt? line = some p ↔
      ∃ i, b.placementIndex? line = some i ∧ b.placements[i]? = some p) ∧
    (∀ line, b.placementAt? line = none ↔
      ∀ p ∈ b.placements, line < p.firstLine ∨ p.lastLine < line) ∧
    (∀ document range flags, range.slice? document = none →
      b.write document [.fragment range flags] = (b, some range) ∧
      b.attempt ⟨document, .fragment range flags⟩ = b) := by
  intro b inss
  have h : b.Registered inss := run_registered adds
  refine ⟨h.sites.length_eq.symm, ?_, ?_, fun _ _ => h.placementIndex?_eq_some_iff, ?_,
    fun _ => placementAt?_eq_none_iff, ?_⟩
  · intro i p ins hp hins
    obtain ⟨hi, rfl⟩ := List.getElem?_eq_some_iff.1 hp
    obtain ⟨hi', rfl⟩ := List.getElem?_eq_some_iff.1 hins
    obtain ⟨site⟩ := h.sites.get hi' hi
    obtain ⟨hlead, hlast⟩ := site.fits_lines hsize
    refine ⟨site.range_eq, site.flags_eq, site.firstLine_le_lastLine, hlead, hlast,
      fun later => ⟨?_, ?_⟩⟩
    · obtain ⟨more, hmore⟩ := b.placements_prefix_run later
      rw [← hmore, List.getElem?_append_left hi]
      exact hp
    · exact linesBetween_run site later
  · intro i p q hp hq
    exact ⟨h.apart_of_succ hp hq, fun line hpl hlq => h.placementAt?_between hp hq hpl hlq⟩
  · intro line p
    rw [h.placementAt?_eq_some_iff]
    constructor
    · rintro ⟨hp, hline⟩
      obtain ⟨i, hi⟩ := List.getElem?_of_mem hp
      exact ⟨i, h.placementIndex?_eq_some_iff.2 ⟨p, hi, hline⟩, hi⟩
    · rintro ⟨i, hi, hp⟩
      obtain ⟨q, hq, hline⟩ := h.placementIndex?_eq_some_iff.1 hi
      obtain rfl : q = p := Option.some.inj (hq.symm.trans hp)
      exact ⟨List.mem_of_getElem? hq, hline⟩
  · intro document range flags hslice
    have hwrite := b.write_fragment_of_slice?_eq_none flags hslice
    exact ⟨hwrite, congrArg Prod.fst hwrite⟩

/-- Two fragments, the first one of two lines, and between them one that fails, since it starts in
the middle of a character. -/
theorem registry_run_failing_between :
    let document : Text := ['é', '\n', 'x']
    let b := empty.run [⟨document, .scaffold ['a']⟩, ⟨document, .fragment ⟨0, 3⟩ {}⟩,
      ⟨document, .fragment ⟨1, 3⟩ {}⟩, ⟨document, .fragment ⟨3, 4⟩ {}⟩]
    Text.size b.code + 1 < 2 ^ 32 ∧ b.placements.length = 2 ∧ b.placementIndex? 3 = some 0 ∧
      b.placementAt? 4 = none ∧ b.placementIndex? 5 = some 1 ∧
      b.attempt ⟨document, .fragment ⟨1, 3⟩ {}⟩ = b := by
  intro document b
  have hsize : Text.size b.code + 1 < 2 ^ 32 := by decide
  obtain ⟨hlength, -, hgap, hindex, -, -, hfails⟩ := registry_run _ hsize
  exact ⟨hsize, hlength, (hindex 3 0).2 ⟨_, rfl, by decide, by decide⟩,
    (hgap 0 _ _ rfl rfl).2 4 (by decide) (by decide),
    (hindex 5 1).2 ⟨_, rfl, by decide, by decide⟩, (hfails document ⟨1, 3⟩ {} rfl).2⟩

end Block

end ComponentLint
