import ComponentLint.Proofs.Json.Records
import ComponentLint.Proofs.Template.Tree
import ComponentLint.Template.Codec

/-!
# Template nodes are read again

A node that was read is written as an object that reads as the same node, with one exception.  The
`value` of a node is a list of nodes if it can be read as one, and a pattern otherwise.  An array
that repeats a name in an object is no list of nodes, but the pattern made of it has no repeated
name any more, and may be one.  Such a pattern is ambiguous.

## Main definitions

* `Node.Reads node r x` — the fields of a row are those of node `x`, read with `node`.
* `Node.cells x` — the members a node is written with.
* `Node.Unambiguous x` — no node of the tree has a pattern that can be read as a list of nodes.

## Main statements

* `Node.decode_eq_some_iff` — the fields of a node, read without a bound on its depth.
* `Node.stable` — **an unambiguous node is read again from what it is written as.**
* `Node.unambiguous_of_decode_encode` — only an unambiguous one is.
* `Node.unambiguous_of_isValue` — a node read from a document without repeated names is
  unambiguous.
-/

namespace ComponentLint

open Json Json.Decoder

/-! ### Expressions -/

namespace Expression

/-- What is known of an expression that was read. -/
theorem exists_of_decode {n : Nesting} {j : Json} {e : Expression} (h : decode n j = some e) :
    ∃ members inner, j = .object members ∧ n.enter = some inner ∧
      (∃ c, word inner c = some e.start) ∧ (∃ c, word inner c = some e.stop) ∧
      (e.syntaxNode.map Prod.fst).Nodup ∧
      ∀ entry ∈ e.syntaxNode, entry.1 ≠ "start" ∧ entry.1 ≠ "end" ∧
        ∃ member ∈ members, value? inner member.2 = some entry.2 := by
  cases j with
  | object members =>
    rw [decode] at h
    obtain ⟨r, hr, h⟩ := Option.bind_eq_some_iff.1 h
    obtain ⟨start, hstart, h⟩ := Option.bind_eq_some_iff.1 h
    obtain ⟨stop, hstop, h⟩ := Option.bind_eq_some_iff.1 h
    obtain ⟨values, hvalues, h⟩ := Option.bind_eq_some_iff.1 h
    cases h
    rw [memberRow] at hr
    obtain ⟨inner, hinner, hr⟩ := Option.bind_eq_some_iff.1 hr
    obtain ⟨-, hr⟩ := Option.ite_none_right_eq_some.1 hr
    cases hr
    obtain ⟨c, -, hstart⟩ := Option.bind_eq_some_iff.1 hstart
    obtain ⟨c', -, hstop⟩ := Option.bind_eq_some_iff.1 hstop
    refine ⟨members, inner, rfl, hinner, ⟨c, hstart⟩, ⟨c', hstop⟩, Entries.nodup_ofList values, ?_⟩
    intro entry hentry
    obtain ⟨member, hmember, hname, hvalue⟩ :=
      exists_of_mem_right (memberValues?_eq_some_iff.1 hvalues) (Entries.mem_of_mem_ofList hentry)
    obtain ⟨hmember, hother⟩ := List.mem_filter.1 hmember
    rw [Bool.and_eq_true, bne_iff_ne, bne_iff_ne] at hother
    rw [hname]
    exact ⟨hother.1, hother.2, member, hmember, hvalue⟩
  | _ => cases h

/-- An expression whose syntax node has other names than the range is read from its members. -/
theorem decode_encode_of_entries {n inner : Nesting} {e : Expression}
    (hinner : n.enter = some inner) (hstart : word inner (.ofNat e.start) = some e.start)
    (hstop : word inner (.ofNat e.stop) = some e.stop)
    (hnames : (e.syntaxNode.map Prod.fst).Nodup)
    (hentries : ∀ entry ∈ e.syntaxNode, entry.1 ≠ "start" ∧ entry.1 ≠ "end" ∧
      value? inner entry.2 = some entry.2) : decode n e.encode = some e := by
  have hrow : memberRow [⟨"start", none⟩, ⟨"end", none⟩] n e.encode =
      some ⟨inner, [("start", .ofNat e.start), ("end", .ofNat e.stop)]⟩ := by
    have hother : e.syntaxNode.filterMap (fun member =>
        ([⟨"start", none⟩, ⟨"end", none⟩].find? (Field.goesBy · member.1)).map fun field =>
          (field.name, member.2)) = [] := by
      refine List.filterMap_eq_nil_iff.2 fun entry hentry => ?_
      obtain ⟨hs, he, -⟩ := hentries entry hentry
      simp [Field.goesBy, Ne.symm hs, Ne.symm he]
    rw [encode, memberRow, hinner]
    simp only [List.filterMap_append, hother]
    rfl
  have hfilter : ([("start", Json.ofNat e.start), ("end", .ofNat e.stop)] ++ e.syntaxNode).filter
      (fun member => member.1 != "start" && member.1 != "end") = e.syntaxNode := by
    rw [List.filter_append]
    refine List.filter_eq_self.2 fun entry hentry => ?_
    obtain ⟨hs, he, -⟩ := hentries entry hentry
    rw [Bool.and_eq_true, bne_iff_ne, bne_iff_ne]
    exact ⟨hs, he⟩
  have hvalues : memberValues? inner e.syntaxNode = some e.syntaxNode :=
    memberValues?_eq_some_iff.2 (List.forall₂_same.2 fun entry hentry =>
      ⟨rfl, (hentries entry hentry).2.2⟩)
  -- the row is kept opaque: only its nesting and the range in it matter
  obtain ⟨r, hr, hinner, hstart, hstop⟩ : ∃ r, memberRow [⟨"start", none⟩, ⟨"end", none⟩] n e.encode
      = some r ∧ r.inner = inner ∧ r.required "start" word = some e.start ∧
        r.required "end" word = some e.stop :=
    ⟨_, hrow, rfl, (Row.required_of_get?_eq_some rfl).trans hstart,
      (Row.required_of_get?_eq_some rfl).trans hstop⟩
  rw [encode] at hr ⊢
  rw [decode, hr]
  simp only [Option.bind_eq_bind, Option.bind_some, hfilter, hstart, hstop, hinner, hvalues,
    Entries.ofList_eq_self hnames, Option.pure_def]

theorem stable (e : Expression) : Stable decode encode e := by
  refine ⟨fun {n j} h => ?_, fun {n m j} h hfits => ?_⟩
  · obtain ⟨members, inner, rfl, hinner, ⟨_, hstart⟩, ⟨_, hstop⟩, hnames, hentries⟩ :=
      exists_of_decode h
    refine decode_encode_of_entries hinner ((stable_word _).reread hstart)
      ((stable_word _).reread hstop) hnames fun entry hentry => ?_
    obtain ⟨hs, he, member, -, hvalue⟩ := hentries entry hentry
    exact ⟨hs, he, value?_self hvalue⟩
  · obtain ⟨members, inner, rfl, hinner, -, -, hnames, hentries⟩ := exists_of_decode h
    obtain ⟨inner', hinner', hparts⟩ := hfits.parts hinner (Nat.succ_pos _)
    refine value?_object_self hinner' ?_ ?_
    · rw [List.map_append]
      have hrange : ["start", "end"].Nodup := by decide
      refine List.nodup_append.2 ⟨hrange, hnames, ?_⟩
      rintro name hname other hother rfl
      obtain ⟨entry, hentry, rfl⟩ := List.mem_map.1 hother
      obtain ⟨hs, he, -⟩ := hentries entry hentry
      rcases List.mem_cons.1 hname with h | hname
      · exact hs h
      · exact he (List.mem_singleton.1 hname)
    · intro member hmember
      rcases List.mem_append.1 hmember with hmember | hmember
      · rcases List.mem_cons.1 hmember with rfl | hmember
        · rfl
        · rw [List.mem_singleton.1 hmember]
          rfl
      · obtain ⟨-, -, member', hmember', hvalue⟩ := hentries member hmember
        exact (hparts _ (List.mem_map_of_mem hmember')).value?_eq hvalue

end Expression

/-! ### Reading nodes -/

theorem NodeKind.ofWord_word (k : NodeKind) : ofWord k.word = k := by
  cases k <;> decide

theorem NodeKind.stable (k : NodeKind) :
    Stable (choice (some ∘ ofWord)) (fun k => .string k.word) k :=
  ⟨fun _ => congrArg some k.ofWord_word, fun _ _ => rfl⟩

/-- Reads the `value` of a node, with `node` for the nodes in it. -/
def NodeValue.decode (node : Decoder Node) : Decoder NodeValue :=
  captured (Decoder.orElse (Decoder.map .nodes (Decoder.list node))
    (Decoder.map .pattern Decoder.value))

namespace Node

/-- The fields of a row are those of node `x`, with `node` for the nodes below it. -/
structure Reads (node : Decoder Node) (r : Row) (x : Node) : Prop where
  kind : r.required "type" (choice (some ∘ NodeKind.ofWord)) = some x.kind
  start : r.required "start" word = some x.start
  stop : r.required "end" word = some x.stop
  name : r.optional "name" Decoder.string = some x.name
  expression : r.optional "expression" Expression.decode = some x.expression
  context : r.optional "context" Decoder.value = some x.context
  index : r.optional "index" Decoder.value = some x.index
  value : r.optional "value" (NodeValue.decode node) = some x.value
  error : r.optional "error" Decoder.value = some x.error
  attributes : r.orElse "attributes" [] (Decoder.list node) = some x.attributes
  children : r.orElse "children" [] (Decoder.list node) = some x.children
  pending : r.optional "pending" node = some x.pending
  thenBranch : r.optional "then" node = some x.thenBranch
  catchBranch : r.optional "catch" node = some x.catchBranch
  elseBranch : r.optional "else" node = some x.elseBranch

theorem decodeWithin_succ_eq_some_iff {depth : Nat} {n : Nesting} {j : Json} {x : Node} :
    decodeWithin (depth + 1) n j = some x ↔
      ∃ r, Decoder.row fields n j = some r ∧ Reads (decodeWithin depth) r x := by
  rw [decodeWithin]
  constructor
  · intro h
    obtain ⟨r, hr, h⟩ := Option.bind_eq_some_iff.1 h
    obtain ⟨kind, hkind, h⟩ := Option.bind_eq_some_iff.1 h
    obtain ⟨start, hstart, h⟩ := Option.bind_eq_some_iff.1 h
    obtain ⟨stop, hstop, h⟩ := Option.bind_eq_some_iff.1 h
    obtain ⟨name, hname, h⟩ := Option.bind_eq_some_iff.1 h
    obtain ⟨expression, hexpression, h⟩ := Option.bind_eq_some_iff.1 h
    obtain ⟨context, hcontext, h⟩ := Option.bind_eq_some_iff.1 h
    obtain ⟨index, hindex, h⟩ := Option.bind_eq_some_iff.1 h
    obtain ⟨value, hvalue, h⟩ := Option.bind_eq_some_iff.1 h
    obtain ⟨error, herror, h⟩ := Option.bind_eq_some_iff.1 h
    obtain ⟨attributes, hattributes, h⟩ := Option.bind_eq_some_iff.1 h
    obtain ⟨children, hchildren, h⟩ := Option.bind_eq_some_iff.1 h
    obtain ⟨pending, hpending, h⟩ := Option.bind_eq_some_iff.1 h
    obtain ⟨thenBranch, hthen, h⟩ := Option.bind_eq_some_iff.1 h
    obtain ⟨catchBranch, hcatch, h⟩ := Option.bind_eq_some_iff.1 h
    obtain ⟨elseBranch, helse, h⟩ := Option.bind_eq_some_iff.1 h
    cases h
    exact ⟨r, hr, hkind, hstart, hstop, hname, hexpression, hcontext, hindex, hvalue, herror,
      hattributes, hchildren, hpending, hthen, hcatch, helse⟩
  · rintro ⟨r, hr, h⟩
    refine Option.bind_eq_some_iff.2 ⟨r, hr, ?_⟩
    refine Option.bind_eq_some_iff.2 ⟨_, h.kind, ?_⟩
    refine Option.bind_eq_some_iff.2 ⟨_, h.start, ?_⟩
    refine Option.bind_eq_some_iff.2 ⟨_, h.stop, ?_⟩
    refine Option.bind_eq_some_iff.2 ⟨_, h.name, ?_⟩
    refine Option.bind_eq_some_iff.2 ⟨_, h.expression, ?_⟩
    refine Option.bind_eq_some_iff.2 ⟨_, h.context, ?_⟩
    refine Option.bind_eq_some_iff.2 ⟨_, h.index, ?_⟩
    refine Option.bind_eq_some_iff.2 ⟨_, h.value, ?_⟩
    refine Option.bind_eq_some_iff.2 ⟨_, h.error, ?_⟩
    refine Option.bind_eq_some_iff.2 ⟨_, h.attributes, ?_⟩
    refine Option.bind_eq_some_iff.2 ⟨_, h.children, ?_⟩
    refine Option.bind_eq_some_iff.2 ⟨_, h.pending, ?_⟩
    refine Option.bind_eq_some_iff.2 ⟨_, h.thenBranch, ?_⟩
    refine Option.bind_eq_some_iff.2 ⟨_, h.catchBranch, ?_⟩
    refine Option.bind_eq_some_iff.2 ⟨_, h.elseBranch, ?_⟩
    cases x
    rfl

theorem Reads.congr {node node' : Decoder Node} {bound : Nat} {r : Row} {x : Node}
    (h : ∀ n c, c.depth < bound → node n c = node' n c)
    (hcells : ∀ name c, r.cells.get? name = some c → c.depth < bound) (hx : Reads node r x) :
    Reads node' r x := by
  have hlist : ∀ name,
      r.orElse name [] (Decoder.list node) = r.orElse name [] (Decoder.list node') :=
    fun name => Row.orElse_congr fun c hc => list_congr h r.inner (hcells name c hc)
  have hbranch : ∀ name, r.optional name node = r.optional name node' :=
    fun name => Row.optional_congr fun c hc => h r.inner c (hcells name c hc)
  have hvalue : r.optional "value" (NodeValue.decode node) =
      r.optional "value" (NodeValue.decode node') := by
    refine Row.optional_congr fun c hc => ?_
    simp only [NodeValue.decode, captured, Decoder.orElse, Decoder.map,
      list_congr h none (hcells "value" c hc)]
  exact { hx with
    value := hvalue ▸ hx.value
    attributes := hlist "attributes" ▸ hx.attributes
    children := hlist "children" ▸ hx.children
    pending := hbranch "pending" ▸ hx.pending
    thenBranch := hbranch "then" ▸ hx.thenBranch
    catchBranch := hbranch "catch" ▸ hx.catchBranch
    elseBranch := hbranch "else" ▸ hx.elseBranch }

/-- Decoders that agree on what is not nested as deep as `j` read the same nodes from it. -/
theorem exists_reads_congr {node node' : Decoder Node} {n : Nesting} {j : Json} {x : Node}
    (h : ∀ n c, c.depth < j.depth → node n c = node' n c) :
    (∃ r, Decoder.row fields n j = some r ∧ Reads node r x) ↔
      ∃ r, Decoder.row fields n j = some r ∧ Reads node' r x := by
  refine exists_congr fun r => and_congr_right fun hr => ?_
  have hcells : ∀ name c, r.cells.get? name = some c → c.depth < j.depth :=
    fun name c hc => depth_lt_of_mem_parts ((row_parts hr).2.2 name c hc)
  exact ⟨Reads.congr h hcells, Reads.congr (fun n c hc => (h n c hc).symm) hcells⟩

/-- A depth that is large enough does not matter. -/
theorem decodeWithin_eq {depth : Nat} (n : Nesting) {j : Json} (h : j.depth ≤ depth) :
    decodeWithin depth n j = decodeWithin (depth + 1) n j := by
  induction depth generalizing n j with
  | zero =>
    -- what has no parts is no node
    rw [decodeWithin]
    refine (Option.eq_none_iff_forall_ne_some.2 fun x hx => ?_).symm
    obtain ⟨r, hr, -⟩ := decodeWithin_succ_eq_some_iff.1 hx
    have := (row_parts hr).2.1
    omega
  | succ depth ih =>
    have hsub : ∀ n c, c.depth < j.depth → decodeWithin depth n c = decodeWithin (depth + 1) n c :=
      fun n c hc => ih n (by omega)
    refine Option.ext fun x => ?_
    rw [decodeWithin_succ_eq_some_iff, decodeWithin_succ_eq_some_iff]
    exact exists_reads_congr hsub

theorem decodeWithin_eq_decode {depth : Nat} (n : Nesting) {j : Json} (h : j.depth ≤ depth) :
    decodeWithin depth n j = decode n j := by
  induction h with
  | refl => rfl
  | step h ih => rw [← decodeWithin_eq n h, ih]

/-- **The fields of a node**, read without a bound on its depth. -/
theorem decode_eq_some_iff {n : Nesting} {j : Json} {x : Node} :
    decode n j = some x ↔ ∃ r, Decoder.row fields n j = some r ∧ Reads decode r x := by
  rw [← decodeWithin_eq_decode n (Nat.le_succ j.depth), decodeWithin_succ_eq_some_iff]
  exact exists_reads_congr fun n c hc => decodeWithin_eq_decode n (Nat.le_of_lt hc)

end Node

/-! ### Writing nodes -/

/-- Writes the `value` of a node. -/
def NodeValue.encode : NodeValue → Json
  | .nodes listed => .array (listed.map Node.encode)
  | .pattern p => p

theorem encodeNodes_eq (nodes : List Node) : encodeNodes nodes = nodes.map Node.encode := by
  induction nodes with
  | nil => rfl
  | cons x nodes ih => rw [encodeNodes, List.map_cons, ih]

theorem encodeValue_eq (value : Option NodeValue) :
    encodeValue value = Json.cells [("value", value.map NodeValue.encode)] := by
  rcases value with _ | nodes | pattern
  · rfl
  · rw [encodeValue, encodeNodes_eq]
    rfl
  · rfl

theorem encodeBranch_eq (name : String) (branch : Option Node) :
    encodeBranch name branch = Json.cells [(name, branch.map Node.encode)] := by
  cases branch <;> rfl

/-- A list, unless it is empty. -/
def listCell (nodes : List Node) : Option Json :=
  if nodes.isEmpty then none else some (.array (nodes.map Node.encode))

theorem memberIfAny_eq (name : String) (nodes : List Node) :
    memberIfAny name (encodeNodes nodes) = Json.cells [(name, listCell nodes)] := by
  rw [encodeNodes_eq]
  cases nodes <;> rfl

namespace Node

/-- The members a node is written with, under the names of all fields. -/
def fieldCells (x : Node) : List (String × Option Json) :=
  [("type", some (.string x.kind.word)), ("start", some (.ofNat x.start)),
    ("end", some (.ofNat x.stop)), ("name", x.name.map Json.string),
    ("expression", x.expression.map Expression.encode), ("context", x.context.map id),
    ("index", x.index.map id), ("value", x.value.map NodeValue.encode), ("error", x.error.map id),
    ("attributes", listCell x.attributes), ("children", listCell x.children),
    ("pending", x.pending.map encode), ("then", x.thenBranch.map encode),
    ("catch", x.catchBranch.map encode), ("else", x.elseBranch.map encode)]

theorem encode_eq (x : Node) : x.encode = .object (Json.cells x.fieldCells) := by
  obtain ⟨kind, start, stop, name, expression, context, index, value, error, attributes, children,
    pending, thenBranch, catchBranch, elseBranch⟩ := x
  rw [encode, encodeValue_eq, memberIfAny_eq, memberIfAny_eq, encodeBranch_eq, encodeBranch_eq,
    encodeBranch_eq, encodeBranch_eq, memberIfSome_eq, memberIfSome_eq, memberIfSome_eq,
    memberIfSome_eq, memberIfSome_eq]
  simp only [Json.cells, ← List.filterMap_append, List.cons_append, List.nil_append]
  rfl

end Node

/-! ### Ambiguous patterns -/

/-- No node of the tree has a pattern that can be read as a list of nodes. -/
inductive Node.Unambiguous : Node → Prop
  | intro {x : Node}
    (pattern : ∀ p, x.value = some (.pattern p) → Decoder.list Node.decode none p = none)
    (subnodes : ∀ m ∈ x.subnodes, m.Unambiguous) : x.Unambiguous

namespace NodeValue

variable {node : Decoder Node} {n : Nesting} {j : Json}

theorem decode_eq_nodes_iff {nodes : List Node} :
    decode node n j = some (.nodes nodes) ↔
      (j.value? n).isSome ∧ Decoder.list node none j = some nodes := by
  rw [decode, captured, Option.ite_none_right_eq_some, Decoder.orElse, Decoder.map, Decoder.map]
  refine and_congr_right fun _ => ?_
  cases Decoder.list node none j with
  | some nodes' => simp
  | none => simp

theorem decode_eq_pattern_iff {p : Json} :
    decode node n j = some (.pattern p) ↔
      (j.value? n).isSome ∧ Decoder.list node none j = none ∧ value? none j = some p := by
  rw [decode, captured, Option.ite_none_right_eq_some, Decoder.orElse, Decoder.map, Decoder.map,
    Decoder.value]
  refine and_congr_right fun _ => ?_
  cases Decoder.list node none j with
  | some nodes' => simp
  | none => simp

/-- The value of a node is stable if the nodes in it are, or if it is a pattern that cannot be read
as a list of nodes. -/
theorem stable {v : NodeValue}
    (hpattern : ∀ p, v = .pattern p → Decoder.list Node.decode none p = none)
    (hnodes : ∀ nodes, v = .nodes nodes → ∀ m ∈ nodes, Stable Node.decode Node.encode m) :
    Stable (decode Node.decode) encode v := by
  cases v with
  | nodes nodes =>
    have hlist := Stable.list (hnodes nodes rfl)
    refine ⟨fun {n j} h => ?_, fun {n m j} h hfits => ?_⟩
    · obtain ⟨hsome, hread⟩ := decode_eq_nodes_iff.1 h
      have hvalue := hlist.value hread (.inr hsome)
      exact decode_eq_nodes_iff.2 ⟨Option.isSome_of_eq_some hvalue, hlist.reread hread⟩
    · obtain ⟨hsome, hread⟩ := decode_eq_nodes_iff.1 h
      refine hlist.value hread (.inr ?_)
      rcases hfits with rfl | hn
      · exact hsome
      · exact hn
  | pattern p =>
    refine ⟨fun {n j} h => ?_, fun {n m j} h hfits => ?_⟩
    · obtain ⟨hsome, -, hread⟩ := decode_eq_pattern_iff.1 h
      have hvalue : value? n p = some p := Fits.value?_eq (.inr hsome) hread
      exact decode_eq_pattern_iff.2
        ⟨Option.isSome_of_eq_some hvalue, hpattern p rfl, value?_self hread⟩
    · obtain ⟨hsome, -, hread⟩ := decode_eq_pattern_iff.1 h
      refine Fits.value?_eq (.inr ?_) hread
      rcases hfits with rfl | hn
      · exact hsome
      · exact hn

end NodeValue

/-! What is not `null` is not written as `null`. -/

theorem ne_null_of_value? {n : Nesting} {j v : Json} (hj : j ≠ .null) (h : value? n j = some v) :
    v ≠ .null := by
  rintro rfl
  cases j with
  | null => exact hj rfl
  | array items =>
    obtain ⟨_, _, -, -, h⟩ := value?_array_eq_some_iff.1 h
    cases h
  | object members =>
    obtain ⟨_, _, -, -, h⟩ := value?_object_eq_some_iff.1 h
    cases h
  | _ => cases h

theorem neverNull_string (s : String) : Row.NeverNull Decoder.string Json.string s := by
  intro _ _ _ _ h
  cases h

theorem Expression.neverNull (e : Expression) :
    Row.NeverNull Expression.decode Expression.encode e := by
  intro _ _ _ _ h
  cases h

theorem neverNull_value (v : Json) : Row.NeverNull Decoder.value id v :=
  fun _ _ hj h => ne_null_of_value? hj h

theorem Node.neverNull (x : Node) : Row.NeverNull Node.decode Node.encode x := by
  intro _ _ _ _ h
  rw [encode_eq] at h
  cases h

theorem NodeValue.neverNull (v : NodeValue) :
    Row.NeverNull (decode Node.decode) encode v := by
  intro n j hj h
  cases v with
  | nodes nodes =>
    intro h
    cases h
  | pattern p => exact ne_null_of_value? hj (decode_eq_pattern_iff.1 h).2.2

namespace Node

open Row

/-- **An unambiguous node is read again from what it is written as.** -/
theorem stable {x : Node} (h : x.Unambiguous) : Stable decode encode x := by
  induction h with
  | @intro x hpattern _ ih =>
    refine .record decode_eq_some_iff x.encode_eq (by decide) rfl fun r hx => ?_
    -- the nodes below are stable by induction, wherever they stand
    have hattributes : ∀ m ∈ x.attributes, Stable decode encode m :=
      fun m hm => ih m (by simp [subnodes, hm])
    have hchildren : ∀ m ∈ x.children, Stable decode encode m :=
      fun m hm => ih m (by simp [subnodes, contents, hm])
    have hvalue : ∀ v ∈ x.value, Stable (NodeValue.decode decode) NodeValue.encode v := by
      refine fun v hv => NodeValue.stable (fun p hp => hpattern p (hp ▸ hv)) ?_
      rintro nodes rfl m hm
      refine ih m ?_
      have hvalue : x.value = some (.nodes nodes) := hv
      simp [subnodes, contents, listedNodes, hvalue, hm]
    have hbranch : ∀ branch ∈ [x.pending, x.thenBranch, x.catchBranch, x.elseBranch],
        ∀ m ∈ branch, Stable decode encode m := by
      intro branch hbranch m hm
      refine ih m ?_
      simp only [List.mem_cons, List.not_mem_nil, or_false] at hbranch
      rcases hbranch with rfl | rfl | rfl | rfl <;>
        simp [subnodes, contents, Option.mem_def.1 hm]
    -- so every field is kept
    have kind := Keeps.required hx.kind (NodeKind.stable _)
    have start := Keeps.required hx.start (stable_word _)
    have stop := Keeps.required hx.stop (stable_word _)
    have name := Keeps.optional hx.name (fun s _ => stable_string s) (fun s _ => neverNull_string s)
    have expression := Keeps.optional hx.expression (fun e _ => e.stable)
      (fun e _ => e.neverNull)
    have context := Keeps.optional hx.context (fun v _ => stable_value v)
      (fun v _ => neverNull_value v)
    have index := Keeps.optional hx.index (fun v _ => stable_value v)
      (fun v _ => neverNull_value v)
    have value := Keeps.optional hx.value hvalue (fun v _ => v.neverNull)
    have error := Keeps.optional hx.error (fun v _ => stable_value v)
      (fun v _ => neverNull_value v)
    have attributes := Keeps.list hx.attributes hattributes
    have children := Keeps.list hx.children hchildren
    have pending := Keeps.optional hx.pending (hbranch _ (by simp)) (fun m _ => m.neverNull)
    have thenBranch := Keeps.optional hx.thenBranch (hbranch _ (by simp)) (fun m _ => m.neverNull)
    have catchBranch := Keeps.optional hx.catchBranch (hbranch _ (by simp))
      (fun m _ => m.neverNull)
    have elseBranch := Keeps.optional hx.elseBranch (hbranch _ (by simp)) (fun m _ => m.neverNull)
    refine ⟨fun hget => ?_, fun n hfits => ?_⟩
    · exact {
        kind := kind.reread ((hget _).trans rfl)
        start := start.reread ((hget _).trans rfl)
        stop := stop.reread ((hget _).trans rfl)
        name := name.reread ((hget _).trans rfl)
        expression := expression.reread ((hget _).trans rfl)
        context := context.reread ((hget _).trans rfl)
        index := index.reread ((hget _).trans rfl)
        value := value.reread ((hget _).trans rfl)
        error := error.reread ((hget _).trans rfl)
        attributes := attributes.reread ((hget _).trans rfl)
        children := children.reread ((hget _).trans rfl)
        pending := pending.reread ((hget _).trans rfl)
        thenBranch := thenBranch.reread ((hget _).trans rfl)
        catchBranch := catchBranch.reread ((hget _).trans rfl)
        elseBranch := elseBranch.reread ((hget _).trans rfl) }
    · simp only [fieldCells, List.forall_mem_cons]
      exact ⟨kind.value hfits, start.value hfits, stop.value hfits, name.value hfits,
        expression.value hfits, context.value hfits, index.value hfits, value.value hfits,
        error.value hfits, attributes.value hfits, children.value hfits, pending.value hfits,
        thenBranch.value hfits, catchBranch.value hfits, elseBranch.value hfits,
        List.forall_mem_nil _⟩

/-! Documents without repeated names have no ambiguous patterns. -/

theorem mem_parts_of_list {d : Decoder Node} {n : Nesting} {j : Json} {nodes : List Node}
    (h : Decoder.list d n j = some nodes) {m : Node} (hm : m ∈ nodes) :
    ∃ inner, ∃ part ∈ j.parts, d inner part = some m := by
  obtain ⟨items, inner, rfl, -, hitems⟩ := list_eq_some_iff.1 h
  obtain ⟨item, hitem, hread⟩ := exists_of_mem_right hitems hm
  exact ⟨inner, item, hitem, hread⟩

theorem mem_subnodes_iff {x m : Node} : m ∈ x.subnodes ↔
    m ∈ x.attributes ∨ (∃ nodes, x.value = some (.nodes nodes) ∧ m ∈ nodes) ∨ m ∈ x.children ∨
      m ∈ x.pending ∨ m ∈ x.thenBranch ∨ m ∈ x.catchBranch ∨ m ∈ x.elseBranch := by
  have hlisted : m ∈ x.listedNodes ↔ ∃ nodes, x.value = some (.nodes nodes) ∧ m ∈ nodes := by
    unfold listedNodes
    split
    · next nodes hvalue => simp [hvalue]
    · next hvalue => simpa using fun nodes hnodes => (hvalue nodes hnodes).elim
  simp only [subnodes, contents, List.mem_append, Option.mem_toList, Option.mem_def, hlisted,
    or_assoc]

/-- The nodes below a node are read from the parts of its document, or from the parts of these. -/
theorem exists_of_mem_subnodes {n : Nesting} {j : Json} {x m : Node} (h : decode n j = some x)
    (hm : m ∈ x.subnodes) : ∃ inner part, decode inner part = some m ∧
      (part ∈ j.parts ∨ ∃ whole ∈ j.parts, part ∈ whole.parts) := by
  obtain ⟨r, hr, hx⟩ := decode_eq_some_iff.1 h
  have hparts := (row_parts hr).2.2
  have hbranch : ∀ {name : String} {branch : Option Node}, r.optional name decode = some branch →
      m ∈ branch → ∃ inner part, decode inner part = some m ∧
        (part ∈ j.parts ∨ ∃ whole ∈ j.parts, part ∈ whole.parts) := by
    intro name branch hread hmem
    obtain ⟨c, hc, -, hread⟩ := optional_cases hread m hmem
    exact ⟨r.inner, c, hread, .inl (hparts name c hc)⟩
  have hlist : ∀ {name : String} {nodes : List Node},
      r.orElse name [] (Decoder.list decode) = some nodes →
      m ∈ nodes → ∃ inner part, decode inner part = some m ∧
        (part ∈ j.parts ∨ ∃ whole ∈ j.parts, part ∈ whole.parts) := by
    intro name nodes hread hmem
    rcases orElse_cases hread with ⟨-, rfl⟩ | ⟨c, hc, hread⟩
    · cases hmem
    · obtain ⟨inner, part, hpart, hread⟩ := mem_parts_of_list hread hmem
      exact ⟨inner, part, hread, .inr ⟨c, hparts name c hc, hpart⟩⟩
  rcases mem_subnodes_iff.1 hm with hm | ⟨nodes, hvalue, hm⟩ | hm | hm | hm | hm | hm
  · exact hlist hx.attributes hm
  · obtain ⟨c, hc, -, hread⟩ := optional_cases hx.value _ hvalue
    obtain ⟨inner, part, hpart, hread⟩ :=
      mem_parts_of_list (NodeValue.decode_eq_nodes_iff.1 hread).2 hm
    exact ⟨inner, part, hread, .inr ⟨c, hparts _ c hc, hpart⟩⟩
  · exact hlist hx.children hm
  · exact hbranch hx.pending hm
  · exact hbranch hx.thenBranch hm
  · exact hbranch hx.catchBranch hm
  · exact hbranch hx.elseBranch hm

/-- **A node read from a document without repeated names is unambiguous**: its patterns are what
could not be read as a list of nodes. -/
theorem unambiguous_of_isValue {n : Nesting} {j : Json} {x : Node} (h : decode n j = some x)
    (hj : j.IsValue) : x.Unambiguous := by
  induction x using subnodes_induction generalizing n j with
  | step x ih =>
    refine .intro (fun p hp => ?_) fun m hm => ?_
    · obtain ⟨r, hr, hx⟩ := decode_eq_some_iff.1 h
      obtain ⟨c, hc, -, hread⟩ := optional_cases hx.value _ hp
      obtain ⟨-, hlist, hvalue⟩ := NodeValue.decode_eq_pattern_iff.1 hread
      -- the pattern is the document it was read from, as no name was dropped from it
      have hc' : c.IsValue := hj.of_mem_parts ((row_parts hr).2.2 _ c hc)
      obtain rfl : c = p := Option.some.inj (hc'.symm.trans hvalue)
      exact hlist
    · obtain ⟨inner, part, hread, hpart | ⟨whole, hwhole, hpart⟩⟩ := exists_of_mem_subnodes h hm
      · exact ih m hm hread (hj.of_mem_parts hpart)
      · exact ih m hm hread ((hj.of_mem_parts hwhole).of_mem_parts hpart)

/-! Only unambiguous nodes are read again. -/

theorem decode_encode_of_list {n : Nesting} {nodes : List Node}
    (h : Decoder.list decode n (.array (nodes.map encode)) = some nodes) {m : Node}
    (hm : m ∈ nodes) : ∃ inner, decode inner m.encode = some m := by
  obtain ⟨items, inner, hitems, -, hread⟩ := list_eq_some_iff.1 h
  cases hitems
  exact ⟨inner, List.forall₂_same.1 (List.forall₂_map_left_iff.1 hread) m hm⟩

/-- The row of a written node holds what it was written with. -/
theorem get?_of_row_encode {n : Nesting} {x : Node} {r : Row}
    (h : Decoder.row fields n x.encode = some r) (name : String) :
    r.cells.get? name = (x.fieldCells.lookup name).join := by
  rw [encode_eq] at h
  exact get?_of_row_cells (by decide) rfl h name

/-- If a node is read again, so are the nodes below it. -/
theorem decode_encode_of_mem_subnodes {n : Nesting} {x m : Node} (h : decode n x.encode = some x)
    (hm : m ∈ x.subnodes) : ∃ inner, decode inner m.encode = some m := by
  obtain ⟨r, hr, hx⟩ := decode_eq_some_iff.1 h
  have hbranch : ∀ {name : String} {branch : Option Node}, r.optional name decode = some branch →
      r.cells.get? name = branch.map encode → m ∈ branch →
      ∃ inner, decode inner m.encode = some m := by
    intro name branch hread hcell hmem
    obtain ⟨c, hc, -, hread⟩ := optional_cases hread m hmem
    obtain rfl := Option.mem_def.1 hmem
    obtain rfl : c = m.encode := Option.some.inj (hc.symm.trans hcell)
    exact ⟨r.inner, hread⟩
  have hlist : ∀ {name : String} {nodes : List Node},
      r.orElse name [] (Decoder.list decode) = some nodes →
      r.cells.get? name = listCell nodes → m ∈ nodes →
      ∃ inner, decode inner m.encode = some m := by
    intro name nodes hread hcell hmem
    have hcell' : listCell nodes = some (.array (nodes.map encode)) := by
      rw [listCell, if_neg]
      rw [List.isEmpty_iff]
      exact List.ne_nil_of_mem hmem
    rw [orElse_of_get?_eq_some (hcell.trans hcell')] at hread
    exact decode_encode_of_list hread hmem
  have hget := get?_of_row_encode hr
  rcases mem_subnodes_iff.1 hm with hm | ⟨nodes, hvalue, hm⟩ | hm | hm | hm | hm | hm
  · exact hlist hx.attributes ((hget _).trans rfl) hm
  · obtain ⟨c, hc, -, hread⟩ := optional_cases hx.value _ hvalue
    have hcell : r.cells.get? "value" = x.value.map NodeValue.encode := (hget _).trans rfl
    rw [hvalue] at hcell
    obtain rfl : c = .array (nodes.map encode) := Option.some.inj (hc.symm.trans hcell)
    exact decode_encode_of_list (NodeValue.decode_eq_nodes_iff.1 hread).2 hm
  · exact hlist hx.children ((hget _).trans rfl) hm
  · exact hbranch hx.pending ((hget _).trans rfl) hm
  · exact hbranch hx.thenBranch ((hget _).trans rfl) hm
  · exact hbranch hx.catchBranch ((hget _).trans rfl) hm
  · exact hbranch hx.elseBranch ((hget _).trans rfl) hm

/-- Only an unambiguous node is read again from what it is written as. -/
theorem unambiguous_of_decode_encode {n : Nesting} {x : Node} (h : decode n x.encode = some x) :
    x.Unambiguous := by
  induction x using subnodes_induction generalizing n with
  | step x ih =>
    refine .intro (fun p hp => ?_) fun m hm => ?_
    · obtain ⟨r, hr, hx⟩ := decode_eq_some_iff.1 h
      obtain ⟨c, hc, -, hread⟩ := optional_cases hx.value _ hp
      have hcell : r.cells.get? "value" = x.value.map NodeValue.encode :=
        (get?_of_row_encode hr _).trans rfl
      rw [hp] at hcell
      obtain rfl : c = p := Option.some.inj (hc.symm.trans hcell)
      exact (NodeValue.decode_eq_pattern_iff.1 hread).2.1
    · obtain ⟨inner, hread⟩ := decode_encode_of_mem_subnodes h hm
      exact ih m hm hread

end Node

end ComponentLint
