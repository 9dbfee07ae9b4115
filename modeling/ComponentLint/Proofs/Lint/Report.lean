import ComponentLint.Lint.Session
import Mathlib.Data.List.Sort

/-!
# The account of a report

Every message of a report comes from somewhere: from the compiler, or from a message of the linter
on a block.  A report is accounted for by the list of its messages with their origins, in which
nothing is lost, nothing stands twice, and messages at one position come in the order of their
origins.  The account of a report is what the session and the linter contribute, sorted; since the
sort is stable, an account is in order even where positions are equal.

An account is determined by what is contributed.  A block therefore has no influence on what the
other blocks contribute.

## Main definitions

* `MessageOrigin`, `MessageOrigin.Before` — where a message comes from, and the order of origins.
* `Entry`, `Entry.Before` — a message with its origin, and the order of entries.
* `Session.Contributes s lists e` — the session or the linter contributes an entry.
* `Session.Accounts s lists entries` — the entries account for the report.

## Main statements

* `filter_mergeSort_of_tied` — sorting is stable.
* `Session.pairwise_entries` — contributions in the order of their origins.
* `Entry.eq_of_pairwise_before` — entries in order are determined by their set.
* `Session.report_accounted` — **the report is accounted for, and a block has no influence on what
  the others contribute to it.**
-/

namespace ComponentLint

/-! ### Stable sorting -/

/-- Elements that an order does not tell apart stay in their order. -/
theorem filter_mergeSort_of_tied {α : Type} {le : α → α → Bool}
    (trans : ∀ a b c, le a b = true → le b c = true → le a c = true)
    (total : ∀ a b, (le a b || le b a) = true) {tied : α → Bool}
    (htied : ∀ a b, tied a = true → tied b = true → le a b = true) (l : List α) :
    (l.mergeSort le).filter tied = l.filter tied := by
  have hpairs : (l.filter tied).Pairwise (fun a b => le a b = true) :=
    List.pairwise_of_forall_mem_list fun a ha b hb =>
      htied a b (List.mem_filter.1 ha).2 (List.mem_filter.1 hb).2
  have hsublist := (List.sublist_mergeSort trans total hpairs List.filter_sublist).filter tied
  rw [List.filter_filter] at hsublist
  simp only [Bool.and_self] at hsublist
  exact (hsublist.eq_of_length ((List.mergeSort_perm l le).filter tied).length_eq.symm).symm

namespace Message

theorem notAfter_iff {a b : Message} :
    a.notAfter b = true ↔ a.line < b.line ∨ a.line = b.line ∧ a.column ≤ b.column := by
  simp [notAfter]

theorem notAfter_trans (a b c : Message) (hab : a.notAfter b = true) (hbc : b.notAfter c = true) :
    a.notAfter c = true := by
  rw [notAfter_iff] at *
  omega

theorem notAfter_total (a b : Message) : (a.notAfter b || b.notAfter a) = true := by
  rw [Bool.or_eq_true, notAfter_iff, notAfter_iff]
  omega

end Message

/-! ### Origins and entries -/

/-- Where a message of a report comes from. -/
inductive MessageOrigin where
  /-- A message of the compiler. -/
  | compiler (index : Nat)
  /-- A message of the linter on a block. -/
  | linter (block index : Nat)
  deriving DecidableEq, Repr

/-- The compiler comes before the linter, and the linter's messages come block by block. -/
inductive MessageOrigin.Before : MessageOrigin → MessageOrigin → Prop
  | compiler {k l : Nat} (h : k < l) : Before (.compiler k) (.compiler l)
  | compiler_linter {k i j : Nat} : Before (.compiler k) (.linter i j)
  | block {i i' j j' : Nat} (h : i < i') : Before (.linter i j) (.linter i' j')
  | message {i j j' : Nat} (h : j < j') : Before (.linter i j) (.linter i j')

theorem MessageOrigin.Before.asymm {o o' : MessageOrigin} (h : o.Before o') : ¬ o'.Before o := by
  intro h'
  cases h <;> cases h' <;> omega

/-- A message of a report, with its origin. -/
structure Entry where
  origin : MessageOrigin
  message : Message
  deriving DecidableEq, Repr

/-- Entries come by line and column, and at one position by origin. -/
def Entry.Before (a b : Entry) : Prop :=
  a.message.line < b.message.line ∨ a.message.line = b.message.line ∧
    (a.message.column < b.message.column ∨ a.message.column = b.message.column ∧
      a.origin.Before b.origin)

theorem Entry.Before.asymm {a b : Entry} (h : a.Before b) : ¬ b.Before a := by
  intro h'
  rcases h with h | ⟨hline, h | ⟨hcolumn, h⟩⟩ <;> rcases h' with h' | ⟨hline', h' | ⟨hcolumn', h'⟩⟩
  case inr.inr.inr.inr => exact h.asymm h'
  all_goals omega

/-- Entries in order are determined by their set. -/
theorem Entry.eq_of_pairwise_before {entries entries' : List Entry}
    (h : entries.Pairwise Before) (h' : entries'.Pairwise Before)
    (hmem : ∀ e, e ∈ entries ↔ e ∈ entries') : entries = entries' := by
  have hne : ∀ {a b : Entry}, a.Before b → a ≠ b := by
    rintro a _ hab rfl
    exact hab.asymm hab
  have hperm := (List.perm_ext_iff_of_nodup (h.imp hne) (h'.imp hne)).2 hmem
  exact hperm.eq_of_pairwise (fun a b _ _ hab hba => absurd hba hab.asymm) h h'

/-- Entries are sorted by the positions of their messages. -/
def Entry.notAfter (a b : Entry) : Bool := a.message.notAfter b.message

theorem Entry.notAfter_trans (a b c : Entry) (hab : a.notAfter b = true)
    (hbc : b.notAfter c = true) : a.notAfter c = true :=
  Message.notAfter_trans _ _ _ hab hbc

theorem Entry.notAfter_total (a b : Entry) : (a.notAfter b || b.notAfter a) = true :=
  Message.notAfter_total ..

/-- Whether an entry stands at the position of another. -/
def Entry.isBeside (a e : Entry) : Bool :=
  e.message.line == a.message.line && e.message.column == a.message.column

theorem Entry.isBeside_iff {a e : Entry} : a.isBeside e = true ↔
    e.message.line = a.message.line ∧ e.message.column = a.message.column := by
  simp [isBeside]

@[simp] theorem Entry.isBeside_self (a : Entry) : a.isBeside a = true :=
  isBeside_iff.2 ⟨rfl, rfl⟩

/-- Entries at one position are not told apart by it. -/
theorem Entry.notAfter_of_isBeside {a e e' : Entry} (h : a.isBeside e = true)
    (h' : a.isBeside e' = true) : e.notAfter e' = true := by
  rw [isBeside_iff] at h h'
  rw [notAfter, Message.notAfter_iff]
  omega

/-- Whether an entry comes from elsewhere than from the messages on a block. -/
def Entry.isApartFrom (i : Nat) (e : Entry) : Bool :=
  match e.origin with
  | .compiler _ => true
  | .linter i' _ => i' ≠ i

/-! ### Contributions -/

/-- The message that is reported for a message on a block. -/
def Block.restored? (b : Block) (names : List String) (m : Message) : Option Message :=
  match b.placementAt? m.line with
  | none => none
  | some p => if p.keeps b names m then some (p.restore b m) else none

theorem Block.restored?_eq_some_iff {b : Block} {names : List String} {m r : Message} :
    b.restored? names m = some r ↔
      ∃ p, b.placementAt? m.line = some p ∧ p.keeps b names m = true ∧ p.restore b m = r := by
  unfold restored?
  cases b.placementAt? m.line <;> simp

theorem Block.restoreMessages_eq (b : Block) (names : List String) (messages : List Message) :
    b.restoreMessages names messages = messages.filterMap (b.restored? names) := rfl

namespace Session

/-- What is contributed to a report: the messages of the compiler, and one message for each message
of the linter that is on a line of a fragment and does not come from the scaffolding. -/
inductive Contributes (s : Session) (lists : List (List Message)) : Entry → Prop
  | compiler {k : Nat} {m : Message} (h : s.messages[k]? = some m) :
    Contributes s lists ⟨.compiler k, m⟩
  | linter {i j : Nat} {name : String} {b : Block} {messages : List Message} {m : Message}
    {p : Placement} (hblock : s.blocks[i]? = some (name, b)) (hlist : lists[i]? = some messages)
    (hmessage : messages[j]? = some m) (hplacement : b.placementAt? m.line = some p)
    (hkeeps : p.keeps b s.names m = true) :
    Contributes s lists ⟨.linter i j, p.restore b m⟩

/-- The entries that a list of messages on a block contributes. -/
def blockEntries (names : List String) (i : Nat) (block : Block) (messages : List Message) :
    List Entry :=
  messages.zipIdx.filterMap fun (m, j) => (block.restored? names m).map (Entry.mk (.linter i j))

/-- All that is contributed, in the order of the origins. -/
def entries (s : Session) (lists : List (List Message)) : List Entry :=
  (s.messages.zipIdx.map fun (m, k) => ⟨.compiler k, m⟩) ++
    (s.blocks.zip lists).zipIdx.flatMap fun ((block, messages), i) =>
      blockEntries s.names i block.2 messages

theorem map_message_blockEntries (names : List String) (i : Nat) (block : Block)
    (messages : List Message) :
    (blockEntries names i block messages).map Entry.message =
      block.restoreMessages names messages := by
  have hfst : messages.zipIdx.map Prod.fst = messages := List.zipIdx_map_fst 0 messages
  conv_rhs => rw [← hfst]
  rw [blockEntries, List.map_filterMap, Block.restoreMessages_eq, List.filterMap_map]
  congr 1
  funext mj
  simp only [Option.map_map, Function.comp_def]
  exact Option.map_id' ..

/-- The messages of the entries are those that are sorted. -/
theorem map_message_entries (s : Session) (lists : List (List Message)) :
    (s.entries lists).map Entry.message = s.messages ++ (s.blocks.zip lists).flatMap
      fun (block, messages) => block.2.restoreMessages s.names messages := by
  have hmessages : s.messages.zipIdx.map Prod.fst = s.messages := List.zipIdx_map_fst ..
  have hzip : (s.blocks.zip lists).zipIdx.map Prod.fst = s.blocks.zip lists :=
    List.zipIdx_map_fst ..
  rw [entries, List.map_append, List.map_map, List.map_flatMap]
  congr 1
  conv_rhs => rw [← hzip, List.flatMap_map]
  simp only [map_message_blockEntries]

theorem mem_blockEntries_iff {names : List String} {i : Nat} {block : Block}
    {messages : List Message} {e : Entry} :
    e ∈ blockEntries names i block messages ↔
      ∃ j m, messages[j]? = some m ∧ ∃ r, block.restored? names m = some r ∧
        e = ⟨.linter i j, r⟩ := by
  simp only [blockEntries, List.mem_filterMap, List.mem_zipIdx_iff_getElem?, Prod.exists,
    Option.map_eq_some_iff]
  constructor
  · rintro ⟨m, j, hm, r, hr, rfl⟩
    exact ⟨j, m, hm, r, hr, rfl⟩
  · rintro ⟨j, m, hm, r, hr, rfl⟩
    exact ⟨m, j, hm, r, hr, rfl⟩

/-- The entries are what is contributed. -/
theorem mem_entries_iff {s : Session} {lists : List (List Message)} {e : Entry} :
    e ∈ s.entries lists ↔ s.Contributes lists e := by
  simp only [entries, List.mem_append, List.mem_map, List.mem_flatMap, Prod.exists,
    List.mem_zipIdx_iff_getElem?, mem_blockEntries_iff, List.getElem?_zip_eq_some]
  constructor
  · rintro (⟨m, k, hm, rfl⟩ | ⟨name, block, messages, i, ⟨hblock, hlist⟩, j, m, hm, r, hr, rfl⟩)
    · exact .compiler hm
    · obtain ⟨p, hp, hkeeps, rfl⟩ := Block.restored?_eq_some_iff.1 hr
      exact .linter hblock hlist hm hp hkeeps
  · intro h
    cases h with
    | compiler hm => exact .inl ⟨_, _, hm, rfl⟩
    | linter hblock hlist hm hp hkeeps =>
      have hr := Block.restored?_eq_some_iff.2 ⟨_, hp, hkeeps, rfl⟩
      exact .inr ⟨_, _, _, _, ⟨hblock, hlist⟩, _, _, hm, _, hr, rfl⟩

/-- The positions in a list increase. -/
theorem pairwise_zipIdx {α : Type} (l : List α) : l.zipIdx.Pairwise fun a b => a.2 < b.2 := by
  rw [← List.pairwise_map, List.zipIdx_map_snd]
  exact List.pairwise_lt_range'

theorem pairwise_blockEntries (names : List String) (i : Nat) (b : Block)
    (messages : List Message) :
    (blockEntries names i b messages).Pairwise fun a b => a.origin.Before b.origin := by
  rw [blockEntries, List.pairwise_filterMap]
  refine (pairwise_zipIdx messages).imp ?_
  rintro ⟨m, j⟩ ⟨m', j'⟩ hlt e he e' he'
  obtain ⟨_, -, rfl⟩ := Option.map_eq_some_iff.1 he
  obtain ⟨_, -, rfl⟩ := Option.map_eq_some_iff.1 he'
  exact .message hlt

/-- What is contributed stands in the order of the origins. -/
theorem pairwise_entries (s : Session) (lists : List (List Message)) :
    (s.entries lists).Pairwise fun a b => a.origin.Before b.origin := by
  rw [entries, List.pairwise_append, List.pairwise_map, List.pairwise_flatMap]
  refine ⟨?_, ⟨?_, ?_⟩, ?_⟩
  · exact (pairwise_zipIdx s.messages).imp fun h => .compiler h
  · rintro ⟨⟨block, messages⟩, i⟩ -
    exact pairwise_blockEntries ..
  · refine (pairwise_zipIdx (s.blocks.zip lists)).imp ?_
    rintro ⟨⟨block, messages⟩, i⟩ ⟨⟨block', messages'⟩, i'⟩ hlt e he e' he'
    obtain ⟨_, _, -, _, -, rfl⟩ := mem_blockEntries_iff.1 he
    obtain ⟨_, _, -, _, -, rfl⟩ := mem_blockEntries_iff.1 he'
    exact .block hlt
  · intro e he e' he'
    obtain ⟨_, -, rfl⟩ := List.mem_map.1 he
    obtain ⟨⟨⟨block, messages⟩, i⟩, -, he'⟩ := List.mem_flatMap.1 he'
    obtain ⟨_, _, -, _, -, rfl⟩ := mem_blockEntries_iff.1 he'
    exact .compiler_linter

/-! ### The account -/

/-- Entries account for a report: their messages are those of the report, they are what is
contributed, each once, and they come in order. -/
structure Accounts (s : Session) (lists : List (List Message)) (entries : List Entry) : Prop where
  report_eq : entries.map Entry.message = s.report lists
  mem_iff : ∀ e, e ∈ entries ↔ s.Contributes lists e
  nodup : (entries.map Entry.origin).Nodup
  ordered : entries.Pairwise Entry.Before

/-- The entries of a report, in the order of the report. -/
def account (s : Session) (lists : List (List Message)) : List Entry :=
  (s.entries lists).mergeSort Entry.notAfter

theorem account_perm (s : Session) (lists : List (List Message)) :
    (s.account lists).Perm (s.entries lists) :=
  List.mergeSort_perm ..

/-- Where positions are equal, the account has the order of the origins. -/
theorem pairwise_account (s : Session) (lists : List (List Message)) :
    (s.account lists).Pairwise Entry.Before := by
  rw [List.pairwise_iff_forall_sublist]
  intro a b hab
  have hsorted : a.notAfter b = true := List.pairwise_iff_forall_sublist.1
    (List.pairwise_mergeSort Entry.notAfter_trans Entry.notAfter_total _) hab
  rw [Entry.notAfter, Message.notAfter_iff] at hsorted
  by_cases htie : a.isBeside b = true
  · -- the entries at this position stand as they did before the sort
    have hfilter := hab.filter a.isBeside
    rw [List.filter_eq_self.2 (by simp [htie]), account,
      filter_mergeSort_of_tied Entry.notAfter_trans Entry.notAfter_total
        (fun _ _ => Entry.notAfter_of_isBeside)] at hfilter
    have horigin := List.pairwise_iff_forall_sublist.1 (s.pairwise_entries lists)
      (hfilter.trans List.filter_sublist)
    obtain ⟨hline, hcolumn⟩ := Entry.isBeside_iff.1 htie
    exact .inr ⟨hline.symm, .inr ⟨hcolumn.symm, horigin⟩⟩
  · rw [Entry.isBeside_iff] at htie
    unfold Entry.Before
    omega

theorem accounts_account (s : Session) (lists : List (List Message)) :
    s.Accounts lists (s.account lists) where
  report_eq := by
    have hmap : (s.account lists).map Entry.message =
        ((s.entries lists).map Entry.message).mergeSort Message.notAfter :=
      List.map_mergeSort fun _ _ _ _ => rfl
    rw [hmap, map_message_entries]
    rfl
  mem_iff e := by rw [(s.account_perm lists).mem_iff, mem_entries_iff]
  nodup := by
    rw [((s.account_perm lists).map _).nodup_iff, List.nodup_iff_pairwise_ne, List.pairwise_map]
    refine (s.pairwise_entries lists).imp ?_
    intro a b hab heq
    rw [heq] at hab
    exact hab.asymm hab
  ordered := s.pairwise_account lists

/-- What is contributed apart from a block does not depend on the messages on that block. -/
theorem Contributes.of_eq_elsewhere {s : Session} {lists lists' : List (List Message)} {i : Nat}
    (hlists : ∀ k, k ≠ i → lists[k]? = lists'[k]?) {e : Entry} (he : e.isApartFrom i = true)
    (h : s.Contributes lists e) : s.Contributes lists' e := by
  cases h with
  | compiler hm => exact .compiler hm
  | linter hblock hlist hm hp hkeeps =>
    rw [hlists _ (by simpa [Entry.isApartFrom] using he)] at hlist
    exact .linter hblock hlist hm hp hkeeps

/-- **The report is accounted for.**  For every session and all lists of messages on its blocks, the
report is made of the compiler's messages and of one message for each message of the linter that a
fragment covers and that is kept; messages are ordered by position, and at one position by origin.
Whatever the linter says on one block, what comes from elsewhere is the same and in the same
order. -/
theorem report_accounted (s : Session) (lists : List (List Message)) :
    ∃ entries, s.Accounts lists entries ∧
      ∀ (i : Nat) (lists' : List (List Message)), (∀ k, k ≠ i → lists[k]? = lists'[k]?) →
        ∃ entries', s.Accounts lists' entries' ∧
          entries'.filter (Entry.isApartFrom i) = entries.filter (Entry.isApartFrom i) := by
  refine ⟨s.account lists, s.accounts_account lists, fun i lists' hlists =>
    ⟨s.account lists', s.accounts_account lists', ?_⟩⟩
  -- both are in order, so that it is enough to compare what is in them
  refine Entry.eq_of_pairwise_before ((s.pairwise_account lists').filter _)
    ((s.pairwise_account lists).filter _) fun e => ?_
  simp only [List.mem_filter, (s.accounts_account _).mem_iff]
  constructor
  · rintro ⟨h, he⟩
    exact ⟨h.of_eq_elsewhere (fun k hk => (hlists k hk).symm) he, he⟩
  · rintro ⟨h, he⟩
    exact ⟨h.of_eq_elsewhere hlists he, he⟩

end Session

end ComponentLint
