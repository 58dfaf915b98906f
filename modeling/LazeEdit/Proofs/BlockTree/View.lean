import LazeEdit.Analysis
import LazeEdit.Proofs.BlockTree.Reading
import LazeEdit.Proofs.Completion.View
import LazeEdit.Proofs.Scope.Events
import Mathlib.Data.List.Sort

/-!
# The view into a tree of blocks

The events of a document that is a tree of blocks are those of an outline (`events_text`): braces
and declarations stand at different offsets, so that there is only one way to put them in order. The
scopes of the outline are the blocks of the tree, and without a period in the text no cursor asks
for members. The view from a cursor is then what is declared directly in the blocks around it, from
the innermost block outwards (`visibleAt_blockTree`).
-/

namespace LazeEdit

/-! ### Events in order -/

lemma braceEventsFrom_eq_nil {t : Text} (h : ∀ c ∈ t, ¬ isOpenBrace c ∧ ¬ isCloseBrace c)
    (offset : Nat) : braceEventsFrom offset t = [] := by
  induction t generalizing offset with
  | nil => rfl
  | cons c t ih =>
    obtain ⟨hopen, hclose⟩ := h c List.mem_cons_self
    rw [braceEventsFrom, if_neg hopen, if_neg hclose]
    exact ih (fun d hd => h d (List.mem_cons_of_mem c hd)) _

namespace BlockTree

/-- The outline of a tree whose text begins at an offset. -/
def outline (offset : Nat) : BlockTree → Outline
  | done => .done
  | declares v next =>
    .declares .value ⟨(offset + v.type.length + 1 : Nat), v.name, some v.type⟩
      (next.outline (offset + v.line.length))
  | block body next =>
    .block [] ⟨offset, [], none⟩ (body.outline (offset + 2))
      ⟨(offset + 2 + body.text.length : Nat), [], none⟩
      (next.outline (offset + 2 + body.text.length + 2))

lemma braceEventsFrom_line (v : TypedName) (offset : Nat) : braceEventsFrom offset v.line = [] := by
  apply braceEventsFrom_eq_nil
  intro c hc
  obtain hname | hmark := v.of_mem_line hc
  · have hopen : openBraces.all (! isNameChar ·) := by decide
    have hclose : closeBraces.all (! isNameChar ·) := by decide
    simp only [isOpenBrace, isCloseBrace, List.contains_iff_mem]
    constructor
    · intro h
      simpa [hname] using List.all_eq_true.mp hopen c h
    · intro h
      simpa [hname] using List.all_eq_true.mp hclose c h
  · obtain rfl | rfl | rfl : c = ':' ∨ c = ';' ∨ c = '\n' := by simpa using hmark
    all_goals decide

lemma braceEventsFrom_block (body next : BlockTree) (offset : Nat) :
    braceEventsFrom offset (block body next).text
      = ⟨offset, .opens .scope, [], none⟩ :: (braceEventsFrom (offset + 2) body.text
        ++ ⟨(offset + 2 + body.text.length : Nat), .closes .scope, [], none⟩
          :: braceEventsFrom (offset + 2 + body.text.length + 2) next.text) := by
  rw [text, braceEventsFrom, if_pos (by decide), braceEventsFrom, if_neg (by decide),
    if_neg (by decide), braceEventsFrom_append, braceEventsFrom, if_neg (by decide),
    if_pos (by decide), braceEventsFrom, if_neg (by decide), if_neg (by decide)]

/-- The events of the braces and declarations of a tree are those of its outline. -/
lemma events_perm (tree : BlockTree) (offset : Nat) :
    (braceEventsFrom offset tree.text ++ (tree.declarations offset).map (·.event .value)).Perm
      (tree.outline offset).events := by
  induction tree generalizing offset with
  | done => exact .nil
  | declares v next ih =>
    rw [text, braceEventsFrom_append, braceEventsFrom_line, List.nil_append]
    exact List.perm_middle.trans ((ih _).cons _)
  | block body next ihBody ihNext =>
    have hdeclarations : (block body next).declarations offset
        = body.declarations (offset + 2)
          ++ next.declarations (offset + 2 + body.text.length + 2) := rfl
    rw [braceEventsFrom_block, hdeclarations, List.map_append]
    apply List.perm_iff_count.mpr
    intro e
    have hbody := (ihBody (offset + 2)).count_eq e
    have hnext := (ihNext (offset + 2 + body.text.length + 2)).count_eq e
    show _ = (_ :: ((body.outline (offset + 2)).events ++ _ :: Outline.events _)).count e
    simp only [List.count_append, List.count_cons, Mark.event] at hbody hnext ⊢
    omega

lemma bounds_of_mem_events {tree : BlockTree} {offset : Nat} {e : ScopeEvent}
    (h : e ∈ (tree.outline offset).events) :
    (offset : Int) ≤ e.offset ∧ e.offset < (offset + tree.text.length : Nat) := by
  induction tree generalizing offset with
  | done => cases h
  | declares v next ih =>
    rw [text, List.length_append]
    have hline := v.length_line
    obtain rfl | h := List.mem_cons.mp h
    · simp only [Mark.event]
      omega
    · have := ih h
      omega
  | block body next ihBody ihNext =>
    rw [length_text_block]
    obtain rfl | h := List.mem_cons.mp h
    · simp only [Mark.event]
      omega
    obtain h | h := List.mem_append.mp h
    · have := ihBody h
      omega
    obtain rfl | h := List.mem_cons.mp h
    · simp only [Mark.event]
      omega
    · have := ihNext h
      omega

lemma events_pairwise (tree : BlockTree) (offset : Nat) :
    (tree.outline offset).events.Pairwise (fun a b => a.offset < b.offset) := by
  induction tree generalizing offset with
  | done => exact .nil
  | declares v next ih =>
    refine .cons ?_ (ih _)
    intro e he
    have hline := v.length_line
    have := bounds_of_mem_events he
    simp only [Mark.event]
    omega
  | block body next ihBody ihNext =>
    have hnext : ∀ e ∈ (next.outline (offset + 2 + body.text.length + 2)).events,
        (offset + 2 + body.text.length : Nat) < e.offset := by
      intro e he
      have := bounds_of_mem_events he
      omega
    have hbody : ∀ e ∈ (body.outline (offset + 2)).events,
        (offset : Int) < e.offset ∧ e.offset < (offset + 2 + body.text.length : Nat) := by
      intro e he
      have := bounds_of_mem_events he
      omega
    refine .cons ?_ (List.pairwise_append.mpr ⟨ihBody _, .cons hnext (ihNext _), ?_⟩)
    · intro e he
      obtain he | he := List.mem_append.mp he
      · exact (hbody e he).1
      obtain rfl | he := List.mem_cons.mp he
      · simp only [Mark.event]
        omega
      · have := hnext e he
        simp only [Mark.event]
        omega
    · intro d hd e he
      have hlt := (hbody d hd).2
      obtain rfl | he := List.mem_cons.mp he
      · exact hlt
      · exact Int.lt_trans hlt (hnext e he)

/-- The events of a document that is a tree are those of its outline. -/
lemma events_text (tree : BlockTree) :
    (analyze tree.text).events
      = (Outline.document ⟨0, [], none⟩ (tree.outline 0) ⟨tree.text.length, [], none⟩).events := by
  have hstrict := events_pairwise tree 0
  have hperm : ((innerEvents tree.text (classify tree.text)).mergeSort
      fun a b => a.offset ≤ b.offset).Perm (tree.outline 0).events := by
    apply (List.mergeSort_perm _ _).trans
    rw [innerEvents_text]
    exact events_perm tree 0
  -- no two events stand at one offset
  have hnodup : ((tree.outline 0).events.map ScopeEvent.offset).Nodup :=
    List.pairwise_map.mpr (hstrict.imp Int.ne_of_lt)
  have hinner : (innerEvents tree.text (classify tree.text)).mergeSort
      (fun a b => a.offset ≤ b.offset) = (tree.outline 0).events := by
    refine List.Perm.eq_of_pairwise ?_
      (List.pairwise_mergeSort offset_le_trans offset_le_total _)
      (hstrict.imp fun hlt => decide_eq_true (Int.le_of_lt hlt)) hperm
    intro a b ha hb hab hba
    apply List.inj_on_of_nodup_map hnodup (hperm.mem_iff.mp ha) hb
    exact Int.le_antisymm (of_decide_eq_true hab) (of_decide_eq_true hba)
  show scopeEvents (maskText tree.text) (classify (maskText tree.text)) = _
  rw [maskText_text, scopeEvents, hinner]
  rfl

end BlockTree

/-! ### Blocks as scopes -/

/-- The symbol of a variable. -/
def TypedName.symbol (v : TypedName) : Symbol :=
  ⟨.value, v.name, some v.type, .everyone⟩

/-- The scope of a block. -/
def Block.scope (b : Block) : Scope :=
  ⟨b.start, b.stop, b.declared.map TypedName.symbol, []⟩

namespace BlockTree

/-- A tree has no conditions or steps of loops. -/
lemma clauses_outline (tree : BlockTree) (offset : Nat) : (tree.outline offset).clauses = [] := by
  induction tree generalizing offset with
  | done => rfl
  | declares v next ih => exact ih _
  | block body next ihBody ihNext =>
    rw [outline, Outline.clauses, ihBody, ihNext]
    rfl

lemma declared_outline (tree : BlockTree) (offset : Nat) :
    (tree.outline offset).declared .everyone = tree.direct.map TypedName.symbol := by
  induction tree generalizing offset with
  | done => rfl
  | declares v next ih => exact congrArg (v.symbol :: ·) (ih _)
  | block body next _ ihNext => exact ihNext _

/-- A tree declares no classes. -/
lemma classBodies_outline (tree : BlockTree) (offset : Nat) :
    (tree.outline offset).classBodies .everyone none = [] ∧
      (tree.outline offset).waitingClass none = none := by
  induction tree generalizing offset with
  | done => exact ⟨rfl, rfl⟩
  | declares v next ih => exact ih _
  | block body next ihBody ihNext =>
    obtain ⟨hbodies, hwaiting⟩ := ihBody (offset + 2)
    obtain ⟨hbodies', hwaiting'⟩ := ihNext (offset + 2 + body.text.length + 2)
    rw [outline, Outline.classBodies, Outline.waitingClass, hbodies, hwaiting, hbodies', hwaiting']
    exact ⟨rfl, rfl⟩

/-- The scopes of the outline of a tree are its blocks. -/
lemma scopes_outline (tree : BlockTree) (offset : Nat) :
    ((tree.outline offset).scopes .everyone none []).all
      = (tree.blocks offset).map Block.scope := by
  induction tree generalizing offset with
  | done => rfl
  | declares v next ih => exact ih _
  | block body next ihBody ihNext =>
    obtain ⟨hbodies, hwaiting⟩ := body.classBodies_outline (offset + 2)
    rw [outline, Outline.scopes, Outline.blockSymbols, declared_outline, hbodies, hwaiting]
    show Forest.all _ ++ _ :: Forest.all _ = _
    rw [ihBody, blocks, List.map_append, List.map_cons]
    exact congrArg (_ ++ _ :: ·) (ihNext _)

lemma scopes_document (tree : BlockTree) :
    ((Outline.document ⟨0, [], none⟩ (tree.outline 0) ⟨tree.text.length, [], none⟩).scopes
      .everyone none []).all = tree.allBlocks.map Block.scope := by
  obtain ⟨hbodies, _⟩ := tree.classBodies_outline 0
  rw [Outline.document, Outline.scopes, Outline.blockSymbols, declared_outline, hbodies]
  show Forest.all _ ++ [_] = _
  rw [scopes_outline, allBlocks, List.map_append]
  rfl

end BlockTree

/-! ### The view from a cursor -/

/-- Without a period there is no receiver. -/
lemma receiverAt_text (tree : BlockTree) (cursor : Int) : receiverAt tree.text cursor = none := by
  have hperiods : periods.all (! isTreeChar ·) := by decide
  rw [receiverAt, receiverReversed?]
  split
  case h_1 => rfl
  case h_2 c before hback =>
    have hmem : c ∈ tree.text := by
      have hdrop : c ∈ (tree.text.take cursor.toNat).reverse.dropWhile isBlank :=
        hback ▸ List.mem_cons_self
      exact List.mem_of_mem_take (List.mem_reverse.mp ((List.dropWhile_sublist _).subset hdrop))
    apply if_neg
    intro hperiod
    have hnot := List.all_eq_true.mp hperiods c (List.contains_iff_mem.mp hperiod)
    rw [isTreeChar_of_mem_text hmem] at hnot
    cases hnot

lemma offers_scope (b : Block) : b.scope.offers none = b.declared.map TypedName.symbol :=
  List.append_nil _

lemma around_scope (cursor : Nat) (b : Block) : b.scope.Around cursor ↔ b.Around cursor := by
  rw [Scope.Around, Block.Around, Block.scope, Int.ofNat_lt, Int.ofNat_le]

/-- The view from a cursor in a document that is a tree of blocks: the variables declared directly
in the blocks around the cursor, from the innermost block outwards and in the order of their
declarations, each with its type and for everyone. Blocks start and stop at their braces. -/
theorem visibleAt_blockTree (tree : BlockTree) (cursor : Nat) (h : cursor ≤ tree.text.length) :
    (∀ b ∈ tree.blocks 0,
      tree.text[b.start]? = some '\x7b' ∧ tree.text[b.stop]? = some '\x7d') ∧
    (tree.allBlocks.filter (Block.Around cursor)).Pairwise Block.Inside ∧
    visibleAt tree.text (analyze tree.text).events cursor
      = .ok ((tree.allBlocks.filter (Block.Around cursor)).flatMap
        fun b => b.declared.map TypedName.symbol) := by
  refine ⟨fun b => BlockTree.braces_of_mem_blocks, tree.allBlocks_around cursor, ?_⟩
  have houtside : ∀ c ∈ (Outline.document ⟨0, [], none⟩ (tree.outline 0)
      ⟨tree.text.length, [], none⟩).clauses, ¬ (c.1 < (cursor : Int) ∧ (cursor : Int) ≤ c.2) := by
    intro c hc
    rw [Outline.document, Outline.clauses, tree.clauses_outline] at hc
    cases hc
  rw [tree.events_text, visibleAt_document (Int.ofNat_le.mpr h) houtside, Forest.offered,
    receiverAt_text, tree.scopes_document, List.filter_map, List.flatMap_map]
  have hfilter : (fun s : Scope => decide (s.Around cursor)) ∘ Block.scope
      = fun b => decide (b.Around cursor) := by
    funext b
    exact decide_eq_decide.mpr (around_scope cursor b)
  have hoffers : (fun b : Block => b.scope.offers none)
      = fun b => b.declared.map TypedName.symbol := funext offers_scope
  rw [hfilter, hoffers]

/-- A variable, a block that declares another one, and a variable behind the block. The names begin
with words of the language. -/
def nestedTree : BlockTree :=
  .declares ⟨['整', '数'], ['整', '数', 'a'], by decide, by decide, by decide, by decide⟩ <|
  .block
    (.declares ⟨['文', '字', '列'], ['公', '開', 'b'], by decide, by decide, by decide, by decide⟩
      .done) <|
  .declares ⟨['実', '数'], ['関', '数', 'c'], by decide, by decide, by decide, by decide⟩ .done

theorem visibleAt_nestedTree :
    19 ≤ nestedTree.text.length ∧
    visibleAt nestedTree.text (analyze nestedTree.text).events (19 : Nat)
      = .ok [⟨.value, ['公', '開', 'b'], some ['文', '字', '列'], .everyone⟩,
          ⟨.value, ['整', '数', 'a'], some ['整', '数'], .everyone⟩,
          ⟨.value, ['関', '数', 'c'], some ['実', '数'], .everyone⟩] := by
  have hcursor : 19 ≤ nestedTree.text.length := by decide
  exact ⟨hcursor, (visibleAt_blockTree nestedTree 19 hcursor).2.2.trans (by decide)⟩

end LazeEdit
