import LazeEdit.Lexicon.Word
import LazeEdit.Proofs.Classification.Words

/-!
# Trees of blocks

A document that does nothing but declare variables, in blocks inside each other, is a tree.
`BlockTree.text` writes it out, a declaration or a brace to a line, and `BlockTree.allBlocks` tells
where its blocks stand and what is declared directly in each. Blocks are side by side or one inside
the other, so that those around a cursor are inside each other (`allBlocks_around`). The names of a
document are arbitrary; what matters of the characters of its text is which ones do not occur
(`isTreeChar_of_mem_text`), and that no word is read across the marks between the names
(`repeatWord_absent`).
-/

namespace LazeEdit

/-- A variable with a type of the language. Its name is no word of the language, and does not hold
the word that repeats a block. -/
structure TypedName where
  type : Text
  name : Text
  typed : type ∈ builtinTypeForms
  named : isName name
  free : name ∉ controlForms ++ keywordForms ++ builtinTypeForms
  single : ¬ repeatWord <:+: name
  deriving DecidableEq, Repr

/-- The line that declares a variable. -/
def TypedName.line (v : TypedName) : Text :=
  v.type ++ ':' :: (v.name ++ [';', '\n'])

/-- The variables and blocks of a block, in their order. -/
inductive BlockTree where
  | done
  | declares (v : TypedName) (next : BlockTree)
  | block (body next : BlockTree)
  deriving DecidableEq, Repr

/-- A block of a document: the offsets of its braces, and the variables declared directly in it. -/
structure Block where
  start : Nat
  stop : Nat
  declared : List TypedName
  deriving DecidableEq, Repr

namespace Block

/-- A block is around a cursor when it starts before it and does not stop before it. -/
def Around (cursor : Nat) (b : Block) : Prop :=
  b.start < cursor ∧ cursor ≤ b.stop

instance (cursor : Nat) (b : Block) : Decidable (b.Around cursor) :=
  inferInstanceAs (Decidable (_ ∧ _))

/-- A block lies inside another one. -/
def Inside (b outer : Block) : Prop :=
  outer.start ≤ b.start ∧ b.stop < outer.stop

end Block

namespace BlockTree

/-- The text of a tree. -/
def text : BlockTree → Text
  | done => []
  | declares v next => v.line ++ next.text
  | block body next => '\x7b' :: '\n' :: (body.text ++ '\x7d' :: '\n' :: next.text)

/-- The variables declared directly in a tree. -/
def direct : BlockTree → List TypedName
  | done => []
  | declares v next => v :: next.direct
  | block _ next => next.direct

/-- The blocks of a tree whose text begins at an offset, in the order of their ends. -/
def blocks (offset : Nat) : BlockTree → List Block
  | done => []
  | declares v next => next.blocks (offset + v.line.length)
  | block body next =>
    body.blocks (offset + 2)
      ++ ⟨offset, offset + 2 + body.text.length, body.direct⟩
        :: next.blocks (offset + 2 + body.text.length + 2)

/-- The blocks of a document, itself included. -/
def allBlocks (tree : BlockTree) : List Block :=
  tree.blocks 0 ++ [⟨0, tree.text.length, tree.direct⟩]

/-! ### Where blocks stand -/

variable {tree : BlockTree} {offset : Nat} {b : Block}

lemma length_text_block (body next : BlockTree) :
    (block body next).text.length = 2 + body.text.length + 2 + next.text.length := by
  simp only [text, List.length_cons, List.length_append]
  omega

lemma bounds_of_mem_blocks (h : b ∈ tree.blocks offset) :
    offset ≤ b.start ∧ b.start < b.stop ∧ b.stop < offset + tree.text.length := by
  induction tree generalizing offset with
  | done => cases h
  | declares v next ih =>
    have := ih h
    rw [text, List.length_append]
    omega
  | block body next ihBody ihNext =>
    rw [length_text_block]
    obtain h | h := List.mem_append.mp h
    · have := ihBody h
      omega
    obtain rfl | h := List.mem_cons.mp h
    · dsimp only
      omega
    · have := ihNext h
      omega

lemma exists_braces_of_mem_blocks (h : b ∈ tree.blocks offset) : ∃ before inner behind,
    tree.text = before ++ '\x7b' :: (inner ++ '\x7d' :: behind) ∧
      b.start = offset + before.length ∧ b.stop = offset + before.length + 1 + inner.length := by
  induction tree generalizing offset with
  | done => cases h
  | declares v next ih =>
    obtain ⟨before, inner, behind, e, hstart, hstop⟩ := ih h
    refine ⟨v.line ++ before, inner, behind, ?_, ?_, ?_⟩
    · rw [text, e, List.append_assoc]
    · rw [List.length_append]
      omega
    · rw [List.length_append]
      omega
  | block body next ihBody ihNext =>
    obtain h | h := List.mem_append.mp h
    · obtain ⟨before, inner, behind, e, hstart, hstop⟩ := ihBody h
      refine ⟨'\x7b' :: '\n' :: before, inner, behind ++ '\x7d' :: '\n' :: next.text, ?_, ?_, ?_⟩
      · simp only [text, e, List.append_assoc, List.cons_append]
      · simp only [List.length_cons]
        omega
      · simp only [List.length_cons]
        omega
    obtain rfl | h := List.mem_cons.mp h
    · refine ⟨[], '\n' :: body.text, '\n' :: next.text, rfl, rfl, ?_⟩
      simp only [List.length_cons, List.length_nil]
      omega
    · obtain ⟨before, inner, behind, e, hstart, hstop⟩ := ihNext h
      refine ⟨'\x7b' :: '\n' :: (body.text ++ '\x7d' :: '\n' :: before), inner, behind, ?_, ?_, ?_⟩
      · simp only [text, e, List.append_assoc, List.cons_append]
      · simp only [List.length_cons, List.length_append]
        omega
      · simp only [List.length_cons, List.length_append]
        omega

/-- A block starts at its opening brace and stops at its closing brace. -/
lemma braces_of_mem_blocks (h : b ∈ tree.blocks 0) :
    tree.text[b.start]? = some '\x7b' ∧ tree.text[b.stop]? = some '\x7d' := by
  obtain ⟨before, inner, behind, e, hstart, hstop⟩ := exists_braces_of_mem_blocks h
  have hinner : b.stop = (before ++ '\x7b' :: inner).length := by
    rw [List.length_append, List.length_cons]
    omega
  constructor
  · rw [e, hstart, Nat.zero_add, List.getElem?_append_right (Nat.le_refl _), Nat.sub_self]
    rfl
  · rw [e, ← List.cons_append, ← List.append_assoc, hinner,
      List.getElem?_append_right (Nat.le_refl _), Nat.sub_self]
    rfl

/-- Of two blocks the one that ends first stands before the other or inside it. -/
lemma blocks_pairwise (tree : BlockTree) (offset : Nat) :
    (tree.blocks offset).Pairwise (fun a b => a.stop < b.start ∨ a.Inside b) := by
  induction tree generalizing offset with
  | done => exact .nil
  | declares v next ih => exact ih _
  | block body next ihBody ihNext =>
    refine List.pairwise_append.mpr ⟨ihBody _, .cons ?_ (ihNext _), ?_⟩
    · intro b hb
      have := bounds_of_mem_blocks hb
      exact .inl (by dsimp only; omega)
    · intro a ha b hb
      have hinner := bounds_of_mem_blocks ha
      obtain rfl | hb := List.mem_cons.mp hb
      · exact .inr ⟨by dsimp only; omega, by dsimp only; omega⟩
      · have := bounds_of_mem_blocks hb
        exact .inl (by omega)

/-- The blocks of a document around a cursor lie inside each other. -/
lemma allBlocks_around (tree : BlockTree) (cursor : Nat) :
    (tree.allBlocks.filter (Block.Around cursor)).Pairwise Block.Inside := by
  have hall : tree.allBlocks.Pairwise (fun a b => a.stop < b.start ∨ a.Inside b) := by
    refine List.pairwise_append.mpr ⟨blocks_pairwise tree 0, List.pairwise_singleton _ _, ?_⟩
    intro a ha b hb
    obtain rfl := List.mem_singleton.mp hb
    have := bounds_of_mem_blocks ha
    exact .inr ⟨by dsimp only; omega, by dsimp only; omega⟩
  apply (hall.filter _).imp_of_mem
  intro a b ha hb hab
  -- blocks before each other are not around one cursor
  obtain ⟨_, hcursor⟩ := of_decide_eq_true (List.mem_filter.mp ha).2
  obtain ⟨hstart, _⟩ := of_decide_eq_true (List.mem_filter.mp hb).2
  obtain hbefore | hinside := hab
  · omega
  · exact hinside

end BlockTree

/-! ### The characters of a document -/

/-- The characters of the text of a tree. -/
def isTreeChar (c : Char) : Bool :=
  isNameChar c || [':', ';', '\n', '\x7b', '\x7d'].contains c

namespace TypedName

variable (v : TypedName)

lemma isName_type : isName v.type :=
  isName_of_mem_builtinTypeForms v.typed

lemma of_mem_line {c : Char} (h : c ∈ v.line) : isNameChar c ∨ c ∈ [':', ';', '\n'] := by
  obtain h | h := List.mem_append.mp h
  · exact .inl (isNameChar_of_mem_name v.isName_type c h)
  obtain rfl | h := List.mem_cons.mp h
  · exact .inr List.mem_cons_self
  obtain h | h := List.mem_append.mp h
  · exact .inl (isNameChar_of_mem_name v.named c h)
  · exact .inr (List.mem_cons_of_mem _ h)

end TypedName

lemma isTreeChar_of_mem_text {tree : BlockTree} {c : Char} (h : c ∈ tree.text) : isTreeChar c := by
  induction tree with
  | done => cases h
  | declares v next ih =>
    obtain h | h := List.mem_append.mp h
    · obtain hname | hmark := v.of_mem_line h
      · exact Bool.or_eq_true_iff.mpr (.inl hname)
      · have hmarks : [':', ';', '\n'].all isTreeChar := by decide
        exact List.all_eq_true.mp hmarks c hmark
    · exact ih h
  | block body next ihBody ihNext =>
    rw [BlockTree.text, List.mem_cons, List.mem_cons, List.mem_append, List.mem_cons,
      List.mem_cons] at h
    obtain rfl | rfl | h | rfl | rfl | h := h
    · decide
    · decide
    · exact ihBody h
    · decide
    · decide
    · exact ihNext h

/-- A word that does not hold a character is not read across it. -/
lemma infix_of_append_cons {w t u : Text} {c : Char} (hc : c ∉ w) (h : w <:+: t ++ c :: u) :
    w <:+: t ∨ w <:+: u := by
  obtain ⟨before, behind, h⟩ := h
  obtain ⟨rest, rfl, _⟩ | ⟨rest, e, hrest⟩ := List.append_eq_append_iff.mp h
  · exact .inl ⟨before, rest, rfl⟩
  cases rest with
  | nil =>
    rw [List.append_nil] at e
    exact .inl ⟨before, [], by rw [List.append_nil, e]⟩
  | cons d rest =>
    obtain ⟨rfl, rfl⟩ := List.cons.inj hrest
    obtain ⟨middle, _, rfl⟩ | ⟨middle, _, e⟩ := List.append_eq_append_iff.mp e
    · exact absurd (List.mem_append_right middle List.mem_cons_self) hc
    cases middle with
    | nil =>
      rw [List.nil_append] at e
      exact absurd (e ▸ List.mem_cons_self) hc
    | cons d middle =>
      obtain ⟨_, rfl⟩ := List.cons.inj e
      exact .inr ⟨middle, behind, rfl⟩

/-- Nothing in the text of a tree repeats a block. -/
lemma repeatWord_absent (tree : BlockTree) : ¬ repeatWord <:+: tree.text := by
  have htypes : ∀ w ∈ builtinTypeForms, ¬ repeatWord <:+: w := by decide
  have hmark : ∀ {c : Char} {t u : Text}, c ∉ repeatWord → ¬ repeatWord <:+: t →
      ¬ repeatWord <:+: u → ¬ repeatWord <:+: t ++ c :: u := by
    intro c t u hc ht hu h
    exact (infix_of_append_cons hc h).elim ht hu
  have hnil : ¬ repeatWord <:+: [] := by decide
  induction tree with
  | done => exact hnil
  | declares v next ih =>
    rw [BlockTree.text, TypedName.line, List.append_assoc, List.cons_append, List.append_assoc]
    apply hmark (by decide) (htypes v.type v.typed)
    apply hmark (by decide) v.single
    exact hmark (t := []) (by decide) hnil ih
  | block body next ihBody ihNext =>
    apply hmark (t := []) (by decide) hnil
    apply hmark (t := []) (by decide) hnil
    apply hmark (by decide) ihBody
    exact hmark (t := []) (by decide) hnil ihNext

end LazeEdit
