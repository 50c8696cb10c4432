import LogoLang.Syntax.Outline
import Mathlib

set_option autoImplicit false

/-! # Trees written as indented rows

An outline is a tree of rows that is written line by line, each row indented by its depth
(`OutlineTree.write`). Its fields have no names in the text: which rows belong to which node is told by
the depths alone. This is enough to get the tree back, whatever follows it that is not deeper
(`rowsOf_append_inj`), and so the text of rows without a line feed determines the tree
(`OutlineTree.write_inj`). -/

namespace LogoLang

/-! ## Classes -/

/-- The classes of the nodes of a tree. -/
inductive NodeClass where
  | truth
  | number
  | variable
  | malformed
  | operator (op : BinaryOp)
  | query (q : Query)
  | functionName
  | block (kind : BlockKind)
  | assign (kind : AssignKind)
  | pen (down : Bool)
  | command (cmd : Command)
  | call
  | comment
  | heading
deriving DecidableEq

/-- The name of a class. -/
def NodeClass.text : NodeClass → Text
  | .truth => "Boolean".toList
  | .number => "Float".toList
  | .variable => variableClass
  | .malformed => "Error".toList
  | .operator op => op.className
  | .query q => q.className
  | .functionName => functionClass
  | .block kind => kind.className
  | .assign kind => kind.className
  | .pen down => penClassName down
  | .command cmd => cmd.className
  | .call => "Func".toList
  | .comment => "Comment".toList
  | .heading => "Decl".toList

/-- The operators, as classes. -/
def operatorClasses : List NodeClass :=
  [BinaryOp.add, .sub, .mul, .div, .eq, .ne, .lt, .gt, .and, .or].map NodeClass.operator

/-- The questions to the turtle, as classes. -/
def queryClasses : List NodeClass := [Query.x, .y, .heading, .color].map NodeClass.query

/-- The commands, as classes. -/
def commandClasses : List NodeClass :=
  [Command.forward, .back, .left, .right, .setPenColor, .turn, .setHeading, .setX, .setY].map
    NodeClass.command

/-- All classes. -/
def NodeClass.all : List NodeClass :=
  [.truth, .number, .variable, .malformed, .functionName, .block .branch, .block .loop, .assign .make,
    .assign .increase, .pen false, .pen true, .call, .comment, .heading] ++
      (operatorClasses ++ (queryClasses ++ commandClasses))

theorem NodeClass.mem_all (cls : NodeClass) : cls ∈ NodeClass.all := by
  cases cls with
  | operator op => cases op <;> decide
  | query q => cases q <;> decide
  | block kind => cases kind <;> decide
  | assign kind => cases kind <;> decide
  | pen down => cases down <;> decide
  | command cmd => cases cmd <;> decide
  | _ => decide

theorem NodeClass.text_injective : Function.Injective NodeClass.text := by
  have hnodup : (NodeClass.all.map NodeClass.text).Nodup := by decide +kernel
  exact fun cls cls' h => List.inj_on_of_nodup_map hnodup cls.mem_all cls'.mem_all h

/-- The name of a class is a word. -/
theorem NodeClass.text_word (cls : NodeClass) :
    '\t' ∉ cls.text ∧ '\n' ∉ cls.text ∧ cls.text.head? ≠ some ' ' ∧ cls.text ≠ [] := by
  have hall : ∀ cls ∈ NodeClass.all, '\t' ∉ cls.text ∧ '\n' ∉ cls.text ∧
      cls.text.head? ≠ some ' ' ∧ cls.text ≠ [] := by decide +kernel
  exact hall cls cls.mem_all

/-! ## Rows -/

/-- A row of an outline: the class of a node, and what the node itself holds. -/
structure OutlineRow where
  cls : NodeClass
  own : Option Text

/-- What stands in the line of a row after the class. -/
def OutlineRow.ownText (row : OutlineRow) : Text := row.own.elim [] outlineOwn

/-- The line of a row, without its indentation. -/
def OutlineRow.text (row : OutlineRow) : Text := row.cls.text ++ row.ownText

/-- A row that takes up one line only. -/
def OutlineRow.OneLine (row : OutlineRow) : Prop := ∀ own ∈ row.own, '\n' ∉ own

/-- Two texts are equal if they are up to a character that is in neither before. -/
theorem append_cons_inj_of_not_mem {c : Char} {before before' after after' : Text}
    (hbefore : c ∉ before) (hbefore' : c ∉ before')
    (h : before ++ c :: after = before' ++ c :: after') : before = before' ∧ after = after' := by
  induction before generalizing before' with
  | nil =>
    cases before' with
    | nil => exact ⟨rfl, (List.cons.inj h).2⟩
    | cons x rest =>
      obtain ⟨rfl, -⟩ := List.cons.inj h
      exact absurd List.mem_cons_self hbefore'
  | cons x rest ih =>
    cases before' with
    | nil =>
      obtain ⟨rfl, -⟩ := List.cons.inj h
      exact absurd List.mem_cons_self hbefore
    | cons x' rest' =>
      obtain ⟨rfl, htail⟩ := List.cons.inj h
      obtain ⟨rfl, hafter⟩ := ih (fun hc => hbefore (List.mem_cons_of_mem _ hc))
        (fun hc => hbefore' (List.mem_cons_of_mem _ hc)) htail
      exact ⟨rfl, hafter⟩

theorem OutlineRow.text_injective : Function.Injective OutlineRow.text := by
  rintro ⟨cls, own⟩ ⟨cls', own'⟩ h
  have htab := cls.text_word.1
  have htab' := cls'.text_word.1
  cases own with
  | none =>
    cases own' with
    | none =>
      simp only [text, ownText, Option.elim_none, List.append_nil] at h
      rw [NodeClass.text_injective h]
    | some t' =>
      simp only [text, ownText, Option.elim_none, List.append_nil, Option.elim_some, outlineOwn] at h
      exact absurd (h ▸ by simp) htab
  | some t =>
    cases own' with
    | none =>
      simp only [text, ownText, Option.elim_none, List.append_nil, Option.elim_some, outlineOwn] at h
      exact absurd (h ▸ by simp) htab'
    | some t' =>
      obtain ⟨hcls, rfl⟩ := append_cons_inj_of_not_mem htab htab' h
      rw [NodeClass.text_injective hcls]

theorem OutlineRow.OneLine.text {row : OutlineRow} (h : row.OneLine) : '\n' ∉ row.text := by
  obtain ⟨cls, own⟩ := row
  rw [OutlineRow.text, List.mem_append, not_or]
  refine ⟨cls.text_word.2.1, ?_⟩
  cases own with
  | none => exact List.not_mem_nil
  | some t => exact List.not_mem_cons_of_ne_of_not_mem (by decide) (h t rfl)

theorem OutlineRow.head?_text (row : OutlineRow) : row.text.head? ≠ some ' ' := by
  obtain ⟨-, -, hspace, hne⟩ := row.cls.text_word
  rw [OutlineRow.text, List.head?_append_of_ne_nil _ hne]
  exact hspace

/-! ## Rows written one after the other -/

/-- An indentation by which the depth of a row can be told: it starts with a space, and it does not
end a line. -/
structure IsIndent (indent : Text) : Prop where
  head : indent.head? = some ' '
  oneLine : '\n' ∉ indent

theorem isIndent_default : IsIndent defaultIndent := ⟨rfl, by decide⟩

/-- A row at a depth, without the end of its line. -/
def indentedRow (indent : Text) (entry : Nat × OutlineRow) : Text :=
  (List.replicate entry.1 indent).flatten ++ entry.2.text

/-- The text of rows. -/
def writeRows (indent : Text) (rows : List (Nat × OutlineRow)) : Text :=
  rows.flatMap fun entry => indentedRow indent entry ++ ['\n']

theorem writeRows_cons (indent : Text) (entry : Nat × OutlineRow) (rest : List (Nat × OutlineRow)) :
    writeRows indent (entry :: rest) = indentedRow indent entry ++ '\n' :: writeRows indent rest := by
  rw [writeRows, List.flatMap_cons, List.append_assoc]
  rfl

theorem writeRows_append (indent : Text) (rows more : List (Nat × OutlineRow)) :
    writeRows indent (rows ++ more) = writeRows indent rows ++ writeRows indent more :=
  List.flatMap_append

theorem outlineLine_eq (indent : Text) (depth : Nat) (row : OutlineRow) :
    outlineLine indent depth row.cls.text row.ownText = writeRows indent [(depth, row)] := by
  simp [outlineLine, writeRows, indentedRow, OutlineRow.text]

section Written

variable {indent : Text} {entry entry' : Nat × OutlineRow}

theorem not_mem_indentedRow (hindent : IsIndent indent) (h : entry.2.OneLine) :
    '\n' ∉ indentedRow indent entry := by
  rw [indentedRow, List.mem_append, not_or]
  refine ⟨fun hmem => ?_, h.text⟩
  obtain ⟨t, ht, hmem⟩ := List.mem_flatten.1 hmem
  rw [List.eq_of_mem_replicate ht] at hmem
  exact hindent.oneLine hmem

/-- Where the indentation ends can be told, since no class starts with a space. -/
theorem indentedRow_inj (hindent : IsIndent indent)
    (h : indentedRow indent entry = indentedRow indent entry') : entry = entry' := by
  obtain ⟨depth, row⟩ := entry
  obtain ⟨depth', row'⟩ := entry'
  obtain ⟨rest, rfl⟩ := List.head?_eq_some_iff.1 hindent.head
  have hmore : ∀ (row row' : OutlineRow) (depth : Nat),
      row.text ≠ indentedRow (' ' :: rest) (depth + 1, row') := by
    intro row row' depth heq
    refine row.head?_text ?_
    rw [heq, indentedRow, List.replicate_succ]
    rfl
  induction depth generalizing depth' with
  | zero =>
    cases depth' with
    | zero => exact congrArg (Prod.mk 0) (OutlineRow.text_injective h)
    | succ depth' => exact absurd h (hmore row row' depth')
  | succ depth ih =>
    cases depth' with
    | zero => exact absurd h.symm (hmore row' row depth)
    | succ depth' =>
      simp only [indentedRow, List.replicate_succ, List.flatten_cons, List.append_assoc] at h
      obtain ⟨rfl, rfl⟩ := Prod.mk.inj (ih depth' (List.append_cancel_left h))
      rfl

/-- **The text of rows determines the rows.** -/
theorem writeRows_inj (hindent : IsIndent indent) {rows rows' : List (Nat × OutlineRow)}
    (hrows : ∀ entry ∈ rows, entry.2.OneLine) (hrows' : ∀ entry ∈ rows', entry.2.OneLine)
    (h : writeRows indent rows = writeRows indent rows') : rows = rows' := by
  induction rows generalizing rows' with
  | nil =>
    cases rows' with
    | nil => rfl
    | cons entry' rest' =>
      rw [writeRows_cons] at h
      exact absurd (congrArg List.length h) (by simp [writeRows])
  | cons entry rest ih =>
    rw [List.forall_mem_cons] at hrows
    cases rows' with
    | nil =>
      rw [writeRows_cons] at h
      exact absurd (congrArg List.length h) (by simp [writeRows])
    | cons entry' rest' =>
      rw [List.forall_mem_cons] at hrows'
      rw [writeRows_cons, writeRows_cons] at h
      obtain ⟨hrow, hrest⟩ := append_cons_inj_of_not_mem (not_mem_indentedRow hindent hrows.1)
        (not_mem_indentedRow hindent hrows'.1) h
      rw [indentedRow_inj hindent hrow, ih hrows.2 hrows'.2 hrest]

end Written

/-! ## Trees -/

/-- A tree of rows. -/
inductive OutlineTree where
  | node (row : OutlineRow) (children : List OutlineTree)

mutual

/-- The rows of a tree with their depths, each one before those of its children. -/
def OutlineTree.rows (depth : Nat) : OutlineTree → List (Nat × OutlineRow)
  | .node row children => (depth, row) :: rowsOf (depth + 1) children

/-- The rows of trees, one tree after the other. -/
def rowsOf (depth : Nat) : List OutlineTree → List (Nat × OutlineRow)
  | [] => []
  | tree :: rest => tree.rows depth ++ rowsOf depth rest

end

/-- The text of a tree at a depth. -/
def OutlineTree.write (indent : Text) (depth : Nat) (tree : OutlineTree) : Text :=
  writeRows indent (tree.rows depth)

/-- Rows that do not belong to a tree at a depth: there are none, or the first one is less deep. -/
def EndsTrees (depth : Nat) (rows : List (Nat × OutlineRow)) : Prop :=
  ∀ entry ∈ rows.head?, entry.1 < depth

theorem EndsTrees.nil (depth : Nat) : EndsTrees depth [] := by
  intro entry hentry
  cases hentry

/-- Trees at a depth end trees that are deeper. -/
theorem EndsTrees.append {depth : Nat} {rows : List (Nat × OutlineRow)} (h : EndsTrees depth rows)
    (trees : List OutlineTree) : EndsTrees (depth + 1) (rowsOf depth trees ++ rows) := by
  cases trees with
  | nil => exact fun entry hentry => Nat.lt_succ_of_lt (h entry hentry)
  | cons tree rest =>
    obtain ⟨row, children⟩ := tree
    intro entry hentry
    cases hentry
    exact Nat.lt_succ_self depth

/-- **The rows of trees determine the trees**, whatever follows them that is less deep. -/
theorem rowsOf_append_inj {trees trees' : List OutlineTree} {depth : Nat}
    {rows rows' : List (Nat × OutlineRow)} (hrows : EndsTrees depth rows)
    (hrows' : EndsTrees depth rows') (h : rowsOf depth trees ++ rows = rowsOf depth trees' ++ rows') :
    trees = trees' ∧ rows = rows' := by
  match trees, trees' with
  | [], [] => exact ⟨rfl, h⟩
  | [], .node row' children' :: rest' =>
    have hhead : rows.head? = some (depth, row') := congrArg List.head? h
    exact absurd (hrows _ hhead) (Nat.lt_irrefl depth)
  | .node row children :: rest, [] =>
    have hhead : rows'.head? = some (depth, row) := congrArg List.head? h.symm
    exact absurd (hrows' _ hhead) (Nat.lt_irrefl depth)
  | .node row children :: rest, .node row' children' :: rest' =>
    -- the children come first, and the trees after this one end them
    simp only [rowsOf, OutlineTree.rows, List.cons_append, List.append_assoc, List.cons.injEq,
      Prod.mk.injEq, true_and] at h
    obtain ⟨rfl, h⟩ := h
    obtain ⟨rfl, hrest⟩ := rowsOf_append_inj (hrows.append rest) (hrows'.append rest') h
    obtain ⟨rfl, heq⟩ := rowsOf_append_inj hrows hrows' hrest
    exact ⟨rfl, heq⟩
termination_by sizeOf trees

theorem OutlineTree.rows_inj {tree tree' : OutlineTree} {depth : Nat}
    (h : tree.rows depth = tree'.rows depth) : tree = tree' := by
  have hrows : rowsOf depth [tree] ++ [] = rowsOf depth [tree'] ++ [] := by
    rw [rowsOf, rowsOf, h]
    rfl
  exact (List.cons.inj (rowsOf_append_inj (.nil depth) (.nil depth) hrows).1).1

/-- A tree all of whose rows take up one line. -/
def OutlineTree.OneLine (tree : OutlineTree) : Prop :=
  ∀ depth, ∀ entry ∈ tree.rows depth, entry.2.OneLine

theorem forall_mem_rowsOf {motive : Nat × OutlineRow → Prop} {depth : Nat} {trees : List OutlineTree} :
    (∀ entry ∈ rowsOf depth trees, motive entry) ↔
      ∀ tree ∈ trees, ∀ entry ∈ tree.rows depth, motive entry := by
  induction trees with
  | nil => simp [rowsOf]
  | cons tree rest ih => rw [rowsOf, List.forall_mem_append, ih, List.forall_mem_cons]

theorem OutlineTree.oneLine_node {row : OutlineRow} {children : List OutlineTree}
    (hrow : row.OneLine) (hchildren : ∀ tree ∈ children, tree.OneLine) :
    (OutlineTree.node row children).OneLine := by
  intro depth
  refine List.forall_mem_cons.2 ⟨hrow, forall_mem_rowsOf.2 fun tree htree => ?_⟩
  exact hchildren tree htree (depth + 1)

/-- **The text of a tree determines the tree.** -/
theorem OutlineTree.write_inj {indent : Text} (hindent : IsIndent indent) {tree tree' : OutlineTree}
    (htree : tree.OneLine) (htree' : tree'.OneLine) {depth : Nat}
    (h : tree.write indent depth = tree'.write indent depth) : tree = tree' :=
  OutlineTree.rows_inj (writeRows_inj hindent (htree depth) (htree' depth) h)

end LogoLang
