import LogoLang.Proofs.Emit.OneRow
import Mathlib.Data.List.Chain

set_option autoImplicit false

/-! # Nesting of code by indentation

Lines of code with their depths stand for trees: a line has the lines below it that are indented
deeper (`nest`). Trees that are written out with their depths are found again (`nest_writeTrees`), and
if headers have bodies and other lines have none, the depths follow the rules of the target language
(`writeTrees_indented`). -/

namespace LogoLang

/-- A line of code and the lines in its body. -/
inductive CodeTree where
  | node (code : Text) (body : List CodeTree)

/-! ## Lines to trees and back -/

/-- The lines of trees at a depth. -/
def writeTrees (depth : Nat) : List CodeTree → List CodeLine
  | [] => []
  | .node code body :: rest => ⟨depth, code⟩ :: (writeTrees (depth + 1) body ++ writeTrees depth rest)

/-- The trees of lines: the body of a line are the lines after it that are deeper. -/
def nest : List CodeLine → List CodeTree
  | [] => []
  | line :: rest =>
    .node line.code (nest (rest.takeWhile fun other => line.depth < other.depth)) ::
      nest (rest.dropWhile fun other => line.depth < other.depth)
termination_by lines => lines.length
decreasing_by
  · exact Nat.lt_succ_of_le (List.takeWhile_sublist _).length_le
  · exact Nat.lt_succ_of_le (List.dropWhile_sublist _).length_le

/-- The trees without the lines that do nothing. -/
def dropPass : List CodeTree → List CodeTree
  | [] => []
  | .node code body :: rest =>
    if code = "pass".toList then dropPass rest else .node code (dropPass body) :: dropPass rest
decreasing_by
  all_goals
    simp only [List.cons.sizeOf_spec, CodeTree.node.sizeOf_spec]
    omega

theorem le_depth_of_mem_writeTrees {depth : Nat} {trees : List CodeTree} :
    ∀ line ∈ writeTrees depth trees, depth ≤ line.depth := by
  cases trees with
  | nil => simp [writeTrees]
  | cons tree rest =>
    obtain ⟨code, body⟩ := tree
    rw [writeTrees, List.forall_mem_cons, List.forall_mem_append]
    refine ⟨Nat.le_refl _, fun line hline => ?_, le_depth_of_mem_writeTrees⟩
    exact Nat.le_of_succ_le (le_depth_of_mem_writeTrees line hline)

/-- **Trees are found again** in the lines that they are written as. -/
theorem nest_writeTrees (depth : Nat) (trees : List CodeTree) :
    nest (writeTrees depth trees) = trees := by
  cases trees with
  | nil => rw [writeTrees, nest]
  | cons tree rest =>
    obtain ⟨code, body⟩ := tree
    have hbody : ∀ line ∈ writeTrees (depth + 1) body, decide (depth < line.depth) = true :=
      fun line hline => decide_eq_true (le_depth_of_mem_writeTrees line hline)
    have hrest : (writeTrees depth rest).takeWhile (fun line => depth < line.depth) = [] ∧
        (writeTrees depth rest).dropWhile (fun line => depth < line.depth) =
          writeTrees depth rest := by
      cases rest with
      | nil =>
        rw [writeTrees]
        exact ⟨rfl, rfl⟩
      | cons tree rest =>
        obtain ⟨code, body⟩ := tree
        rw [writeTrees, List.takeWhile_cons_of_neg (by simp), List.dropWhile_cons_of_neg (by simp)]
        exact ⟨rfl, rfl⟩
    rw [writeTrees, nest, List.takeWhile_append_of_pos hbody, List.dropWhile_append_of_pos hbody,
      hrest.1, hrest.2, List.append_nil, nest_writeTrees (depth + 1) body, nest_writeTrees depth rest]

theorem writeTrees_eq_nil_iff {depth : Nat} {trees : List CodeTree} :
    writeTrees depth trees = [] ↔ trees = [] := by
  cases trees with
  | nil => simp [writeTrees]
  | cons tree rest =>
    obtain ⟨code, body⟩ := tree
    simp [writeTrees]

/-! ## The rules of indentation -/

/-- What the depths of two lines in a row have to do with each other: a header is followed by its body,
    and another line by one that is not deeper and not outside the function. -/
def CodeLine.Follows (line next : CodeLine) : Prop :=
  if isHeaderCode line.code = true then next.depth = line.depth + 1
  else next.depth ≤ line.depth ∧ 1 ≤ next.depth

/-- Lines that keep to the rules of indentation, from the given depth on. The last one is no header. -/
structure Indented (depth : Nat) (lines : List CodeLine) : Prop where
  first : ∀ line ∈ lines.head?, line.depth = depth
  next : lines.IsChain CodeLine.Follows
  last : ∀ line ∈ lines.getLast?, isHeaderCode line.code = false

/-- Trees in which the headers have bodies and the other lines have none. -/
inductive ProperTrees : List CodeTree → Prop where
  | nil : ProperTrees []
  | leaf {code : Text} {rest : List CodeTree} (hcode : isHeaderCode code = false)
      (hrest : ProperTrees rest) : ProperTrees (.node code [] :: rest)
  | header {code : Text} {body rest : List CodeTree} (hcode : isHeaderCode code = true)
      (hbody : ProperTrees body) (hnonempty : body ≠ []) (hrest : ProperTrees rest) :
      ProperTrees (.node code body :: rest)

/-- Lines of a depth can be followed by other lines of the depth. -/
theorem Indented.append {depth : Nat} {lines more : List CodeLine} (hpos : 1 ≤ depth)
    (h : Indented depth lines) (hdeep : ∀ line ∈ lines, depth ≤ line.depth)
    (hmore : Indented depth more) : Indented depth (lines ++ more) := by
  cases lines with
  | nil => exact hmore
  | cons first rest =>
    refine ⟨h.first, List.isChain_append.2 ⟨h.next, hmore.next, ?_⟩, ?_⟩
    · intro line hline next hnext
      rw [CodeLine.Follows, h.last line hline, hmore.first next hnext]
      exact ⟨hdeep line (List.mem_of_getLast? hline), hpos⟩
    · intro line hline
      rw [List.getLast?_append, Option.mem_def, Option.or_eq_some_iff] at hline
      rcases hline with hline | ⟨_, hline⟩
      · exact hmore.last line hline
      · exact h.last line hline

/-- A header can be put before the lines of its body. -/
theorem Indented.header {depth : Nat} {code : Text} {lines : List CodeLine}
    (hcode : isHeaderCode code = true) (hnonempty : lines ≠ []) (h : Indented (depth + 1) lines) :
    Indented depth (⟨depth, code⟩ :: lines) := by
  refine ⟨by simp, List.isChain_cons.2 ⟨?_, h.next⟩, ?_⟩
  · intro next hnext
    rw [CodeLine.Follows, if_pos hcode]
    exact h.first next hnext
  · intro line hline
    rw [List.getLast?_cons_of_ne_nil hnonempty] at hline
    exact h.last line hline

/-- **The depths of proper trees keep to the rules of indentation.** -/
theorem writeTrees_indented {depth : Nat} {trees : List CodeTree} (hpos : 1 ≤ depth)
    (h : ProperTrees trees) : Indented depth (writeTrees depth trees) := by
  induction h generalizing depth with
  | nil =>
    rw [writeTrees]
    exact ⟨by simp, .nil, by simp⟩
  | @leaf code rest hcode _ ih =>
    have hline : Indented depth [⟨depth, code⟩] := ⟨by simp, .singleton _, by simp [hcode]⟩
    have hall := hline.append hpos (by simp) (ih hpos)
    simpa [writeTrees] using hall
  | @header code body rest hcode _ hnonempty _ ihBody ih =>
    have hblock := Indented.header hcode (mt writeTrees_eq_nil_iff.1 hnonempty)
      (ihBody (Nat.succ_pos depth))
    have hdeep : ∀ line ∈ ⟨depth, code⟩ :: writeTrees (depth + 1) body, depth ≤ line.depth := by
      refine List.forall_mem_cons.2 ⟨Nat.le_refl _, fun line hline => ?_⟩
      exact Nat.le_of_succ_le (le_depth_of_mem_writeTrees line hline)
    rw [writeTrees]
    exact hblock.append hpos hdeep (ih hpos)

end LogoLang
