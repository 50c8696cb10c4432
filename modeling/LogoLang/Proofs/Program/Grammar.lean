import LogoLang.Proofs.Program.Balance

set_option autoImplicit false

/-! # The language of balanced programs

The classes of the lines of a balanced program are the words of a context-free language, given by
`BodyShape` and `ProgramShape`. The balance check accepts exactly the lines whose classes form such
a word and whose openers end with a bracket, and it fails at the first line with which no program of
the language can go on. -/

namespace LogoLang

/-! ## The grammar -/

/-- `(other | block)*`, where a block is an opener, a body, and a closer. -/
inductive BodyShape : List LineClass → Prop where
  | nil : BodyShape []
  | other {rest : List LineClass} (hrest : BodyShape rest) : BodyShape (.other :: rest)
  | block {body rest : List LineClass} (hbody : BodyShape body) (hrest : BodyShape rest) :
      BodyShape (.opener :: (body ++ .closer :: rest))

/-- `(other | block | heading (other | block)* ending)*`. -/
inductive ProgramShape : List LineClass → Prop where
  | nil : ProgramShape []
  | other {rest : List LineClass} (hrest : ProgramShape rest) : ProgramShape (.other :: rest)
  | block {body rest : List LineClass} (hbody : BodyShape body) (hrest : ProgramShape rest) :
      ProgramShape (.opener :: (body ++ .closer :: rest))
  | declaration {body rest : List LineClass} (hbody : BodyShape body)
      (hrest : ProgramShape rest) : ProgramShape (.heading :: (body ++ .ending :: rest))

/-- What can follow while `depth` blocks are open, inside a declaration or not: for each of them a
    body and its closer, then the rest of the declaration, then the rest of the program. -/
def Completes : Nat → Bool → List LineClass → Prop
  | 0, false, word => ProgramShape word
  | 0, true, word =>
    ∃ body rest, word = body ++ .ending :: rest ∧ BodyShape body ∧ ProgramShape rest
  | depth + 1, inDecl, word =>
    ∃ body rest, word = body ++ .closer :: rest ∧ BodyShape body ∧ Completes depth inDecl rest

theorem Completes.other {depth : Nat} {inDecl : Bool} {word : List LineClass}
    (h : Completes depth inDecl word) : Completes depth inDecl (.other :: word) := by
  cases depth with
  | zero =>
    cases inDecl with
    | false => exact ProgramShape.other h
    | true =>
      obtain ⟨body, rest, rfl, hbody, hrest⟩ := h
      exact ⟨.other :: body, rest, rfl, .other hbody, hrest⟩
  | succ depth =>
    obtain ⟨body, rest, rfl, hbody, hrest⟩ := h
    exact ⟨.other :: body, rest, rfl, .other hbody, hrest⟩

/-- What completes one block more completes, after its opener, one block less. -/
theorem Completes.opener {depth : Nat} {inDecl : Bool} {word : List LineClass}
    (h : Completes (depth + 1) inDecl word) : Completes depth inDecl (.opener :: word) := by
  obtain ⟨inner, rest, rfl, hinner, hrest⟩ := h
  cases depth with
  | zero =>
    cases inDecl with
    | false => exact ProgramShape.block hinner hrest
    | true =>
      obtain ⟨body, rest', rfl, hbody, hrest'⟩ := hrest
      exact ⟨.opener :: (inner ++ .closer :: body), rest', by simp, .block hinner hbody, hrest'⟩
  | succ depth =>
    obtain ⟨body, rest', rfl, hbody, hrest'⟩ := hrest
    exact ⟨.opener :: (inner ++ .closer :: body), rest', by simp, .block hinner hbody, hrest'⟩

/-! ## Accepted lines have the shape of a program -/

/-- The lines that lead from a state to the state with nothing open complete what is open in it. -/
theorem Balance.completes_of_run {s : Balance} {index : Nat} {lines : List Text}
    (h : s.run index lines = .ok Balance.start) :
    Completes s.blocks.length s.decl.isSome (lines.map LineClass.of) := by
  -- the shape of the lines to come is known before that of the line at hand
  induction lines generalizing s index with
  | nil =>
    cases h
    exact ProgramShape.nil
  | cons line rest ih =>
    obtain ⟨mid, hmove, hrun⟩ := Balance.run_cons_eq_ok_iff.1 h
    have hmid := ih hrun
    rw [List.map_cons]
    cases hmove with
    | opener hclass hbracket =>
      rw [hclass]
      exact hmid.opener
    | closer hclass =>
      rw [hclass]
      exact ⟨[], rest.map LineClass.of, rfl, .nil, hmid⟩
    | heading hclass =>
      rw [hclass]
      obtain ⟨body, rest', hword, hbody, hrest'⟩ := hmid
      rw [hword]
      exact ProgramShape.declaration hbody hrest'
    | ending hclass =>
      rw [hclass]
      exact ⟨[], rest.map LineClass.of, rfl, .nil, hmid⟩
    | other hclass =>
      rw [hclass]
      exact hmid.other

/-- An opener that is let through ends with a bracket. -/
theorem Balance.endsWithBracket_of_run {s t : Balance} {index : Nat} {lines : List Text}
    (h : s.run index lines = .ok t) :
    ∀ line ∈ lines, LineClass.of line = .opener → endsWithBracket line = true := by
  induction lines generalizing s index with
  | nil => simp
  | cons line rest ih =>
    obtain ⟨mid, hmove, hrun⟩ := Balance.run_cons_eq_ok_iff.1 h
    rw [List.forall_mem_cons]
    refine ⟨fun hopener => ?_, ih hrun⟩
    cases hmove with
    | opener hclass hbracket => exact hbracket
    | closer hclass | heading hclass | ending hclass | other hclass =>
      rw [hopener] at hclass
      exact absurd hclass (by simp)

/-! ## Lines with the shape of a program are accepted -/

/-- The lines of a delimited part of a program and of what follows it. -/
theorem exists_delimited {first last : LineClass} {body rest : List LineClass} {lines : List Text}
    (h : lines.map LineClass.of = first :: (body ++ last :: rest)) :
    ∃ line inner close tail, lines = line :: (inner ++ close :: tail) ∧
      LineClass.of line = first ∧ inner.map LineClass.of = body ∧
      LineClass.of close = last ∧ tail.map LineClass.of = rest := by
  obtain ⟨line, others, rfl, hline, hothers⟩ := List.map_eq_cons_iff.1 h
  obtain ⟨inner, others', rfl, hinner, hothers'⟩ := List.map_eq_append_iff.1 hothers
  obtain ⟨close, tail, rfl, hclose, htail⟩ := List.map_eq_cons_iff.1 hothers'
  exact ⟨line, inner, close, tail, rfl, hline, hinner, hclose, htail⟩

/-- A body leaves what is open as it was. -/
theorem Balance.run_of_bodyShape {word : List LineClass} (hshape : BodyShape word) :
    ∀ (s : Balance) (index : Nat) (lines : List Text), lines.map LineClass.of = word →
      (∀ line ∈ lines, LineClass.of line = .opener → endsWithBracket line = true) →
      s.run index lines = .ok s := by
  induction hshape with
  | nil =>
    intro s index lines hword _
    rw [List.map_eq_nil_iff.1 hword]
    rfl
  | other _ ih =>
    intro s index lines hword hbrackets
    obtain ⟨line, rest, rfl, hclass, hrest⟩ := List.map_eq_cons_iff.1 hword
    rw [List.forall_mem_cons] at hbrackets
    exact Balance.run_cons_eq_ok_iff.2 ⟨s, .other hclass, ih s _ rest hrest hbrackets.2⟩
  | block _ _ ihBody ihRest =>
    intro s index lines hword hbrackets
    obtain ⟨line, inner, close, rest, rfl, hclass, hinner, hclose, hrest⟩ := exists_delimited hword
    simp only [List.forall_mem_cons, List.forall_mem_append] at hbrackets
    obtain ⟨hline, hinnerBrackets, _, hrestBrackets⟩ := hbrackets
    exact Balance.run_delimited (.opener hclass (hline hclass))
      (ihBody _ _ inner hinner hinnerBrackets) (.closer hclose)
      (ihRest s _ rest hrest hrestBrackets)

/-- A program leaves nothing open. -/
theorem Balance.run_of_programShape {word : List LineClass} (hshape : ProgramShape word) :
    ∀ (index : Nat) (lines : List Text), lines.map LineClass.of = word →
      (∀ line ∈ lines, LineClass.of line = .opener → endsWithBracket line = true) →
      Balance.start.run index lines = .ok Balance.start := by
  induction hshape with
  | nil =>
    intro index lines hword _
    rw [List.map_eq_nil_iff.1 hword]
    rfl
  | other _ ih =>
    intro index lines hword hbrackets
    obtain ⟨line, rest, rfl, hclass, hrest⟩ := List.map_eq_cons_iff.1 hword
    rw [List.forall_mem_cons] at hbrackets
    exact Balance.run_cons_eq_ok_iff.2 ⟨_, .other hclass, ih _ rest hrest hbrackets.2⟩
  | block hbody _ ihRest =>
    intro index lines hword hbrackets
    obtain ⟨line, inner, close, rest, rfl, hclass, hinner, hclose, hrest⟩ := exists_delimited hword
    simp only [List.forall_mem_cons, List.forall_mem_append] at hbrackets
    obtain ⟨hline, hinnerBrackets, _, hrestBrackets⟩ := hbrackets
    exact Balance.run_delimited (.opener hclass (hline hclass))
      (Balance.run_of_bodyShape hbody _ _ inner hinner hinnerBrackets) (.closer hclose)
      (ihRest _ rest hrest hrestBrackets)
  | declaration hbody _ ihRest =>
    intro index lines hword hbrackets
    obtain ⟨line, inner, close, rest, rfl, hclass, hinner, hclose, hrest⟩ := exists_delimited hword
    simp only [List.forall_mem_cons, List.forall_mem_append] at hbrackets
    obtain ⟨_, hinnerBrackets, _, hrestBrackets⟩ := hbrackets
    exact Balance.run_delimited (.heading hclass)
      (Balance.run_of_bodyShape hbody _ _ inner hinner hinnerBrackets) (.ending hclose)
      (ihRest _ rest hrest hrestBrackets)

/-- **The balance check recognises the grammar.** -/
theorem checkBalance_eq_ok_iff {lines : List Text} :
    checkBalance lines = .ok () ↔
      (∀ line ∈ lines, LineClass.of line = .opener → endsWithBracket line = true) ∧
        ProgramShape (lines.map LineClass.of) := by
  rw [checkBalance_eq_ok_iff_run]
  constructor
  · intro h
    exact ⟨Balance.endsWithBracket_of_run h, Balance.completes_of_run h⟩
  · rintro ⟨hbrackets, hshape⟩
    exact Balance.run_of_programShape hshape 0 lines rfl hbrackets

/-! ## The line of a failure -/

/-- The lines that close what is open: a bracket for each block, then the end of the declaration. -/
def Balance.closing (s : Balance) : List Text :=
  s.blocks.map (fun _ => [']']) ++ (if s.decl.isSome then [endKeyword] else [])

theorem LineClass.of_bracket : LineClass.of [']'] = .closer := by decide

theorem LineClass.of_endKeyword : LineClass.of endKeyword = .ending := by decide

theorem Balance.run_closing (s : Balance) (index : Nat) :
    s.run index s.closing = .ok Balance.start := by
  obtain ⟨blocks, decl⟩ := s
  induction blocks generalizing index with
  | nil =>
    cases decl with
    | none => rfl
    | some opened =>
      exact Balance.run_cons_eq_ok_iff.2 ⟨_, .ending LineClass.of_endKeyword, rfl⟩
  | cons opened blocks ih =>
    exact Balance.run_cons_eq_ok_iff.2 ⟨_, .closer LineClass.of_bracket, ih (index + 1)⟩

/-- Lines that the check gets through can be completed to a balanced program. -/
theorem checkBalance_append_closing {before : List Text} {s : Balance}
    (h : Balance.start.run 0 before = .ok s) : checkBalance (before ++ s.closing) = .ok () := by
  rw [checkBalance_eq_ok_iff_run, Balance.run_append, h]
  exact s.run_closing _

/-- Lines at which the check fails are the beginning of no balanced program. -/
theorem checkBalance_append_ne_ok {before : List Text} {d : Diagnostic}
    (h : Balance.start.run 0 before = .error d) (more : List Text) :
    checkBalance (before ++ more) ≠ .ok () := by
  rw [Ne, checkBalance_eq_ok_iff_run, Balance.run_append, h]
  simp [Except.bind]

/-- A failure that is reported at a line was found at that line. -/
theorem checkBalance_error_line {lines : List Text} {d : Diagnostic}
    (h : checkBalance lines = .error d) (hline : 0 < d.line) :
    ∃ before line after s, lines = before ++ line :: after ∧ d.line = before.length + 1 ∧
      Balance.start.run 0 before = .ok s ∧
      Balance.start.run 0 (before ++ [line]) = .error d := by
  have hdef : checkBalance lines = (Balance.start.run 0 lines).bind Balance.finish := rfl
  rw [hdef] at h
  cases hrun : Balance.start.run 0 lines with
  | ok t =>
    rw [hrun] at h
    rw [Balance.finish_error_line h] at hline
    exact absurd hline (by simp)
  | error d' =>
    -- the run itself failed, so the line is the one at which it stopped
    rw [hrun] at h
    cases h
    obtain ⟨before, line, after, s, rfl, hbefore, hstep⟩ := Balance.exists_failing_step hrun
    rw [Nat.zero_add] at hstep
    refine ⟨before, line, after, s, rfl, Balance.step_error_line hstep, hbefore, ?_⟩
    rw [Balance.run_append, hbefore, Nat.zero_add]
    simp only [Except.bind, Balance.run_cons, hstep]

/-- **The balance check accepts exactly the balanced programs, and fails as early as it can**: the
    lines before the one that it names can still be completed, those up to it cannot. -/
theorem checkBalance_exact_and_earliest (lines : List Text) :
    (checkBalance lines = .ok () ↔
      (∀ line ∈ lines, LineClass.of line = .opener → endsWithBracket line = true) ∧
        ProgramShape (lines.map LineClass.of)) ∧
    ∀ d, checkBalance lines = .error d → 0 < d.line →
      ∃ k : Nat, d.line = k ∧ k ≤ lines.length ∧
        (∃ more, checkBalance (lines.take (k - 1) ++ more) = .ok ()) ∧
        ∀ more, checkBalance (lines.take k ++ more) ≠ .ok () := by
  refine ⟨checkBalance_eq_ok_iff, fun d hfail hline => ?_⟩
  obtain ⟨before, line, after, s, rfl, hd, hbefore, herror⟩ := checkBalance_error_line hfail hline
  have htake : (before ++ line :: after).take (before.length + 1) = before ++ [line] := by
    rw [List.append_cons, List.take_left' (by simp)]
  refine ⟨before.length + 1, by simpa using hd, by simp, ?_, ?_⟩
  · rw [Nat.add_sub_cancel, List.take_left]
    exact ⟨s.closing, checkBalance_append_closing hbefore⟩
  · rw [htake]
    exact checkBalance_append_ne_ok herror

end LogoLang
