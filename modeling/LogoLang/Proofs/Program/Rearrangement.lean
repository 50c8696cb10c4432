import LogoLang.Proofs.Program.Derivation
import Mathlib.Data.List.Perm.Basic

set_option autoImplicit false

/-! # Declarations in other places

A program is cut into parts: whole declarations, and stretches of lines and whole blocks between
them. Declarations can be moved to any place between the parts: the lines are accepted as before, with
the same functions in the order of their declarations (`parseProgram_rearranged`). Lines keep their
numbers while they are moved, and get the numbers of their new places afterwards (`newNumber`). -/

namespace LogoLang

/-! ## Parts of a program -/

/-- Lines from the heading of a declaration to its end. -/
def IsDeclaration (lines : NumberedLines) : Prop :=
  ∃ body, BodyShape body ∧ classesOf lines = .heading :: (body ++ [.ending])

/-- A part of the top level of a program: the lines of a declaration, or a stretch of lines that stay
    where they are. -/
inductive Part where
  | declaration (lines : NumberedLines)
  | stretch (lines : NumberedLines)

/-- The lines of a part. -/
def Part.lines : Part → NumberedLines
  | .declaration lines | .stretch lines => lines

/-- The lines of a part that is a declaration. -/
def Part.declaration? : Part → Option NumberedLines
  | .declaration lines => some lines
  | .stretch _ => none

/-- The lines of a part that stay where they are. -/
def Part.staying : Part → NumberedLines
  | .declaration _ => []
  | .stretch lines => lines

/-- A part is whole if it is one declaration from its heading to its end, or if all blocks that are
    opened in it are closed in it. -/
def Part.Whole : Part → Prop
  | .declaration lines => IsDeclaration lines
  | .stretch lines => BodyShape (classesOf lines)

/-- The second program has the declarations of the first one in some order and at some places of the
    top level, and the lines that stay in their order. -/
structure Rearranges (parts parts' : List Part) : Prop where
  whole : ∀ part ∈ parts, part.Whole
  whole' : ∀ part ∈ parts', part.Whole
  declarations : (parts.filterMap Part.declaration?).Perm (parts'.filterMap Part.declaration?)
  staying : parts.flatMap Part.staying = parts'.flatMap Part.staying

/-! ## Where a body ends -/

/-- A body ends at the first line that closes what is not opened in it. -/
theorem BodyShape.append_stop_inj {u v x y : List LineClass} {s t : LineClass} (hu : BodyShape u)
    (hv : BodyShape v) (hs : s = .closer ∨ s = .ending) (ht : t = .closer ∨ t = .ending)
    (h : u ++ s :: x = v ++ t :: y) : u = v := by
  induction hu generalizing v s t x y with
  | nil =>
    cases hv with
    | nil => rfl
    | other | block =>
      obtain ⟨rfl, _⟩ := List.cons.inj h
      exact absurd hs (by simp)
  | other _ ih =>
    cases hv with
    | nil =>
      obtain ⟨rfl, _⟩ := List.cons.inj h
      exact absurd ht (by simp)
    | other hrest' => rw [ih hrest' hs ht (List.cons.inj h).2]
    | block => exact absurd (List.cons.inj h).1 (by simp)
  | @block body rest _ _ ihBody ihRest =>
    cases hv with
    | nil =>
      obtain ⟨rfl, _⟩ := List.cons.inj h
      exact absurd ht (by simp)
    | other => exact absurd (List.cons.inj h).1 (by simp)
    | @block body' rest' hbody' hrest' =>
      have htail : body ++ .closer :: rest ++ s :: x = body' ++ .closer :: rest' ++ t :: y :=
        (List.cons.inj h).2
      rw [List.append_assoc, List.append_assoc] at htail
      have hbodies := ihBody hbody' (Or.inl rfl) (Or.inl rfl) htail
      subst hbodies
      have hrests := ihRest hrest' hs ht (List.cons.inj (List.append_cancel_left htail)).2
      rw [hrests]

theorem delimited_inj {inner inner' rest rest' : NumberedLines} {close close' : Text × Nat}
    (hinner : BodyShape (classesOf inner)) (hinner' : BodyShape (classesOf inner'))
    (hclose : LineClass.of close.1 = .closer ∨ LineClass.of close.1 = .ending)
    (hclose' : LineClass.of close'.1 = .closer ∨ LineClass.of close'.1 = .ending)
    (h : inner ++ close :: rest = inner' ++ close' :: rest') :
    inner = inner' ∧ close = close' ∧ rest = rest' := by
  have hclasses := congrArg classesOf h
  rw [classesOf_append, classesOf_append] at hclasses
  have hsame := hinner.append_stop_inj hinner' hclose hclose' hclasses
  have hlength : inner.length = inner'.length := by
    have := congrArg List.length hsame
    rwa [classesOf, List.length_map, classesOf, List.length_map] at this
  obtain ⟨rfl, htail⟩ := List.append_inj h hlength
  obtain ⟨rfl, rfl⟩ := List.cons.inj htail
  exact ⟨rfl, rfl, rfl⟩

/-- The lines of a delimited part of a program and of what follows it. -/
theorem exists_delimited_numbered {last : LineClass} {body rest : List LineClass}
    {lines : NumberedLines} (h : classesOf lines = body ++ last :: rest) :
    ∃ inner close tail, lines = inner ++ close :: tail ∧ classesOf inner = body ∧
      LineClass.of close.1 = last ∧ classesOf tail = rest := by
  obtain ⟨inner, others, rfl, hinner, hothers⟩ := List.map_eq_append_iff.1 h
  obtain ⟨close, tail, rfl, hclose, htail⟩ := List.map_eq_cons_iff.1 hothers
  exact ⟨inner, close, tail, rfl, hinner, hclose, htail⟩

/-! ## Programs of several parts -/

/-- The function that the lines of a declaration declare. -/
inductive DeclarationRead : NumberedLines → Text × Function → Prop where
  | intro {line close name : Text} {index closeIndex : Nat} {params : List Label}
      {body : List Stmt} {inner : NumberedLines} (hheading : HeadingRead line name params)
      (hinner : BodyRead inner body) (hending : EndingRead close) :
      DeclarationRead ((line, index) :: (inner ++ [(close, closeIndex)])) (name, ⟨params, body⟩)

/-- A program that starts with a stretch of whole blocks is read as this stretch and the rest. -/
theorem ProgramRead.split {lines : NumberedLines} {functions : List (Text × Function)}
    {main : List Stmt} (h : ProgramRead lines functions main) :
    ∀ {stretch rest : NumberedLines}, lines = stretch ++ rest → BodyShape (classesOf stretch) →
      ∃ body after, BodyRead stretch body ∧ ProgramRead rest functions after ∧
        main = body ++ after := by
  induction h with
  | nil =>
    intro stretch rest hlines _
    obtain ⟨rfl, rfl⟩ := List.nil_eq_append_iff.1 hlines
    exact ⟨[], [], .nil, .nil, rfl⟩
  | @line line index stmts main _ _ hline hrest ih =>
    intro stretch rest hlines hshape
    cases stretch with
    | nil =>
      subst hlines
      exact ⟨[], stmts ++ main, .nil, .line hline hrest, rfl⟩
    | cons first stretch =>
      obtain ⟨rfl, rfl⟩ := List.cons.inj hlines
      rw [classesOf, List.map_cons, hline.class] at hshape
      cases hshape with
      | other hshape =>
        obtain ⟨body, after, hbody, hafter, rfl⟩ := ih rfl hshape
        exact ⟨stmts ++ body, after, .line hline hbody, hafter, (List.append_assoc ..).symm⟩
  | @block line close index _ kind condition body main _ inner _ hheader hinner hclose hrest ih =>
    intro stretch rest hlines hshape
    cases stretch with
    | nil =>
      subst hlines
      exact ⟨[], .block kind condition body index :: main, .nil,
        .block hheader hinner hclose hrest, rfl⟩
    | cons first stretch =>
      obtain ⟨rfl, htail⟩ := List.cons.inj hlines
      rw [classesOf, List.map_cons, hheader.opener] at hshape
      generalize hword : stretch.map (fun line => LineClass.of line.1) = word at hshape
      cases hshape with
      | block hbody hafter =>
        -- the block ends inside the stretch, where its own lines end
        obtain ⟨inner', close', stretch', rfl, hinner', hclose', rfl⟩ :=
          exists_delimited_numbered hword
        have htail := htail.trans (List.append_assoc ..)
        obtain ⟨rfl, rfl, rfl⟩ := delimited_inj hinner.shape (hinner'.symm ▸ hbody)
          (Or.inl (LineClass.of_close hclose)) (Or.inl hclose') htail
        obtain ⟨body', after, hbody', hrest', rfl⟩ := ih rfl hafter
        exact ⟨_ :: body', after, .block hheader hinner hclose hbody', hrest', rfl⟩
  | declaration hheading hinner hending hrest ih =>
    intro stretch rest hlines hshape
    cases stretch with
    | nil =>
      subst hlines
      exact ⟨[], _, .nil, .declaration hheading hinner hending hrest, rfl⟩
    | cons first stretch =>
      obtain ⟨rfl, _⟩ := List.cons.inj hlines
      rw [classesOf, List.map_cons, LineClass.of_heading hheading.shape] at hshape
      cases hshape

/-- A program that starts with a declaration is read as this declaration and the rest. -/
theorem ProgramRead.split_declaration {lines rest : NumberedLines}
    {functions : List (Text × Function)} {main : List Stmt}
    (h : ProgramRead (lines ++ rest) functions main) (hdecl : IsDeclaration lines) :
    ∃ entry after, functions = entry :: after ∧ DeclarationRead lines entry ∧
      ProgramRead rest after main := by
  obtain ⟨word, hword, hclasses⟩ := hdecl
  obtain ⟨⟨line, index⟩, others, rfl, hline, hothers⟩ := List.map_eq_cons_iff.1 hclasses
  obtain ⟨inner, ⟨close, closeIndex⟩, tail, rfl, hinner, hclose, htail⟩ :=
    exists_delimited_numbered hothers
  obtain rfl := List.map_eq_nil_iff.1 htail
  generalize hall : (line, index) :: (inner ++ [(close, closeIndex)]) ++ rest = all at h
  rw [List.cons_append, List.append_assoc, List.singleton_append] at hall
  cases h with
  | nil => exact absurd hall (by simp)
  | line hread =>
    obtain ⟨hfirst, _⟩ := List.cons.inj hall
    cases hfirst
    rw [hread.class] at hline
    exact absurd hline (by simp)
  | block hheader =>
    obtain ⟨hfirst, _⟩ := List.cons.inj hall
    cases hfirst
    rw [hheader.opener] at hline
    exact absurd hline (by simp)
  | declaration hheading hbody hending hrest =>
    obtain ⟨hfirst, hafter⟩ := List.cons.inj hall
    cases hfirst
    obtain ⟨rfl, hlast, rfl⟩ := delimited_inj (hinner.symm ▸ hword) hbody.shape (Or.inr hclose)
      (Or.inr (LineClass.of_ending hending.shape)) hafter
    cases hlast
    exact ⟨_, _, rfl, .intro hheading hbody hending, hrest⟩

/-- A program of whole parts is read part by part: its declarations one by one, and the lines that stay
    as one body. -/
theorem programRead_parts_iff {parts : List Part} (hwhole : ∀ part ∈ parts, part.Whole)
    {functions : List (Text × Function)} {main : List Stmt} :
    ProgramRead (parts.flatMap Part.lines) functions main ↔
      List.Forall₂ DeclarationRead (parts.filterMap Part.declaration?) functions ∧
        BodyRead (parts.flatMap Part.staying) main := by
  induction parts generalizing functions main with
  | nil =>
    constructor
    · intro h
      cases h
      exact ⟨.nil, .nil⟩
    · rintro ⟨hfunctions, hmain⟩
      cases hfunctions
      cases hmain
      exact .nil
  | cons part rest ih =>
    rw [List.forall_mem_cons] at hwhole
    have ih := @ih hwhole.2
    cases part with
    | stretch lines =>
      constructor
      · intro h
        obtain ⟨body, after, hbody, hafter, rfl⟩ := h.split rfl hwhole.1
        exact ⟨(ih.1 hafter).1, hbody.append (ih.1 hafter).2⟩
      · rintro ⟨hfunctions, hmain⟩
        obtain ⟨body, after, hbody, hafter, rfl⟩ :=
          (programRead_nil_iff.2 hmain).split rfl hwhole.1
        exact hbody.program (ih.2 ⟨hfunctions, programRead_nil_iff.1 hafter⟩)
    | declaration lines =>
      constructor
      · intro h
        obtain ⟨entry, after, rfl, hentry, hafter⟩ := h.split_declaration hwhole.1
        exact ⟨.cons hentry (ih.1 hafter).1, (ih.1 hafter).2⟩
      · rintro ⟨hfunctions, hmain⟩
        cases hfunctions with
        | cons hentry hafter =>
          cases hentry with
          | intro hheading hinner hending =>
            rw [List.flatMap_cons, Part.lines, List.cons_append, List.append_assoc]
            exact .declaration hheading hinner hending (ih.2 ⟨hafter, hmain⟩)

/-- Moving declarations changes the order of the functions and nothing else. -/
theorem ProgramRead.rearrange {parts parts' : List Part} {functions : List (Text × Function)}
    {main : List Stmt} (h : ProgramRead (parts.flatMap Part.lines) functions main)
    (hmove : Rearranges parts parts') :
    ∃ functions', functions.Perm functions' ∧
      ProgramRead (parts'.flatMap Part.lines) functions' main := by
  obtain ⟨hfunctions, hmain⟩ := (programRead_parts_iff hmove.whole).1 h
  obtain ⟨functions', hfunctions', hperm⟩ :=
    List.perm_comp_forall₂ hmove.declarations.symm hfunctions
  exact ⟨functions', hperm.symm,
    (programRead_parts_iff hmove.whole').2 ⟨hfunctions', hmove.staying ▸ hmain⟩⟩

/-! ## The numbers of the new places -/

/-- The lines of a program that has been rearranged, without the numbers that they had before. -/
def arrangedTexts (parts : List Part) : List Text := (parts.flatMap Part.lines).map Prod.fst

/-- The number of a line's new place, given the number of the old one. -/
def newNumber (parts : List Part) (index : Nat) : Nat :=
  ((parts.flatMap Part.lines).map Prod.snd).idxOf index

theorem perm_declarations_staying (parts : List Part) :
    (parts.flatMap Part.lines).Perm
      ((parts.filterMap Part.declaration?).flatten ++ parts.flatMap Part.staying) := by
  induction parts with
  | nil => exact .refl _
  | cons part rest ih =>
    cases part with
    | declaration lines =>
      have hrow := ih.append_left lines
      rw [← List.append_assoc] at hrow
      exact hrow
    | stretch lines => exact (ih.append_left lines).trans (List.perm_append_comm_assoc ..)

/-- No line is lost or doubled. -/
theorem Rearranges.perm {parts parts' : List Part} (h : Rearranges parts parts') :
    (parts.flatMap Part.lines).Perm (parts'.flatMap Part.lines) := by
  have hsame := (perm_declarations_staying parts').symm
  rw [← h.staying] at hsame
  exact ((perm_declarations_staying parts).trans (h.declarations.flatten.append_right _)).trans hsame

theorem zipIdx_map_fst {lines : NumberedLines} (h : (lines.map Prod.snd).Nodup) :
    (lines.map Prod.fst).zipIdx = renumberLines ((lines.map Prod.snd).idxOf ·) lines := by
  apply List.ext_getElem
  · simp [renumberLines]
  · intro i hi _
    have hlength : i < (lines.map Prod.snd).length := by simpa using hi
    have hindex := h.idxOf_getElem i hlength
    rw [List.getElem_map] at hindex
    simp [renumberLines, hindex]

section Rearranged

variable {lines : List Text} {parts parts' : List Part}

theorem nodup_numbers (hparts : parts.flatMap Part.lines = lines.zipIdx)
    (hmove : Rearranges parts parts') : ((parts'.flatMap Part.lines).map Prod.snd).Nodup := by
  have hperm := hmove.perm.map Prod.snd
  rw [hparts, List.zipIdx_map_snd] at hperm
  exact hperm.nodup_iff.1 List.nodup_range'

/-- A line is the same at its new place. -/
theorem getElem?_newNumber (hparts : parts.flatMap Part.lines = lines.zipIdx)
    (hmove : Rearranges parts parts') (index : Nat) :
    (arrangedTexts parts')[newNumber parts' index]? = lines[index]? := by
  cases hline : lines[index]? with
  | some line =>
    have hmem : (line, index) ∈ parts'.flatMap Part.lines := by
      rw [← hmove.perm.mem_iff, hparts]
      exact List.mk_mem_zipIdx_iff_getElem?.2 hline
    have hnew : (line, newNumber parts' index) ∈ (arrangedTexts parts').zipIdx := by
      rw [arrangedTexts, zipIdx_map_fst (nodup_numbers hparts hmove)]
      exact List.mem_map_of_mem hmem
    exact List.mk_mem_zipIdx_iff_getElem?.1 hnew
  | none =>
    -- numbers of no line stay beyond the end
    have hnot : index ∉ (parts'.flatMap Part.lines).map Prod.snd := by
      rw [← (hmove.perm.map Prod.snd).mem_iff, hparts, List.zipIdx_map_snd]
      simpa using hline
    rw [newNumber, List.idxOf_eq_length hnot, arrangedTexts, List.length_map]
    exact List.getElem?_eq_none (by rw [List.length_map])

/-- Different lines have different new places. -/
theorem newNumber_injective (hparts : parts.flatMap Part.lines = lines.zipIdx)
    (hmove : Rearranges parts parts') {i j : Nat} (hi : i < lines.length)
    (h : newNumber parts' i = newNumber parts' j) : i = j := by
  refine (List.idxOf_inj ?_).1 h
  rw [← (hmove.perm.map Prod.snd).mem_iff, hparts, List.zipIdx_map_snd]
  simpa using hi

/-- **Declarations can stand anywhere**: with whole declarations moved to other places of the top level,
    an accepted program is accepted, with the functions in another order and all lines renumbered. -/
theorem parseProgram_rearranged {table : FunctionTable}
    (hparts : parts.flatMap Part.lines = lines.zipIdx) (hmove : Rearranges parts parts')
    (h : parseProgram lines = .ok table) :
    ∃ functions functions' main, table.entries = functions ++ [(mainName, ⟨[], main⟩)] ∧
      functions.Perm functions' ∧ parseProgram (arrangedTexts parts') =
        .ok (FunctionTable.renumber (newNumber parts')
          ⟨functions' ++ [(mainName, ⟨[], main⟩)]⟩) := by
  obtain ⟨functions, main, hread, hdistinct, rfl⟩ := parseProgram_eq_ok_iff_read.1 h
  rw [← hparts] at hread
  obtain ⟨functions', hperm, hread'⟩ := hread.rearrange hmove
  refine ⟨functions, functions', main, rfl, hperm, ?_⟩
  refine parseProgram_eq_ok_iff_read.2 ⟨functions'.map (renumberEntry (newNumber parts')),
    renumberBody (newNumber parts') main, ?_, ?_, ?_⟩
  · rw [arrangedTexts, zipIdx_map_fst (nodup_numbers hparts hmove)]
    exact hread'.renumber _
  · rw [List.map_map]
    exact (hperm.map Prod.fst).nodup_iff.1 hdistinct
  · rw [FunctionTable.renumber, List.map_append]
    rfl

end Rearranged

end LogoLang
