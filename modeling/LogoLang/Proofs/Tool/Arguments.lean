import LogoLang.Proofs.Results
import LogoLang.Tool.Basic

set_option autoImplicit false

/-! # The same command line with its result elsewhere

The arguments that ask for something are told as a relation with one case for each way in which an
argument is taken (`Request.Takes`). From there the arguments without the option for the output file ask
for the same thing, with the result on the standard output (`readCommandLine_withoutOut`). -/

namespace LogoLang

/-! ## Kinds of arguments -/

theorem Argument.of?_marker : Argument.of? "--".toList = none := by decide

theorem ne_marker_of_of? {t : Text} {argument : Argument} (h : Argument.of? t = some argument) :
    t ≠ "--".toList := by
  rintro rfl
  rw [Argument.of?_marker] at h
  exact absurd h (by simp)

/-- No argument before a marker is one. -/
theorem Argument.of?_ne_marker (t : Text) : Argument.of? t ≠ some .marker := by
  have habbreviated : .marker ∉ abbreviated t := by
    unfold abbreviated
    split <;> simp only [List.mem_filterMap, not_exists, not_and] <;> intro entry _ <;> split <;>
      simp
  unfold Argument.of?
  split
  · simp
  · split
    split
    · simp
    · simp
    · split
      · next argument hone =>
        intro h
        rw [hone, Option.some.inj h] at habbreviated
        exact habbreviated List.mem_cons_self
      · simp
      · split <;> simp

theorem eq_nil_of_readArguments? {texts : List Text} (h : readArguments? texts = some []) :
    texts = [] := by
  cases texts with
  | nil => rfl
  | cons t rest =>
    rw [readArguments?] at h
    split at h
    · exact absurd h (by simp)
    · simp only [bind, Option.bind_eq_some_iff] at h
      obtain ⟨_, _, _, _, h⟩ := h
      exact absurd h (by simp)

/-- An argument is the first marker, with operands after it, or it stands before that. -/
theorem readArguments?_eq_cons {texts : List Text} {argument : Argument} {others : List Argument}
    (h : readArguments? texts = some (argument :: others)) :
    (argument = .marker ∧ ∃ operands, texts = "--".toList :: operands ∧
      others = operands.map .operand) ∨
    argument ≠ .marker ∧ ∃ t rest, texts = t :: rest ∧ Argument.of? t = some argument ∧
      readArguments? rest = some others := by
  cases texts with
  | nil => exact absurd h (by simp [readArguments?])
  | cons t rest =>
    rw [readArguments?] at h
    split at h
    · next hmarker =>
      cases h
      exact Or.inl ⟨rfl, rest, by rw [hmarker], rfl⟩
    · simp only [bind, Option.bind_eq_some_iff] at h
      obtain ⟨argument', hof, others', hothers, h⟩ := h
      cases h
      refine Or.inr ⟨?_, t, rest, rfl, hof, hothers⟩
      rintro rfl
      exact Argument.of?_ne_marker t hof

theorem exists_of_readArguments? {texts : List Text} {argument : Argument} {others : List Argument}
    (hne : argument ≠ .marker) (h : readArguments? texts = some (argument :: others)) :
    ∃ t rest, texts = t :: rest ∧ Argument.of? t = some argument ∧
      readArguments? rest = some others :=
  ((readArguments?_eq_cons h).resolve_left fun hmarker => hne hmarker.1).2

theorem operands_of_readArguments? {texts : List Text} {others : List Argument}
    (h : readArguments? texts = some (.marker :: others)) :
    ∃ operands, texts = "--".toList :: operands ∧ others = operands.map .operand :=
  ((readArguments?_eq_cons h).resolve_right fun hother => hother.1 rfl).2

theorem readArguments?_of_of? {t : Text} {rest : List Text} {argument : Argument}
    {others : List Argument} (h : Argument.of? t = some argument)
    (hrest : readArguments? rest = some others) :
    readArguments? (t :: rest) = some (argument :: others) := by
  rw [readArguments?, if_neg (ne_marker_of_of? h), h, hrest]
  rfl

/-! ## Options -/

/-- The request that goes elsewhere with its result. -/
def Request.sentTo (r : Request) (out : Destination) : Request := { r with out }

section Options

variable {r r' : Request} {next : Text} {options : List (ToolOption × Option Text)}

theorem Request.setValue_keeps {value : Option Text} {option : ToolOption}
    (h : r.setValue value option = some r') : r'.program = r.program ∧ r'.surplus = r.surplus := by
  cases option with
  | width | height =>
    obtain ⟨s, _, rfl⟩ := Option.map_eq_some_iff.1 h
    exact ⟨rfl, rfl⟩
  | out =>
    cases h
    exact ⟨rfl, rfl⟩
  | help | debug | callFrames => exact absurd h (by simp [Request.setValue])

/-- What options change is neither the program nor whether something is left over, and none of them
    asks for help. -/
theorem Request.takeOptions_keeps (h : r.takeOptions next options = .ok r') :
    r'.program = r.program ∧ r'.surplus = r.surplus ∧ ∀ entry ∈ options, entry.1 ≠ .help := by
  induction options generalizing r with
  | nil =>
    cases h
    exact ⟨rfl, rfl, by simp⟩
  | cons entry rest ih =>
    obtain ⟨option, attached⟩ := entry
    rw [List.forall_mem_cons]
    cases option with
    | help => exact absurd h (by simp [Request.takeOptions])
    | debug | callFrames =>
      obtain ⟨hprogram, hsurplus, hhelp⟩ := ih h
      exact ⟨hprogram, hsurplus, by simp, hhelp⟩
    | width | height | out =>
      simp only [Request.takeOptions] at h
      split at h
      · next r₁ hset =>
        obtain ⟨hprogram, hsurplus, hhelp⟩ := ih h
        obtain ⟨hprogram₁, hsurplus₁⟩ := Request.setValue_keeps hset
        exact ⟨hprogram.trans hprogram₁, hsurplus.trans hsurplus₁, by simp, hhelp⟩
      · exact absurd h (by simp)

/-- Options do the same whatever the output is, but for those that set it. -/
theorem Request.takeOptions_sentTo (h : r.takeOptions next options = .ok r') (out : Destination) :
    (r.sentTo out).takeOptions next (options.filter (·.1 ≠ .out)) = .ok (r'.sentTo out) := by
  induction options generalizing r with
  | nil =>
    cases h
    rfl
  | cons entry rest ih =>
    obtain ⟨option, attached⟩ := entry
    cases option with
    | help => exact absurd h (by simp [Request.takeOptions])
    | debug | callFrames => exact ih h
    | width | height =>
      simp only [Request.takeOptions, Request.setValue] at h
      split at h
      · next r₁ hset =>
        obtain ⟨s, hmeasure, rfl⟩ := Option.map_eq_some_iff.1 hset
        have hrest := ih h
        simp only [Request.sentTo] at hrest
        simpa [Request.takeOptions, Request.setValue, Request.sentTo, hmeasure] using hrest
      · exact absurd h (by simp)
    | out =>
      simp only [Request.takeOptions, Request.setValue] at h
      have hrest := ih h
      exact hrest

end Options

/-! ## Clusters of options -/

/-- An option without a value that stands alone. -/
def IsFlag (entry : ToolOption × Option Text) : Prop := entry.1.hasValue = false ∧ entry.2 = none

/-- Only the last option of an argument has a value. -/
theorem cluster_eq_some {option : ToolOption} {attached : Text}
    {options : List (ToolOption × Option Text)} (h : cluster option attached = some options) :
    ∃ flags last, options = flags ++ [last] ∧ ∀ entry ∈ flags, IsFlag entry := by
  induction attached generalizing option options with
  | nil =>
    cases h
    exact ⟨[], _, rfl, by simp⟩
  | cons c rest ih =>
    rw [cluster] at h
    split at h
    · cases h
      exact ⟨[], _, rfl, by simp⟩
    · next hflag =>
      simp only [bind, Option.bind_eq_some_iff] at h
      obtain ⟨next, _, others, hothers, h⟩ := h
      cases h
      obtain ⟨flags, last, rfl, hflags⟩ := ih hothers
      refine ⟨(option, none) :: flags, last, rfl, List.forall_mem_cons.2 ⟨⟨?_, rfl⟩, hflags⟩⟩
      exact Bool.eq_false_iff.2 hflag

theorem optionsOf_eq_some {option : ToolOption} {long : Bool} {attached : Option Text}
    {options : List (ToolOption × Option Text)} (h : optionsOf option long attached = some options) :
    ∃ flags last, options = flags ++ [last] ∧ ∀ entry ∈ flags, IsFlag entry := by
  cases attached with
  | none =>
    cases h
    exact ⟨[], _, rfl, by simp⟩
  | some attached =>
    rw [optionsOf] at h
    split at h
    · cases h
      exact ⟨[], _, rfl, by simp⟩
    · split at h
      · exact absurd h (by simp)
      · exact cluster_eq_some h

/-- The options that stand together with the one for the output file have no values. -/
theorem flags_of_optionsOf {option : ToolOption} {long : Bool} {attached : Option Text}
    {options : List (ToolOption × Option Text)} (h : optionsOf option long attached = some options)
    (hout : options.any (·.1 = .out) = true) :
    ∀ entry ∈ options.filter (·.1 ≠ .out), IsFlag entry := by
  obtain ⟨flags, last, rfl, hflags⟩ := optionsOf_eq_some h
  intro entry hentry
  obtain ⟨hmem, hother⟩ := List.mem_filter.1 hentry
  rcases List.mem_append.1 hmem with hflag | hlast
  · exact hflags entry hflag
  · -- the option for the output file has a value, so that it is the last one
    cases List.mem_singleton.1 hlast
    obtain ⟨entry', hmem', heq⟩ := List.any_eq_true.1 hout
    have heq' : entry'.1 = .out := of_decide_eq_true heq
    rcases List.mem_append.1 hmem' with hflag | hlast
    · have hvalue := (hflags entry' hflag).1
      rw [heq'] at hvalue
      exact absurd hvalue (by decide)
    · cases List.mem_singleton.1 hlast
      exact absurd heq' (of_decide_eq_true hother)

/-! ## The arguments that are taken -/

/-- How arguments are taken one after the other until a request is left. -/
inductive Request.Takes : Request → List Text → Request → Prop where
  | finished {r : Request} (hsurplus : r.surplus = false) : Request.Takes r [] r
  | operand {r q : Request} {t operand : Text} {rest : List Text}
      (hof : Argument.of? t = some (.operand operand))
      (hrest : Request.Takes (r.takeOperand operand) rest q) : Request.Takes r (t :: rest) q
  /-- A marker after the operand. -/
  | marked {r : Request} {t operand : Text} (hof : Argument.of? t = some (.operand operand))
      (hsurplus : (r.takeOperand operand).surplus = false) :
      Request.Takes r [t, "--".toList] (r.takeOperand operand)
  /-- A marker before the operand. -/
  | last {r : Request} {operand : Text} (hsurplus : (r.takeOperand operand).surplus = false) :
      Request.Takes r ["--".toList, operand] (r.takeOperand operand)
  | flags {r r' q : Request} {t : Text} {rest : List Text} {o : ToolOption} {long : Bool}
      {attached : Option Text} {options : List (ToolOption × Option Text)}
      (hof : Argument.of? t = some (.option o long attached))
      (hoptions : optionsOf o long attached = some options) (hneed : needValue options = false)
      (htake : r.takeOptions [] options = .ok r') (hrest : Request.Takes r' rest q) :
      Request.Takes r (t :: rest) q
  | valued {r r' q : Request} {t v next : Text} {rest : List Text} {o : ToolOption} {long : Bool}
      {attached : Option Text} {options : List (ToolOption × Option Text)}
      (hof : Argument.of? t = some (.option o long attached))
      (hoptions : optionsOf o long attached = some options) (hneed : needValue options = true)
      (hvalue : Argument.of? v = some (.operand next))
      (htake : r.takeOptions next options = .ok r') (hrest : Request.Takes r' rest q) :
      Request.Takes r (t :: v :: rest) q

section Takes

variable {r q : Request} {program : Text} {arguments : List Argument}

theorem Request.finish_eq_request (h : r.finish = .request q program) :
    q = r ∧ r.program = some program ∧ r.surplus = false := by
  rw [Request.finish] at h
  split at h
  · next hprogram =>
    split at h
    · exact absurd h (by simp)
    · next hsurplus =>
      cases h
      exact ⟨rfl, hprogram, Bool.eq_false_iff.2 hsurplus⟩
  · exact absurd h (by simp)

theorem Request.program_takeOperand (r : Request) (t : Text) :
    (r.takeOperand t).program.isSome = true := by
  rw [Request.takeOperand]
  split
  · next hprogram => exact hprogram
  · rfl

theorem Request.surplus_takeOperand (t : Text) (h : r.surplus = true ∨ r.program.isSome = true) :
    (r.takeOperand t).surplus = true := by
  rw [Request.takeOperand]
  split
  · rfl
  · next hprogram => exact h.resolve_right hprogram

theorem Request.takeOptions_ne_request {next : Text} {options : List (ToolOption × Option Text)} :
    r.takeOptions next options ≠ .error (.request q program) := by
  induction options generalizing r with
  | nil => simp [Request.takeOptions]
  | cons entry rest ih =>
    obtain ⟨option, attached⟩ := entry
    cases option with
    | help => simp [Request.takeOptions]
    | debug | callFrames => exact ih
    | width | height | out =>
      simp only [Request.takeOptions]
      split
      · exact ih
      · simp

/-- What nothing takes is an error in the end. -/
theorem Request.take_ne_request_of_surplus (hsurplus : r.surplus = true) :
    r.take arguments ≠ .request q program := by
  fun_induction Request.take r arguments with
  | case1 r =>
    intro h
    rw [(Request.finish_eq_request h).2.2] at hsurplus
    exact absurd hsurplus (by simp)
  | case2 r t rest ih | case3 r t rest _ ih | case4 r t rest ih =>
    exact ih (Request.surplus_takeOperand t (Or.inl hsurplus))
  | case6 r rest ih => exact ih rfl
  | case8 r o long attached options _ next rest _ r' htake ih
  | case11 r o long attached options _ rest _ r' htake ih =>
    exact ih ((Request.takeOptions_keeps htake).2.1.trans hsurplus)
  | case9 r o long attached options _ next rest _ reading htake
  | case12 r o long attached options _ rest _ reading htake =>
    rintro rfl
    exact Request.takeOptions_ne_request htake
  | case5 | case7 | case10 => simp

/-- A marker after the operand is taken together with it. -/
theorem Request.take_operand {t : Text} (hmarker : ∀ rest, arguments ≠ .marker :: rest) :
    r.take (.operand t :: arguments) = (r.takeOperand t).take arguments := by
  cases arguments with
  | nil => rfl
  | cons argument rest =>
    cases argument with
    | marker => exact absurd rfl (hmarker rest)
    | operand | option | foreign => rfl

/-- A request has one operand. -/
theorem Request.take_operand_ne_request {t : Text} (hprogram : r.program.isSome = true) :
    r.take (.operand t :: arguments) ≠ .request q program := by
  have hsurplus := Request.surplus_takeOperand t (Or.inr hprogram)
  by_cases hmarker : ∃ rest, arguments = .marker :: rest
  · obtain ⟨rest, rfl⟩ := hmarker
    show (r.takeOperand t).take rest ≠ _
    exact Request.take_ne_request_of_surplus hsurplus
  · rw [Request.take_operand fun rest heq => hmarker ⟨rest, heq⟩]
    exact Request.take_ne_request_of_surplus hsurplus

theorem Request.take_marker_ne_request (hprogram : r.program.isSome = true) :
    r.take (.marker :: arguments) ≠ .request q program := by
  cases arguments with
  | nil => simp [Request.take]
  | cons argument rest =>
    cases argument with
    | operand t =>
      show (r.takeOperand t).take rest ≠ _
      exact Request.take_ne_request_of_surplus (Request.surplus_takeOperand t (Or.inr hprogram))
    | marker | option | foreign => simp [Request.take]

/-- After its operand a request takes no other. -/
theorem Request.eq_nil_of_take_operands {operands : List Text} (hprogram : r.program.isSome = true)
    (h : r.take (operands.map .operand) = .request q program) : operands = [] := by
  cases operands with
  | nil => rfl
  | cons t rest => exact absurd h (Request.take_operand_ne_request hprogram)

/-- **A command line that asks for something is taken argument by argument.** -/
theorem Request.takes_of_take {texts : List Text} (hread : readArguments? texts = some arguments)
    (h : r.take arguments = .request q program) : r.Takes texts q ∧ q.program = some program := by
  fun_induction Request.take r arguments generalizing texts with
  | case1 r =>
    cases eq_nil_of_readArguments? hread
    obtain ⟨rfl, hprogram, hsurplus⟩ := Request.finish_eq_request h
    exact ⟨.finished hsurplus, hprogram⟩
  | case2 r t rest ih =>
    obtain ⟨u, more, rfl, hof, hmore⟩ := exists_of_readArguments? (by simp) hread
    obtain ⟨operands, rfl, rfl⟩ := operands_of_readArguments? hmore
    cases Request.eq_nil_of_take_operands (Request.program_takeOperand r t) h
    obtain ⟨rfl, hprogram, hsurplus⟩ := Request.finish_eq_request h
    exact ⟨.marked hof hsurplus, hprogram⟩
  | case3 r t rest hmarker ih =>
    obtain ⟨u, more, rfl, hof, hmore⟩ := exists_of_readArguments? (by simp) hread
    obtain ⟨htakes, hprogram⟩ := ih hmore h
    exact ⟨.operand hof htakes, hprogram⟩
  | case4 r t rest ih =>
    obtain ⟨operands, rfl, hoperands⟩ := operands_of_readArguments? hread
    cases operands with
    | nil => exact absurd hoperands (by simp)
    | cons u more =>
      cases hoperands
      cases Request.eq_nil_of_take_operands (Request.program_takeOperand r t) h
      obtain ⟨rfl, hprogram, hsurplus⟩ := Request.finish_eq_request h
      exact ⟨.last hsurplus, hprogram⟩
  | case6 r rest ih => exact absurd h (Request.take_ne_request_of_surplus rfl)
  | case8 r o long attached options hoptions next rest hneed r' htake ih =>
    obtain ⟨t, more, rfl, hof, hmore⟩ := exists_of_readArguments? (by simp) hread
    obtain ⟨v, texts, rfl, hvalue, htexts⟩ := exists_of_readArguments? (by simp) hmore
    obtain ⟨htakes, hprogram⟩ := ih htexts h
    exact ⟨.valued hof hoptions hneed hvalue htake htakes, hprogram⟩
  | case11 r o long attached options hoptions rest hneed r' htake ih =>
    obtain ⟨t, more, rfl, hof, hmore⟩ := exists_of_readArguments? (by simp) hread
    obtain ⟨htakes, hprogram⟩ := ih hmore h
    exact ⟨.flags hof hoptions hneed htake htakes, hprogram⟩
  | case9 r o long attached options _ next rest _ reading htake
  | case12 r o long attached options _ rest _ reading htake =>
    rw [h] at htake
    exact absurd htake Request.takeOptions_ne_request
  | case5 | case7 | case10 => exact absurd h (by simp)

/-- What is taken argument by argument asks for something. -/
theorem Request.Takes.take_eq {texts : List Text} (h : r.Takes texts q)
    (hprogram : q.program = some program) :
    ∃ arguments, readArguments? texts = some arguments ∧ r.take arguments = .request q program := by
  have hfinish : ∀ {r : Request}, r.surplus = false → r.program = some program →
      r.finish = .request r program := by
    intro r hsurplus hprogram
    rw [Request.finish, hprogram]
    simp only [hsurplus, Bool.false_eq_true, if_false]
  induction h with
  | finished hsurplus => exact ⟨[], rfl, hfinish hsurplus hprogram⟩
  | @operand r q t operand rest hof hrest ih =>
    obtain ⟨arguments, hread, htake⟩ := ih hprogram
    refine ⟨_, readArguments?_of_of? hof hread, ?_⟩
    rw [Request.take_operand, htake]
    rintro more rfl
    exact Request.take_marker_ne_request (Request.program_takeOperand r operand) htake
  | marked hof hsurplus =>
    exact ⟨[.operand _, .marker], readArguments?_of_of? hof rfl, hfinish hsurplus hprogram⟩
  | last hsurplus => exact ⟨[.marker, .operand _], rfl, hfinish hsurplus hprogram⟩
  | flags hof hoptions hneed htake hrest ih =>
    obtain ⟨arguments, hread, hrequest⟩ := ih hprogram
    refine ⟨_, readArguments?_of_of? hof hread, ?_⟩
    simp only [Request.take, hoptions, hneed, htake, hrequest]
  | valued hof hoptions hneed hvalue htake hrest ih =>
    obtain ⟨arguments, hread, hrequest⟩ := ih hprogram
    refine ⟨_, readArguments?_of_of? hof (readArguments?_of_of? hvalue hread), ?_⟩
    simp only [Request.take, hoptions, hneed, htake, hrequest]

/-- **The command lines that ask for something are those that are taken argument by argument.** -/
theorem readCommandLine_eq_request_iff {texts : List Text} :
    readCommandLine texts = .request q program ↔
      Request.empty.Takes texts q ∧ q.program = some program := by
  rw [readCommandLine]
  constructor
  · intro h
    split at h
    · exact absurd h (by simp)
    · next arguments hread => exact Request.takes_of_take hread h
  · rintro ⟨htakes, hprogram⟩
    obtain ⟨arguments, hread, htake⟩ := htakes.take_eq hprogram
    rw [hread]
    exact htake

end Takes

/-! ## The arguments without the output file -/

/-- The spelling by which an option is named on its own. -/
def ToolOption.spelling : ToolOption → Text
  | .help => "-h".toList
  | .width => "--width".toList
  | .height => "--height".toList
  | .debug => "-d".toList
  | .callFrames => "--call-frames".toList
  | .out => "-o".toList

theorem Argument.of?_spelling (o : ToolOption) :
    Argument.of? o.spelling = some (.option o (isLong o.spelling) none) := by
  cases o <;> decide

theorem ToolOption.spelling_ne_help {o : ToolOption} (h : o ≠ .help) :
    o.spelling ≠ "-h".toList ∧ o.spelling ≠ "--help".toList := by
  cases o with
  | help => exact absurd rfl h
  | width | height | debug | callFrames | out => decide

/-- The options that an argument stands for, if the one for the output file is among them. -/
def outOptions? (t : Text) : Option (List (ToolOption × Option Text)) :=
  match Argument.of? t with
  | some (.option o long attached) =>
    (optionsOf o long attached).filter fun options => options.any (·.1 = .out)
  | _ => none

/-- The arguments without the option for the output file and its value. `skip` tells that the first
argument is this value. The options that share a dash with the one that is left out are spelled one by
one. -/
def withoutOutFrom (skip : Bool) : List Text → List Text
  | [] => []
  | t :: rest =>
    if skip then withoutOutFrom false rest
    else if t = "--".toList then t :: rest
    else
      match outOptions? t with
      | none => t :: withoutOutFrom false rest
      | some options =>
        (options.filter (·.1 ≠ .out)).map (·.1.spelling) ++ withoutOutFrom (needValue options) rest

/-- The arguments of the same invocation without the option for the output file. -/
def withoutOut (arguments : List Text) : List Text := withoutOutFrom false arguments

section WithoutOut

variable {r r' q : Request} {t : Text} {rest texts : List Text} {o : ToolOption} {long : Bool}
  {attached : Option Text} {options : List (ToolOption × Option Text)}

theorem outOptions?_operand {operand : Text} (hof : Argument.of? t = some (.operand operand)) :
    outOptions? t = none := by
  rw [outOptions?, hof]

theorem outOptions?_option (hof : Argument.of? t = some (.option o long attached))
    (hoptions : optionsOf o long attached = some options) :
    outOptions? t = if options.any (·.1 = .out) then some options else none := by
  rw [outOptions?, hof]
  simp only [hoptions, Option.filter_some]

theorem withoutOut_cons (hmarker : t ≠ "--".toList) (hout : outOptions? t = none) :
    withoutOut (t :: rest) = t :: withoutOut rest := by
  rw [withoutOut, withoutOutFrom, if_neg Bool.false_ne_true, if_neg hmarker, hout]
  rfl

theorem withoutOut_operand {operand : Text} (hof : Argument.of? t = some (.operand operand)) :
    withoutOut (t :: rest) = t :: withoutOut rest :=
  withoutOut_cons (ne_marker_of_of? hof) (outOptions?_operand hof)

theorem withoutOut_marker : withoutOut ("--".toList :: rest) = "--".toList :: rest := rfl

theorem filter_ne_out (hother : ¬ options.any (·.1 = .out) = true) :
    options.filter (·.1 ≠ .out) = options := by
  refine List.filter_eq_self.2 fun entry hmem => decide_eq_true fun heq => hother ?_
  exact List.any_eq_true.2 ⟨entry, hmem, decide_eq_true heq⟩

/-- An argument with other options only is kept. -/
theorem withoutOut_other (hof : Argument.of? t = some (.option o long attached))
    (hoptions : optionsOf o long attached = some options)
    (hother : ¬ options.any (·.1 = .out) = true) :
    withoutOut (t :: rest) = t :: withoutOut rest := by
  refine withoutOut_cons (ne_marker_of_of? hof) ?_
  rw [outOptions?_option hof hoptions, if_neg hother]

theorem withoutOut_out (hof : Argument.of? t = some (.option o long attached))
    (hoptions : optionsOf o long attached = some options)
    (hout : options.any (·.1 = .out) = true) :
    withoutOut (t :: rest) =
      (options.filter (·.1 ≠ .out)).map (·.1.spelling) ++ withoutOutFrom (needValue options) rest := by
  rw [withoutOut, withoutOutFrom, if_neg Bool.false_ne_true, if_neg (ne_marker_of_of? hof),
    outOptions?_option hof hoptions, if_pos hout]

theorem Request.takeOperand_sentTo (r : Request) (t : Text) (out : Destination) :
    (r.sentTo out).takeOperand t = (r.takeOperand t).sentTo out := by
  unfold Request.takeOperand Request.sentTo
  split <;> rfl

/-- Options without values can be taken one by one. -/
theorem Request.Takes.spelled {next : Text} {flags : List (ToolOption × Option Text)}
    (hflags : ∀ entry ∈ flags, IsFlag entry) (htake : r.takeOptions next flags = .ok r')
    (hrest : r'.Takes rest q) : r.Takes (flags.map (·.1.spelling) ++ rest) q := by
  induction flags generalizing r with
  | nil =>
    cases htake
    exact hrest
  | cons entry flags ih =>
    obtain ⟨⟨hvalue, hattached⟩, hothers⟩ := List.forall_mem_cons.1 hflags
    obtain ⟨option, attached⟩ := entry
    cases hattached
    cases option with
    | help => exact absurd htake (by simp [Request.takeOptions])
    | debug | callFrames =>
      exact .flags (Argument.of?_spelling _) rfl rfl rfl (ih hothers htake)
    | width | height | out => exact absurd hvalue (by decide)

/-- **Without the option for the output file the same is taken**, but for where the result goes. -/
theorem Request.Takes.sentTo_withoutOut (h : r.Takes texts q) (out : Destination) :
    (r.sentTo out).Takes (withoutOut texts) (q.sentTo out) := by
  induction h with
  | finished hsurplus => exact .finished hsurplus
  | operand hof hrest ih =>
    rw [withoutOut_operand hof]
    refine .operand hof ?_
    rw [Request.takeOperand_sentTo]
    exact ih
  | @marked r t operand hof hsurplus =>
    rw [withoutOut_operand hof, withoutOut_marker, ← Request.takeOperand_sentTo]
    refine .marked hof ?_
    rw [Request.takeOperand_sentTo]
    exact hsurplus
  | @last r operand hsurplus =>
    rw [withoutOut_marker, ← Request.takeOperand_sentTo]
    refine .last ?_
    rw [Request.takeOperand_sentTo]
    exact hsurplus
  | @flags r r' q t rest o long attached options hof hoptions hneed htake hrest ih =>
    have hsame := Request.takeOptions_sentTo htake out
    by_cases hout : options.any (·.1 = .out) = true
    · rw [withoutOut_out hof hoptions hout, hneed]
      exact .spelled (flags_of_optionsOf hoptions hout) hsame ih
    · rw [withoutOut_other hof hoptions hout]
      exact .flags hof hoptions hneed (filter_ne_out hout ▸ hsame) ih
  | @valued r r' q t v next rest o long attached options hof hoptions hneed hvalue htake hrest ih =>
    have hsame := Request.takeOptions_sentTo htake out
    by_cases hout : options.any (·.1 = .out) = true
    · rw [withoutOut_out hof hoptions hout, hneed]
      exact .spelled (flags_of_optionsOf hoptions hout) hsame ih
    · rw [withoutOut_other hof hoptions hout, withoutOut_operand hvalue]
      exact .valued hof hoptions hneed hvalue (filter_ne_out hout ▸ hsame) ih

/-- What is left of arguments: each text is one of them, or the spelling of an option that does not ask
for help. -/
def LeftOf (texts left : List Text) : Prop :=
  ∀ t ∈ left, t ∈ texts ∨ ∃ o : ToolOption, o ≠ .help ∧ t = o.spelling

theorem LeftOf.refl (texts : List Text) : LeftOf texts texts := fun _ hmem => Or.inl hmem

theorem LeftOf.skip {left : List Text} (h : LeftOf texts left) (t : Text) : LeftOf (t :: texts) left :=
  fun u hmem => (h u hmem).imp_left (List.mem_cons_of_mem t)

theorem LeftOf.cons {left : List Text} (h : LeftOf texts left) (t : Text) :
    LeftOf (t :: texts) (t :: left) :=
  List.forall_mem_cons.2 ⟨Or.inl List.mem_cons_self, h.skip t⟩

theorem LeftOf.spelled {left : List Text} {next : Text} (h : LeftOf texts left)
    (htake : r.takeOptions next options = .ok r') :
    LeftOf texts ((options.filter (·.1 ≠ .out)).map (·.1.spelling) ++ left) := by
  refine List.forall_mem_append.2 ⟨fun t hmem => Or.inr ?_, h⟩
  obtain ⟨entry, hentry, rfl⟩ := List.mem_map.1 hmem
  exact ⟨entry.1, (Request.takeOptions_keeps htake).2.2 entry (List.mem_filter.1 hentry).1, rfl⟩

theorem Request.Takes.leftOf_withoutOut (h : r.Takes texts q) : LeftOf texts (withoutOut texts) := by
  induction h with
  | finished => exact .refl []
  | operand hof hrest ih =>
    rw [withoutOut_operand hof]
    exact ih.cons _
  | marked hof =>
    rw [withoutOut_operand hof, withoutOut_marker]
    exact .refl _
  | last => exact .refl _
  | @flags r r' q t rest o long attached options hof hoptions hneed htake hrest ih =>
    by_cases hout : options.any (·.1 = .out) = true
    · rw [withoutOut_out hof hoptions hout, hneed]
      exact (ih.skip t).spelled htake
    · rw [withoutOut_other hof hoptions hout]
      exact ih.cons t
  | @valued r r' q t v next rest o long attached options hof hoptions hneed hvalue htake hrest ih =>
    by_cases hout : options.any (·.1 = .out) = true
    · rw [withoutOut_out hof hoptions hout, hneed]
      exact ((ih.skip v).skip t).spelled htake
    · rw [withoutOut_other hof hoptions hout, withoutOut_operand hvalue]
      exact (ih.cons v).cons t

/-- **Without the option for the output file the same is asked for**, with the result on the standard
output. -/
theorem readCommandLine_withoutOut {program : Text} (h : readCommandLine texts = .request r program) :
    readCommandLine (withoutOut texts) = .request (r.sentTo .standardOutput) program := by
  obtain ⟨htakes, hprogram⟩ := readCommandLine_eq_request_iff.1 h
  exact readCommandLine_eq_request_iff.2 ⟨htakes.sentTo_withoutOut .standardOutput, hprogram⟩

example : withoutOut ["-do".toList, "a".toList, "b".toList, "--out=c".toList] =
    ["-d".toList, "b".toList] := by decide

theorem asksForHelp_withoutOut {program : Text} (h : readCommandLine texts = .request r program)
    (hhelp : asksForHelp texts = false) : asksForHelp (withoutOut texts) = false := by
  obtain ⟨htakes, _⟩ := readCommandLine_eq_request_iff.1 h
  simp only [asksForHelp, Bool.or_eq_false_iff, List.contains_eq_mem, decide_eq_false_iff_not]
    at hhelp ⊢
  obtain ⟨⟨_, hshort⟩, hlong⟩ := hhelp
  refine ⟨⟨?_, fun hmem => ?_⟩, fun hmem => ?_⟩
  · have hleft := readCommandLine_withoutOut h
    cases heq : withoutOut texts with
    | nil =>
      rw [heq] at hleft
      exact absurd hleft (by simp [readCommandLine, readArguments?, Request.take, Request.finish,
        Request.empty])
    | cons => rfl
  · rcases htakes.leftOf_withoutOut _ hmem with hmem | ⟨o, hne, heq⟩
    · exact hshort hmem
    · exact (ToolOption.spelling_ne_help hne).1 heq.symm
  · rcases htakes.leftOf_withoutOut _ hmem with hmem | ⟨o, hne, heq⟩
    · exact hlong hmem
    · exact (ToolOption.spelling_ne_help hne).2 heq.symm

end WithoutOut

end LogoLang
