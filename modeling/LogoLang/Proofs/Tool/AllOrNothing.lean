import LogoLang.Proofs.Tool.Arguments
import LogoLang.Proofs.Tool.Folder

set_option autoImplicit false

/-! # The tools are all or nothing

A tool that does not succeed leaves all files as they are and writes nothing to the standard output.
One that succeeds with an output file writes this file alone, and what it writes is what it would have
written to the standard output (`tools_all_or_nothing`). -/

namespace LogoLang

/-! ## Ends -/

/-- What a tool has written to the standard output in the end; of a help this is its first line. -/
def ToolEnd.output : ToolEnd → Text
  | .usage | .failed _ => []
  | .help firstLine => firstLine ++ ['\n']
  | .exited _ output _ => output

/-- A tool has succeeded if it has given its help or a result. -/
def ToolEnd.IsSuccess : ToolEnd → Prop
  | .usage | .failed _ => False
  | .help _ => True
  | .exited status _ _ => status = 0

instance : DecidablePred ToolEnd.IsSuccess
  | .usage | .failed _ => isFalse id
  | .help _ => isTrue trivial
  | .exited status _ _ => inferInstanceAs (Decidable (status = 0))

/-- Nothing is written before the result is there. -/
theorem Outcome.conclude_unsuccessful {outcome : Outcome} {folder : Folder}
    (h : ¬ (outcome.conclude folder).1.IsSuccess) :
    (outcome.conclude folder).2 = folder ∧ (outcome.conclude folder).1.output = [] := by
  cases outcome with
  | usage | failed | reported => exact ⟨rfl, rfl⟩
  | help => exact absurd trivial h
  | result destination text errors =>
    cases destination with
    | standardOutput => exact absurd rfl h
    | missing => exact ⟨rfl, rfl⟩
    | file path =>
      simp only [Outcome.conclude] at h ⊢
      split at h
      · exact ⟨rfl, rfl⟩
      · exact absurd rfl h

/-- A result that is to go to a file is written there, or the tool fails. -/
theorem Outcome.conclude_file {folder : Folder} {path text errors : Text}
    (h : ((Outcome.result (.file path) text errors).conclude folder).1.IsSuccess) :
    ∃ folder', (Outcome.result (.file path) text errors).conclude folder =
      (.exited 0 [] errors, folder') ∧ folder.write path (encodeText text) = .ok folder' := by
  simp only [Outcome.conclude] at h ⊢
  split at h
  · exact absurd h id
  · next folder' hwrite => exact ⟨folder', rfl, hwrite⟩

/-! ## Failures on the way -/

/-- The failures that a tool meets on the way to the result for a program that has been read. -/
inductive Tool.Meets (tool : Tool) (r : Request) (name : Text) (content : ByteArray) : Failure → Prop
    where
  | options {e : OptionsError} (h : Options.ofGiven r.given = .error e) :
    Tool.Meets tool r name content (.options e)
  /-- The program is no text, or it cannot be parsed. -/
  | opening {options : Options} {failure : Failure} (hoptions : Options.ofGiven r.given = .ok options)
      (h : (Session.startFile options name content).2 = .error failure) :
    Tool.Meets tool r name content failure
  | working {options : Options} {s : Session} {failure : Failure}
      (hoptions : Options.ofGiven r.given = .ok options)
      (hstart : (Session.startFile options name content).2 = .ok s)
      (h : (tool.work s).2 = .error failure) : Tool.Meets tool r name content failure

/-- The outcome with its result elsewhere, if it has one. -/
def Outcome.sentTo (out : Destination) : Outcome → Outcome
  | .result _ text errors => .result out text errors
  | outcome => outcome

section Process

variable {tool : Tool} {r : Request} {name : Text} {content : ByteArray} {failure : Failure}

theorem Tool.sentTo_fail (tool : Tool) (log : Text) (failure : Failure) (out : Destination) :
    (tool.fail log failure).sentTo out = tool.fail log failure := by
  unfold Tool.fail
  split <;> rfl

theorem Tool.not_isSuccess_fail (tool : Tool) (log : Text) (failure : Failure) (folder : Folder) :
    ¬ ((tool.fail log failure).conclude folder).1.IsSuccess := by
  unfold Tool.fail
  split
  · exact Nat.one_ne_zero
  · exact id

/-- A failure ends the work of a tool. -/
theorem Tool.Meets.process_eq (h : tool.Meets r name content failure) :
    ∃ log, tool.process r name content = tool.fail log failure := by
  cases h with
  | options h =>
    refine ⟨[], ?_⟩
    simp only [Tool.process, h]
    cases tool <;> rfl
  | opening hoptions h =>
    simp only [Tool.process, hoptions, h]
    exact ⟨_, rfl⟩
  | working hoptions hstart h =>
    simp only [Tool.process, hoptions, hstart, h]
    exact ⟨_, rfl⟩

/-- **A tool comes to its result or meets a failure.** -/
theorem Tool.process_cases (tool : Tool) (r : Request) (name : Text) (content : ByteArray) :
    (∃ text log, tool.process r name content = .result r.out text log) ∨
      ∃ failure, tool.Meets r name content failure := by
  cases hoptions : Options.ofGiven r.given with
  | error e => exact Or.inr ⟨_, .options hoptions⟩
  | ok options =>
    cases hstart : (Session.startFile options name content).2 with
    | error failure => exact Or.inr ⟨_, .opening hoptions hstart⟩
    | ok s =>
      cases hwork : (tool.work s).2 with
      | error failure => exact Or.inr ⟨_, .working hoptions hstart hwork⟩
      | ok text =>
        refine Or.inl ⟨text, ?_⟩
        simp only [Tool.process, hoptions, hstart, hwork]
        exact ⟨_, rfl⟩

/-- The result does not depend on where it goes. -/
theorem Tool.process_sentTo (tool : Tool) (r : Request) (name : Text) (content : ByteArray)
    (out : Destination) :
    tool.process (r.sentTo out) name content = (tool.process r name content).sentTo out := by
  have hgiven : (r.sentTo out).given = r.given := rfl
  simp only [Tool.process, hgiven]
  split
  · rfl
  · split
    · rw [Tool.sentTo_fail]
    · split
      · rw [Tool.sentTo_fail]
      · rfl

end Process

/-! ## Both tools on all command lines -/

/-- The arguments ask for the work on a program, and the program can be read. -/
structure RequestRead (arguments : List Text) (folder : Folder) (input : ByteArray) (r : Request)
    (name : Text) (content : ByteArray) : Prop where
  noHelp : asksForHelp arguments = false
  program : ∃ operand, readCommandLine arguments = .request r operand ∧
    (ProgramPlace.ofOperand operand).read folder input = .ok content ∧
    name = (ProgramPlace.ofOperand operand).sourceName

/-- A tool gives all of its result or nothing at all. -/
structure Tool.AllOrNothing (tool : Tool) (arguments : List Text) (folder : Folder)
    (input : ByteArray) : Prop where
  /-- However a tool fails, there are the same files with the same content as before, and nothing is
  on the standard output. -/
  unsuccessful : ¬ (tool.runIn arguments folder input).1.IsSuccess →
    (tool.runIn arguments folder input).2 = folder ∧
      (tool.runIn arguments folder input).1.output = []
  /-- A diagnostic is the last thing on the standard error. -/
  reported : ∀ r name content d, RequestRead arguments folder input r name content →
    tool.Meets r name content (.diagnostic d) →
    ∃ log, tool.runIn arguments folder input = (.exited 1 [] (log ++ d.message), folder)
  tooDeep : ∀ r name content, RequestRead arguments folder input r name content →
    tool = .drawing → tool.Meets r name content .nestedTooDeeply →
    ∃ log, tool.runIn arguments folder input =
      (.exited 1 [] (log ++ "Run Error: Function calls nested too deeply\n".toList), folder)
  /-- With an output file, this file is written instead of the standard output. -/
  written : ∀ r program path, asksForHelp arguments = false →
    readCommandLine arguments = .request r program → r.out = .file path →
    (tool.runIn arguments folder input).1.IsSuccess →
    ∃ text errors folder',
      tool.runIn arguments folder input = (.exited 0 [] errors, folder') ∧
      tool.runIn (withoutOut arguments) folder input = (.exited 0 text errors, folder) ∧
      folder.Writes path (encodeText text) folder'

section AllOrNothing

variable {tool : Tool} {arguments : List Text} {folder : Folder} {input : ByteArray} {r : Request}
  {name program : Text} {content : ByteArray}

theorem Tool.outcome_of_request (tool : Tool) (hhelp : asksForHelp arguments = false)
    (hrequest : readCommandLine arguments = .request r program) :
    tool.outcome arguments folder input =
      match (ProgramPlace.ofOperand program).read folder input with
      | .ok content => tool.process r (ProgramPlace.ofOperand program).sourceName content
      | .error _ => .usage := by
  rw [Tool.outcome, if_neg (by rw [hhelp]; exact Bool.false_ne_true), hrequest]
  cases hread : (ProgramPlace.ofOperand program).read folder input with
  | ok content => simp [Reading.program?, hread, Except.toOption, Tool.answer]
  | error fault => simp [Reading.program?, hread, Except.toOption, Tool.answer]

theorem RequestRead.outcome_eq (h : RequestRead arguments folder input r name content) :
    tool.outcome arguments folder input = tool.process r name content := by
  obtain ⟨hhelp, operand, hrequest, hread, rfl⟩ := h
  rw [Tool.outcome_of_request tool hhelp hrequest, hread]

/-- A failure that is reported ends a tool with its report. -/
theorem RequestRead.runIn_eq {failure : Failure} {report : Text}
    (h : RequestRead arguments folder input r name content)
    (hmeets : tool.Meets r name content failure) (hreport : tool.report? failure = some report) :
    ∃ log, tool.runIn arguments folder input = (.exited 1 [] (log ++ report), folder) := by
  obtain ⟨log, hprocess⟩ := hmeets.process_eq
  refine ⟨log, ?_⟩
  rw [Tool.runIn, h.outcome_eq, hprocess, Tool.fail, hreport]
  rfl

/-- A tool that succeeds on a program has come to a result. -/
theorem Tool.exists_result (hhelp : asksForHelp arguments = false)
    (hrequest : readCommandLine arguments = .request r program)
    (hsuccess : (tool.runIn arguments folder input).1.IsSuccess) :
    ∃ content text errors, (ProgramPlace.ofOperand program).read folder input = .ok content ∧
      tool.process r (ProgramPlace.ofOperand program).sourceName content =
        .result r.out text errors := by
  rw [Tool.runIn, Tool.outcome_of_request tool hhelp hrequest] at hsuccess
  cases hread : (ProgramPlace.ofOperand program).read folder input with
  | error fault =>
    rw [hread] at hsuccess
    exact absurd hsuccess id
  | ok content =>
    rw [hread] at hsuccess
    rcases tool.process_cases r (ProgramPlace.ofOperand program).sourceName content with
      ⟨text, errors, hresult⟩ | ⟨failure, hmeets⟩
    · exact ⟨content, text, errors, rfl, hresult⟩
    · obtain ⟨log, hfail⟩ := hmeets.process_eq
      simp only [hfail] at hsuccess
      exact absurd hsuccess (tool.not_isSuccess_fail log failure folder)

end AllOrNothing

/-- **The tools are all or nothing**, with all arguments and in all folders. -/
theorem tools_all_or_nothing (tool : Tool) (arguments : List Text) (folder : Folder)
    (input : ByteArray) : tool.AllOrNothing arguments folder input where
  unsuccessful := Outcome.conclude_unsuccessful
  reported r name content d hread hmeets := hread.runIn_eq hmeets (by cases tool <;> rfl)
  tooDeep r name content hread htool hmeets := by
    subst htool
    exact hread.runIn_eq hmeets rfl
  written r program path hhelp hrequest hout hsuccess := by
    obtain ⟨content, text, errors, hread, hresult⟩ :=
      Tool.exists_result hhelp hrequest hsuccess
    have houtcome : tool.outcome arguments folder input = .result (.file path) text errors := by
      rw [Tool.outcome_of_request tool hhelp hrequest, hread, ← hout]
      exact hresult
    -- the other invocation works on the same program under the same options
    have hother : tool.outcome (withoutOut arguments) folder input =
        .result .standardOutput text errors := by
      rw [Tool.outcome_of_request tool (asksForHelp_withoutOut hrequest hhelp)
        (readCommandLine_withoutOut hrequest), hread]
      simp only [Tool.process_sentTo, hresult]
      rfl
    rw [Tool.runIn, houtcome] at hsuccess ⊢
    obtain ⟨folder', hconclude, hwrite⟩ := Outcome.conclude_file hsuccess
    refine ⟨text, errors, folder', hconclude, ?_, Folder.writes_of_write hwrite⟩
    rw [Tool.runIn, hother]
    rfl

/-- A program that fails keeps an output file that is already there, and one that succeeds writes
it. -/
theorem tools_all_or_nothing_of_existing_output :
    let folder := Folder.ofFiles [("flawed".toList, encodeText "FORWARD :x\n".toList),
      ("line".toList, encodeText "PENDOWN\nFORWARD \"10\n".toList),
      ("out".toList, encodeText "old".toList)]
    (∀ tool : Tool, (tool.runIn ["-o".toList, "out".toList, "flawed".toList] folder .empty).2 = folder) ∧
    ∀ tool : Tool, ∃ text errors folder',
      tool.runIn ["line".toList, "-oout".toList] folder .empty = (.exited 0 [] errors, folder') ∧
      tool.runIn ["line".toList] folder .empty = (.exited 0 text errors, folder) ∧
      folder.Writes "out".toList (encodeText text) folder' := by
  intro folder
  constructor
  · intro tool
    have hfailed : ¬ (tool.runIn ["-o".toList, "out".toList, "flawed".toList] folder
        .empty).1.IsSuccess := by
      cases tool <;> decide +kernel
    exact ((tools_all_or_nothing tool _ folder .empty).unsuccessful hfailed).1
  · intro tool
    have hsuccess : (tool.runIn ["line".toList, "-oout".toList] folder .empty).1.IsSuccess := by
      cases tool <;> decide +kernel
    exact (tools_all_or_nothing tool _ folder .empty).written _ "line".toList "out".toList rfl rfl rfl
      hsuccess

end LogoLang
