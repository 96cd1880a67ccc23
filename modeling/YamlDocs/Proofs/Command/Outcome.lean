/-
  YamlDocs.Proofs.Command.Outcome
  ────────────────────────────────
  **A RUN DOES ALL OR NOTHING.**

  A request comes to one text.  Without an output the text is printed; with
  one, the same text goes into the file (`Request.effect_eq_map`).  Nothing
  happens before the text is known, and writing comes last.  So a run that
  fails prints nothing and leaves every file alone, and one that succeeds
  changes at most the file that its arguments name for the output
  (`run_all_or_nothing`).
-/
import YamlDocs.Command.Run
import YamlDocs.Proofs.Command.Words
import YamlDocs.Proofs.Files.Write

namespace YamlDocs

/-! ## §1. One text for two effects. -/

/-- What becomes of a printed text if there is an output for it. -/
def Effect.redirect (output : Option Path) : Effect → Effect
  | .print text =>
    match output with
    | some path => .write path text
    | none => .print text
  | .write path text => .write path text

section Effect

variable {files : FileView} {workingDirectory : Path}

theorem Command.effect_eq_map (settings : Settings) (command : Command) :
    command.effect files workingDirectory settings =
      (command.withoutOutput.effect files workingDirectory settings).map
        (Effect.redirect command.output?) := by
  cases command with
  | extract path format =>
      simp only [effect, withoutOutput]
      cases extractFile files settings path format <;> rfl
  | dependencies document sourceDirectory =>
      simp only [effect, withoutOutput]
      cases expandFile files settings workingDirectory sourceDirectory document <;> rfl
  | expand document sourceDirectory output =>
      simp only [effect, withoutOutput]
      cases expandFile files settings workingDirectory sourceDirectory document with
      | error failure => rfl
      | ok result => cases output <;> rfl

theorem exists_print_of_map {α : Type} {result : Except Failure α} {f : α → Text}
    {effect : Effect} (h : result.map (fun value => Effect.print (f value)) = .ok effect) :
    ∃ text, effect = .print text := by
  cases result with
  | error failure => exact nomatch h
  | ok value => exact ⟨f value, (Except.ok.inj h).symm⟩

/-- A command without output prints. -/
theorem Command.exists_print {settings : Settings} {command : Command} {effect : Effect}
    (h : command.withoutOutput.effect files workingDirectory settings = .ok effect) :
    ∃ text, effect = .print text := by
  cases command with
  | extract path format => exact exists_print_of_map h
  | dependencies document sourceDirectory =>
      exact exists_print_of_map (f := fun result : Environment × Text =>
        listing result.1.dependencies) h
  | expand document sourceDirectory output => exact exists_print_of_map (f := Prod.snd) h

/-- **The effect of a request** is that of the same request without its output, redirected. -/
theorem Request.effect_eq_map (request : Request) :
    request.effect files workingDirectory =
      (request.withoutOutput.effect files workingDirectory).map
        (Effect.redirect request.output?) := by
  cases request with
  | version => rfl
  | help subject detailed => rfl
  | run config overrides command =>
      simp only [effect, withoutOutput, output?]
      cases loadSettings files workingDirectory config overrides with
      | error failure => rfl
      | ok settings => exact command.effect_eq_map settings

/-- A request without output prints. -/
theorem Request.exists_print {request : Request} {effect : Effect}
    (h : request.withoutOutput.effect files workingDirectory = .ok effect) :
    ∃ text, effect = .print text := by
  cases request with
  | version => exact ⟨versionText, (Except.ok.inj h).symm⟩
  | help subject detailed => exact ⟨helpText subject detailed, (Except.ok.inj h).symm⟩
  | run config overrides command =>
      simp only [Request.effect, withoutOutput] at h
      cases hsettings : loadSettings files workingDirectory config overrides with
      | error failure =>
          rw [hsettings] at h
          cases h
      | ok settings =>
          rw [hsettings] at h
          exact Command.exists_print h

end Effect

/-! ## §2. Runs. -/

namespace Disk

variable {disk : Disk} {arguments : List Bytes} {request : Request}

/-- A run prints what its request comes to, or writes it into the output. -/
theorem run_of_print {text : Text} (harguments : Request.ofArguments? arguments = some request)
    (htext : request.withoutOutput.effect disk.view disk.workingPath = .ok (.print text)) :
    disk.run arguments = disk.apply (Effect.redirect request.output? (.print text)) := by
  unfold run
  rw [harguments]
  simp only
  rw [Request.effect_eq_map, htext]
  rfl

/-- A run without such a text changes nothing. -/
theorem run_of_error {failure : Failure}
    (harguments : Request.ofArguments? arguments = some request)
    (hfailure : request.withoutOutput.effect disk.view disk.workingPath = .error failure) :
    disk.run arguments = (disk, .failure failure) := by
  unfold run
  rw [harguments]
  simp only
  rw [Request.effect_eq_map, hfailure]
  rfl

/-- Without the output the text is printed. -/
theorem run_withoutOutput {text : Text}
    (harguments : Request.ofArguments? arguments = some request.withoutOutput)
    (htext : request.withoutOutput.effect disk.view disk.workingPath = .ok (.print text)) :
    disk.run arguments = (disk, .success text) := by
  unfold run
  rw [harguments]
  simp only
  rw [htext]
  rfl

/-- Who asks for help gets it, and nothing else happens. -/
theorem run_of_help {subject : Subject} {detailed : Bool}
    (harguments : Request.ofArguments? arguments = some (.help subject detailed)) :
    disk.run arguments = (disk, .success (helpText subject detailed)) := by
  unfold run
  rw [harguments]
  rfl

/-- **A run does all or nothing.** If its exit code is not zero, it prints nothing and the disk is
as before. If it is zero, the arguments make a request. Without an output in the request the disk
is as before; with one, nothing is printed and the disk is the same but for the file that the
output names. This file holds just the text that is printed for the same request without its
output, for which there are arguments too. Requests for help and for the version have no output. -/
theorem run_all_or_nothing (disk : Disk) (arguments : List Bytes) :
    ((disk.run arguments).2.exitCode ≠ 0 →
      (disk.run arguments).2.output = [] ∧ (disk.run arguments).1 = disk) ∧
    ((disk.run arguments).2.exitCode = 0 →
      ∃ request, Request.ofArguments? arguments = some request ∧
        (request.output? = none → (disk.run arguments).1 = disk) ∧
        ∀ path, request.output? = some path →
          (disk.run arguments).2.output = [] ∧
          ∃ text, disk.DiffersAt (disk.run arguments).1 path (Utf8.encode text) ∧
            (∃ plain, Request.ofArguments? plain = some request.withoutOutput) ∧
            ∀ plain, Request.ofArguments? plain = some request.withoutOutput →
              disk.run plain = (disk, .success text)) := by
  cases harguments : Request.ofArguments? arguments with
  | none =>
      have hrun : disk.run arguments = (disk, .misuse) := by
        unfold run
        rw [harguments]
      rw [hrun]
      exact ⟨fun _ => ⟨rfl, rfl⟩, fun hzero => absurd hzero (Nat.succ_ne_zero _)⟩
  | some request =>
      cases heffect : request.withoutOutput.effect disk.view disk.workingPath with
      | error failure =>
          rw [run_of_error harguments heffect]
          exact ⟨fun _ => ⟨rfl, rfl⟩, fun hzero => absurd hzero (Nat.succ_ne_zero _)⟩
      | ok effect =>
          obtain ⟨text, rfl⟩ := Request.exists_print heffect
          rw [run_of_print harguments heffect]
          cases houtput : request.output? with
          | none =>
              refine ⟨fun hfail => absurd rfl hfail, fun _ => ⟨request, rfl, fun _ => rfl, ?_⟩⟩
              intro path hpath
              cases houtput.symm.trans hpath
          | some path =>
              simp only [Effect.redirect, apply]
              -- Writing is the last thing that can fail.
              cases hwrite : disk.writeFile path (Utf8.encode text) with
              | error error => exact ⟨fun _ => ⟨rfl, rfl⟩, fun hzero => absurd hzero (Nat.succ_ne_zero _)⟩
              | ok after =>
                  refine ⟨fun hfail => absurd rfl hfail, fun _ => ⟨request, rfl, ?_, ?_⟩⟩
                  · intro hnone
                    cases houtput.symm.trans hnone
                  · intro other hother
                    obtain rfl := Option.some.inj (houtput.symm.trans hother)
                    refine ⟨rfl, text, differsAt_of_writeFile hwrite,
                      Request.exists_arguments_withoutOutput harguments, ?_⟩
                    intro plain hplain
                    exact run_withoutOutput hplain heffect

/-! ## §3. Runs in a directory of documents. -/

/-- A YAML file, and a directory with a document, a document that fails in its last line, and a
YAML file whose name is no text. -/
def docsDisk : Disk where
  tree := .directory
    [(Utf8.encode "a.yaml".toList, .file (Utf8.encode "### A\n".toList)),
      (Utf8.encode "docs".toList, .directory
        [(Utf8.encode "index".toList, .file (Utf8.encode ".. autoyaml:: a.yaml\n".toList)),
          (Utf8.encode "broken".toList,
            .file (Utf8.encode ".. autoyaml:: a.yaml\n.. autoyaml:: b.yaml\n".toList)),
          ([0xFF], .file (Utf8.encode "### A\n".toList))])]
  workingDirectory := [Utf8.encode "docs".toList]

/-- The arguments for the expansion of a document into the file `out`. -/
def expandInto (document : Text) : List Bytes :=
  (["expand".toList, document, "-oout".toList] : List Text)

/-- The same arguments with the option for help behind them. -/
def expandHelp (document : Text) : List Bytes := expandInto document ++ [Request.helpWord false]

/-- The arguments for the JSON form of the file whose name is no text. -/
def extractNameless : List Bytes :=
  [Utf8.encode "extract".toList, [0xFF], Utf8.encode "--format=json".toList]

/-- The first document is written as it would be printed. The second leaves no trace, and neither
does the file that JSON cannot name. With the option for help the first is not written either. -/
theorem run_all_or_nothing_docs :
    (docsDisk.run (expandInto "index".toList)).2.exitCode = 0 ∧
    (∃ text, docsDisk.DiffersAt (docsDisk.run (expandInto "index".toList)).1
        (.ofText "out".toList) (Utf8.encode text) ∧
      docsDisk.run (["expand".toList, "index".toList] : List Text) = (docsDisk, .success text)) ∧
    (docsDisk.run (expandInto "broken".toList)).2.exitCode ≠ 0 ∧
    (docsDisk.run (expandInto "broken".toList)).1 = docsDisk ∧
    (docsDisk.run extractNameless).2.exitCode ≠ 0 ∧
    (docsDisk.run extractNameless).1 = docsDisk ∧
    docsDisk.run (expandHelp "index".toList) =
      (docsDisk, .success (helpText (.command .expand) false)) := by
  have hzero : (docsDisk.run (expandInto "index".toList)).2.exitCode = 0 := by decide +kernel
  have hbroken : (docsDisk.run (expandInto "broken".toList)).2.exitCode ≠ 0 := by decide +kernel
  have hnameless : (docsDisk.run extractNameless).2.exitCode ≠ 0 := by decide +kernel
  have hrequest : Request.ofArguments? (expandInto "index".toList) =
      some (.run none [] (.expand (.ofText "index".toList) none (some (.ofText "out".toList)))) := by
    decide +kernel
  have hhelp : Request.ofArguments? (expandHelp "index".toList) =
      some (.help (.command .expand) false) :=
    Request.help_goes_first .expand [Utf8.encode "index".toList, Utf8.encode "-oout".toList]
      rfl rfl rfl false []
  obtain ⟨-, hsuccess⟩ := run_all_or_nothing docsDisk (expandInto "index".toList)
  obtain ⟨request, hsome, -, houtput⟩ := hsuccess hzero
  obtain rfl := Option.some.inj (hrequest.symm.trans hsome)
  obtain ⟨-, text, hdiffers, -, hplain⟩ := houtput (.ofText "out".toList) rfl
  obtain ⟨hfailed, -⟩ := run_all_or_nothing docsDisk (expandInto "broken".toList)
  obtain ⟨hrefused, -⟩ := run_all_or_nothing docsDisk extractNameless
  exact ⟨hzero, ⟨text, hdiffers, hplain _ (by decide +kernel)⟩, hbroken, (hfailed hbroken).2,
    hnameless, (hrefused hnameless).2, run_of_help hhelp⟩

end Disk

end YamlDocs
