/-
  YamlDocs.Proofs.Command.Words
  ────────────────────────────────
  **REQUESTS IN WORDS.**

  Every path that a request holds is spelled by a word, and no such word is
  empty: each way of reading a word keeps this (`Reading.isSpelled_step`).
  Conversely, an expansion whose paths are spelled can be written down, with
  every option in one word and the document behind `--`
  (`ofArguments?_expandWords`).  So whatever expansion arguments ask for, the
  same without its output can be asked for too
  (`exists_arguments_withoutOutput`).  Words that ask for help end the
  reading: only what stands in front of them has to be used as it should be
  (`help_goes_first`).
-/
import YamlDocs.Command.Arguments
import YamlDocs.Proofs.Text.Utf8

namespace YamlDocs

/-! ## §1. Requests with and without output. -/

/-- The file into which a command writes. -/
def Command.output? : Command → Option Path
  | .expand _ _ output => output
  | _ => none

/-- The command that prints what the given one would write. -/
def Command.withoutOutput : Command → Command
  | .expand document sourceDirectory _ => .expand document sourceDirectory none
  | command => command

namespace Request

/-- The file into which a request writes. -/
def output? : Request → Option Path
  | .run _ _ command => command.output?
  | _ => none

/-- The request that prints what the given one would write. -/
def withoutOutput : Request → Request
  | .run config overrides command => .run config overrides command.withoutOutput
  | request => request

end Request

/-! ## §2. Paths are spelled by words. -/

/-- A path that a word spells; the word is not empty. -/
def Path.IsSpelled (path : Path) : Prop := path.bytes ≠ []

/-- All paths that are given are spelled by words. -/
structure Given.IsSpelled (given : Given) : Prop where
  config : ∀ path ∈ given.config, path.IsSpelled
  sourceDirectory : ∀ path ∈ given.sourceDirectory, path.IsSpelled
  output : ∀ path ∈ given.output, path.IsSpelled
  operand : ∀ path ∈ given.operand, path.IsSpelled

theorem orMisuse_eq_ok_iff {α : Type} {found : Option α} {value : α} :
    orMisuse found = .ok value ↔ found = some value := by
  cases found <;> simp [orMisuse]

namespace Given

theorem isSpelled_empty : ({} : Given).IsSpelled :=
  ⟨nofun, nofun, nofun, nofun⟩

/-- A path that is given is the only one of its kind and spelled by its word. -/
theorem path?_eq_some_iff {before : Option Path} {value : Bytes} {path : Path} :
    path? before value = some path ↔ before = none ∧ path.IsSpelled ∧ path.bytes = value := by
  obtain ⟨bytes⟩ := path
  unfold path? Path.IsSpelled
  cases before with
  | some other => simp
  | none =>
      by_cases hempty : value = []
      · simp [hempty]
      · simp only [Option.isSome_none, Bool.false_eq_true, hempty, or_self, if_false,
          Option.some.injEq, Path.mk.injEq, true_and]
        constructor
        · intro heq
          subst heq
          exact ⟨hempty, rfl⟩
        · exact fun h => h.2.symm

theorem isSpelled_of_path? {before : Option Path} {value : Bytes} {path : Path}
    (h : path? before value = some path) : ∀ other ∈ some path, other.IsSpelled := by
  intro other hother
  obtain rfl := Option.some.inj hother
  exact (path?_eq_some_iff.mp h).2.1

variable {given next : Given} {word : Bytes} {option : OptionName} {detailed : Bool}

theorem IsSpelled.put? (h : given.IsSpelled) (hput : given.put? word option = some next) :
    next.IsSpelled := by
  cases option with
  | config =>
      obtain ⟨path, hpath, rfl⟩ := Option.map_eq_some_iff.mp hput
      exact { h with config := isSpelled_of_path? hpath }
  | set =>
      obtain ⟨text, -, rfl⟩ := Option.map_eq_some_iff.mp hput
      exact { h with }
  | format =>
      obtain ⟨format, -, rfl⟩ := Option.map_eq_some_iff.mp hput
      exact { h with }
  | srcdir =>
      obtain ⟨path, hpath, rfl⟩ := Option.map_eq_some_iff.mp hput
      exact { h with sourceDirectory := isSpelled_of_path? hpath }
  | output =>
      obtain ⟨path, hpath, rfl⟩ := Option.map_eq_some_iff.mp hput
      exact { h with output := isSpelled_of_path? hpath }
  | verbose => cases hput
  | help => cases hput
  | version => cases hput

theorem IsSpelled.raise (h : given.IsSpelled) (hraise : given.raise detailed option = .ok next) :
    next.IsSpelled := by
  unfold Given.raise at hraise
  split at hraise
  · split at hraise
    case isTrue => cases hraise
    case isFalse =>
      obtain rfl := Except.ok.inj hraise
      exact { h with }
  -- Every other option without a value ends the reading.
  all_goals cases hraise

theorem IsSpelled.operand? (h : given.IsSpelled) (hoperand : given.operand? word = some next) :
    next.IsSpelled := by
  obtain ⟨path, hpath, rfl⟩ := Option.map_eq_some_iff.mp hoperand
  exact { h with operand := isSpelled_of_path? hpath }

end Given

namespace Reading

variable {reading next : Reading} {word : Bytes} {option : OptionName} {scope : List OptionName}
  {detailed : Bool}

theorem isSpelled_put (h : reading.given.IsSpelled) (hput : reading.put option word = .ok next) :
    next.given.IsSpelled := by
  obtain ⟨given, hgiven, rfl⟩ := map_eq_ok_iff.mp hput
  exact h.put? (orMisuse_eq_ok_iff.mp hgiven)

theorem isSpelled_raise (h : reading.given.IsSpelled)
    (hraise : reading.raise detailed option = .ok next) : next.given.IsSpelled := by
  obtain ⟨given, hgiven, rfl⟩ := map_eq_ok_iff.mp hraise
  exact h.raise hgiven

theorem isSpelled_operand (h : reading.given.IsSpelled)
    (hoperand : reading.operand word = .ok next) : next.given.IsSpelled := by
  obtain ⟨given, hgiven, rfl⟩ := map_eq_ok_iff.mp hoperand
  exact h.operand? (orMisuse_eq_ok_iff.mp hgiven)

theorem isSpelled_settle (h : reading.given.IsSpelled) (hsettle : reading.settle = .ok next) :
    next.given.IsSpelled := by
  unfold settle at hsettle
  split at hsettle
  · obtain rfl := Except.ok.inj hsettle
    exact h
  · cases hsettle
  · exact isSpelled_put h hsettle

theorem isSpelled_long (h : reading.given.IsSpelled) (hlong : reading.long scope word = .ok next) :
    next.given.IsSpelled := by
  unfold long at hlong
  obtain ⟨option, -, hoption⟩ := bind_eq_ok_iff.mp hlong
  split at hoption
  · exact isSpelled_put h hoption
  · obtain rfl := Except.ok.inj hoption
    exact h
  · exact isSpelled_raise h hoption
  · cases hoption

theorem isSpelled_cluster (h : reading.given.IsSpelled)
    (hcluster : reading.cluster scope word = .ok next) : next.given.IsSpelled := by
  -- A flag lets the next letter be read; an option takes all that is left as its value.
  induction word generalizing reading with
  | nil =>
      obtain rfl := Except.ok.inj hcluster
      exact h
  | cons letter rest ih =>
      rw [cluster] at hcluster
      obtain ⟨option, -, hoption⟩ := bind_eq_ok_iff.mp hcluster
      split at hoption
      case isTrue =>
        split at hoption
        case isTrue =>
          obtain rfl := Except.ok.inj hoption
          exact h
        case isFalse => exact isSpelled_put h hoption
      case isFalse =>
        obtain ⟨raised, hraise, hrest⟩ := bind_eq_ok_iff.mp hoption
        exact ih (isSpelled_raise h hraise) hrest

theorem isSpelled_take (h : reading.given.IsSpelled) (htake : reading.take scope word = .ok next) :
    next.given.IsSpelled := by
  unfold take at htake
  split at htake
  case isTrue => exact isSpelled_operand h htake
  case isFalse =>
    split at htake
    · exact isSpelled_operand h htake
    · obtain rfl := Except.ok.inj htake
      exact h
    · exact isSpelled_long h htake
    · exact isSpelled_cluster h htake

/-- **Every way of reading a word keeps paths spelled by words.** -/
theorem isSpelled_step (h : reading.given.IsSpelled) (hstep : reading.step scope word = .ok next) :
    next.given.IsSpelled := by
  unfold step at hstep
  split at hstep
  · obtain rfl := Except.ok.inj hstep
    exact h
  · obtain ⟨settled, hsettle, htake⟩ := bind_eq_ok_iff.mp hstep
    exact isSpelled_take (isSpelled_settle h hsettle) htake

theorem isSpelled_foldlM {words : List Bytes} (h : reading.given.IsSpelled)
    (hwords : words.foldlM (step scope) reading = .ok next) : next.given.IsSpelled := by
  induction words generalizing reading with
  | nil =>
      obtain rfl := Except.ok.inj hwords
      exact h
  | cons word rest ih =>
      rw [List.foldlM_cons] at hwords
      obtain ⟨middle, hstep, hrest⟩ := bind_eq_ok_iff.mp hwords
      exact ih (isSpelled_step h hstep) hrest

end Reading

namespace Request

variable {words : List Bytes} {reading : Reading} {verb : Verb} {given : Given}

theorem isSpelled_readOperands (h : readOperands verb words = .ok given) : given.IsSpelled := by
  obtain ⟨reading, hwords, hsettle⟩ := bind_eq_ok_iff.mp h
  obtain ⟨settled, hsettled, hgiven⟩ := bind_eq_ok_iff.mp hsettle
  obtain rfl := Except.ok.inj hgiven
  exact Reading.isSpelled_settle (Reading.isSpelled_foldlM Given.isSpelled_empty hwords) hsettled

/-- A request comes from two sides of a command on which all paths are spelled by words. -/
def ComesFromSides (request : Request) : Prop :=
  ∃ verb front back, Given.IsSpelled front ∧ Given.IsSpelled back ∧
    ofSides? verb front back = some request

variable {config : Option Path} {overrides : List Text} {command : Command}

theorem ofStop?_ne_run {subject : Subject} {stop : Stop} :
    ofStop? subject stop ≠ some (.run config overrides command) := by
  cases stop <;> simp [ofStop?]

theorem comesFromSides_of_ofCommand? (hreading : reading.given.IsSpelled)
    (h : ofCommand? reading verb words = some (.run config overrides command)) :
    ComesFromSides (.run config overrides command) := by
  unfold ofCommand? at h
  split at h
  · exact absurd h ofStop?_ne_run
  next back hback =>
    split at h
    · exact absurd h ofStop?_ne_run
    next front hfront =>
      exact ⟨verb, front.given, back, Reading.isSpelled_settle hreading hfront,
        isSpelled_readOperands hback, h⟩

/-- A request to run a command comes from its two sides. -/
theorem comesFromSides_of_read? (hreading : reading.given.IsSpelled)
    (h : read? reading words = some (.run config overrides command)) :
    ComesFromSides (.run config overrides command) := by
  -- Each word in front is an option, which keeps the paths spelled, or the command.
  induction words generalizing reading with
  | nil => cases h
  | cons word rest ih =>
      rw [read?] at h
      split at h
      case isTrue =>
        obtain ⟨subject, -, hrequest⟩ := Option.map_eq_some_iff.mp h
        cases hrequest
      case isFalse =>
        split at h
        · exact comesFromSides_of_ofCommand? hreading h
        · split at h
          · exact absurd h ofStop?_ne_run
          next hstep =>
            split at h
            case isTrue => cases h
            case isFalse => exact ih (Reading.isSpelled_step hreading hstep) h

/-- **The paths of an expansion are spelled by words.** -/
theorem isSpelled_of_expand {arguments : List Bytes} {document : Path}
    {sourceDirectory output : Option Path}
    (h : ofArguments? arguments =
      some (.run config overrides (.expand document sourceDirectory output))) :
    (∀ path ∈ config, path.IsSpelled) ∧ document.IsSpelled ∧
      ∀ path ∈ sourceDirectory, path.IsSpelled := by
  obtain ⟨verb, front, back, hfront, hback, hsides⟩ :=
    comesFromSides_of_read? Given.isSpelled_empty h
  obtain ⟨operand, hoperand, heq⟩ := Option.map_eq_some_iff.mp hsides
  obtain ⟨rfl, -, hcommand⟩ := Request.run.inj heq
  cases verb with
  | extract => cases hcommand
  | deps => cases hcommand
  | expand =>
      obtain ⟨rfl, rfl, -⟩ := Command.expand.inj hcommand
      refine ⟨?_, hback.operand _ hoperand, hback.sourceDirectory⟩
      intro path hpath
      cases hconfig : back.config with
      | none =>
          rw [hconfig] at hpath
          exact hfront.config path hpath
      | some own =>
          rw [hconfig] at hpath
          obtain rfl := Option.some.inj hpath
          exact hback.config own hconfig

end Request

/-! ## §3. Writing an expansion down. -/

namespace Request

/-- An option with its value in one word. -/
def optionWord (option : OptionName) (value : Bytes) : Bytes :=
  hyphen :: hyphen :: (Utf8.encode option.long ++ equals :: value)

/-- The words that ask for an expansion without output. -/
def expandWords (config : Option Path) (overrides : List Text) (document : Path)
    (sourceDirectory : Option Path) : List Bytes :=
  Utf8.encode (Verb.name .expand) ::
    (config.toList.map (fun path => optionWord .config path.bytes) ++
      (overrides.map (fun text => optionWord .set (Utf8.encode text)) ++
        (sourceDirectory.toList.map (fun path => optionWord .srcdir path.bytes) ++
          [[hyphen, hyphen], document.bytes])))

section Words

variable {scope : List OptionName} {option : OptionName} {given : Given}

theorem shapeOf_optionWord (option : OptionName) (value : Bytes) :
    Shape.of (optionWord option value) = .long (Utf8.encode option.long ++ equals :: value) := by
  cases option <;> rfl

/-- The name of an option ends at the equals sign. -/
theorem splitFirst?_optionWord (option : OptionName) (value : Bytes) :
    splitFirst? equals (Utf8.encode option.long ++ equals :: value) =
      some (Utf8.encode option.long, value) := by
  have hname : equals ∉ Utf8.encode option.long := by cases option <;> decide
  exact splitFirst?_eq_some_iff.mpr ⟨hname, rfl⟩

theorem step_optionWord (hscope : scope.find? (·.isLong (Utf8.encode option.long)) = some option)
    (hvalue : option.takesValue = true) (value : Bytes) :
    Reading.step scope { given } (optionWord option value) =
      Reading.put { given } option value := by
  have hlong : Reading.long scope { given } (Utf8.encode option.long ++ equals :: value) =
      Reading.put { given } option value := by
    unfold Reading.long
    rw [splitFirst?_optionWord]
    simp only [hscope]
    show Except.bind (.ok option) _ = _
    simp only [Except.bind, hvalue]
  show Reading.take scope { given } (optionWord option value) = _
  unfold Reading.take
  rw [if_neg Bool.false_ne_true, shapeOf_optionWord]
  exact hlong

/-- Words in front that are read to a state are read first. -/
theorem foldlM_append_of_eq_ok {front : List Bytes} {reading middle : Reading}
    (h : front.foldlM (Reading.step scope) reading = .ok middle) (back : List Bytes) :
    (front ++ back).foldlM (Reading.step scope) reading =
      back.foldlM (Reading.step scope) middle := by
  rw [List.foldlM_append, h]
  rfl

end Words

/-- The words for overrides, one after the other. -/
theorem foldlM_overrides (overrides : List Text) :
    ∀ given : Given,
      (overrides.map fun text => optionWord .set (Utf8.encode text)).foldlM
          (Reading.step (Verb.scope .expand)) { given } =
        .ok { given := { given with overrides := given.overrides ++ overrides } } := by
  induction overrides with
  | nil =>
      intro given
      rw [List.append_nil]
      rfl
  | cons text rest ih =>
      intro given
      have hput : Reading.put { given } .set (Utf8.encode text) =
          .ok { given := { given with overrides := given.overrides ++ [text] } } := by
        unfold Reading.put Given.put?
        rw [Utf8.decode?_eq_some_iff.mpr rfl]
        rfl
      rw [List.map_cons, List.foldlM_cons, step_optionWord (by decide) rfl, hput]
      show List.foldlM _ _ _ = _
      rw [ih, List.append_assoc]
      rfl

/-- The word for a path, if there is one; `give` says what is given with and without it. -/
theorem foldlM_pathWord (option : OptionName) (path? : Option Path) (give : Option Path → Given)
    (hscope : (Verb.scope .expand).find? (·.isLong (Utf8.encode option.long)) = some option)
    (hvalue : option.takesValue = true)
    (hgive : ∀ path ∈ path?, (give none).put? path.bytes option = some (give (some path))) :
    (path?.toList.map fun path => optionWord option path.bytes).foldlM
        (Reading.step (Verb.scope .expand)) { given := give none } =
      .ok { given := give path? } := by
  cases path? with
  | none => rfl
  | some path =>
      rw [Option.toList_some, List.map_singleton, List.foldlM_cons,
        step_optionWord hscope hvalue]
      unfold Reading.put
      rw [hgive path rfl]
      rfl

/-- The document behind the end of all options. -/
theorem foldlM_document {document : Path} {given : Given} (hdocument : document.IsSpelled)
    (hgiven : given.operand = none) :
    [[hyphen, hyphen], document.bytes].foldlM (Reading.step (Verb.scope .expand)) { given } =
      .ok { given := { given with operand := some document }, operandsOnly := true } := by
  -- Behind the two hyphens a word of any shape is an operand.
  show Reading.operand { given, operandsOnly := true } document.bytes >>= _ = _
  unfold Reading.operand Given.operand?
  rw [Given.path?_eq_some_iff.mpr ⟨hgiven, hdocument, rfl⟩]
  rfl

variable {config sourceDirectory : Option Path} {document : Path}

/-- What the words behind the command give. -/
theorem readOperands_expandWords (hconfig : ∀ path ∈ config, path.IsSpelled)
    (hsource : ∀ path ∈ sourceDirectory, path.IsSpelled) (hdocument : document.IsSpelled)
    (overrides : List Text) :
    readOperands .expand (expandWords config overrides document sourceDirectory).tail =
      .ok { config, overrides, sourceDirectory, operand := some document } := by
  have hfile := foldlM_pathWord .config config (fun config => { config }) (by decide) rfl
    fun path hpath => Option.map_eq_some_iff.mpr
      ⟨path, Given.path?_eq_some_iff.mpr ⟨rfl, hconfig path hpath, rfl⟩, rfl⟩
  have hdirectory := foldlM_pathWord .srcdir sourceDirectory
    (fun sourceDirectory => { config, overrides := [] ++ overrides, sourceDirectory })
    (by decide) rfl
    fun path hpath => Option.map_eq_some_iff.mpr
      ⟨path, Given.path?_eq_some_iff.mpr ⟨rfl, hsource path hpath, rfl⟩, rfl⟩
  unfold readOperands expandWords
  rw [List.tail_cons, foldlM_append_of_eq_ok hfile,
    foldlM_append_of_eq_ok (foldlM_overrides overrides _), foldlM_append_of_eq_ok hdirectory,
    foldlM_document hdocument rfl]
  rfl

/-- **An expansion without output can be written down.** -/
theorem ofArguments?_expandWords (hconfig : ∀ path ∈ config, path.IsSpelled)
    (hsource : ∀ path ∈ sourceDirectory, path.IsSpelled) (hdocument : document.IsSpelled)
    (overrides : List Text) :
    ofArguments? (expandWords config overrides document sourceDirectory) =
      some (.run config overrides (.expand document sourceDirectory none)) := by
  have hoverrides : (if overrides = [] then [] else overrides) = overrides := by
    split
    case isTrue h => exact h.symm
    case isFalse => rfl
  show ofCommand? {} .expand (expandWords config overrides document sourceDirectory).tail = _
  unfold ofCommand?
  rw [readOperands_expandWords hconfig hsource hdocument]
  show some (Request.run (config <|> none) (if overrides = [] then [] else overrides) _) = _
  rw [hoverrides]
  cases config <;> rfl

/-- **What writes its text can be asked to print it.** -/
theorem exists_arguments_withoutOutput {arguments : List Bytes} {request : Request}
    (h : ofArguments? arguments = some request) :
    ∃ plain, ofArguments? plain = some request.withoutOutput := by
  cases request with
  | version => exact ⟨arguments, h⟩
  | help subject detailed => exact ⟨arguments, h⟩
  | run config overrides command =>
      cases command with
      | extract path format => exact ⟨arguments, h⟩
      | dependencies document sourceDirectory => exact ⟨arguments, h⟩
      | expand document sourceDirectory output =>
          obtain ⟨hconfig, hdocument, hsource⟩ := isSpelled_of_expand h
          exact ⟨_, ofArguments?_expandWords hconfig hsource hdocument overrides⟩

/-! ## §4. Asking for help. -/

/-- The option that asks for help. -/
def helpWord (detailed : Bool) : Bytes :=
  Utf8.encode (if detailed then "--help".toList else "-h".toList)

section Help

variable {verb : Verb} {reading settled : Reading}

/-- The option for help is no value, so everything in front of it is checked first. -/
theorem step_helpWord (hsettle : reading.settle = .ok settled)
    (hoptions : settled.operandsOnly = false) (detailed : Bool) :
    reading.step verb.scope (helpWord detailed) = .error (.help detailed) := by
  have htake : settled.take verb.scope (helpWord detailed) = .error (.help detailed) := by
    unfold Reading.take
    rw [if_neg (by simp [hoptions])]
    cases detailed <;> cases verb <;> rfl
  have hshape : Shape.of (helpWord detailed) ≠ .plain := by
    cases detailed <;> decide
  unfold Reading.step
  split
  · exact absurd ‹_› hshape
  · rw [hsettle]
    exact htake

/-- **Help is given whatever follows**, if the words in front of it can be read. -/
theorem help_goes_first (verb : Verb) (front : List Bytes)
    (hfront : front.foldlM (Reading.step verb.scope) {} = .ok reading)
    (hsettle : reading.settle = .ok settled) (hoptions : settled.operandsOnly = false)
    (detailed : Bool) (behind : List Bytes) :
    ofArguments? (Utf8.encode verb.name :: (front ++ helpWord detailed :: behind)) =
      some (.help (.command verb) detailed) := by
  have hread : readOperands verb (front ++ helpWord detailed :: behind) =
      .error (.help detailed) := by
    unfold readOperands
    rw [foldlM_append_of_eq_ok hfront, List.foldlM_cons, step_helpWord hsettle hoptions]
    rfl
  have hcall : ofArguments? (Utf8.encode verb.name :: (front ++ helpWord detailed :: behind)) =
      ofCommand? {} verb (front ++ helpWord detailed :: behind) := by
    cases verb <;> rfl
  rw [hcall]
  unfold ofCommand?
  rw [hread]
  rfl

end Help

end Request

end YamlDocs
